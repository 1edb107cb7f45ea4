import IncidentReport.Text.GraphemeExtend
import IncidentReport.Text.Visible

/-!
Strings in quotes, for readers who look at values. What cannot be seen, or would be drawn onto
its neighbour, is given by the number of its code point.
-/

namespace IncidentReport.Text

/-- A character between quotes. The usual escapes come before the number. -/
def quotedChar (c : Char) : List Char :=
  if c = '"' ∨ c = '\\' then ['\\', c]
  else if c = '\t' then ['\\', 't']
  else if c = '\r' then ['\\', 'r']
  else if c = '\n' then ['\\', 'n']
  else if c = '\x00' then ['\\', '0']
  else if isVisible c && !isAttached c then [c]
  else ['\\', 'u', '\x7b'] ++ Nat.toDigits 16 c.toNat ++ ['\x7d']

def quoted (s : String) : String :=
  String.ofList ('"' :: s.toList.flatMap quotedChar ++ ['"'])

example : quotedChar 'é' = ['é'] := by decide +kernel
example : quotedChar '\u0301' = "\\u\x7b301\x7d".toList := by decide +kernel
example : quotedChar '\uFF9E' = ['\uFF9E'] := by decide +kernel
example : quotedChar '\u3000' = "\\u\x7b3000\x7d".toList := by decide +kernel

end IncidentReport.Text
