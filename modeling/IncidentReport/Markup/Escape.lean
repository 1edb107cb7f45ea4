import IncidentReport.Markup.Reference
import IncidentReport.Text.Width

/-!
Escapes in text and in attribute values. Writing escapes the five characters
that have a predefined entity. Reading also knows character references.
-/

namespace IncidentReport.Markup

open Text

/-- A character as it is written. -/
def escapeChar : Char → List Char
  | '<' => ['&', 'l', 't', ';']
  | '>' => ['&', 'g', 't', ';']
  | '&' => ['&', 'a', 'm', 'p', ';']
  | '\'' => ['&', 'a', 'p', 'o', 's', ';']
  | '"' => ['&', 'q', 'u', 'o', 't', ';']
  | c => [c]

def escape (cs : List Char) : List Char :=
  cs.flatMap escapeChar

/-- The character that a predefined entity stands for. -/
def entity? : List Char → Option Char
  | ['l', 't'] => some '<'
  | ['g', 't'] => some '>'
  | ['a', 'm', 'p'] => some '&'
  | ['a', 'p', 'o', 's'] => some '\''
  | ['q', 'u', 'o', 't'] => some '"'
  | _ => none

/-- The character meant by what stands between an ampersand, which ends at the
byte `start`, and its semicolon. -/
def readEntity (start : Nat) : List Char → Except Fault Char
  | '#' :: body => (Reference.char body).mapError .badReference
  | name =>
    match entity? name with
    | some c => .ok c
    | none => .error (.unknownEntity start (start + byteCount name) (String.ofList name))

mutual

/-- Reads text from byte `position` on. `width` is the size of the whole text. -/
def unescapeFrom (width : Nat) (position : Nat) : List Char → Except Fault (List Char)
  | [] => .ok []
  | c :: cs =>
    if c = '&' then
      unescapeEntity width (position + 1) [] cs
    else
      (unescapeFrom width (position + c.utf8Size) cs).map (c :: ·)

/-- Reads on inside an entity whose name starts at byte `start`. The part of the
name already read is `name`, last character first. -/
def unescapeEntity (width : Nat) (start : Nat) (name : List Char) :
    List Char → Except Fault (List Char)
  | [] => .error (.unclosedEntity (start - 1) width)
  | c :: cs =>
    if c = ';' then do
      let meant ← readEntity start name.reverse
      let rest ← unescapeFrom width (start + byteCount name + 1) cs
      return meant :: rest
    else if c = '&' then
      .error (.unclosedEntity (start - 1) width)
    else
      unescapeEntity width start (c :: name) cs

end

/-- The text that was written as `cs`. -/
def unescape (cs : List Char) : Except Fault (List Char) :=
  unescapeFrom (byteCount cs) 0 cs

end IncidentReport.Markup
