import IncidentReport.Text.CodePointRange

/-!
The property White_Space of Unicode: twenty-five characters.
-/

namespace IncidentReport.Text

def whiteSpaceRanges : List (Nat × Nat) :=
  [(0x09, 0x0D), (0x20, 0x20), (0x85, 0x85), (0xA0, 0xA0), (0x1680, 0x1680), (0x2000, 0x200A),
    (0x2028, 0x2029), (0x202F, 0x202F), (0x205F, 0x205F), (0x3000, 0x3000)]

def isWhiteSpace (c : Char) : Bool :=
  inRanges whiteSpaceRanges c

example : areApart whiteSpaceRanges ∧ rangesSize whiteSpaceRanges = 25 := by decide

end IncidentReport.Text
