/-!
Classes of characters given by ranges of code points. Both ends of a range belong to it.
-/

namespace IncidentReport.Text

/-- Whether the code point of the character lies in one of the ranges. -/
def inRanges (ranges : List (Nat × Nat)) (c : Char) : Bool :=
  ranges.any fun (first, last) => first ≤ c.toNat && c.toNat ≤ last

/-- The number of code points in ranges that do not overlap. -/
def rangesSize (ranges : List (Nat × Nat)) : Nat :=
  ranges.foldl (fun size (first, last) => size + (last - first + 1)) 0

/-- Whether the ranges are listed in ascending order, with a gap after each. -/
def areApart : List (Nat × Nat) → Bool
  | (first, last) :: (first', last') :: ranges =>
    first ≤ last && last + 1 < first' && areApart ((first', last') :: ranges)
  | [(first, last)] => first ≤ last
  | [] => true

end IncidentReport.Text
