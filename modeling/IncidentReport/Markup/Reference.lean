import IncidentReport.Markup.Fault

/-!
Character references such as `&#65;` and `&#x41;`. The number is read from the
left, so that the first problem on the way decides the fault.
-/

namespace IncidentReport.Markup.Reference

/-- The value of a digit in the given base, letters in either case. -/
def digit? (base : Nat) (c : Char) : Option Nat :=
  let value :=
    if '0' ≤ c ∧ c ≤ '9' then c.toNat - '0'.toNat
    else if 'a' ≤ c ∧ c ≤ 'z' then c.toNat - 'a'.toNat + 10
    else if 'A' ≤ c ∧ c ≤ 'Z' then c.toNat - 'A'.toNat + 10
    else base
  if value < base then some value else none

/-- Reads digits behind a number already read. The number fits 32 bits. -/
def digits (base : Nat) : Nat → List Char → Except ReferenceFault Nat
  | n, [] => .ok n
  | n, c :: cs =>
    match digit? base c with
    | none => .error .digit
    | some d =>
      if n * base + d < 2 ^ 32 then digits base (n * base + d) cs else .error .tooLarge

def number (base : Nat) : List Char → Except ReferenceFault Nat
  | [] => .error .empty
  | c :: cs => if c = '+' ∨ c = '-' then .error .sign else digits base 0 (c :: cs)

/-- The character meant by what stands between `&#` and the semicolon. -/
def char (body : List Char) : Except ReferenceFault Char := do
  let code ← match body with
    | 'x' :: hex => number 16 hex
    | decimal => number 10 decimal
  if code = 0 then
    throw .zero
  else if code.isValidChar then
    return Char.ofNat code
  else
    throw (.noCharacter code)

end IncidentReport.Markup.Reference
