import IncidentReport.Json.Basic

/-!
The settings of resolution and their text. The text is an object with an
optional member, or an array that gives the members in order.
-/

namespace IncidentReport

structure Settings where
  /-- The budget of a call that does not bring one. -/
  defaultDepth : Nat := 8
  deriving DecidableEq, Repr, Inhabited

namespace Settings

def standard : Settings := {}

def depth (s : Settings) (requested : Option Nat) : Nat :=
  requested.getD s.defaultDepth

def depthKey : List Char :=
  ['d', 'e', 'f', 'a', 'u', 'l', 't', '_', 'd', 'e', 'p', 't', 'h']

def decimal (digits : List Char) : Nat :=
  digits.foldl (fun n c => n * 10 + (c.toNat - '0'.toNat)) 0

/-- The largest budget: the largest number of 32 bits. -/
def maxDepth : Nat := 4294967295

/-- A depth is a plain number up to `maxDepth`. -/
def depth? : Json.Value → Option Nat
  | .number literal =>
    if literal.all Json.isDigit && decimal literal ≤ maxDepth then some (decimal literal) else none
  | .null | .bool _ | .string _ | .array _ | .object _ => none

/-- The settings that a value stands for. Members of other names are passed over,
but every name has to be a proper text, and none may occur twice that counts. -/
def ofValue? : Json.Value → Option Settings
  | .array [] => some standard
  | .array [v] => (depth? v).map Settings.mk
  | .object members => do
    let members ← members.mapM fun (name, v) => (Json.unquote? name).map (·, v)
    match members.filter (·.1 = depthKey) with
    | [] => some standard
    | [(_, v)] => (depth? v).map Settings.mk
    | _ => none
  | .array _ | .null | .bool _ | .number _ | .string _ => none

def parse? (text : String) : Option Settings := do
  ofValue? (← Json.parse? text.toList)

def print (s : Settings) : String :=
  "\x7b\"default_depth\":" ++ toString s.defaultDepth ++ "\x7d"

end Settings

end IncidentReport
