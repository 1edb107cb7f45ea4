import IncidentReport.Forest.Document

/-!
A library of definitions taken from reports. An import copies the definitions
that stand directly under the root and files each under the value that its
`defines` attribute has at that moment; later edits do not refile it.
-/

namespace IncidentReport

/-- The definitions of the reports imported so far. -/
structure Library where
  /-- The definitions under each id in import order; the ids in the order of
  their first import. -/
  keyed : List (String × List NodeId)
  /-- The definitions without an id, which no search finds. -/
  unkeyed : List NodeId
  deriving Inhabited, Repr

/-- Why a text was not imported. -/
inductive ImportError where
  | parse (error : ParseError)
  deriving DecidableEq, Repr

def ImportError.message : ImportError → String
  | .parse error => s!"cannot import report: {error.message}"

/-- The texts of the errors that this one wraps, outermost first. -/
def ImportError.causes : ImportError → List String
  | .parse error => error.message :: error.causes

namespace Library

def empty : Library :=
  ⟨[], []⟩

/-- Adds a definition behind those that are filed under the same id. -/
def fileUnder : List (String × List NodeId) → String → NodeId → List (String × List NodeId)
  | [], key, node => [(key, [node])]
  | (k, nodes) :: rest, key, node =>
    if k = key then (k, nodes ++ [node]) :: rest else (k, nodes) :: fileUnder rest key node

def file (lib : Library) (key? : Option String) (node : NodeId) : Library :=
  match key? with
  | some key => { lib with keyed := fileUnder lib.keyed key node }
  | none => { lib with unkeyed := lib.unkeyed ++ [node] }

def filedUnder : List (String × List NodeId) → String → List NodeId
  | [], _ => []
  | (k, nodes) :: rest, key => if k = key then nodes else filedUnder rest key

/-- The definitions filed under an id, in import order. -/
def findAll (lib : Library) (key : String) : List NodeId :=
  filedUnder lib.keyed key

/-- The first definition filed under an id. -/
def find? (lib : Library) (key : String) : Option NodeId :=
  (lib.findAll key).head?

def size (lib : Library) : Nat :=
  (lib.keyed.flatMap (·.2)).length + lib.unkeyed.length

def isEmpty (lib : Library) : Bool :=
  lib.size == 0

def ids (lib : Library) : List String :=
  lib.keyed.map (·.1)

theorem filedUnder_fileUnder (keyed : List (String × List NodeId)) (key other : String)
    (node : NodeId) :
    filedUnder (fileUnder keyed key node) other =
      if key = other then filedUnder keyed other ++ [node] else filedUnder keyed other := by
  induction keyed with
  | nil => simp [fileUnder, filedUnder]
  | cons entry rest ih =>
    obtain ⟨k, nodes⟩ := entry
    by_cases hk : k = key
    · subst hk
      by_cases ho : k = other <;> simp [fileUnder, filedUnder, ho]
    · by_cases ho : k = other
      · subst ho
        simp [fileUnder, filedUnder, hk, Ne.symm hk]
      · simp [fileUnder, filedUnder, hk, ho, ih]

/-- A definition comes behind those that are filed under the same id, and under no
other id. -/
theorem findAll_file (lib : Library) (key? : Option String) (node : NodeId) (key : String) :
    (lib.file key? node).findAll key =
      if key? = some key then lib.findAll key ++ [node] else lib.findAll key := by
  cases key? with
  | none => rfl
  | some k => simp [file, findAll, filedUnder_fileUnder]

def importAll (lib : Library) (f : Forest) : List Tree → Library × Forest
  | [] => (lib, f)
  | t :: ts =>
    let (node, f) := f.plant t
    (lib.file (t.attribute? definesAttribute) node).importAll f ts

/-- Imports some definitions and says how many they are. -/
def importDefinitions (lib : Library) (f : Forest) (definitions : List Tree) :
    Nat × Library × Forest :=
  (definitions.length, lib.importAll f definitions)

/-- Imports the definitions under the root of a report. -/
def importReport (lib : Library) (f : Forest) (report : Document) : Nat × Library × Forest :=
  lib.importDefinitions f
    (((f.children report.root).filter fun id => (f.get id).kind = .definition).map f.tree)

def importText (lib : Library) (f : Forest) (text : String) :
    Except ImportError (Nat × Library × Forest) :=
  ((Report.parse text).mapError .parse).map fun report =>
    lib.importDefinitions f (report.children.filter fun t => t.kind = .definition)

end Library

end IncidentReport
