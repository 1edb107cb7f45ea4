import IncidentReport.Schema.Violation

/-!
Why a definition was not expanded, or not made into a report.
-/

namespace IncidentReport

/-- Why a definition was not expanded, or not made into a report. -/
inductive ResolveError where
  /-- Nothing is filed under the id. -/
  | notFound (id : String)
  /-- The budget was used up before the id. -/
  | depthExhausted (id : String)
  /-- The expansion starts with a node of a type that no report is made of. -/
  | unsupported (id : String) (found : NodeType)
  /-- An expanded node has no place under its parent. -/
  | schema (violation : Violation)
  deriving DecidableEq, Repr

namespace ResolveError

def message : ResolveError → String
  | .notFound id => s!"definition not found: {id}"
  | .depthExhausted id => s!"depth budget exhausted while resolving {id}"
  | .unsupported id found =>
    s!"definition {id} resolves to <{found.name}>, expected <incident> or <state>"
  | .schema violation => s!"schema violation: {violation.message}"

/-- Whether the definition was missing or out of reach. -/
def isNotFound : ResolveError → Bool
  | .notFound _ | .depthExhausted _ => true
  | .unsupported .. | .schema _ => false

/-- The texts of the errors that this one wraps, outermost first. -/
def causes : ResolveError → List String
  | .schema violation => [violation.message]
  | .notFound _ | .depthExhausted _ | .unsupported .. => []

end ResolveError

end IncidentReport
