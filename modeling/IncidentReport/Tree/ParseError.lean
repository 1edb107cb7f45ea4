import IncidentReport.Markup.Fault
import IncidentReport.Schema.Violation

/-!
Why a text or a piece of markup is not a report.
-/

namespace IncidentReport

/-- Why a text or a piece of markup is not a report. -/
inductive ParseError where
  /-- The text is no markup. -/
  | markup (error : Markup.Error)
  /-- No node type has this tag. -/
  | unknownElement (tag : String)
  /-- The schema refuses an attribute or a child. -/
  | schema (violation : Violation)
  /-- The root is of another type. -/
  | notAReport (found : NodeType)
  deriving DecidableEq, Repr

def ParseError.message : ParseError → String
  | .markup error => s!"xml error: {error.message}"
  | .unknownElement tag => s!"unknown element: <{tag}>"
  | .schema violation => s!"schema violation: {violation.message}"
  | .notAReport found => s!"document root must be <report>, found <{found.name}>"

/-- The texts of the errors that this one wraps, outermost first. -/
def ParseError.causes : ParseError → List String
  | .markup error => [error.message]
  | .schema violation => [violation.message]
  | .unknownElement _ | .notAReport _ => []

end IncidentReport
