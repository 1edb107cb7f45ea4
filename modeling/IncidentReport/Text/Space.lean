/-!
The characters that separate tokens, in markup and in settings alike.
-/

namespace IncidentReport.Text

/-- Space, tab, carriage return and line feed. -/
def isSpace (c : Char) : Bool :=
  c == ' ' || c == '\t' || c == '\r' || c == '\n'

end IncidentReport.Text
