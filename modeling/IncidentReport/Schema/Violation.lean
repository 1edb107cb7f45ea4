import IncidentReport.Schema.NodeType

/-!
The ways in which an edit can break the schema, and their wording.
-/

namespace IncidentReport

/-- Why the schema refuses an element or an edit. -/
inductive Violation where
  /-- No node type has this tag. -/
  | unknownTag (tag : String)
  /-- The type carries no attribute of this name. -/
  | unknownAttribute (kind : NodeType) (name : String)
  /-- The value is outside the closed set of the attribute. -/
  | valueNotAllowed (kind : NodeType) (name value : String)
  /-- The checker of the attribute turned the value down. -/
  | checkerRejected (kind : NodeType) (name value : String)
  /-- The edit needs a node with other content. -/
  | contentMismatch (kind : NodeType) (required actual : ContentClass)
  /-- A child of this type has no place under such a parent. -/
  | childNotPermitted (parent child : NodeType)
  /-- The child already contains the parent. -/
  | cyclicAttachment (parent child : NodeType)
  deriving DecidableEq, Repr

def Violation.message : Violation → String
  | .unknownTag tag => s!"unknown element: <{tag}>"
  | .unknownAttribute kind name => s!"attribute '{name}' is not permitted on <{kind.name}>"
  | .valueNotAllowed kind name value => s!"value '{value}' is not allowed for <{kind.name} {name}>"
  | .checkerRejected kind name value =>
    s!"value '{value}' rejected by checker for <{kind.name} {name}>"
  | .contentMismatch kind required actual =>
    s!"<{kind.name}> holds {actual.label} content, operation needs {required.label}"
  | .childNotPermitted parent child => s!"<{child.name}> is not permitted under <{parent.name}>"
  | .cyclicAttachment parent child =>
    s!"attaching <{child.name}> under <{parent.name}> would create a cycle"

end IncidentReport
