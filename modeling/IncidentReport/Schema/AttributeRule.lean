import IncidentReport.Schema.Violation

/-!
What the schema says about one attribute of a node type, and when it accepts a
value: the value is in the closed set, if there is one, and then passes the
checker, if there is one.
-/

namespace IncidentReport

structure AttributeRule where
  name : String
  /-- A label for the kind of value, shown to readers and not checked. -/
  valueType : Option String
  /-- The value a new node starts with. -/
  default : Option String
  /-- Whether a complete document carries the attribute. -/
  required : Bool
  /-- The values permitted; any value if there are none. -/
  values : List String
  /-- A last test of the value. -/
  checker : Option (String → Bool)

namespace AttributeRule

/-- An optional attribute that takes any value. -/
def plain (name valueType : String) : AttributeRule where
  name := name
  valueType := some valueType
  default := none
  required := false
  values := []
  checker := none

/-- A required attribute with a closed set of values. -/
def enumerated (name : String) (values : List String) : AttributeRule where
  name := name
  valueType := none
  default := none
  required := true
  values := values
  checker := none

/-- A required attribute with a single value, which new nodes carry. -/
def fixed (name valueType value : String) : AttributeRule where
  name := name
  valueType := some valueType
  default := some value
  required := true
  values := [value]
  checker := none

/-- Accepts a value or says why not. The closed set is looked at first. -/
def check (rule : AttributeRule) (kind : NodeType) (value : String) : Except Violation Unit :=
  if !rule.values.isEmpty && !rule.values.contains value then
    .error (.valueNotAllowed kind rule.name value)
  else if rule.checker.any fun accepts => !accepts value then
    .error (.checkerRejected kind rule.name value)
  else
    .ok ()

end AttributeRule

end IncidentReport
