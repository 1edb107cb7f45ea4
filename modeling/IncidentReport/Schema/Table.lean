import IncidentReport.Schema.AttributeRule

/-!
The schema itself: for every node type its content, its attributes in the order
in which defaults are applied, and the types of its children.
-/

namespace IncidentReport

def reportNamespace : String := "http://icecast.org/specs/reportxml-0.0.1"

def reportVersion : String := "0.0.1"

/-- The attribute by which a node refers to a definition. -/
def definitionAttribute : String := "definition"

/-- The attribute that records which definition a node was expanded from. It is
written out under the name `definition`. -/
def provenanceAttribute : String := "_definition"

/-- The attribute under which a definition is filed. -/
def definesAttribute : String := "defines"

/-- The attribute by which a definition inherits from another one. -/
def templateAttribute : String := "template"

namespace NodeType

def content : NodeType → ContentClass
  | .text => .text
  | .timestamp => .none
  | .extension => .rawXml
  | _ => .children

def commonAttributes : List AttributeRule :=
  [.plain "id" "ID", .plain definitionAttribute "UUID", .plain "akindof" "UUIDs",
    .plain provenanceAttribute "UUID"]

def ownAttributes : NodeType → List AttributeRule
  | .report =>
    [.plain "id" "ID", .fixed "version" "CDATA" reportVersion,
      .fixed "xmlns" "URI" reportNamespace]
  | .definition =>
    [.plain templateAttribute "UUID",
      { AttributeRule.plain definesAttribute "UUID" with required := true }]
  | .position =>
    [.plain "function" "CDATA", .plain "filename" "CDATA", .plain "line" "CDATA",
      .plain "binary" "CDATA", .plain "offset" "CDATA"]
  | .action =>
    [.enumerated "type"
      ["retry", "choice", "see-other", "authenticate", "pay", "change-protocol", "slow-down",
        "ask-user", "ask-admin", "bug"]]
  | .text =>
    [.plain "lang" "LanguageCode",
      { AttributeRule.enumerated "dir" ["ltr", "rtl"] with required := false }]
  | .timestamp => [.plain "absolute" "iso8601", .plain "relative" "iso8601"]
  | .resource =>
    [.enumerated "type"
      ["actor", "manipulation-target", "helper", "related", "result", "parameter", "state"],
      { AttributeRule.plain "name" "CDATA" with required := true }]
  | .value =>
    [.plain "member" "CDATA", .plain "value" "CDATA",
      { AttributeRule.enumerated "state"
          ["declared", "set", "uninitialized", "missing", "unset", "removed"] with
        default := some "set" },
      .enumerated "type"
        ["null", "int", "float", "uuid", "string", "structure", "uri", "pointer", "version",
          "protocol", "username", "password", "boolean"]]
  | .reference =>
    [.enumerated "type" ["documentation", "log", "report", "related"], .plain "href" "URI"]
  | .extension => [{ AttributeRule.plain "application" "URI" with required := true }]
  | _ => []

def attributes (kind : NodeType) : List AttributeRule :=
  match kind with
  | .report => ownAttributes .report
  | kind => commonAttributes ++ ownAttributes kind

def attribute? (kind : NodeType) (name : String) : Option AttributeRule :=
  kind.attributes.find? (·.name == name)

/-- The types of the children listed for this type. -/
def childTypes : NodeType → List NodeType
  | .report => [.incident, .definition, .timestamp, .reference, .extension]
  | .definition =>
    [.incident, .state, .timestamp, .resource, .reference, .fix, .reason, .text, .extension]
  | .incident => [.state, .timestamp, .resource, .reference, .fix, .reason, .extension]
  | .state => [.text, .timestamp, .backtrace, .extension]
  | .backtrace => [.position, .more, .text, .reference]
  | .position => [.text, .reference, .extension]
  | .more => [.text]
  | .fix => [.action, .extension]
  | .action => [.text, .timestamp, .value, .extension]
  | .reason => [.text, .resource, .reference, .extension]
  | .resource => [.value, .reference, .extension]
  | .value => [.text, .reference, .value, .position, .extension]
  | .reference => [.text, .extension]
  | .text | .timestamp | .extension => []

/-- Whether a child of type `child` may stand under a node of type `kind`. -/
def permits (kind child : NodeType) : Bool :=
  kind.content == .children && kind.childTypes.contains child

def defaults (kind : NodeType) : List (String × String) :=
  kind.attributes.filterMap fun rule => rule.default.map (rule.name, ·)

/-- A type lists children only if it holds children. -/
theorem permits_eq_contains (kind child : NodeType) :
    kind.permits child = kind.childTypes.contains child := by
  cases kind <;> rfl

end NodeType

end IncidentReport
