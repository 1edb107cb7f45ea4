/-!
The sixteen types of node that an incident report is made of, the order in
which they are listed, and the four kinds of content a type may hold.
-/

namespace IncidentReport

/-- What a node holds besides its attributes. -/
inductive ContentClass where
  | none
  | children
  | text
  | rawXml
  deriving DecidableEq, Repr, Inhabited

/-- The word for a content class in messages. -/
def ContentClass.label : ContentClass → String
  | .none => "none"
  | .children => "children"
  | .text => "text"
  | .rawXml => "raw-xml"

/-- The type of a node. The constructors stand in the order of the schema. -/
inductive NodeType where
  /-- The root of a document. -/
  | report
  /-- A named tree that other nodes may refer to. -/
  | definition
  /-- One reported incident. -/
  | incident
  /-- What was observed during an incident. -/
  | state
  /-- A call stack. -/
  | backtrace
  /-- A frame of a call stack, or a place a value points to. -/
  | position
  /-- A mark for frames left out. -/
  | more
  /-- A way out of the incident. -/
  | fix
  /-- A step of a fix. -/
  | action
  /-- Why the incident happened. -/
  | reason
  /-- Text for a reader. -/
  | text
  /-- A point or a span in time. -/
  | timestamp
  /-- Something that took part in the incident. -/
  | resource
  /-- The value of a resource or of a member of a value. -/
  | value
  /-- A link to other material. -/
  | reference
  /-- Markup from outside the schema. -/
  | extension
  deriving DecidableEq, Repr, Ord, Inhabited

namespace NodeType

/-- Every node type, in schema order. -/
def all : List NodeType :=
  [.report, .definition, .incident, .state, .backtrace, .position, .more, .fix,
    .action, .reason, .text, .timestamp, .resource, .value, .reference, .extension]

/-- The tag of an element of this type. -/
def name : NodeType → String
  | .report => "report"
  | .definition => "definition"
  | .incident => "incident"
  | .state => "state"
  | .backtrace => "backtrace"
  | .position => "position"
  | .more => "more"
  | .fix => "fix"
  | .action => "action"
  | .reason => "reason"
  | .text => "text"
  | .timestamp => "timestamp"
  | .resource => "resource"
  | .value => "value"
  | .reference => "reference"
  | .extension => "extension"

/-- The place of a type in the schema, counted from zero. -/
def index (kind : NodeType) : Nat :=
  all.idxOf kind

/-- The type whose elements carry this tag. -/
def ofName? (tag : String) : Option NodeType :=
  all.find? (·.name == tag)

/-- The type that all members of a list have; `none` if there is no such type or no
member. -/
def common? : List NodeType → Option NodeType
  | [] => none
  | kind :: kinds => if kinds.all (· == kind) then some kind else none

@[simp] theorem ofName?_name (kind : NodeType) : ofName? kind.name = some kind := by
  cases kind <;> decide

theorem ofName?_eq_some_iff {tag : String} {kind : NodeType} :
    ofName? tag = some kind ↔ kind.name = tag := by
  constructor
  · intro h
    simpa using List.find?_some h
  · rintro rfl
    exact ofName?_name kind

theorem name_injective {a b : NodeType} (h : a.name = b.name) : a = b := by
  simpa [h] using (ofName?_name a).symm

end NodeType

end IncidentReport
