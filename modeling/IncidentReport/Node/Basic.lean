import IncidentReport.Markup.Basic
import IncidentReport.Node.Attributes
import IncidentReport.Schema.Table

/-!
A node of a report, apart from how its children are held: they are trees in a
tree and handles in a forest. Every edit is checked against the schema, and a
refused edit returns no node.
-/

namespace IncidentReport

/-- What a node holds; the form is that of the content class of its type. -/
inductive Body (χ : Type) where
  | empty
  | children (nodes : List χ)
  | text (content : Option String)
  | foreign (fragments : List Markup.Node)

/-- A node whose children are given as `χ`. -/
structure Node (χ : Type) where
  kind : NodeType
  attributes : Attributes
  body : Body χ

namespace Body

def ofClass {χ : Type} : ContentClass → Body χ
  | .none => .empty
  | .children => .children []
  | .text => .text none
  | .rawXml => .foreign []

end Body

namespace Node

variable {χ : Type}

def blank (kind : NodeType) : Node χ :=
  ⟨kind, .empty, .ofClass kind.content⟩

/-- A node with the defaults of its type. -/
def new (kind : NodeType) : Node χ :=
  { blank kind with attributes := .ofList kind.defaults }

instance : Inhabited (Node χ) := ⟨new .report⟩

def attribute? (n : Node χ) (name : String) : Option String :=
  n.attributes.get? name

/-- Sets an attribute that the type carries to a value that its rule accepts. -/
def setAttribute (n : Node χ) (name value : String) : Except Violation (Node χ) :=
  match n.kind.attribute? name with
  | none => .error (.unknownAttribute n.kind name)
  | some rule => (rule.check n.kind value).map fun _ =>
    { n with attributes := n.attributes.insert name value }

/-- Sets some attributes, from the left, up to the first that is refused. -/
def setAttributes (n : Node χ) : AttributeList → Except Violation (Node χ)
  | [] => .ok n
  | (name, value) :: rest => do setAttributes (← n.setAttribute name value) rest

/-- Defaults pass their own rules, so a new node could also be made by edits. -/
theorem setAttributes_defaults (kind : NodeType) :
    (blank kind : Node χ).setAttributes kind.defaults = .ok (new kind) := by
  cases kind <;> rfl

/-- A new node with those of the attributes `id`, `definition` and `akindof` that
are given. -/
def withIdentity (kind : NodeType) (id definition akindof : Option String) :
    Except Violation (Node χ) :=
  (new kind).setAttributes
    ([("id", id), (definitionAttribute, definition), ("akindof", akindof)].filterMap
      fun (name, value?) => value?.map (name, ·))

/-- The attributes that a complete node of this type needs and this one lacks. -/
def missingAttributes (n : Node χ) : List String :=
  n.kind.attributes.filterMap fun rule =>
    if rule.required && !n.attributes.contains rule.name then some rule.name else none

def mismatch (n : Node χ) (required : ContentClass) : Violation :=
  .contentMismatch n.kind required n.kind.content

/-- The children, for any type of node. -/
def children (n : Node χ) : List χ :=
  match n.body with
  | .children nodes => nodes
  | .empty | .text _ | .foreign _ => []

/-- Whether a child of type `child` may be added, as far as types go. -/
def checkChild (n : Node χ) (child : NodeType) : Except Violation Unit :=
  if n.kind.content ≠ .children then
    .error (n.mismatch .children)
  else if !n.kind.permits child then
    .error (.childNotPermitted n.kind child)
  else
    .ok ()

/-- Appends a child to a node that holds children. -/
def push (n : Node χ) (child : χ) : Node χ :=
  match n.body with
  | .children nodes => { n with body := .children (nodes ++ [child]) }
  | .empty | .text _ | .foreign _ => n

/-- Appends a child of type `kind`, if it is permitted. -/
def addChild (n : Node χ) (kind : NodeType) (child : χ) : Except Violation (Node χ) :=
  (n.checkChild kind).map fun _ => n.push child

/-- The text content, for any type of node. -/
def content? (n : Node χ) : Option String :=
  match n.body with
  | .text content => content
  | .empty | .children _ | .foreign _ => none

/-- Replaces the text content; `none` takes it away. -/
def replaceContent (n : Node χ) (content : Option String) : Except Violation (Node χ) :=
  match n.body with
  | .text _ => .ok { n with body := .text content }
  | .empty | .children _ | .foreign _ => .error (n.mismatch .text)

def setContent (n : Node χ) (content : String) : Except Violation (Node χ) :=
  n.replaceContent (some content)

def clearContent (n : Node χ) : Except Violation (Node χ) :=
  n.replaceContent none

/-- The markup held, for any type of node. -/
def fragments (n : Node χ) : List Markup.Node :=
  match n.body with
  | .foreign fragments => fragments
  | .empty | .children _ | .text _ => []

def addFragment (n : Node χ) (fragment : Markup.Node) : Except Violation (Node χ) :=
  match n.body with
  | .foreign fragments => .ok { n with body := .foreign (fragments ++ [fragment]) }
  | .empty | .children _ | .text _ => .error (n.mismatch .rawXml)

/-- The node with other children, if it holds children. -/
def withChildren {ψ : Type} (n : Node χ) (nodes : List ψ) : Node ψ :=
  { kind := n.kind
    attributes := n.attributes
    body := match n.body with
      | .empty => .empty
      | .children _ => .children nodes
      | .text content => .text content
      | .foreign fragments => .foreign fragments }

/-- The node without its children. All else is kept. -/
def withoutChildren (n : Node χ) : Node χ :=
  n.withChildren []

/-- Whether two nodes are the same up to the order of attributes, given when two
children are. Nodes with different numbers of children differ, whatever these are. -/
def sameBy {ψ : Type} (sameChild : χ → ψ → Bool) (m : Node χ) (n : Node ψ) : Bool :=
  m.kind == n.kind && m.attributes.same n.attributes &&
    match m.body, n.body with
    | .empty, .empty => true
    | .children ts, .children us =>
      ts.length == us.length && (ts.zip us).all fun (t, u) => sameChild t u
    | .text a, .text b => a == b
    | .foreign as, .foreign bs => as == bs
    | _, _ => false

end Node

end IncidentReport
