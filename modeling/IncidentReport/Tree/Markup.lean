import IncidentReport.Tree.Basic
import IncidentReport.Tree.ParseError

/-!
Trees read from markup and written as markup. Reading goes through an element
in order, tag, attributes, children, and stops at the first violation; what is
wrong inside a child comes before the question whether the child has a place.
-/

namespace IncidentReport.Tree

/-- The node that an element starts out as: its type with the defaults, then the
attributes of the element. -/
def startNode (tag : String) (attributes : AttributeList) : Except ParseError (Node Tree) :=
  match NodeType.ofName? tag with
  | none => .error (.unknownElement tag)
  | some kind => ((Node.new kind).setAttributes attributes).mapError .schema

mutual

/-- Reads a child of an element into the node read so far. An extension takes
everything as it is. Elsewhere comments and blank text are left out, and text
replaces the text read before. -/
def readChild (parent : Node Tree) (child : Markup.Node) : Except ParseError (Node Tree) :=
  if parent.kind.content = .rawXml then
    (parent.addFragment child).mapError .schema
  else
    match child with
    | .comment _ => .ok parent
    | .text content | .cdata content =>
      if child.isBlank then .ok parent else (parent.setContent content).mapError .schema
    | .element tag attributes nodes => do
      let node ← readChildren (← startNode tag attributes) nodes
      (parent.addChild node.kind ⟨node⟩).mapError .schema

def readChildren (parent : Node Tree) : List Markup.Node → Except ParseError (Node Tree)
  | [] => .ok parent
  | node :: nodes => do readChildren (← readChild parent node) nodes

end

/-- The tree that an element stands for. -/
def ofElement (e : Markup.Element) : Except ParseError Tree := do
  return ⟨← readChildren (← startNode e.name e.attributes) e.children⟩

/-- The attributes as they are written. The mark of provenance goes out as
`definition`, in the place of that attribute if there is one. -/
def writtenAttributes (attributes : Attributes) : AttributeList :=
  let shown : AttributeList := attributes.entries.filter (·.1 ≠ provenanceAttribute)
  match attributes.get? provenanceAttribute with
  | some mark => shown.put definitionAttribute mark
  | none => shown

mutual

def toElement : Tree → Markup.Element
  | ⟨⟨kind, attributes, body⟩⟩ => ⟨kind.name, writtenAttributes attributes, bodyNodes body⟩

def bodyNodes : Body Tree → List Markup.Node
  | .empty => []
  | .children ts => treeNodes ts
  | .text content => (content.map Markup.Node.text).toList
  | .foreign fragments => fragments

def treeNodes : List Tree → List Markup.Node
  | [] => []
  | t :: ts => t.toElement.toNode :: treeNodes ts

end

end IncidentReport.Tree
