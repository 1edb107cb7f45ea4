import IncidentReport.Forest.Walk

/-!
Edits of a node in a forest. An edit that the schema refuses returns no forest,
so the one before it stays; an edit that it accepts changes one node.
-/

namespace IncidentReport.Forest

/-- Replaces a node by what an edit makes of it. -/
def edit (f : Forest) (id : NodeId) (change : Node NodeId → Except Violation (Node NodeId)) :
    Except Violation Forest :=
  (change (f.get id)).map (f.set id)

def setAttribute (f : Forest) (id : NodeId) (name value : String) : Except Violation Forest :=
  f.edit id (·.setAttribute name value)

def setContent (f : Forest) (id : NodeId) (content : String) : Except Violation Forest :=
  f.edit id (·.setContent content)

def clearContent (f : Forest) (id : NodeId) : Except Violation Forest :=
  f.edit id Node.clearContent

def addFragment (f : Forest) (id : NodeId) (fragment : Markup.Node) : Except Violation Forest :=
  f.edit id (·.addFragment fragment)

/-- Puts a node under another one, as it is. After the types have been checked,
a child that contains the parent is refused. -/
def addChild (f : Forest) (parent child : NodeId) : Except Violation Forest :=
  let kind := (f.get child).kind
  f.edit parent fun node => do
    node.checkChild kind
    if f.contains child parent then throw (.cyclicAttachment node.kind kind)
    return node.push child

end IncidentReport.Forest
