import IncidentReport.Forest.Walk

/-!
Trees made into nodes of a forest. Planting makes a new node for every node of
the tree, so what is planted shares nothing.
-/

namespace IncidentReport.Forest

mutual

/-- Makes new nodes for a tree, children before parents. -/
def plant (f : Forest) : Tree → NodeId × Forest
  | ⟨⟨kind, attributes, body⟩⟩ =>
    let (body, f) := f.plantBody body
    f.add ⟨kind, attributes, body⟩

def plantBody (f : Forest) : Body Tree → Body NodeId × Forest
  | .empty => (.empty, f)
  | .children ts =>
    let (ids, f) := f.plantAll ts
    (.children ids, f)
  | .text content => (.text content, f)
  | .foreign fragments => (.foreign fragments, f)

def plantAll (f : Forest) : List Tree → List NodeId × Forest
  | [] => ([], f)
  | t :: ts =>
    let (id, f) := f.plant t
    let (ids, f) := f.plantAll ts
    (id :: ids, f)

end

/-- A copy of a node with copies of all that is below it. -/
def copy (f : Forest) (id : NodeId) : NodeId × Forest :=
  f.plant (f.tree id)

def copyAlone (f : Forest) (id : NodeId) : NodeId × Forest :=
  f.add (f.get id).withoutChildren

end IncidentReport.Forest
