import IncidentReport.Node.Basic

/-!
Nodes that are shared. A forest holds nodes, a handle names one of them, and the
children of a node are given by handles, so that a node may stand under several
parents and an edit of it shows under all of them.
-/

namespace IncidentReport

structure NodeId where
  index : Nat
  deriving DecidableEq, Hashable, Repr, Inhabited

/-- Nodes, in the order in which they were made. No node ever goes away. -/
structure Forest where
  nodes : Array (Node NodeId)

namespace Forest

def empty : Forest :=
  ⟨#[]⟩

instance : Inhabited Forest := ⟨empty⟩

def size (f : Forest) : Nat :=
  f.nodes.size

/-- The handle names a node. -/
def Has (f : Forest) (id : NodeId) : Prop :=
  id.index < f.size

instance (f : Forest) (id : NodeId) : Decidable (f.Has id) :=
  inferInstanceAs (Decidable (id.index < f.size))

/-- The node that a handle names; a new report for a handle that names none. -/
def get (f : Forest) (id : NodeId) : Node NodeId :=
  f.nodes.getD id.index default

def add (f : Forest) (node : Node NodeId) : NodeId × Forest :=
  (⟨f.size⟩, ⟨f.nodes.push node⟩)

def set (f : Forest) (id : NodeId) (node : Node NodeId) : Forest :=
  ⟨f.nodes.setIfInBounds id.index node⟩

def children (f : Forest) (id : NodeId) : List NodeId :=
  (f.get id).children

@[simp] theorem size_add (f : Forest) (node : Node NodeId) : (f.add node).2.size = f.size + 1 :=
  Array.size_push node

@[simp] theorem get_add_self (f : Forest) (node : Node NodeId) :
    (f.add node).2.get (f.add node).1 = node := by
  simp [add, get, size]

/-- A new node leaves the others as they are. -/
theorem get_add_of_lt {f : Forest} {id : NodeId} (node : Node NodeId) (h : id.index < f.size) :
    (f.add node).2.get id = f.get id := by
  have hne : id.index ≠ f.nodes.size := Nat.ne_of_lt h
  simp [add, get, Array.getElem?_push, hne]

@[simp] theorem size_set (f : Forest) (id : NodeId) (node : Node NodeId) :
    (f.set id node).size = f.size :=
  Array.size_setIfInBounds

theorem get_set_self {f : Forest} {id : NodeId} (node : Node NodeId) (h : id.index < f.size) :
    (f.set id node).get id = node := by
  have hlt : id.index < f.nodes.size := h
  simp [set, get, hlt]

/-- Replacing a node leaves the others as they are. -/
theorem get_set_of_ne {f : Forest} {id other : NodeId} (node : Node NodeId) (h : other ≠ id) :
    (f.set id node).get other = f.get other := by
  have hne : id.index ≠ other.index := fun he => h (by cases id; cases other; simp_all)
  simp [set, get, hne]

end Forest

end IncidentReport
