import IncidentReport.Forest.Unfold

/-!
Walks down from a node of a forest: the question whether it contains another
node, the comparison with another node, and the search for the first node that
fits. Each walk is bounded by the number of nodes, which no path without a
repetition exceeds.
-/

namespace IncidentReport.Forest

/-- Whether a path of at most `bound` nodes leads from one node to another. -/
def reaches (f : Forest) : Nat → NodeId → NodeId → Bool
  | 0, _, _ => false
  | bound + 1, start, goal =>
    start = goal || (f.children start).any fun child => f.reaches bound child goal

/-- Whether the second node is the first one or below it. -/
def contains (f : Forest) (id other : NodeId) : Bool :=
  f.reaches f.size id other

/-- Whether two nodes are equal, as far as paths of at most `bound` nodes show. A
node is equal to itself, so what is shared is not walked. -/
def sameWithin (f : Forest) : Nat → NodeId → NodeId → Bool
  | 0, a, b => a = b
  | bound + 1, a, b => a = b || (f.get a).sameBy (f.sameWithin bound) (f.get b)

/-- Whether two nodes are equal: the same node, or trees that are the same. -/
def same (f : Forest) (a b : NodeId) : Bool :=
  f.sameWithin f.size a b

/-- A node below another one, with the indices of the children on the way. -/
structure Place where
  id : NodeId
  path : List Nat
  deriving DecidableEq, Repr

/-- Looks for the first node, parents before children and children from the left,
that fits. Unless `inside` is set, the nodes below a definition are passed over.
No path of more than `bound` nodes is walked. -/
def search (f : Forest) (fits : Node NodeId → Bool) (inside : Bool) : Nat → NodeId → Option Place
  | 0, _ => none
  | bound + 1, id =>
    if fits (f.get id) then
      some ⟨id, []⟩
    else if (f.get id).kind = .definition ∧ !inside then
      none
    else
      (f.children id).zipIdx.findSome? fun (child, i) =>
        (f.search fits inside bound child).map fun place => { place with path := i :: place.path }

def findAttribute? (f : Forest) (id : NodeId) (name value : String) (inside : Bool) :
    Option Place :=
  f.search (fun node => node.attribute? name == some value) inside f.size id

def findType? (f : Forest) (id : NodeId) (kind : NodeType) (inside : Bool) : Option Place :=
  f.search (fun node => node.kind == kind) inside f.size id

end IncidentReport.Forest
