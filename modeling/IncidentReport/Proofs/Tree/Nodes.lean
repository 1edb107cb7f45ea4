import IncidentReport.Proofs.Tree.Valid

/-!
Properties and changes of all the nodes of a tree. A change is made to every node on
its own, so it leaves a tree as it is if it leaves every node as it is.
-/

namespace IncidentReport.Tree

/-- Every node of the tree has the property. -/
inductive All (p : Node Tree → Prop) : Tree → Prop where
  | mk {node : Node Tree} (root : p node) (below : ∀ child ∈ node.children, child.All p) :
      All p ⟨node⟩

mutual

/-- The tree with the change made to every node, below before above. -/
def map (change : Node Tree → Node Tree) : Tree → Tree
  | ⟨⟨kind, attributes, body⟩⟩ => ⟨change ⟨kind, attributes, mapBody change body⟩⟩

def mapBody (change : Node Tree → Node Tree) : Body Tree → Body Tree
  | .empty => .empty
  | .children ts => .children (mapAll change ts)
  | .text content => .text content
  | .foreign fragments => .foreign fragments

def mapAll (change : Node Tree → Node Tree) : List Tree → List Tree
  | [] => []
  | t :: ts => t.map change :: mapAll change ts

end

variable {p q : Node Tree → Prop} {change : Node Tree → Node Tree} {t : Tree}

namespace All

theorem root (h : t.All p) : p t.node := by
  obtain ⟨hroot, -⟩ := h
  exact hroot

theorem of_root (root : p t.node) (below : ∀ child ∈ t.children, child.All p) : t.All p := by
  obtain ⟨n⟩ := t
  exact .mk root below

theorem child {child : Tree} (h : t.All p) (hc : child ∈ t.children) : child.All p := by
  obtain ⟨-, below⟩ := h
  exact below child hc

theorem imp (h : t.All p) (hpq : ∀ n, p n → q n) : t.All q := by
  induction h with
  | mk root _ ih => exact .mk (hpq _ root) ih

theorem and (hp : t.All p) (hq : t.All q) : t.All fun n => p n ∧ q n := by
  induction hp with
  | mk root below ih => exact .mk ⟨root, hq.root⟩ fun child hc => ih child hc (hq.child hc)

end All

mutual

/-- The nodes of a tree, in document order. -/
def nodes : Tree → List (Node Tree)
  | ⟨⟨kind, attributes, body⟩⟩ => ⟨kind, attributes, body⟩ :: nodesOfBody body

def nodesOfBody : Body Tree → List (Node Tree)
  | .children ts => nodesOfAll ts
  | .empty | .text _ | .foreign _ => []

def nodesOfAll : List Tree → List (Node Tree)
  | [] => []
  | t :: ts => t.nodes ++ nodesOfAll ts

end

theorem nodesOfAll_eq_flatMap (ts : List Tree) : nodesOfAll ts = ts.flatMap nodes := by
  induction ts with
  | nil => rfl
  | cons t ts ih => rw [nodesOfAll, ih, List.flatMap_cons]

theorem nodes_mk (n : Node Tree) : (⟨n⟩ : Tree).nodes = n :: n.children.flatMap nodes := by
  obtain ⟨kind, attributes, body⟩ := n
  cases body with
  | children ts =>
      rw [nodes, nodesOfBody, nodesOfAll_eq_flatMap]
      rfl
  | empty | text | foreign => rfl

theorem Valid.all (h : t.Valid) : t.All Node.Valid := by
  induction h with
  | mk root _ _ ih => exact .mk root ih

theorem mapAll_eq_map (ts : List Tree) : mapAll change ts = ts.map (map change) := by
  induction ts with
  | nil => rfl
  | cons t ts ih => rw [mapAll, ih, List.map_cons]

/-- The root is changed on top of what has been made of its children. -/
theorem map_mk (n : Node Tree) :
    (⟨n⟩ : Tree).map change = ⟨change (n.withChildren (n.children.map (map change)))⟩ := by
  obtain ⟨kind, attributes, body⟩ := n
  cases body with
  | children ts =>
      rw [map, mapBody, mapAll_eq_map]
      rfl
  | empty | text | foreign => rfl

theorem kind_map (kind : ∀ n, (change n).kind = n.kind) (t : Tree) :
    (t.map change).kind = t.kind := by
  obtain ⟨n⟩ := t
  rw [map_mk]
  exact kind _

/-- What a change makes of every node that has one property has another property. -/
theorem All.map (h : t.All p)
    (change_of : ∀ n (ts : List Tree), p n → q (change (n.withChildren ts)))
    (children : ∀ n, (change n).children = n.children) : (t.map change).All q := by
  induction h with
  | @mk n root below ih =>
      rw [map_mk]
      refine .mk (change_of n _ root) fun child hchild => ?_
      rw [children] at hchild
      obtain ⟨c, hc, rfl⟩ := List.mem_map.1 (Node.children_withChildren_subset _ _ child hchild)
      exact ih c hc

/-- Changes that keep the type and the validity of a node keep the validity of a
tree. -/
theorem Valid.map (amends : ∀ n : Node Tree, n.Amends (change n)) (ht : t.Valid) : (t.map change).Valid := by
  induction ht with
  | @mk n root permitted below ih =>
      rw [map_mk]
      refine Valid.amend (.mk (root.withChildren _) ?_ ?_) (amends _)
      all_goals
        intro child hchild
        obtain ⟨c, hc, rfl⟩ := List.mem_map.1 (Node.children_withChildren_subset _ _ child hchild)
      · rw [kind_map fun n => (amends n).kind]
        exact permitted c hc
      · exact ih c hc

/-- What leaves every node as it is leaves the tree as it is. -/
theorem map_eq_self (h : t.All fun n => change n = n) : t.map change = t := by
  induction h with
  | @mk n root below ih =>
      have same : n.children.map (map change) = n.children := by
        rw [List.map_congr_left ih, List.map_id']
      rw [map_mk, same, Node.withChildren_children, root]

end IncidentReport.Tree
