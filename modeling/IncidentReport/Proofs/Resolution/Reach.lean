import IncidentReport.Proofs.Forest.Trees
import IncidentReport.Proofs.Tree.Nodes
import IncidentReport.Resolution.Live
import Mathlib.Data.Set.Defs

/-!
The definitions that the resolution of an id can reach: its own, those that the
templates of reached definitions name, and those that nodes below reached definitions
refer to.
-/

namespace IncidentReport

/-! ### References in trees -/

namespace Tree

/-- All that the tree refers to is in the set. -/
def RefersWithin (ids : Set String) (t : Tree) : Prop :=
  t.All fun n => ∀ id ∈ n.attribute? definitionAttribute, id ∈ ids

/-- All that the resolution of a definition goes on to is in the set. -/
structure LeadsWithin (ids : Set String) (found : Tree) : Prop where
  template : ∀ id ∈ found.attribute? templateAttribute, id ∈ ids
  below : ∀ child ∈ found.children, child.RefersWithin ids

variable {ids others : Set String} {t : Tree}

theorem RefersWithin.mono (h : t.RefersWithin ids) (hsub : ids ⊆ others) : t.RefersWithin others :=
  h.imp fun _ hn id hid => hsub (hn id hid)

theorem LeadsWithin.mono (h : t.LeadsWithin ids) (hsub : ids ⊆ others) : t.LeadsWithin others where
  template id hid := hsub (h.template id hid)
  below child hchild := (h.below child hchild).mono hsub

end Tree

/-- No definition of the set leads out of the set. -/
def Definitions.Closed (defs : Definitions) (ids : Set String) : Prop :=
  ∀ id ∈ ids, ∀ found ∈ defs id, found.LeadsWithin ids

/-! ### References in forests -/

namespace Forest

variable {f : Forest}

/-- What holds of all nodes of a tree holds of all nodes that its root leads to. -/
theorem WellFormed.all_tree (hf : f.WellFormed) {p : Node Tree → Prop} {id : NodeId}
    (h : ∀ node, f.Reaches id node → p (f.tree node).node) : (f.tree id).All p := by
  induction id using hf.induction with
  | step id below => ?_
  refine .of_root (h id .refl) ?_
  rw [hf.children_tree, List.forall_mem_map]
  exact fun child hchild => below child hchild fun node hnode => h node (.head hchild hnode)

/-- What holds of all nodes of a tree holds of the trees of the nodes that its root leads to. -/
theorem WellFormed.all_of_reaches (hf : f.WellFormed) {p : Node Tree → Prop} {id node : NodeId}
    (hreach : f.Reaches id node) (h : (f.tree id).All p) : (f.tree node).All p := by
  induction hreach with
  | refl => exact h
  | tail _ hstep ih =>
      refine ih.child ?_
      rw [hf.children_tree]
      exact List.mem_map_of_mem hstep

end Forest

namespace Library

/-- The resolution of the first id goes on to the second one: it is the template of the
definition, or a node strictly below the definition refers to it. -/
def LeadsTo (lib : Library) (f : Forest) (id next : String) : Prop :=
  ∃ found, lib.find? id = some found ∧
    ((f.get found).attribute? templateAttribute = some next ∨
      ∃ node, Relation.TransGen f.HasChild found node ∧
        (f.get node).attribute? definitionAttribute = some next)

/-- The ids that the resolution of an id can come to. -/
def reach (lib : Library) (f : Forest) (id : String) : Set String :=
  {next | Relation.ReflTransGen (lib.LeadsTo f) id next}

/-- What is led to among nodes is led to among trees. -/
theorem leadsWithin_tree {lib : Library} {f : Forest} (hf : f.WellFormed) {id : String}
    {found : NodeId} (hfound : lib.find? id = some found) {ids : Set String}
    (h : ∀ next, lib.LeadsTo f id next → next ∈ ids) : (f.tree found).LeadsWithin ids := by
  constructor
  · intro next hnext
    rw [hf.attribute?_tree] at hnext
    exact h next ⟨found, hfound, .inl hnext⟩
  · rw [hf.children_tree, List.forall_mem_map]
    intro child hchild
    refine hf.all_tree fun node hnode next hnext => ?_
    have refers : (f.get node).attribute? definitionAttribute = some next := by
      rw [← hf.attribute?_tree]
      exact hnext
    exact h next ⟨found, hfound, .inr ⟨node, .head' hchild hnode, refers⟩⟩

/-- Whatever is reached leads to what is reached. -/
theorem closed_reach (lib : Library) {f : Forest} (hf : f.WellFormed) (id : String) :
    (lib.definitions f).Closed (lib.reach f id) := by
  intro k hk t ht
  obtain ⟨found, hfound, rfl⟩ := Option.map_eq_some_iff.1 ht
  exact leadsWithin_tree hf hfound fun next hnext => hk.tail hnext

end Library

end IncidentReport
