import IncidentReport.Proofs.Forest.Trees
import IncidentReport.Proofs.Tree.Same

/-!
Nodes of a forest that are equal. Comparing them node by node, with what is shared
passed over, comes to the same as comparing the trees below them.
-/

namespace IncidentReport.Forest

variable {f : Forest}

/-- The trees below two nodes are the same if the nodes are alike and the trees below
their children the same. -/
theorem WellFormed.same_tree_iff (hf : f.WellFormed) (a b : NodeId) :
    (f.tree a).same (f.tree b) = true ↔ (f.get a).Alike (f.get b) ∧
      List.Forall₂ (fun a b => (f.tree a).same (f.tree b) = true) (f.children a) (f.children b) := by
  rw [Tree.same_iff, hf.children_tree, hf.children_tree, List.forall₂_map_left_iff,
    List.forall₂_map_right_iff, hf.tree_eq a, hf.tree_eq b, Tree.node_mk, Tree.node_mk,
    Node.Alike.withChildren_iff]

/-- A bound that unfolds the first node is enough to compare it with another. -/
theorem sameWithin_iff (hf : f.WellFormed) {bound : Nat} {a : NodeId}
    (ha : (f.unfold bound a).isSome) (b : NodeId) :
    f.sameWithin bound a b = true ↔ (f.tree a).same (f.tree b) = true := by
  induction bound generalizing a b with
  | zero => simp [unfold] at ha
  | succ bound ih =>
      obtain ⟨t, ht⟩ := Option.isSome_iff_exists.1 ha
      obtain ⟨ts, hts, -⟩ := unfold_succ_eq_some.1 ht
      have below : ∀ child ∈ f.children a, ∀ other,
          f.sameWithin bound child other = true ↔ (f.tree child).same (f.tree other) = true :=
        fun child hchild other => ih (Option.isSome_iff_exists.2
          (exists_of_mapM_eq_some hts child hchild)) other
      have alike : (f.get a).sameBy (f.sameWithin bound) (f.get b) = true ↔
          (f.tree a).same (f.tree b) = true := by
        rw [Node.sameBy_iff, hf.same_tree_iff]
        exact and_congr_right fun _ => forall₂_congr_of_mem below
      rw [sameWithin, Bool.or_eq_true, decide_eq_true_eq, alike]
      constructor
      · rintro (rfl | h)
        · exact Tree.same_refl _
        · exact h
      · exact .inr

/-- Two nodes are equal if and only if the trees below them are the same. -/
theorem same_iff (hf : f.WellFormed) {a : NodeId} (ha : f.Has a) (b : NodeId) :
    f.same a b = true ↔ (f.tree a).same (f.tree b) = true := by
  refine sameWithin_iff hf ?_ b
  rw [unfold_size_eq_tree hf.acyclic hf.closed ha]
  rfl

end IncidentReport.Forest
