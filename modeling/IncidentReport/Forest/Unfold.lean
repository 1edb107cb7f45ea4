import IncidentReport.Forest.Basic
import IncidentReport.Tree.Basic
import Std.Data.HashMap

/-!
The tree below a node of a forest. Where nodes are shared, a tree may have far more places than
the forest has nodes, so each result is worked out once and used in all its places. Main
statement: this changes no result.
-/

namespace IncidentReport.Forest

/-- The tree below a node, if no path in it has more than `bound` nodes. -/
def unfold (f : Forest) : Nat → NodeId → Option Tree
  | 0, _ => none
  | bound + 1, id => do
    let trees ← (f.children id).mapM fun child => f.unfold bound child
    return ⟨(f.get id).withChildren trees⟩

/-- Results of `unfold` that are known, by bound and node. -/
abbrev Unfolded := Std.HashMap (Nat × NodeId) (Option Tree)

/-- Unfolds some nodes, from the left, up to the first without a tree. -/
def unfoldEach (unfold : NodeId → Unfolded → Option Tree × Unfolded) :
    List NodeId → Unfolded → Option (List Tree) × Unfolded
  | [], known => (some [], known)
  | id :: ids, known =>
    match unfold id known with
    | (none, known) => (none, known)
    | (some t, known) =>
      let (trees?, known) := unfoldEach unfold ids known
      (trees?.map (t :: ·), known)

/-- The result of `unfold`, looked up if it is known and made known if it is not. -/
def unfoldOnce (f : Forest) : Nat → NodeId → Unfolded → Option Tree × Unfolded
  | 0, _, known => (none, known)
  | bound + 1, id, known =>
    match known[(bound + 1, id)]? with
    | some result => (result, known)
    | none =>
      let (trees?, known) := unfoldEach (f.unfoldOnce bound) (f.children id) known
      let result := trees?.map fun trees => ⟨(f.get id).withChildren trees⟩
      (result, known.insert (bound + 1, id) result)

/-- The tree below a node; `none` if it contains itself. -/
def tree? (f : Forest) (id : NodeId) : Option Tree :=
  (f.unfoldOnce f.size id ∅).1

/-- The tree below a node that does not contain itself. -/
def tree (f : Forest) (id : NodeId) : Tree :=
  (f.tree? id).getD default

/-- What is known is right. -/
def AllUnfolded (f : Forest) (known : Unfolded) : Prop :=
  ∀ bound id result, known[(bound, id)]? = some result → result = f.unfold bound id

theorem allUnfolded_empty (f : Forest) : f.AllUnfolded ∅ := by
  intro bound id result h
  simp at h

theorem AllUnfolded.insert {f : Forest} {known : Unfolded} (h : f.AllUnfolded known)
    (bound : Nat) (id : NodeId) : f.AllUnfolded (known.insert (bound, id) (f.unfold bound id)) := by
  intro b i result hr
  rw [Std.HashMap.getElem?_insert] at hr
  split at hr
  · next he =>
    obtain ⟨rfl, rfl⟩ := Prod.mk.inj (eq_of_beq he)
    exact (Option.some.inj hr).symm
  · exact h b i result hr

/-- Unfolding some nodes one by one, each rightly, unfolds them all rightly. -/
theorem unfoldEach_eq {f : Forest} {bound : Nat}
    {unfold : NodeId → Unfolded → Option Tree × Unfolded}
    (each : ∀ id known, f.AllUnfolded known →
      (unfold id known).1 = f.unfold bound id ∧ f.AllUnfolded (unfold id known).2)
    (ids : List NodeId) {known : Unfolded} (h : f.AllUnfolded known) :
    (unfoldEach unfold ids known).1 = ids.mapM (f.unfold bound) ∧
      f.AllUnfolded (unfoldEach unfold ids known).2 := by
  induction ids generalizing known with
  | nil => exact ⟨rfl, h⟩
  | cons id ids ih =>
    obtain ⟨first, kept⟩ := each id known h
    rw [unfoldEach, List.mapM_cons, ← first]
    match unfold id known, kept with
    | (none, _), kept => exact ⟨rfl, kept⟩
    | (some t, known), kept =>
      obtain ⟨rest, kept⟩ := ih kept
      refine ⟨?_, kept⟩
      rw [← rest]
      dsimp only
      cases (unfoldEach unfold ids known).1 <;> rfl

/-- What is looked up is what would be worked out, and what is made known is right. -/
theorem unfoldOnce_eq (f : Forest) (bound : Nat) (id : NodeId) {known : Unfolded}
    (h : f.AllUnfolded known) :
    (f.unfoldOnce bound id known).1 = f.unfold bound id ∧
      f.AllUnfolded (f.unfoldOnce bound id known).2 := by
  induction bound generalizing id known with
  | zero => exact ⟨rfl, h⟩
  | succ bound ih =>
    rw [unfoldOnce]
    split
    · next result hr => exact ⟨h _ _ _ hr, h⟩
    · obtain ⟨trees, kept⟩ := unfoldEach_eq (fun id _ h => ih id h) (f.children id) h
      have result : (unfoldEach (f.unfoldOnce bound) (f.children id) known).1.map
          (fun trees => (⟨(f.get id).withChildren trees⟩ : Tree)) = f.unfold (bound + 1) id := by
        rw [trees, unfold]
        cases (f.children id).mapM (f.unfold bound) <;> rfl
      refine ⟨result, ?_⟩
      dsimp only
      rw [result]
      exact kept.insert (bound + 1) id

/-- The tree below a node is what `unfold` gives for the size of the forest. -/
theorem tree?_eq_unfold (f : Forest) (id : NodeId) : f.tree? id = f.unfold f.size id :=
  (f.unfoldOnce_eq f.size id f.allUnfolded_empty).1

end IncidentReport.Forest
