import IncidentReport.Proofs.Forest.Recursion
import IncidentReport.Proofs.Mutation
import IncidentReport.Proofs.Tree.Dump

/-!
Nodes that are equal. In every world equal nodes are those that show the same, whatever
they share, so equality is an equivalence, and what is passed over because it is shared
would not change an answer. Equal nodes are written alike, and what is done to a copy of the
one does the same to a copy of the other.
-/

namespace IncidentReport

open Forest

namespace Forest.Recursion

variable {f : Forest} {bound : Nat} {a : NodeId}

/-- Whether two nodes are equal, with nothing passed over: a node is walked even if it is
compared with itself. -/
def compare (f : Forest) : Nat → NodeId → NodeId → Option Bool
  | 0, _, _ => none
  | n + 1, a, b =>
    if (f.get a).sameBy (fun _ _ => true) (f.get b) then
      ((f.children a).zip (f.children b)).allM fun (a, b) => compare f n a b
    else
      some false

theorem compare_eq_same (hf : f.WellFormed) (h : (f.unfold bound a).isSome) (k : Nat)
    (b : NodeId) : compare f (bound + k) a b = some ((f.tree a).same (f.tree b)) := by
  induction bound generalizing a b with
  | zero => cases h
  | succ bound ih =>
      have roots : (f.tree a).same (f.tree b) =
          (f.get a).sameBy (fun a b => (f.tree a).same (f.tree b)) (f.get b) := by
        rw [Bool.eq_iff_iff, hf.same_tree_iff, Node.sameBy_iff]
        rfl
      rw [Nat.add_right_comm, compare, roots, Node.sameBy_eq fun a b => (f.tree a).same (f.tree b)]
      split
      · next halike =>
          have below : ∀ pair ∈ (f.children a).zip (f.children b),
              compare f (bound + k) pair.1 pair.2 =
                some ((f.tree pair.1).same (f.tree pair.2)) := fun pair hpair =>
            ih (isSome_unfold_child h pair.1 (List.of_mem_zip hpair).1) pair.2
          rw [allM_eq_some_all below, halike, Bool.true_and]
          rfl
      · next halike => simp [halike]

theorem compare_halts (hf : f.WellFormed) (ha : f.Has a) (b : NodeId) :
    Halts (fun n => compare f n a b) (f.same a b) := by
  rw [show f.same a b = (f.tree a).same (f.tree b) from Bool.eq_iff_iff.2 (same_iff hf ha b)]
  exact .of_add f.size fun k => compare_eq_same hf (isSome_unfold_size hf ha) k b

end Forest.Recursion

namespace World

variable {w : World} {m : Mutation} {id a b : NodeId}

/-! ### Changes to two nodes -/

/-- Two nodes that are under no other one, and the trees below them are the same. -/
structure Counterparts (w : World) (a b : NodeId) : Prop where
  first : w.Topmost a
  second : w.Topmost b
  ne : a ≠ b
  same : (w.forest.tree a).same (w.forest.tree b) = true

/-- Each change is made to the one node and then to the other, and both give the same answer;
in the end the nodes are equal. -/
def ChangeAlike (w : World) (a b : NodeId) : List Mutation → Prop
  | [] => w.forest.same a b = true
  | m :: ms =>
    (m.call w.libraries a w.forest).1 =
        (m.call w.libraries b (w.perform (m.on a)).forest).1 ∧
      ((w.perform (m.on a)).perform (m.on b)).ChangeAlike a b ms

/-- One change to both is given the same answer twice, and leaves them counterparts. -/
theorem Counterparts.change (h : w.Counterparts a b) (hw : w.WellFormed)
    (hgiven : ∀ child ∈ m.given, w.forest.Has child ∧ child ≠ a ∧ child ≠ b) :
    (m.call w.libraries a w.forest).1 =
        (m.call w.libraries b (w.perform (m.on a)).forest).1 ∧
      ((w.perform (m.on a)).perform (m.on b)).Counterparts a b := by
  obtain ⟨ha, hb, hne, hsame⟩ := h
  have noFirst : a ∉ m.given := fun hmem => (hgiven a hmem).2.1 rfl
  have noSecond : b ∉ m.given := fun hmem => (hgiven b hmem).2.2 rfl
  have others : ∀ child ∈ m.given, w.forest.Has child ∧ child ≠ a := fun child hchild =>
    ⟨(hgiven child hchild).1, (hgiven child hchild).2.1⟩
  -- The second node is asked in another world, but one in which the change amounts to the same.
  have hw' := wellFormed_perform hw (m.on a)
  have ha' : (w.perform (m.on a)).Topmost a := ha.perform hw noFirst
  have hb' : (w.perform (m.on a)).Topmost b := hb.perform hw noSecond
  have others' : ∀ child ∈ m.given, (w.perform (m.on a)).forest.Has child ∧ child ≠ b :=
    fun child hchild => ⟨(hw.perform_changes _).has (hgiven child hchild).1,
      (hgiven child hchild).2.2⟩
  have amounts : m.onTree (w.perform (m.on a)) ((w.perform (m.on a)).forest.tree b) =
      m.onTree w (w.forest.tree b) := by
    rw [onTree_perform hw ha others, (ha.stays hw m hb.has hne.symm).tree]
  obtain ⟨trees, violations⟩ := m.sameEnd_onTree w hsame
  refine ⟨?_, ha'.perform hw' noFirst, hb'.perform hw' noSecond, hne, ?_⟩
  · have second := (call_actsOn hw' hb' others').answer
    rw [libraries_perform_on, amounts] at second
    rw [(call_actsOn hw ha others).answer, second, violations]
  · rw [(hb'.stays hw' m ha'.has hne).tree, tree_perform_on hw ha others,
      tree_perform_on hw' hb' others', amounts]
    exact trees

theorem Counterparts.changeAlike (h : w.Counterparts a b) (hw : w.WellFormed)
    {ms : List Mutation}
    (hgiven : ∀ m ∈ ms, ∀ child ∈ m.given, w.forest.Has child ∧ child ≠ a ∧ child ≠ b) :
    w.ChangeAlike a b ms := by
  induction ms generalizing w with
  | nil => exact (same_iff hw.forest h.first.has b).2 h.same
  | cons m ms ih =>
      obtain ⟨hm, hms⟩ := List.forall_mem_cons.1 hgiven
      obtain ⟨answer, next⟩ := h.change hw hm
      have hw' := wellFormed_perform hw (m.on a)
      refine ⟨answer, ih next (wellFormed_perform hw' _) fun m hmem child hchild => ?_⟩
      obtain ⟨hhas, hne⟩ := hms m hmem child hchild
      exact ⟨(hw'.perform_changes _).has ((hw.perform_changes _).has hhas), hne⟩

/-! ### Copies -/

theorem Topmost.grow (h : w.Topmost id) {g : Forest} (hg : Growth w.forest g) :
    (w.withForest g).Topmost id where
  has := hg.has h.has
  parents parent hstep := h.parents parent (hg.parents_old h.has hstep)
  held := h.held

/-- A new root is under no other node, and libraries hold only older ones. -/
theorem topmost_of_root (hw : w.WellFormed) {g : Forest} (hr : Root w.forest g id) :
    (w.withForest g).Topmost id where
  has := hr.has
  parents := hr.parents
  held h := hr.isNew (Holds.has h hw)

/-- New trees that are the same have roots that are counterparts. -/
theorem counterparts_of_planted (hw : w.WellFormed) {t u : Tree} {first second : NodeId × Forest}
    (hfirst : Planted w.forest t first) (hsecond : Planted first.2 u second)
    (hsame : t.same u = true) :
    (w.withForest second.2).WellFormed ∧ (w.withForest second.2).Counterparts first.1 second.1 := by
  have hf := hfirst.growth.wellFormed hw.forest
  have hw' : (w.withForest first.2).WellFormed := hw.withForest hf hfirst.growth.extension
  refine ⟨hw'.withForest (hsecond.growth.wellFormed hf) hsecond.growth.extension,
    (topmost_of_root hw hfirst.root).grow hsecond.growth, topmost_of_root hw' hsecond.root,
    fun heq => hsecond.root.isNew (heq ▸ hfirst.root.has), ?_⟩
  show (second.2.tree first.1).same (second.2.tree second.1) = true
  rwa [hsecond.growth.tree_eq hf hfirst.root.has, hfirst.tree, hsecond.tree]

end World

/-! ### Worlds -/

/-- How the nodes of a world compare. -/
structure World.Compares (w : World) : Prop where
  /-- Equal nodes are those that show the same. -/
  dump : ∀ a b, w.forest.Has a → w.forest.Has b →
    (w.forest.same a b = true ↔ (w.forest.tree a).dump = (w.forest.tree b).dump)
  equivalence : Equivalence fun a b : {id // w.forest.Has id} => w.forest.same a b = true
  /-- Where nothing is passed over the answer is the same. -/
  full : ∀ a b, w.forest.Has a → w.forest.Has b →
    Halts (fun n => Recursion.compare w.forest n a b) (w.forest.same a b)
  written : ∀ a b, w.forest.Has a → w.forest.Has b → w.forest.same a b = true →
    (w.forest.tree a).toElement.toNode.Rearranged (w.forest.tree b).toElement.toNode
  /-- Whatever is done to a copy of the one and to a copy of the other, and is given neither
  copy, has the same answer twice and leaves the copies equal. -/
  changed : ∀ a b, w.forest.Has a → w.forest.Has b → w.forest.same a b = true →
    let first := w.forest.copy a
    let second := first.2.copy b
    ∀ ms : List Mutation,
      (∀ m ∈ ms, ∀ child ∈ m.given,
        second.2.Has child ∧ child ≠ first.1 ∧ child ≠ second.1) →
      (w.withForest second.2).ChangeAlike first.1 second.1 ms

namespace World

theorem WellFormed.compares {w : World} (hw : w.WellFormed) : w.Compares := by
  have hf := hw.forest
  have dump : ∀ a b, w.forest.Has a → w.forest.Has b →
      (w.forest.same a b = true ↔ (w.forest.tree a).dump = (w.forest.tree b).dump) :=
    fun a b ha _ => (same_iff hf ha b).trans Tree.same_iff_dump_eq
  refine ⟨dump, ⟨?_, ?_, ?_⟩, ?_, ?_, ?_⟩
  · exact fun a => (dump a a a.2 a.2).2 rfl
  · exact fun {a b} h => (dump b a b.2 a.2).2 ((dump a b a.2 b.2).1 h).symm
  · exact fun {a b c} h h' =>
      (dump a c a.2 c.2).2 (((dump a b a.2 b.2).1 h).trans ((dump b c b.2 c.2).1 h'))
  · exact fun a b ha _ => Recursion.compare_halts hf ha b
  · exact fun a b ha _ h => Tree.rearranged_of_same (hf.valid_tree a) ((same_iff hf ha b).1 h)
  · intro a b ha hb h first second ms hgiven
    have hfirst : Planted w.forest (w.forest.tree a) first := copy_spec hf a
    have hsecond : Planted first.2 (first.2.tree b) second :=
      copy_spec (hfirst.growth.wellFormed hf) b
    rw [hfirst.growth.tree_eq hf hb] at hsecond
    obtain ⟨hw', counterparts⟩ :=
      counterparts_of_planted hw hfirst hsecond ((same_iff hf ha b).1 h)
    exact counterparts.changeAlike hw' hgiven

/-- In every world equality is what nodes show, and equal nodes can stand for each other. -/
theorem run_compares (operations : List Operation) : (run empty operations).Compares :=
  (wellFormed_run wellFormed_empty operations).compares

end World

end IncidentReport
