import IncidentReport.Proofs.Resolution.Refinement
import IncidentReport.Proofs.Resolution.Twins
import Mathlib.Order.Filter.EventuallyConst

/-!
Resolution where no definition leads back to itself. The budget is then only a cut-off:
from some budget on, more of it makes no difference. What is gathered settles because
what it refers to has settled, and a definition settles because what it leads to has a
lower rank.
-/

namespace IncidentReport

open Filter

/-! ### Values that settle -/

/-- From some number on the values are the same. -/
abbrev Settles {α : Type} (x : Nat → α) : Prop :=
  EventuallyConst x atTop

namespace Settles

variable {α : Type} {x y : Nat → α}

theorem const (a : α) : Settles fun _ => a :=
  EventuallyConst.const a

/-- What is the same as values that settle, from some number on, settles. -/
theorem congr (h : Settles y) (k : Nat) (hxy : ∀ n, k ≤ n → x n = y n) : Settles x :=
  (eventuallyEq_of_mem (Ici_mem_atTop k) hxy).eventuallyConst_iff.2 h

theorem of_succ (h : Settles fun n => x (n + 1)) : Settles x := by
  obtain ⟨k, hk⟩ := eventuallyConst_atTop.1 h
  refine eventuallyConst_atTop.2 ⟨k + 1, fun n hn => ?_⟩
  obtain ⟨m, rfl⟩ := Nat.exists_eq_add_of_le' (Nat.le_of_add_left_le hn)
  exact hk m (Nat.le_of_succ_le_succ hn)

theorem succ (h : Settles x) : Settles fun n => x (n + 1) :=
  h.comp_tendsto (tendsto_add_atTop_nat 1)

end Settles

variable {gather : Nat → Gathering → Tree → Gathering × Option Violation}

theorem forEachTree_settles {ts : List Tree}
    (h : ∀ t ∈ ts, ∀ g, Settles fun n => gather n g t) (g : Gathering) :
    Settles fun n => forEachTree (gather n) g ts := by
  induction ts generalizing g with
  | nil => exact .const _
  | cons t ts ih =>
      obtain ⟨ht, hts⟩ := List.forall_mem_cons.1 h
      obtain ⟨k, hk⟩ := eventuallyConst_atTop.1 (ht g)
      rcases hfirst : gather k g t with ⟨s, _ | violation⟩
      · refine (ih hts s).congr k fun n hn => ?_
        rw [forEachTree, hk n hn, hfirst]
      · refine (Settles.const (s, some violation)).congr k fun n hn => ?_
        rw [forEachTree, hk n hn, hfirst]

namespace Definitions

variable {defs : Definitions} {id : String} {found : Tree}

/-- A definition is expanded to something that settles if what its template expands to
and what its children are gathered as do. -/
theorem expandWith_settles {inherit : Nat → String → Except ResolveError Expansion}
    (hfound : defs id = some found)
    (hi : ∀ template ∈ found.attribute? templateAttribute, Settles fun n => inherit n template)
    (hg : ∀ child ∈ found.children, ∀ g, Settles fun n => gather n g child) :
    Settles fun n => defs.expandWith (inherit n) (gather n) id := by
  have based : Settles fun n => basis (inherit n) found := by
    simp only [basis]
    cases htemplate : found.attribute? templateAttribute with
    | none => exact .const _
    | some template => exact (hi template htemplate).comp (Except.map Expansion.definition)
  obtain ⟨k, hk⟩ := eventuallyConst_atTop.1 based
  cases hstart : basis (inherit k) found with
  | error e =>
      refine (Settles.const (.error e)).congr k fun n hn => ?_
      rw [expandWith, hfound]
      dsimp only
      rw [hk n hn, hstart]
      rfl
  | ok start =>
      obtain ⟨l, hl⟩ := eventuallyConst_atTop.1 (forEachTree_settles hg (.startingFrom start))
      have started : ∀ n, k ≤ n → basis (inherit n) found = .ok start := fun n hn =>
        (hk n hn).trans hstart
      refine eventuallyConst_atTop.2 ⟨max k l, fun n hn => ?_⟩
      rw [Library.expandWith_eq_complete hfound (started n (le_of_max_le_left hn)),
        Library.expandWith_eq_complete hfound (started _ (le_max_left k l)),
        hl n (le_of_max_le_right hn), hl _ (le_max_right k l)]

/-- What a tree is gathered as settles if what it refers to does, and what that and the
tree have below them is gathered as something that settles. -/
theorem gatherWith_settles {follow : Nat → String → Except ResolveError Expansion} {t : Tree}
    (hf : ∀ id ∈ t.attribute? definitionAttribute, Settles fun n => follow n id)
    (hfollowed : ∀ id ∈ t.attribute? definitionAttribute, ∀ n e, follow n id = .ok e →
      ∀ child ∈ e.definition.children, ∀ g, Settles fun n => gather n g child)
    (hg : ∀ child ∈ t.children, ∀ g, Settles fun n => gather n g child) (g : Gathering) :
    Settles fun n => gatherWith (follow n) (gather n) g t := by
  have alone : Settles fun n => gatherAlone (gather n) g t := by
    obtain ⟨k, hk⟩ := eventuallyConst_atTop.1 (forEachTree_settles hg ⟨t.node, []⟩)
    refine eventuallyConst_atTop.2 ⟨k, fun n hn => ?_⟩
    rw [gatherAlone, gatherAlone, hk n hn]
  simp only [gatherWith_eq]
  cases hid : t.attribute? definitionAttribute with
  | none => exact alone
  | some id =>
      obtain ⟨k, hk⟩ := eventuallyConst_atTop.1 (hf id hid)
      cases hfollow : follow k id with
      | error e =>
          refine alone.congr k fun n hn => ?_
          rw [Option.bind_some, hk n hn, hfollow]
          rfl
      | ok e =>
          have followed := forEachTree_settles (hfollowed id hid k e hfollow) g
          refine followed.congr k fun n hn => ?_
          rw [Option.bind_some, hk n hn, hfollow]
          rfl

/-! ### Ranked definitions -/

/-- The ids that no definition is filed under, or one of rank less than `n`. -/
def below (defs : Definitions) (rank : String → Nat) (n : Nat) : Set String :=
  {id | (defs id).isSome → rank id < n}

/-- Definitions lead to definitions of lower rank only. -/
def Ranked (defs : Definitions) (rank : String → Nat) : Prop :=
  ∀ id, ∀ found ∈ defs id, found.LeadsWithin (defs.below rank (rank id))

variable {rank : String → Nat}

theorem Ranked.closed_below (h : defs.Ranked rank) (n : Nat) : defs.Closed (defs.below rank n) := by
  intro id hid found hfound
  have hrank : rank id < n := hid (Option.isSome_of_mem hfound)
  exact (h id found hfound).mono fun next hnext hsome => (hnext hsome).trans hrank

theorem sameOn_refl (ids : Set String) (defs : Definitions) : SameOn ids defs defs := by
  intro id _
  cases defs id with
  | none => exact .none
  | some found => exact .some (Tree.same_refl found)

/-- What a definition is expanded to refers to definitions of lower rank only. -/
theorem Ranked.refersWithin (h : defs.Ranked rank) {depth : Nat} {e : Expansion}
    (he : defs.resolve depth id = .ok e) :
    ∀ child ∈ e.definition.children, child.RefersWithin (defs.below rank (rank id)) := by
  cases depth with
  | zero => cases he
  | succ depth =>
      obtain ⟨hresolve, hgather⟩ := resolve_and_gather_alike
        (sameOn_refl _ defs) (h.closed_below (rank id)) depth
      have alike := expandWith_alike (sameOn_refl {id} defs id rfl) (h id) hresolve hgather
      rw [resolve] at he
      rw [he] at alike
      cases alike with
      | ok htwin => exact (Tree.twins_iff.1 htwin.children).1

/-- Ids settle, and so do trees that refer to ids that do. -/
theorem Ranked.settles (h : defs.Ranked rank) (n : Nat) :
    (∀ id ∈ defs.below rank n, Settles fun depth => defs.resolve depth id) ∧
      ∀ t : Tree, t.RefersWithin (defs.below rank n) →
        ∀ g, Settles fun spare => defs.gather spare g t := by
  induction n using Nat.strong_induction_on with
  | _ n ih =>
    have resolved : ∀ id ∈ defs.below rank n, Settles fun depth => defs.resolve depth id := by
      intro id hid
      refine Settles.of_succ ?_
      cases hfound : defs id with
      | none =>
          refine (Settles.const (.error (.notFound id))).congr 0 fun depth _ => ?_
          rw [resolve, expandWith, hfound]
      | some found =>
          obtain ⟨hresolve, hgather⟩ := ih (rank id) (hid (by rw [hfound]; rfl))
          have leads := h id found hfound
          simp only [resolve]
          exact expandWith_settles hfound
            (fun template htemplate => hresolve template (leads.template template htemplate))
            fun child hchild => hgather child (leads.below child hchild)
    refine ⟨resolved, fun t ht => ?_⟩
    induction ht with
    | @mk node root below ihbelow =>
        intro g
        refine Settles.of_succ ?_
        simp only [gather_succ]
        have refers : ∀ id ∈ (⟨node⟩ : Tree).attribute? definitionAttribute,
            id ∈ defs.below rank n := root
        refine gatherWith_settles (fun id hid => (resolved id (refers id hid)).succ) ?_ ihbelow g
        intro id hid depth e he child hchild
        cases hfound : defs id with
        | none =>
            rw [resolve, expandWith, hfound] at he
            cases he
        | some found =>
            have hrank := refers id hid (by rw [hfound]; rfl)
            exact (ih (rank id) hrank).2 child (h.refersWithin he child hchild)

end Definitions

end IncidentReport
