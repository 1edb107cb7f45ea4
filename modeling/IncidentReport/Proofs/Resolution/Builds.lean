import IncidentReport.Proofs.Forest.Planting
import IncidentReport.Resolution.Call

/-!
Calls that build. A call carries building on from a forest, whether it succeeds
or fails, and its answer is as promised if it succeeds. Every way to make a call
out of others has a rule, and the rules compose as the calls do.
-/

namespace IncidentReport.Call

open Forest

variable {α β : Type} {f g h : Forest} {opened dropped : NodeId → Prop}

theorem pure_bind (a : α) (next : α → Call β) : (pure a >>= next) = next a :=
  rfl

theorem bind_assoc {γ : Type} (x : Call α) (next : α → Call β) (last : β → Call γ) :
    (x >>= next) >>= last = x >>= fun a => next a >>= last := by
  funext f
  simp only [bind_apply]
  rcases x f with ⟨_ | _, _⟩ <;> rfl

theorem bind_eq_ok {x : Call α} {next : α → Call β} {f h : Forest} {b : β} :
    (x >>= next) f = (.ok b, h) ↔ ∃ a g, x f = (.ok a, g) ∧ next a g = (.ok b, h) := by
  rw [bind_apply]
  rcases x f with ⟨e | a, g⟩ <;> simp

/-- A call whose answer is known beforehand leaves what it leaves without it. -/
theorem bind_const_apply {x : Call α} {b c : β} {f : Forest}
    (h : ((x >>= fun _ => pure b) f).1 = .ok c) :
    (x >>= fun _ => pure b) f = (.ok b, (x f).2) ∧ b = c := by
  rw [bind_apply] at h ⊢
  rcases hx : x f with ⟨e | a, g⟩ <;> rw [hx] at h <;> cases h
  exact ⟨rfl, rfl⟩

/-- Made in the forest `g`, the call carries on what was begun in `f`. -/
structure Builds (f : Forest) (opened dropped : NodeId → Prop) (g : Forest) (x : Call α)
    (post : α → Forest → Prop) : Prop where
  construction : Construction f opened dropped (x g).2
  answer : ∀ a, (x g).1 = .ok a → post a (x g).2

namespace Builds

variable {x : Call α} {post : α → Forest → Prop}

theorem imp {post' : α → Forest → Prop} (hx : Builds f opened dropped g x post)
    (hp : ∀ a h, Construction f opened dropped h → post a h → post' a h) :
    Builds f opened dropped g x post' :=
  ⟨hx.construction, fun a ha => hp a _ hx.construction (hx.answer a ha)⟩

theorem pure {a : α} (hg : Construction f opened dropped g) (hp : post a g) :
    Builds f opened dropped g (pure a) post where
  construction := hg
  answer b hb := by
    cases hb
    exact hp

theorem fail {e : ResolveError} (hg : Construction f opened dropped g) :
    Builds f opened dropped g (Call.fail e) post where
  construction := hg
  answer b hb := by cases hb

theorem bind {next : α → Call β} {post' : β → Forest → Prop}
    (hx : Builds f opened dropped g x post)
    (hnext : ∀ a h, Construction f opened dropped h → post a h →
      Builds f opened dropped h (next a) post') :
    Builds f opened dropped g (x >>= next) post' := by
  obtain ⟨hc, hp⟩ := hx
  rcases hr : x g with ⟨a | a, h⟩ <;> rw [hr] at hc hp
  · refine ⟨?_, fun b hb => ?_⟩
    · rw [bind_apply, hr]
      exact hc
    · rw [bind_apply, hr] at hb
      cases hb
  · have hn := hnext _ h hc (hp _ rfl)
    refine ⟨?_, ?_⟩ <;> rw [bind_apply, hr]
    · exact hn.construction
    · exact hn.answer

/-- A look changes nothing, so what follows starts in the same forest. -/
theorem look {view : Forest → α} {next : α → Call β} {post : β → Forest → Prop}
    (hnext : Builds f opened dropped g (next (view g)) post) :
    Builds f opened dropped g (Call.look view >>= next) post :=
  ⟨hnext.construction, hnext.answer⟩

theorem make (new : Forest → α × Forest) (post : α → Forest → Prop)
    (hg : Construction f opened dropped g) (hn : Growth g (new g).2)
    (hp : post (new g).1 (new g).2) :
    Builds f opened dropped g (Call.make new) post where
  construction := hg.grow hn
  answer a ha := by
    cases ha
    exact hp

theorem edit {change : Forest → Except Violation Forest} {post : Unit → Forest → Prop}
    (hg : Construction f opened dropped g)
    (hc : ∀ h, change g = .ok h → Construction f opened dropped h ∧ post () h) :
    Builds f opened dropped g (Call.edit change) post := by
  rcases hr : change g with e | h
  · refine ⟨?_, fun a ha => ?_⟩
    · rw [Call.edit, hr]
      exact hg
    · rw [Call.edit, hr] at ha
      cases ha
  · obtain ⟨hcons, hpost⟩ := hc h hr
    refine ⟨?_, fun a _ => ?_⟩ <;> rw [Call.edit, hr]
    · exact hcons
    · exact hpost

theorem attempt (hx : Builds f opened dropped g x post) :
    Builds f opened dropped g (Call.attempt x) fun _ _ => True := by
  refine ⟨?_, fun _ _ => trivial⟩
  have hc := hx.construction
  rcases hr : x g with ⟨a | a, h⟩ <;> rw [hr] at hc <;> rw [Call.attempt, hr] <;> exact hc

/-- What is so with these nodes left, and passes from each to those behind it, is so
when none is left. -/
theorem forEach {act : NodeId → Call Unit} {ids : List NodeId} (left : List NodeId → Forest → Prop)
    (hact : ∀ id rest h, Construction f opened dropped h → left (id :: rest) h →
      Builds f opened dropped h (act id) fun _ => left rest)
    (hg : Construction f opened dropped g) (hl : left ids g) :
    Builds f opened dropped g (Call.forEach act ids) fun _ => left [] := by
  induction ids generalizing g with
  | nil => exact .pure hg hl
  | cons id ids ih => exact (hact id ids g hg hl).bind fun _ h hc hl => ih hc hl

/-- A call that builds on its own can be made in the course of building. -/
theorem stage {opened' dropped' : NodeId → Prop} (hg : Construction f opened dropped g)
    (hx : Builds g opened' dropped' g x post) (ho : ∀ id, f.Has id → opened' id → opened id)
    (hd : ∀ id, dropped' id → dropped id) :
    Builds f opened dropped g x fun a h => post a h ∧ Construction g opened' dropped' h where
  construction := hg.trans hx.construction ho hd
  answer a ha := ⟨hx.answer a ha, hx.construction⟩

end Builds

/-! ### What calls keep -/

section Maintains

variable {p : Forest → Prop} {x : Call α} {next : α → Call β}

/-- What is so before the call is so after it, however the call ends. -/
def Maintains (p : Forest → Prop) (x : Call α) : Prop :=
  ∀ f, p f → p (x f).2

namespace Maintains

theorem pure (a : α) : Maintains p (pure a : Call α) :=
  fun _ h => h

theorem fail (e : ResolveError) : Maintains p (Call.fail e : Call α) :=
  fun _ h => h

theorem look (view : Forest → α) : Maintains p (Call.look view) :=
  fun _ h => h

theorem make {new : Forest → α × Forest} (hnew : ∀ f, p f → p (new f).2) :
    Maintains p (Call.make new) :=
  hnew

theorem edit {change : Forest → Except Violation Forest}
    (hchange : ∀ f g, p f → change f = .ok g → p g) : Maintains p (Call.edit change) := by
  intro f h
  rw [Call.edit]
  split
  · next accepted => exact hchange f _ h accepted
  · exact h

theorem attempt (hx : Maintains p x) : Maintains p (Call.attempt x) := by
  intro f h
  have kept := hx f h
  rw [Call.attempt]
  rcases hcall : x f with ⟨_ | _, g⟩ <;> rw [hcall] at kept <;> exact kept

theorem bind (hx : Maintains p x) (hnext : ∀ a, Maintains p (next a)) :
    Maintains p (x >>= next) := by
  intro f h
  have kept := hx f h
  rw [bind_apply]
  rcases hcall : x f with ⟨e | a, g⟩ <;> rw [hcall] at kept
  · exact kept
  · exact hnext a g kept

theorem forEach {act : NodeId → Call Unit} {ids : List NodeId}
    (hact : ∀ id ∈ ids, Maintains p (act id)) : Maintains p (Call.forEach act ids) := by
  induction ids with
  | nil => exact .pure ()
  | cons id ids ih =>
      obtain ⟨hfirst, hrest⟩ := List.forall_mem_cons.1 hact
      exact hfirst.bind fun _ => ih hrest

end Maintains

end Maintains

end IncidentReport.Call
