import Mathlib.Data.List.Forall2

/-!
What an answer that came out well says about the steps that led to it, for steps
that may fail with an error and for steps that may have no answer; and when two runs
come to the same end.
-/

namespace IncidentReport

section Except

variable {ε ε' α β : Type}

theorem map_eq_ok {x : Except ε α} {g : α → β} {b : β} :
    x.map g = .ok b ↔ ∃ a, x = .ok a ∧ g a = b := by
  cases x <;> simp [Except.map]

theorem mapError_eq_ok {x : Except ε α} {g : ε → ε'} {a : α} :
    x.mapError g = .ok a ↔ x = .ok a := by
  cases x with
  | error e => exact ⟨nofun, nofun⟩
  | ok b => constructor <;> rintro ⟨⟩ <;> rfl

theorem map_map {γ : Type} (x : Except ε α) (g : α → β) (k : β → γ) :
    (x.map g).map k = x.map fun a => k (g a) := by
  cases x <;> rfl

theorem mapError_map (x : Except ε α) (g : α → β) (k : ε → ε') :
    (x.mapError k).map g = (x.map g).mapError k := by
  cases x <;> rfl

theorem mapM_cons_of_ok (act : α → Except ε β) {x : α} {y : β} {xs : List α}
    (h : act x = .ok y) : (x :: xs).mapM act = (xs.mapM act).map (y :: ·) := by
  rw [List.mapM_cons, h]
  cases xs.mapM act <;> rfl

theorem mapM_eq_ok_map {act : α → Except ε β} {k : α → β} {xs : List α}
    (h : ∀ x ∈ xs, act x = .ok (k x)) : xs.mapM act = .ok (xs.map k) := by
  induction xs with
  | nil => rfl
  | cons x xs ih =>
      obtain ⟨hx, hxs⟩ := List.forall_mem_cons.1 h
      rw [mapM_cons_of_ok act hx, ih hxs]
      rfl

/-- The first that fails says how all fail. -/
theorem mapM_append_cons_of_error {act : α → Except ε β} {k : α → β} {before after : List α} {x : α}
    {e : ε} (h : ∀ x ∈ before, act x = .ok (k x)) (hx : act x = .error e) :
    (before ++ x :: after).mapM act = .error e := by
  induction before with
  | nil =>
      rw [List.nil_append, List.mapM_cons, hx]
      rfl
  | cons y before ih =>
      obtain ⟨hy, hbefore⟩ := List.forall_mem_cons.1 h
      rw [List.cons_append, mapM_cons_of_ok act hy, ih hbefore]
      rfl

theorem bind_eq_ok {x : Except ε α} {next : α → Except ε β} {b : β} :
    x >>= next = .ok b ↔ ∃ a, x = .ok a ∧ next a = .ok b := by
  cases x <;> simp [bind, Except.bind]

theorem pure_eq_ok {a b : α} : (pure a : Except ε α) = .ok b ↔ a = b := by
  simp [pure, Except.pure]

end Except

section Agree

variable {ε ε' α β γ δ : Type} {r : α → β → Prop} {q : γ → δ → Prop}

/-- Two outcomes are the same error or answers that are related. -/
inductive Agree (r : α → β → Prop) : Except ε α → Except ε β → Prop where
  | error (e : ε) : Agree r (.error e) (.error e)
  | ok {a : α} {b : β} (h : r a b) : Agree r (.ok a) (.ok b)

namespace Agree

variable {x : Except ε α} {y : Except ε β}

theorem refl {r : α → α → Prop} (hr : ∀ a, r a a) (x : Except ε α) : Agree r x x := by
  cases x with
  | error e => exact .error e
  | ok a => exact .ok (hr a)

theorem imp {r' : α → β → Prop} (h : Agree r x y) (hr : ∀ a b, r a b → r' a b) :
    Agree r' x y := by
  cases h with
  | error e => exact .error e
  | ok h => exact .ok (hr _ _ h)

theorem map {g : α → γ} {k : β → δ} (h : Agree r x y) (hq : ∀ a b, r a b → q (g a) (k b)) :
    Agree q (x.map g) (y.map k) := by
  cases h with
  | error e => exact .error e
  | ok h => exact .ok (hq _ _ h)

theorem mapError (h : Agree r x y) (k : ε → ε') : Agree r (x.mapError k) (y.mapError k) := by
  cases h with
  | error e => exact .error (k e)
  | ok h => exact .ok h

theorem bind {g : α → Except ε γ} {k : β → Except ε δ} (h : Agree r x y)
    (hq : ∀ a b, r a b → Agree q (g a) (k b)) : Agree q (x >>= g) (y >>= k) := by
  cases h with
  | error e => exact .error e
  | ok h => exact hq _ _ h

theorem mapM {g : α → Except ε γ} {k : β → Except ε δ} {xs : List α} {ys : List β}
    (h : List.Forall₂ r xs ys) (hq : ∀ a b, r a b → Agree q (g a) (k b)) :
    Agree (List.Forall₂ q) (xs.mapM g) (ys.mapM k) := by
  induction h with
  | nil => exact .ok .nil
  | cons hfirst _ ih =>
      rw [List.mapM_cons, List.mapM_cons]
      exact (hq _ _ hfirst).bind fun _ _ hz => ih.bind fun _ _ hzs => .ok (.cons hz hzs)

/-- Agreement on what has been read off the answers is agreement on the answers. -/
theorem of_map {g : α → γ} {k : β → δ} (h : Agree q (x.map g) (y.map k)) :
    Agree (fun a b => q (g a) (k b)) x y := by
  cases x <;> cases y <;> cases h
  · exact .error _
  · next h => exact .ok h

end Agree

end Agree

section Judged

variable {ε ε' α β : Type}

/-- The outcome is the first of these errors, or an answer if there are none. -/
inductive Judged : Except ε α → List ε → Prop where
  | ok (a : α) : Judged (.ok a) []
  | error (e : ε) (rest : List ε) : Judged (.error e) (e :: rest)

namespace Judged

variable {x : Except ε α} {errors : List ε}

theorem exists_ok_iff (h : Judged x errors) : (∃ a, x = .ok a) ↔ errors = [] := by
  cases h with
  | ok a => exact ⟨fun _ => rfl, fun _ => ⟨a, rfl⟩⟩
  | error e rest => exact ⟨nofun, nofun⟩

theorem error_mem {e : ε} (h : Judged x errors) (hx : x = .error e) : e ∈ errors := by
  cases h with
  | ok a => cases hx
  | error e' rest =>
      cases hx
      exact List.mem_cons_self

theorem map {g : α → β} (h : Judged x errors) : Judged (x.map g) errors := by
  cases h with
  | ok a => exact .ok (g a)
  | error e rest => exact .error e rest

theorem mapError (k : ε → ε') (h : Judged x errors) : Judged (x.mapError k) (errors.map k) := by
  cases h with
  | ok a => exact .ok a
  | error e rest => exact .error (k e) (rest.map k)

/-- Errors of the first step come before those of the next. -/
theorem bind {g : α → Except ε β} {others : List ε} (h : Judged x errors)
    (hg : ∀ a, x = .ok a → Judged (g a) others) : Judged (x >>= g) (errors ++ others) := by
  cases h with
  | ok a => exact hg a rfl
  | error e rest => exact .error e (rest ++ others)

end Judged

end Judged

section Forall

variable {α β : Type} {r s : α → β → Prop} {xs : List α} {ys : List β}

theorem forall₂_imp_of_mem (h : List.Forall₂ r xs ys) (imp : ∀ x, ∀ y ∈ ys, r x y → s x y) :
    List.Forall₂ s xs ys := by
  obtain ⟨hlength, hzip⟩ := List.forall₂_iff_zip.1 h
  refine List.forall₂_iff_zip.2 ⟨hlength, fun hmem => ?_⟩
  exact imp _ _ (List.of_mem_zip hmem).2 (hzip hmem)

theorem forall₂_congr_of_mem (h : ∀ x ∈ xs, ∀ y, r x y ↔ s x y) :
    List.Forall₂ r xs ys ↔ List.Forall₂ s xs ys := by
  rw [List.forall₂_iff_zip, List.forall₂_iff_zip]
  refine and_congr_right fun _ => forall_congr' fun x => forall_congr' fun y =>
    forall_congr' fun hmem => ?_
  exact h x (List.of_mem_zip hmem).1 y

theorem exists_of_forall₂ (h : List.Forall₂ r xs ys) : ∀ y ∈ ys, ∃ x ∈ xs, r x y := by
  induction h with
  | nil => exact nofun
  | cons hfirst _ ih =>
      refine List.forall_mem_cons.2 ⟨⟨_, List.mem_cons_self, hfirst⟩, fun y hy => ?_⟩
      obtain ⟨x, hx, hxy⟩ := ih y hy
      exact ⟨x, List.mem_cons_of_mem _ hx, hxy⟩

end Forall

section Option

variable {α β : Type} {g : α → Option β} {xs : List α}

theorem mapM_cons_eq_some {x : α} {ys : List β} :
    (x :: xs).mapM g = some ys ↔ ∃ z zs, g x = some z ∧ xs.mapM g = some zs ∧ z :: zs = ys := by
  simp [List.mapM_cons, Option.bind_eq_some_iff]

theorem exists_of_mapM_eq_none (h : xs.mapM g = none) : ∃ x ∈ xs, g x = none := by
  induction xs with
  | nil => simp at h
  | cons x xs ih =>
      cases hx : g x with
      | none => exact ⟨x, List.mem_cons_self, hx⟩
      | some z =>
          cases hxs : xs.mapM g with
          | none =>
              obtain ⟨y, hy, hgy⟩ := ih hxs
              exact ⟨y, List.mem_cons_of_mem _ hy, hgy⟩
          | some zs =>
              rw [mapM_cons_eq_some.2 ⟨z, zs, hx, hxs, rfl⟩] at h
              simp at h

theorem exists_of_mapM_eq_some {ys : List β} (h : xs.mapM g = some ys) :
    ∀ x ∈ xs, ∃ y, g x = some y := by
  induction xs generalizing ys with
  | nil => simp
  | cons x xs ih =>
      obtain ⟨z, zs, hx, hxs, -⟩ := mapM_cons_eq_some.1 h
      exact List.forall_mem_cons.2 ⟨⟨z, hx⟩, ih hxs⟩

theorem exists_of_mem_mapM {ys : List β} (h : xs.mapM g = some ys) :
    ∀ y ∈ ys, ∃ x ∈ xs, g x = some y := by
  induction xs generalizing ys with
  | nil =>
      cases h
      simp
  | cons x xs ih =>
      obtain ⟨z, zs, hx, hxs, rfl⟩ := mapM_cons_eq_some.1 h
      refine List.forall_mem_cons.2 ⟨⟨x, List.mem_cons_self, hx⟩, fun y hy => ?_⟩
      obtain ⟨w, hw, hwy⟩ := ih hxs y hy
      exact ⟨w, List.mem_cons_of_mem _ hw, hwy⟩

theorem mapM_congr_some {k : α → Option β} {ys : List β}
    (hk : ∀ x y, g x = some y → k x = some y) (h : xs.mapM g = some ys) :
    xs.mapM k = some ys := by
  induction xs generalizing ys with
  | nil => exact h
  | cons x xs ih =>
      obtain ⟨z, zs, hx, hxs, hys⟩ := mapM_cons_eq_some.1 h
      exact mapM_cons_eq_some.2 ⟨z, zs, hk x z hx, ih hxs, hys⟩

theorem mapM_eq_some_map {k : α → β} (h : ∀ x ∈ xs, g x = some (k x)) :
    xs.mapM g = some (xs.map k) := by
  induction xs with
  | nil => rfl
  | cons x xs ih =>
      obtain ⟨hx, hxs⟩ := List.forall_mem_cons.1 h
      exact mapM_cons_eq_some.2 ⟨k x, xs.map k, hx, ih hxs, rfl⟩

theorem anyM_eq_some_any {g : α → Option Bool} {k : α → Bool} (h : ∀ x ∈ xs, g x = some (k x)) :
    xs.anyM g = some (xs.any k) := by
  induction xs with
  | nil => rfl
  | cons x xs ih =>
      obtain ⟨hx, hxs⟩ := List.forall_mem_cons.1 h
      rw [List.anyM, hx, Option.bind_eq_bind, Option.bind_some, List.any_cons]
      cases k x with
      | true => rfl
      | false => exact ih hxs

theorem allM_eq_some_all {g : α → Option Bool} {k : α → Bool} (h : ∀ x ∈ xs, g x = some (k x)) :
    xs.allM g = some (xs.all k) := by
  induction xs with
  | nil => rfl
  | cons x xs ih =>
      obtain ⟨hx, hxs⟩ := List.forall_mem_cons.1 h
      rw [List.allM, hx, Option.bind_eq_bind, Option.bind_some, List.all_cons]
      cases k x with
      | true => exact ih hxs
      | false => rfl

theorem findSomeM?_eq_some_findSome? {g : α → Option (Option β)} {k : α → Option β}
    (h : ∀ x ∈ xs, g x = some (k x)) : xs.findSomeM? g = some (xs.findSome? k) := by
  induction xs with
  | nil => rfl
  | cons x xs ih =>
      obtain ⟨hx, hxs⟩ := List.forall_mem_cons.1 h
      rw [List.findSomeM?, hx, Option.bind_eq_bind, Option.bind_some, List.findSome?_cons]
      cases k x with
      | some y => rfl
      | none => exact ih hxs

end Option

end IncidentReport
