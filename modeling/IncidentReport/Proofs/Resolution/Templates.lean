import IncidentReport.Resolution.Live

/-!
Why an expansion is not found. The templates alone decide: from an id on, each
definition names the next one, and the budget is spent along the way. Whatever
becomes of the references of children, an expansion that gets past its templates
can fail by a violation of the schema only.
-/

namespace IncidentReport

namespace Call

variable {α β : Type} {f : Forest} {e : ResolveError} {x : Call α} {next : α → Call β}

theorem bind_eq_error (h : (x f).1 = .error e) : ((x >>= next) f).1 = .error e := by
  rw [bind_apply]
  rcases hr : x f with ⟨a | a, g⟩ <;> rw [hr] at h <;> cases h
  rfl

theorem error_of_bind (h : ((x >>= next) f).1 = .error e) :
    (x f).1 = .error e ∨ ∃ a, (next a (x f).2).1 = .error e := by
  rw [bind_apply] at h
  rcases hr : x f with ⟨a | a, g⟩ <;> rw [hr] at h
  · cases h
    exact .inl rfl
  · exact .inr ⟨a, h⟩

/-- The call fails by a violation of the schema, if at all. -/
def SchemaOnly (x : Call α) : Prop :=
  ∀ f e, (x f).1 = .error e → ∃ v, e = .schema v

namespace SchemaOnly

theorem pure (a : α) : SchemaOnly (pure a : Call α) := by
  intro f e h
  cases h

theorem look (view : Forest → α) : SchemaOnly (Call.look view) := by
  intro f e h
  cases h

theorem make (new : Forest → α × Forest) : SchemaOnly (Call.make new) := by
  intro f e h
  cases h

theorem edit (change : Forest → Except Violation Forest) : SchemaOnly (Call.edit change) := by
  intro f e h
  rw [Call.edit] at h
  split at h
  · cases h
  · next v _ => exact ⟨v, (Except.error.inj h).symm⟩

/-- What is attempted does not fail, however it ends. -/
theorem attempt (x : Call α) : SchemaOnly (Call.attempt x) := by
  intro f e h
  rw [Call.attempt] at h
  split at h <;> cases h

theorem bind (hx : SchemaOnly x) (hnext : ∀ a, SchemaOnly (next a)) : SchemaOnly (x >>= next) := by
  intro f e h
  rcases error_of_bind h with h | ⟨a, h⟩
  · exact hx f e h
  · exact hnext a _ e h

theorem forEach {act : NodeId → Call Unit} (hact : ∀ id, SchemaOnly (act id))
    (ids : List NodeId) : SchemaOnly (Call.forEach act ids) := by
  induction ids with
  | nil => exact .pure ()
  | cons id ids ih => exact (hact id).bind fun _ => ih

end SchemaOnly

end Call

namespace Library

open Call

variable {lib : Library} {f : Forest}

/-- The template of the definition that an id leads to, if there is a definition
and it has a template. -/
def template? (lib : Library) (f : Forest) (id : String) : Option String :=
  (lib.find? id).bind fun found => (f.get found).attribute? templateAttribute

/-- The id at some distance along the templates, if they go as far. -/
def templateAt (lib : Library) (f : Forest) (id : String) : Nat → Option String
  | 0 => some id
  | k + 1 => (lib.templateAt f id k).bind (lib.template? f)

theorem template?_of_find? {id : String} {found : NodeId} (hfound : lib.find? id = some found) :
    lib.template? f id = (f.get found).attribute? templateAttribute := by
  rw [template?, hfound, Option.bind_some]

/-- How the templates end within a budget: at an id without a definition, at the id
for which the budget leaves nothing, or at a definition without a template. -/
inductive TemplateEnd where
  | missing (id : String)
  | exhausted (id : String)
  | complete

/-- Where the templates end within a budget. -/
def templateEnd (lib : Library) (f : Forest) : Nat → String → TemplateEnd
  | 0, id => .exhausted id
  | depth + 1, id =>
    match lib.find? id with
    | none => .missing id
    | some found =>
      match (f.get found).attribute? templateAttribute with
      | some template => lib.templateEnd f depth template
      | none => .complete

theorem templateAt_succ (id : String) (k : Nat) :
    lib.templateAt f id (k + 1) =
      (lib.template? f id).bind fun next => lib.templateAt f next k := by
  induction k with
  | zero => simp [templateAt]
  | succ k ih => rw [templateAt, ih, Option.bind_assoc]; rfl

/-- What the end of the templates says about the outcome. -/
def TemplateEnd.Explains {α : Type} : TemplateEnd → Except ResolveError α → Prop
  | .missing id, outcome => outcome = .error (.notFound id)
  | .exhausted id, outcome => outcome = .error (.depthExhausted id)
  | .complete, outcome => ∀ e, outcome = .error e → ∃ v, e = .schema v

theorem TemplateEnd.Explains.bind {α β : Type} {stop : TemplateEnd} {x : Call α}
    {next : α → Call β} (hx : stop.Explains (x f).1) (hnext : ∀ a, SchemaOnly (next a)) :
    stop.Explains ((x >>= next) f).1 := by
  cases stop with
  | missing id => exact bind_eq_error hx
  | exhausted id => exact bind_eq_error hx
  | complete =>
      intro e h
      rcases error_of_bind h with h | ⟨a, h⟩
      · exact hx e h
      · exact hnext a _ e h

/-! ### Calls after the templates -/

theorem mark_schemaOnly (id : String) (root : NodeId) : SchemaOnly (mark id root) := by
  refine (SchemaOnly.look _).bind fun children => (SchemaOnly.look _).bind fun uniform => ?_
  split
  · exact (SchemaOnly.forEach (fun child => .edit _) children).bind fun _ => .pure _
  · exact .pure _

theorem follow?_schemaOnly (expand : String → Call Resolved) (child : NodeId) :
    SchemaOnly (follow? expand child) := by
  refine (SchemaOnly.look _).bind fun id? => ?_
  cases id? with
  | some id => exact .attempt _
  | none => exact .pure _

theorem attachWith_schemaOnly (expand : String → Call Resolved)
    {attach : NodeId → NodeId → Call Unit} (ha : ∀ parent child, SchemaOnly (attach parent child))
    (parent child : NodeId) : SchemaOnly (attachWith expand attach parent child) := by
  refine (follow?_schemaOnly expand child).bind fun resolved? => ?_
  cases resolved? with
  | some r => exact (SchemaOnly.look _).bind fun ids => .forEach (ha parent) ids
  | none =>
      exact (SchemaOnly.make _).bind fun copy => (SchemaOnly.look _).bind fun ids =>
        (SchemaOnly.forEach (ha copy) ids).bind fun _ => .edit _

/-- No reference is ever missed: what leads nowhere is attached as it is. -/
theorem splice_schemaOnly (lib : Library) (spare : Nat) (parent child : NodeId) :
    SchemaOnly (lib.splice spare parent child) := by
  induction spare generalizing parent child with
  | zero => exact (SchemaOnly.make _).bind fun copy => .edit _
  | succ spare ih =>
      rw [splice_succ]
      exact attachWith_schemaOnly _ ih parent child

/-! ### Expansions -/

theorem basis_explained {inherit : String → Call Resolved} {found : NodeId} {template : String}
    {stop : TemplateEnd} (ht : (f.get found).attribute? templateAttribute = some template)
    (h : stop.Explains (inherit template f).1) : stop.Explains (basis inherit found f).1 := by
  have hbasis : basis inherit found f =
      (inherit template >>= fun r => make (·.copy r.1)) f := by
    rw [basis, bind_apply, Call.look, ht]
  rw [hbasis]
  exact h.bind fun r => .make _

theorem expand_explained (lib : Library) (f : Forest) (depth : Nat) (id : String) :
    (lib.templateEnd f depth id).Explains (lib.expand depth id f).1 := by
  induction depth generalizing id with
  | zero => rfl
  | succ depth ih =>
      rw [templateEnd, expand, expandWith]
      cases hfound : lib.find? id with
      | none => rfl
      | some found =>
          -- Only the basis can be missing; what comes after it can only violate the schema.
          refine TemplateEnd.Explains.bind ?_ fun root => (SchemaOnly.look _).bind fun children =>
            (SchemaOnly.forEach (lib.splice_schemaOnly depth root) children).bind fun _ =>
              (mark_schemaOnly id root).bind fun uniform => .pure _
          cases ht : (f.get found).attribute? templateAttribute with
          | some template =>
              simp only [ht]
              exact basis_explained ht (ih template)
          | none =>
              simp only [ht]
              rw [basis, bind_apply, Call.look, ht]
              exact SchemaOnly.make _ f

/-! ### Where the templates end -/

theorem exists_templateAt_succ {depth : Nat} {id : String} {stop : String → Prop} :
    (∃ k < depth + 1, ∃ e, lib.templateAt f id k = some e ∧ stop e) ↔
      stop id ∨ ∃ next, lib.template? f id = some next ∧
        ∃ k < depth, ∃ e, lib.templateAt f next k = some e ∧ stop e := by
  rw [Nat.exists_lt_succ_left]
  refine or_congr (by simp [templateAt]) ?_
  simp only [templateAt_succ, Option.bind_eq_some_iff]
  constructor
  · rintro ⟨k, hk, e, ⟨next, hnext, he⟩, hs⟩
    exact ⟨next, hnext, k, hk, e, he, hs⟩
  · rintro ⟨next, hnext, k, hk, e, he, hs⟩
    exact ⟨k, hk, e, ⟨next, hnext, he⟩, hs⟩

theorem templateEnd_eq_missing_iff (depth : Nat) (id e : String) :
    lib.templateEnd f depth id = .missing e ↔
      ∃ k < depth, ∃ e', lib.templateAt f id k = some e' ∧ lib.find? e' = none ∧ e' = e := by
  induction depth generalizing id with
  | zero => simp [templateEnd]
  | succ depth ih =>
      rw [exists_templateAt_succ, templateEnd, template?]
      cases hfound : lib.find? id with
      | none => simp
      | some found =>
          cases ht : (f.get found).attribute? templateAttribute with
          | some template => simp [ht, ih]
          | none => simp [ht]

theorem templateEnd_eq_exhausted_iff (depth : Nat) (id e : String) :
    lib.templateEnd f depth id = .exhausted e ↔ lib.templateAt f id depth = some e := by
  induction depth generalizing id with
  | zero => simp [templateEnd, templateAt]
  | succ depth ih =>
      rw [templateEnd, templateAt_succ, template?]
      cases hfound : lib.find? id with
      | none => simp
      | some found =>
          cases ht : (f.get found).attribute? templateAttribute with
          | some template => simp [ht, ih]
          | none => simp [ht]

theorem templateEnd_eq_complete_iff (depth : Nat) (id : String) :
    lib.templateEnd f depth id = .complete ↔
      ∃ k < depth, ∃ e, lib.templateAt f id k = some e ∧
        (lib.find? e).isSome ∧ lib.template? f e = none := by
  induction depth generalizing id with
  | zero => simp [templateEnd]
  | succ depth ih =>
      rw [exists_templateAt_succ, templateEnd, template?]
      cases hfound : lib.find? id with
      | none => simp
      | some found =>
          cases ht : (f.get found).attribute? templateAttribute with
          | some template => simp [ht, ih]
          | none => simp [ht]

/-! ### Templates in a cycle -/

theorem templateAt_add (id : String) (j k : Nat) :
    lib.templateAt f id (j + k) = (lib.templateAt f id j).bind fun e => lib.templateAt f e k := by
  induction k with
  | zero => cases lib.templateAt f id j <;> simp [templateAt]
  | succ k ih =>
      rw [← Nat.add_assoc, templateAt, ih, Option.bind_assoc]
      rfl

theorem isSome_templateAt_of_le {id : String} {j k : Nat} (hle : j ≤ k)
    (h : (lib.templateAt f id k).isSome) : (lib.templateAt f id j).isSome := by
  obtain ⟨m, rfl⟩ := Nat.exists_eq_add_of_le hle
  rw [templateAt_add] at h
  cases hj : lib.templateAt f id j with
  | none => simp [hj] at h
  | some e => rfl

/-- Once an id comes back, the templates never end. -/
theorem isSome_templateAt_of_cycle {id : String} {i j : Nat} (hij : i < j)
    (heq : lib.templateAt f id i = lib.templateAt f id j)
    (h : (lib.templateAt f id j).isSome) (k : Nat) : (lib.templateAt f id k).isSome := by
  induction k using Nat.strongRecOn with
  | ind k ih =>
      rcases Nat.lt_or_ge j k with hk | hk
      · -- Past the repetition the templates run as they did one round before.
        have hback : lib.templateAt f id k = lib.templateAt f id (i + (k - j)) := by
          rw [templateAt_add, heq, ← templateAt_add]
          congr 1
          omega
        rw [hback]
        exact ih _ (by omega)
      · exact isSome_templateAt_of_le hk h

/-! ### The outcome -/

/-- Each end of the templates has outcomes of its own. -/
theorem TemplateEnd.Explains.iff {α : Type} {stop : TemplateEnd} {outcome : Except ResolveError α}
    (h : stop.Explains outcome) :
    (∀ e, outcome = .error (.notFound e) ↔ stop = .missing e) ∧
      (∀ e, outcome = .error (.depthExhausted e) ↔ stop = .exhausted e) ∧
        ((∃ a, outcome = .ok a) ∨ (∃ v, outcome = .error (.schema v)) ↔ stop = .complete) := by
  cases stop with
  | missing id =>
      rw [Explains] at h
      subst h
      simp
  | exhausted id =>
      rw [Explains] at h
      subst h
      simp
  | complete =>
      cases outcome with
      | ok a => simp
      | error e =>
          obtain ⟨v, rfl⟩ := h e rfl
          simp

theorem buildNode_eq_error_iff {depth : Nat} {id : String} {e : ResolveError} :
    lib.buildNode f depth id = .error e ↔ (lib.expand depth id f).1 = .error e := by
  rw [buildNode]
  rcases lib.expand depth id f with ⟨_ | _, _⟩ <;> simp

theorem buildNode_explained (lib : Library) (f : Forest) (depth : Nat) (id : String) :
    (lib.templateEnd f depth id).Explains (lib.buildNode f depth id) := by
  have h := lib.expand_explained f depth id
  cases hend : lib.templateEnd f depth id <;> rw [hend] at h
  · exact buildNode_eq_error_iff.2 h
  · exact buildNode_eq_error_iff.2 h
  · exact fun e he => h e (buildNode_eq_error_iff.1 he)

/-- The templates alone decide whether an expansion is found. It is missing at the
first id on the way that has no definition, and out of reach if there are as many
templates as the budget has units, as there are in a cycle. Otherwise it succeeds
or violates the schema. What attaches a node can only violate the schema. -/
theorem buildNode_by_templates (lib : Library) (f : Forest) (depth : Nat) (id : String) :
    (∀ e, lib.buildNode f depth id = .error (.notFound e) ↔
      ∃ k < depth, lib.templateAt f id k = some e ∧ lib.find? e = none) ∧
    (∀ e, lib.buildNode f depth id = .error (.depthExhausted e) ↔
      lib.templateAt f id depth = some e) ∧
    ((∃ k < depth, ∃ e, lib.templateAt f id k = some e ∧ (lib.find? e).isSome ∧
        lib.template? f e = none) ↔
      (∃ r, lib.buildNode f depth id = .ok r) ∨
        ∃ v, lib.buildNode f depth id = .error (.schema v)) ∧
    (∀ i j, i < j → lib.templateAt f id i = lib.templateAt f id j →
      (lib.templateAt f id j).isSome →
      ∃ e, lib.buildNode f depth id = .error (.depthExhausted e)) ∧
    ∀ parent child e, (lib.attach f depth parent child).2 = some e → ∃ v, e = .schema v := by
  obtain ⟨hmissing, hexhausted, hcomplete⟩ := (lib.buildNode_explained f depth id).iff
  refine ⟨fun e => ?_, fun e => ?_, ?_, fun i j hij heq hsome => ?_, fun parent child e h => ?_⟩
  · rw [hmissing, templateEnd_eq_missing_iff]
    refine exists_congr fun k => and_congr_right fun _ => ?_
    constructor
    · rintro ⟨e', hat, hnone, rfl⟩
      exact ⟨hat, hnone⟩
    · rintro ⟨hat, hnone⟩
      exact ⟨e, hat, hnone, rfl⟩
  · rw [hexhausted, templateEnd_eq_exhausted_iff]
  · rw [hcomplete, templateEnd_eq_complete_iff]
  · obtain ⟨e, he⟩ := Option.isSome_iff_exists.1 (isSome_templateAt_of_cycle hij heq hsome depth)
    exact ⟨e, (hexhausted e).2 ((templateEnd_eq_exhausted_iff depth id e).2 he)⟩
  · have hs := lib.splice_schemaOnly (depth - 1) parent child f
    rw [attach, attachWithin] at h
    rcases hr : lib.splice (depth - 1) parent child f with ⟨e' | u, g⟩ <;> rw [hr] at h hs
    · cases h
      exact hs e rfl
    · cases h

end Library

end IncidentReport
