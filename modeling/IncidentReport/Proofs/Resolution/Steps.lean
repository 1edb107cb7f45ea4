import IncidentReport.Proofs.Resolution.Offers
import IncidentReport.Proofs.Resolution.Reach
import IncidentReport.Proofs.Resolution.Refinement
import IncidentReport.Proofs.Classification
import IncidentReport.Proofs.Tree.Nodes
import Mathlib.Data.List.TakeWhile
import Mathlib.Data.Set.Basic

/-!
One step of a resolution, and what passes through all of them. The children of a definition
come to trees that are put behind those of its template; if all of them have their place,
they are marked and nothing else is done to them. So what holds of the children of all
definitions, and survives a mark and an expansion in place, holds of every tree that a
resolution comes to.
-/

namespace IncidentReport

namespace NodeType

/-- No node has a report among its children. -/
theorem ne_report_of_permits {kind child : NodeType} (h : kind.permits child = true) :
    child ≠ .report := by
  rintro rfl
  cases kind <;> cases h

end NodeType

/-! ### Marks -/

namespace Tree

theorem mk_withChildren_children (t : Tree) : (⟨t.node.withChildren t.children⟩ : Tree) = t := by
  obtain ⟨n⟩ := t
  exact congrArg Tree.mk (Node.withChildren_children n)

/-- The tree with the mark of the definition that it was expanded from. -/
def marked (id : String) (t : Tree) : Tree :=
  ⟨{ t.node with attributes := t.node.attributes.insert provenanceAttribute id }⟩

variable {t : Tree}

theorem attribute?_marked (id : String) (t : Tree) (name : String) :
    (t.marked id).attribute? name =
      if provenanceAttribute = name then some id else t.attribute? name :=
  Attributes.get?_insert _ _ _ _

/-- Every node but a report may carry a mark. -/
theorem setAttribute_eq_marked (ht : t.kind ≠ .report) (id : String) :
    t.setAttribute provenanceAttribute id = .ok (t.marked id) := by
  obtain ⟨⟨kind, attributes, body⟩⟩ := t
  cases kind with
  | report => exact absurd rfl ht
  | _ => rfl

theorem Valid.marked (h : t.Valid) (ht : t.kind ≠ .report) (id : String) : (t.marked id).Valid := by
  obtain ⟨n⟩ := t
  obtain ⟨m, hm, hmarked⟩ := map_eq_ok.1 (setAttribute_eq_marked ht id)
  rw [← hmarked]
  exact h.amend (Node.amends_setAttribute hm)

end Tree

namespace Definitions

variable {defs : Definitions} {depth spare : Nat} {id : String} {found start t : Tree}
  {ts : List Tree} {e : Expansion}

/-- The trees as they are marked: all of them if they are of one type, none otherwise. -/
def stamped (id : String) (ts : List Tree) : List Tree :=
  if (uniformType? ts).isSome then ts.map (Tree.marked id) else ts

theorem stamped_of_uniformType? {kind : NodeType} (h : uniformType? ts = some kind) :
    stamped id ts = ts.map (Tree.marked id) := by
  rw [stamped, h]
  rfl

theorem length_stamped (id : String) (ts : List Tree) : (stamped id ts).length = ts.length := by
  rw [stamped]
  split
  · exact List.length_map _
  · rfl

/-- What no mark takes away holds of trees that are marked. -/
theorem forall_mem_stamped {p : Tree → Prop} (hp : ∀ t ∈ ts, p t)
    (hmarked : (uniformType? ts).isSome → ∀ t ∈ ts, p (t.marked id)) :
    ∀ t ∈ stamped id ts, p t := by
  rw [stamped]
  split
  · next huniform => exact List.forall_mem_map.2 (hmarked huniform)
  · exact hp

/-! ### One step -/

/-- The trees have their place under a definition. -/
def Placed (ts : List Tree) : Prop :=
  ∀ t ∈ ts, NodeType.definition.permits t.kind = true

theorem placed_taken (o : Offer) : Placed (o.taken .definition) :=
  fun _ ht => List.mem_takeWhile_imp (p := fun t : Tree => NodeType.definition.permits t.kind) ht

theorem stamp_eq_stamped (h : Placed ts) (id : String) : stamp id ts = .ok (stamped id ts) := by
  rw [stamp, stamped]
  cases uniformType? ts with
  | none => rfl
  | some kind =>
      exact mapM_eq_ok_map fun t ht =>
        Tree.setAttribute_eq_marked (NodeType.ne_report_of_permits (h t ht)) id

/-- A new definition with these children. -/
def definitionOf (ts : List Tree) : Tree :=
  ⟨⟨.definition, .empty, .children ts⟩⟩

@[simp] theorem children_definitionOf (ts : List Tree) : (definitionOf ts).children = ts := rfl

/-- The expansion of `id` whose children come to these trees. -/
def completed (id : String) (ts : List Tree) : Expansion :=
  ⟨definitionOf (stamped id ts), uniformType? ts⟩

/-- What children are gathered on: a definition that has nothing but children. -/
inductive Bare : Tree → Prop where
  | mk {ts : List Tree} (placed : Placed ts) : Bare (definitionOf ts)

theorem Bare.placed (h : Bare t) : Placed t.children := by
  obtain ⟨placed⟩ := h
  exact placed

theorem bare_completed (h : Placed ts) (id : String) : Bare (completed id ts).definition :=
  .mk (forall_mem_stamped h fun _ => h)

theorem complete_eq_completed {gathered : List Tree} (h : Placed gathered.reverse) (id : String) :
    complete id ⟨(definitionOf ts).node, gathered⟩ = .ok (completed id gathered.reverse) := by
  rw [complete, Gathering.children, stamp_eq_stamped h]
  rfl

/-- The children of the definition are put behind those that it inherits, unless one of them
is refused. -/
theorem resolve_succ (hfound : defs id = some found)
    (hbasis : basis (defs.resolve depth) found = .ok start) (hstart : Bare start) :
    let inside := Offer.concat (defs.offer depth) found.children
    defs.resolve (depth + 1) id = (inside.refusal? .definition).elim
      (.ok (completed id (start.children ++ inside.trees)))
      fun violation => .error (.schema violation) := by
  intro inside
  obtain @⟨ts, placed⟩ := hstart
  have gathered : forEachTree (defs.gather depth) (.startingFrom (definitionOf ts))
      found.children = (Gathering.startingFrom (definitionOf ts)).accept inside :=
    Gathering.forEachTree_eq_accept (fun t g => gather_eq_accept defs depth g t) _ _
  rw [resolve, Library.expandWith_eq_complete hfound hbasis, gathered, Gathering.accept]
  rw [show (Gathering.startingFrom (definitionOf ts)).parent.kind = .definition from rfl]
  cases hrefusal : inside.refusal? .definition with
  | some violation => rfl
  | none =>
      have taken := (Offer.refusal?_eq_none_iff.1 hrefusal).1
      have all : Placed (ts ++ inside.trees) :=
        List.forall_mem_append.2 ⟨placed, taken ▸ placed_taken inside⟩
      have reversed : ((inside.taken .definition).reverse ++ ts.reverse).reverse =
          ts ++ inside.trees := by simp [taken]
      show complete id ⟨(definitionOf ts).node, (inside.taken .definition).reverse ++ ts.reverse⟩ =
        .ok (completed id (ts ++ inside.trees))
      rw [complete_eq_completed (reversed ▸ all), reversed]

theorem resolve_of_missing (h : defs id = none) (depth : Nat) :
    defs.resolve (depth + 1) id = .error (.notFound id) := by
  rw [resolve, expandWith, h]

/-- Without what it inherits nothing becomes of a definition. -/
theorem resolve_of_basis_error {error : ResolveError} (hfound : defs id = some found)
    (hbasis : basis (defs.resolve depth) found = .error error) :
    defs.resolve (depth + 1) id = .error error := by
  rw [resolve, expandWith, hfound]
  dsimp only
  rw [hbasis]
  rfl

/-- Children are gathered on what the template expands to, or on a new definition. -/
theorem basis_eq_ok {inherit : String → Except ResolveError Expansion}
    (h : basis inherit found = .ok start) :
    (∃ template e, found.attribute? templateAttribute = some template ∧
      inherit template = .ok e ∧ e.definition = start) ∨
    found.attribute? templateAttribute = none ∧ start = definitionOf [] := by
  rw [basis] at h
  split at h
  · next template ht =>
      obtain ⟨e, he, hstart⟩ := map_eq_ok.1 h
      exact .inl ⟨template, e, ht, he, hstart⟩
  · next ht =>
      cases h
      exact .inr ⟨ht, rfl⟩

theorem basis_eq_error {inherit : String → Except ResolveError Expansion} {error : ResolveError}
    (h : basis inherit found = .error error) :
    ∃ template, found.attribute? templateAttribute = some template ∧
      inherit template = .error error := by
  rw [basis] at h
  split at h
  · next template ht =>
      refine ⟨template, ht, ?_⟩
      cases hinherit : inherit template with
      | error other =>
          rw [hinherit] at h
          cases h
          rfl
      | ok e =>
          rw [hinherit] at h
          cases h
  · cases h

theorem bare_of_basis (hr : ∀ id e, defs.resolve depth id = .ok e → Bare e.definition)
    (h : basis (defs.resolve depth) found = .ok start) : Bare start := by
  rcases basis_eq_ok h with ⟨template, e, -, he, rfl⟩ | ⟨-, rfl⟩
  · exact hr template e he
  · exact .mk (List.forall_mem_nil _)

/-- How an id with this definition is resolved: what it is based on may be missing, one of its
children may be refused, or all of them are put behind what it inherits. -/
inductive Resolved (defs : Definitions) (depth : Nat) (id : String) (found : Tree) :
    Except ResolveError Expansion → Prop where
  | baseless {error : ResolveError} (basis : basis (defs.resolve depth) found = .error error) :
      Resolved defs depth id found (.error error)
  | refused {start : Tree} {violation : Violation}
      (basis : basis (defs.resolve depth) found = .ok start) (bare : Bare start)
      (refusal : (Offer.concat (defs.offer depth) found.children).refusal? .definition =
        some violation) :
      Resolved defs depth id found (.error (.schema violation))
  | complete {start : Tree} (basis : basis (defs.resolve depth) found = .ok start)
      (bare : Bare start)
      (accepted : (Offer.concat (defs.offer depth) found.children).refusal? .definition = none) :
      Resolved defs depth id found (.ok (completed id
        (start.children ++ (Offer.concat (defs.offer depth) found.children).trees)))

theorem resolved_of_bare (hr : ∀ id e, defs.resolve depth id = .ok e → Bare e.definition)
    (hfound : defs id = some found) : Resolved defs depth id found (defs.resolve (depth + 1) id) := by
  cases hbasis : basis (defs.resolve depth) found with
  | error error =>
      rw [resolve_of_basis_error hfound hbasis]
      exact .baseless hbasis
  | ok start =>
      have hstart := bare_of_basis hr hbasis
      rw [resolve_succ hfound hbasis hstart]
      cases hrefusal : (Offer.concat (defs.offer depth) found.children).refusal? .definition with
      | some violation => exact .refused hbasis hstart hrefusal
      | none => exact .complete hbasis hstart hrefusal

theorem Resolved.eq_completed (h : Resolved defs depth id found (.ok e)) :
    ∃ ts, Placed ts ∧ e = completed id ts := by
  obtain _ | _ | ⟨-, bare, accepted⟩ := h
  have taken := (Offer.refusal?_eq_none_iff.1 accepted).1
  exact ⟨_, List.forall_mem_append.2 ⟨bare.placed, taken ▸ placed_taken _⟩, rfl⟩

/-- Whatever is found, what an id is resolved to is a definition that has nothing but
children. -/
theorem bare_of_resolve (h : defs.resolve depth id = .ok e) : Bare e.definition := by
  induction depth generalizing id e with
  | zero =>
      rw [resolve] at h
      cases h
  | succ depth ih =>
      cases hfound : defs id with
      | none =>
          rw [resolve_of_missing hfound] at h
          cases h
      | some found =>
          have step := resolved_of_bare (fun id e he => ih he) hfound
          rw [h] at step
          obtain ⟨ts, placed, rfl⟩ := step.eq_completed
          exact bare_completed placed id

theorem resolved (defs : Definitions) (depth : Nat) (hfound : defs id = some found) :
    Resolved defs depth id found (defs.resolve (depth + 1) id) :=
  resolved_of_bare (fun _ _ => bare_of_resolve) hfound

/-- An id with an expansion has a definition, and a unit was there to be spent on it. -/
theorem resolved_of_resolve_eq_ok (h : defs.resolve depth id = .ok e) :
    ∃ spare found, depth = spare + 1 ∧ defs id = some found ∧
      Resolved defs spare id found (.ok e) := by
  cases depth with
  | zero =>
      rw [resolve] at h
      cases h
  | succ spare =>
      cases hfound : defs id with
      | none =>
          rw [resolve_of_missing hfound] at h
          cases h
      | some found => exact ⟨spare, found, rfl, rfl, h ▸ defs.resolved spare hfound⟩

/-- Children that are all of one type carry the mark of the definition, wherever they come
from. -/
theorem provenance_of_uniformType (h : defs.resolve depth id = .ok e) {kind : NodeType}
    (hkind : e.uniformType = some kind) :
    ∀ t ∈ e.definition.children, t.attribute? provenanceAttribute = some id := by
  obtain ⟨spare, found, -, -, step⟩ := resolved_of_resolve_eq_ok h
  obtain ⟨ts, -, rfl⟩ := step.eq_completed
  rw [completed, children_definitionOf, stamped_of_uniformType? hkind, List.forall_mem_map]
  intro t _
  rw [Tree.attribute?_marked, if_pos rfl]

theorem children_ne_nil_of_uniformType (h : defs.resolve depth id = .ok e) {kind : NodeType}
    (hkind : e.uniformType = some kind) : e.definition.children ≠ [] := by
  obtain ⟨spare, found, -, -, step⟩ := resolved_of_resolve_eq_ok h
  obtain ⟨ts, -, rfl⟩ := step.eq_completed
  rw [completed, children_definitionOf, stamped_of_uniformType? hkind]
  intro hnil
  rw [completed, List.map_eq_nil_iff.1 hnil] at hkind
  cases hkind

/-- What a tree comes to with something to spend on it: what the expansion that it refers
to comes to, or the tree itself unless something inside is refused. -/
theorem offer_cases (defs : Definitions) (spare : Nat) (t : Tree) :
    (∃ id e, t.attribute? definitionAttribute = some id ∧ defs.resolve (spare + 1) id = .ok e ∧
      defs.offer (spare + 1) t = .concat (defs.offer spare) e.definition.children) ∨
    (∀ id e, t.attribute? definitionAttribute = some id → defs.resolve (spare + 1) id ≠ .ok e) ∧
      let inside := Offer.concat (defs.offer spare) t.children
      defs.offer (spare + 1) t =
        (inside.refusal? t.kind).elim (.ofTree ⟨t.node.withChildren inside.trees⟩) .failure := by
  rw [offer]
  cases hfollow : (t.attribute? definitionAttribute).bind fun id =>
      (defs.resolve (spare + 1) id).toOption with
  | some e =>
      obtain ⟨id, hid, he⟩ := Option.bind_eq_some_iff.1 hfollow
      refine .inl ⟨id, e, hid, ?_, rfl⟩
      cases hresolve : defs.resolve (spare + 1) id with
      | error error =>
          rw [hresolve] at he
          cases he
      | ok e' =>
          rw [hresolve] at he
          cases he
          rfl
  | none =>
      refine .inr ⟨fun id e hid he => ?_, ?_⟩
      · rw [hid, Option.bind_some, he] at hfollow
        cases hfollow
      · dsimp only
        cases (Offer.concat (defs.offer spare) t.children).refusal? t.kind <;> rfl

end Definitions

/-! ### Offers one behind the other -/

namespace Offer

variable {p : Tree → Prop} {q : Violation → Prop} {a b o : Offer}

/-- The trees have one property, and the violation behind them has the other. -/
structure Meets (p : Tree → Prop) (q : Violation → Prop) (o : Offer) : Prop where
  trees : ∀ t ∈ o.trees, p t
  violation : ∀ v ∈ o.violation?, q v

theorem meets_ofTree {t : Tree} (ht : p t) : (ofTree t).Meets p q where
  trees := List.forall_mem_singleton.2 ht
  violation _ h := by cases h

theorem meets_failure {v : Violation} (hv : q v) : (failure v).Meets p q where
  trees := List.forall_mem_nil _
  violation _ h := by
    cases h
    exact hv

theorem Meets.append (ha : a.Meets p q) (hb : b.Meets p q) : (a.append b).Meets p q := by
  rw [Offer.append]
  split
  · exact ha
  · exact ⟨List.forall_mem_append.2 ⟨ha.trees, hb.trees⟩, hb.violation⟩

theorem Meets.concat {offer : Tree → Offer} {ts : List Tree} (h : ∀ t ∈ ts, (offer t).Meets p q) :
    (Offer.concat offer ts).Meets p q := by
  induction ts with
  | nil => exact ⟨List.forall_mem_nil _, fun _ h => by cases h⟩
  | cons t ts ih =>
      obtain ⟨ht, hts⟩ := List.forall_mem_cons.1 h
      exact ht.append (ih hts)

theorem concat_of_ofTree {offer : Tree → Offer} {ts : List Tree}
    (h : ∀ t ∈ ts, offer t = ofTree t) : Offer.concat offer ts = ⟨ts, none⟩ := by
  induction ts with
  | nil => rfl
  | cons t ts ih =>
      obtain ⟨ht, hts⟩ := List.forall_mem_cons.1 h
      show (offer t).append (Offer.concat offer ts) = _
      rw [ht, ih hts]
      rfl

theorem refusal?_of_permits {ts : List Tree} {kind : NodeType}
    (h : ∀ t ∈ ts, kind.permits t.kind = true) : (Offer.mk ts none).refusal? kind = none :=
  refusal?_eq_none_iff.2 ⟨List.takeWhile_eq_self_iff.2 h, rfl⟩

/-- A node refuses a tree that it does not permit, or passes on the violation behind the
trees. -/
theorem Meets.refusal (h : o.Meets p q) {kind : NodeType} {v : Violation}
    (hv : o.refusal? kind = some v) :
    (∃ t, p t ∧ kind.permits t.kind = false ∧ v = kind.refusal t.kind) ∨ q v := by
  have hsplit := o.taken_append_left kind
  rw [refusal?] at hv
  cases hleft : o.left kind with
  | nil =>
      rw [hleft] at hv
      exact .inr (h.violation v hv)
  | cons t ts =>
      rw [hleft] at hv hsplit
      have hfirst := List.head?_dropWhile_not (fun t : Tree => kind.permits t.kind) o.trees
      rw [← left, hleft] at hfirst
      refine .inl ⟨t, h.trees t ?_, hfirst, (Option.some.inj hv).symm⟩
      rw [← hsplit]
      exact List.mem_append_right _ List.mem_cons_self

end Offer

namespace Definitions

variable {defs : Definitions} {depth spare : Nat} {id : String} {found t : Tree}
  {p : Tree → Prop} {q : Violation → Prop}

/-! ### Trees that refer to nothing -/

/-- No node of the tree refers to a definition. -/
def Unresolved (defs : Definitions) (t : Tree) : Prop :=
  t.All fun n => ∀ id ∈ n.attribute? definitionAttribute, defs id = none

/-- Where nothing refers to a definition there is nothing to expand, whatever the budget. -/
theorem offer_of_unresolved (ht : t.Valid) (hrefers : defs.Unresolved t) (spare : Nat) :
    defs.offer spare t = .ofTree t := by
  induction spare generalizing t with
  | zero => rfl
  | succ spare ih =>
      rcases offer_cases defs spare t with ⟨id, e, hid, he, -⟩ | ⟨-, hoffer⟩
      · rw [resolve_of_missing (hrefers.root id hid)] at he
        cases he
      · have inside : Offer.concat (defs.offer spare) t.children = ⟨t.children, none⟩ :=
          Offer.concat_of_ofTree fun u hu => ih (ht.child hu) (hrefers.child hu)
        rw [hoffer, inside, Offer.refusal?_of_permits fun u hu => ht.permits hu]
        exact congrArg Offer.ofTree t.mk_withChildren_children

theorem bind_resolve_of_unresolved (hrefers : defs.Unresolved t) (depth : Nat) :
    ((t.attribute? definitionAttribute).bind fun id =>
      (defs.resolve (depth + 1) id).toOption) = none := by
  refine Option.bind_eq_none_iff.2 fun id hid => ?_
  rw [resolve_of_missing (hrefers.root id hid)]
  rfl

theorem gatherAlone_of_unresolved (ht : t.Valid) (hrefers : defs.Unresolved t) (spare : Nat)
    (g : Gathering) : gatherAlone (defs.gather spare) g t = g.take t := by
  have gathered : defs.gather (spare + 1) g t = g.take t := by
    rw [gather_eq_accept, offer_of_unresolved ht hrefers, Gathering.accept_ofTree]
  rwa [gather_succ, gatherWith_eq, bind_resolve_of_unresolved hrefers, Option.elim_none]
    at gathered

/-! ### All steps -/

/-- The children of an expansion have the one property; if the schema is broken instead, the
violation has the other. -/
structure Yields (p : Tree → Prop) (q : Violation → Prop)
    (outcome : Except ResolveError Expansion) : Prop where
  children : ∀ e, outcome = .ok e → ∀ t ∈ e.definition.children, p t
  violation : ∀ v, outcome = .error (.schema v) → q v

/-- The trees that are completed to an expansion of the id have the one property; if the schema
is broken instead, the violation has the other. -/
structure Completes (p : Tree → Prop) (q : Violation → Prop) (id : String)
    (outcome : Except ResolveError Expansion) : Prop where
  trees : ∀ e, outcome = .ok e → ∃ ts, Placed ts ∧ (∀ t ∈ ts, p t) ∧ e = completed id ts
  violation : ∀ v, outcome = .error (.schema v) → q v

/-- The children of the definition have the property, and its template is one of these ids. -/
structure StartsWithin (defs : Definitions) (ids : Set String) (p : Tree → Prop) (id : String) :
    Prop where
  children : ∀ found ∈ defs id, ∀ child ∈ found.children, p child
  template : ∀ found ∈ defs id, ∀ next ∈ found.attribute? templateAttribute, next ∈ ids

/-- Below the bound each step of a resolution of these ids keeps the properties: children of
definitions have the first one, the mark of an id whose expansion is marked does not take it
away, a tree that is expanded in place keeps it, and what is refused for its place or fails on
the way has the second. No step leads to other ids. -/
structure KeepsWithin (defs : Definitions) (ids : Set String) (bound : Nat) (p : Tree → Prop)
    (q : Violation → Prop) : Prop where
  stored : ∀ id ∈ ids, defs.StartsWithin ids p id
  refers : ∀ t, p t → ∀ id ∈ t.attribute? definitionAttribute, id ∈ ids
  marked : ∀ id ∈ ids, ∀ depth < bound, ∀ e, defs.resolve depth id = .ok e →
    e.uniformType.isSome → ∀ t, p t → t.kind ≠ .report → p (t.marked id)
  refused : ∀ t, p t → NodeType.definition.permits t.kind = false →
    q (NodeType.definition.refusal t.kind)
  inPlace : ∀ spare t, p t → (∀ u, p u → (defs.offer spare u).Meets p q) →
    let inside := Offer.concat (defs.offer spare) t.children
    ((inside.refusal? t.kind).elim (.ofTree ⟨t.node.withChildren inside.trees⟩)
      .failure : Offer).Meets p q

namespace KeepsWithin

variable {ids : Set String} {bound : Nat}

theorem resolve_completes (hk : defs.KeepsWithin ids bound p q)
    (hr : ∀ id ∈ ids, Yields p q (defs.resolve depth id))
    (ho : ∀ t, p t → (defs.offer depth t).Meets p q) (hid : defs.StartsWithin ids p id) :
    Completes p q id (defs.resolve (depth + 1) id) := by
  cases hfound : defs id with
  | none =>
      rw [resolve_of_missing hfound]
      exact ⟨fun _ h => (by cases h), fun _ h => (by cases h)⟩
  | some found =>
      have inside : (Offer.concat (defs.offer depth) found.children).Meets p q :=
        .concat fun t ht => ho t (hid.children found hfound t ht)
      have step := defs.resolved depth hfound
      generalize defs.resolve (depth + 1) id = outcome at step ⊢
      cases step with
      | baseless basis =>
          obtain ⟨template, ht, he⟩ := basis_eq_error basis
          have inherited := hr template (hid.template found hfound template ht)
          refine ⟨fun _ h => (by cases h), fun v h => inherited.violation v ?_⟩
          rw [he, Except.error.inj h]
      | refused basis bare refusal =>
          refine ⟨fun _ h => (by cases h), fun v h => ?_⟩
          cases h
          rcases inside.refusal refusal with ⟨t, ht, hplace, rfl⟩ | hq
          · exact hk.refused t ht hplace
          · exact hq
      | @complete start basis bare accepted =>
          have inherited : ∀ t ∈ start.children, p t := by
            rcases basis_eq_ok basis with ⟨template, e, ht, he, rfl⟩ | ⟨-, rfl⟩
            · exact (hr template (hid.template found hfound template ht)).children e he
            · exact List.forall_mem_nil _
          have taken := (Offer.refusal?_eq_none_iff.1 accepted).1
          refine ⟨fun e h => ?_, fun _ h => (by cases h)⟩
          cases h
          exact ⟨_, List.forall_mem_append.2 ⟨bare.placed, taken ▸ placed_taken _⟩,
            List.forall_mem_append.2 ⟨inherited, inside.trees⟩, rfl⟩

/-- What is completed is marked, if at all, with the id. -/
theorem yields_of_completes (hk : defs.KeepsWithin ids bound p q) (hid : id ∈ ids)
    (hdepth : depth < bound) (h : Completes p q id (defs.resolve depth id)) :
    Yields p q (defs.resolve depth id) where
  children e he := by
    obtain ⟨ts, placed, hts, rfl⟩ := h.trees e he
    refine forall_mem_stamped hts fun huniform t ht => ?_
    exact hk.marked id hid depth hdepth _ he huniform t (hts t ht)
      (NodeType.ne_report_of_permits (placed t ht))
  violation := h.violation

theorem offer_meets (hk : defs.KeepsWithin ids bound p q)
    (hr : ∀ id ∈ ids, Yields p q (defs.resolve (spare + 1) id))
    (ho : ∀ t, p t → (defs.offer spare t).Meets p q) (ht : p t) :
    (defs.offer (spare + 1) t).Meets p q := by
  rcases offer_cases defs spare t with ⟨id, e, hid, he, hoffer⟩ | ⟨-, hoffer⟩ <;> rw [hoffer]
  · exact .concat fun u hu => ho u ((hr id (hk.refers t ht id hid)).children e he u hu)
  · exact hk.inPlace spare t ht ho

/-- What every step keeps, a resolution keeps, whatever the budget below the bound. -/
theorem resolve_and_offer (hk : defs.KeepsWithin ids bound p q) (hdepth : depth < bound) :
    (∀ id ∈ ids, Yields p q (defs.resolve depth id)) ∧
      ∀ t, p t → (defs.offer depth t).Meets p q := by
  induction depth with
  | zero =>
      refine ⟨fun id _ => ⟨fun e h => ?_, fun v h => ?_⟩, fun t ht => ?_⟩
      · rw [resolve] at h
        cases h
      · rw [resolve] at h
        cases h
      · rw [offer]
        exact Offer.meets_ofTree ht
  | succ depth ih =>
      obtain ⟨hr, ho⟩ := ih (Nat.lt_of_succ_lt hdepth)
      have next : ∀ id ∈ ids, Yields p q (defs.resolve (depth + 1) id) := fun id hid =>
        hk.yields_of_completes hid hdepth (hk.resolve_completes hr ho (hk.stored id hid))
      exact ⟨next, fun _ => hk.offer_meets next ho⟩

/-- An id that leads to these ids need not be one of them if its own mark is still to be
looked at. -/
theorem completes (hk : defs.KeepsWithin ids bound p q) (hid : defs.StartsWithin ids p id) :
    Completes p q id (defs.resolve bound id) := by
  cases bound with
  | zero =>
      rw [resolve]
      exact ⟨fun _ h => (by cases h), fun _ h => (by cases h)⟩
  | succ depth =>
      obtain ⟨hr, ho⟩ := hk.resolve_and_offer (Nat.lt_succ_self depth)
      exact hk.resolve_completes hr ho hid

end KeepsWithin

/-- Each step of a resolution keeps the properties: children of definitions have the first
one, a mark does not take it away, a tree that is expanded in place keeps it, and what is
refused for its place or fails on the way has the second. -/
structure Keeps (defs : Definitions) (p : Tree → Prop) (q : Violation → Prop) : Prop where
  stored : ∀ id, ∀ found ∈ defs id, ∀ child ∈ found.children, p child
  marked : ∀ t id, p t → t.kind ≠ .report → p (t.marked id)
  refused : ∀ t, p t → NodeType.definition.permits t.kind = false →
    q (NodeType.definition.refusal t.kind)
  inPlace : ∀ spare t, p t → (∀ u, p u → (defs.offer spare u).Meets p q) →
    let inside := Offer.concat (defs.offer spare) t.children
    ((inside.refusal? t.kind).elim (.ofTree ⟨t.node.withChildren inside.trees⟩)
      .failure : Offer).Meets p q

namespace Keeps

theorem keepsWithin (hk : defs.Keeps p q) (bound : Nat) :
    defs.KeepsWithin Set.univ bound p q where
  stored id _ := ⟨hk.stored id, fun _ _ _ _ => Set.mem_univ _⟩
  refers _ _ _ _ := Set.mem_univ _
  marked id _ _ _ _ _ _ t := hk.marked t id
  refused := hk.refused
  inPlace := hk.inPlace

/-- What every step keeps, a resolution keeps, whatever the budget. -/
theorem resolve_and_offer (hk : defs.Keeps p q) (depth : Nat) :
    (∀ id, Yields p q (defs.resolve depth id)) ∧ ∀ t, p t → (defs.offer depth t).Meets p q := by
  obtain ⟨hr, ho⟩ := (hk.keepsWithin (depth + 1)).resolve_and_offer (Nat.lt_succ_self depth)
  exact ⟨fun id => hr id (Set.mem_univ id), ho⟩

end Keeps

end Definitions

namespace Library

variable {lib : Library} {f g : Forest} {depth : Nat} {id : String} {root : NodeId}
  {uniform : Option NodeType}

/-- What a node that was built has as its children, the id was resolved to. -/
theorem children_of_buildNode (hf : f.WellFormed) (hl : lib.Within f)
    (h : lib.buildNode f depth id = .ok (root, uniform, g)) :
    ∃ e, (lib.definitions f).resolve depth id = .ok e ∧
      e.definition.children = (g.children root).map g.tree ∧ e.uniformType = uniform := by
  exact ⟨_, resolve_of_buildNode hf hl h, (wellFormed_of_buildNode hf hl h).children_tree root, rfl⟩

/-- A tree refers to no definition if no node that its root leads to does. -/
theorem unresolved_tree (hf : f.WellFormed) {top : NodeId}
    (h : ∀ node, f.Reaches top node →
      ∀ key ∈ (f.get node).attribute? definitionAttribute, lib.find? key = none) :
    (lib.definitions f).Unresolved (f.tree top) := by
  refine hf.all_tree fun node hnode key hkey => ?_
  have refers : (f.get node).attribute? definitionAttribute = some key := by
    rw [← hf.attribute?_tree]
    exact hkey
  rw [definitions, h node hnode key refers]
  rfl

end Library

end IncidentReport
