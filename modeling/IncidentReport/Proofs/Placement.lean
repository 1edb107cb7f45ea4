import IncidentReport.Proofs.Resolution.Reach
import IncidentReport.Proofs.Resolution.Steps
import IncidentReport.Proofs.Resolution.Templates

/-!
How resolution can break the schema. What is expanded is put together from valid trees and
new nodes, so the one thing that can be wrong is the place of a tree that is spliced in; and
as whatever is attached has been copied before, it never leads back to where it goes. A tree
that is spliced in for a child of a definition has its place there, so the trees that can be
misplaced stand further down.
-/

namespace IncidentReport

/-- The schema is broken by a child that has no place under its parent. -/
def Violation.Misplaces (v : Violation) : Prop :=
  ∃ parent child, v = .childNotPermitted parent child

theorem NodeType.misplaces_refusal {kind : NodeType} (h : kind.content = .children)
    (child : NodeType) : (kind.refusal child).Misplaces :=
  ⟨kind, child, if_pos h⟩

/-- A child is refused for its type: its parent does not permit it, or holds no children. -/
def ResolveError.IsRefusal (e : ResolveError) : Prop :=
  ∃ place child, e = .schema (NodeType.refusal place child)

theorem ResolveError.IsRefusal.ne_cyclicAttachment {e : ResolveError} (h : e.IsRefusal)
    (parent child : NodeType) : e ≠ .schema (.cyclicAttachment parent child) := by
  obtain ⟨place, other, rfl⟩ := h
  rw [NodeType.refusal]
  split <;> simp

/-! ### Trees -/

namespace Definitions

variable {defs : Definitions} {depth spare : Nat} {id : String} {found t : Tree}

/-- Every definition obeys the schema. -/
def Valid (defs : Definitions) : Prop :=
  ∀ id, ∀ found ∈ defs id, found.Valid

/-- What comes of valid trees is valid, up to a child in a wrong place. -/
theorem Valid.keeps (hd : defs.Valid) : defs.Keeps Tree.Valid Violation.Misplaces where
  stored id found hfound child hchild := (hd id found hfound).child hchild
  marked t id ht hkind := ht.marked hkind id
  refused t _ _ := NodeType.misplaces_refusal rfl t.kind
  inPlace spare t ht ho := by
    have inside : (Offer.concat (defs.offer spare) t.children).Meets Tree.Valid
        Violation.Misplaces := .concat fun u hu => ho u (ht.child hu)
    dsimp only
    cases hchildren : t.children with
    | nil =>
        have nothing : (Offer.concat (defs.offer spare) []).refusal? t.kind = none := rfl
        rw [nothing]
        exact Offer.meets_ofTree (ht.withChildren (List.forall_mem_nil _) (List.forall_mem_nil _))
    | cons first rest =>
        -- There is a child to start with, so the node is one that holds children.
        have hfirst : first ∈ t.children := hchildren ▸ List.mem_cons_self
        have hcontent := Node.permits_eq_true_imp (ht.permits hfirst)
        rw [← hchildren]
        cases hrefusal : (Offer.concat (defs.offer spare) t.children).refusal? t.kind with
        | some v =>
            apply Offer.meets_failure
            rcases inside.refusal hrefusal with ⟨u, -, -, rfl⟩ | hv
            · exact NodeType.misplaces_refusal hcontent u.kind
            · exact hv
        | none =>
            have taken := (Offer.refusal?_eq_none_iff.1 hrefusal).1
            apply Offer.meets_ofTree
            apply ht.withChildren
            · exact List.takeWhile_eq_self_iff.1 taken
            · exact inside.trees

/-- A child of a definition below which nothing refers to a definition. -/
structure Flat (defs : Definitions) (t : Tree) : Prop where
  valid : t.Valid
  placed : NodeType.definition.permits t.kind = true
  below : ∀ child ∈ t.children, defs.Unresolved child

/-- If references stand on the children of definitions only, nothing is ever refused: what
takes the place of a child of a definition is a child of a definition. -/
theorem keeps_flat (h : ∀ id, ∀ found ∈ defs id, ∀ child ∈ found.children, defs.Flat child) :
    defs.Keeps defs.Flat fun _ => False where
  stored := h
  marked t id ht hkind := ⟨ht.valid.marked hkind id, ht.placed, ht.below⟩
  refused t ht hplace := by simp [ht.placed] at hplace
  inPlace spare t ht ho := by
    have inside : Offer.concat (defs.offer spare) t.children = ⟨t.children, none⟩ :=
      Offer.concat_of_ofTree fun u hu =>
        offer_of_unresolved (ht.valid.child hu) (ht.below u hu) spare
    dsimp only
    rw [inside, Offer.refusal?_of_permits fun u hu => ht.valid.permits hu]
    apply Offer.meets_ofTree
    rwa [t.mk_withChildren_children]

end Definitions

/-! ### Reports -/

/-- A report fails for the schema by a child that has no place in it. -/
theorem ReportOf.misplaces {id : String} {children : List Tree} {v : Violation}
    (h : ReportOf id children (.error (.schema v))) : v.Misplaces := by
  cases children with
  | nil => cases h.empty rfl
  | cons first rest =>
      have decided : ∀ place : NodeType, first.kind = .incident ∧ place = .report ∨
          first.kind = .state ∧ place = .incident →
          (∀ t ∈ first :: rest, place.permits t.kind = true) ∨ v.Misplaces := by
        intro place hplace
        rcases place.permits_all_or_first (first :: rest) with hall |
          ⟨before, t, after, hsplit, hbefore, ht⟩
        · exact .inl hall
        · have refused := h.refused first rfl place hplace before t after hsplit hbefore ht
          cases refused
          exact .inr ⟨place, t.kind, rfl⟩
      by_cases hincident : first.kind = .incident
      · rcases decided .report (.inl ⟨hincident, rfl⟩) with hall | hv
        · cases h.incidents first rfl hincident hall
        · exact hv
      by_cases hstate : first.kind = .state
      · rcases decided .incident (.inr ⟨hstate, rfl⟩) with hall | hv
        · cases h.states first rfl hstate hall
        · exact hv
      · cases h.unsupported first rfl hincident hstate

/-! ### Handles -/

namespace Library

open Forest Call

variable {lib : Library} {f g : Forest} {parent child : NodeId} {e : ResolveError}
  {expand : String → Call Resolved} {attach : NodeId → NodeId → Call Unit}

/-- If the call does not attach what it is given, a child has been refused for its type. -/
def Refuses (lib : Library) (attach : NodeId → NodeId → Call Unit) : Prop :=
  ∀ (f : Forest) (parent child : NodeId), f.WellFormed → lib.Within f → f.Has parent →
    f.Has child → ∀ e, (attach parent child f).1 = .error e → e.IsRefusal

theorem isRefusal_of_edit_addChild (hf : f.WellFormed) (hc : f.Has child)
    (hno : ¬ f.Reaches child parent)
    (h : (Call.edit (·.addChild parent child) f).1 = .error e) : e.IsRefusal := by
  rw [Call.edit, addChild_of_not_reaches hf hc hno, Node.checkChild_eq] at h
  by_cases hp : (f.get parent).kind.permits (f.get child).kind
  · rw [if_pos hp] at h
    cases h
  · rw [if_neg hp] at h
    cases h
    exact ⟨_, _, rfl⟩

theorem forEach_refuses (ha : lib.Refuses attach) (hab : lib.Attaches attach) (hf : f.WellFormed)
    (hl : lib.Within f) (hp : f.Has parent) {ids : List NodeId} (hids : ∀ id ∈ ids, f.Has id)
    (h : (forEach (attach parent) ids f).1 = .error e) : e.IsRefusal := by
  induction ids generalizing f with
  | nil => cases h
  | cons id ids ih =>
      obtain ⟨hid, hids⟩ := List.forall_mem_cons.1 hids
      have first := ha f parent id hf hl hp hid
      have made := (hab f parent id hf hl hp hid).construction
      rw [forEach, bind_apply] at h
      rcases hcall : attach parent id f with ⟨outcome, g⟩
      rw [hcall] at h first made
      cases outcome with
      | error e' =>
          cases h
          exact first e rfl
      | ok u =>
          exact ih (made.wellFormed hf) (hl.later made) (made.has hp)
            (fun other ho => made.has (hids other ho)) h

theorem copyWith_refuses (ha : lib.Refuses attach) (hab : lib.Attaches attach)
    (hf : f.WellFormed) (hl : lib.Within f) (h : (copyWith attach child f).1 = .error e) :
    e.IsRefusal := by
  obtain ⟨hg, hroot⟩ := copyAlone_spec hf child
  rw [copyWith, bind_apply, make] at h
  generalize f.copyAlone child = made at hg hroot h
  obtain ⟨copy, g⟩ := made
  dsimp only at hg hroot h
  rw [bind_apply, look] at h
  dsimp only at h
  rcases error_of_bind h with h | ⟨u, h⟩
  · exact forEach_refuses ha hab (hg.wellFormed hf) (hl.later hg) hroot.has
      ((hg.wellFormed hf).closed child) h
  · cases h

theorem attachWith_refuses {resolve : Definitions → String → Except ResolveError Expansion}
    (he : lib.ExpandsAs expand resolve) (heb : lib.Expands expand) (ha : lib.Refuses attach)
    (hab : lib.Attaches attach) : lib.Refuses (attachWith expand attach) := by
  intro f parent child hf hl hp hc e h
  obtain ⟨resolved?, g, hfollow, hg, -, -⟩ := follow?_tree he heb hf hl child
  have hwf := hg.wellFormed hf
  rw [attachWith_eq, bind_apply, hfollow] at h
  cases resolved? with
  | some r => exact forEach_refuses ha hab hwf (hl.later hg) (hg.has hp) (hwf.closed r.1) h
  | none =>
      obtain ⟨hk, hcopied⟩ := copyWith_builds hab hwf (hl.later hg) child
      replace h : ((copyWith attach child >>= fun copy => edit (·.addChild parent copy)) g).1 =
        .error e := h
      rw [bind_apply] at h
      rcases hcopy : copyWith attach child g with ⟨outcome, k⟩
      rw [hcopy] at h hk hcopied
      cases outcome with
      | error e' =>
          cases h
          exact copyWith_refuses ha hab hwf (hl.later hg) (congrArg Prod.fst hcopy)
      | ok copy =>
          -- The copy is new and the parent is not, so the copy does not lead there.
          have hroot := hcopied copy rfl
          have hno : ¬ k.Reaches copy parent := fun hback =>
            hk.isNew_of_reaches hroot.isNew hback (hg.has hp)
          exact isRefusal_of_edit_addChild (hk.wellFormed hwf) hroot.has hno h

theorem splice_refuses (lib : Library) (spare : Nat) : lib.Refuses (lib.splice spare) := by
  induction spare with
  | zero =>
      intro f parent child hf _ hp _ e h
      obtain ⟨hg, hroot, -⟩ := copy_spec hf child
      rw [splice, bind_apply, make] at h
      generalize f.copy child = made at hg hroot h
      obtain ⟨copy, g⟩ := made
      have hno : ¬ g.Reaches copy parent := fun hback => hg.isNew_of_reaches hroot.isNew hback hp
      exact isRefusal_of_edit_addChild (hg.wellFormed hf) hroot.has hno h
  | succ spare ih =>
      rw [splice_succ]
      exact attachWith_refuses (lib.expands_and_attaches_as (spare + 1)).1
        (lib.expands_and_attaches (spare + 1)).1 ih (lib.expands_and_attaches spare).2

/-- Wherever the parent stands, attaching a node to it closes no cycle. -/
theorem attach_isRefusal (hf : f.WellFormed) (hl : lib.Within f) (hp : f.Has parent)
    (hc : f.Has child) {depth : Nat} (h : (lib.attach f depth parent child).2 = some e) :
    e.IsRefusal := by
  have refuses := lib.splice_refuses (depth - 1) f parent child hf hl hp hc
  rw [attach, attachWithin] at h
  rcases hcall : lib.splice (depth - 1) parent child f with ⟨e' | u, g⟩ <;> rw [hcall] at h refuses
  · cases h
    exact refuses e rfl
  · cases h

/-! ### Definitions in forests -/

theorem valid_definitions_of (hf : f.WellFormed) : (lib.definitions f).Valid := by
  intro id t ht
  obtain ⟨found, -, rfl⟩ := Option.map_eq_some_iff.1 ht
  exact hf.valid_tree found

theorem buildNode_misplaces (hf : f.WellFormed) (hl : lib.Within f) {depth : Nat} {id : String}
    {v : Violation} (h : lib.buildNode f depth id = .error (.schema v)) : v.Misplaces :=
  (((valid_definitions_of hf).keeps.resolve_and_offer depth).1 id).violation v
    (resolve_of_buildNode_error hf hl h)

/-- References that stand on the children of definitions only leave nothing to be misplaced. -/
theorem buildNode_ne_schema (hf : f.WellFormed) (hl : lib.Stores f)
    (hflat : ∀ id, ∀ found ∈ lib.find? id, ∀ child, f.HasChild found child →
      ∀ node, Relation.TransGen f.HasChild child node →
        ∀ key ∈ (f.get node).attribute? definitionAttribute, lib.find? key = none)
    (depth : Nat) (id : String) (v : Violation) :
    lib.buildNode f depth id ≠ .error (.schema v) := by
  have keeps : (lib.definitions f).Keeps (lib.definitions f).Flat fun _ => False := by
    apply Definitions.keeps_flat
    intro id t ht child hchild
    obtain ⟨found, hfound, rfl⟩ := Option.map_eq_some_iff.1 ht
    have hplace := (hf.valid_tree found).permits hchild
    rw [hf.kind_tree, hl.kind hfound] at hplace
    rw [hf.children_tree] at hchild
    obtain ⟨c, hc, rfl⟩ := List.mem_map.1 hchild
    refine ⟨hf.valid_tree c, hplace, fun u hu => ?_⟩
    rw [hf.children_tree] at hu
    obtain ⟨n, hn, rfl⟩ := List.mem_map.1 hu
    exact unresolved_tree hf fun node hnode => hflat id found hfound c hc node (.head' hn hnode)
  intro h
  exact ((keeps.resolve_and_offer depth).1 id).violation v
    (resolve_of_buildNode_error hf hl.within h)

theorem buildReport_misplaces (hf : f.WellFormed) (hl : lib.Within f) {depth : Nat} {id : String}
    {v : Violation} (h : lib.buildReport f depth id = .error (.schema v)) : v.Misplaces := by
  cases hbuilt : lib.buildNode f depth id with
  | error e =>
      rw [buildReport_of_error hf hl hbuilt] at h
      cases h
      exact buildNode_misplaces hf hl hbuilt
  | ok built =>
      obtain ⟨root, uniform, g⟩ := built
      have report := (buildReport_of_ok hf hl hbuilt).2
      rw [h] at report
      exact report.misplaces

end Library

/-! ### Worlds -/

/-- How resolution can break the schema. -/
structure World.Places (w : World) : Prop where
  /-- A node is built unless a tree is misplaced, as far as the schema is concerned. -/
  node : ∀ lib ∈ w.libraries, ∀ depth id v,
    lib.buildNode w.forest depth id = .error (.schema v) →
      ∃ parent child, v = .childNotPermitted parent child
  report : ∀ lib ∈ w.libraries, ∀ depth id v,
    lib.buildReport w.forest depth id = .error (.schema v) →
      ∃ parent child, v = .childNotPermitted parent child
  /-- What is attached never leads back to the parent, wherever the parent stands. -/
  attach : ∀ lib ∈ w.libraries, ∀ depth parent child, w.forest.Has parent →
    w.forest.Has child → ∀ p c,
      (lib.attach w.forest depth parent child).2 ≠ some (.schema (.cyclicAttachment p c))
  /-- Nothing is misplaced if references to stored definitions stand on the children of
  definitions and nowhere below them. -/
  flat : ∀ lib ∈ w.libraries,
    (∀ id, ∀ found ∈ lib.find? id, ∀ child, w.forest.HasChild found child →
      ∀ node, Relation.TransGen w.forest.HasChild child node →
        ∀ key ∈ (w.forest.get node).attribute? definitionAttribute, lib.find? key = none) →
    ∀ depth id v, lib.buildNode w.forest depth id ≠ .error (.schema v)

namespace World

theorem WellFormed.places {w : World} (hw : w.WellFormed) : w.Places where
  node lib hlib _ _ _ h := Library.buildNode_misplaces hw.forest (hw.libraries lib hlib).within h
  report lib hlib _ _ _ h :=
    Library.buildReport_misplaces hw.forest (hw.libraries lib hlib).within h
  attach lib hlib _ _ _ hp hc p c h :=
    (Library.attach_isRefusal hw.forest (hw.libraries lib hlib).within hp hc
      h).ne_cyclicAttachment p c rfl
  flat lib hlib h := Library.buildNode_ne_schema hw.forest (hw.libraries lib hlib) h

/-- In every world the schema stands in the way of resolution by places only. -/
theorem run_places (operations : List Operation) : (run empty operations).Places :=
  (wellFormed_run wellFormed_empty operations).places

end World

end IncidentReport
