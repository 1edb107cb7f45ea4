import IncidentReport.Proofs.Resolution.ReportTrees
import IncidentReport.Proofs.World

/-!
What report an expansion is made into. The type of the first child decides: incidents go
under the report, states under one incident in it, and no other type is made into a
report. All children are moved, in order, and those of the deciding type get the id of
the definition; the first child that has no place where they go is the reason for a
refusal.
-/

namespace IncidentReport

/-- The tree as it stands in a report that is made of nodes of type `kind`: it refers to
the definition if it is of this type. -/
def Tree.referring (kind : NodeType) (id : String) (t : Tree) : Tree :=
  if t.kind = kind then
    ⟨{ t.node with attributes := t.node.attributes.insert definitionAttribute id }⟩
  else
    t

/-- The outcome is the report that `id` leads to if it expands to these children. -/
structure ReportOf (id : String) (children : List Tree) (outcome : Except ResolveError Tree) :
    Prop where
  /-- Nothing is made into a new report. -/
  empty : children = [] → outcome = .ok (.new .report)
  unsupported : ∀ first ∈ children.head?, first.kind ≠ .incident → first.kind ≠ .state →
    outcome = .error (.unsupported id first.kind)
  /-- The first child that is not permitted where the children go is refused. -/
  refused : ∀ first ∈ children.head?, ∀ place,
    first.kind = .incident ∧ place = .report ∨ first.kind = .state ∧ place = .incident →
    ∀ before t after, children = before ++ t :: after →
      (∀ other ∈ before, place.permits other.kind = true) → place.permits t.kind = false →
        outcome = .error (.schema (.childNotPermitted place t.kind))
  /-- Incidents go under the root of a report that has only the defaults. -/
  incidents : ∀ first ∈ children.head?, first.kind = .incident →
    (∀ t ∈ children, NodeType.report.permits t.kind = true) →
    outcome = .ok ⟨⟨.report, .ofList NodeType.report.defaults,
      .children (children.map (Tree.referring .incident id))⟩⟩
  /-- States go under an incident without attributes, which is all that is under the root. -/
  states : ∀ first ∈ children.head?, first.kind = .state →
    (∀ t ∈ children, NodeType.incident.permits t.kind = true) →
    outcome = .ok ⟨⟨.report, .ofList NodeType.report.defaults,
      .children [⟨⟨.incident, .empty, .children (children.map (Tree.referring .state id))⟩⟩]⟩⟩

/-- Trees have a place under a node all of them, or up to a first one that has none. -/
theorem NodeType.permits_all_or_first (place : NodeType) (ts : List Tree) :
    (∀ t ∈ ts, place.permits t.kind = true) ∨
      ∃ before t after, ts = before ++ t :: after ∧
        (∀ other ∈ before, place.permits other.kind = true) ∧ place.permits t.kind = false := by
  cases hfirst : ts.find? fun t => !place.permits t.kind with
  | none => exact .inl (by simpa using hfirst)
  | some t =>
      obtain ⟨ht, before, after, rfl, hbefore⟩ := List.find?_eq_some_iff_append.1 hfirst
      exact .inr ⟨before, t, after, rfl, by simpa using hbefore, by simpa using ht⟩

/-- The children leave no choice of the outcome. -/
theorem ReportOf.unique {id : String} {children : List Tree} {a b : Except ResolveError Tree}
    (ha : ReportOf id children a) (hb : ReportOf id children b) : a = b := by
  cases children with
  | nil => rw [ha.empty rfl, hb.empty rfl]
  | cons first rest =>
      by_cases hincident : first.kind = .incident
      · rcases NodeType.report.permits_all_or_first (first :: rest) with hall |
          ⟨before, t, after, hsplit, hbefore, ht⟩
        · rw [ha.incidents first rfl hincident hall, hb.incidents first rfl hincident hall]
        · rw [ha.refused first rfl _ (.inl ⟨hincident, rfl⟩) before t after hsplit hbefore ht,
            hb.refused first rfl _ (.inl ⟨hincident, rfl⟩) before t after hsplit hbefore ht]
      by_cases hstate : first.kind = .state
      · rcases NodeType.incident.permits_all_or_first (first :: rest) with hall |
          ⟨before, t, after, hsplit, hbefore, ht⟩
        · rw [ha.states first rfl hstate hall, hb.states first rfl hstate hall]
        · rw [ha.refused first rfl _ (.inr ⟨hstate, rfl⟩) before t after hsplit hbefore ht,
            hb.refused first rfl _ (.inr ⟨hstate, rfl⟩) before t after hsplit hbefore ht]
      · rw [ha.unsupported first rfl hincident hstate, hb.unsupported first rfl hincident hstate]

/-! ### Trees -/

namespace Expansion

variable {kind : NodeType} {id : String} {parent : Node Tree}

theorem kind_referring (kind : NodeType) (id : String) (t : Tree) :
    (t.referring kind id).kind = t.kind := by
  rw [Tree.referring]
  split <;> rfl

/-- Incidents and states may refer to a definition. -/
theorem setAttribute_eq_referring (hkind : kind = .incident ∨ kind = .state) {t : Tree}
    (ht : t.kind = kind) :
    t.setAttribute definitionAttribute id = .ok (t.referring kind id) := by
  rw [Tree.referring, if_pos ht]
  obtain ⟨⟨other, attributes, body⟩⟩ := t
  obtain rfl : other = kind := ht
  rcases hkind with rfl | rfl <;> rfl

theorem collected_eq (hkind : kind = .incident ∨ kind = .state) (t : Tree) :
    collected kind id parent t = if parent.kind.permits t.kind then .ok (t.referring kind id)
      else .error (parent.kind.refusal t.kind) := by
  have checked : (parent.checkChild (t.referring kind id).kind >>= fun _ =>
      pure (t.referring kind id)) = if parent.kind.permits t.kind then .ok (t.referring kind id)
        else .error (parent.kind.refusal t.kind) := by
    rw [kind_referring, Node.checkChild_eq]
    split <;> rfl
  rw [← checked, collected]
  split
  · next ht =>
      rw [setAttribute_eq_referring hkind ht]
      rfl
  · next ht =>
      rw [Tree.referring, if_neg ht]
      rfl

theorem collect_of_permits (hkind : kind = .incident ∨ kind = .state) {ts : List Tree}
    (hts : ∀ t ∈ ts, parent.kind.permits t.kind = true) :
    collect kind id parent ts = .ok (parent.withChildren (ts.map (Tree.referring kind id))) := by
  rw [collect, mapM_eq_ok_map fun t ht => by rw [collected_eq hkind, if_pos (hts t ht)]]
  rfl

theorem collect_of_refusal (hkind : kind = .incident ∨ kind = .state) {before after : List Tree}
    {t : Tree} (hbefore : ∀ other ∈ before, parent.kind.permits other.kind = true)
    (ht : parent.kind.permits t.kind = false) :
    collect kind id parent (before ++ t :: after) = .error (parent.kind.refusal t.kind) := by
  have refused : collected kind id parent t = .error (parent.kind.refusal t.kind) := by
    rw [collected_eq hkind, ht]
    rfl
  rw [collect, mapM_append_cons_of_error
    (fun other ho => by rw [collected_eq hkind, if_pos (hbefore other ho)]) refused]
  rfl

theorem nothing_makes_report : ReportOf id [] (.ok (.new .report)) where
  empty _ := rfl
  unsupported _ h := by cases h
  refused _ h := by cases h
  incidents _ h := by cases h
  states _ h := by cases h

theorem reportOf_children {first : Tree} {rest : List Tree} :
    ReportOf id (first :: rest) (reportOf first.kind id (first :: rest)) where
  empty h := by cases h
  unsupported t ht hincident hstate := by
    cases ht
    generalize first.kind = kind at hincident hstate
    cases kind with
    | incident => exact absurd rfl hincident
    | state => exact absurd rfl hstate
    | _ => rfl
  refused t ht place hplace before u after hsplit hbefore hu := by
    cases ht
    rw [hsplit]
    rcases hplace with ⟨hkind, rfl⟩ | ⟨hkind, rfl⟩
    · rw [hkind, reportOf, collect_of_refusal (.inl rfl) hbefore hu]
      rfl
    · rw [hkind, reportOf, collect_of_refusal (.inr rfl) hbefore hu]
      rfl
  incidents t ht hkind hpermitted := by
    cases ht
    rw [hkind, reportOf, collect_of_permits (.inl rfl) hpermitted]
    rfl
  states t ht hkind hpermitted := by
    cases ht
    rw [hkind, reportOf, collect_of_permits (.inr rfl) hpermitted]
    rfl

/-- All children are of the type that the expansion gives for them, if it gives one. -/
def Uniform (e : Expansion) : Prop :=
  ∀ kind ∈ e.uniformType, ∀ t ∈ e.definition.children, t.kind = kind

theorem Uniform.toReport {e : Expansion} (h : e.Uniform) (id : String) :
    ReportOf id e.definition.children (e.toReport id) := by
  obtain ⟨definition, uniform⟩ := e
  cases hchildren : definition.children with
  | nil =>
      rw [Expansion.toReport, hchildren]
      exact nothing_makes_report
  | cons first rest =>
      -- The type of all children is that of the first one, so both rules decide alike.
      have decided : uniform.getD first.kind = first.kind := by
        cases uniform with
        | none => rfl
        | some kind => exact (h kind rfl first (hchildren ▸ List.mem_cons_self)).symm
      rw [Expansion.toReport, hchildren]
      dsimp only
      rw [decided]
      exact reportOf_children

end Expansion

/-! ### The type of all children -/

theorem uniformType?_eq_some_iff {kind : NodeType} {ts : List Tree} :
    uniformType? ts = some kind ↔ ts ≠ [] ∧ ∀ t ∈ ts, t.kind = kind := by
  cases ts with
  | nil => simp [uniformType?, NodeType.common?]
  | cons first rest =>
      rw [uniformType?, List.map_cons, NodeType.common?, Option.ite_none_right_eq_some,
        Option.some_inj, List.forall_mem_cons]
      constructor
      · rintro ⟨hall, rfl⟩
        exact ⟨List.cons_ne_nil _ _, rfl, by simpa using hall⟩
      · rintro ⟨-, rfl, hall⟩
        exact ⟨by simpa using hall, rfl⟩

namespace Definitions

variable {defs : Definitions} {id : String} {ts us : List Tree} {e : Expansion}

theorem map_kind_of_mapM_setAttribute {name value : String}
    (h : ts.mapM (·.setAttribute name value) = .ok us) :
    us.map Tree.kind = ts.map Tree.kind := by
  induction ts generalizing us with
  | nil =>
      cases h
      rfl
  | cons t ts ih =>
      rw [List.mapM_cons] at h
      obtain ⟨u, hfirst, h⟩ := bind_eq_ok.1 h
      obtain ⟨rest, hrest, h⟩ := bind_eq_ok.1 h
      cases h
      obtain ⟨n, hn, rfl⟩ := map_eq_ok.1 hfirst
      obtain ⟨-, rfl⟩ := Node.setAttribute_eq_ok hn
      rw [List.map_cons, List.map_cons, ih hrest]
      rfl

theorem map_kind_of_stamp (h : stamp id ts = .ok us) : us.map Tree.kind = ts.map Tree.kind := by
  rw [stamp] at h
  split at h
  · exact map_kind_of_mapM_setAttribute h
  · cases h
    rfl

/-- Marking the children does not change their types. -/
theorem complete_uniform {g : Gathering} (h : complete id g = .ok e) : e.Uniform := by
  obtain ⟨us, hstamp, rfl⟩ := map_eq_ok.1 h
  have kinds := map_kind_of_stamp (mapError_eq_ok.1 hstamp)
  intro kind hkind t ht
  have hkind : uniformType? g.children = some kind := hkind
  rw [uniformType?, ← kinds, ← uniformType?] at hkind
  exact (uniformType?_eq_some_iff.1 hkind).2 t (Node.children_withChildren_subset _ _ t ht)

theorem resolve_uniform {depth : Nat} (h : defs.resolve depth id = .ok e) : e.Uniform := by
  cases depth with
  | zero =>
      rw [resolve] at h
      cases h
  | succ depth =>
      rw [resolve, expandWith] at h
      split at h
      · cases h
      · obtain ⟨start, -, h⟩ := bind_eq_ok.1 h
        split at h
        · cases h
        · exact complete_uniform h

end Definitions

/-! ### Worlds -/

/-- How building a report comes out in terms of building the node. -/
structure World.Reports (w : World) : Prop where
  /-- If no node can be built, no report can be, for the same reason. -/
  failed : ∀ lib ∈ w.libraries, ∀ depth id e,
    lib.buildNode w.forest depth id = .error e → lib.buildReport w.forest depth id = .error e
  /-- The type that is given for the children is that of each of them, and the report is
  the one that these children make. -/
  built : ∀ lib ∈ w.libraries, ∀ depth id root uniform g,
    lib.buildNode w.forest depth id = .ok (root, uniform, g) →
      let children := (g.children root).map g.tree
      (∀ kind ∈ uniform, ∀ t ∈ children, t.kind = kind) ∧
        ReportOf id children
          ((lib.buildReport w.forest depth id).map fun (report, h) => h.tree report.root)

namespace Library

variable {lib : Library} {f : Forest}

theorem buildReport_of_error (hf : f.WellFormed) (hl : lib.Within f) {depth : Nat} {id : String}
    {e : ResolveError} (h : lib.buildNode f depth id = .error e) :
    lib.buildReport f depth id = .error e := by
  have made := buildReport_eq_resolve lib hf hl depth id
  rw [Definitions.buildReport, resolve_of_buildNode_error hf hl h] at made
  cases hbuilt : lib.buildReport f depth id with
  | error other =>
      rw [hbuilt] at made
      exact congrArg Except.error (Except.error.inj made)
  | ok report =>
      rw [hbuilt] at made
      cases made

theorem wellFormed_of_buildNode (hf : f.WellFormed) (hl : lib.Within f) {depth : Nat}
    {id : String} {root : NodeId} {uniform : Option NodeType} {g : Forest}
    (h : lib.buildNode f depth id = .ok (root, uniform, g)) : g.WellFormed := by
  have grown := (lib.expand_builds depth f id hf hl).construction
  rw [buildNode_eq_ok h] at grown
  exact grown.wellFormed hf

theorem buildReport_of_ok (hf : f.WellFormed) (hl : lib.Within f) {depth : Nat} {id : String}
    {root : NodeId} {uniform : Option NodeType} {g : Forest}
    (h : lib.buildNode f depth id = .ok (root, uniform, g)) :
    let children := (g.children root).map g.tree
    (∀ kind ∈ uniform, ∀ t ∈ children, t.kind = kind) ∧ ReportOf id children
      ((lib.buildReport f depth id).map fun (report, h) => h.tree report.root) := by
  have resolved := resolve_of_buildNode hf hl h
  dsimp only
  rw [← (wellFormed_of_buildNode hf hl h).children_tree, buildReport_eq_resolve lib hf hl,
    Definitions.buildReport, resolved]
  have uniform := Definitions.resolve_uniform resolved
  exact ⟨uniform, uniform.toReport id⟩

end Library

namespace World

theorem WellFormed.reports {w : World} (hw : w.WellFormed) : w.Reports where
  failed lib hlib _ _ _ :=
    Library.buildReport_of_error hw.forest (hw.libraries lib hlib).within
  built lib hlib _ _ _ _ _ :=
    Library.buildReport_of_ok hw.forest (hw.libraries lib hlib).within

/-- In every world a report comes out as the node that is built for it decides. -/
theorem run_reports (operations : List Operation) : (run empty operations).Reports :=
  (wellFormed_run wellFormed_empty operations).reports

end World

end IncidentReport
