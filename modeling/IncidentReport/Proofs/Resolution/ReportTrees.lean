import IncidentReport.Proofs.Resolution.Refinement
import IncidentReport.Proofs.Resolution.Reports

/-!
The tree of a report that is built. Moving the children of an expansion into a
report does what collecting their trees does, as the children do not lead to each
other and nothing in the report leads to those that are still to be moved.
-/

namespace IncidentReport.Library

open Forest Call

variable {f g : Forest} {place child : NodeId} {ids : List NodeId}
  {s : Gathering} {kind : NodeType} {id : String}

/-! ### Nodes that are still to be moved -/

/-- The nodes lead neither to each other nor to the place that they are moved to,
and this place does not lead to them. -/
structure Pending (f : Forest) (place : NodeId) (ids : List NodeId) : Prop where
  has : ∀ id ∈ ids, f.Has id
  apart : ids.Pairwise fun a b => ¬ f.Reaches a b ∧ ¬ f.Reaches b a
  outside : ∀ id ∈ ids, ¬ f.Reaches id place ∧ ¬ f.Reaches place id

namespace Pending

theorem setAttribute (hp : Pending f place ids) {other : NodeId} {name value : String}
    (accepted : f.setAttribute other name value = .ok g) : Pending g place ids := by
  have reach : ∀ {a b : NodeId}, g.Reaches a b ↔ f.Reaches a b := reaches_setAttribute accepted
  refine ⟨fun id hid => (has_of_edit accepted).2 (hp.has id hid), ?_, fun id hid => ?_⟩
  · exact hp.apart.imp fun hab => by rwa [reach, reach]
  · rw [reach, reach]
    exact hp.outside id hid

theorem addChild (hp : Pending f place (child :: ids)) (accepted : f.addChild place child = .ok g) :
    Pending g place ids := by
  obtain ⟨-, hhas⟩ := List.forall_mem_cons.1 hp.has
  obtain ⟨hfirst, hapart⟩ := List.pairwise_cons.1 hp.apart
  obtain ⟨-, hout⟩ := List.forall_mem_cons.1 hp.outside
  -- A path that is new leads through the place, to which none of the nodes leads.
  have old : ∀ a ∈ ids, ∀ {b}, g.Reaches a b → f.Reaches a b := fun a ha b hr =>
    (reaches_of_addChild accepted hr).elim id fun hnew => absurd hnew.1 (hout a ha).1
  refine ⟨fun id hid => (has_of_addChild accepted).2 (hhas id hid), ?_, fun id hid => ⟨?_, ?_⟩⟩
  · exact hapart.imp_of_mem fun ha hb hab => ⟨mt (old _ ha) hab.1, mt (old _ hb) hab.2⟩
  · exact mt (old id hid) (hout id hid).1
  · intro hr
    rcases reaches_of_addChild accepted hr with hr | ⟨-, hr⟩
    · exact (hout id hid).2 hr
    · exact (hfirst id hid).1 hr

/-- Old nodes do not lead to new ones, nor new ones to old ones. -/
theorem of_growth (hf : f.WellFormed) (hg : Growth f g) (hplace : ¬ f.Has place)
    (hids : ∀ id ∈ ids, f.Has id)
    (hapart : ids.Pairwise fun a b => ¬ f.Reaches a b ∧ ¬ f.Reaches b a) :
    Pending g place ids := by
  have old : ∀ a ∈ ids, ∀ {b}, g.Reaches a b → f.Reaches a b := fun a ha b hr =>
    Shut.reaches ⟨hids a ha, fun _ _ => not_false⟩ hf hg hr
  refine ⟨fun id hid => hg.has (hids id hid), ?_, fun id hid => ⟨fun hr => ?_, fun hr => ?_⟩⟩
  · exact hapart.imp_of_mem fun ha hb hab => ⟨mt (old _ ha) hab.1, mt (old _ hb) hab.2⟩
  · exact hplace (hf.closed.has_of_reaches (hids id hid) (old id hid hr))
  · exact hg.isNew_of_reaches hplace hr (hids id hid)

end Pending

theorem Mirrors.edit (hm : Mirrors f place s) (hf : f.WellFormed) (hg : g.WellFormed)
    {other : NodeId} {change : Node NodeId → Except Violation (Node NodeId)}
    (accepted : f.edit other change = .ok g) (hout : ¬ f.Reaches place other) :
    Mirrors g place s := by
  have trees : (f.children place).map g.tree = (f.children place).map f.tree :=
    List.map_congr_left fun child hchild =>
      tree_edit_of_not_reaches hf hg accepted fun hr => hout (.head hchild hr)
  obtain ⟨node, -, rfl⟩ := edit_eq_ok accepted
  have hget : (f.set other node).get place = f.get place := by
    refine get_set_of_ne node ?_
    rintro rfl
    exact hout .refl
  refine ⟨by rw [hget]; exact hm.bare, ?_⟩
  rw [children, hget, ← children, trees]
  exact hm.trees

/-! ### Moving -/

/-- A node has been moved, with the attribute that it was to be given. -/
structure Moved (f g : Forest) (place child : NodeId) (ids : List NodeId) (s : Gathering) :
    Prop where
  wellFormed : g.WellFormed
  has : g.Has place
  mirrors : Mirrors g place s
  pending : Pending g place ids
  trees : ids.map g.tree = ids.map f.tree
  get_eq : ∀ other, other ≠ place → other ≠ child → g.get other = f.get other

theorem addChild_moved (hf : f.WellFormed) (hplace : f.Has place)
    (hp : Pending f place (child :: ids)) (hm : Mirrors f place s) :
    (∃ g, s.parent.checkChild (f.tree child).kind = .ok () ∧
        Call.edit (·.addChild place child) f = (.ok (), g) ∧
          Moved f g place child ids { s with gathered := f.tree child :: s.gathered }) ∨
      ∃ v, s.parent.checkChild (f.tree child).kind = .error v ∧
        Call.edit (·.addChild place child) f = (.error (.schema v), f) := by
  obtain ⟨hc, -⟩ := List.forall_mem_cons.1 hp.has
  obtain ⟨⟨hno, -⟩, hout⟩ := List.forall_mem_cons.1 hp.outside
  have hadd := addChild_of_not_reaches hf hc hno
  rw [Node.checkChild_congr hm.kind] at hadd
  rw [Call.edit, hf.kind_tree]
  cases hcheck : s.parent.checkChild (f.get child).kind with
  | error v =>
      rw [hcheck] at hadd
      rw [hadd]
      exact .inr ⟨v, rfl, rfl⟩
  | ok u =>
      rw [hcheck] at hadd
      have accepted : f.addChild place child = .ok (f.set place ((f.get place).push child)) := hadd
      have hg := hf.addChild hplace hc accepted
      refine .inl ⟨_, rfl, by rw [hadd]; rfl, ?_⟩
      refine ⟨hg, has_set.2 hplace, hm.addChild hf hplace hc hno accepted, hp.addChild accepted,
        ?_, fun other ho _ => get_set_of_ne _ ho⟩
      rw [Forest.addChild] at accepted
      exact List.map_congr_left fun other ho =>
        tree_edit_of_not_reaches hf hg accepted (hout other ho).1

/-- A node is moved as its tree is collected. -/
theorem collect_moved (kind : NodeType) (id : String) (hf : f.WellFormed) (hplace : f.Has place)
    (hp : Pending f place (child :: ids)) (hm : Mirrors f place s) :
    (∃ t g, Expansion.collected kind id s.parent (f.tree child) = .ok t ∧
        collect kind id place child f = (.ok (), g) ∧
          Moved f g place child ids { s with gathered := t :: s.gathered }) ∨
      ∃ v g, Expansion.collected kind id s.parent (f.tree child) = .error v ∧
        collect kind id place child f = (.error (.schema v), g) := by
  obtain ⟨hc, -⟩ := List.forall_mem_cons.1 hp.has
  obtain ⟨hfirst, -⟩ := List.pairwise_cons.1 hp.apart
  obtain ⟨⟨-, hno⟩, -⟩ := List.forall_mem_cons.1 hp.outside
  rw [collect, bind_apply, look, Expansion.collected, hf.kind_tree]
  dsimp only
  split
  · have hroot := setAttribute_tree hf hc definitionAttribute id
    rw [bind_apply, Call.edit]
    cases accepted : f.setAttribute child definitionAttribute id with
    | error v =>
        rw [accepted] at hroot
        refine .inr ⟨v, f, ?_, rfl⟩
        rw [← hroot]
        rfl
    | ok g =>
        rw [accepted] at hroot
        have hg := hf.edit Node.amends_setAttribute accepted
        have trees : ids.map g.tree = ids.map f.tree :=
          List.map_congr_left fun other ho =>
            tree_edit_of_not_reaches hf hg accepted (hfirst other ho).2
        have same : ∀ other, other ≠ child → g.get other = f.get other := by
          obtain ⟨node, -, rfl⟩ := edit_eq_ok accepted
          exact fun other ho => get_set_of_ne node ho
        rw [← hroot]
        rcases addChild_moved hg ((has_of_edit accepted).2 hplace) (hp.setAttribute accepted)
          (hm.edit hf hg accepted hno) with ⟨h, hcheck, hcall, moved⟩ | ⟨v, hcheck, hcall⟩
        · refine .inl ⟨g.tree child, h, ?_, hcall, ?_⟩
          · show (s.parent.checkChild (g.tree child).kind >>= fun _ => _) = _
            rw [hcheck]
            rfl
          · exact { moved with
              trees := moved.trees.trans trees
              get_eq := fun other hne ho => (moved.get_eq other hne ho).trans (same other ho) }
        · refine .inr ⟨v, g, ?_, hcall⟩
          show (s.parent.checkChild (g.tree child).kind >>= fun _ => _) = _
          rw [hcheck]
          rfl
  · rcases addChild_moved hf hplace hp hm with ⟨g, hcheck, hcall, moved⟩ | ⟨v, hcheck, hcall⟩
    · refine .inl ⟨f.tree child, g, ?_, hcall, moved⟩
      show (s.parent.checkChild (f.tree child).kind >>= fun _ => _) = _
      rw [hcheck]
      rfl
    · refine .inr ⟨v, f, ?_, hcall⟩
      show (s.parent.checkChild (f.tree child).kind >>= fun _ => _) = _
      rw [hcheck]
      rfl

/-- Nodes are moved as their trees are collected, up to the first that has no place. -/
theorem forEach_collect_tree (kind : NodeType) (id : String) (hf : f.WellFormed)
    (hplace : f.Has place) (hp : Pending f place ids) (hm : Mirrors f place s) :
    (∃ ts g, (ids.map f.tree).mapM (Expansion.collected kind id s.parent) = .ok ts ∧
        forEach (collect kind id place) ids f = (.ok (), g) ∧ g.WellFormed ∧
          g.tree place = ⟨s.parent.withChildren (s.children ++ ts)⟩ ∧
            ∀ other, other ≠ place → other ∉ ids → g.get other = f.get other) ∨
      ∃ v g, (ids.map f.tree).mapM (Expansion.collected kind id s.parent) = .error v ∧
        forEach (collect kind id place) ids f = (.error (.schema v), g) := by
  induction ids generalizing f s with
  | nil =>
      refine .inl ⟨[], f, rfl, rfl, hf, ?_, fun _ _ _ => rfl⟩
      rw [hm.tree hf, List.append_nil]
      rfl
  | cons child ids ih =>
      rw [forEach, bind_apply, List.map_cons]
      rcases collect_moved kind id hf hplace hp hm with ⟨t, g, hfirst, hcall, moved⟩ |
        ⟨v, g, hfirst, hcall⟩
      · rw [hcall, mapM_cons_of_ok _ hfirst, ← moved.trees]
        rcases ih moved.wellFormed moved.has moved.pending moved.mirrors with
          ⟨ts, h, hrest, hcalls, hh, htree, hget⟩ | ⟨v, h, hrest, hcalls⟩
        · refine .inl ⟨t :: ts, h, by rw [hrest]; rfl, hcalls, hh, ?_, fun other hne ho => ?_⟩
          · rw [htree, Gathering.children, Gathering.children, List.reverse_cons,
              List.append_assoc]
            rfl
          · obtain ⟨hc, ho⟩ := not_or.1 (mt List.mem_cons.2 ho)
            rw [hget other hne ho, moved.get_eq other hne hc]
        · exact .inr ⟨v, h, by rw [hrest]; rfl, hcalls⟩
      · refine .inr ⟨v, g, ?_, by rw [hcall]⟩
        rw [List.mapM_cons, hfirst]
        rfl

/-! ### The report -/

theorem map_tree_of_growth (hf : f.WellFormed) (hg : Growth f g) (hids : ∀ id ∈ ids, f.Has id) :
    ids.map g.tree = ids.map f.tree :=
  List.map_congr_left fun id hid => hg.tree_eq hf (hids id hid)

theorem mirrors_new {top : NodeType} (hf : f.WellFormed) (ht : f.tree place = Tree.new top) :
    Mirrors f place ⟨.new top, []⟩ := by
  have hm : Mirrors f place (.startingFrom (Tree.new top)) := .startingFrom hf ht
  rwa [Gathering.startingFrom, show (Tree.new top).children = [] from Node.children_new top,
    show (Tree.new top).node = .new top from rfl] at hm

/-- Nodes that were there before are moved to a new node as their trees are
collected for it. -/
theorem forEach_collect_new {top : NodeType} (kind : NodeType) (id : String) (hf : f.WellFormed)
    (hg : Growth f g) (hnew : ¬ f.Has place) (hplace : g.Has place)
    (ht : g.tree place = Tree.new top) (hids : ∀ id ∈ ids, f.Has id)
    (hapart : ids.Pairwise fun a b => ¬ f.Reaches a b ∧ ¬ f.Reaches b a) :
    (∃ parent h, Expansion.collect kind id (.new top) (ids.map f.tree) = .ok parent ∧
        forEach (collect kind id place) ids g = (.ok (), h) ∧ h.WellFormed ∧
          h.tree place = ⟨parent⟩ ∧
            ∀ other, other ≠ place → other ∉ ids → h.get other = g.get other) ∨
      ∃ v h, Expansion.collect kind id (.new top) (ids.map f.tree) = .error v ∧
        forEach (collect kind id place) ids g = (.error (.schema v), h) := by
  have hwf := hg.wellFormed hf
  have start := mirrors_new hwf ht
  rw [Expansion.collect, ← map_tree_of_growth hf hg hids]
  rcases forEach_collect_tree kind id hwf hplace (.of_growth hf hg hnew hids hapart) start with
    ⟨ts, h, hpure, hcalls, hh, htree, hget⟩ | ⟨v, h, hpure, hcalls⟩
  · exact .inl ⟨(Node.new top).withChildren ts, h, by rw [hpure]; rfl, hcalls, hh, htree, hget⟩
  · exact .inr ⟨v, h, by rw [hpure]; rfl, hcalls⟩

/-- The node of a new report that states go to. -/
theorem reportPlace_state (hf : f.WellFormed) (hg : Growth f g) {report : Document}
    (hr : Root f g report.root) (ht : g.tree report.root = Tree.new .report) (id : String) :
    ∃ incident h, reportPlace report id .state g = (.ok incident, h) ∧ Growth f h ∧
      (¬ f.Has incident ∧ h.Has incident ∧ incident ≠ report.root) ∧
        h.tree incident = Tree.new .incident ∧ h.children report.root = [incident] ∧
          Mirrors h report.root ⟨.new .report, [Tree.new .incident]⟩ := by
  have hwf := hg.wellFormed hf
  obtain ⟨hgrow, hincident⟩ := add_spec hwf (Node.new_valid .incident) rfl
  have htree := tree_add_new hwf .incident
  have hm := (mirrors_new hwf ht).later hwf ⟨hr.has, fun _ _ => not_false⟩ hgrow
  rw [show reportPlace report id .state = make (·.add (.new .incident)) >>= fun incident =>
    Call.edit (·.addChild report.root incident) >>= fun _ => pure incident from rfl,
    bind_apply, make]
  generalize g.add (.new .incident) = made at hgrow hincident htree hm ⊢
  obtain ⟨incident, h⟩ := made
  dsimp only at hgrow hincident htree hm ⊢
  have hh := hgrow.wellFormed hwf
  have hno : ¬ h.Reaches incident report.root := fun hback =>
    hgrow.isNew_of_reaches hincident.isNew hback hr.has
  have matched := edit_addChild_matches hh hm (hgrow.has hr.has) hincident.has hno
  rw [htree] at matched
  rw [bind_apply]
  obtain ⟨hmirrors, houtcome⟩ := matched
  cases accepted : h.addChild report.root incident with
  | error v =>
      rw [Call.edit, accepted] at houtcome
      have refused : (Except.error (.schema v) : Except ResolveError Unit) = .ok () := houtcome
      cases refused
  | ok k =>
      rw [Call.edit, accepted] at hmirrors ⊢
      have grown : Growth f k := .attach (hg.grow hgrow) (hgrow.has hr.has)
        (fun hold => absurd hold hr.isNew) (hincident.loose hg) accepted
      have hne : incident ≠ report.root := by
        rintro rfl
        exact hno .refl
      have hk := grown.wellFormed hf
      have htree' : k.tree incident = Tree.new .incident := by
        rw [← htree]
        rw [Forest.addChild] at accepted
        exact tree_edit_of_not_reaches hh hk accepted hno
      refine ⟨incident, k, rfl, grown, ⟨mt hg.has hincident.isNew, ?_, hne⟩, htree', ?_, hmirrors⟩
      · exact (has_of_addChild accepted).2 hincident.has
      · obtain ⟨hpermits, -, rfl⟩ := addChild_eq_ok accepted
        have hnil : h.children report.root = [] := List.map_eq_nil_iff.1 hm.trees
        rw [children, get_set_self _ (hgrow.has hr.has), Node.children_push_of_content,
          ← children, hnil]
        · rfl
        · exact (hh.valid _).body.trans (Node.permits_eq_true_imp hpermits)

/-- Nodes are moved to a new report as the report of their trees is made. -/
theorem reportOf_tree (kind : NodeType) (id : String) (hf : f.WellFormed)
    (hids : ∀ id ∈ ids, f.Has id)
    (hapart : ids.Pairwise fun a b => ¬ f.Reaches a b ∧ ¬ f.Reaches b a) :
    let made := (make Document.new >>= fun report => reportPlace report id kind >>= fun place =>
      forEach (collect kind id place) ids >>= fun _ => pure report) f
    made.1.map (fun report => made.2.tree report.root) =
      Expansion.reportOf kind id (ids.map f.tree) := by
  obtain ⟨hg, hreport, htree⟩ := plant_spec (Tree.valid_new .report) hf
  rw [bind_apply, make,
    show Document.new f = (⟨(f.plant (.new .report)).1⟩, (f.plant (.new .report)).2) from rfl]
  generalize f.plant (.new .report) = made at hg hreport htree ⊢
  obtain ⟨root, g⟩ := made
  dsimp only at hg hreport htree ⊢
  rw [bind_apply]
  cases kind
  case incident =>
      rw [show reportPlace ⟨root⟩ id .incident g = (.ok root, g) from rfl]
      dsimp only
      rw [bind_apply]
      rcases forEach_collect_new .incident id hf hg hreport.isNew hreport.has htree hids hapart with
        ⟨parent, h, hpure, hcalls, -, hdone, -⟩ | ⟨v, h, hpure, hcalls⟩
      · rw [hcalls, Expansion.reportOf, hpure]
        exact congrArg Except.ok hdone
      · rw [hcalls, Expansion.reportOf, hpure]
        rfl
  case state =>
      obtain ⟨incident, h, hplace, hh, ⟨hnew, hhas, hne⟩, hempty, honly, hm⟩ :=
        reportPlace_state hf hg hreport htree id
      rw [hplace]
      dsimp only
      rw [bind_apply]
      rcases forEach_collect_new .state id hf hh hnew hhas hempty hids hapart with
        ⟨parent, k, hpure, hcalls, hk, hdone, hget⟩ | ⟨v, k, hpure, hcalls⟩
      · rw [hcalls, Expansion.reportOf, hpure]
        have hroot : k.get root = h.get root :=
          hget root hne.symm fun hmem => hreport.isNew (hids root hmem)
        have done : k.tree root = ⟨(Node.new .report : Node Tree).withChildren [⟨parent⟩]⟩ := by
          rw [hk.tree_eq, children, hroot, ← children, honly, List.map_singleton, hdone,
            ← Node.withChildren_withChildren _ ([] : List Tree), hm.bare,
            Node.withChildren_withChildren]
        exact congrArg Except.ok done
      · rw [hcalls, Expansion.reportOf, hpure]
        rfl
  all_goals rfl

theorem assemble_tree (lib : Library) (hf : f.WellFormed) (hl : lib.Within f) (depth : Nat)
    (id : String) :
    (lib.assemble depth id f).1.map (fun report => (lib.assemble depth id f).2.tree report.root) =
      (lib.definitions f).buildReport depth id := by
  have same := (lib.expands_and_attaches_as depth).1 f id hf hl
  obtain ⟨hg, hroot⟩ := lib.expand_builds depth f id hf hl
  dsimp only at same
  rw [assemble, bind_apply, Definitions.buildReport, ← same]
  rcases hcall : lib.expand depth id f with ⟨e | r, g⟩
  · rfl
  · rw [hcall] at hg hroot
    have hroot := hroot r rfl
    dsimp only at hg hroot
    have hwf := hg.wellFormed hf
    have hids : ∀ child ∈ g.children r.1, g.Has child := hwf.closed r.1
    have hapart := children_apart hf hg hroot
    show _ = Expansion.toReport ⟨g.tree r.1, r.2⟩ id
    rw [Expansion.toReport, hwf.children_tree]
    dsimp only
    rw [bind_apply, look]
    dsimp only
    cases hchildren : g.children r.1 with
    | nil => exact congrArg Except.ok (plant_spec (Tree.valid_new .report) hwf).tree
    | cons first rest =>
        rw [hchildren] at hids hapart
        show _ = Expansion.reportOf (r.2.getD (g.tree first).kind) id ((first :: rest).map g.tree)
        rw [hwf.kind_tree]
        exact reportOf_tree _ id hwf hids hapart

/-- A report is built with the tree of the report that its id is resolved to. -/
theorem buildReport_eq_resolve (lib : Library) (hf : f.WellFormed) (hl : lib.Within f) (depth : Nat)
    (id : String) :
    (lib.buildReport f depth id).map (fun (report, g) => g.tree report.root) =
      (lib.definitions f).buildReport depth id := by
  have same := lib.assemble_tree hf hl depth id
  rw [← same, buildReport]
  rcases lib.assemble depth id f with ⟨e | report, g⟩ <;> rfl

end IncidentReport.Library
