import IncidentReport.Proofs.Resolution.Live

/-!
What building a report does. The children of an expansion are moved into a new
report, one after the other, and the root that they are taken from is given up.
-/

namespace IncidentReport.Library

open Forest Call

variable {lib : Library} {f g h : Forest} {dropped : NodeId → Prop}

/-- The node is the root of the expansion of a definition. -/
def ExpandsTo (lib : Library) (depth : Nat) (id : String) (f : Forest) (root : NodeId) : Prop :=
  ∃ uniform, (lib.expand depth id f).1 = .ok (root, uniform)

/-- A new report that some nodes are still to be moved to, from under a root that
is given up. -/
structure Moving (f g : Forest) (dropped : NodeId → Prop) (report root : NodeId)
    (left : List NodeId) : Prop where
  alone : Root f g report
  kind : (g.get report).kind = .report
  given : Root f g root
  loose : ∀ child ∈ left, Loose f g dropped child
  apart : (report :: root :: left).Nodup

namespace Moving

variable {report root place child : NodeId} {left : List NodeId}

theorem has (hm : Moving f g dropped report root left) :
    ∀ id ∈ report :: root :: left, g.Has id := by
  simp only [List.forall_mem_cons]
  exact ⟨hm.alone.has, hm.given.has, fun id hid => (hm.loose id hid).has⟩

theorem grow (hm : Moving f g dropped report root left) (hg : Growth g h) :
    Moving f h dropped report root left where
  alone := hm.alone.later hg
  kind := (hg.kind_old hm.alone.has).trans hm.kind
  given := hm.given.later hg
  loose child hchild := (hm.loose child hchild).later hg
  apart := hm.apart

theorem setAttribute (hm : Moving f g dropped report root left) {name value : String}
    (accepted : g.setAttribute child name value = .ok h) :
    Moving f h dropped report root left where
  alone := hm.alone.setAttribute accepted
  kind := (extends_edit Node.amends_setAttribute accepted report hm.alone.has).2.trans hm.kind
  given := hm.given.setAttribute accepted
  loose child hchild := (hm.loose child hchild).setAttribute accepted
  apart := hm.apart

theorem addChild (hm : Moving f g dropped report root left)
    (hne : child ∉ report :: root :: left) (accepted : g.addChild place child = .ok h) :
    Moving f h dropped report root left := by
  have other : ∀ id ∈ report :: root :: left, id ≠ child := fun id hid =>
    ne_of_mem_of_not_mem hid hne
  simp only [List.forall_mem_cons] at other
  obtain ⟨hreport, hroot, hleft⟩ := other
  exact {
    alone := hm.alone.addChild hreport accepted
    kind := (extends_addChild accepted report hm.alone.has).2.trans hm.kind
    given := hm.given.addChild hroot accepted
    loose := fun id hid => (hm.loose id hid).addChild (hleft id hid) accepted
    apart := hm.apart }

/-- The next node, and what is left once it has been moved. -/
theorem next (hm : Moving f g dropped report root (child :: left)) :
    Loose f g dropped child ∧ child ∉ report :: root :: left ∧
      Moving f g dropped report root left := by
  obtain ⟨hloose, hleft⟩ := List.forall_mem_cons.1 hm.loose
  have hapart : ([report, root] ++ child :: left).Nodup := hm.apart
  obtain ⟨hchild, hapart⟩ := List.nodup_cons.1 (List.nodup_middle.1 hapart)
  exact ⟨hloose, hchild, hm.alone, hm.kind, hm.given, hleft, hapart⟩

theorem done (hm : Moving f g dropped report root left)
    (hd : ∀ other, dropped other ↔ other = root) :
    Root f g report ∧ (g.get report).kind = .report ∧
      ∀ other, dropped other → Root f g other ∧ other ≠ report := by
  refine ⟨hm.alone, hm.kind, fun other ho => ?_⟩
  obtain rfl := (hd other).1 ho
  refine ⟨hm.given, fun heq => (List.nodup_cons.1 hm.apart).1 ?_⟩
  rw [← heq]
  exact List.mem_cons_self

end Moving

variable {report : Document} {root place : NodeId} {left : List NodeId}

theorem reportPlace_builds (hf : f.WellFormed)
    (hg : Construction f (fun _ => False) dropped g)
    (hm : Moving f g dropped report.root root left) (id : String) (kind : NodeType) :
    Builds f (fun _ => False) dropped g (reportPlace report id kind) fun place h =>
      (¬ f.Has place ∧ h.Has place) ∧ Moving f h dropped report.root root left := by
  rw [reportPlace.eq_def]
  split
  · exact .pure hg ⟨⟨hm.alone.isNew, hm.alone.has⟩, hm⟩
  · obtain ⟨hgrow, halone⟩ := add_spec (hg.wellFormed hf) (Node.new_valid .incident) rfl
    have hne : ∀ id ∈ report.root :: root :: left, id ≠ (g.add (.new .incident)).1 := by
      intro id hid h
      exact halone.isNew (h ▸ hm.has id hid)
    have made := Builds.make (·.add (.new .incident)) (fun incident h =>
      (Loose f h dropped incident ∧ incident ∉ report.root :: root :: left) ∧
        Moving f h dropped report.root root left) hg hgrow
      ⟨⟨halone.loose hg, fun hmem => hne _ hmem rfl⟩, hm.grow hgrow⟩
    refine made.bind fun incident h hh ⟨⟨hloose, hout⟩, hm⟩ => ?_
    have attached : Builds f (fun _ => False) dropped h
        (edit (·.addChild report.root incident)) fun _ k =>
          (¬ f.Has incident ∧ k.Has incident) ∧ Moving f k dropped report.root root left := by
      refine .edit hh fun k hk => ⟨?_, ⟨hloose.isNew, ?_⟩, hm.addChild hout hk⟩
      · exact .attach hh hm.alone.has (fun hold => absurd hold hm.alone.isNew) hloose hk
      · exact (has_of_addChild hk).2 hloose.has
    exact attached.bind fun _ k hk hpost => .pure hk hpost
  · exact .fail hg

/-- What is moved is new, and it stood under the root only. -/
theorem collect_builds (hg : Construction f (fun _ => False) dropped g) (kind : NodeType)
    (id : String) (hp : ¬ f.Has place ∧ g.Has place) {child : NodeId}
    (hm : Moving f g dropped report.root root (child :: left)) :
    Builds f (fun _ => False) dropped g (collect kind id place child) fun _ h =>
      (¬ f.Has place ∧ h.Has place) ∧ Moving f h dropped report.root root left := by
  have moved : ∀ h, Construction f (fun _ => False) dropped h → h.Has place →
      Moving f h dropped report.root root (child :: left) →
      Builds f (fun _ => False) dropped h (edit (·.addChild place child)) fun _ k =>
        (¬ f.Has place ∧ k.Has place) ∧ Moving f k dropped report.root root left := by
    intro h hh hplace hm
    obtain ⟨hloose, hout, hm⟩ := hm.next
    refine .edit hh fun k hk => ⟨?_, ⟨hp.1, (has_of_addChild hk).2 hplace⟩, hm.addChild hout hk⟩
    exact .attach hh hplace (fun hold => absurd hold hp.1) hloose hk
  rw [collect]
  refine .look ?_
  split
  · have marked : Builds f (fun _ => False) dropped g
        (edit (·.setAttribute child definitionAttribute id)) fun _ h =>
          h.Has place ∧ Moving f h dropped report.root root (child :: left) :=
      .edit hg fun h hh =>
        ⟨.mark hg hm.next.1.isNew hh, (has_of_edit hh).2 hp.2, hm.setAttribute hh⟩
    exact marked.bind fun _ h hh ⟨hplace, hm⟩ => moved h hh hplace hm
  · exact moved g hg hp.2 hm

theorem forEach_collect (hg : Construction f (fun _ => False) dropped g) (kind : NodeType)
    (id : String) (hp : ¬ f.Has place ∧ g.Has place)
    (hm : Moving f g dropped report.root root left) :
    Builds f (fun _ => False) dropped g (forEach (collect kind id place) left) fun _ h =>
      Moving f h dropped report.root root [] :=
  (Builds.forEach (fun left h => (¬ f.Has place ∧ h.Has place) ∧
    Moving f h dropped report.root root left)
    (fun _ _ _ hh ⟨hplace, hm⟩ => collect_builds hh kind id hplace hm) hg ⟨hp, hm⟩).imp
      fun _ _ _ hpost => hpost.2

/-- The children of an expansion stand under its root only. -/
theorem loose_of_root (hf : f.WellFormed) (hg : Growth f g) (hr : Root f g root)
    (hd : dropped root) :
    (∀ child ∈ g.children root, Loose f g dropped child) ∧ (g.children root).Nodup := by
  have isNew : ∀ child ∈ g.children root, ¬ f.Has child := fun child hchild =>
    hg.children_new hr.isNew hchild
  have only : ∀ {parent child : NodeId} {i j : Nat}, g.Link root i child → g.Link parent j child →
      root = parent ∧ i = j := fun hi hj =>
    hg.link_unique hf.closed (isNew _ (hasChild_iff_link.2 ⟨_, hi⟩)) id id hi hj
  refine ⟨fun child hchild => ⟨isNew child hchild, ?_, fun parent hparent => ?_⟩, ?_⟩
  · exact (hg.wellFormed hf).closed root child hchild
  · obtain ⟨i, hi⟩ := hasChild_iff_link.1 hchild
    obtain ⟨j, hj⟩ := hasChild_iff_link.1 hparent
    exact (only hi hj).1 ▸ hd
  · refine List.nodup_iff_getElem?_ne_getElem?.2 fun i j hij hj heq => ?_
    have hlink : g.Link root j (g.children root)[j] := List.getElem?_eq_getElem hj
    have := (only (heq.trans hlink) hlink).2
    omega

theorem moving_new (hf : f.WellFormed) (hg : Growth f g) (hr : Root f g root)
    (hd : dropped root) :
    Moving f (Document.new g).2 dropped (Document.new g).1.root root (g.children root) := by
  obtain ⟨hloose, hnodup⟩ := loose_of_root hf hg hr hd
  have planted := plant_spec (Tree.valid_new .report) (hg.wellFormed hf)
  have hnew : ∀ id, g.Has id → (Document.new g).1.root ≠ id := by
    rintro _ hid rfl
    exact planted.root.isNew hid
  refine ⟨planted.root.loose hg, planted.kind (hg.wellFormed hf), hr.later planted.growth,
    fun child hchild => (hloose child hchild).later planted.growth, ?_⟩
  refine List.nodup_cons.2 ⟨fun hmem => ?_, List.nodup_cons.2 ⟨fun hmem => ?_, hnodup⟩⟩
  · rcases List.mem_cons.1 hmem with h | h
    · exact hnew root hr.has h
    · exact hnew _ (hloose _ h).has rfl
  · exact hr.parents root hmem

theorem expand_known (lib : Library) (depth : Nat) (id : String) (hf : f.WellFormed)
    (hl : lib.Within f) :
    Builds f (fun _ => False) (fun _ => False) f (lib.expand depth id) fun r h =>
      Root f h r.1 ∧ ∀ root, lib.ExpandsTo depth id f root ↔ root = r.1 := by
  obtain ⟨hc, hroot⟩ := lib.expand_builds depth f id hf hl
  refine ⟨hc, fun r hr => ⟨hroot r hr, fun root => ?_⟩⟩
  rw [ExpandsTo, hr]
  constructor
  · rintro ⟨_, h⟩
    exact congrArg Prod.fst (Except.ok.inj h).symm
  · rintro rfl
    exact ⟨r.2, rfl⟩

/-- A report is built without a change to any node, and it has nothing in common
with the root that was given up. -/
theorem assemble_builds (lib : Library) (depth : Nat) (id : String) (hf : f.WellFormed)
    (hl : lib.Within f) :
    Builds f (fun _ => False) (lib.ExpandsTo depth id f) f (lib.assemble depth id) fun report h =>
      Root f h report.root ∧ (h.get report.root).kind = .report ∧
        ∀ root, lib.ExpandsTo depth id f root → Root f h root ∧ root ≠ report.root := by
  have known := lib.expand_known depth id hf hl
  -- Only now are the children of the root free to be moved: it is the one that is given up.
  refine (Builds.stage .start known (fun _ _ h => h) fun _ => False.elim).bind
    fun r g hg ⟨⟨hroot, hspent⟩, hgrow⟩ => .look ?_
  have growth := (plant_spec (Tree.valid_new .report) (hg.wellFormed hf)).growth
  have start := moving_new hf hgrow hroot ((hspent r.1).2 rfl)
  split
  · exact .make _ _ hg growth (start.done hspent)
  · next first rest hchildren =>
      rw [hchildren] at start
      have made := Builds.make Document.new (fun report h =>
        Moving f h (lib.ExpandsTo depth id f) report.root r.1 (first :: rest)) hg growth start
      refine .look (made.bind fun report h hh hm => ?_)
      refine (reportPlace_builds hf hh hm id _).bind fun place k hk hpost => ?_
      exact (forEach_collect hk _ id hpost.1 hpost.2).bind fun _ m hm hmoved =>
        .pure hm (hmoved.done hspent)

end IncidentReport.Library
