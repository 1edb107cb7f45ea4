import IncidentReport.Proofs.Defaults

/-!
The nodes of a world in the course of time. Whatever a call does besides, of the nodes
that are there it changes at most the one that it is made on, and that one only grows.
So over any calls every node stays, with all that it has in its place, and the required
attributes that it lacks become fewer.
-/

namespace IncidentReport

open Forest

/-- The node that a call is made on: the one it edits or adds children to. -/
def Operation.target? : Operation → Option NodeId
  | .setAttribute node _ _ | .setContent node _ | .clearContent node | .addFragment node _ =>
    some node
  | .addChild parent _ | .attach _ _ parent _ => some parent
  | _ => none

namespace Forest

variable {f g : Forest} {operation : Operation} {id : NodeId}

/-- What a call makes of the nodes. It builds, and then only its target may gain children;
or it edits its target, and then a new child of it is a node that the call is given. -/
inductive Changes (f : Forest) (operation : Operation) : Forest → Prop where
  | build {dropped : NodeId → Prop} {g : Forest}
      (done : Construction f (fun id => operation.target? = some id) dropped g) :
      Changes f operation g
  | edit {id : NodeId} {node : Node NodeId} (target : operation.target? = some id)
      (grown : (f.get id).GrowsTo node)
      (children : ∀ child ∈ node.children, f.HasChild id child ∨ child ∈ operation.handles) :
      Changes f operation (f.set id node)

namespace Changes

theorem grow (h : Growth f g) : Changes f operation g := by
  have done : Construction f (fun id => operation.target? = some id) (fun _ => False) g :=
    Construction.start.grow h
  exact .build done

theorem refl (f : Forest) (operation : Operation) : Changes f operation f :=
  .grow .start

theorem has (h : Changes f operation g) (hid : f.Has id) : g.Has id := by
  cases h with
  | build done => exact done.has hid
  | edit => exact has_set.2 hid

/-- A call changes no other node than its target. -/
theorem get_eq (h : Changes f operation g) (hid : f.Has id) (hno : operation.target? ≠ some id) :
    g.get id = f.get id := by
  cases h with
  | build done => exact done.get_closed hid hno
  | edit target =>
      refine get_set_of_ne _ ?_
      rintro rfl
      exact hno target

theorem grows (h : Changes f operation g) (hid : f.Has id) :
    (f.get id).GrowsTo (g.get id) := by
  cases h with
  | build done =>
      obtain ⟨new, -, -, hget⟩ := done.get_old hid
      rw [hget]
      exact .withChildren _ new
  | @edit target node _ grown =>
      rcases get_set_or f target id node with hget | ⟨rfl, -, hget⟩ <;> rw [hget]
      · exact .refl _
      · exact grown

/-- Where an old node comes under another one, the call is made on that one and is given
the node. -/
theorem parents (h : Changes f operation g) {parent child : NodeId} (hchild : f.Has child)
    (hstep : g.HasChild parent child) :
    f.HasChild parent child ∨ operation.target? = some parent ∧ child ∈ operation.handles := by
  cases h with
  | build done => exact .inl (done.parents_old hchild hstep)
  | @edit target node htarget _ children =>
      rw [HasChild, Forest.children] at hstep
      rcases get_set_or f target parent node with hget | ⟨rfl, -, hget⟩ <;> rw [hget] at hstep
      · exact .inl hstep
      · exact (children child hstep).imp_right fun given => ⟨htarget, given⟩

end Changes

/-- An edit that keeps the children changes the node that it is made on. -/
theorem changes_edit {change : Node NodeId → Except Violation (Node NodeId)}
    (htarget : operation.target? = some id) (hgrow : ∀ {n m}, change n = .ok m → n.GrowsTo m)
    (hamend : ∀ {n m}, change n = .ok m → n.Amends m) (accepted : f.edit id change = .ok g) :
    Changes f operation g := by
  obtain ⟨node, hnode, rfl⟩ := edit_eq_ok accepted
  refine .edit htarget (hgrow hnode) fun child hchild => .inl ?_
  rwa [(hamend hnode).children] at hchild

theorem changes_addChild {parent child : NodeId} (htarget : operation.target? = some parent)
    (hgiven : child ∈ operation.handles) (accepted : f.addChild parent child = .ok g) :
    Changes f operation g := by
  obtain ⟨-, -, rfl⟩ := addChild_eq_ok accepted
  refine .edit htarget (.push _ child) fun other hother => ?_
  rw [← Node.withChildren_children (f.get parent), Node.push_withChildren] at hother
  rcases List.mem_append.1 (Node.children_withChildren_subset _ _ _ hother) with hother | hother
  · exact .inl hother
  · exact .inr (List.mem_singleton.1 hother ▸ hgiven)

end Forest

/-! ### One call -/

namespace World

variable {w : World}

theorem changes_edited {operation : Operation} {result : Except Violation Forest}
    (h : ∀ g, result = .ok g → Changes w.forest operation g) :
    Changes w.forest operation (w.edited result).forest := by
  cases result with
  | ok g => exact h g rfl
  | error violation => exact .refl _ _

theorem WellFormed.changes_imported (hw : w.WellFormed) {lib : Library} (hl : lib ∈ w.libraries)
    {ts : List Tree} (hts : ∀ t ∈ ts, t.Valid ∧ t.kind = .definition) (operation : Operation) :
    Changes w.forest operation (lib.importDefinitions w.forest ts).2.2 :=
  .grow (Library.importAll_spec hts hw.forest (hw.libraries lib hl)).1

theorem WellFormed.effect_changes (hw : w.WellFormed) (operation : Operation)
    (hhas : ∀ id ∈ operation.handles, w.forest.Has id) :
    Changes w.forest operation (w.effect operation).forest := by
  have hf := hw.forest
  have added : ∀ {node : Node NodeId}, node.Valid → node.children = [] →
      Changes w.forest operation (w.forest.add node).2 := fun hn hc => .grow (add_spec hf hn hc).1
  have planted : ∀ {t : Tree}, t.Valid → Changes w.forest operation (w.forest.plant t).2 :=
    fun ht => .grow (plant_spec ht hf).growth
  cases operation with
  | newNode kind => exact added (Node.new_valid kind) (Node.children_new kind)
  | newWithIdentity kind id definition akindof =>
      rw [effect]
      split
      · next hnode =>
          obtain ⟨hn, hc⟩ := Node.withIdentity_eq_ok hnode
          exact added hn hc
      · exact .refl _ _
  | readNode element =>
      rw [effect]
      split
      · next ht => exact planted (Tree.valid_of_ofElement ht)
      · exact .refl _ _
  | setAttribute node name value =>
      exact changes_edited fun _ => changes_edit rfl .setAttribute Node.amends_setAttribute
  | addChild parent child =>
      exact changes_edited fun _ => changes_addChild rfl (by simp [Operation.handles])
  | setContent node content =>
      exact changes_edited fun _ => changes_edit rfl .replaceContent Node.amends_replaceContent
  | clearContent node =>
      exact changes_edited fun _ => changes_edit rfl .replaceContent Node.amends_replaceContent
  | addFragment node fragment =>
      exact changes_edited fun _ => changes_edit rfl .addFragment Node.amends_addFragment
  | copy node => exact planted (hf.valid_tree node)
  | copyAlone node => exact .grow (copyAlone_spec hf node).1
  | newDocument => exact planted (Tree.valid_new .report)
  | readDocument element =>
      rw [effect]
      split
      · next hmade =>
          obtain ⟨t, ht, rfl⟩ := map_eq_ok.1 hmade
          exact planted (Report.valid_of_ofElement ht).1
      · exact .refl _ _
  | parseDocument text =>
      rw [effect]
      split
      · next hmade =>
          obtain ⟨t, ht, rfl⟩ := map_eq_ok.1 hmade
          exact planted (Report.valid_of_parse ht).1
      · exact .refl _ _
  | newLibrary => exact .refl _ _
  | importReport library document =>
      rw [effect]
      split
      · next lib report hlib _ =>
          exact hw.changes_imported (List.mem_of_getElem? hlib)
            (Library.valid_definitions hf report.root) _
      · exact .refl _ _
  | importText library text =>
      rw [effect]
      split
      · next lib hlib =>
          split
          · next himported =>
              obtain ⟨report, hreport, rfl⟩ := map_eq_ok.1 himported
              have valid := (Report.valid_of_parse (mapError_eq_ok.1 hreport)).1
              exact hw.changes_imported (List.mem_of_getElem? hlib) valid.definitions _
          · exact .refl _ _
      · exact .refl _ _
  | find library id => exact .refl _ _
  | buildNode library depth id =>
      rw [effect]
      split
      · next lib hlib =>
          exact .grow (lib.expand_builds depth w.forest id hf (hw.within hlib)).construction
      · exact .refl _ _
  | buildReport library depth id =>
      rw [effect]
      split
      · next lib hlib =>
          have built := (lib.assemble_builds depth id hf (hw.within hlib)).construction
          split <;>
          · next hcall =>
              rw [hcall] at built
              exact .build (Construction.start.trans built (fun _ _ => False.elim) fun _ h => h)
      · exact .refl _ _
  | attach library depth parent child =>
      obtain ⟨hp, hc⟩ := has_both hhas
      rw [effect]
      split
      · next lib hlib =>
          have built :=
            lib.attachWithin_builds depth w.forest parent child hf (hw.within hlib) hp hc
          rw [lib.attach_eq]
          exact .build (Construction.start.trans built.construction (fun _ _ h => h ▸ rfl)
            fun _ => id)
      · exact .refl _ _

theorem WellFormed.perform_changes (hw : w.WellFormed) (operation : Operation) :
    Changes w.forest operation (w.perform operation).forest := by
  rw [perform]
  split
  · next hhas => exact hw.effect_changes operation hhas
  · exact .refl _ _

/-! ### Refused calls -/

/-- The call makes or edits one thing, or imports a text, and is answered with an error. -/
def Refuses (w : World) : Operation → Prop
  | .newWithIdentity kind id definition akindof =>
    ∃ e, (Node.withIdentity kind id definition akindof : Except Violation (Node NodeId)) = .error e
  | .readNode element => ∃ e, Tree.ofElement element = .error e
  | .setAttribute node name value => ∃ e, w.forest.setAttribute node name value = .error e
  | .addChild parent child => ∃ e, w.forest.addChild parent child = .error e
  | .setContent node content => ∃ e, w.forest.setContent node content = .error e
  | .clearContent node => ∃ e, w.forest.clearContent node = .error e
  | .addFragment node fragment => ∃ e, w.forest.addFragment node fragment = .error e
  | .readDocument element => ∃ e, Document.ofElement w.forest element = .error e
  | .parseDocument text => ∃ e, Document.parse w.forest text = .error e
  | .importText library text =>
    ∃ lib ∈ w.libraries[library]?, ∃ e, lib.importText w.forest text = .error e
  | _ => False

/-- A refused call leaves the world as it is. -/
theorem perform_of_refuses {operation : Operation} (h : w.Refuses operation) :
    w.perform operation = w := by
  have kept : w.effect operation = w := by
    cases operation with
    | newWithIdentity | readNode | readDocument | parseDocument =>
        obtain ⟨e, he⟩ := h
        rw [effect, he]
    | setAttribute | addChild | setContent | clearContent | addFragment =>
        obtain ⟨e, he⟩ := h
        rw [effect, he, edited]
    | importText library text =>
        obtain ⟨lib, hlib, e, he⟩ := h
        rw [effect, Option.mem_def.1 hlib]
        dsimp only
        rw [he]
    | _ => exact h.elim
  rw [perform, kept, ite_self]

/-! ### Any calls -/

/-- How the nodes of a world live on. -/
structure Grows (w : World) : Prop where
  /-- Whatever is called, every node that is there stays. It keeps its type; its
  attributes, children and fragments keep their places, and what comes new comes behind
  them; and no required attribute comes to be missing. -/
  later : ∀ (operations : List Operation) (id : NodeId), w.forest.Has id →
    let after := (w.run operations).forest
    after.Has id ∧ (w.forest.get id).GrowsTo (after.get id) ∧
      (after.get id).missingAttributes.Sublist (w.forest.get id).missingAttributes
  /-- The attributes of a node start with the defaults of its type, in the order of the
  schema. -/
  defaults : ∀ id, w.forest.Has id → (w.forest.get id).DefaultsFirst
  refused : ∀ operation, w.Refuses operation → w.perform operation = w
  /-- Of the nodes that are there a call changes its target at most. -/
  others : ∀ (operation : Operation) (id : NodeId), w.forest.Has id →
    operation.target? ≠ some id → (w.perform operation).forest.get id = w.forest.get id

theorem has_and_grows_run (hw : w.WellFormed) (operations : List Operation) {id : NodeId}
    (hid : w.forest.Has id) :
    (w.run operations).forest.Has id ∧
      (w.forest.get id).GrowsTo ((w.run operations).forest.get id) := by
  -- From the first call on: it is made in a world that obeys the schema and leaves one.
  induction operations generalizing w with
  | nil => exact ⟨hid, .refl _⟩
  | cons operation operations ih =>
      have changes := hw.perform_changes operation
      obtain ⟨hhas, hgrows⟩ := ih (wellFormed_perform hw operation) (changes.has hid)
      exact ⟨hhas, (changes.grows hid).trans hgrows⟩

/-- A node on which no call is made stays as it is. -/
theorem get_run (hw : w.WellFormed) {operations : List Operation} {id : NodeId}
    (hid : w.forest.Has id) (hno : ∀ operation ∈ operations, operation.target? ≠ some id) :
    (w.run operations).forest.get id = w.forest.get id := by
  induction operations generalizing w with
  | nil => rfl
  | cons operation operations ih =>
      obtain ⟨hfirst, hrest⟩ := List.forall_mem_cons.1 hno
      have changes := hw.perform_changes operation
      rw [← changes.get_eq hid hfirst]
      exact ih (wellFormed_perform hw operation) (changes.has hid) hrest

/-- In every world nodes only grow, and the defaults stay in front. -/
theorem run_grows (operations : List Operation) : (run empty operations).Grows := by
  have hw := wellFormed_run wellFormed_empty operations
  exact {
    later := fun further id hid => by
      obtain ⟨hhas, hgrows⟩ := has_and_grows_run hw further hid
      exact ⟨hhas, hgrows, hgrows.missing⟩
    defaults := fun id _ => defaultsFirst_run defaultsFirst_empty operations id
    refused := fun _ => perform_of_refuses
    others := fun operation id hid => (hw.perform_changes operation).get_eq hid }

end World

end IncidentReport
