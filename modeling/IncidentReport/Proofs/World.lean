import IncidentReport.Proofs.Resolution.Reports
import IncidentReport.World

/-!
The schema holds in every world that calls lead to. Every call makes new nodes,
or edits one, or does some of both, and whether it is refused or not, the nodes
obey the schema and keep their types.
-/

namespace IncidentReport.World

open Forest

/-- What holds of a world whatever has been called. -/
structure WellFormed (w : World) : Prop where
  forest : w.forest.WellFormed
  /-- The root of every document is a node of type `report`. -/
  documents : ∀ report ∈ w.documents,
    w.forest.Has report.root ∧ (w.forest.get report.root).kind = .report
  /-- Every node that is filed in a library is a definition. -/
  libraries : ∀ lib ∈ w.libraries, lib.Stores w.forest

theorem wellFormed_empty : WellFormed empty where
  forest := Forest.wellFormed_empty
  documents _ h := absurd h List.not_mem_nil
  libraries _ h := absurd h List.not_mem_nil

variable {w : World} {g : Forest}

namespace WellFormed

theorem withForest (hw : w.WellFormed) (hg : g.WellFormed) (he : w.forest.Extends g) :
    (w.withForest g).WellFormed where
  forest := hg
  documents report hreport := by
    obtain ⟨hhas, hkind⟩ := hw.documents report hreport
    obtain ⟨hhas, hkind'⟩ := he _ hhas
    exact ⟨hhas, hkind'.trans hkind⟩
  libraries lib hlib := (hw.libraries lib hlib).later he

theorem built {opened dropped : NodeId → Prop} (hw : w.WellFormed)
    (hg : Construction w.forest opened dropped g) : (w.withForest g).WellFormed :=
  hw.withForest (hg.wellFormed hw.forest) hg.extension

theorem edited (hw : w.WellFormed) {result : Except Violation Forest}
    (h : ∀ g, result = .ok g → g.WellFormed ∧ w.forest.Extends g) :
    (w.edited result).WellFormed := by
  rcases result with violation | g
  · exact hw
  · obtain ⟨hg, he⟩ := h g rfl
    exact hw.withForest hg he

theorem withDocument {report : Document} (hg : (w.withForest g).WellFormed) (hr : g.Has report.root)
    (hk : (g.get report.root).kind = .report) : (w.withDocument (report, g)).WellFormed where
  forest := hg.forest
  documents other ho := by
    rcases List.mem_append.1 ho with ho | ho
    · exact hg.documents other ho
    · rw [List.mem_singleton.1 ho]
      exact ⟨hr, hk⟩
  libraries := hg.libraries

theorem planted (hw : w.WellFormed) {t : Tree} (ht : t.Valid ∧ t.kind = .report) :
    (w.withDocument (Document.plant w.forest t)).WellFormed := by
  have planted := plant_spec ht.1 hw.forest
  have kind := (planted.kind hw.forest).trans ht.2
  exact (hw.built planted.growth).withDocument planted.root.has kind

theorem imported (hw : w.WellFormed) {lib : Library} (hl : lib ∈ w.libraries) {ts : List Tree}
    (hts : ∀ t ∈ ts, t.Valid ∧ t.kind = .definition) (library : Nat) :
    (w.withLibrary library (lib.importDefinitions w.forest ts)).WellFormed := by
  obtain ⟨hgrow, hstores⟩ := Library.importAll_spec hts hw.forest (hw.libraries lib hl)
  have hg := hw.built hgrow
  refine ⟨hg.forest, hg.documents, fun other ho => ?_⟩
  rcases List.mem_or_eq_of_mem_set ho with ho | rfl
  · exact hg.libraries other ho
  · exact hstores

section Libraries

variable {library : Nat} {lib : Library} {parent child : NodeId}

theorem importReport (hw : w.WellFormed) (hlib : w.libraries[library]? = some lib)
    (report : Document) :
    (w.withLibrary library (lib.importReport w.forest report)).WellFormed :=
  hw.imported (List.mem_of_getElem? hlib) (Library.valid_definitions hw.forest report.root) library

theorem importText (hw : w.WellFormed) (hlib : w.libraries[library]? = some lib) {text : String}
    {imported : Nat × Library × Forest} (h : lib.importText w.forest text = .ok imported) :
    (w.withLibrary library imported).WellFormed := by
  obtain ⟨report, hreport, rfl⟩ := map_eq_ok.1 h
  have hvalid := (Report.valid_of_parse (mapError_eq_ok.1 hreport)).1
  exact hw.imported (List.mem_of_getElem? hlib) hvalid.definitions library

theorem within (hw : w.WellFormed) (hlib : w.libraries[library]? = some lib) :
    lib.Within w.forest :=
  (hw.libraries lib (List.mem_of_getElem? hlib)).within

theorem expanded (hw : w.WellFormed) (hlib : w.libraries[library]? = some lib) (depth : Nat)
    (id : String) : (w.withForest (lib.expand depth id w.forest).2).WellFormed :=
  hw.built (lib.expand_builds depth w.forest id hw.forest (hw.within hlib)).construction

theorem assembled (hw : w.WellFormed) (hlib : w.libraries[library]? = some lib) {depth : Nat}
    {id : String} {outcome : Except ResolveError Document}
    (h : lib.assemble depth id w.forest = (outcome, g)) :
    (w.withForest g).WellFormed ∧
      ∀ report, outcome = .ok report → (w.withDocument (report, g)).WellFormed := by
  have builds := lib.assemble_builds depth id hw.forest (hw.within hlib)
  have hg := hw.built builds.construction
  have answer := builds.answer
  rw [h] at hg answer
  refine ⟨hg, fun report hr => ?_⟩
  obtain ⟨hroot, hkind, -⟩ := answer report hr
  exact hg.withDocument hroot.has hkind

theorem attached (hw : w.WellFormed) (hlib : w.libraries[library]? = some lib) (depth : Nat)
    (hp : w.forest.Has parent) (hc : w.forest.Has child) :
    (w.withForest (lib.attach w.forest depth parent child).1).WellFormed := by
  rw [Library.attach_eq]
  exact hw.built
    (lib.attachWithin_builds depth w.forest parent child hw.forest (hw.within hlib) hp
      hc).construction

end Libraries

end WellFormed

/-- Both handles of a call that is given two name nodes. -/
theorem has_both {parent child : NodeId} (h : ∀ id ∈ [parent, child], w.forest.Has id) :
    w.forest.Has parent ∧ w.forest.Has child := by
  simpa using h

theorem effect_importText {library : Nat} {lib : Library} {text : String}
    {imported : Nat × Library × Forest} (hlib : w.libraries[library]? = some lib)
    (h : lib.importText w.forest text = .ok imported) :
    w.effect (.importText library text) = w.withLibrary library imported := by
  rw [effect, hlib]
  dsimp only
  rw [h]

/-- The world after a text has been imported and nothing else has happened. -/
theorem run_importText {text : String} {t : Tree} (h : Report.parse text = .ok t) :
    let definitions := t.children.filter fun child => child.kind = .definition
    let made := Library.empty.importAll .empty definitions
    run empty [.newLibrary, .importText 0 text] = ⟨made.2, [], [made.1]⟩ := by
  intro definitions made
  have himport : Library.empty.importText .empty text = .ok (definitions.length, made) := by
    rw [Library.importText, h]
    rfl
  show effect ⟨.empty, [], [.empty]⟩ (.importText 0 text) = _
  rw [effect_importText rfl himport]
  rfl

/-- One call keeps the world as it should be. -/
theorem effect_wellFormed (hw : w.WellFormed) (operation : Operation)
    (hhas : ∀ id ∈ operation.handles, w.forest.Has id) : (w.effect operation).WellFormed := by
  have hf := hw.forest
  have added : ∀ {node : Node NodeId}, node.Valid → node.children = [] →
      (w.withForest (w.forest.add node).2).WellFormed := fun hn hc =>
    hw.built (add_spec hf hn hc).1
  have amended : ∀ {id : NodeId} {change : Node NodeId → Except Violation (Node NodeId)},
      (∀ {n m}, change n = .ok m → n.Amends m) → (w.edited (w.forest.edit id change)).WellFormed :=
    fun hchange => hw.edited fun g hg => ⟨hf.edit hchange hg, extends_edit hchange hg⟩
  cases operation with
  | newNode kind => exact added (Node.new_valid kind) (Node.children_new kind)
  | newWithIdentity kind id definition akindof =>
      rw [effect]
      split
      · next hnode =>
          obtain ⟨hn, hc⟩ := Node.withIdentity_eq_ok hnode
          exact added hn hc
      · exact hw
  | readNode element =>
      rw [effect]
      split
      · next ht => exact hw.built (plant_spec (Tree.valid_of_ofElement ht) hf).growth
      · exact hw
  | setAttribute node name value =>
      exact amended Node.amends_setAttribute
  | addChild parent child =>
      obtain ⟨hp, hc⟩ := has_both hhas
      exact hw.edited fun g hg => ⟨hf.addChild hp hc hg, extends_addChild hg⟩
  | setContent node content =>
      exact amended Node.amends_replaceContent
  | clearContent node =>
      exact amended Node.amends_replaceContent
  | addFragment node fragment =>
      exact amended Node.amends_addFragment
  | copy node => exact hw.built (copy_spec hf node).growth
  | copyAlone node => exact hw.built (copyAlone_spec hf node).1
  | newDocument => exact hw.planted ⟨Tree.valid_new .report, rfl⟩
  | readDocument element =>
      rw [effect]
      split
      · next hmade =>
          obtain ⟨t, ht, rfl⟩ := map_eq_ok.1 hmade
          exact hw.planted (Report.valid_of_ofElement ht)
      · exact hw
  | parseDocument text =>
      rw [effect]
      split
      · next hmade =>
          obtain ⟨t, ht, rfl⟩ := map_eq_ok.1 hmade
          exact hw.planted (Report.valid_of_parse ht)
      · exact hw
  | newLibrary =>
      refine ⟨hf, hw.documents, fun lib hlib => ?_⟩
      rcases List.mem_append.1 hlib with hlib | hlib
      · exact hw.libraries lib hlib
      · rw [List.mem_singleton.1 hlib]
        exact Library.stores_empty
  | importReport library document =>
      rw [effect]
      split
      · next lib report hlib _ => exact hw.importReport hlib report
      · exact hw
  | importText library text =>
      rw [effect]
      split
      · next lib hlib =>
          split
          · next himported => exact hw.importText hlib himported
          · exact hw
      · exact hw
  | find library id => exact hw
  | buildNode library depth id =>
      rw [effect]
      split
      · next lib hlib => exact hw.expanded hlib depth id
      · exact hw
  | buildReport library depth id =>
      rw [effect]
      split
      · next lib hlib =>
          split
          · next report g h => exact (hw.assembled hlib h).2 report rfl
          · next h => exact (hw.assembled hlib h).1
      · exact hw
  | attach library depth parent child =>
      obtain ⟨hp, hc⟩ := has_both hhas
      rw [effect]
      split
      · next lib hlib => exact hw.attached hlib depth hp hc
      · exact hw

theorem wellFormed_perform (hw : w.WellFormed) (operation : Operation) :
    (w.perform operation).WellFormed := by
  rw [perform]
  split
  · next hhas => exact effect_wellFormed hw operation hhas
  · exact hw

/-- What one call keeps, all calls keep. -/
theorem wellFormed_run (hw : w.WellFormed) (operations : List Operation) :
    (w.run operations).WellFormed := by
  induction operations generalizing w with
  | nil => exact hw
  | cons operation operations ih => exact ih (wellFormed_perform hw operation)

/-- The schema holds in every world. -/
theorem run_wellFormed (operations : List Operation) : (run empty operations).WellFormed :=
  wellFormed_run wellFormed_empty operations

end IncidentReport.World
