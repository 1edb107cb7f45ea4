import IncidentReport.Proofs.Resolution.Steps
import IncidentReport.Proofs.Tree.RoundTrip

/-!
Which definition the elements of a written report name. A report is made of nodes that are
given the id of the definition, but a node is written with its mark in the place of this id.
The mark is the id where all children of the expansion are of one type. Where they are not,
it is what an expansion further in, or a definition itself, has left on the node, and then
this is what the element names.
-/

namespace IncidentReport

open Markup (Element)

/-! ### Written nodes -/

/-- The mark is written in the place of what the node refers to. -/
theorem Attributes.get?_published_definition (attrs : Attributes) :
    attrs.published.get? definitionAttribute =
      (attrs.get? provenanceAttribute).or (attrs.get? definitionAttribute) := by
  rw [published]
  cases attrs.get? provenanceAttribute with
  | some mark => simp [get?_insert]
  | none => simp

namespace Tree

@[simp] theorem name_toElement (t : Tree) : t.toElement.name = t.kind.name := by
  obtain ⟨⟨kind, attributes, body⟩⟩ := t
  rfl

theorem attribute?_toElement (t : Tree) (name : String) :
    t.toElement.attribute? name = t.node.attributes.published.get? name := by
  obtain ⟨⟨kind, attributes, body⟩⟩ := t
  rw [Attributes.get?, Attributes.entries_published]
  rfl

theorem childElements_toElement (kind : NodeType) (attributes : Attributes) (ts : List Tree) :
    (⟨⟨kind, attributes, .children ts⟩⟩ : Tree).toElement.childElements = ts.map toElement := by
  show (treeNodes ts).filterMap Markup.Node.asElement? = ts.map toElement
  induction ts with
  | nil => rfl
  | cons t ts ih =>
      have first : t.toElement.toNode.asElement? = some t.toElement := rfl
      rw [treeNodes, List.filterMap_cons_some first, ih, List.map_cons]

/-- Where a node is given the id, its element names the mark of the node, if there is one. -/
theorem attribute?_toElement_referring {kind : NodeType} {t : Tree} (ht : t.kind = kind)
    (id : String) :
    (t.referring kind id).toElement.attribute? definitionAttribute =
      some ((t.attribute? provenanceAttribute).getD id) := by
  rw [attribute?_toElement, Attributes.get?_published_definition, referring, if_pos ht]
  rw [node_mk, Attributes.get?_insert, if_neg (by decide), Attributes.get?_insert, if_pos rfl]
  show (t.attribute? provenanceAttribute).or (some id) = _
  cases t.attribute? provenanceAttribute <;> rfl

end Tree

/-! ### Reports -/

/-- The elements of this name that stand in an element. -/
def Markup.Element.childrenNamed (e : Element) (name : String) : List Element :=
  e.childElements.filter (·.name = name)

/-- The elements of a report that its nodes of the deciding type are written as: the
incidents under the root, or the states under the incidents there. -/
def stemming (kind : NodeType) (report : Element) : List Element :=
  match kind with
  | .state => (report.childrenNamed NodeType.incident.name).flatMap
      (·.childrenNamed NodeType.state.name)
  | kind => report.childrenNamed kind.name

/-- The elements in question name what they are marked with, or else the definition. -/
theorem map_attribute?_childrenNamed (kind holder : NodeType) (attributes : Attributes)
    (id : String) (ts : List Tree) :
    ((⟨⟨holder, attributes, .children (ts.map (Tree.referring kind id))⟩⟩ :
        Tree).toElement.childrenNamed kind.name).map (·.attribute? definitionAttribute) =
      (ts.filter (·.kind = kind)).map fun t =>
        some ((t.attribute? provenanceAttribute).getD id) := by
  have same : ts.filter ((fun e : Element => decide (e.name = kind.name)) ∘
      Tree.toElement ∘ Tree.referring kind id) = ts.filter (·.kind = kind) := by
    apply List.filter_congr
    intro t _
    rw [Function.comp_apply, Function.comp_apply, Tree.name_toElement, Expansion.kind_referring]
    exact decide_eq_decide.2 ⟨fun h => NodeType.name_injective h, fun h => by rw [h]⟩
  rw [Element.childrenNamed, Tree.childElements_toElement, List.map_map, List.filter_map,
    List.map_map, same]
  apply List.map_congr_left
  intro t ht
  have hkind : t.kind = kind := by simpa using (List.mem_filter.1 ht).2
  exact Tree.attribute?_toElement_referring hkind id

/-- A report is made of incidents, which stand under the root, or of states, which stand
under one incident. -/
theorem ReportOf.eq_of_ok {id : String} {children : List Tree} {t : Tree}
    (h : ReportOf id children (.ok t)) : ∀ first ∈ children.head?,
    first.kind = .incident ∧ t = ⟨⟨.report, .ofList NodeType.report.defaults,
      .children (children.map (Tree.referring .incident id))⟩⟩ ∨
    first.kind = .state ∧ t = ⟨⟨.report, .ofList NodeType.report.defaults,
      .children [⟨⟨.incident, .empty, .children (children.map (Tree.referring .state id))⟩⟩]⟩⟩ := by
  intro first hfirst
  have placed : ∀ place : NodeType, first.kind = .incident ∧ place = .report ∨
      first.kind = .state ∧ place = .incident →
      ∀ t ∈ children, place.permits t.kind = true := by
    intro place hplace
    rcases place.permits_all_or_first children with hall |
      ⟨before, u, after, hsplit, hbefore, hu⟩
    · exact hall
    · cases h.refused first hfirst place hplace before u after hsplit hbefore hu
  by_cases hincident : first.kind = .incident
  · have made := h.incidents first hfirst hincident (placed .report (.inl ⟨hincident, rfl⟩))
    exact .inl ⟨hincident, Except.ok.inj made⟩
  by_cases hstate : first.kind = .state
  · have made := h.states first hfirst hstate (placed .incident (.inr ⟨hstate, rfl⟩))
    exact .inr ⟨hstate, Except.ok.inj made⟩
  · cases h.unsupported first hfirst hincident hstate

/-- What the elements of a report name that is made of these children. -/
structure Attributed (id : String) (uniform : Option NodeType) (children : List Tree)
    (report : Element) : Prop where
  /-- The elements stem from the children of the deciding type one by one. Each names what
  its child is marked with, and the definition if the child has no mark. -/
  named : ∀ first ∈ children.head?,
    (stemming first.kind report).map (·.attribute? definitionAttribute) =
      (children.filter (·.kind = first.kind)).map fun t =>
        some ((t.attribute? provenanceAttribute).getD id)
  /-- So all of them name the definition if and only if none is marked with another one. -/
  all_named_iff : ∀ first ∈ children.head?,
    (∀ e ∈ stemming first.kind report, e.attribute? definitionAttribute = some id) ↔
      ∀ t ∈ children, t.kind = first.kind → ∀ mark ∈ t.attribute? provenanceAttribute, mark = id
  /-- They do if all children are of one type, whatever these come from. -/
  uniform : ∀ kind ∈ uniform, ∀ e ∈ stemming kind report,
    e.attribute? definitionAttribute = some id

theorem map_attribute?_stemming {id : String} {children : List Tree} {t : Tree}
    (h : ReportOf id children (.ok t)) : ∀ first ∈ children.head?,
    (stemming first.kind t.toElement).map (·.attribute? definitionAttribute) =
      (children.filter (·.kind = first.kind)).map fun t =>
        some ((t.attribute? provenanceAttribute).getD id) := by
  intro first hfirst
  rcases h.eq_of_ok first hfirst with ⟨hkind, rfl⟩ | ⟨hkind, rfl⟩ <;> rw [hkind]
  · exact map_attribute?_childrenNamed .incident .report _ id children
  · rw [stemming]
    have under : ((⟨⟨.report, .ofList NodeType.report.defaults, .children
        [⟨⟨.incident, .empty, .children (children.map (Tree.referring .state id))⟩⟩]⟩⟩ :
          Tree).toElement.childrenNamed NodeType.incident.name) =
        [(⟨⟨.incident, .empty, .children (children.map (Tree.referring .state id))⟩⟩ :
          Tree).toElement] := by
      rw [Element.childrenNamed, Tree.childElements_toElement]
      rfl
    rw [under, List.flatMap_singleton]
    exact map_attribute?_childrenNamed .state .incident _ id children

theorem all_named_iff {id : String} {kind : NodeType} {elements : List Element}
    {children : List Tree}
    (h : elements.map (·.attribute? definitionAttribute) =
      (children.filter (·.kind = kind)).map fun t =>
        some ((t.attribute? provenanceAttribute).getD id)) :
    (∀ e ∈ elements, e.attribute? definitionAttribute = some id) ↔
      ∀ t ∈ children, t.kind = kind → ∀ mark ∈ t.attribute? provenanceAttribute, mark = id := by
  rw [← List.forall_mem_map (P := fun name => name = some id), h, List.forall_mem_map]
  simp only [List.mem_filter, decide_eq_true_eq, and_imp, Option.some.injEq]
  refine forall₃_congr fun t _ _ => ?_
  cases t.attribute? provenanceAttribute <;> simp

theorem Definitions.attributed {defs : Definitions} {depth : Nat} {id : String} {e : Expansion}
    (h : defs.resolve depth id = .ok e) {t : Tree}
    (made : ReportOf id e.definition.children (.ok t)) :
    Attributed id e.uniformType e.definition.children t.toElement := by
  have named := map_attribute?_stemming made
  refine ⟨named, fun first hfirst => all_named_iff (named first hfirst), fun kind hkind => ?_⟩
  -- Where all children are of one type, all of them are marked with the id.
  have kinds := resolve_uniform h kind hkind
  have marked := provenance_of_uniformType h hkind
  obtain ⟨first, hfirst⟩ : ∃ first, first ∈ e.definition.children.head? :=
    Option.ne_none_iff_exists'.1 (mt List.head?_eq_none_iff.1
      (children_ne_nil_of_uniformType h hkind))
  rw [← kinds first (List.mem_of_mem_head? hfirst), all_named_iff (named first hfirst)]
  intro t ht _ mark hmark
  rw [marked t ht] at hmark
  exact (Option.some.inj hmark).symm

theorem Library.attributed {lib : Library} {f g : Forest} (hf : f.WellFormed) (hl : lib.Within f)
    {depth : Nat} {id : String} {report : Document}
    (h : lib.buildReport f depth id = .ok (report, g)) :
    ∃ root uniform k, lib.buildNode f depth id = .ok (root, uniform, k) ∧
      Attributed id uniform ((k.children root).map k.tree) (g.tree report.root).toElement := by
  cases hbuilt : lib.buildNode f depth id with
  | error e =>
      rw [Library.buildReport_of_error hf hl hbuilt] at h
      cases h
  | ok built =>
      obtain ⟨root, uniform, k⟩ := built
      have made := (Library.buildReport_of_ok hf hl hbuilt).2
      rw [h] at made
      have children := (Library.wellFormed_of_buildNode hf hl hbuilt).children_tree root
      refine ⟨root, uniform, k, rfl, ?_⟩
      rw [← children] at made ⊢
      exact Definitions.attributed (Library.resolve_of_buildNode hf hl hbuilt) made

namespace World

/-- In every world the elements of a report that is built name what the nodes that they stem
from have been marked with. -/
theorem run_attributed (operations : List Operation) {lib : Library}
    (hlib : lib ∈ (run empty operations).libraries) {depth : Nat} {id : String}
    {report : Document} {g : Forest}
    (h : lib.buildReport (run empty operations).forest depth id = .ok (report, g)) :
    ∃ root uniform k,
      lib.buildNode (run empty operations).forest depth id = .ok (root, uniform, k) ∧
        Attributed id uniform ((k.children root).map k.tree) (g.tree report.root).toElement := by
  have hw := wellFormed_run wellFormed_empty operations
  exact Library.attributed hw.forest (hw.libraries lib hlib).within h

end World

/-- A report of two definitions. The first has children of two types, one of which refers to
the second. -/
def shadowedReport : Element :=
  ⟨"report", [],
    [.element "definition" [("defines", "a")]
        [.element "state" [("definition", "b")] [], .element "timestamp" [] []],
      .element "definition" [("defines", "b")] [.element "state" [] []]]⟩

/-- The library of the two definitions, and the forest that it is in. -/
def shadowed : Library × Forest :=
  Library.empty.importAll .empty
    [⟨⟨.definition, .ofList [("defines", "a")],
        .children [⟨⟨.state, .ofList [("definition", "b")], .children []⟩⟩, .new .timestamp]⟩⟩,
      ⟨⟨.definition, .ofList [("defines", "b")], .children [⟨.new .state⟩]⟩⟩]

theorem run_shadowedReport :
    World.run .empty [.newLibrary, .importText 0 shadowedReport.printDocument] =
      ⟨shadowed.2, [], [shadowed.1]⟩ := by
  have hread : Report.parse shadowedReport.printDocument = .ok _ :=
    (Report.parse_printDocument (by decide) (by decide)).trans rfl
  exact World.run_importText hread

/-- The report that is made of the first definition. Its state has the mark of the second one
and refers to the first. -/
def shadowedTree : Tree :=
  ⟨⟨.report, .ofList NodeType.report.defaults, .children [⟨⟨.incident, .empty, .children
    [⟨⟨.state, .ofList [("_definition", "b"), ("definition", "a")], .children []⟩⟩,
      .new .timestamp]⟩⟩]⟩⟩

theorem buildReport_shadowed :
    (shadowed.1.definitions (World.run .empty
        [.newLibrary, .importText 0 shadowedReport.printDocument]).forest).buildReport 2 "a" =
      .ok shadowedTree := by
  rw [run_shadowedReport]
  generalize hf : World.forest _ = f
  unfold Library.definitions
  rw [funext f.tree_eq_unfold, ← hf]
  rfl

theorem exists_buildReport_shadowed :
    let w := World.run .empty [.newLibrary, .importText 0 shadowedReport.printDocument]
    ∃ lib ∈ w.libraries, ∃ report g, lib.buildReport w.forest 2 "a" = .ok (report, g) ∧
      g.tree report.root = shadowedTree := by
  intro w
  have hw : w.WellFormed := World.wellFormed_run World.wellFormed_empty _
  have hlib : shadowed.1 ∈ w.libraries := by
    rw [show w = ⟨shadowed.2, [], [shadowed.1]⟩ from run_shadowedReport]
    exact List.mem_singleton_self _
  have made := Library.buildReport_eq_resolve shadowed.1 hw.forest (hw.libraries _ hlib).within 2 "a"
  rw [buildReport_shadowed] at made
  obtain ⟨⟨report, g⟩, hbuilt, htree⟩ := map_eq_ok.1 made
  exact ⟨shadowed.1, hlib, report, g, hbuilt, htree⟩

theorem run_attributed_shadowedReport :
    let w := World.run .empty [.newLibrary, .importText 0 shadowedReport.printDocument]
    ∃ lib ∈ w.libraries, ∃ report g, lib.buildReport w.forest 2 "a" = .ok (report, g) ∧
      ∃ root uniform k, lib.buildNode w.forest 2 "a" = .ok (root, uniform, k) ∧
        Attributed "a" uniform ((k.children root).map k.tree) (g.tree report.root).toElement := by
  obtain ⟨lib, hlib, report, g, hbuilt, -⟩ := exists_buildReport_shadowed
  exact ⟨lib, hlib, report, g, hbuilt, World.run_attributed _ hlib hbuilt⟩

/-- The report of the first definition is written with a state that names the second. -/
theorem run_shadowedReport_names_other :
    let w := World.run .empty [.newLibrary, .importText 0 shadowedReport.printDocument]
    ∃ lib ∈ w.libraries, ∃ report g, lib.buildReport w.forest 2 "a" = .ok (report, g) ∧
      (stemming .state (g.tree report.root).toElement).map
        (·.attribute? definitionAttribute) = [some "b"] := by
  obtain ⟨lib, hlib, report, g, hbuilt, htree⟩ := exists_buildReport_shadowed
  refine ⟨lib, hlib, report, g, hbuilt, ?_⟩
  rw [htree]
  rfl

end IncidentReport
