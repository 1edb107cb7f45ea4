import IncidentReport.Proofs.Markup.Normal
import IncidentReport.Proofs.Node.Normal
import IncidentReport.Proofs.Tree.Nodes

/-!
What the nodes of a tree are read from. Each comes from one element, with the
attributes of the element written over the defaults of its type. An extension holds all
that stands in its element; of any other element the children are read as nodes and the
text is held unless it is blank.
-/

namespace IncidentReport

open Markup (Element)

/-- Text or CDATA that is not blank. -/
def Markup.Node.visibleText? (node : Markup.Node) : Option String :=
  match node with
  | .text content | .cdata content => if node.isBlank then none else some content
  | .element .. | .comment _ => none

theorem Markup.Node.visible_of_visibleText? {node : Markup.Node} {text : String}
    (h : node.visibleText? = some text) : text.toList.all Text.isSpace = false := by
  cases node with
  | element | comment => cases h
  | text content | cdata content =>
      rw [visibleText?] at h
      split at h
      · cases h
      · next hblank =>
          cases h
          simpa [isBlank] using hblank

namespace NodeType

theorem content_eq_rawXml_iff {kind : NodeType} : kind.content = .rawXml ↔ kind = .extension := by
  cases kind <;> decide

/-- The part of what stands in an element of this type that the schema has a say in. An
extension is not looked into. -/
def examined (kind : NodeType) (nodes : List Markup.Node) : List Markup.Node :=
  if kind = .extension then [] else nodes

theorem examined_of_ne {kind : NodeType} (h : kind ≠ .extension) (nodes : List Markup.Node) :
    kind.examined nodes = nodes :=
  if_neg h

end NodeType

namespace Tree

/-! ### The elements that nodes are read from -/

/-- All elements that are read as nodes have the property: the element itself and,
unless it is an extension, those in it. -/
inductive Sources (p : Element → Prop) : Element → Prop where
  | mk {e : Element} (root : p e)
      (inside : e.name ≠ NodeType.extension.name → ∀ c ∈ e.childElements, Sources p c) :
      Sources p e

theorem Sources.and {p q : Element → Prop} {e : Element} (hp : Sources p e)
    (hq : Sources q e) : Sources (fun x => p x ∧ q x) e := by
  induction hp with
  | mk root _ ih =>
      obtain ⟨hroot, inside⟩ := hq
      exact ⟨⟨root, hroot⟩, fun hname c hc => ih hname c hc (inside hname c hc)⟩

mutual

/-- What holds of all nodes of the markup holds of what nodes are read from. -/
theorem sources_of_all {p : Markup.Node → Prop} : ∀ {node : Markup.Node}, node.All p →
    ∀ e ∈ node.asElement?, Sources (fun x => x.toNode.All p) e
  | .element _ _ _, h, _, rfl => ⟨h, fun _ => sources_of_allNodes h.2⟩
  | .text _, _, _, he | .cdata _, _, _, he | .comment _, _, _, he => nomatch he

theorem sources_of_allNodes {p : Markup.Node → Prop} : ∀ {nodes : List Markup.Node},
    Markup.allNodes p nodes →
      ∀ e ∈ nodes.filterMap Markup.Node.asElement?, Sources (fun x => x.toNode.All p) e
  | [], _, _, he => nomatch he
  | node :: nodes, h, e, he => by
    rw [List.filterMap_cons] at he
    split at he
    · exact sources_of_allNodes h.2 e he
    · next first hfirst =>
        rcases List.mem_cons.1 he with rfl | he
        · exact sources_of_all h.1 e hfirst
        · exact sources_of_allNodes h.2 e he

end

mutual

/-- The elements that nodes are read from, in document order: an element, then those in
it unless it is an extension. -/
def sourcesOf : Markup.Node → List Element
  | .element name attributes nodes =>
    ⟨name, attributes, nodes⟩ ::
      if name = NodeType.extension.name then [] else sourcesOfAll nodes
  | .text _ | .cdata _ | .comment _ => []

def sourcesOfAll : List Markup.Node → List Element
  | [] => []
  | node :: nodes => sourcesOf node ++ sourcesOfAll nodes

end

def sources (e : Element) : List Element :=
  sourcesOf e.toNode

theorem sourcesOfAll_eq_flatMap (nodes : List Markup.Node) :
    sourcesOfAll nodes = (nodes.filterMap Markup.Node.asElement?).flatMap sources := by
  induction nodes with
  | nil => rfl
  | cons node nodes ih =>
      rw [sourcesOfAll, ih]
      cases node <;> rfl

theorem sources_eq {kind : NodeType} {e : Element} (h : kind.name = e.name) :
    sources e = e ::
      ((kind.examined e.children).filterMap Markup.Node.asElement?).flatMap sources := by
  obtain ⟨name, attributes, nodes⟩ := e
  subst h
  rw [sources, Element.toNode, sourcesOf]
  by_cases hk : kind = .extension
  · subst hk
    rfl
  · rw [if_neg fun hname => hk (NodeType.name_injective hname), NodeType.examined_of_ne hk,
      sourcesOfAll_eq_flatMap]

/-! ### Reading one element -/

variable {parent n m : Node Tree} {done : List Markup.Node}

theorem startNode_eq_ok_iff {tag : String} {attributes : AttributeList} :
    startNode tag attributes = .ok n ↔ ∃ kind, kind.name = tag ∧
      (∀ entry ∈ attributes, kind.Accepts entry) ∧
      n = ⟨kind, (Attributes.ofList kind.defaults).insertAll attributes, .ofClass kind.content⟩ := by
  rw [startNode]
  split
  · next h =>
      constructor
      · intro hread
        cases hread
      · rintro ⟨kind, rfl, -⟩
        rw [NodeType.ofName?_name] at h
        cases h
  · next kind h =>
      obtain rfl := NodeType.ofName?_eq_some_iff.1 h
      rw [mapError_eq_ok, Node.setAttributes_eq_ok_iff]
      constructor
      · exact fun hset => ⟨kind, rfl, hset⟩
      · rintro ⟨other, hname, hset⟩
        obtain rfl := NodeType.name_injective hname
        exact hset

/-- An element inside another one is read as it is on its own, then added. -/
theorem readChild_toNode (hp : parent.kind.content ≠ .rawXml) (e : Element) :
    readChild parent e.toNode =
      ofElement e >>= fun u => (parent.addChild u.kind u).mapError .schema := by
  rw [Element.toNode, readChild, if_neg hp, ofElement]
  cases startNode e.name e.attributes with
  | error e => rfl
  | ok start =>
      show readChildren start e.children >>= _ = (readChildren start e.children >>= _) >>= _
      cases readChildren start e.children <;> rfl

/-- The node holds what was read of `done`, the first children of its element. -/
structure Filled (done : List Markup.Node) (n : Node Tree) : Prop where
  body : n.body.content = n.kind.content
  content : n.content? = ((n.kind.examined done).filterMap Markup.Node.visibleText?).getLast?
  fragments : n.fragments = if n.kind = .extension then done else []
  children : List.Forall₂ (fun c t => ofElement c = .ok t)
    ((n.kind.examined done).filterMap Markup.Node.asElement?) n.children

theorem filled_ofClass (kind : NodeType) (attributes : Attributes) :
    Filled [] ⟨kind, attributes, .ofClass kind.content⟩ where
  body := Body.content_ofClass kind.content
  content := by cases kind <;> rfl
  fragments := by cases kind <;> rfl
  children := by cases kind <;> exact .nil

/-- The text that is held is not blank. -/
theorem Filled.visible (h : Filled done n) :
    ∀ text ∈ n.content?, text.toList.all Text.isSpace = false := by
  intro text htext
  rw [Option.mem_def, h.content] at htext
  obtain ⟨child, -, hchild⟩ := List.mem_filterMap.1 (List.mem_of_getLast? htext)
  exact Markup.Node.visible_of_visibleText? hchild

/-- Every child comes from an element in an element other than an extension. -/
theorem Filled.source (h : Filled done n) : ∀ t ∈ n.children, n.kind ≠ .extension ∧
    ∃ c ∈ done.filterMap Markup.Node.asElement?, ofElement c = .ok t := by
  intro t ht
  obtain ⟨c, hc, hread⟩ := exists_of_forall₂ h.children t ht
  by_cases hn : n.kind = .extension
  · rw [hn] at hc
    exact absurd hc List.not_mem_nil
  · rw [NodeType.examined_of_ne hn] at hc
    exact ⟨hn, c, hc, hread⟩

/-- What is passed over in an element other than an extension makes no difference. -/
theorem Filled.skip (h : Filled done n) (hn : n.kind ≠ .extension) {child : Markup.Node}
    (htext : child.visibleText? = none) (helement : child.asElement? = none) :
    Filled (done ++ [child]) n where
  body := h.body
  content := by simpa [NodeType.examined_of_ne hn, htext] using h.content
  fragments := by rw [h.fragments, if_neg hn, if_neg hn]
  children := by simpa [NodeType.examined_of_ne hn, helement] using h.children

/-- Text replaces the text before it. -/
theorem Filled.setContent (h : Filled done n) (hn : n.kind ≠ .extension) {child : Markup.Node}
    {text : String} (htext : child.visibleText? = some text) (helement : child.asElement? = none)
    (hm : n.setContent text = .ok m) : Filled (done ++ [child]) m := by
  obtain ⟨hbody, rfl⟩ := Node.replaceContent_eq_ok hm
  have childless : n.children = [] := Node.children_eq_nil_of_content (by rw [hbody]; decide)
  refine ⟨hbody.symm.trans h.body, ?_, (if_neg hn).symm, ?_⟩
  · simp [NodeType.examined_of_ne hn, htext, Node.content?]
  · have read := h.children
    rw [childless] at read
    simpa [NodeType.examined_of_ne hn, helement, Node.children] using read

theorem Filled.addFragment (h : Filled done n) (hn : n.kind = .extension) {child : Markup.Node}
    (hm : n.addFragment child = .ok m) : Filled (done ++ [child]) m := by
  obtain ⟨hbody, rfl⟩ := Node.addFragment_eq_ok hm
  refine ⟨hbody.symm.trans h.body, ?_, ?_, ?_⟩
  · rw [hn]
    rfl
  · rw [h.fragments, if_pos hn, if_pos hn]
    rfl
  · rw [hn]
    exact .nil

theorem Filled.push (h : Filled done n) (hn : n.kind ≠ .extension) {e : Element} {t : Tree}
    (ht : ofElement e = .ok t) (hbody : n.body.content = .children) :
    Filled (done ++ [e.toNode]) (n.push t) := by
  refine ⟨?_, ?_, ?_, ?_⟩
  · rw [Node.content_push, Node.kind_push]
    exact h.body
  · rw [Node.content?_push, Node.kind_push, h.content]
    simp [NodeType.examined_of_ne hn, Element.toNode, Markup.Node.visibleText?]
  · rw [Node.fragments_push, Node.kind_push, h.fragments, if_neg hn, if_neg hn]
  · have read := List.rel_append h.children (List.Forall₂.cons ht .nil)
    rw [Node.kind_push, Node.children_push_of_content hbody]
    simpa [NodeType.examined_of_ne hn, Element.toNode, Markup.Node.asElement?] using read

/-- One child after the other fills the node, and changes nothing else. -/
theorem filled_of_readChild {child : Markup.Node} (h : Filled done n)
    (hread : readChild n child = .ok m) :
    Filled (done ++ [child]) m ∧ m.kind = n.kind ∧ m.attributes = n.attributes := by
  by_cases hn : n.kind.content = .rawXml
  · rw [readChild.eq_def, if_pos hn, mapError_eq_ok] at hread
    obtain ⟨-, hm⟩ := Node.addFragment_eq_ok hread
    exact ⟨h.addFragment (NodeType.content_eq_rawXml_iff.1 hn) hread, by rw [hm], by rw [hm]⟩
  · have hkind := mt NodeType.content_eq_rawXml_iff.2 hn
    cases child with
    | element tag attributes nodes =>
        have hadd := readChild_toNode hn ⟨tag, attributes, nodes⟩
        rw [Element.toNode] at hadd
        rw [hadd] at hread
        obtain ⟨t, ht, hread⟩ := bind_eq_ok.1 hread
        obtain ⟨u, hcheck, rfl⟩ := map_eq_ok.1 (mapError_eq_ok.1 hread)
        have hbody := h.body.trans (Node.permits_eq_true_imp (Node.checkChild_eq_ok hcheck))
        exact ⟨h.push hkind ht hbody, Node.kind_push _ _, Node.attributes_push _ _⟩
    | comment content =>
        rw [readChild, if_neg hn] at hread
        cases hread
        exact ⟨h.skip hkind rfl rfl, rfl, rfl⟩
    | text content | cdata content =>
        rw [readChild, if_neg hn] at hread
        split at hread
        · next hblank =>
            cases hread
            exact ⟨h.skip hkind (if_pos hblank) rfl, rfl, rfl⟩
        · next hblank =>
            have hset := mapError_eq_ok.1 hread
            obtain ⟨-, hm⟩ := Node.replaceContent_eq_ok hset
            exact ⟨h.setContent hkind (if_neg hblank) rfl hset, by rw [hm], by rw [hm]⟩

theorem filled_of_readChildren {nodes : List Markup.Node} (h : Filled done n)
    (hread : readChildren n nodes = .ok m) :
    Filled (done ++ nodes) m ∧ m.kind = n.kind ∧ m.attributes = n.attributes := by
  induction nodes generalizing n done with
  | nil =>
      rw [readChildren] at hread
      cases hread
      exact ⟨by rwa [List.append_nil], rfl, rfl⟩
  | cons child nodes ih =>
      rw [readChildren] at hread
      obtain ⟨mid, hmid, hread⟩ := bind_eq_ok.1 hread
      obtain ⟨hfilled, hkind, hattributes⟩ := filled_of_readChild h hmid
      obtain ⟨hm, hkind', hattributes'⟩ := ih hfilled hread
      rw [List.append_assoc, List.singleton_append] at hm
      exact ⟨hm, hkind'.trans hkind, hattributes'.trans hattributes⟩

/-- The node is what is read from the element. -/
structure ReadFrom (e : Element) (n : Node Tree) : Prop extends
    Filled e.children n where
  name : n.kind.name = e.name
  attributes : n.attributes = (Attributes.ofList n.kind.defaults).insertAll e.attributes

theorem readFrom_of_ofElement {e : Element} {t : Tree} (h : ofElement e = .ok t) :
    ReadFrom e t.node := by
  rw [ofElement] at h
  obtain ⟨start, hstart, h⟩ := bind_eq_ok.1 h
  obtain ⟨node, hnode, h⟩ := bind_eq_ok.1 h
  cases pure_eq_ok.1 h
  obtain ⟨kind, hname, -, rfl⟩ := startNode_eq_ok_iff.1 hstart
  obtain ⟨hfilled, hkind, hattributes⟩ := filled_of_readChildren (filled_ofClass kind _) hnode
  exact ⟨hfilled, by rwa [Tree.node_mk, hkind], by rw [Tree.node_mk, hattributes, hkind]⟩

/-- The nodes of a tree are read from the elements one by one. -/
theorem forall₂_readFrom_nodes {e : Element} {t : Tree} (h : ofElement e = .ok t) :
    List.Forall₂ ReadFrom (sources e) t.nodes := by
  induction t using Tree.induction generalizing e with
  | mk n ih =>
      have read := readFrom_of_ofElement h
      rw [nodes_mk, sources_eq read.name]
      have below := forall₂_imp_of_mem read.children fun c child hchild hc => ih child hchild hc
      exact .cons read (List.rel_flatMap below fun _ _ hnodes => hnodes)

/-- Reading starts from the defaults. -/
theorem ReadFrom.defaultsFirst {e : Element} {n : Node Tree} (h : ReadFrom e n) :
    n.DefaultsFirst := by
  rw [Node.DefaultsFirst, h.attributes, Attributes.names, Attributes.entries_insertAll,
    NodeType.entries_defaults]
  exact AttributeList.prefix_names_putAll _ _

/-- What the elements give to the nodes that are read from them, all nodes have. -/
theorem all_of_ofElement {p : Element → Prop} {q : Node Tree → Prop}
    (hpq : ∀ e n, p e → ReadFrom e n → q n) {e : Element} (he : Sources p e) {t : Tree}
    (h : ofElement e = .ok t) : t.All q := by
  induction he generalizing t with
  | @mk e root inside ih =>
      have hread := readFrom_of_ofElement h
      obtain ⟨n⟩ := t
      refine .mk (hpq e n root hread) fun child hchild => ?_
      obtain ⟨hn, c, hc, hchild⟩ := hread.source child hchild
      refine ih (fun hname => hn ?_) c hc hchild
      exact NodeType.name_injective (hread.name.trans hname)

theorem defaultsFirst_of_ofElement {e : Element} {t : Tree} (h : ofElement e = .ok t) :
    t.All Node.DefaultsFirst :=
  all_of_ofElement (p := fun x => x.toNode.All fun _ => True) (fun _ _ _ hn => hn.defaultsFirst)
    (sources_of_all (Markup.Node.all_of_forall (fun _ => trivial) e.toNode) e rfl) h

end Tree

end IncidentReport
