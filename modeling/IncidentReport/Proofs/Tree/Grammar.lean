import IncidentReport.Forest.Document
import IncidentReport.Proofs.Tree.Reading

/-!
The markup that can be read as a tree. The schema is a grammar of elements, and what
breaks it stands in an order: the tag, the attributes, the children, and for each child
what is wrong inside it before it is asked whether it has a place. An element is read if
nothing is wrong with it; otherwise the first violation is the error.
-/

namespace IncidentReport

open Markup (Element)

namespace NodeType

/-- What is wrong with an attribute of an element of this type, if anything is. -/
def attributeViolation? (kind : NodeType) (entry : String × String) : Option Violation :=
  match kind.attribute? entry.1 with
  | none => some (.unknownAttribute kind entry.1)
  | some rule =>
    match rule.check kind entry.2 with
    | .ok _ => none
    | .error violation => some violation

theorem attributeViolation?_eq_none_iff {kind : NodeType} {entry : String × String} :
    kind.attributeViolation? entry = none ↔ kind.Accepts entry := by
  rw [attributeViolation?, Accepts]
  cases kind.attribute? entry.1 with
  | none => simp
  | some rule => cases h : rule.check kind entry.2 <;> simp [h]

/-- What is wrong with a child of type `child` under a node of this type. -/
def childViolations (kind child : NodeType) : List Violation :=
  if kind.permits child then [] else [kind.refusal child]

/-- What is wrong with text in an element of this type. -/
def textViolations (kind : NodeType) : List Violation :=
  if kind.content = .text then [] else [.contentMismatch kind .text kind.content]

end NodeType

namespace Tree

/-! ### The grammar -/

/-- The element can be read as a node. Its tag names a type, which accepts each of its
attributes; unless the type is that of extensions, text that is not blank stands in it
only if it is made for text, and the elements in it can be read and are permitted. -/
inductive Conforms : Element → Prop where
  | mk {e : Element} (kind : NodeType) (tag : kind.name = e.name)
      (attributes : ∀ entry ∈ e.attributes, kind.Accepts entry)
      (text : ∀ text ∈ (kind.examined e.children).filterMap Markup.Node.visibleText?,
        kind.content = .text)
      (permitted : ∀ c ∈ (kind.examined e.children).filterMap Markup.Node.asElement?,
        ∃ child : NodeType, child.name = c.name ∧ kind.permits child = true)
      (below : ∀ c ∈ (kind.examined e.children).filterMap Markup.Node.asElement?, Conforms c) :
      Conforms e

/-! ### The violations -/

/-- What is wrong with an element of this tag and these attributes, given what is wrong
with what stands in it. Without a type there is nothing else to be said. -/
def elementViolations (tag : String) (attributes : AttributeList)
    (inside : NodeType → List ParseError) : List ParseError :=
  match NodeType.ofName? tag with
  | none => [.unknownElement tag]
  | some kind => (attributes.filterMap kind.attributeViolation?).map .schema ++ inside kind

/-- What is wrong with the place of an element of this tag, if it has a type. -/
def placeViolations (kind : NodeType) (tag : String) : List ParseError :=
  match NodeType.ofName? tag with
  | none => []
  | some child => (kind.childViolations child).map .schema

mutual

/-- What is wrong with a node of the markup in an element of type `kind`. -/
def nodeViolations (kind : NodeType) (node : Markup.Node) : List ParseError :=
  if kind = .extension then []
  else
    match node with
    | .comment _ => []
    | .text _ | .cdata _ => if node.isBlank then [] else kind.textViolations.map .schema
    | .element tag attributes nodes =>
      elementViolations tag attributes (fun child => nodesViolations child nodes) ++
        placeViolations kind tag

def nodesViolations (kind : NodeType) : List Markup.Node → List ParseError
  | [] => []
  | node :: nodes => nodeViolations kind node ++ nodesViolations kind nodes

end

/-- All that is wrong with an element, in order. -/
def violations (e : Element) : List ParseError :=
  elementViolations e.name e.attributes fun kind => nodesViolations kind e.children

/-! ### No violation -/

/-- These nodes of the markup may stand in an element of this type. -/
def Proper (kind : NodeType) (nodes : List Markup.Node) : Prop :=
  (∀ text ∈ (kind.examined nodes).filterMap Markup.Node.visibleText?, kind.content = .text) ∧
    ∀ c ∈ (kind.examined nodes).filterMap Markup.Node.asElement?,
      (∃ child : NodeType, child.name = c.name ∧ kind.permits child = true) ∧ Conforms c

theorem conforms_iff {e : Element} :
    Conforms e ↔ ∃ kind : NodeType, kind.name = e.name ∧
      (∀ entry ∈ e.attributes, kind.Accepts entry) ∧ Proper kind e.children := by
  constructor
  · rintro ⟨kind, tag, attributes, text, permitted, below⟩
    exact ⟨kind, tag, attributes, text, fun c hc => ⟨permitted c hc, below c hc⟩⟩
  · rintro ⟨kind, tag, attributes, text, inside⟩
    exact ⟨kind, tag, attributes, text, fun c hc => (inside c hc).1, fun c hc => (inside c hc).2⟩

theorem proper_extension (nodes : List Markup.Node) : Proper .extension nodes :=
  ⟨nofun, nofun⟩

theorem proper_cons_iff {kind : NodeType} {node : Markup.Node} {nodes : List Markup.Node} :
    Proper kind (node :: nodes) ↔ Proper kind [node] ∧ Proper kind nodes := by
  by_cases hk : kind = .extension
  · subst hk
    exact ⟨fun _ => ⟨proper_extension _, proper_extension _⟩, fun _ => proper_extension _⟩
  · simp only [Proper, NodeType.examined_of_ne hk]
    rw [← List.singleton_append, List.filterMap_append, List.filterMap_append]
    simp only [List.forall_mem_append]
    tauto

theorem proper_singleton_iff {kind : NodeType} (hk : kind ≠ .extension) {node : Markup.Node} :
    Proper kind [node] ↔ (∀ text, node.visibleText? = some text → kind.content = .text) ∧
      ∀ c, node.asElement? = some c →
        (∃ child : NodeType, child.name = c.name ∧ kind.permits child = true) ∧ Conforms c := by
  simp [Proper, NodeType.examined_of_ne hk]

theorem placeViolations_eq_nil_iff {kind : NodeType} {tag : String}
    (h : (NodeType.ofName? tag).isSome) :
    placeViolations kind tag = [] ↔
      ∃ child : NodeType, child.name = tag ∧ kind.permits child = true := by
  obtain ⟨child, hchild⟩ := Option.isSome_iff_exists.1 h
  rw [placeViolations, hchild]
  obtain rfl := NodeType.ofName?_eq_some_iff.1 hchild
  dsimp only
  rw [List.map_eq_nil_iff, NodeType.childViolations]
  constructor
  · intro hnil
    split at hnil
    · next hp => exact ⟨child, rfl, hp⟩
    · cases hnil
  · rintro ⟨other, hname, hp⟩
    obtain rfl := NodeType.name_injective hname
    exact if_pos hp

theorem elementViolations_eq_nil_iff {tag : String} {attributes : AttributeList}
    {inside : NodeType → List ParseError} :
    elementViolations tag attributes inside = [] ↔ ∃ kind : NodeType, kind.name = tag ∧
      (∀ entry ∈ attributes, kind.Accepts entry) ∧ inside kind = [] := by
  rw [elementViolations]
  split
  · next hnone =>
      refine ⟨nofun, ?_⟩
      rintro ⟨kind, rfl, -⟩
      rw [NodeType.ofName?_name] at hnone
      cases hnone
  · next kind hkind =>
      obtain rfl := NodeType.ofName?_eq_some_iff.1 hkind
      rw [List.append_eq_nil_iff, List.map_eq_nil_iff, List.filterMap_eq_nil_iff]
      simp only [NodeType.attributeViolation?_eq_none_iff]
      constructor
      · exact fun h => ⟨kind, rfl, h⟩
      · rintro ⟨other, hname, h⟩
        obtain rfl := NodeType.name_injective hname
        exact h

mutual

theorem nodeViolations_eq_nil_iff : ∀ (node : Markup.Node) {kind : NodeType},
    nodeViolations kind node = [] ↔ Proper kind [node]
  | node, kind => by
    by_cases hk : kind = .extension
    · subst hk
      rw [nodeViolations.eq_def, if_pos rfl]
      exact ⟨fun _ => proper_extension _, fun _ => rfl⟩
    · rw [nodeViolations.eq_def, if_neg hk, proper_singleton_iff hk]
      match node with
      | .comment _ => exact ⟨fun _ => ⟨nofun, nofun⟩, fun _ => rfl⟩
      | .text _ | .cdata _ =>
          rw [Markup.Node.visibleText?]
          split <;> simp_all [NodeType.textViolations, Markup.Node.asElement?]
      | .element tag attributes nodes =>
          have inside : elementViolations tag attributes
              (fun child => nodesViolations child nodes) = [] ↔ Conforms ⟨tag, attributes, nodes⟩ := by
            rw [elementViolations_eq_nil_iff, conforms_iff]
            simp only [nodesViolations_eq_nil_iff nodes]
          dsimp only
          rw [List.append_eq_nil_iff, inside]
          constructor
          · rintro ⟨conforms, place⟩
            refine ⟨nofun, fun c hc => ?_⟩
            obtain rfl := Option.some.inj hc
            -- The place of an element says nothing until the element has a type.
            obtain ⟨child, rfl, -⟩ := conforms_iff.1 conforms
            exact ⟨(placeViolations_eq_nil_iff (by simp)).1 place, conforms⟩
          · rintro ⟨-, below⟩
            obtain ⟨place, conforms⟩ := below _ rfl
            obtain ⟨child, rfl, -⟩ := conforms_iff.1 conforms
            exact ⟨conforms, (placeViolations_eq_nil_iff (by simp)).2 place⟩

theorem nodesViolations_eq_nil_iff : ∀ (nodes : List Markup.Node) {kind : NodeType},
    nodesViolations kind nodes = [] ↔ Proper kind nodes
  | [], kind => by simp [nodesViolations, Proper, NodeType.examined]
  | node :: nodes, kind => by
    rw [nodesViolations, List.append_eq_nil_iff, nodeViolations_eq_nil_iff node,
      nodesViolations_eq_nil_iff nodes]
    exact proper_cons_iff.symm

end

theorem violations_eq_nil_iff {e : Element} : violations e = [] ↔ Conforms e := by
  rw [violations, elementViolations_eq_nil_iff, conforms_iff]
  simp only [nodesViolations_eq_nil_iff]

/-! ### The first violation -/

section Node

variable {χ : Type} (n : Node χ)

theorem setAttribute_judged (name value : String) :
    Judged (n.setAttribute name value) (n.kind.attributeViolation? (name, value)).toList := by
  rw [Node.setAttribute, NodeType.attributeViolation?]
  cases n.kind.attribute? name with
  | none => exact .error _ []
  | some rule =>
      dsimp only
      cases rule.check n.kind value with
      | ok _ => exact .ok _
      | error violation => exact .error violation []

theorem setAttributes_judged (entries : AttributeList) :
    Judged (n.setAttributes entries) (entries.filterMap n.kind.attributeViolation?) := by
  induction entries generalizing n with
  | nil => exact .ok n
  | cons entry rest ih =>
      obtain ⟨name, value⟩ := entry
      have both := (setAttribute_judged n name value).bind fun m hm => by
        have kind : m.kind = n.kind := by rw [(Node.setAttribute_eq_ok hm).2]
        have others := ih m
        rw [kind] at others
        exact others
      rw [List.filterMap_cons]
      cases h : n.kind.attributeViolation? (name, value) <;> rw [h] at both <;> exact both

theorem addChild_judged (kind : NodeType) (child : χ) :
    Judged (n.addChild kind child) (n.kind.childViolations kind) := by
  rw [Node.addChild, Node.checkChild_eq, NodeType.childViolations]
  split
  · exact .ok _
  · exact .error _ []

theorem setContent_judged (hbody : n.body.content = n.kind.content) (text : String) :
    Judged (n.setContent text) n.kind.textViolations := by
  rw [Node.setContent, Node.replaceContent, Node.mismatch, NodeType.textViolations, ← hbody]
  cases hn : n.body with
  | text => exact .ok _
  | empty | children | foreign => exact .error _ []

theorem addFragment_judged (hbody : n.body.content = .rawXml) (fragment : Markup.Node) :
    Judged (n.addFragment fragment) [] := by
  rw [Node.addFragment]
  cases hn : n.body with
  | foreign => exact .ok _
  | empty | children | text =>
      rw [hn] at hbody
      cases hbody

end Node

/-- What is wrong inside an element comes behind what is wrong with its own tag and
attributes. -/
theorem element_judged {nodes : List Markup.Node}
    (inside : ∀ {start : Node Tree}, Valid ⟨start⟩ →
      Judged (readChildren start nodes) (nodesViolations start.kind nodes))
    (tag : String) (attributes : AttributeList) :
    Judged (startNode tag attributes >>= fun start => readChildren start nodes)
      (elementViolations tag attributes fun kind => nodesViolations kind nodes) := by
  rw [startNode, elementViolations]
  cases NodeType.ofName? tag with
  | none => exact .error _ []
  | some kind =>
      refine ((setAttributes_judged (Node.new kind) attributes).mapError ParseError.schema).bind
        fun start hstart => ?_
      have amended := Node.amends_setAttributes (mapError_eq_ok.1 hstart)
      have others := inside ((valid_new kind).amend amended)
      rwa [amended.kind] at others

mutual

theorem readChild_judged : ∀ (child : Markup.Node) {n : Node Tree}, Valid ⟨n⟩ →
    Judged (readChild n child) (nodeViolations n.kind child)
  | child, n, hn => by
    obtain ⟨root, -, -⟩ := id hn
    rw [readChild.eq_def, nodeViolations.eq_def]
    by_cases hk : n.kind = .extension
    · rw [if_pos (NodeType.content_eq_rawXml_iff.2 hk), if_pos hk]
      have hbody := root.body.trans (NodeType.content_eq_rawXml_iff.2 hk)
      exact (addFragment_judged n hbody child).mapError ParseError.schema
    · rw [if_neg (mt NodeType.content_eq_rawXml_iff.1 hk), if_neg hk]
      match child with
      | .comment _ => exact .ok n
      | .text _ | .cdata _ =>
          dsimp only
          split
          · exact .ok n
          · exact (setContent_judged n root.body _).mapError ParseError.schema
      | .element tag attributes nodes =>
          have inside := element_judged (fun h => readChildren_judged nodes h) tag attributes
          dsimp only
          rw [← bind_assoc]
          refine inside.bind fun node hnode => ?_
          obtain ⟨start, hstart, hread⟩ := bind_eq_ok.1 hnode
          obtain ⟨kind, rfl, -, hkind⟩ := startNode_eq_ok_iff.1 hstart
          have same : node.kind = kind := by
            rw [(valid_of_readChildren nodes (valid_of_startNode hstart) hread).2, hkind]
          rw [placeViolations, NodeType.ofName?_name, same]
          exact (addChild_judged n kind _).mapError ParseError.schema

theorem readChildren_judged : ∀ (nodes : List Markup.Node) {n : Node Tree}, Valid ⟨n⟩ →
    Judged (readChildren n nodes) (nodesViolations n.kind nodes)
  | [], n, _ => by
    rw [readChildren, nodesViolations]
    exact .ok n
  | child :: nodes, n, hn => by
    rw [readChildren, nodesViolations]
    refine (readChild_judged child hn).bind fun m hm => ?_
    obtain ⟨hvalid, hkind⟩ := valid_of_readChild child hn hm
    have rest := readChildren_judged nodes hvalid
    rwa [hkind] at rest

end

/-- An element is read up to the first violation. -/
theorem ofElement_judged (e : Element) : Judged (ofElement e) (violations e) := by
  have inside := element_judged (fun h => readChildren_judged e.children h) e.name e.attributes
  rw [violations, ofElement, ← List.append_nil (elementViolations _ _ _), ← bind_assoc]
  exact inside.bind fun n _ => Judged.ok (ε := ParseError) (Tree.mk n)

/-! ### Reading -/

/-- What is wrong with an element as the root of a report, if it has a type. -/
def rootViolations (e : Element) : List ParseError :=
  match NodeType.ofName? e.name with
  | none => []
  | some kind => if kind = .report then [] else [.notAReport kind]

/-- The tree is what an element comes to. Its attributes are the defaults with those of
the element written over them, the last of each name. The children are what the
elements in it come to, in order; an extension has none and keeps all as it is. -/
structure ReadAs (e : Element) (t : Tree) : Prop where
  kind : t.kind.name = e.name
  attributes : ∀ name, t.attribute? name =
    (AttributeList.get? e.attributes.reverse name).or (AttributeList.get? t.kind.defaults name)
  children : List.Forall₂ (fun c child => ofElement c = .ok child)
    ((t.kind.examined e.children).filterMap Markup.Node.asElement?) t.children
  content : t.node.content? =
    ((t.kind.examined e.children).filterMap Markup.Node.visibleText?).getLast?
  fragments : t.node.fragments = if t.kind = .extension then e.children else []

/-- How an element is read, as a tree and as a report. -/
structure ByGrammar (e : Element) : Prop where
  /-- What is read is what conforms to the grammar. -/
  accepted : (∃ t, ofElement e = .ok t) ↔ Conforms e
  /-- The error is the first violation. -/
  judged : Judged (ofElement e) (violations e)
  result : ∀ t, ofElement e = .ok t → ReadAs e t
  /-- As a report it is read if it is one, and into the same tree. -/
  report : ∀ t, Report.ofElement e = .ok t ↔
    ofElement e = .ok t ∧ e.name = NodeType.report.name
  document : ∀ f : Forest, (∃ made, Document.ofElement f e = .ok made) ↔
    Conforms e ∧ e.name = NodeType.report.name
  /-- That it is not one is said when nothing else is wrong with it. -/
  documentJudged : ∀ f : Forest, Judged (Document.ofElement f e) (violations e ++ rootViolations e)

theorem readAs_of_ofElement {e : Element} {t : Tree} (h : ofElement e = .ok t) : ReadAs e t where
  kind := (readFrom_of_ofElement h).name
  attributes name := by
    rw [attribute?, Node.attribute?, (readFrom_of_ofElement h).attributes, Attributes.get?,
      Attributes.entries_insertAll, AttributeList.get?_putAll, NodeType.entries_defaults]
    rfl
  children := (readFrom_of_ofElement h).children
  content := (readFrom_of_ofElement h).content
  fragments := (readFrom_of_ofElement h).fragments

theorem report_judged (e : Element) :
    Judged (Report.ofElement e) (violations e ++ rootViolations e) := by
  refine (ofElement_judged e).bind fun t ht => ?_
  rw [rootViolations, ← (readAs_of_ofElement ht).kind, NodeType.ofName?_name]
  dsimp only
  split
  · exact .ok t
  · exact .error _ []

/-- What conforms to the grammar is read, all else is refused with its first
violation. -/
theorem ofElement_byGrammar (e : Element) : ByGrammar e := by
  have accepted : (∃ t, ofElement e = .ok t) ↔ Conforms e :=
    (ofElement_judged e).exists_ok_iff.trans violations_eq_nil_iff
  have report : ∀ t, Report.ofElement e = .ok t ↔
      ofElement e = .ok t ∧ e.name = NodeType.report.name := by
    intro t
    rw [Report.ofElement_eq_ok_iff]
    refine and_congr_right fun ht => ?_
    rw [← (readAs_of_ofElement ht).kind]
    exact ⟨congrArg NodeType.name, NodeType.name_injective⟩
  refine ⟨accepted, ofElement_judged e, fun t => readAs_of_ofElement, report, fun f => ?_,
    fun f => (report_judged e).map⟩
  rw [← accepted]
  constructor
  · rintro ⟨made, hmade⟩
    obtain ⟨t, ht, -⟩ := map_eq_ok.1 hmade
    obtain ⟨ht, hname⟩ := (report t).1 ht
    exact ⟨⟨t, ht⟩, hname⟩
  · rintro ⟨⟨t, ht⟩, hname⟩
    exact ⟨_, map_eq_ok.2 ⟨t, (report t).2 ⟨ht, hname⟩, rfl⟩⟩

/-- An attribute comes before what stands inside, and that before the place of it. -/
example : violations ⟨"incident", [("id", "a"), ("name", "b")],
    [.element "text" [] [.element "state" [("id", "c")] [.text "d"]]]⟩ =
    [.schema (.unknownAttribute .incident "name"),
      .schema (.contentMismatch .state .text .children),
      .schema (.contentMismatch .text .children .text),
      .schema (.childNotPermitted .incident .text)] := rfl

end Tree

end IncidentReport
