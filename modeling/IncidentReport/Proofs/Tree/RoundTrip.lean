import IncidentReport.Proofs.Markup.RoundTrip
import IncidentReport.Proofs.Tree.Reading
import IncidentReport.Proofs.Tree.Same

/-!
Trees written as markup and read again. A tree that obeys the schema is read back as
its normal form: every node is, with the attributes in the same order if the defaults
were in front, and the markup in extensions is taken as it is.
-/

namespace IncidentReport.Tree

/-- The tree as it is read back. -/
def normal (t : Tree) : Tree :=
  t.map Node.normal

@[simp] theorem kind_normal (t : Tree) : t.normal.kind = t.kind :=
  kind_map Node.kind_normal t

/-- The second tree is what the first one is read back as. -/
structure Restored (t u : Tree) : Prop where
  kind : u.kind = t.kind
  same : u.same t.normal = true
  /-- With the defaults in front, even the order of attributes is the same. -/
  eq : t.All Node.DefaultsFirst → u = t.normal

variable {parent n : Node Tree} {k : Tree → Tree}

theorem normal_mk (n : Node Tree) :
    (⟨n⟩ : Tree).normal = ⟨n.normal.withChildren (n.children.map normal)⟩ := by
  rw [normal, map_mk]
  obtain ⟨kind, attributes, body⟩ := n
  cases body <;> rfl

/-! ### Reading what has been written -/

theorem addChild_of_permits {χ : Type} {parent : Node χ} {kind : NodeType}
    (h : parent.kind.permits kind = true) (child : χ) :
    parent.addChild kind child = .ok (parent.push child) := by
  rw [Node.addChild, Node.checkChild, if_neg (by simp [Node.permits_eq_true_imp h]),
    if_neg (by simp [h])]
  rfl

theorem readChildren_treeNodes {ts : List Tree} (hk : parent.kind.content = .children)
    (hb : parent.body.content = .children)
    (read : ∀ t ∈ ts, ofElement t.toElement = .ok (k t))
    (permitted : ∀ t ∈ ts, parent.kind.permits (k t).kind = true) :
    readChildren parent (treeNodes ts) =
      .ok (parent.withChildren (parent.children ++ ts.map k)) := by
  induction ts generalizing parent with
  | nil => simp [treeNodes, readChildren]
  | cons t ts ih =>
      obtain ⟨ht, hts⟩ := List.forall_mem_cons.1 read
      obtain ⟨hpermits, hrest⟩ := List.forall_mem_cons.1 permitted
      have first : readChild parent t.toElement.toNode = .ok (parent.push (k t)) := by
        rw [readChild_toNode (by simp [hk]), ht]
        exact congrArg (Except.mapError ParseError.schema) (addChild_of_permits hpermits (k t))
      rw [treeNodes, readChildren, first]
      show readChildren (parent.push (k t)) (treeNodes ts) = _
      rw [ih (by simpa using hk) (by simpa using hb) hts (by simpa using hrest),
        Node.withChildren_push, Node.children_push_of_content hb]
      simp

/-- An extension takes everything as it is. -/
theorem readChildren_fragments {kind : NodeType} (hk : kind.content = .rawXml)
    (attributes : Attributes) (held nodes : List Markup.Node) :
    readChildren ⟨kind, attributes, .foreign held⟩ nodes =
      .ok ⟨kind, attributes, .foreign (held ++ nodes)⟩ := by
  induction nodes generalizing held with
  | nil => rw [readChildren, List.append_nil]
  | cons node nodes ih =>
      have first : readChild ⟨kind, attributes, .foreign held⟩ node =
          .ok ⟨kind, attributes, .foreign (held ++ [node])⟩ := by
        rw [readChild.eq_def, if_pos hk]
        rfl
      rw [readChildren, first]
      show readChildren ⟨kind, attributes, .foreign (held ++ [node])⟩ nodes = _
      rw [ih (held ++ [node]), List.append_assoc, List.singleton_append]

theorem readChildren_text {kind : NodeType} (hk : kind.content = .text)
    (attributes : Attributes) (content : Option String) :
    readChildren ⟨kind, attributes, .text none⟩ (bodyNodes (.text content)) =
      .ok ⟨kind, attributes, .text (content.filter fun text => !text.toList.all Text.isSpace)⟩ := by
  cases content with
  | none => rfl
  | some text =>
      rw [bodyNodes, Option.map_some, Option.toList_some, readChildren, readChild,
        if_neg (by simp [hk]), Markup.Node.isBlank, Option.filter_some]
      cases text.toList.all Text.isSpace <;> rfl

/-- What is inside an element of a valid node is read as the node holds it, its text
apart if it is blank. -/
theorem readChildren_bodyNodes (hn : n.Valid) (attributes : Attributes)
    (read : ∀ t ∈ n.children, ofElement t.toElement = .ok (k t))
    (permitted : ∀ t ∈ n.children, n.kind.permits (k t).kind = true) :
    readChildren ⟨n.kind, attributes, .ofClass n.kind.content⟩ (bodyNodes n.body) =
      .ok ({ n.normal with attributes := attributes }.withChildren (n.children.map k)) := by
  have hcontent := hn.body.symm
  obtain ⟨kind, before, body⟩ := n
  dsimp only at hcontent ⊢
  rw [hcontent]
  cases body with
  | empty => rfl
  | children ts => exact readChildren_treeNodes hcontent rfl read permitted
  | text content => exact readChildren_text hcontent attributes content
  | foreign fragments => exact readChildren_fragments hcontent attributes [] fragments

/-- A tree that obeys the schema is read back. -/
theorem ofElement_toElement {t : Tree} (ht : t.Valid) :
    ∃ u, ofElement t.toElement = .ok u ∧ Restored t u := by
  induction ht with
  | @mk n root permitted below ih =>
      choose! k hread hrestored using ih
      have permits : ∀ c ∈ n.children, n.kind.permits (k c).kind = true := fun c hc => by
        rw [(hrestored c hc).kind]
        exact permitted c hc
      let attributes := (Attributes.ofList n.kind.defaults).insertAll n.attributes.published.entries
      refine ⟨⟨{ n.normal with attributes := attributes }.withChildren (n.children.map k)⟩, ?_, ?_⟩
      · have started : startNode n.kind.name n.attributes.published.entries =
            .ok ⟨n.kind, attributes, .ofClass n.kind.content⟩ :=
          startNode_eq_ok_iff.2 ⟨n.kind, rfl, root.accepts_published, rfl⟩
        obtain ⟨kind, before, body⟩ := n
        rw [ofElement, toElement, ← Attributes.entries_published, started]
        show readChildren _ (bodyNodes body) >>= _ = _
        rw [readChildren_bodyNodes root attributes hread permits]
        rfl
      · have alike : ({ n.normal with attributes := attributes } : Node Tree).Alike n.normal :=
          ⟨rfl, Attributes.same_iff.1 root.same_published, rfl⟩
        refine ⟨rfl, ?_, fun hfirst => ?_⟩
        · rw [normal_mk]
          refine same_withChildren alike ?_
          rw [List.forall₂_map_left_iff, List.forall₂_map_right_iff, List.forall₂_same]
          exact fun c hc => (hrestored c hc).same
        · have inOrder : attributes = n.normal.attributes := hfirst.root.insertAll_published
          have children : n.children.map k = n.children.map normal :=
            List.map_congr_left fun c hc => (hrestored c hc).eq (hfirst.child hc)
          rw [normal_mk, inOrder, children]

end IncidentReport.Tree

namespace IncidentReport.Report

/-- What is written out is read back as the element with its texts joined. -/
theorem parse_printDocument {e : Markup.Element} (plain : e.toNode.All Markup.Node.PlainNames)
    (enclosed : e.toNode.All Markup.Node.Enclosed) :
    parse e.printDocument = ofElement e.joined := by
  rw [parse, Markup.parse_printDocument plain enclosed]
  rfl

end IncidentReport.Report
