import IncidentReport.Proofs.Node.Valid
import IncidentReport.Tree.Report

/-!
Trees that obey the schema. Whatever is read from markup does: reading starts
from the defaults and goes on by checked edits.
-/

namespace IncidentReport.Tree

/-- The tree obeys the schema at every node, and every child is permitted where it
stands. -/
inductive Valid : Tree → Prop where
  | mk {node : Node Tree} (root : node.Valid)
      (permitted : ∀ child ∈ node.children, node.kind.permits child.kind = true)
      (below : ∀ child ∈ node.children, child.Valid) : Valid ⟨node⟩

theorem valid_new (kind : NodeType) : (Tree.new kind).Valid := by
  refine .mk (Node.new_valid kind) ?_ ?_ <;> rw [Node.children_new] <;> simp

theorem Valid.amend {n m : Node Tree} (h : Valid ⟨n⟩) (hm : n.Amends m) : Valid ⟨m⟩ := by
  obtain ⟨root, permitted, below⟩ := h
  refine .mk (hm.valid root) ?_ ?_ <;> rw [hm.children]
  · rwa [hm.kind]
  · exact below

theorem Valid.addChild {n m child : Node Tree} (h : Valid ⟨n⟩) (hchild : Valid ⟨child⟩)
    (hm : n.addChild child.kind ⟨child⟩ = .ok m) : Valid ⟨m⟩ ∧ m.kind = n.kind := by
  obtain ⟨root, permitted, below⟩ := h
  obtain ⟨u, hcheck, rfl⟩ := map_eq_ok.1 hm
  have hpermits := Node.checkChild_eq_ok hcheck
  have hc := Node.children_push_of_content
    (root.body.trans (Node.permits_eq_true_imp hpermits)) (⟨child⟩ : Tree)
  refine ⟨.mk (root.push _) ?_ ?_, Node.kind_push _ _⟩ <;>
    simp only [hc, List.forall_mem_append, List.forall_mem_singleton, Node.kind_push]
  · exact ⟨permitted, hpermits⟩
  · exact ⟨below, hchild⟩

theorem Valid.child {t child : Tree} (h : t.Valid) (hc : child ∈ t.children) : child.Valid := by
  obtain ⟨-, -, below⟩ := h
  exact below child hc

theorem Valid.permits {t child : Tree} (h : t.Valid) (hc : child ∈ t.children) :
    t.kind.permits child.kind = true := by
  obtain ⟨-, permitted, -⟩ := h
  exact permitted child hc

theorem Valid.withChildren {t : Tree} {ts : List Tree} (h : t.Valid)
    (permitted : ∀ child ∈ ts, t.kind.permits child.kind = true)
    (below : ∀ child ∈ ts, child.Valid) : Valid ⟨t.node.withChildren ts⟩ := by
  have subset := Node.children_withChildren_subset t.node ts
  refine .mk ?_ (fun child hchild => permitted child (subset child hchild))
    fun child hchild => below child (subset child hchild)
  obtain ⟨root, -, -⟩ := h
  exact root.withChildren ts

theorem Valid.definitions {t : Tree} (h : t.Valid) :
    ∀ child ∈ t.children.filter fun child => child.kind = .definition,
      child.Valid ∧ child.kind = .definition := by
  intro child hc
  obtain ⟨hc, hkind⟩ := List.mem_filter.1 hc
  exact ⟨h.child hc, by simpa using hkind⟩

/-! ### Reading -/

theorem valid_of_startNode {tag : String} {attributes : AttributeList} {n : Node Tree}
    (h : startNode tag attributes = .ok n) : Valid ⟨n⟩ := by
  rw [startNode] at h
  split at h
  · simp at h
  · next kind _ =>
      exact (valid_new kind).amend (Node.amends_setAttributes (mapError_eq_ok.1 h))

mutual

theorem valid_of_readChild : ∀ (child : Markup.Node) {parent n : Node Tree}, Valid ⟨parent⟩ →
    readChild parent child = .ok n → Valid ⟨n⟩ ∧ n.kind = parent.kind
  | child, parent, n, hp, h => by
    rw [readChild.eq_def] at h
    split at h
    · have amended := Node.amends_addFragment (mapError_eq_ok.1 h)
      exact ⟨hp.amend amended, amended.kind⟩
    · match child with
      | .comment _ =>
          simp only [Except.ok.injEq] at h
          exact h ▸ ⟨hp, rfl⟩
      | .text content | .cdata content =>
          dsimp only at h
          split at h
          · simp only [Except.ok.injEq] at h
            exact h ▸ ⟨hp, rfl⟩
          · have amended := Node.amends_replaceContent (mapError_eq_ok.1 h)
            exact ⟨hp.amend amended, amended.kind⟩
      | .element tag attributes nodes =>
          dsimp only at h
          obtain ⟨start, hs, h⟩ := bind_eq_ok.1 h
          obtain ⟨node, hn, h⟩ := bind_eq_ok.1 h
          exact hp.addChild (valid_of_readChildren nodes (valid_of_startNode hs) hn).1
            (mapError_eq_ok.1 h)

theorem valid_of_readChildren : ∀ (nodes : List Markup.Node) {parent n : Node Tree},
    Valid ⟨parent⟩ → readChildren parent nodes = .ok n → Valid ⟨n⟩ ∧ n.kind = parent.kind
  | [], parent, n, hp, h => by
    simp only [readChildren, Except.ok.injEq] at h
    exact h ▸ ⟨hp, rfl⟩
  | child :: nodes, parent, n, hp, h => by
    rw [readChildren] at h
    obtain ⟨mid, hm, h⟩ := bind_eq_ok.1 h
    obtain ⟨hmid, hk⟩ := valid_of_readChild child hp hm
    obtain ⟨hn, hk'⟩ := valid_of_readChildren nodes hmid h
    exact ⟨hn, hk'.trans hk⟩

end

/-- What is read from an element obeys the schema. -/
theorem valid_of_ofElement {e : Markup.Element} {t : Tree} (h : ofElement e = .ok t) :
    t.Valid := by
  rw [ofElement] at h
  obtain ⟨start, hs, h⟩ := bind_eq_ok.1 h
  obtain ⟨node, hn, h⟩ := bind_eq_ok.1 h
  rw [pure_eq_ok] at h
  exact h ▸ (valid_of_readChildren _ (valid_of_startNode hs) hn).1

end IncidentReport.Tree

namespace IncidentReport.Report

open IncidentReport.Tree

variable {e : Markup.Element} {t : Tree} {text : String}

theorem ofElement_eq_ok_iff :
    ofElement e = .ok t ↔ Tree.ofElement e = .ok t ∧ t.kind = .report := by
  rw [ofElement, bind_eq_ok]
  constructor
  · rintro ⟨u, hu, h⟩
    split at h
    · next hkind =>
        cases pure_eq_ok.1 h
        exact ⟨hu, hkind⟩
    · cases h
  · rintro ⟨ht, hkind⟩
    exact ⟨t, ht, if_pos hkind⟩

theorem parse_eq_ok_iff :
    parse text = .ok t ↔ ∃ e, Markup.Element.parse text = .ok e ∧ ofElement e = .ok t := by
  rw [parse, bind_eq_ok]
  simp only [mapError_eq_ok]

/-- What is read as a report obeys the schema and has the right root. -/
theorem valid_of_ofElement (h : ofElement e = .ok t) : t.Valid ∧ t.kind = .report := by
  obtain ⟨ht, hkind⟩ := ofElement_eq_ok_iff.1 h
  exact ⟨Tree.valid_of_ofElement ht, hkind⟩

theorem valid_of_parse (h : parse text = .ok t) : t.Valid ∧ t.kind = .report := by
  obtain ⟨e, -, h⟩ := parse_eq_ok_iff.1 h
  exact valid_of_ofElement h

end IncidentReport.Report
