import IncidentReport.Proofs.Tree.RoundTrip

/-!
What is left of the text of an element. Text in an element may come in several pieces, as a
comment, a CDATA section or an instruction that is passed over parts it. Each piece replaces
the one before it, so a text node holds the last piece, and all of the text only if it comes
in one piece.
-/

namespace IncidentReport

open Markup (Element)

namespace Markup.Element

/-- The text in an element piece by piece, without what is blank. -/
def pieces (e : Element) : List String :=
  e.children.filterMap Node.visibleText?

/-- All the text in an element, without what is blank; `none` if there is no such text. -/
def text? (e : Element) : Option String :=
  if e.pieces.isEmpty then none else some (String.join e.pieces)

theorem length_pos_of_mem_pieces {e : Element} : ∀ piece ∈ e.pieces, 0 < piece.length := by
  intro piece hpiece
  obtain ⟨node, -, hnode⟩ := List.mem_filterMap.1 hpiece
  have visible := Node.visible_of_visibleText? hnode
  rw [← String.length_toList, List.length_pos_iff]
  intro hnil
  rw [hnil] at visible
  cases visible

/-- The last piece is all of the text if there is no other piece. -/
theorem getLast?_pieces_eq_text?_iff {e : Element} :
    e.pieces.getLast? = e.text? ↔ e.pieces.length ≤ 1 := by
  have visible := e.length_pos_of_mem_pieces
  rw [text?]
  rcases List.eq_nil_or_concat e.pieces with hnil | ⟨before, last, hsplit⟩
  · simp [hnil]
  · rw [List.concat_eq_append] at hsplit
    rw [hsplit] at visible ⊢
    cases before with
    | nil => simp
    | cons first before =>
        have hfirst : 0 < first.length := visible first (by simp)
        have longer : last ≠ String.join (first :: before ++ [last]) := by
          intro heq
          have hlength := congrArg String.length heq
          simp only [List.cons_append, String.join_cons, String.join_append, String.join_nil,
            String.length_append] at hlength
          omega
        rw [List.getLast?_append]
        simpa using longer

end Markup.Element

namespace Tree

/-- The node holds the last piece of the text in the element. -/
structure HoldsLast (e : Element) (n : Node Tree) : Prop where
  content : n.content? = e.pieces.getLast?
  /-- This is all of the text if and only if there is no more than one piece. -/
  whole : n.content? = e.text? ↔ e.pieces.length ≤ 1

theorem ReadFrom.holdsLast {e : Element} {n : Node Tree} (h : ReadFrom e n)
    (hn : n.kind ≠ .extension) : HoldsLast e n := by
  have content := h.content
  rw [NodeType.examined_of_ne hn] at content
  refine ⟨content, ?_⟩
  rw [content]
  exact Element.getLast?_pieces_eq_text?_iff

/-- The elements of text, in document order. -/
def textElements (e : Element) : List Element :=
  (sources e).filter (·.name = NodeType.text.name)

def textNodes (t : Tree) : List (Node Tree) :=
  t.nodes.filter (·.kind = .text)

/-- The text nodes of what is read hold the last pieces of the text in their elements. -/
theorem textNodes_holdLast {e : Element} {t : Tree} (h : ofElement e = .ok t) :
    List.Forall₂ HoldsLast (textElements e) t.textNodes := by
  have same : ∀ x n, ReadFrom x n →
      (decide (x.name = NodeType.text.name) = true ↔ decide (n.kind = .text) = true) := by
    intro x n hread
    rw [decide_eq_true_iff, decide_eq_true_iff, ← hread.name]
    exact ⟨fun hname => NodeType.name_injective hname, fun hkind => by rw [hkind]⟩
  apply forall₂_imp_of_mem (List.rel_filter (fun x n => same x n) (forall₂_readFrom_nodes h))
  intro x n hn hread
  have hkind : n.kind = .text := by simpa using (List.mem_filter.1 hn).2
  exact hread.holdsLast (by simp [hkind])

/-- A report with a text that a comment parts. -/
def partedReport : Element :=
  ⟨"report", [], [.element "incident" [] [.element "reason" []
    [.element "text" [] [.text "a", .comment " c ", .text "b"]]]]⟩

theorem textNodes_holdLast_partedReport :
    ∃ t, ofElement partedReport = .ok t ∧
      List.Forall₂ HoldsLast (textElements partedReport) t.textNodes := by
  have read : ofElement partedReport = .ok _ := rfl
  exact ⟨_, read, textNodes_holdLast read⟩

/-- The first piece of the text is lost. -/
theorem parse_partedReport_loses :
    ∃ t, Report.parse partedReport.printDocument = .ok t ∧
      t.textNodes.map Node.content? = [some "b"] ∧
      (textElements partedReport).map Element.text? = [some "ab"] := by
  have hread : Report.parse partedReport.printDocument = .ok _ :=
    (Report.parse_printDocument (by decide) (by decide)).trans rfl
  exact ⟨_, hread, rfl, by decide⟩

end Tree

end IncidentReport
