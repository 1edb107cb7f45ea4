import IncidentReport.Proofs.Markup.Assembly

/-!
Writing a tree and reading it again. What is read is the normal form of what was
written, and what can be read at all has no comment and no CDATA section with its
own end in it; so a tree comes back as it was if and only if it is its own normal
form and has none of these either.
-/

namespace IncidentReport.Markup

open Text

/-- The node comes back when it is written and read: a text is not empty and stands
next to no other text, and a comment or a CDATA section does not have its own end
in it. -/
def Node.Faithful (node : Node) : Prop :=
  node.SeparatesTexts ∧ node.Enclosed

/-! ### What is written is read as its normal form -/

/-- What legible tokens spell is read as the element that they lead to. -/
theorem ofChars_of_legible {ts : List Token} (ht : Token.Legible ts)
    (hn : ∀ t ∈ ts.head?, t.isText = false) {e : Element}
    (htakes : Assembly.start.Takes ts ⟨[], some e⟩) :
    Element.ofChars (ts.flatMap Token.spelling) = .ok e := by
  have hwithout : withoutMark (ts.flatMap Token.spelling) = ts.flatMap Token.spelling := by
    have hfirst := ht.head?_spelling hn
    cases h : ts.flatMap Token.spelling with
    | nil => rfl
    | cons c cs =>
        rw [h] at hfirst
        obtain rfl := hfirst c rfl
        rfl
  obtain ⟨position, hrun⟩ := htakes 0
  rw [Element.ofChars, hwithout, Token.tokens_of_legible ht]
  simp only [hrun]
  rfl

/-- The declaration as a token. -/
def declarationToken : Token :=
  .instruction "xml version=\"1.0\" encoding=\"UTF-8\"".toList

theorem delimited_declaration : declarationToken.Delimited :=
  ⟨'?' :: ("xml version=\"1.0\" encoding=\"UTF-8\"".toList ++ ['?', '>']), rfl, fun _ => rfl⟩

theorem spelling_declaration : declarationToken.spelling = declaration.toList := by
  decide

variable {e : Element}

theorem legible_root (hp : e.toNode.All Node.PlainNames) (he : e.toNode.All Node.Enclosed) :
    Token.Legible e.toNode.tokens ∧ ∀ t ∈ e.toNode.tokens.head?, t.isText = false := by
  have h := legible_tokens rfl hp he .nil
  rwa [List.append_nil] at h

theorem parse_print (hp : e.toNode.All Node.PlainNames) (he : e.toNode.All Node.Enclosed) :
    Element.parse e.print = .ok e.joined := by
  obtain ⟨hlegible, hhead⟩ := legible_root hp he
  rw [Element.parse, Element.print_eq, String.toList_ofList, ← flatMap_spelling_tokens]
  exact ofChars_of_legible hlegible hhead (takes_root hp)

theorem parse_printDocument (hp : e.toNode.All Node.PlainNames)
    (he : e.toNode.All Node.Enclosed) : Element.parse e.printDocument = .ok e.joined := by
  obtain ⟨hlegible, -⟩ := legible_root hp he
  have htext : e.printDocument.toList =
      (declarationToken :: e.toNode.tokens).flatMap Token.spelling := by
    rw [Element.printDocument, String.toList_append, Element.print_eq, String.toList_ofList,
      List.flatMap_cons, spelling_declaration, flatMap_spelling_tokens]
  rw [Element.parse, htext]
  refine ofChars_of_legible (.markup delimited_declaration hlegible) ?_ ?_
  · simp [declarationToken, Token.isText]
  · exact .cons (fun _ => rfl) (takes_root hp)

/-! ### The normal form is written as the tree is -/

theorem nodesChars_append (nodes others : List Node) :
    nodesChars (nodes ++ others) = nodesChars nodes ++ nodesChars others := by
  induction nodes with
  | nil => rfl
  | cons node nodes ih => rw [List.cons_append, nodesChars, nodesChars, ih, List.append_assoc]

theorem nodesChars_textNodes (pending : List Char) :
    nodesChars (textNodes pending) = escape pending := by
  cases pending with
  | nil => rfl
  | cons c cs => simp [textNodes, nodesChars, Node.chars]

/-- No text that was read vanishes from between the tags. -/
theorem isEmpty_joinTexts : ∀ {nodes : List Node} (pending : List Char),
    allNodes Node.AsRead nodes →
      (joinTexts pending nodes).isEmpty = (pending.isEmpty && nodes.isEmpty)
  | [], pending, _ => by cases pending <;> rfl
  | .text content :: nodes, pending, h => by
    have hne : content.toList ≠ [] := fun hnil => h.1 (String.toList_eq_nil_iff.1 hnil)
    rw [joinTexts, isEmpty_joinTexts _ h.2]
    simp [hne]
  | .element _ _ _ :: _, pending, _ | .cdata _ :: _, pending, _ | .comment _ :: _, pending, _ => by
    simp [joinTexts]

/-- Texts next to each other are written as the text that they are read as. -/
theorem nodesChars_joinTexts : ∀ {nodes : List Node} (pending : List Char),
    allNodes Node.AsRead nodes →
      nodesChars (joinTexts pending nodes) = escape pending ++ nodesChars nodes
  | [], pending, _ => by rw [joinTexts, nodesChars_textNodes, nodesChars, List.append_nil]
  | .text content :: nodes, pending, h => by
    rw [joinTexts, nodesChars_joinTexts _ h.2, escape_append, List.append_assoc]
    rfl
  | .element name attributes children :: nodes, pending, h => by
    have inside : nodesChars (joinTexts [] children) = nodesChars children :=
      nodesChars_joinTexts [] h.1.2
    rw [joinTexts, nodesChars_append, nodesChars_textNodes, nodesChars, nodesChars, Node.joined,
      Node.chars, Node.chars, isEmpty_joinTexts [] h.1.2, inside, nodesChars_joinTexts [] h.2]
    rfl
  | .cdata content :: nodes, pending, h => by
    rw [joinTexts, nodesChars_append, nodesChars_textNodes, nodesChars,
      nodesChars_joinTexts [] h.2]
    rfl
  | .comment content :: nodes, pending, h => by
    rw [joinTexts, nodesChars_append, nodesChars_textNodes, nodesChars,
      nodesChars_joinTexts [] h.2]
    rfl

theorem printDocument_joined (h : e.toNode.All Node.AsRead) :
    e.joined.printDocument = e.printDocument := by
  have inside : nodesChars (joinTexts [] e.children) = nodesChars e.children :=
    nodesChars_joinTexts [] h.2
  rw [Element.printDocument, Element.printDocument, Element.print_eq, Element.print_eq,
    Element.joined, Element.toNode, Element.toNode, Node.chars, Node.chars,
    isEmpty_joinTexts [] h.2, inside]
  rfl

/-! ### What comes back -/

/-- A tree with plain names comes back as it was if and only if it is faithful in
all its parts, whether it is written on its own or as a document. -/
theorem parse_print_eq_ok_iff (hp : e.toNode.All Node.PlainNames) :
    (Element.parse e.print = .ok e ↔ e.toNode.All Node.Faithful) ∧
      (Element.parse e.printDocument = .ok e ↔ e.toNode.All Node.Faithful) := by
  have back : ∀ {text : String}, (e.toNode.All Node.Enclosed → Element.parse text = .ok e.joined) →
      (Element.parse text = .ok e ↔ e.toNode.All Node.Faithful) := by
    intro text hread
    rw [show Node.Faithful = fun n => n.SeparatesTexts ∧ n.Enclosed from rfl, Node.all_and,
      ← joined_eq_self_iff]
    constructor
    · intro h
      -- Whatever is read is enclosed, so the tree is, and then it is read as its normal form.
      have he := enclosed_of_parse h
      rw [hread he] at h
      exact ⟨Except.ok.inj h, he⟩
    · rintro ⟨hjoined, he⟩
      rw [hread he, hjoined]
  exact ⟨back (parse_print hp), back (parse_printDocument hp)⟩

/-- A note with the characters that are written with escapes, and with the ends of
comments and of CDATA sections where they end nothing. -/
theorem parse_print_note :
    Element.parse (Element.print ⟨"note", [("to", "<\"A\" & 'B'>")],
      [.comment "]]>", .text "-->", .cdata "a < b & c", .element "br" [] []]⟩) =
      .ok ⟨"note", [("to", "<\"A\" & 'B'>")],
        [.comment "]]>", .text "-->", .cdata "a < b & c", .element "br" [] []]⟩ := by
  refine (parse_print_eq_ok_iff ?_).1.2 ?_
  · exact ⟨⟨by decide, by decide, by decide⟩, trivial, trivial, trivial,
      ⟨⟨by decide, by decide, by decide⟩, trivial⟩, trivial⟩
  · refine ⟨⟨?_, trivial⟩, ⟨trivial, ?_⟩, ⟨?_, trivial⟩, ⟨trivial, ?_⟩,
      ⟨⟨?_, trivial⟩, trivial⟩, trivial⟩
    · simp [Node.SeparatesTexts, Node.isText]
    · rw [Node.Enclosed]; decide
    · rw [Node.SeparatesTexts]; decide
    · rw [Node.Enclosed]; decide
    · simp [Node.SeparatesTexts]

end IncidentReport.Markup
