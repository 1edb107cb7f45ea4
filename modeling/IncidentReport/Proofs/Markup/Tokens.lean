import IncidentReport.Proofs.Markup.AsRead
import IncidentReport.Proofs.Markup.StartTag

/-!
The tokens of what is written. Each piece of markup that is written is read up to
its own end, whatever follows, and a text is read up to the next piece; so the
text of a tree falls into the tokens that it was made of.
-/

namespace IncidentReport.Markup

open Text

/-! ### Tokens that are read as they are spelled -/

namespace Token

/-- Whether the token is text between pieces of markup. -/
def isText : Token → Bool
  | .text _ => true
  | _ => false

/-- The token is read as it is spelled, whatever follows. -/
def Delimited (t : Token) : Prop :=
  ∃ tail, t.spelling = '<' :: tail ∧ ∀ rest, readMarkup (tail ++ rest) = .ok (t, rest)

/-- Tokens that are read as they are spelled, one after another. -/
inductive Legible : List Token → Prop where
  | nil : Legible []
  | text {raw : List Char} {ts : List Token} (ne_nil : raw ≠ []) (plain : '<' ∉ raw)
      (next : ∀ t ∈ ts.head?, t.isText = false) (rest : Legible ts) : Legible (.text raw :: ts)
  | markup {t : Token} {ts : List Token} (delimited : t.Delimited) (rest : Legible ts) :
      Legible (t :: ts)

theorem tokens_cons {c : Char} {cs rest : List Char} {t : Token}
    (h : read c cs = .ok (t, rest)) :
    tokens (c :: cs) = (t :: (tokens rest).1, (tokens rest).2) := by
  rw [tokens]
  split
  · next hread =>
      rw [h] at hread
      cases hread
  · next hread =>
      rw [h] at hread
      cases hread
      rfl

/-- Markup follows a text, or nothing does. -/
theorem Legible.head?_spelling {ts : List Token} (ht : Legible ts)
    (hn : ∀ t ∈ ts.head?, t.isText = false) :
    ∀ c ∈ (ts.flatMap spelling).head?, c = '<' := by
  cases ht with
  | nil => simp
  | text _ _ _ _ => simp [Token.isText] at hn
  | markup delimited _ =>
      obtain ⟨tail, hs, -⟩ := delimited
      simp [hs]

/-- A text is read up to the next piece of markup. -/
theorem read_text {c : Char} {cs rest : List Char} (hc : c ≠ '<') (hcs : '<' ∉ cs)
    (hrest : ∀ d ∈ rest.head?, d = '<') :
    read c (cs ++ rest) = .ok (.text (c :: cs), rest) := by
  have hplain : ∀ d ∈ cs, (decide (d ≠ '<')) = true := fun d hd =>
    decide_eq_true fun h => hcs (h ▸ hd)
  have hstop : rest.takeWhile (· ≠ '<') = [] ∧ rest.dropWhile (· ≠ '<') = rest := by
    cases rest with
    | nil => exact ⟨rfl, rfl⟩
    | cons d rest =>
        obtain rfl := hrest d rfl
        exact ⟨rfl, rfl⟩
  rw [read, if_neg hc, List.takeWhile_append_of_pos hplain, List.dropWhile_append_of_pos hplain,
    hstop.1, hstop.2, List.append_nil]

/-- What is spelled is read. -/
theorem tokens_of_legible {ts : List Token} (ht : Legible ts) :
    tokens (ts.flatMap spelling) = (ts, none) := by
  induction ht with
  | nil => rw [List.flatMap_nil, tokens]
  | @text raw ts ne_nil plain next rest ih =>
      obtain ⟨c, cs, rfl⟩ := List.exists_cons_of_ne_nil ne_nil
      obtain ⟨hc, hcs⟩ := not_or.1 (mt List.mem_cons.2 plain)
      have hread := read_text (Ne.symm hc) hcs (rest.head?_spelling next)
      rw [List.flatMap_cons, spelling, List.cons_append, tokens_cons hread, ih]
  | @markup t ts delimited rest ih =>
      obtain ⟨tail, hs, hread⟩ := delimited
      have hfirst : read '<' (tail ++ ts.flatMap spelling) = .ok (t, ts.flatMap spelling) := by
        rw [read, if_pos rfl, hread]
      rw [List.flatMap_cons, hs, List.cons_append, tokens_cons hfirst, ih]

theorem delimited_cdata {content : List Char} (h : ¬ [']', ']', '>'] <:+: content) :
    (cdata content).Delimited := by
  refine ⟨['!', '[', 'C', 'D', 'A', 'T', 'A', '['] ++ content ++ [']', ']', '>'], rfl,
    fun rest => ?_⟩
  have hsplit := splitAt?_append (by decide) h rest
  show readCData (['[', 'C', 'D', 'A', 'T', 'A', '['] ++ content ++ [']', ']', '>'] ++ rest) = _
  rw [readCData, List.append_assoc, List.append_assoc, afterLead?_append, Option.bind_some,
    ← List.append_assoc, hsplit]

theorem delimited_comment {content : List Char} (h : ¬ ['-', '-', '>'] <:+: content) :
    (comment content).Delimited := by
  refine ⟨['!', '-', '-'] ++ content ++ ['-', '-', '>'], rfl, fun rest => ?_⟩
  have hsplit := splitAt?_append (by decide) h rest
  show readComment (['-', '-'] ++ content ++ ['-', '-', '>'] ++ rest) = _
  rw [readComment, List.append_assoc, List.append_assoc, afterLead?_append, Option.bind_some,
    ← List.append_assoc, hsplit]

variable {name : String} {attributes : AttributeList}

theorem readMarkup_of_startsPlainName {c : Char} (hc : startsPlainName c = true) (cs : List Char) :
    readMarkup (c :: cs) = readStartTag (c :: cs) := by
  have hne := ne_of_startsPlainName hc
  rw [readMarkup.eq_def]
  split <;> simp_all

theorem delimited_startTag (hn : isPlainName name = true)
    (ha : ∀ name ∈ attributes.names, isPlainName name = true) (closed : Bool) :
    (startTag (tagChars name attributes) closed).Delimited := by
  refine ⟨tagChars name attributes ++ (if closed then ['/', '>'] else ['>']), rfl, fun rest => ?_⟩
  have hread := readStartTag_tagChars hn ha closed rest
  obtain ⟨c, cs, heq, hc, -⟩ := exists_of_isPlainName hn
  rw [tagChars, heq] at hread ⊢
  simp only [List.cons_append] at hread ⊢
  rw [readMarkup_of_startsPlainName hc, hread]

theorem delimited_endTag (hn : isPlainName name = true) : (endTag name.toList).Delimited :=
  ⟨'/' :: name.toList ++ ['>'], rfl, readEndTag_name hn⟩

end Token

/-! ### The tokens of a tree -/

/-- Text as a token, if there is any. -/
def textTokens : List Char → List Token
  | [] => []
  | c :: cs => [.text (escape (c :: cs))]

mutual

def Node.tokens : Node → List Token
  | .element name attributes children =>
    if children.isEmpty then
      [.startTag (tagChars name attributes) true]
    else
      .startTag (tagChars name attributes) false :: nodesTokens [] children ++
        [.endTag name.toList]
  | .text content => textTokens content.toList
  | .cdata content => [.cdata content.toList]
  | .comment content => [.comment content.toList]

/-- The tokens of some nodes, one token for each run of text. The text that stands
before them is `pending`. -/
def nodesTokens (pending : List Char) : List Node → List Token
  | [] => textTokens pending
  | .text content :: nodes => nodesTokens (pending ++ content.toList) nodes
  | .element name attributes children :: nodes =>
    textTokens pending ++ ((Node.element name attributes children).tokens ++ nodesTokens [] nodes)
  | .cdata content :: nodes => textTokens pending ++ .cdata content.toList :: nodesTokens [] nodes
  | .comment content :: nodes =>
    textTokens pending ++ .comment content.toList :: nodesTokens [] nodes

end

/-- The names of an element are plain, and no two attributes have the same name. -/
def Node.PlainNames : Node → Prop
  | .element name attributes _ =>
    isPlainName name = true ∧ (∀ name ∈ attributes.names, isPlainName name = true) ∧
      attributes.names.Nodup
  | .text _ | .cdata _ | .comment _ => True

instance : DecidablePred Node.PlainNames
  | .element name attributes _ =>
    inferInstanceAs (Decidable (isPlainName name = true ∧
      (∀ name ∈ attributes.names, isPlainName name = true) ∧ attributes.names.Nodup))
  | .text _ | .cdata _ | .comment _ => .isTrue trivial

theorem flatMap_spelling_textTokens (pending : List Char) :
    (textTokens pending).flatMap Token.spelling = escape pending := by
  cases pending with
  | nil => rfl
  | cons c cs => simp [textTokens, Token.spelling]

mutual

/-- What is spelled by the tokens of a tree is the text of the tree. -/
theorem flatMap_spelling_tokens : ∀ node : Node, node.tokens.flatMap Token.spelling = node.chars
  | .element name attributes children => by
    rw [Node.tokens, Node.chars]
    split
    · simp [Token.spelling, tagChars]
    · simp [Token.spelling, tagChars, flatMap_spelling_nodesTokens children [], escape]
  | .text content => flatMap_spelling_textTokens content.toList
  | .cdata content => by simp [Node.tokens, Node.chars, Token.spelling]
  | .comment content => by simp [Node.tokens, Node.chars, Token.spelling]

theorem flatMap_spelling_nodesTokens : ∀ (nodes : List Node) (pending : List Char),
    (nodesTokens pending nodes).flatMap Token.spelling = escape pending ++ nodesChars nodes
  | [], pending => by simp [nodesTokens, nodesChars, flatMap_spelling_textTokens]
  | .text content :: nodes, pending => by
    rw [nodesTokens, flatMap_spelling_nodesTokens nodes, escape_append, nodesChars, Node.chars,
      List.append_assoc]
  | .element name attributes children :: nodes, pending => by
    rw [nodesTokens, List.flatMap_append, List.flatMap_append, flatMap_spelling_textTokens,
      flatMap_spelling_tokens, flatMap_spelling_nodesTokens nodes, nodesChars]
    rfl
  | .cdata content :: nodes, pending => by
    rw [nodesTokens, List.flatMap_append, flatMap_spelling_textTokens, List.flatMap_cons,
      flatMap_spelling_nodesTokens nodes, nodesChars]
    rfl
  | .comment content :: nodes, pending => by
    rw [nodesTokens, List.flatMap_append, flatMap_spelling_textTokens, List.flatMap_cons,
      flatMap_spelling_nodesTokens nodes, nodesChars]
    rfl

end

theorem legible_textTokens (pending : List Char) {ts : List Token} (ht : Token.Legible ts)
    (hn : ∀ t ∈ ts.head?, t.isText = false) : Token.Legible (textTokens pending ++ ts) := by
  cases pending with
  | nil => exact ht
  | cons c cs =>
      -- No character is escaped as `<`, so the text goes on up to the next token.
      refine .text (by simp [escape_eq_nil_iff]) (fun hmem => ?_) hn ht
      exact (ne_of_mem_escape hmem).1 rfl

mutual

theorem legible_tokens : ∀ {node : Node} {ts : List Token}, node.isText = false →
    node.All Node.PlainNames → node.All Node.Enclosed → Token.Legible ts →
      Token.Legible (node.tokens ++ ts) ∧ ∀ t ∈ (node.tokens ++ ts).head?, t.isText = false
  | .element name attributes children, ts, _, hp, he, ht => by
    obtain ⟨⟨hn, ha, -⟩, hp⟩ := hp
    obtain ⟨-, he⟩ := he
    rw [Node.tokens]
    split
    · exact ⟨.markup (Token.delimited_startTag hn ha true) ht, by simp [Token.isText]⟩
    · have hend : Token.Legible (.endTag name.toList :: ts) :=
        .markup (Token.delimited_endTag hn) ht
      have hinside := legible_nodesTokens [] hp he hend (by simp [Token.isText])
      rw [List.cons_append, List.cons_append, List.append_assoc]
      exact ⟨.markup (Token.delimited_startTag hn ha false) hinside, by simp [Token.isText]⟩
  | .cdata content, ts, _, _, he, ht =>
    ⟨.markup (Token.delimited_cdata he) ht, by simp [Node.tokens, Token.isText]⟩
  | .comment content, ts, _, _, he, ht =>
    ⟨.markup (Token.delimited_comment he) ht, by simp [Node.tokens, Token.isText]⟩

theorem legible_nodesTokens : ∀ {nodes : List Node} {ts : List Token} (pending : List Char),
    allNodes Node.PlainNames nodes → allNodes Node.Enclosed nodes → Token.Legible ts →
      (∀ t ∈ ts.head?, t.isText = false) → Token.Legible (nodesTokens pending nodes ++ ts)
  | [], ts, pending, _, _, ht, hn => legible_textTokens pending ht hn
  | .text content :: nodes, ts, pending, hp, he, ht, hn => by
    rw [nodesTokens]
    exact legible_nodesTokens _ hp.2 he.2 ht hn
  | .element name attributes children :: nodes, ts, pending, hp, he, ht, hn => by
    have hrest := legible_nodesTokens [] hp.2 he.2 ht hn
    obtain ⟨hfirst, hhead⟩ := legible_tokens rfl hp.1 he.1 hrest
    rw [nodesTokens, List.append_assoc, List.append_assoc]
    exact legible_textTokens pending hfirst hhead
  | .cdata content :: nodes, ts, pending, hp, he, ht, hn => by
    have hrest := legible_nodesTokens [] hp.2 he.2 ht hn
    rw [nodesTokens, List.append_assoc]
    exact legible_textTokens pending (.markup (Token.delimited_cdata he.1) hrest)
      (by simp [Token.isText])
  | .comment content :: nodes, ts, pending, hp, he, ht, hn => by
    have hrest := legible_nodesTokens [] hp.2 he.2 ht hn
    rw [nodesTokens, List.append_assoc]
    exact legible_textTokens pending (.markup (Token.delimited_comment he.1) hrest)
      (by simp [Token.isText])

end

end IncidentReport.Markup
