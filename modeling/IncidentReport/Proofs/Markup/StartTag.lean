import IncidentReport.Markup.Token.Read
import IncidentReport.Proofs.Markup.Escape
import IncidentReport.Proofs.Markup.Name

/-!
Tags that are written with plain names. The tag is read up to the bracket that was
written behind it, and its name and attributes are found again.
-/

namespace IncidentReport.Markup

open Text

/-- What stands in the start tag of an element, less a closing slash. -/
def tagChars (name : String) (attributes : AttributeList) : List Char :=
  name.toList ++ attributeChars attributes

variable {name : String} {attributes : AttributeList}

theorem attributeChars_cons (name value : String) (attributes : AttributeList) :
    attributeChars ((name, value) :: attributes) =
      ' ' :: (name.toList ++ '=' :: '"' ::
        (escape value.toList ++ '"' :: attributeChars attributes)) := by
  simp [attributeChars]

/-! ### Where a tag ends -/

theorem splitTag?_append {quote : Option Char} {cs : List Char} (h : '>' ∉ cs) (rest : List Char) :
    Token.splitTag? quote (cs ++ rest) =
      (Token.splitTag? (cs.foldl Token.quoteAfter quote) rest).map fun p => (cs ++ p.1, p.2) := by
  induction cs generalizing quote with
  | nil => simp
  | cons c cs ih =>
      obtain ⟨hc, hcs⟩ := not_or.1 (mt List.mem_cons.2 h)
      rw [List.cons_append, Token.splitTag?, if_neg (fun hend => hc hend.1.symm), ih hcs,
        Option.map_map]
      rfl

/-- Plain names open no quote. -/
theorem foldl_quoteAfter_none {cs : List Char} (h : ∀ c ∈ cs, c ≠ '"' ∧ c ≠ '\'') :
    cs.foldl Token.quoteAfter none = none := by
  induction cs with
  | nil => rfl
  | cons c cs ih =>
      obtain ⟨⟨hd, hs⟩, hcs⟩ := List.forall_mem_cons.1 h
      rw [List.foldl_cons, Token.quoteAfter, if_neg (by simp [hd, hs]), ih hcs]

/-- Escaped values close no quote. -/
theorem foldl_quoteAfter_some {q : Char} {cs : List Char} (h : q ∉ cs) :
    cs.foldl Token.quoteAfter (some q) = some q := by
  induction cs with
  | nil => rfl
  | cons c cs ih =>
      obtain ⟨hc, hcs⟩ := not_or.1 (mt List.mem_cons.2 h)
      rw [List.foldl_cons, Token.quoteAfter, if_neg (Ne.symm hc), ih hcs]

theorem ne_of_mem_plainName (h : isPlainName name = true) {d : Char} (hd : d ∈ tagMarks) :
    ∀ c ∈ name.toList, c ≠ d :=
  fun _ hc => ne_of_continuesPlainName (continuesPlainName_of_mem h hc) hd

theorem foldl_quoteAfter_name (h : isPlainName name = true) :
    name.toList.foldl Token.quoteAfter none = none :=
  foldl_quoteAfter_none fun c hc =>
    ⟨ne_of_mem_plainName h (by decide) c hc, ne_of_mem_plainName h (by decide) c hc⟩

theorem foldl_quoteAfter_attributeChars (h : ∀ name ∈ attributes.names, isPlainName name = true) :
    (attributeChars attributes).foldl Token.quoteAfter none = none := by
  induction attributes with
  | nil => rfl
  | cons entry attributes ih =>
      obtain ⟨name, value⟩ := entry
      obtain ⟨hname, hrest⟩ := List.forall_mem_cons.1 h
      have hvalue : '"' ∉ escape value.toList := fun hmem => (ne_of_mem_escape hmem).2.2.1 rfl
      -- The value opens a quote and closes it; nothing else in an attribute concerns quotes.
      rw [attributeChars_cons, List.foldl_cons, List.foldl_append]
      rw [show Token.quoteAfter none ' ' = none from rfl, foldl_quoteAfter_name hname]
      rw [List.foldl_cons, show Token.quoteAfter none '=' = none from rfl]
      rw [List.foldl_cons, show Token.quoteAfter none '"' = some '"' from rfl]
      rw [List.foldl_append, foldl_quoteAfter_some hvalue]
      rw [List.foldl_cons, show Token.quoteAfter (some '"') '"' = none from rfl, ih hrest]

theorem not_mem_attributeChars (h : ∀ name ∈ attributes.names, isPlainName name = true) :
    '>' ∉ attributeChars attributes := by
  induction attributes with
  | nil => exact List.not_mem_nil
  | cons entry attributes ih =>
      obtain ⟨name, value⟩ := entry
      obtain ⟨hname, hrest⟩ := List.forall_mem_cons.1 h
      have hmem : '>' ∉ name.toList := fun hmem =>
        ne_of_mem_plainName hname (by decide) _ hmem rfl
      have hvalue : '>' ∉ escape value.toList := fun hmem => (ne_of_mem_escape hmem).2.1 rfl
      rw [attributeChars_cons]
      simp [hmem, hvalue, ih hrest]

/-- The characters of a tag end with a plain character or a quote. -/
theorem getLast?_tagChars (hn : isPlainName name = true) :
    (tagChars name attributes).getLast? ≠ some '/' := by
  intro h
  rcases List.eq_nil_or_concat attributes with rfl | ⟨init, ⟨last, value⟩, rfl⟩
  · have hmem : '/' ∈ name.toList := by
      simpa [tagChars, attributeChars] using List.mem_of_getLast? h
    exact ne_of_mem_plainName hn (by decide) _ hmem rfl
  · have hquote : tagChars name (init.concat (last, value)) =
        name.toList ++ attributeChars init ++ ' ' :: last.toList ++ ['=', '"'] ++
          escape value.toList ++ ['"'] := by
      simp [tagChars, attributeChars]
    rw [hquote, List.getLast?_append] at h
    cases h

theorem splitTag?_tagChars (hn : isPlainName name = true)
    (ha : ∀ name ∈ attributes.names, isPlainName name = true) (rest : List Char) :
    Token.splitTag? none (tagChars name attributes ++ rest) =
      (Token.splitTag? none rest).map fun p => (tagChars name attributes ++ p.1, p.2) := by
  have hname : '>' ∉ name.toList := fun hmem => ne_of_mem_plainName hn (by decide) _ hmem rfl
  have hmem : '>' ∉ tagChars name attributes := by
    simp [tagChars, hname, not_mem_attributeChars ha]
  rw [splitTag?_append hmem, tagChars, List.foldl_append, foldl_quoteAfter_name hn,
    foldl_quoteAfter_attributeChars ha]

theorem readStartTag_tagChars (hn : isPlainName name = true)
    (ha : ∀ name ∈ attributes.names, isPlainName name = true) (closed : Bool) (rest : List Char) :
    Token.readStartTag
        (tagChars name attributes ++ (if closed then ['/', '>'] else ['>']) ++ rest) =
      .ok (.startTag (tagChars name attributes) closed, rest) := by
  rw [Token.readStartTag, List.append_assoc, splitTag?_tagChars hn ha]
  cases closed with
  | true => simp [Token.splitTag?, Token.quoteAfter]
  | false => simp [Token.splitTag?, getLast?_tagChars hn]

theorem readEndTag_name (hn : isPlainName name = true) (rest : List Char) :
    Token.readEndTag (name.toList ++ ['>'] ++ rest) = .ok (.endTag name.toList, rest) := by
  have hnone : ∀ other ∈ AttributeList.names [], isPlainName other = true :=
    List.forall_mem_nil _
  have h := splitTag?_tagChars hn hnone ('>' :: rest)
  simp only [tagChars, attributeChars, List.flatMap_nil, List.append_nil] at h
  rw [Token.readEndTag, List.append_assoc, List.singleton_append, h]
  simp [Token.splitTag?]

/-! ### What stands in a tag -/

theorem dropWhile_isSpace_name {c : Char} {cs : List Char} (hc : continuesPlainName c = true) :
    (c :: cs).dropWhile isSpace = c :: cs :=
  List.dropWhile_cons_of_neg (by simp [isSpace_eq_false hc])

theorem continuesName_of_plain {c : Char} (hc : continuesPlainName c = true) :
    continuesName c = true := by
  have hne : c ≠ '=' := ne_of_continuesPlainName hc (by decide)
  simp [continuesName, hne, isSpace_eq_false hc]

/-- A value is found between its quotes. -/
theorem scanValue_quoted (width : Nat) (value : List Char) (rest : List Char) :
    scanValue width ('"' :: (escape value ++ '"' :: rest)) = .ok (value, rest) := by
  have hne : ∀ c ∈ escape value, (decide (c ≠ '"')) = true := fun c hc =>
    decide_eq_true (ne_of_mem_escape hc).2.2.1
  rw [scanValue, List.dropWhile_cons_of_neg (by decide)]
  simp only [true_or, if_true]
  rw [List.dropWhile_append_of_pos hne, List.takeWhile_append_of_pos hne]
  simp [unescape_escape, Except.map]

/-- The next attribute is found, at some place. -/
theorem scanAttribute_attributeChars (width : Nat) {seen : List (List Char × Nat)}
    (value : String) (attributes : AttributeList) (hn : isPlainName name = true)
    (hseen : seen.lookup name.toList = none) :
    ∃ position, scanAttribute width seen (attributeChars ((name, value) :: attributes)) =
      .ok (some ⟨name.toList, position, value.toList, attributeChars attributes⟩) := by
  obtain ⟨c, cs, heq, -, hall⟩ := exists_of_isPlainName hn
  obtain ⟨hc, hcs⟩ := List.forall_mem_cons.1 hall
  have hgoes : ∀ d ∈ cs, continuesName d = true := fun d hd => continuesName_of_plain (hcs d hd)
  have htake : ∀ after, (cs ++ '=' :: after).takeWhile continuesName = cs := fun after => by
    rw [List.takeWhile_append_of_pos hgoes, List.takeWhile_cons_of_neg (by decide), List.append_nil]
  have hdrop : ∀ after, ((cs ++ '=' :: after).dropWhile continuesName).dropWhile isSpace =
      '=' :: after := fun after => by
    rw [List.dropWhile_append_of_pos hgoes, List.dropWhile_cons_of_neg (by decide),
      List.dropWhile_cons_of_neg (by decide)]
  rw [heq] at hseen
  rw [attributeChars_cons, heq, scanAttribute, List.dropWhile_cons_of_pos (by decide),
    List.cons_append, dropWhile_isSpace_name hc]
  simp only [htake, hdrop, hseen, scanValue_quoted]
  exact ⟨_, rfl⟩

/-- All attributes are found, as no two have the same name. -/
theorem scanAttributes_attributeChars (width : Nat) {seen : List (List Char × Nat)}
    (ha : ∀ name ∈ attributes.names, isPlainName name = true) (hd : attributes.names.Nodup)
    (hseen : ∀ name ∈ attributes.names, seen.lookup name.toList = none) :
    scanAttributes width seen (attributeChars attributes) = .ok attributes := by
  induction attributes generalizing seen with
  | nil => rw [scanAttributes]; rfl
  | cons entry attributes ih =>
      obtain ⟨name, value⟩ := entry
      obtain ⟨hn, ha⟩ := List.forall_mem_cons.1 ha
      obtain ⟨hnot, hd⟩ := List.nodup_cons.1 hd
      obtain ⟨hfirst, hseen⟩ := List.forall_mem_cons.1 hseen
      obtain ⟨position, hscan⟩ := scanAttribute_attributeChars width value attributes hn hfirst
      -- The name that is now among those seen is none of the names that are still to come.
      have hlater : ∀ other ∈ AttributeList.names attributes,
          List.lookup other.toList ((name.toList, position) :: seen) = none := by
        intro other ho
        have hne : other.toList ≠ name.toList := by
          intro h
          rw [String.toList_inj] at h
          exact hnot (h ▸ ho)
        rw [List.lookup_cons, beq_false_of_ne hne]
        exact hseen other ho
      rw [scanAttributes]
      split
      · next h => rw [hscan] at h; cases h
      · next h => rw [hscan] at h; cases h
      · next scan h =>
          rw [hscan] at h
          cases h
          rw [ih ha hd hlater]
          simp [Except.map]

/-- A tag is read as it was written. -/
theorem ofStartTag_tagChars (hn : isPlainName name = true)
    (ha : ∀ name ∈ attributes.names, isPlainName name = true) (hd : attributes.names.Nodup) :
    Element.ofStartTag (tagChars name attributes) = .ok ⟨name, attributes, []⟩ := by
  have hname : ∀ c ∈ name.toList, (!isSpace c) = true := fun c hc => by
    simp [isSpace_eq_false (continuesPlainName_of_mem hn hc)]
  have hstop : (attributeChars attributes).takeWhile (!isSpace ·) = [] ∧
      (attributeChars attributes).dropWhile (!isSpace ·) = attributeChars attributes := by
    cases attributes with
    | nil => exact ⟨rfl, rfl⟩
    | cons entry attributes =>
        obtain ⟨name, value⟩ := entry
        rw [attributeChars_cons]
        exact ⟨rfl, rfl⟩
  obtain ⟨htake, hdrop⟩ := hstop
  rw [Element.ofStartTag, tagChars, List.takeWhile_append_of_pos hname,
    List.dropWhile_append_of_pos hname, htake, hdrop,
    scanAttributes_attributeChars _ ha hd fun _ _ => rfl]
  simp [Except.map]

end IncidentReport.Markup
