import IncidentReport.Markup.Assembly
import IncidentReport.Proofs.Markup.Escape
import IncidentReport.Proofs.Markup.Normal
import IncidentReport.Proofs.Outcome
import IncidentReport.Proofs.Text.Split

/-!
What is read. A comment is read up to the first `-->` and a CDATA section up to the
first `]]>`, so neither has its own end in it, in whatever tree it ends up. No text is
empty, and a name that stands twice in a tag is refused.
-/

namespace IncidentReport.Markup

open Text

/-- A comment or a CDATA section does not have its own end in it. -/
def Node.Enclosed : Node → Prop
  | .comment content => ¬ ['-', '-', '>'] <:+: content.toList
  | .cdata content => ¬ [']', ']', '>'] <:+: content.toList
  | .element .. | .text _ => True

instance : DecidablePred Node.Enclosed
  | .comment content => inferInstanceAs (Decidable (¬ ['-', '-', '>'] <:+: content.toList))
  | .cdata content => inferInstanceAs (Decidable (¬ [']', ']', '>'] <:+: content.toList))
  | .element .. | .text _ => .isTrue trivial

/-- The node is one that reading may give: no empty text, no name twice among the
attributes, nothing with its own end in it. -/
def Node.AsRead : Node → Prop
  | .element _ attributes _ => attributes.names.Nodup
  | .text content => content ≠ ""
  | .comment content => ¬ ['-', '-', '>'] <:+: content.toList
  | .cdata content => ¬ [']', ']', '>'] <:+: content.toList

theorem Node.AsRead.enclosed {node : Node} (h : node.AsRead) : node.Enclosed := by
  cases node with
  | element | text => trivial
  | comment | cdata => exact h

/-! ### Tokens -/

namespace Token

/-- The token is no empty text, no comment and no CDATA section with its own end in
it. -/
def AsRead : Token → Prop
  | text raw => raw ≠ []
  | comment content => ¬ ['-', '-', '>'] <:+: content
  | cdata content => ¬ [']', ']', '>'] <:+: content
  | _ => True

variable {cs rest : List Char} {t : Token}

theorem asRead_of_readCData (h : readCData cs = .ok (t, rest)) : t.AsRead := by
  rw [readCData] at h
  split at h
  · next hs =>
      cases h
      obtain ⟨body, -, hs⟩ := Option.bind_eq_some_iff.1 hs
      exact not_infix_of_splitAt? (List.cons_ne_nil _ _) hs
  · cases h

theorem asRead_of_readComment (h : readComment cs = .ok (t, rest)) : t.AsRead := by
  rw [readComment] at h
  split at h
  · next hs =>
      cases h
      obtain ⟨body, -, hs⟩ := Option.bind_eq_some_iff.1 hs
      exact not_infix_of_splitAt? (List.cons_ne_nil _ _) hs
  · cases h

theorem asRead_of_readDoctype (h : readDoctype cs = .ok (t, rest)) : t.AsRead := by
  rw [readDoctype] at h
  split at h
  · split at h
    · cases h
    · split at h <;> cases h
      trivial
  · cases h

theorem asRead_of_readInstruction (h : readInstruction cs = .ok (t, rest)) : t.AsRead := by
  rw [readInstruction.eq_def] at h
  split at h
  · cases h
  · split at h <;> cases h
    trivial

theorem asRead_of_readTag (h : readStartTag cs = .ok (t, rest) ∨ readEndTag cs = .ok (t, rest)) :
    t.AsRead := by
  rw [readStartTag, readEndTag] at h
  rcases h with h | h <;> split at h
  · cases h
  · split at h <;> cases h <;> trivial
  · cases h
  · cases h
    trivial

theorem asRead_of_read {c : Char} (h : read c cs = .ok (t, rest)) : t.AsRead := by
  rw [read] at h
  split at h
  · rw [readMarkup.eq_def] at h
    split at h
    · exact asRead_of_readCData h
    · exact asRead_of_readComment h
    · exact asRead_of_readDoctype h
    · exact asRead_of_readDoctype h
    · cases h
    · exact asRead_of_readInstruction h
    · exact asRead_of_readTag (.inr h)
    · exact asRead_of_readTag (.inl h)
  · cases h
    exact List.cons_ne_nil _ _

theorem asRead_of_mem_tokens (cs : List Char) : ∀ t ∈ (tokens cs).1, t.AsRead := by
  fun_induction tokens cs with
  | case1 => simp
  | case2 => simp
  | case3 c cs t rest hread more fault? htokens ih =>
      rw [htokens] at ih
      exact List.forall_mem_cons.2 ⟨asRead_of_read hread, ih⟩

end Token

/-! ### Tags -/

variable {width : Nat} {seen : List (List Char × Nat)} {cs : List Char}

theorem lookup_of_scanAttribute {scan : AttributeScan}
    (h : scanAttribute width seen cs = .ok (some scan)) : seen.lookup scan.name = none := by
  rw [scanAttribute] at h
  split at h
  · cases h
  · dsimp only at h
    split at h
    · split at h
      · cases h
      · next hlookup =>
          obtain ⟨found, -, hscan⟩ := map_eq_ok.1 h
          cases hscan
          exact hlookup
    · cases h

/-- No name stands twice, and none is among those seen before. -/
theorem nodup_of_scanAttributes {attributes : AttributeList}
    (h : scanAttributes width seen cs = .ok attributes) :
    attributes.names.Nodup ∧ ∀ name ∈ attributes.names, seen.lookup name.toList = none := by
  fun_induction scanAttributes width seen cs generalizing attributes with
  | case1 => cases h
  | case2 =>
      cases h
      exact ⟨List.nodup_nil, fun _ hname => absurd hname List.not_mem_nil⟩
  | case3 seen cs scan hscan ih =>
      obtain ⟨rest, hrest, rfl⟩ := map_eq_ok.1 h
      obtain ⟨hnodup, hseen⟩ := ih hrest
      -- The names behind were looked up among this one and those seen before.
      have split : ∀ name ∈ AttributeList.names rest,
          name ≠ String.ofList scan.name ∧ seen.lookup name.toList = none := by
        intro name hname
        have hlookup := hseen name hname
        rw [List.lookup_cons] at hlookup
        split at hlookup
        · cases hlookup
        · next hne =>
            refine ⟨?_, hlookup⟩
            rintro rfl
            simp at hne
      refine ⟨List.nodup_cons.2 ⟨fun hmem => (split _ hmem).1 rfl, hnodup⟩, ?_⟩
      refine List.forall_mem_cons.2 ⟨?_, fun name hname => (split name hname).2⟩
      rw [String.toList_ofList]
      exact lookup_of_scanAttribute hscan

/-- The element of a start tag has nothing in it and no attribute twice. -/
theorem asRead_of_ofStartTag {e : Element} (h : Element.ofStartTag cs = .ok e) :
    e.attributes.names.Nodup ∧ e.children = [] := by
  obtain ⟨attributes, hscan, rfl⟩ := map_eq_ok.1 h
  exact ⟨(nodup_of_scanAttributes hscan).1, rfl⟩

/-! ### What is put together -/

namespace Assembly

/-- All that was put together so far is as read. -/
structure AsRead (a : Assembly) : Prop where
  opened : ∀ e ∈ a.opened, e.attributes.names.Nodup ∧ allNodes Node.AsRead e.children
  root : ∀ e ∈ a.root, e.toNode.All Node.AsRead

variable {a b : Assembly}

theorem asRead_start : start.AsRead where
  opened _ h := absurd h List.not_mem_nil
  root _ h := by cases h

theorem AsRead.push? (ha : a.AsRead) {node : Node} (hn : node.All Node.AsRead)
    (h : a.push? node = some b) : b.AsRead := by
  rw [Assembly.push?] at h
  split at h
  · cases h
  · next e outer hopened =>
      cases h
      have hall := ha.opened
      rw [hopened] at hall
      obtain ⟨⟨hnodup, he⟩, houter⟩ := List.forall_mem_cons.1 hall
      exact ⟨List.forall_mem_cons.2 ⟨⟨hnodup, hn, he⟩, houter⟩, ha.root⟩

theorem AsRead.place (ha : a.AsRead) {e : Element} (he : e.toNode.All Node.AsRead) :
    (a.place e).AsRead := by
  rw [Assembly.place]
  cases h : a.push? e.toNode with
  | none => exact ⟨ha.opened, fun _ hr => Option.some.inj hr ▸ he⟩
  | some b => exact ha.push? he h

theorem AsRead.leave (ha : a.AsRead) {name : List Char} (h : a.leave name = .ok b) :
    b.AsRead := by
  rw [Assembly.leave] at h
  split at h
  · cases h
  · next e outer hopened =>
      split at h
      · cases h
        have hall := ha.opened
        rw [hopened] at hall
        obtain ⟨⟨hnodup, he⟩, houter⟩ := List.forall_mem_cons.1 hall
        have hrest : AsRead { a with opened := outer } := ⟨houter, ha.root⟩
        exact hrest.place ⟨hnodup, allNodes_reverse.2 he⟩
      · cases h

theorem AsRead.step (ha : a.AsRead) {position : Nat} {t : Token} (ht : t.AsRead)
    (h : a.step position t = .ok b) : b.AsRead := by
  cases t with
  | text raw =>
      obtain ⟨content, hcontent, h⟩ := bind_eq_ok.1 h
      split at h
      · next hpush =>
          cases pure_eq_ok.1 h
          have hne := unescape_ne_nil ht (mapError_eq_ok.1 hcontent)
          have htext : (Node.text (String.ofList content)).All Node.AsRead := by
            simpa [Node.All, Node.AsRead] using hne
          exact ha.push? htext hpush
      · split at h
        · cases pure_eq_ok.1 h
          exact ha
        · cases h
  | cdata content =>
      rw [Assembly.step] at h
      split at h
      · next hpush =>
          cases h
          exact ha.push? (by rwa [Node.All, Node.AsRead, String.toList_ofList]) hpush
      · cases h
  | comment content =>
      cases h
      cases hpush : a.push? (.comment (String.ofList content)) with
      | none => exact ha
      | some b => exact ha.push? (by rwa [Node.All, Node.AsRead, String.toList_ofList]) hpush
  | doctype raw | instruction raw =>
      cases h
      exact ha
  | startTag raw closed =>
      rw [Assembly.step] at h
      split at h
      · cases h
      · obtain ⟨e, he, h⟩ := bind_eq_ok.1 h
        obtain ⟨hnodup, hnil⟩ := asRead_of_ofStartTag (mapError_eq_ok.1 he)
        have hall : allNodes Node.AsRead e.children := by
          rw [hnil]
          trivial
        cases pure_eq_ok.1 h
        split
        · exact ha.place ⟨hnodup, hall⟩
        · exact ⟨List.forall_mem_cons.2 ⟨⟨hnodup, hall⟩, ha.opened⟩, ha.root⟩
  | endTag raw => exact ha.leave (mapError_eq_ok.1 h)

theorem AsRead.run (ha : a.AsRead) {position : Nat} {ts : List Token}
    (hts : ∀ t ∈ ts, t.AsRead) {r : Assembly × Nat} (h : a.run position ts = .ok r) :
    r.1.AsRead := by
  induction ts generalizing a position with
  | nil =>
      cases h
      exact ha
  | cons t ts ih =>
      obtain ⟨ht, hts⟩ := List.forall_mem_cons.1 hts
      rw [Assembly.run] at h
      obtain ⟨b, hstep, hrun⟩ := bind_eq_ok.1 h
      exact ih (ha.step ht hstep) hts hrun

end Assembly

theorem asRead_of_parse {text : String} {e : Element} (h : Element.parse text = .ok e) :
    e.toNode.All Node.AsRead := by
  rw [Element.parse, Element.ofChars] at h
  obtain ⟨⟨a, position⟩, hrun, h⟩ := bind_eq_ok.1 h
  have ha := Assembly.asRead_start.run (Token.asRead_of_mem_tokens _) hrun
  dsimp only at h
  split at h
  · cases h
  · rw [Assembly.finish] at h
    split at h
    · split at h
      · next hroot =>
          cases h
          exact ha.root _ hroot
      · cases h
    · cases h

/-- Nothing that is read has its own end in it. -/
theorem enclosed_of_parse {text : String} {e : Element} (h : Element.parse text = .ok e) :
    e.toNode.All Node.Enclosed :=
  (asRead_of_parse h).imp fun _ => Node.AsRead.enclosed

end IncidentReport.Markup
