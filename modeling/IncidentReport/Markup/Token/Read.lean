import IncidentReport.Markup.Fault
import IncidentReport.Markup.Token.Basic
import IncidentReport.Markup.Token.Delimiter
import IncidentReport.Text.Split

/-!
Tokens read from the front of a text. Main statement: reading takes off exactly
the spelling of the token that it returns, so each step leaves a shorter text.
-/

namespace IncidentReport.Markup.Token

open Text

/-- The word `DOCTYPE` in small letters. -/
def doctypeWord : List Char := ['d', 'o', 'c', 't', 'y', 'p', 'e']

/-- Reads a document type from behind `<!`. It needs the word and a name. -/
def readDoctype (cs : List Char) : Except Fault (Token × List Char) :=
  if (cs.take doctypeWord.length).map Char.toLower = doctypeWord then
    match splitDoctype? 0 cs with
    | none => .error .unclosedDoctype
    | some (raw, rest) =>
      if (raw.drop doctypeWord.length).all isSpace then
        .error .namelessDoctype
      else
        .ok (.doctype raw, rest)
  else
    .error .unclosedDoctype

/-- Reads a comment from behind `<!`. -/
def readComment (cs : List Char) : Except Fault (Token × List Char) :=
  match (afterLead? ['-', '-'] cs).bind (splitAt? ['-', '-', '>']) with
  | some (content, rest) => .ok (.comment content, rest)
  | none => .error .unclosedComment

/-- Reads a CDATA section from behind `<!`. -/
def readCData (cs : List Char) : Except Fault (Token × List Char) :=
  match (afterLead? ['[', 'C', 'D', 'A', 'T', 'A', '['] cs).bind (splitAt? [']', ']', '>']) with
  | some (content, rest) => .ok (.cdata content, rest)
  | none => .error .unclosedCData

/-- Reads an instruction from behind `<?`. Its end may not share the question
mark of its start. -/
def readInstruction (cs : List Char) : Except Fault (Token × List Char) :=
  match cs with
  | '>' :: _ => .error .unclosedInstruction
  | cs =>
    match splitAt? ['?', '>'] cs with
    | some (raw, rest) => .ok (.instruction raw, rest)
    | none => .error .unclosedInstruction

/-- Reads a start tag from behind `<`. A slash at its very end closes it. -/
def readStartTag (cs : List Char) : Except Fault (Token × List Char) :=
  match splitTag? none cs with
  | none => .error .unclosedTag
  | some (raw, rest) =>
    if raw.getLast? = some '/' then
      .ok (.startTag raw.dropLast true, rest)
    else
      .ok (.startTag raw false, rest)

def readEndTag (cs : List Char) : Except Fault (Token × List Char) :=
  match splitTag? none cs with
  | none => .error .unclosedTag
  | some (raw, rest) => .ok (.endTag raw, rest)

/-- Reads a piece of markup from behind its `<`. -/
def readMarkup (cs : List Char) : Except Fault (Token × List Char) :=
  match cs with
  | '!' :: '[' :: cs => readCData ('[' :: cs)
  | '!' :: '-' :: cs => readComment ('-' :: cs)
  | '!' :: 'D' :: cs => readDoctype ('D' :: cs)
  | '!' :: 'd' :: cs => readDoctype ('d' :: cs)
  | '!' :: _ => .error .unknownDeclaration
  | '?' :: cs => readInstruction cs
  | '/' :: cs => readEndTag cs
  | cs => readStartTag cs

/-- Reads the first token of a text that is not empty. -/
def read (c : Char) (cs : List Char) : Except Fault (Token × List Char) :=
  if c = '<' then
    readMarkup cs
  else
    .ok (.text (c :: cs.takeWhile (· ≠ '<')), cs.dropWhile (· ≠ '<'))

/-! Reading takes off exactly the spelling of the token that it returns. -/

theorem eq_append_of_readDoctype {cs rest : List Char} {token : Token}
    (h : readDoctype cs = .ok (token, rest)) :
    ∃ tail, token.spelling = '<' :: '!' :: tail ∧ cs = tail ++ rest := by
  rw [readDoctype] at h
  split at h
  · split at h
    · simp at h
    · next raw _ hs =>
      split at h
      · simp at h
      · simp only [Except.ok.injEq, Prod.mk.injEq] at h
        obtain ⟨rfl, rfl⟩ := h
        exact ⟨raw ++ ['>'], rfl, by simp [eq_append_of_splitDoctype? hs]⟩
  · simp at h

theorem eq_append_of_readComment {cs rest : List Char} {token : Token}
    (h : readComment cs = .ok (token, rest)) :
    ∃ tail, token.spelling = '<' :: '!' :: tail ∧ cs = tail ++ rest := by
  rw [readComment] at h
  split at h
  · next content _ hs =>
    obtain ⟨body, hb, hs⟩ := Option.bind_eq_some_iff.1 hs
    simp only [Except.ok.injEq, Prod.mk.injEq] at h
    obtain ⟨rfl, rfl⟩ := h
    exact ⟨['-', '-'] ++ content ++ ['-', '-', '>'], rfl,
      by simp [afterLead?_eq_some_iff.1 hb, eq_append_of_splitAt? hs]⟩
  · simp at h

theorem eq_append_of_readCData {cs rest : List Char} {token : Token}
    (h : readCData cs = .ok (token, rest)) :
    ∃ tail, token.spelling = '<' :: '!' :: tail ∧ cs = tail ++ rest := by
  rw [readCData] at h
  split at h
  · next content _ hs =>
    obtain ⟨body, hb, hs⟩ := Option.bind_eq_some_iff.1 hs
    simp only [Except.ok.injEq, Prod.mk.injEq] at h
    obtain ⟨rfl, rfl⟩ := h
    exact ⟨['[', 'C', 'D', 'A', 'T', 'A', '['] ++ content ++ [']', ']', '>'], rfl,
      by simp [afterLead?_eq_some_iff.1 hb, eq_append_of_splitAt? hs]⟩
  · simp at h

theorem eq_append_of_readInstruction {cs rest : List Char} {token : Token}
    (h : readInstruction cs = .ok (token, rest)) :
    ∃ tail, token.spelling = '<' :: '?' :: tail ∧ cs = tail ++ rest := by
  rw [readInstruction.eq_def] at h
  split at h
  · simp at h
  · split at h
    · next raw _ hs =>
      simp only [Except.ok.injEq, Prod.mk.injEq] at h
      obtain ⟨rfl, rfl⟩ := h
      exact ⟨raw ++ ['?', '>'], rfl, by simp [eq_append_of_splitAt? hs]⟩
    · simp at h

theorem eq_append_of_readStartTag {cs rest : List Char} {token : Token}
    (h : readStartTag cs = .ok (token, rest)) :
    ∃ tail, token.spelling = '<' :: tail ∧ cs = tail ++ rest := by
  rw [readStartTag] at h
  split at h
  · simp at h
  · next raw _ hs =>
    rw [eq_append_of_splitTag? hs]
    split at h <;> simp only [Except.ok.injEq, Prod.mk.injEq] at h <;> obtain ⟨rfl, rfl⟩ := h
    · next hl =>
      obtain ⟨init, rfl⟩ := List.getLast?_eq_some_iff.1 hl
      exact ⟨init ++ ['/', '>'], by simp [spelling], by simp⟩
    · exact ⟨raw ++ ['>'], by simp [spelling], by simp⟩

theorem eq_append_of_readEndTag {cs rest : List Char} {token : Token}
    (h : readEndTag cs = .ok (token, rest)) :
    ∃ tail, token.spelling = '<' :: '/' :: tail ∧ cs = tail ++ rest := by
  rw [readEndTag] at h
  split at h
  · simp at h
  · next raw _ hs =>
    simp only [Except.ok.injEq, Prod.mk.injEq] at h
    obtain ⟨rfl, rfl⟩ := h
    exact ⟨raw ++ ['>'], rfl, by simp [eq_append_of_splitTag? hs]⟩

theorem eq_append_of_readMarkup {cs rest : List Char} {token : Token}
    (h : readMarkup cs = .ok (token, rest)) :
    ∃ tail, token.spelling = '<' :: tail ∧ cs = tail ++ rest := by
  rw [readMarkup.eq_def] at h
  split at h
  · obtain ⟨tail, hs, hc⟩ := eq_append_of_readCData h
    exact ⟨'!' :: tail, hs, by simp [hc]⟩
  · obtain ⟨tail, hs, hc⟩ := eq_append_of_readComment h
    exact ⟨'!' :: tail, hs, by simp [hc]⟩
  · obtain ⟨tail, hs, hc⟩ := eq_append_of_readDoctype h
    exact ⟨'!' :: tail, hs, by simp [hc]⟩
  · obtain ⟨tail, hs, hc⟩ := eq_append_of_readDoctype h
    exact ⟨'!' :: tail, hs, by simp [hc]⟩
  · simp at h
  · obtain ⟨tail, hs, hc⟩ := eq_append_of_readInstruction h
    exact ⟨'?' :: tail, hs, by simp [hc]⟩
  · obtain ⟨tail, hs, hc⟩ := eq_append_of_readEndTag h
    exact ⟨'/' :: tail, hs, by simp [hc]⟩
  · exact eq_append_of_readStartTag h

theorem eq_append_of_read {c : Char} {cs rest : List Char} {token : Token}
    (h : read c cs = .ok (token, rest)) :
    ∃ tail, token.spelling = c :: tail ∧ cs = tail ++ rest := by
  rw [read] at h
  split at h
  · next hc =>
    rw [hc]
    exact eq_append_of_readMarkup h
  · simp only [Except.ok.injEq, Prod.mk.injEq] at h
    obtain ⟨rfl, rfl⟩ := h
    exact ⟨cs.takeWhile (· ≠ '<'), rfl, by simp⟩

/-- Reading takes at least one character. -/
theorem length_lt_of_read {c : Char} {cs rest : List Char} {token : Token}
    (h : read c cs = .ok (token, rest)) : rest.length < (c :: cs).length := by
  obtain ⟨tail, _, rfl⟩ := eq_append_of_read h
  simp only [List.length_cons, List.length_append]
  omega

/-- The tokens of a text, and the fault at which reading had to stop, if it did. -/
def tokens (cs : List Char) : List Token × Option Fault :=
  match cs with
  | [] => ([], none)
  | c :: cs =>
    match _h : read c cs with
    | .error fault => ([], some fault)
    | .ok (token, rest) =>
      let (more, fault?) := tokens rest
      (token :: more, fault?)
termination_by cs.length
decreasing_by exact length_lt_of_read ‹_›

end IncidentReport.Markup.Token
