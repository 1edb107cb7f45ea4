import IncidentReport.Markup.Print
import IncidentReport.Markup.StartTag

/-!
Plain names, and the tags that are written with them. Neither a plain name nor an
escaped text has a character in it that ends a tag, a name or a value, so a tag
is read as it was written.
-/

namespace IncidentReport.Markup

open Text

/-! ### Characters of names -/

/-- A character that a plain name may start with. -/
def startsPlainName (c : Char) : Bool :=
  c.isAlpha || c == '_' || c == ':' || 128 ≤ c.toNat

/-- A character that a plain name may go on with. -/
def continuesPlainName (c : Char) : Bool :=
  startsPlainName c || c.isDigit || c == '-' || c == '.'

/-- The name is not empty, and its characters are those of plain names. -/
def isPlainName (name : String) : Bool :=
  match name.toList with
  | [] => false
  | c :: cs => startsPlainName c && cs.all continuesPlainName

/-- The characters that have a meaning in tags. -/
def tagMarks : List Char :=
  ['<', '>', '/', '=', '"', '\'', ' ', '\t', '\r', '\n']

/-- The characters that have a meaning in tags are not those of plain names. -/
theorem ne_of_continuesPlainName {c d : Char} (hc : continuesPlainName c = true)
    (hd : d ∈ tagMarks) : c ≠ d := by
  have hmarks : tagMarks.all (fun d => !continuesPlainName d) = true := rfl
  have hfalse := List.all_eq_true.1 hmarks d hd
  rintro rfl
  simp [hc] at hfalse

theorem isSpace_eq_false {c : Char} (hc : continuesPlainName c = true) : isSpace c = false := by
  have hspace : c ≠ ' ' := ne_of_continuesPlainName hc (by decide)
  have htab : c ≠ '\t' := ne_of_continuesPlainName hc (by decide)
  have hreturn : c ≠ '\r' := ne_of_continuesPlainName hc (by decide)
  have hfeed : c ≠ '\n' := ne_of_continuesPlainName hc (by decide)
  simp [isSpace, hspace, htab, hreturn, hfeed]

/-- Nothing but a start tag begins with the first character of a plain name. -/
theorem ne_of_startsPlainName {c : Char} (hc : startsPlainName c = true) :
    c ≠ '!' ∧ c ≠ '?' ∧ c ≠ '/' := by
  refine ⟨?_, ?_, ?_⟩ <;> rintro rfl <;> cases hc

theorem exists_of_isPlainName {name : String} (h : isPlainName name = true) :
    ∃ c cs, name.toList = c :: cs ∧ startsPlainName c = true ∧
      ∀ d ∈ c :: cs, continuesPlainName d = true := by
  rw [isPlainName] at h
  split at h
  · cases h
  · next c cs heq =>
      obtain ⟨hc, hcs⟩ := Bool.and_eq_true_iff.1 h
      refine ⟨c, cs, heq, hc, List.forall_mem_cons.2 ⟨?_, List.all_eq_true.1 hcs⟩⟩
      simp [continuesPlainName, hc]

theorem continuesPlainName_of_mem {name : String} (h : isPlainName name = true) {c : Char}
    (hc : c ∈ name.toList) : continuesPlainName c = true := by
  obtain ⟨d, ds, heq, -, hall⟩ := exists_of_isPlainName h
  exact hall c (heq ▸ hc)

end IncidentReport.Markup
