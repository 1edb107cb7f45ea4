import IncidentReport.Markup.Escape
import IncidentReport.Proofs.Outcome

/-!
Escapes are undone by reading, and what is escaped has none of the characters
that end a text or a value.
-/

namespace IncidentReport.Markup

open Text

theorem ne_of_mem_escapeChar {c d : Char} (h : d ∈ escapeChar c) :
    d ≠ '<' ∧ d ≠ '>' ∧ d ≠ '"' ∧ d ≠ '\'' := by
  rw [escapeChar.eq_def] at h
  split at h <;> simp at h <;> grind

theorem ne_of_mem_escape {cs : List Char} {d : Char} (h : d ∈ escape cs) :
    d ≠ '<' ∧ d ≠ '>' ∧ d ≠ '"' ∧ d ≠ '\'' := by
  obtain ⟨c, -, hd⟩ := List.mem_flatMap.1 h
  exact ne_of_mem_escapeChar hd

theorem escape_append (cs ds : List Char) : escape (cs ++ ds) = escape cs ++ escape ds :=
  List.flatMap_append

theorem escapeChar_ne_nil (c : Char) : escapeChar c ≠ [] := by
  rw [escapeChar.eq_def]
  split <;> exact List.cons_ne_nil _ _

theorem escape_eq_nil_iff {cs : List Char} : escape cs = [] ↔ cs = [] := by
  cases cs with
  | nil => simp [escape]
  | cons c cs => simp [escape, escapeChar_ne_nil]

/-- Reading a character that was escaped. -/
theorem unescapeFrom_escapeChar (width position : Nat) (c : Char) (rest : List Char) :
    ∃ position', unescapeFrom width position (escapeChar c ++ rest) =
      (unescapeFrom width position' rest).map (c :: ·) := by
  rw [escapeChar.eq_def]
  split
  · exact ⟨_, rfl⟩
  · exact ⟨_, rfl⟩
  · exact ⟨_, rfl⟩
  · exact ⟨_, rfl⟩
  · exact ⟨_, rfl⟩
  · next hamp _ _ =>
      refine ⟨position + c.utf8Size, ?_⟩
      rw [List.singleton_append, unescapeFrom, if_neg hamp]

theorem unescapeFrom_escape (width position : Nat) (cs : List Char) :
    unescapeFrom width position (escape cs) = .ok cs := by
  induction cs generalizing position with
  | nil => rfl
  | cons c cs ih =>
      obtain ⟨position', h⟩ := unescapeFrom_escapeChar width position c (escape cs)
      rw [escape, List.flatMap_cons, ← escape, h, ih]
      rfl

/-- What was escaped is read as it was. -/
theorem unescape_escape (cs : List Char) : unescape (escape cs) = .ok cs :=
  unescapeFrom_escape _ _ cs

/-- An entity stands for a character, whatever is behind it. -/
theorem unescapeEntity_ne_nil {width start : Nat} {name cs content : List Char}
    (h : unescapeEntity width start name cs = .ok content) : content ≠ [] := by
  induction cs generalizing name with
  | nil => cases h
  | cons c cs ih =>
      rw [unescapeEntity] at h
      split at h
      · obtain ⟨meant, -, h⟩ := bind_eq_ok.1 h
        obtain ⟨rest, -, h⟩ := bind_eq_ok.1 h
        cases pure_eq_ok.1 h
        exact List.cons_ne_nil _ _
      · split at h
        · cases h
        · exact ih h

/-- No text is read as nothing. -/
theorem unescape_ne_nil {cs content : List Char} (hcs : cs ≠ []) (h : unescape cs = .ok content) :
    content ≠ [] := by
  obtain ⟨c, cs, rfl⟩ := List.exists_cons_of_ne_nil hcs
  rw [unescape, unescapeFrom] at h
  split at h
  · exact unescapeEntity_ne_nil h
  · obtain ⟨rest, -, rfl⟩ := map_eq_ok.1 h
    exact List.cons_ne_nil _ _

end IncidentReport.Markup
