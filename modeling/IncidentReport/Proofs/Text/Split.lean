import IncidentReport.Text.Split
import Mathlib.Data.List.Infix

/-!
The first occurrence of a mark. What comes before it does not contain the mark,
and a text without the mark is what comes before a mark that is put behind it, if
the mark cannot overlap itself.
-/

namespace IncidentReport.Text

theorem afterLead?_append (lead cs : List Char) : afterLead? lead (lead ++ cs) = some cs :=
  afterLead?_eq_some_iff.2 rfl

/-- What comes before the first occurrence of a mark does not contain it. -/
theorem not_infix_of_splitAt? {mark cs before after : List Char} (hm : mark ≠ [])
    (h : splitAt? mark cs = some (before, after)) : ¬ mark <:+: before := by
  fun_induction splitAt? mark cs generalizing before with
  | case1 =>
      obtain ⟨rest, -, he⟩ := Option.map_eq_some_iff.1 h
      cases he
      exact fun hi => hm (List.infix_nil.1 hi)
  | case2 c cs rest hr =>
      cases h
      exact fun hi => hm (List.infix_nil.1 hi)
  | case3 c cs hnone ih =>
      obtain ⟨⟨b, a⟩, hs, he⟩ := Option.map_eq_some_iff.1 h
      obtain ⟨rfl, rfl⟩ := Prod.mk.inj he
      intro hi
      rcases List.infix_cons_iff.1 hi with ⟨tail, hp⟩ | hi
      · have hlead : afterLead? mark (c :: cs) = some (tail ++ (mark ++ a)) := by
          rw [eq_append_of_splitAt? hs, afterLead?_eq_some_iff, ← List.append_assoc mark, hp]
          simp
        rw [hnone] at hlead
        cases hlead
      · exact ih hs hi

/-- A mark such as `-->`, whose last character is not among those before it, is
found where it was put. -/
theorem splitAt?_append {a b : Char} (hab : a ≠ b) {cs : List Char} (h : ¬ [a, a, b] <:+: cs)
    (rest : List Char) : splitAt? [a, a, b] (cs ++ [a, a, b] ++ rest) = some (cs, rest) := by
  induction cs with
  | nil => simp [splitAt?, afterLead?]
  | cons c cs ih =>
      have hnone : afterLead? [a, a, b] (c :: (cs ++ [a, a, b] ++ rest)) = none := by
        -- An occurrence that starts before the mark cannot run into it.
        match cs with
        | [] | [_] => simp [afterLead?, hab.symm]
        | d :: e :: cs =>
            by_contra hsome
            obtain ⟨tail, htail⟩ := Option.ne_none_iff_exists'.1 hsome
            simp only [afterLead?_eq_some_iff, List.cons_append, List.nil_append,
              List.cons.injEq] at htail
            obtain ⟨rfl, rfl, rfl, -⟩ := htail
            exact h ⟨[], cs, rfl⟩
      have hrest := ih fun hi => h (List.infix_cons hi)
      rw [List.cons_append, List.cons_append, splitAt?, hnone, hrest]
      rfl

end IncidentReport.Text
