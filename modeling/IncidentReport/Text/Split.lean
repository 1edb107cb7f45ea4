/-!
Splitting a text at a mark. Main statements: nothing but the mark is lost, and
what comes before the mark does not contain it.
-/

namespace IncidentReport.Text

/-- What follows `lead`, if the text starts with it. -/
def afterLead? : List Char → List Char → Option (List Char)
  | [], cs => some cs
  | _ :: _, [] => none
  | l :: lead, c :: cs => if l = c then afterLead? lead cs else none

theorem afterLead?_eq_some_iff {lead cs rest : List Char} :
    afterLead? lead cs = some rest ↔ cs = lead ++ rest := by
  fun_induction afterLead? lead cs with
  | case1 cs => simp
  | case2 => simp
  | case3 lead c cs ih => simp [ih]
  | case4 l lead c cs h => simp [Ne.symm h]

/-- What stands before and after the first occurrence of `mark`. -/
def splitAt? (mark : List Char) : List Char → Option (List Char × List Char)
  | [] => (afterLead? mark []).map fun rest => ([], rest)
  | c :: cs =>
    match afterLead? mark (c :: cs) with
    | some rest => some ([], rest)
    | none => (splitAt? mark cs).map fun (before, after) => (c :: before, after)

theorem eq_append_of_splitAt? {mark cs before after : List Char}
    (h : splitAt? mark cs = some (before, after)) : cs = before ++ mark ++ after := by
  fun_induction splitAt? mark cs generalizing before with
  | case1 =>
    obtain ⟨rest, hr, he⟩ := Option.map_eq_some_iff.1 h
    simp only [Prod.mk.injEq] at he
    obtain ⟨rfl, rfl⟩ := he
    simpa using afterLead?_eq_some_iff.1 hr
  | case2 c cs rest hr =>
    simp only [Option.some.injEq, Prod.mk.injEq] at h
    obtain ⟨rfl, rfl⟩ := h
    simpa using afterLead?_eq_some_iff.1 hr
  | case3 c cs _ ih =>
    obtain ⟨⟨b, a⟩, hs, he⟩ := Option.map_eq_some_iff.1 h
    simp only [Prod.mk.injEq] at he
    obtain ⟨rfl, rfl⟩ := he
    simp [ih hs]

end IncidentReport.Text
