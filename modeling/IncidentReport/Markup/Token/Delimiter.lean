/-!
Where tags and document types end. A tag ends at the first `>` outside quotes, a
document type at the first `>` that closes no angle bracket inside it.
-/

namespace IncidentReport.Markup.Token

/-- The quote that is open after a character of a tag. -/
def quoteAfter (quote : Option Char) (c : Char) : Option Char :=
  match quote with
  | some q => if c = q then none else some q
  | none => if c = '"' ∨ c = '\'' then some c else none

/-- What stands before and after the `>` that ends a tag. A `>` between quotes
does not end it; `quote` is the open quote, if there is one. -/
def splitTag? (quote : Option Char) : List Char → Option (List Char × List Char)
  | [] => none
  | c :: cs =>
    if c = '>' ∧ quote.isNone then
      some ([], cs)
    else
      (splitTag? (quoteAfter quote c) cs).map fun (before, after) => (c :: before, after)

/-- The number of angle brackets that are open after a character of a document
type. -/
def depthAfter (depth : Nat) (c : Char) : Nat :=
  if c = '<' then depth + 1 else if c = '>' then depth - 1 else depth

/-- What stands before and after the `>` that ends a document type, with `depth`
angle brackets open inside it. -/
def splitDoctype? (depth : Nat) : List Char → Option (List Char × List Char)
  | [] => none
  | c :: cs =>
    if c = '>' ∧ depth = 0 then
      some ([], cs)
    else
      (splitDoctype? (depthAfter depth c) cs).map fun (before, after) => (c :: before, after)

theorem eq_append_of_splitTag? {quote : Option Char} {cs before after : List Char}
    (h : splitTag? quote cs = some (before, after)) : cs = before ++ '>' :: after := by
  fun_induction splitTag? quote cs generalizing before with
  | case1 => simp at h
  | case2 quote c cs hc =>
    simp only [Option.some.injEq, Prod.mk.injEq] at h
    simp [hc.1, ← h.1, h.2]
  | case3 quote c cs _ ih =>
    obtain ⟨⟨b, a⟩, hs, he⟩ := Option.map_eq_some_iff.1 h
    simp only [Prod.mk.injEq] at he
    obtain ⟨rfl, rfl⟩ := he
    simp [ih hs]

theorem eq_append_of_splitDoctype? {depth : Nat} {cs before after : List Char}
    (h : splitDoctype? depth cs = some (before, after)) : cs = before ++ '>' :: after := by
  fun_induction splitDoctype? depth cs generalizing before with
  | case1 => simp at h
  | case2 depth c cs hc =>
    simp only [Option.some.injEq, Prod.mk.injEq] at h
    simp [hc.1, ← h.1, h.2]
  | case3 depth c cs _ ih =>
    obtain ⟨⟨b, a⟩, hs, he⟩ := Option.map_eq_some_iff.1 h
    simp only [Prod.mk.injEq] at he
    obtain ⟨rfl, rfl⟩ := he
    simp [ih hs]

end IncidentReport.Markup.Token
