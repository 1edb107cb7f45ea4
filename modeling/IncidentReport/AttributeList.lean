/-!
Attributes as a list of names and values in document order. Reading looks at
the first entry of a name, writing overwrites that entry where it stands.
-/

namespace IncidentReport

/-- Names with their values, in document order. A name may occur twice. -/
abbrev AttributeList := List (String × String)

namespace AttributeList

/-- The value of the first entry of this name. -/
def get? : AttributeList → String → Option String
  | [], _ => none
  | (n, v) :: rest, name => if n = name then some v else get? rest name

/-- Overwrites the first entry of this name, or appends one. -/
def put : AttributeList → String → String → AttributeList
  | [], name, value => [(name, value)]
  | (n, v) :: rest, name, value =>
    if n = name then (n, value) :: rest else (n, v) :: put rest name value

/-- Takes the first entry of this name out. -/
def erase : AttributeList → String → AttributeList
  | [], _ => []
  | (n, v) :: rest, name => if n = name then rest else (n, v) :: erase rest name

def names (attrs : AttributeList) : List String :=
  attrs.map Prod.fst

/-- What was written is read back, and no other name is touched. -/
theorem get?_put (attrs : AttributeList) (name value other : String) :
    get? (put attrs name value) other = if name = other then some value else get? attrs other := by
  induction attrs with
  | nil => simp [put, get?]
  | cons entry rest ih =>
    obtain ⟨n, v⟩ := entry
    by_cases h : n = name
    · subst h
      by_cases ho : n = other <;> simp [put, get?, ho]
    · by_cases ho : n = other
      · subst ho
        simp [put, get?, h, Ne.symm h]
      · simp [put, get?, h, ho, ih]

@[simp] theorem names_nil : names [] = [] := rfl

@[simp] theorem names_cons (n v : String) (attrs : AttributeList) :
    names ((n, v) :: attrs) = n :: names attrs := rfl

/-- A name already present keeps its place, a new one comes last. -/
theorem names_put (attrs : AttributeList) (name value : String) :
    names (put attrs name value) =
      if name ∈ names attrs then names attrs else names attrs ++ [name] := by
  induction attrs with
  | nil => simp [put]
  | cons entry rest ih =>
    obtain ⟨n, v⟩ := entry
    by_cases h : n = name
    · simp [put, h]
    · by_cases hm : name ∈ names rest <;> simp [put, h, Ne.symm h, ih, hm]

theorem isSome_get?_iff (attrs : AttributeList) (name : String) :
    (get? attrs name).isSome ↔ name ∈ names attrs := by
  induction attrs with
  | nil => simp [get?]
  | cons entry rest ih =>
    obtain ⟨n, v⟩ := entry
    by_cases h : n = name
    · simp [get?, h]
    · simpa [get?, h, Ne.symm h] using ih

end AttributeList

end IncidentReport
