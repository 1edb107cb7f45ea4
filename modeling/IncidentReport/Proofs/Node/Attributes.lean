import IncidentReport.Node.Attributes
import Mathlib.Data.List.Nodup
import Mathlib.Data.List.Perm.Subperm

/-!
Attributes by their values. Two maps are the same if and only if they give the same
value to every name. Writing a list of entries gives the names in it their values
there; over a map whose names start the list it leaves just the list.
-/

namespace IncidentReport

namespace AttributeList

variable {attrs entries : AttributeList} {name value : String}

@[simp] theorem names_append (attrs entries : AttributeList) :
    names (attrs ++ entries) = names attrs ++ names entries :=
  List.map_append

theorem mem_of_get?_eq_some (h : attrs.get? name = some value) : (name, value) ∈ attrs := by
  induction attrs with
  | nil => cases h
  | cons entry rest ih =>
      obtain ⟨n, v⟩ := entry
      rw [get?] at h
      split at h
      · next hn =>
          subst hn
          cases h
          exact List.mem_cons_self
      · exact List.mem_cons_of_mem _ (ih h)

/-- Where each name stands once, its value is that of its only entry. -/
theorem get?_eq_some_iff_mem (hn : attrs.names.Nodup) :
    attrs.get? name = some value ↔ (name, value) ∈ attrs := by
  refine ⟨mem_of_get?_eq_some, fun h => ?_⟩
  induction attrs with
  | nil => exact absurd h List.not_mem_nil
  | cons entry rest ih =>
      obtain ⟨n, v⟩ := entry
      obtain ⟨hnot, hrest⟩ := List.nodup_cons.1 hn
      rw [get?]
      rcases List.mem_cons.1 h with h | h
      · cases h
        exact if_pos rfl
      · have hname : name ∈ names rest := List.mem_map_of_mem (f := Prod.fst) h
        rw [if_neg (ne_of_mem_of_not_mem hname hnot).symm, ih hrest h]

theorem get?_eq_none_iff : attrs.get? name = none ↔ name ∉ attrs.names := by
  rw [← isSome_get?_iff, Option.not_isSome_iff_eq_none]

theorem put_append (h : name ∉ attrs.names) :
    put (attrs ++ entries) name value = attrs ++ put entries name value := by
  induction attrs with
  | nil => rfl
  | cons entry rest ih =>
      obtain ⟨n, v⟩ := entry
      rw [names_cons, List.mem_cons, not_or] at h
      rw [List.cons_append, put, if_neg (Ne.symm h.1), ih h.2]
      rfl

/-- Writes some entries, from the left. -/
def putAll (attrs entries : AttributeList) : AttributeList :=
  entries.foldl (fun attrs (name, value) => attrs.put name value) attrs

theorem putAll_cons (attrs : AttributeList) (name value : String) (entries : AttributeList) :
    attrs.putAll ((name, value) :: entries) = (attrs.put name value).putAll entries := rfl

theorem get?_append (attrs entries : AttributeList) (name : String) :
    get? (attrs ++ entries) name = (get? attrs name).or (get? entries name) := by
  induction attrs with
  | nil => rfl
  | cons entry rest ih =>
      obtain ⟨n, v⟩ := entry
      rw [List.cons_append, get?, get?]
      split
      · rfl
      · exact ih

/-- The last entry of a name gives it its value. -/
theorem get?_putAll (attrs entries : AttributeList) (name : String) :
    (attrs.putAll entries).get? name = (get? entries.reverse name).or (attrs.get? name) := by
  induction entries generalizing attrs with
  | nil => rfl
  | cons entry rest ih =>
      obtain ⟨n, v⟩ := entry
      rw [putAll_cons, ih, get?_put, List.reverse_cons, get?_append, Option.or_assoc]
      simp only [get?]
      split <;> rfl

theorem get?_reverse (hn : entries.names.Nodup) (name : String) :
    get? entries.reverse name = entries.get? name := by
  have hreverse : (names entries.reverse).Nodup := by
    rw [names, List.map_reverse]
    exact List.nodup_reverse.2 hn
  ext value
  rw [get?_eq_some_iff_mem hreverse, get?_eq_some_iff_mem hn, List.mem_reverse]

/-- Names that were there before stay where they are. -/
theorem prefix_names_putAll (attrs entries : AttributeList) :
    attrs.names <+: (attrs.putAll entries).names := by
  induction entries generalizing attrs with
  | nil => exact List.prefix_rfl
  | cons entry rest ih =>
      obtain ⟨name, value⟩ := entry
      have first : attrs.names <+: (attrs.put name value).names := by
        rw [names_put]
        split
        · exact List.prefix_rfl
        · exact List.prefix_append _ _
      exact first.trans (ih (attrs.put name value))

/-- The entries written so far are `done`, and the names still to be overwritten are
the first of those still to be written. -/
theorem putAll_append_of_prefix (done base : AttributeList) (hp : base.names <+: entries.names)
    (hn : (done ++ entries).names.Nodup) : (done ++ base).putAll entries = done ++ entries := by
  induction entries generalizing done base with
  | nil =>
      obtain rfl : base = [] := List.map_eq_nil_iff.1 (List.prefix_nil.1 hp)
      rfl
  | cons entry rest ih =>
      obtain ⟨n, v⟩ := entry
      have hdone : n ∉ done.names := by
        rw [names_append, List.nodup_append] at hn
        exact fun h => hn.2.2 n h n List.mem_cons_self rfl
      have hsplit : done ++ (n, v) :: rest = (done ++ [(n, v)]) ++ rest := by simp
      rw [putAll_cons, put_append hdone]
      rw [hsplit] at hn ⊢
      cases base with
      | nil =>
          have rest := ih (done ++ [(n, v)]) [] List.nil_prefix hn
          rwa [List.append_nil] at rest
      | cons first base =>
          obtain ⟨m, w⟩ := first
          obtain ⟨hm, hbase⟩ := List.cons_prefix_cons.1 hp
          obtain rfl : m = n := hm
          rw [put, if_pos rfl, List.append_cons]
          exact ih (done ++ [(m, v)]) base hbase hn

/-- Written over the first of its own names, a list is what is left. -/
theorem putAll_of_prefix (hp : attrs.names <+: entries.names) (hn : entries.names.Nodup) :
    attrs.putAll entries = entries :=
  putAll_append_of_prefix [] attrs hp hn

end AttributeList

namespace Attributes

variable {as bs : Attributes}

theorem get?_eq_some_iff_mem {name value : String} :
    as.get? name = some value ↔ (name, value) ∈ as.entries :=
  AttributeList.get?_eq_some_iff_mem as.nodup

theorem isSome_get?_iff {name : String} : (as.get? name).isSome ↔ name ∈ as.names :=
  AttributeList.isSome_get?_iff as.entries name

theorem entries_perm (h : ∀ name, as.get? name = bs.get? name) :
    as.entries.Perm bs.entries := by
  refine (List.perm_ext_iff_of_nodup as.nodup.of_map bs.nodup.of_map).2 fun entry => ?_
  rw [← get?_eq_some_iff_mem, ← get?_eq_some_iff_mem, h]

/-- The same maps are those that give the same values. -/
theorem same_iff : as.same bs = true ↔ ∀ name, as.get? name = bs.get? name := by
  rw [same, Bool.and_eq_true, beq_iff_eq, List.all_eq_true]
  simp only [beq_iff_eq]
  constructor
  · rintro ⟨hlength, hall⟩ name
    cases hname : as.get? name with
    | some value => exact (hall _ (get?_eq_some_iff_mem.1 hname)).symm
    | none =>
        -- As many names as on the left, which are all on the right, leave no room for another.
        have hsub : as.names ⊆ bs.names := by
          intro n hn
          obtain ⟨entry, hentry, rfl⟩ := List.mem_map.1 hn
          exact isSome_get?_iff.1 (by rw [hall entry hentry]; rfl)
        have hperm : as.names.Perm bs.names :=
          (as.nodup.subperm hsub).perm_of_length_le (by simp [AttributeList.names, names, hlength])
        symm
        rw [← Option.not_isSome_iff_eq_none, isSome_get?_iff, ← hperm.mem_iff, ← isSome_get?_iff,
          hname]
        simp
  · intro h
    refine ⟨?_, fun entry hentry => ?_⟩
    · exact (entries_perm h).length_eq
    · rw [← h, get?_eq_some_iff_mem]
      exact hentry

/-- Gives some names their values, from the left. -/
def insertAll (attrs : Attributes) (entries : AttributeList) : Attributes :=
  entries.foldl (fun attrs (name, value) => attrs.insert name value) attrs

theorem entries_insertAll (attrs : Attributes) (entries : AttributeList) :
    (attrs.insertAll entries).entries = attrs.entries.putAll entries := by
  induction entries generalizing attrs with
  | nil => rfl
  | cons entry rest ih => exact ih (attrs.insert entry.1 entry.2)

theorem ext_entries (h : as.entries = bs.entries) : as = bs := by
  cases as
  cases bs
  cases h
  rfl

end Attributes

end IncidentReport
