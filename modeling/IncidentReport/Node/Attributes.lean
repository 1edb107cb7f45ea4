import IncidentReport.AttributeList

/-!
The attributes of a node: a map that remembers the order in which its names
were first written. Two such maps are the same if they give the same values,
whatever the order.
-/

namespace IncidentReport

/-- Names with their values, each name once, in the order of their first
writing. -/
structure Attributes where
  entries : AttributeList
  nodup : entries.names.Nodup

namespace Attributes

def empty : Attributes :=
  ⟨[], List.nodup_nil⟩

instance : Inhabited Attributes := ⟨empty⟩

def get? (attrs : Attributes) (name : String) : Option String :=
  attrs.entries.get? name

def contains (attrs : Attributes) (name : String) : Bool :=
  (attrs.get? name).isSome

def names (attrs : Attributes) : List String :=
  attrs.entries.names

/-- Gives a name a value. A name already present keeps its place. -/
def insert (attrs : Attributes) (name value : String) : Attributes where
  entries := attrs.entries.put name value
  nodup := by
    rw [AttributeList.names_put]
    split
    · exact attrs.nodup
    · next h =>
      refine List.nodup_append.2 ⟨attrs.nodup, by simp, ?_⟩
      intro a ha b hb
      rw [List.mem_singleton.1 hb]
      exact fun hab => h (hab ▸ ha)

def ofList (entries : AttributeList) : Attributes :=
  entries.foldl (fun attrs (name, value) => attrs.insert name value) empty

/-- Whether both give the same values to the same names. -/
def same (as bs : Attributes) : Bool :=
  as.entries.length == bs.entries.length &&
    as.entries.all fun (name, value) => bs.get? name == some value

theorem get?_insert (attrs : Attributes) (name value other : String) :
    (attrs.insert name value).get? other = if name = other then some value else attrs.get? other :=
  AttributeList.get?_put attrs.entries name value other

theorem names_insert (attrs : Attributes) (name value : String) :
    (attrs.insert name value).names =
      if name ∈ attrs.names then attrs.names else attrs.names ++ [name] :=
  AttributeList.names_put attrs.entries name value

end Attributes

end IncidentReport
