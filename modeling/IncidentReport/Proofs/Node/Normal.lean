import IncidentReport.Proofs.Node.Attributes
import IncidentReport.Proofs.Node.Valid
import IncidentReport.Tree.Markup

/-!
What is left of a node when it is written and read again. The mark of provenance has
become public, and blank text is gone. The attributes that are written are accepted
again, and none of the defaults that reading starts with is missing among them.
-/

namespace IncidentReport

namespace Attributes

/-- The map without one of its names. -/
def without (attrs : Attributes) (name : String) : Attributes where
  entries := attrs.entries.filter (·.1 ≠ name)
  nodup := attrs.nodup.sublist (List.filter_sublist.map _)

/-- The attributes as they are read back. The mark of provenance is gone, and its
value is that of `definition`, whatever that was before. -/
def published (attrs : Attributes) : Attributes :=
  match attrs.get? provenanceAttribute with
  | some mark => (attrs.without provenanceAttribute).insert definitionAttribute mark
  | none => attrs

variable {attrs : Attributes}

theorem get?_without (attrs : Attributes) (name other : String) :
    (attrs.without name).get? other = if name = other then none else attrs.get? other := by
  ext value
  rw [get?_eq_some_iff_mem, without, List.mem_filter, ← get?_eq_some_iff_mem, decide_eq_true_eq]
  split
  · next h => simp [h]
  · next h => simp [Ne.symm h]

/-- What has been written under the name does not matter without it. -/
theorem without_insert (attrs : Attributes) (name value : String) :
    (attrs.insert name value).without name = attrs.without name := by
  refine ext_entries ?_
  show List.filter _ (attrs.entries.put name value) = List.filter _ attrs.entries
  induction attrs.entries with
  | nil => simp [AttributeList.put]
  | cons entry rest ih =>
      obtain ⟨n, v⟩ := entry
      rw [AttributeList.put]
      split
      · next h => simp [h]
      · rw [List.filter_cons, List.filter_cons, ih]

theorem names_without (attrs : Attributes) (name : String) :
    (attrs.without name).names = attrs.names.filter (· ≠ name) := by
  rw [names, names, AttributeList.names, AttributeList.names, List.filter_map]
  rfl

theorem without_eq_self {name : String} (h : attrs.get? name = none) :
    attrs.without name = attrs := by
  refine ext_entries (List.filter_eq_self.2 fun entry hentry => ?_)
  rw [decide_eq_true_eq]
  rintro rfl
  rw [get?_eq_some_iff_mem.2 hentry] at h
  cases h

theorem published_eq_self (h : attrs.get? provenanceAttribute = none) :
    attrs.published = attrs := by
  rw [published, h]

/-- What is written are the entries of the map that is read back. -/
theorem entries_published (attrs : Attributes) :
    attrs.published.entries = Tree.writtenAttributes attrs := by
  rw [published, Tree.writtenAttributes]
  cases h : attrs.get? provenanceAttribute with
  | some mark => rfl
  | none => exact congrArg entries (without_eq_self h).symm

theorem get?_published_of_ne {name : String} (hmark : name ≠ provenanceAttribute)
    (hpublic : name ≠ definitionAttribute) : attrs.published.get? name = attrs.get? name := by
  rw [published]
  split
  · rw [get?_insert, if_neg hpublic.symm, get?_without, if_neg hmark.symm]
  · rfl

theorem get?_published_provenance (attrs : Attributes) :
    attrs.published.get? provenanceAttribute = none := by
  rw [published]
  split
  · rw [get?_insert, if_neg (by decide), get?_without, if_pos rfl]
  · next h => exact h

/-- Names that come first still do, except the mark of provenance. -/
theorem prefix_names_published {names : List String} (hp : names <+: attrs.names)
    (hn : provenanceAttribute ∉ names) : names <+: attrs.published.names := by
  have kept : names <+: (attrs.without provenanceAttribute).names := by
    rw [names_without, ← List.filter_eq_self.2 fun n h => decide_eq_true (ne_of_mem_of_not_mem h hn)]
    exact hp.filter _
  rw [published]
  split
  · rw [names_insert]
    split
    · exact kept
    · exact kept.trans (List.prefix_append _ _)
  · exact hp

end Attributes

namespace NodeType

/-- Where a mark of provenance is accepted, so is its value as a reference. -/
theorem accepts_definition {kind : NodeType} {mark : String}
    (h : kind.Accepts (provenanceAttribute, mark)) : kind.Accepts (definitionAttribute, mark) := by
  obtain ⟨rule, hrule, -⟩ := h
  cases kind with
  | report => cases hrule
  | _ => exact ⟨.plain definitionAttribute "UUID", rfl, rfl⟩

theorem entries_defaults (kind : NodeType) :
    (Attributes.ofList kind.defaults).entries = kind.defaults := by
  cases kind <;> rfl

theorem provenance_not_mem_defaults (kind : NodeType) :
    provenanceAttribute ∉ AttributeList.names kind.defaults := by
  cases kind <;> decide

theorem definition_not_mem_defaults (kind : NodeType) :
    definitionAttribute ∉ AttributeList.names kind.defaults := by
  cases kind <;> decide

end NodeType

namespace Node

variable {χ ψ : Type} {n : Node χ}

/-- The node as it is read back: its mark of provenance made public, and no text if
the text is blank. -/
def normal (n : Node χ) : Node χ :=
  { n with
    attributes := n.attributes.published
    body := match n.body with
      | .text content => .text (content.filter fun text => !text.toList.all Text.isSpace)
      | body => body }

@[simp] theorem kind_normal (n : Node χ) : n.normal.kind = n.kind := rfl

/-- The defaults of the type come first among the attributes. -/
def DefaultsFirst (n : Node χ) : Prop :=
  AttributeList.names n.kind.defaults <+: n.attributes.names

/-- Attributes are set if all of them are accepted, and nothing else changes. -/
theorem setAttributes_eq_ok_iff {m : Node χ} {entries : AttributeList} :
    n.setAttributes entries = .ok m ↔ (∀ entry ∈ entries, n.kind.Accepts entry) ∧
      m = { n with attributes := n.attributes.insertAll entries } := by
  induction entries generalizing n with
  | nil => exact ⟨fun h => ⟨nofun, (Except.ok.inj h).symm⟩, fun h => congrArg Except.ok h.2.symm⟩
  | cons entry rest ih =>
      obtain ⟨name, value⟩ := entry
      rw [setAttributes, bind_eq_ok, List.forall_mem_cons, and_assoc]
      constructor
      · rintro ⟨k, hset, h⟩
        obtain ⟨accepted, rfl⟩ := setAttribute_eq_ok hset
        exact ⟨accepted, ih.1 h⟩
      · rintro ⟨⟨rule, hrule, hcheck⟩, h⟩
        refine ⟨{ n with attributes := n.attributes.insert name value }, ?_, ih.2 h⟩
        rw [setAttribute, hrule]
        dsimp only at hcheck ⊢
        rw [hcheck]
        rfl

/-- Text that is not blank is kept. -/
theorem body_normal (h : ∀ text ∈ n.content?, text.toList.all Text.isSpace = false) :
    n.normal.body = n.body := by
  obtain ⟨kind, attributes, body⟩ := n
  cases body with
  | text content =>
      cases content with
      | none => rfl
      | some text => exact congrArg Body.text (by simp [h text rfl])
  | empty | children | foreign => rfl

theorem normal_eq_self (hmark : n.attribute? provenanceAttribute = none)
    (htext : ∀ text ∈ n.content?, text.toList.all Text.isSpace = false) : n.normal = n := by
  have attributes : n.normal.attributes = n.attributes := Attributes.published_eq_self hmark
  have body := body_normal htext
  obtain ⟨kind, before, held⟩ := n
  exact congrArg₂ (Node.mk kind) attributes body

/-! ### The attributes that are read back -/

/-- What is written of a valid node is accepted for its type. -/
theorem Valid.accepts_published (hn : n.Valid) :
    ∀ entry ∈ n.attributes.published.entries, n.kind.Accepts entry := by
  intro entry h
  rw [Attributes.published] at h
  split at h
  · next mark hmark =>
      rcases AttributeList.mem_put h with rfl | h
      · exact NodeType.accepts_definition (hn.attributes _ (Attributes.get?_eq_some_iff_mem.1 hmark))
      · exact hn.attributes entry (List.mem_of_mem_filter h)
  · exact hn.attributes entry h

/-- A valid node has an attribute for each default, which is written. -/
theorem Valid.mem_names_published (hn : n.Valid) {name : String}
    (h : name ∈ AttributeList.names n.kind.defaults) : name ∈ n.attributes.published.names := by
  have hmark := ne_of_mem_of_not_mem h n.kind.provenance_not_mem_defaults
  have hpublic := ne_of_mem_of_not_mem h n.kind.definition_not_mem_defaults
  obtain ⟨entry, hentry, rfl⟩ := List.mem_map.1 h
  obtain ⟨rule, hrule, hdefault⟩ := List.mem_filterMap.1 hentry
  obtain ⟨value, hvalue, rfl⟩ := Option.map_eq_some_iff.1 hdefault
  rw [← Attributes.isSome_get?_iff, Attributes.get?_published_of_ne hmark hpublic]
  exact hn.defaults rule hrule (by rw [hvalue]; rfl)

/-- The attributes of a valid node come back, though perhaps in another order. -/
theorem Valid.same_published (hn : n.Valid) :
    ((Attributes.ofList n.kind.defaults).insertAll n.attributes.published.entries).same
      n.attributes.published = true := by
  refine Attributes.same_iff.2 fun name => ?_
  rw [Attributes.get?, Attributes.entries_insertAll,
    AttributeList.get?_putAll, AttributeList.get?_reverse n.attributes.published.nodup,
    NodeType.entries_defaults]
  change (n.attributes.published.get? name).or _ = n.attributes.published.get? name
  cases h : n.attributes.published.get? name with
  | some value => rfl
  | none =>
      rw [Option.none_or, AttributeList.get?_eq_none_iff]
      intro hname
      have hsome := Attributes.isSome_get?_iff.2 (hn.mem_names_published hname)
      rw [h] at hsome
      cases hsome

/-- With the defaults in front they come back in their order. -/
theorem DefaultsFirst.insertAll_published (hd : n.DefaultsFirst) :
    (Attributes.ofList n.kind.defaults).insertAll n.attributes.published.entries =
      n.attributes.published := by
  refine Attributes.ext_entries ?_
  rw [Attributes.entries_insertAll, NodeType.entries_defaults]
  exact AttributeList.putAll_of_prefix
    (Attributes.prefix_names_published hd n.kind.provenance_not_mem_defaults)
    n.attributes.published.nodup

end Node

end IncidentReport
