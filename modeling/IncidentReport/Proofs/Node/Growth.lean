import IncidentReport.Proofs.Node.Normal

/-!
Nodes in the course of time. An edit may give an attribute another value, but it takes
nothing away, and what it adds comes last. So the defaults of the type stay in front, and
a required attribute that is there is never missing again.
-/

namespace IncidentReport.Node

variable {χ : Type} {n m k : Node χ} {name value : String}

/-- What a node may become. Nothing of it is lost or moved, and what is new comes behind
what was there. -/
structure GrowsTo (n m : Node χ) : Prop where
  kind : m.kind = n.kind
  names : n.attributes.names <+: m.attributes.names
  children : n.children <+: m.children
  fragments : n.fragments <+: m.fragments

namespace GrowsTo

theorem refl (n : Node χ) : n.GrowsTo n :=
  ⟨rfl, List.prefix_rfl, List.prefix_rfl, List.prefix_rfl⟩

theorem trans (h : n.GrowsTo m) (h' : m.GrowsTo k) : n.GrowsTo k where
  kind := h'.kind.trans h.kind
  names := h.names.trans h'.names
  children := h.children.trans h'.children
  fragments := h.fragments.trans h'.fragments

/-- Attributes that are set keep their places or come last. -/
theorem setAttributes {entries : AttributeList} (h : n.setAttributes entries = .ok m) :
    n.GrowsTo m := by
  obtain ⟨-, rfl⟩ := setAttributes_eq_ok_iff.1 h
  refine ⟨rfl, ?_, List.prefix_rfl, List.prefix_rfl⟩
  rw [Attributes.names, Attributes.names, Attributes.entries_insertAll]
  exact AttributeList.prefix_names_putAll _ _

theorem setAttribute (h : n.setAttribute name value = .ok m) : n.GrowsTo m := by
  have hlist : n.setAttributes [(name, value)] = .ok m := bind_eq_ok.2 ⟨m, h, rfl⟩
  exact setAttributes hlist

theorem replaceContent {content : Option String} (h : n.replaceContent content = .ok m) :
    n.GrowsTo m := by
  obtain ⟨hbody, rfl⟩ := replaceContent_eq_ok h
  obtain ⟨kind, attributes, body⟩ := n
  cases body with
  | text before => exact ⟨rfl, List.prefix_rfl, List.prefix_rfl, List.prefix_rfl⟩
  | empty | children | foreign => cases hbody

theorem addFragment {fragment : Markup.Node} (h : n.addFragment fragment = .ok m) :
    n.GrowsTo m := by
  obtain ⟨hbody, rfl⟩ := addFragment_eq_ok h
  obtain ⟨kind, attributes, body⟩ := n
  cases body with
  | foreign before => exact ⟨rfl, List.prefix_rfl, List.prefix_rfl, List.prefix_append _ _⟩
  | empty | children | text => cases hbody

/-- New children come behind the old ones. -/
theorem withChildren (n : Node χ) (new : List χ) :
    n.GrowsTo (n.withChildren (n.children ++ new)) := by
  obtain ⟨kind, attributes, body⟩ := n
  cases body with
  | children before => exact ⟨rfl, List.prefix_rfl, List.prefix_append _ _, List.prefix_rfl⟩
  | empty | text | foreign =>
      exact ⟨rfl, List.prefix_rfl, List.prefix_rfl, List.prefix_rfl⟩

theorem push (n : Node χ) (child : χ) : n.GrowsTo (n.push child) := by
  have grown := withChildren n [child]
  rwa [← push_withChildren, withChildren_children] at grown

end GrowsTo

/-! ### What is missing -/

theorem missingAttributes_eq (n : Node χ) :
    n.missingAttributes = (n.kind.attributes.filter fun rule =>
      rule.required && !n.attributes.contains rule.name).map AttributeRule.name := by
  rw [← List.filterMap_eq_map, List.filterMap_filter]
  rfl

/-- What is missing has been missing all along. -/
theorem GrowsTo.missing (h : n.GrowsTo m) :
    m.missingAttributes.Sublist n.missingAttributes := by
  rw [missingAttributes_eq, missingAttributes_eq, h.kind]
  refine (List.monotone_filter_right _ fun rule hrule => ?_).map _
  simp only [Bool.and_eq_true, Bool.not_eq_true'] at hrule ⊢
  refine ⟨hrule.1, ?_⟩
  by_contra hname
  have kept := h.names.subset (Attributes.isSome_get?_iff.1 (Bool.not_eq_false _ ▸ hname))
  rw [Attributes.contains, Attributes.isSome_get?_iff.2 kept] at hrule
  exact absurd hrule.2 (by decide)

/-! ### Defaults in front -/

theorem defaultsFirst_new (kind : NodeType) : (new kind : Node χ).DefaultsFirst := by
  rw [DefaultsFirst, Attributes.names]
  exact (congrArg AttributeList.names kind.entries_defaults).symm ▸ List.prefix_rfl

theorem DefaultsFirst.grow (hn : n.DefaultsFirst) (h : n.GrowsTo m) : m.DefaultsFirst := by
  rw [DefaultsFirst, h.kind]
  exact hn.trans h.names

theorem defaultsFirst_withIdentity {kind : NodeType} {id definition akindof : Option String}
    (h : withIdentity kind id definition akindof = .ok n) : n.DefaultsFirst :=
  (defaultsFirst_new kind).grow (.setAttributes h)

end IncidentReport.Node
