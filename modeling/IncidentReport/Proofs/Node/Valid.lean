import IncidentReport.Node.Basic
import IncidentReport.Proofs.Outcome

/-!
Nodes that obey the schema as far as one node can: its attributes, the form of
what it holds, and its defaults. New nodes obey it, and so does what an accepted
edit makes of a node that does.
-/

namespace IncidentReport

/-- The class of content that a body has the form of. -/
def Body.content {χ : Type} : Body χ → ContentClass
  | .empty => .none
  | .children _ => .children
  | .text _ => .text
  | .foreign _ => .rawXml

@[simp] theorem Body.content_ofClass {χ : Type} (c : ContentClass) :
    (Body.ofClass c : Body χ).content = c := by
  cases c <;> rfl

namespace AttributeList

/-- Writing adds no entry but the one written. -/
theorem mem_put {attrs : AttributeList} {name value : String} {entry : String × String}
    (h : entry ∈ attrs.put name value) : entry = (name, value) ∨ entry ∈ attrs := by
  induction attrs with
  | nil => exact .inl (List.mem_singleton.1 h)
  | cons first rest ih =>
      obtain ⟨n, v⟩ := first
      by_cases hn : n = name
      · rw [put, if_pos hn, List.mem_cons] at h
        rcases h with rfl | h
        · exact .inl (by rw [hn])
        · exact .inr (List.mem_cons_of_mem _ h)
      · rw [put, if_neg hn, List.mem_cons] at h
        rcases h with rfl | h
        · exact .inr List.mem_cons_self
        · exact (ih h).imp_right (List.mem_cons_of_mem _)

end AttributeList

/-- A name that has a value keeps one. -/
theorem Attributes.contains_insert {attrs : Attributes} {name : String} (other value : String)
    (h : attrs.contains name) : (attrs.insert other value).contains name := by
  rw [contains, get?_insert]
  split
  · rfl
  · exact h

/-- The type carries an attribute of this name, and its rule accepts the value. -/
def NodeType.Accepts (kind : NodeType) (entry : String × String) : Prop :=
  ∃ rule, kind.attribute? entry.1 = some rule ∧ rule.check kind entry.2 = .ok ()

theorem NodeType.contains_defaults (kind : NodeType) : ∀ rule ∈ kind.attributes,
    rule.default.isSome → (Attributes.ofList kind.defaults).contains rule.name := by
  cases kind <;> decide

/-- The violation by which a node of this type refuses a child. -/
def NodeType.refusal (kind child : NodeType) : Violation :=
  if kind.content = .children then .childNotPermitted kind child
  else .contentMismatch kind .children kind.content

namespace Node

variable {χ ψ : Type}

/-- What the schema asks of a node on its own. -/
structure Valid (n : Node χ) : Prop where
  /-- Every attribute is one of the type, with a value that its rule accepts. -/
  attributes : ∀ entry ∈ n.attributes.entries, n.kind.Accepts entry
  /-- The body has the form of the content class. -/
  body : n.body.content = n.kind.content
  /-- Every attribute that has a default is there. -/
  defaults : ∀ rule ∈ n.kind.attributes, rule.default.isSome → n.attributes.contains rule.name

/-! ### What an edit returns -/

theorem setAttribute_eq_ok {n m : Node χ} {name value : String}
    (h : n.setAttribute name value = .ok m) :
    n.kind.Accepts (name, value) ∧
      m = { n with attributes := n.attributes.insert name value } := by
  rw [setAttribute] at h
  split at h
  · simp at h
  · next rule hrule =>
      obtain ⟨u, hcheck, hm⟩ := map_eq_ok.1 h
      exact ⟨⟨rule, hrule, hcheck⟩, hm.symm⟩

theorem checkChild_eq_ok {n : Node χ} {child : NodeType} {u : Unit}
    (h : n.checkChild child = .ok u) : n.kind.permits child = true := by
  rw [checkChild] at h
  split at h
  · simp at h
  · split at h
    · simp at h
    · next hp => simpa using hp

theorem checkChild_eq (n : Node χ) (child : NodeType) :
    n.checkChild child =
      if n.kind.permits child then .ok () else .error (n.kind.refusal child) := by
  rw [checkChild, mismatch, NodeType.refusal]
  by_cases hc : n.kind.content = .children
  · by_cases hp : n.kind.permits child <;> simp [hc, hp]
  · have hp : n.kind.permits child = false := by simp [NodeType.permits, hc]
    simp [hc, hp]

/-- What may be added is a question of the type. -/
theorem checkChild_congr {n : Node χ} {m : Node ψ} (h : n.kind = m.kind) (child : NodeType) :
    n.checkChild child = m.checkChild child := by
  rw [checkChild, checkChild, mismatch, mismatch, h]

@[simp] theorem kind_push (n : Node χ) (child : χ) : (n.push child).kind = n.kind := by
  rw [push]
  split <;> rfl

@[simp] theorem attributes_push (n : Node χ) (child : χ) :
    (n.push child).attributes = n.attributes := by
  rw [push]
  split <;> rfl

@[simp] theorem content_push (n : Node χ) (child : χ) :
    (n.push child).body.content = n.body.content := by
  rw [push]
  split
  · next hb => simp [hb, Body.content]
  · rfl
  · rfl
  · rfl

@[simp] theorem content_withChildren (n : Node χ) (nodes : List ψ) :
    (n.withChildren nodes).body.content = n.body.content := by
  rw [withChildren]
  cases n.body <;> rfl

@[simp] theorem content?_push (n : Node χ) (child : χ) : (n.push child).content? = n.content? := by
  obtain ⟨kind, attributes, body⟩ := n
  cases body <;> rfl

@[simp] theorem fragments_push (n : Node χ) (child : χ) :
    (n.push child).fragments = n.fragments := by
  obtain ⟨kind, attributes, body⟩ := n
  cases body <;> rfl

theorem permits_eq_true_imp {kind child : NodeType} (h : kind.permits child = true) :
    kind.content = .children := by
  simp only [NodeType.permits, Bool.and_eq_true, beq_iff_eq] at h
  exact h.1

theorem children_withChildren_of_content {n : Node χ} (h : n.body.content = .children)
    (nodes : List ψ) : (n.withChildren nodes).children = nodes := by
  unfold withChildren children
  cases hb : n.body <;> simp [hb, Body.content] at h ⊢

theorem children_eq_nil_of_content {n : Node χ} (h : n.body.content ≠ .children) :
    n.children = [] := by
  unfold children
  cases hb : n.body <;> simp [hb, Body.content] at h ⊢

/-- Only nodes that hold children get any. -/
theorem children_withChildren_subset (n : Node χ) (nodes : List ψ) :
    ∀ child ∈ (n.withChildren nodes).children, child ∈ nodes := by
  intro child h
  by_cases hb : n.body.content = .children
  · rwa [children_withChildren_of_content hb] at h
  · rw [children_eq_nil_of_content (by simpa using hb)] at h
    exact absurd h (List.not_mem_nil (a := child))

@[simp] theorem children_withoutChildren (n : Node χ) : n.withoutChildren.children = [] :=
  List.eq_nil_iff_forall_not_mem.2 fun child h =>
    List.not_mem_nil (children_withChildren_subset n [] child h)

theorem children_push_of_content {n : Node χ} (h : n.body.content = .children) (child : χ) :
    (n.push child).children = n.children ++ [child] := by
  unfold push children
  cases hb : n.body <;> simp [hb, Body.content] at h ⊢

/-- An accepted value is the only one that a node gains by setting attributes. -/
theorem accepts_of_setAttributes {n m : Node χ} {entries : AttributeList}
    (h : n.setAttributes entries = .ok m) :
    m.kind = n.kind ∧ m.body = n.body ∧
      (∀ entry ∈ m.attributes.entries, entry ∈ n.attributes.entries ∨ n.kind.Accepts entry) ∧
      ∀ name, n.attributes.contains name → m.attributes.contains name := by
  induction entries generalizing n with
  | nil =>
      simp only [setAttributes, Except.ok.injEq] at h
      subst h
      exact ⟨rfl, rfl, fun _ => .inl, fun _ => id⟩
  | cons entry rest ih =>
      obtain ⟨name, value⟩ := entry
      obtain ⟨k, hs, h⟩ := bind_eq_ok.1 h
      obtain ⟨accepted, rfl⟩ := setAttribute_eq_ok hs
      obtain ⟨hk, hb, he, hc⟩ := ih h
      refine ⟨hk, hb, fun entry hm => ?_, fun other ho => ?_⟩
      · rcases he entry hm with hm | hm
        · rcases AttributeList.mem_put hm with rfl | hm
          · exact .inr accepted
          · exact .inl hm
        · exact .inr hm
      · exact hc other (Attributes.contains_insert name value ho)

theorem push_eq_self {n : Node χ} (h : n.body.content ≠ .children) (child : χ) :
    n.push child = n := by
  rw [push]
  split
  · next hb => simp [hb, Body.content] at h
  · rfl
  · rfl
  · rfl

theorem withChildren_eq_self {n : Node χ} (h : n.body.content ≠ .children) (nodes : List χ) :
    n.withChildren nodes = n := by
  obtain ⟨kind, attributes, body⟩ := n
  cases body with
  | children => exact absurd rfl h
  | empty | text | foreign => rfl

@[simp] theorem withChildren_children (n : Node χ) : n.withChildren n.children = n := by
  obtain ⟨kind, attributes, body⟩ := n
  cases body <;> rfl

@[simp] theorem withChildren_withChildren {ω : Type} (n : Node χ) (nodes : List ψ)
    (others : List ω) : (n.withChildren nodes).withChildren others = n.withChildren others := by
  obtain ⟨kind, attributes, body⟩ := n
  cases body <;> rfl

@[simp] theorem withChildren_push (n : Node χ) (child : χ) (nodes : List ψ) :
    (n.push child).withChildren nodes = n.withChildren nodes := by
  obtain ⟨kind, attributes, body⟩ := n
  cases body <;> rfl

theorem setAttribute_withChildren (n : Node χ) (nodes : List ψ) (name value : String) :
    (n.withChildren nodes).setAttribute name value =
      (n.setAttribute name value).map (·.withChildren nodes) := by
  rw [setAttribute, setAttribute, withChildren]
  cases n.kind.attribute? name with
  | none => rfl
  | some rule => cases hcheck : rule.check n.kind value <;> simp [hcheck, Except.map, withChildren]

theorem replaceContent_withChildren (n : Node χ) (nodes : List ψ) (content : Option String) :
    (n.withChildren nodes).replaceContent content =
      (n.replaceContent content).map (·.withChildren nodes) := by
  obtain ⟨kind, attributes, body⟩ := n
  cases body <;> rfl

theorem addFragment_withChildren (n : Node χ) (nodes : List ψ) (fragment : Markup.Node) :
    (n.withChildren nodes).addFragment fragment =
      (n.addFragment fragment).map (·.withChildren nodes) := by
  obtain ⟨kind, attributes, body⟩ := n
  cases body <;> rfl

theorem withChildren_map {n : Node χ} {nodes : List ψ} {k : ψ → χ}
    (h : nodes.map k = n.children) :
    (n.withChildren nodes).withChildren ((n.withChildren nodes).children.map k) = n := by
  by_cases hb : n.body.content = .children
  · rw [children_withChildren_of_content hb, h, withChildren_withChildren, withChildren_children]
  · rw [withChildren_withChildren, withChildren_eq_self hb]

theorem push_withChildren (n : Node χ) (nodes : List χ) (child : χ) :
    (n.withChildren nodes).push child = n.withChildren (nodes ++ [child]) := by
  obtain ⟨kind, attributes, body⟩ := n
  cases body <;> rfl

theorem replaceContent_eq_ok {n m : Node χ} {content : Option String}
    (h : n.replaceContent content = .ok m) :
    n.body.content = .text ∧ m = { n with body := .text content } := by
  rw [replaceContent] at h
  split at h
  · next hb =>
      rw [hb]
      exact ⟨rfl, (Except.ok.inj h).symm⟩
  all_goals cases h

theorem addFragment_eq_ok {n m : Node χ} {fragment : Markup.Node}
    (h : n.addFragment fragment = .ok m) :
    n.body.content = .rawXml ∧
      m = { n with body := .foreign (n.fragments ++ [fragment]) } := by
  rw [addFragment] at h
  split at h
  · next hb =>
      rw [fragments, hb]
      exact ⟨rfl, (Except.ok.inj h).symm⟩
  all_goals cases h

/-! ### Valid nodes -/

namespace Valid

/-- What a node holds for its type is all that its validity depends on. -/
theorem congr {n : Node χ} {m : Node ψ} (h : n.Valid) (hk : m.kind = n.kind)
    (ha : m.attributes = n.attributes) (hb : m.body.content = n.body.content) : m.Valid where
  attributes := by rw [hk, ha]; exact h.attributes
  body := by rw [hk, hb]; exact h.body
  defaults := by rw [hk, ha]; exact h.defaults

theorem push {n : Node χ} (h : n.Valid) (child : χ) : (n.push child).Valid :=
  h.congr (by simp) (by simp) (by simp)

theorem withChildren {n : Node χ} (h : n.Valid) (nodes : List ψ) : (n.withChildren nodes).Valid :=
  h.congr rfl rfl (by simp)

end Valid

/-! ### Edits of one node -/

/-- What an edit has made of a node without a change to its type or its children.
A valid node stays valid. -/
structure Amends (n m : Node χ) : Prop where
  kind : m.kind = n.kind
  children : m.children = n.children
  valid : n.Valid → m.Valid

theorem amends_setAttributes {n m : Node χ} {entries : AttributeList}
    (h : n.setAttributes entries = .ok m) : n.Amends m := by
  obtain ⟨hk, hb, he, hc⟩ := accepts_of_setAttributes h
  refine ⟨hk, by rw [children, hb, ← children], fun hn => ?_⟩
  constructor
  · intro entry hmem
    rw [hk]
    exact (he entry hmem).elim (hn.attributes entry) id
  · rw [hk, hb]
    exact hn.body
  · intro rule hr hd
    rw [hk] at hr
    exact hc _ (hn.defaults rule hr hd)

theorem amends_setAttribute {n m : Node χ} {name value : String}
    (h : n.setAttribute name value = .ok m) : n.Amends m := by
  have hlist : n.setAttributes [(name, value)] = .ok m := by
    exact bind_eq_ok.2 ⟨m, h, rfl⟩
  exact amends_setAttributes hlist

/-- Neither of two bodies of the same form holds children that the other lacks, if
it is not made for children. -/
theorem amends_of_body {n : Node χ} {body : Body χ} (hb : body.content = n.body.content)
    (hn : n.body.content ≠ .children) : n.Amends { n with body := body } where
  kind := rfl
  children := by
    rw [children_eq_nil_of_content hn]
    exact children_eq_nil_of_content (by rwa [hb])
  valid h := h.congr rfl rfl hb

theorem amends_replaceContent {n m : Node χ} {content : Option String}
    (h : n.replaceContent content = .ok m) : n.Amends m := by
  obtain ⟨hb, rfl⟩ := replaceContent_eq_ok h
  apply amends_of_body
  · rw [hb]
    rfl
  · simp [hb]

theorem amends_addFragment {n m : Node χ} {fragment : Markup.Node}
    (h : n.addFragment fragment = .ok m) : n.Amends m := by
  obtain ⟨hb, rfl⟩ := addFragment_eq_ok h
  apply amends_of_body
  · rw [hb]
    rfl
  · simp [hb]

/-- A new node obeys the schema. Its defaults pass their own rules. -/
theorem new_valid (kind : NodeType) : (new kind : Node χ).Valid where
  attributes entry h := by
    obtain ⟨-, -, he, -⟩ := accepts_of_setAttributes (setAttributes_defaults (χ := χ) kind)
    exact (he entry h).resolve_left (List.not_mem_nil (a := entry))
  body := Body.content_ofClass kind.content
  defaults := kind.contains_defaults

theorem children_new (kind : NodeType) : (new kind : Node χ).children = [] := by
  cases kind <;> rfl

theorem withIdentity_eq_ok {kind : NodeType} {id definition akindof : Option String} {n : Node χ}
    (h : withIdentity kind id definition akindof = .ok n) : n.Valid ∧ n.children = [] := by
  have amended := amends_setAttributes h
  exact ⟨amended.valid (new_valid kind), amended.children.trans (children_new kind)⟩

end Node

end IncidentReport
