import IncidentReport.Proofs.Node.Attributes
import IncidentReport.Proofs.Node.Valid
import IncidentReport.Tree.Basic
import Mathlib.Data.List.Forall2

/-!
Trees that are the same. They have roots that are alike, up to the order of
attributes, and their children are the same one by one.
-/

namespace IncidentReport

namespace Node

variable {χ ψ : Type} {m : Node χ} {n : Node ψ}

/-- Two nodes are the same apart from the order of attributes and from their
children. -/
@[mk_iff] structure Alike (m : Node χ) (n : Node ψ) : Prop where
  kind : m.kind = n.kind
  attribute? : ∀ name, m.attribute? name = n.attribute? name
  body : (m.withChildren ([] : List Tree)).body = (n.withChildren ([] : List Tree)).body

theorem Alike.refl (n : Node χ) : n.Alike n :=
  ⟨rfl, fun _ => rfl, rfl⟩

theorem Alike.withChildren {ω υ : Type} (h : m.Alike n) (ts : List ω) (us : List υ) :
    (m.withChildren ts).Alike (n.withChildren us) where
  kind := h.kind
  attribute? := h.attribute?
  body := by
    rw [withChildren_withChildren, withChildren_withChildren]
    exact h.body

theorem Alike.withChildren_iff {ω υ : Type} (ts : List ω) (us : List υ) :
    (m.withChildren ts).Alike (n.withChildren us) ↔ m.Alike n := by
  refine ⟨fun h => ⟨h.kind, h.attribute?, ?_⟩, fun h => h.withChildren ts us⟩
  have hbody := h.body
  rwa [withChildren_withChildren, withChildren_withChildren] at hbody

theorem Alike.content (h : m.Alike n) : m.body.content = n.body.content := by
  rw [← content_withChildren m ([] : List Tree), ← content_withChildren n ([] : List Tree), h.body]

/-- Alike nodes hold what they are given, or both hold nothing. -/
theorem Alike.forall₂_children {ω υ : Type} {R : ω → υ → Prop} {ts : List ω} {us : List υ}
    (h : m.Alike n) (hts : List.Forall₂ R ts us) :
    List.Forall₂ R (m.withChildren ts).children (n.withChildren us).children := by
  by_cases hm : m.body.content = .children
  · rwa [children_withChildren_of_content hm, children_withChildren_of_content (h.content ▸ hm)]
  · have hn := h.content ▸ hm
    rw [children_eq_nil_of_content (by simpa using hm),
      children_eq_nil_of_content (by simpa using hn)]
    exact .nil

theorem Alike.insert (h : m.Alike n) (name value : String) :
    ({ m with attributes := m.attributes.insert name value } : Node χ).Alike
      { n with attributes := n.attributes.insert name value } where
  kind := h.kind
  attribute? other := by
    have same := h.attribute? other
    simp only [Node.attribute?, Attributes.get?_insert] at same ⊢
    rw [same]
  body := h.body

/-! Edits come to the same end on alike nodes. -/

theorem Alike.setAttribute (h : m.Alike n) (name value : String) :
    Agree Alike (m.setAttribute name value) (n.setAttribute name value) := by
  obtain ⟨kind, attributes, body⟩ := m
  obtain ⟨kind', attributes', body'⟩ := n
  obtain rfl : kind = kind' := h.kind
  rw [Node.setAttribute, Node.setAttribute]
  dsimp only
  cases kind.attribute? name with
  | none => exact .error _
  | some rule =>
      dsimp only
      cases rule.check kind value with
      | error violation => exact .error _
      | ok _ => exact .ok (h.insert name value)

theorem Alike.replaceContent (h : m.Alike n) (content : Option String) :
    Agree Alike (m.replaceContent content) (n.replaceContent content) := by
  obtain ⟨kind, attributes, body⟩ := m
  obtain ⟨kind', attributes', body'⟩ := n
  obtain rfl : kind = kind' := h.kind
  have hbody := h.body
  cases body <;> cases body' <;> cases hbody
  case text => exact .ok ⟨rfl, h.attribute?, rfl⟩
  all_goals exact .error _

theorem Alike.addFragment (h : m.Alike n) (fragment : Markup.Node) :
    Agree Alike (m.addFragment fragment) (n.addFragment fragment) := by
  obtain ⟨kind, attributes, body⟩ := m
  obtain ⟨kind', attributes', body'⟩ := n
  obtain rfl : kind = kind' := h.kind
  have hbody := h.body
  cases body <;> cases body' <;> cases hbody
  case foreign => exact .ok ⟨rfl, h.attribute?, rfl⟩
  all_goals exact .error _

/-- Nodes that are the same but for their children are told apart by the first children
that differ. -/
theorem sameBy_eq (same : χ → ψ → Bool) (m : Node χ) (n : Node ψ) :
    m.sameBy same n =
      (m.sameBy (fun _ _ => true) n && (m.children.zip n.children).all fun (t, u) => same t u) := by
  have always : ∀ pairs : List (χ × ψ), (pairs.all fun _ => true) = true := fun pairs =>
    List.all_eq_true.2 fun _ _ => rfl
  obtain ⟨kind, attributes, body⟩ := m
  obtain ⟨kind', attributes', body'⟩ := n
  cases body <;> cases body' <;> simp [sameBy, children, always, Bool.and_assoc]

theorem sameBy_iff {same : χ → ψ → Bool} :
    m.sameBy same n = true ↔
      m.Alike n ∧ List.Forall₂ (fun t u => same t u = true) m.children n.children := by
  have attributes : m.attributes.same n.attributes = true ↔
      ∀ name, m.attribute? name = n.attribute? name := Attributes.same_iff
  rw [sameBy, Bool.and_eq_true, Bool.and_eq_true, beq_iff_eq, attributes, alike_iff,
    List.forall₂_iff_zip, and_assoc, and_assoc, and_assoc]
  refine and_congr_right fun _ => and_congr_right fun _ => ?_
  obtain ⟨kind, attributes, body⟩ := m
  obtain ⟨kind', attributes', body'⟩ := n
  cases body <;> cases body' <;> simp [Node.withChildren, children]

end Node

namespace Tree

/-- Trees are the same if their roots are alike and their children the same. -/
theorem same_iff {t u : Tree} : t.same u = true ↔
    t.node.Alike u.node ∧ List.Forall₂ (fun t u => t.same u = true) t.children u.children := by
  rw [same_eq_sameBy, Node.sameBy_iff]
  rfl

theorem same_withChildren {m n : Node Tree} {ts us : List Tree} (h : m.Alike n)
    (hts : List.Forall₂ (fun t u => t.same u = true) ts us) :
    (⟨m.withChildren ts⟩ : Tree).same ⟨n.withChildren us⟩ = true :=
  same_iff.2 ⟨h.withChildren ts us, h.forall₂_children hts⟩

theorem same_refl (t : Tree) : t.same t = true := by
  induction t using Tree.induction with
  | mk n below => exact same_iff.2 ⟨.refl n, List.forall₂_same.2 below⟩

end Tree

end IncidentReport
