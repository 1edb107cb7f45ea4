import IncidentReport.Proofs.Node.Normal
import IncidentReport.Proofs.Tree.Same
import IncidentReport.Proofs.Tree.Writing

/-!
What a tree shows of itself: the type of every node, the value of every attribute, and what
the node holds. Trees are the same if and only if they show the same, and so they are
written alike, up to the order of attributes.
-/

namespace IncidentReport

/-- What a tree shows of itself. The attributes are a map from names to values, so their
order does not show. -/
inductive Dump where
  | mk (kind : NodeType) (attribute? : String → Option String) (body : Body Dump)

namespace Node

variable {χ ψ ω : Type} {m : Node χ} {n : Node ψ}

/-- With something put in the place of the children, the same is held if all else that is
held is the same and the same has been put there. -/
theorem body_withChildren_map_eq_iff {j : χ → ω} {k : ψ → ω} :
    (m.withChildren (m.children.map j)).body = (n.withChildren (n.children.map k)).body ↔
      (m.withChildren ([] : List Tree)).body = (n.withChildren ([] : List Tree)).body ∧
        m.children.map j = n.children.map k := by
  obtain ⟨kind, attributes, body⟩ := m
  obtain ⟨kind', attributes', body'⟩ := n
  cases body <;> cases body' <;> simp [withChildren, children]

end Node

namespace Tree

mutual

def dump : Tree → Dump
  | ⟨⟨kind, attributes, body⟩⟩ => ⟨kind, attributes.get?, dumpBody body⟩

def dumpBody : Body Tree → Body Dump
  | .empty => .empty
  | .children ts => .children (dumpAll ts)
  | .text content => .text content
  | .foreign fragments => .foreign fragments

def dumpAll : List Tree → List Dump
  | [] => []
  | t :: ts => t.dump :: dumpAll ts

end

variable {t u : Tree}

theorem dumpAll_eq_map (ts : List Tree) : dumpAll ts = ts.map dump := by
  induction ts with
  | nil => rfl
  | cons t ts ih => rw [dumpAll, ih, List.map_cons]

theorem dump_mk (n : Node Tree) : (⟨n⟩ : Tree).dump =
    ⟨n.kind, n.attribute?, (n.withChildren (n.children.map dump)).body⟩ := by
  obtain ⟨kind, attributes, body⟩ := n
  cases body with
  | children ts =>
      rw [dump, dumpBody, dumpAll_eq_map]
      rfl
  | empty | text | foreign => rfl

/-- Trees are the same if and only if they show the same. -/
theorem same_iff_dump_eq : t.same u = true ↔ t.dump = u.dump := by
  induction t using Tree.induction generalizing u with
  | mk m below =>
      obtain ⟨n⟩ := u
      have children : List.Forall₂ (fun t u => t.same u = true) m.children n.children ↔
          m.children.map dump = n.children.map dump := by
        rw [← List.forall₂_eq_eq_eq, List.forall₂_map_left_iff, List.forall₂_map_right_iff]
        exact forall₂_congr_of_mem fun t ht u => below t ht
      rw [same_iff, dump_mk, dump_mk, Dump.mk.injEq, Node.body_withChildren_map_eq_iff, funext_iff,
        Node.alike_iff, and_assoc, and_assoc]
      exact and_congr_right fun _ => and_congr_right fun _ => and_congr_right fun _ => children

end Tree

/-! ### What is written -/

namespace Attributes

variable {as bs : Attributes}

/-- Maps that are the same are written with the same attributes. -/
theorem written_perm (h : ∀ name, as.get? name = bs.get? name) :
    (Tree.writtenAttributes as).Perm (Tree.writtenAttributes bs) := by
  rw [← entries_published, ← entries_published]
  refine entries_perm fun name => ?_
  rw [published, published, h]
  cases bs.get? provenanceAttribute with
  | none => exact h name
  | some mark => rw [get?_insert, get?_insert, get?_without, get?_without, h]

end Attributes

/-- The two differ at most in the order of the attributes of elements that nodes are read
from. Within an extension there is no difference. -/
inductive Markup.Node.Rearranged : Markup.Node → Markup.Node → Prop where
  | text (content : String) : Rearranged (.text content) (.text content)
  | payload {attributes attributes' : AttributeList} (nodes : List Markup.Node)
      (perm : attributes.Perm attributes') :
      Rearranged (.element NodeType.extension.name attributes nodes)
        (.element NodeType.extension.name attributes' nodes)
  | element {kind : NodeType} {attributes attributes' : AttributeList}
      {nodes nodes' : List Markup.Node} (typed : kind ≠ .extension)
      (perm : attributes.Perm attributes') (below : List.Forall₂ Rearranged nodes nodes') :
      Rearranged (.element kind.name attributes nodes) (.element kind.name attributes' nodes')

namespace Tree

variable {t u : Tree}

/-- Apart from markup from outside the schema, alike nodes hold what is written alike if their
children are. -/
theorem rearranged_bodyNodes {m n : Node Tree} (alike : m.Alike n)
    (typed : m.body.content ≠ .rawXml)
    (below : List.Forall₂ (fun t u => t.toElement.toNode.Rearranged u.toElement.toNode)
      m.children n.children) :
    List.Forall₂ Markup.Node.Rearranged (bodyNodes m.body) (bodyNodes n.body) := by
  have hbody := alike.body
  obtain ⟨kind, attributes, body⟩ := m
  obtain ⟨kind', attributes', body'⟩ := n
  cases body with
  | empty =>
      cases body' <;> cases hbody
      exact .nil
  | children ts =>
      cases body' <;> cases hbody
      rwa [bodyNodes_children, bodyNodes_children, List.forall₂_map_left_iff,
        List.forall₂_map_right_iff]
  | text content =>
      cases body' <;> cases hbody
      cases content with
      | none => exact .nil
      | some content => exact .cons (.text content) .nil
  | foreign => exact absurd rfl typed

/-- A tree that obeys the schema and one that is the same are written alike. -/
theorem rearranged_of_same (ht : t.Valid) (h : t.same u = true) :
    t.toElement.toNode.Rearranged u.toElement.toNode := by
  induction ht generalizing u with
  | @mk m root _ _ ih =>
      obtain ⟨n⟩ := u
      obtain ⟨alike, children⟩ := same_iff.1 h
      have perm := Attributes.written_perm alike.attribute?
      have below := ((List.forall₂_and_left _ _).2 ⟨@ih, children⟩).imp fun t u ⟨ih, h⟩ => ih h
      have holds := root.body
      have hbody := alike.body
      have nodes := rearranged_bodyNodes alike
      obtain ⟨kind, attributes, body⟩ := m
      obtain ⟨kind', attributes', body'⟩ := n
      obtain rfl : kind = kind' := alike.kind
      by_cases hkind : kind = .extension
      · subst hkind
        cases body <;> cases body' <;> cases holds
        all_goals cases hbody
        exact .payload _ perm
      · refine .element hkind perm (nodes (fun hraw => hkind ?_) below)
        exact NodeType.content_eq_rawXml_iff.1 (holds.symm.trans hraw)

end Tree

end IncidentReport
