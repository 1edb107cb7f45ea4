import IncidentReport.Forest.Edit
import IncidentReport.Proofs.Forest.Paths
import IncidentReport.Proofs.Node.Valid

/-!
Forests that obey the schema: every node does, every child is permitted where it
stands, and no node is below itself. New nodes and accepted edits keep this so.
That no cycle arises rests on the search for the parent below the child before a
child is added, and on this search being complete.
-/

namespace IncidentReport.Forest

/-- What the schema asks of the nodes of a forest together. -/
structure WellFormed (f : Forest) : Prop where
  nodes : ∀ id, f.Has id → (f.get id).Valid
  closed : f.Closed
  /-- Every child is of a type that is permitted under its parent. -/
  permitted : ∀ parent child, f.HasChild parent child →
    (f.get parent).kind.permits (f.get child).kind = true
  acyclic : f.Acyclic

theorem not_has_empty (id : NodeId) : ¬ empty.Has id :=
  Nat.not_lt_zero _

theorem wellFormed_empty : WellFormed empty where
  nodes id h := absurd h (not_has_empty id)
  closed parent child h := absurd (has_of_hasChild h) (not_has_empty parent)
  permitted parent child h := absurd (has_of_hasChild h) (not_has_empty parent)
  acyclic id h := by
    obtain ⟨child, h, -⟩ := Relation.TransGen.head'_iff.1 h
    exact not_has_empty id (has_of_hasChild h)

variable {f : Forest}

namespace WellFormed

theorem valid (hf : f.WellFormed) (id : NodeId) : (f.get id).Valid := by
  by_cases h : f.Has id
  · exact hf.nodes id h
  · rw [get_of_not_has h]
    exact Node.new_valid .report

theorem tree_eq (hf : f.WellFormed) (id : NodeId) :
    f.tree id = ⟨(f.get id).withChildren ((f.children id).map f.tree)⟩ :=
  Forest.tree_eq hf.acyclic hf.closed id

theorem kind_tree (hf : f.WellFormed) (id : NodeId) : (f.tree id).kind = (f.get id).kind :=
  Forest.kind_tree hf.acyclic hf.closed id

end WellFormed

/-! ### A new node -/

theorem has_add {node : Node NodeId} {id : NodeId} :
    (f.add node).2.Has id ↔ f.Has id ∨ id = (f.add node).1 := by
  rw [Has, size_add, Nat.lt_succ_iff_lt_or_eq]
  refine or_congr Iff.rfl ⟨fun h => ?_, fun h => by rw [h]; rfl⟩
  cases id
  exact congrArg NodeId.mk h

theorem has_add_self (node : Node NodeId) : (f.add node).2.Has (f.add node).1 :=
  has_add.2 (.inr rfl)

theorem not_has_add_self (node : Node NodeId) : ¬ f.Has (f.add node).1 :=
  Nat.lt_irrefl _

theorem get_add_of_has {id : NodeId} (node : Node NodeId) (h : f.Has id) :
    (f.add node).2.get id = f.get id :=
  get_add_of_lt node h

theorem hasChild_add {node : Node NodeId} {parent child : NodeId} :
    (f.add node).2.HasChild parent child ↔
      f.HasChild parent child ∨ parent = (f.add node).1 ∧ child ∈ node.children := by
  constructor
  · intro h
    rcases has_add.1 (has_of_hasChild h) with hp | rfl
    · rw [HasChild, children, get_add_of_has node hp] at h
      exact .inl h
    · rw [HasChild, children, get_add_self] at h
      exact .inr ⟨rfl, h⟩
  · rintro (h | ⟨rfl, h⟩)
    · rw [HasChild, children, get_add_of_has node (has_of_hasChild h)]
      exact h
    · rw [HasChild, children, get_add_self]
      exact h

theorem hasChild_of_add (hf : f.WellFormed) {node : Node NodeId} {a b : NodeId} (ha : f.Has a)
    (h : (f.add node).2.HasChild a b) : f.HasChild a b ∧ f.Has b := by
  rcases hasChild_add.1 h with h | ⟨rfl, -⟩
  · exact ⟨h, hf.closed _ _ h⟩
  · exact absurd ha (not_has_add_self node)

/-- From an old node no path leads to one that is new. -/
theorem transGen_of_add (hf : f.WellFormed) {node : Node NodeId} {a b : NodeId} (ha : f.Has a)
    (h : Relation.TransGen (f.add node).2.HasChild a b) :
    Relation.TransGen f.HasChild a b ∧ f.Has b := by
  induction h with
  | single hstep =>
      obtain ⟨hstep, hb⟩ := hasChild_of_add hf ha hstep
      exact ⟨.single hstep, hb⟩
  | tail _ hstep ih =>
      obtain ⟨hpath, hmid⟩ := ih
      obtain ⟨hstep, hb⟩ := hasChild_of_add hf hmid hstep
      exact ⟨hpath.tail hstep, hb⟩

theorem acyclic_add (hf : f.WellFormed) {node : Node NodeId}
    (hc : ∀ child ∈ node.children, f.Has child) : (f.add node).2.Acyclic := by
  intro id h
  by_cases hid : f.Has id
  · exact hf.acyclic id (transGen_of_add hf hid h).1
  · -- The node is the new one, and a cycle through it would go on from an old child.
    obtain ⟨child, hstep, hrest⟩ := Relation.TransGen.head'_iff.1 h
    rcases hasChild_add.1 hstep with hstep | ⟨rfl, hmem⟩
    · exact hid (has_of_hasChild hstep)
    · rcases hrest.cases_head with rfl | ⟨next, hnext, hlast⟩
      · exact hid (hc _ hmem)
      · have back := Relation.TransGen.head'_iff.2 ⟨next, hnext, hlast⟩
        exact hid (transGen_of_add hf (hc _ hmem) back).2

theorem WellFormed.add (hf : f.WellFormed) {node : Node NodeId} (hn : node.Valid)
    (hc : ∀ child ∈ node.children, f.Has child ∧ node.kind.permits (f.get child).kind = true) :
    (f.add node).2.WellFormed where
  nodes id h := by
    rcases has_add.1 h with h | rfl
    · rw [get_add_of_has node h]
      exact hf.nodes id h
    · rw [get_add_self]
      exact hn
  closed parent child h := by
    rcases hasChild_add.1 h with h | ⟨-, hmem⟩
    · exact has_add.2 (.inl (hf.closed _ _ h))
    · exact has_add.2 (.inl (hc child hmem).1)
  permitted parent child h := by
    rcases hasChild_add.1 h with h | ⟨rfl, hmem⟩
    · rw [get_add_of_has node (has_of_hasChild h), get_add_of_has node (hf.closed _ _ h)]
      exact hf.permitted _ _ h
    · rw [get_add_self, get_add_of_has node (hc child hmem).1]
      exact (hc child hmem).2
  acyclic := acyclic_add hf fun child h => (hc child h).1

/-! ### An edited node -/

theorem has_set {id other : NodeId} {node : Node NodeId} :
    (f.set id node).Has other ↔ f.Has other := by
  rw [Has, Has, size_set]

theorem edit_eq_ok {g : Forest} {id : NodeId}
    {change : Node NodeId → Except Violation (Node NodeId)} (h : f.edit id change = .ok g) :
    ∃ node, change (f.get id) = .ok node ∧ g = f.set id node := by
  obtain ⟨node, hn, hg⟩ := map_eq_ok.1 h
  exact ⟨node, hn, hg.symm⟩

theorem get_set_or (f : Forest) (id other : NodeId) (node : Node NodeId) :
    (f.set id node).get other = f.get other ∨
      other = id ∧ f.Has id ∧ (f.set id node).get other = node := by
  by_cases ho : other = id
  · by_cases hid : f.Has id
    · exact .inr ⟨ho, hid, by rw [ho]; exact get_set_self node hid⟩
    · refine .inl ?_
      subst ho
      rw [get_of_not_has hid, get_of_not_has (mt has_set.1 hid)]
  · exact .inl (get_set_of_ne node ho)

/-- Every handle still names a node, and a node of the same type. -/
def Extends (f g : Forest) : Prop :=
  ∀ id, f.Has id → g.Has id ∧ (g.get id).kind = (f.get id).kind

theorem kind_set {id : NodeId} {node : Node NodeId} (hk : node.kind = (f.get id).kind)
    (other : NodeId) : ((f.set id node).get other).kind = (f.get other).kind := by
  rcases get_set_or f id other node with h | ⟨rfl, -, h⟩ <;> rw [h]
  exact hk

theorem extends_set {id : NodeId} {node : Node NodeId} (hk : node.kind = (f.get id).kind) :
    f.Extends (f.set id node) :=
  fun other ho => ⟨has_set.2 ho, kind_set hk other⟩

/-- An edit that keeps the type and the children of a node moves nothing. -/
theorem WellFormed.set (hf : f.WellFormed) {id : NodeId} {node : Node NodeId}
    (hn : (f.get id).Amends node) : (f.set id node).WellFormed := by
  have links : (f.set id node).HasChild = f.HasChild := by
    funext parent child
    rw [HasChild, HasChild, children]
    rcases get_set_or f id parent node with h | ⟨rfl, -, h⟩ <;> rw [h]
    · rfl
    · rw [hn.children, ← children]
  refine ⟨fun other ho => ?_, fun parent child h => ?_, fun parent child h => ?_, ?_⟩
  · rcases get_set_or f id other node with h | ⟨-, -, h⟩ <;> rw [h]
    · exact hf.valid other
    · exact hn.valid (hf.valid id)
  · rw [links] at h
    exact has_set.2 (hf.closed _ _ h)
  · rw [links] at h
    rw [kind_set hn.kind, kind_set hn.kind]
    exact hf.permitted _ _ h
  · rw [Acyclic, links]
    exact hf.acyclic

variable {g : Forest} {id : NodeId} {change : Node NodeId → Except Violation (Node NodeId)}

theorem extends_edit (hchange : ∀ {n m}, change n = .ok m → n.Amends m)
    (h : f.edit id change = .ok g) : f.Extends g := by
  obtain ⟨node, hn, rfl⟩ := edit_eq_ok h
  exact extends_set (hchange hn).kind

theorem WellFormed.edit (hf : f.WellFormed) (hchange : ∀ {n m}, change n = .ok m → n.Amends m)
    (h : f.edit id change = .ok g) : g.WellFormed := by
  obtain ⟨node, hn, rfl⟩ := edit_eq_ok h
  exact hf.set (hchange hn)

/-! ### A new child -/

theorem addChild_eq_ok {g : Forest} {parent child : NodeId}
    (h : f.addChild parent child = .ok g) :
    (f.get parent).kind.permits (f.get child).kind = true ∧ f.contains child parent = false ∧
      g = f.set parent ((f.get parent).push child) := by
  rw [Forest.addChild] at h
  obtain ⟨node, hn, rfl⟩ := edit_eq_ok h
  obtain ⟨u, hcheck, hn⟩ := bind_eq_ok.1 hn
  refine ⟨Node.checkChild_eq_ok hcheck, ?_⟩
  cases hb : f.contains child parent with
  | true => simp [hb, bind, Except.bind, throw, throwThe, MonadExceptOf.throw] at hn
  | false =>
      simp only [hb, Bool.false_eq_true, if_false, pure_eq_ok] at hn
      exact ⟨rfl, by rw [hn]⟩

theorem addChild_of_not_reaches (hf : f.WellFormed) {parent child : NodeId} (hc : f.Has child)
    (hno : ¬ f.Reaches child parent) :
    f.addChild parent child = ((f.get parent).checkChild (f.get child).kind).map fun _ =>
      f.set parent ((f.get parent).push child) := by
  have hcontains := (contains_eq_false_iff hf.acyclic hf.closed hc).2 hno
  rw [addChild, edit]
  simp only [hcontains]
  cases (f.get parent).checkChild (f.get child).kind <;> rfl

theorem extends_addChild {g : Forest} {parent child : NodeId}
    (h : f.addChild parent child = .ok g) : f.Extends g := by
  obtain ⟨-, -, rfl⟩ := addChild_eq_ok h
  exact extends_set (Node.kind_push _ _)

theorem hasChild_set_push {parent child : NodeId} (hp : f.Has parent)
    (hb : (f.get parent).body.content = .children) {a b : NodeId} :
    (f.set parent ((f.get parent).push child)).HasChild a b ↔
      f.HasChild a b ∨ a = parent ∧ b = child := by
  by_cases ha : a = parent
  · subst ha
    rw [HasChild, children, get_set_self _ hp, Node.children_push_of_content hb, List.mem_append,
      List.mem_singleton]
    simp [HasChild, children]
  · rw [HasChild, children, get_set_of_ne _ ha]
    simp [HasChild, children, ha]

/-- A path that uses a new link goes down to the parent and on from the child. -/
theorem transGen_of_link {g : Forest} {parent child : NodeId}
    (hg : ∀ a b, g.HasChild a b → f.HasChild a b ∨ a = parent ∧ b = child) {a b : NodeId}
    (h : Relation.TransGen g.HasChild a b) :
    Relation.TransGen f.HasChild a b ∨ f.Reaches a parent ∧ f.Reaches child b := by
  induction h with
  | single hstep =>
      rcases hg _ _ hstep with hstep | ⟨rfl, rfl⟩
      · exact .inl (.single hstep)
      · exact .inr ⟨.refl, .refl⟩
  | tail _ hstep ih =>
      rcases hg _ _ hstep with hstep | ⟨rfl, rfl⟩
      · exact ih.imp (·.tail hstep) (And.imp_right (·.tail hstep))
      · exact .inr ⟨ih.elim (·.to_reflTransGen) And.left, .refl⟩

theorem WellFormed.addChild (hf : f.WellFormed) {g : Forest} {parent child : NodeId}
    (hp : f.Has parent) (hc : f.Has child) (h : f.addChild parent child = .ok g) :
    g.WellFormed := by
  obtain ⟨hpermits, hcontains, rfl⟩ := addChild_eq_ok h
  have hbody : (f.get parent).body.content = .children :=
    (hf.nodes parent hp).body.trans (Node.permits_eq_true_imp hpermits)
  have hkind := Node.kind_push (f.get parent) child
  refine ⟨fun id _ => ?_, fun a b hab => ?_, fun a b hab => ?_, fun id hid => ?_⟩
  · rcases get_set_or f parent id ((f.get parent).push child) with
      h | ⟨-, -, h⟩ <;> rw [h]
    · exact hf.valid id
    · exact (hf.valid parent).push child
  · rcases (hasChild_set_push hp hbody).1 hab with hab | ⟨-, rfl⟩
    · exact has_set.2 (hf.closed _ _ hab)
    · exact has_set.2 hc
  · rw [kind_set hkind, kind_set hkind]
    rcases (hasChild_set_push hp hbody).1 hab with hab | ⟨rfl, rfl⟩
    · exact hf.permitted _ _ hab
    · exact hpermits
  · rcases transGen_of_link (fun _ _ => (hasChild_set_push hp hbody).1) hid with
      hid | ⟨hdown, hback⟩
    · exact hf.acyclic id hid
    · -- The cycle leads from the child back to the parent, and that has been ruled out.
      have hno := (contains_eq_false_iff hf.acyclic hf.closed hc).1 hcontains
      exact absurd (hback.trans hdown) hno

end IncidentReport.Forest
