import IncidentReport.Proofs.Forest.Construction

/-!
What building leaves alone and what it makes. The old nodes stay as they are, up
to the children that one of them may gain, and what hangs under a new root is a
tree: every node of it is new, and one path leads to it.
-/

namespace IncidentReport.Forest

/-- The node at the end of a path, a path being the places of the nodes on it
among the children of their parents. -/
def follow (f : Forest) : NodeId → List Nat → Option NodeId
  | id, [] => some id
  | id, i :: path => (f.children id)[i]?.bind fun child => f.follow child path

/-- Every node of the first forest is there in the second, as it was. -/
def Keeps (f g : Forest) : Prop :=
  ∀ id, f.Has id → g.Has id ∧ g.get id = f.get id

/-- Every node is there as it was, except that one may have new nodes behind the
children that it had. -/
def KeepsAround (f g : Forest) (parent : NodeId) : Prop :=
  (∀ id, f.Has id → g.Has id ∧ (id ≠ parent → g.get id = f.get id)) ∧
    ∃ new : List NodeId, (∀ child ∈ new, ¬ f.Has child ∧ g.Has child) ∧
      g.children parent = f.children parent ++ new ∧
        g.get parent = (f.get parent).withChildren (f.children parent ++ new)

/-- What hangs under the node is new, and exactly one path leads to each node of it. -/
def NewTree (f g : Forest) (root : NodeId) : Prop :=
  ∀ id, g.Reaches root id → (¬ f.Has id ∧ g.Has id) ∧ ∃! path, g.follow root path = some id

variable {f g : Forest} {opened dropped : NodeId → Prop}

theorem keeps_refl (f : Forest) : f.Keeps f :=
  fun _ hid => ⟨hid, rfl⟩

theorem keepsAround_refl (f : Forest) (parent : NodeId) : f.KeepsAround f parent := by
  refine ⟨fun _ hid => ⟨hid, fun _ => rfl⟩, [], List.forall_mem_nil _, ?_, ?_⟩
  · rw [List.append_nil]
  · rw [List.append_nil, children, Node.withChildren_children]

/-! ### Paths as places -/

theorem follow_append (id : NodeId) (p q : List Nat) :
    f.follow id (p ++ q) = (f.follow id p).bind fun mid => f.follow mid q := by
  induction p generalizing id with
  | nil => rfl
  | cons i p ih =>
      rw [List.cons_append, follow, follow, Option.bind_assoc]
      exact congrArg _ (funext ih)

theorem follow_concat_eq_some {id node : NodeId} {p : List Nat} {i : Nat} :
    f.follow id (p ++ [i]) = some node ↔ ∃ parent, f.follow id p = some parent ∧
      f.Link parent i node := by
  simp [follow_append, Option.bind_eq_some_iff, follow, Link]

theorem reaches_iff_follow {id node : NodeId} :
    f.Reaches id node ↔ ∃ p, f.follow id p = some node := by
  constructor
  · intro h
    induction h with
    | refl => exact ⟨[], rfl⟩
    | tail _ hstep ih =>
        obtain ⟨p, hp⟩ := ih
        obtain ⟨i, hi⟩ := hasChild_iff_link.1 hstep
        exact ⟨p ++ [i], follow_concat_eq_some.2 ⟨_, hp, hi⟩⟩
  · rintro ⟨p, hp⟩
    induction p using List.reverseRecOn generalizing node with
    | nil =>
        cases hp
        exact .refl
    | append_singleton p i ih =>
        obtain ⟨parent, hparent, hi⟩ := follow_concat_eq_some.1 hp
        exact (ih hparent).tail (hasChild_iff_link.2 ⟨i, hi⟩)

namespace Construction

theorem keeps (hc : Construction f (fun _ => False) dropped g) : f.Keeps g :=
  fun _ hid => ⟨hc.has hid, hc.get_closed hid id⟩

theorem keepsAround (hf : f.WellFormed) {parent : NodeId} (hp : f.Has parent)
    (hc : Construction f (· = parent) dropped g) : f.KeepsAround g parent := by
  refine ⟨fun id hid => ⟨hc.has hid, hc.get_closed hid⟩, ?_⟩
  obtain ⟨new, hnew, -, hget⟩ := hc.get_old hp
  by_cases hb : (f.get parent).body.content = .children
  · have hchildren : g.children parent = f.children parent ++ new := by
      rw [children, hget, Node.children_withChildren_of_content hb]
    refine ⟨new, fun child hchild => ⟨hnew child hchild, ?_⟩, hchildren, hget⟩
    refine (hc.wellFormed hf).closed parent child ?_
    rw [HasChild, hchildren]
    exact List.mem_append_right _ hchild
  · -- A node that holds no children has been refused every one.
    have hget : g.get parent = f.get parent := by rw [hget, Node.withChildren_eq_self hb]
    refine ⟨[], List.forall_mem_nil _, ?_, ?_⟩
    · rw [children, hget, ← children, List.append_nil]
    · rw [hget, Node.withChildren_eq_self hb]

/-- No path leads from what is new to what is old. -/
theorem isNew_of_reaches (hc : Construction f opened dropped g) {root id : NodeId}
    (hr : ¬ f.Has root) (h : g.Reaches root id) : ¬ f.Has id := by
  induction h with
  | refl => exact hr
  | tail _ hstep ih => exact hc.children_new ih hstep

/-- Paths are compared from their ends: a new node stands in one place only, and
nothing below the root leads back to it. -/
theorem follow_unique (hf : f.WellFormed) (hc : Construction f opened dropped g) {root : NodeId}
    (hr : ¬ f.Has root) (hd : ∀ id, g.Reaches root id → ¬ dropped id) {p q : List Nat}
    {id : NodeId} (hp : g.follow root p = some id) (hq : g.follow root q = some id) : p = q := by
  have not_back : ∀ {parent : NodeId} {p : List Nat} {i : Nat},
      g.follow root p = some parent → ¬ g.Link parent i root := fun hparent hi =>
    (hc.wellFormed hf).acyclic root
      (.tail' (reaches_iff_follow.2 ⟨_, hparent⟩) (hasChild_iff_link.2 ⟨_, hi⟩))
  induction p using List.reverseRecOn generalizing q id with
  | nil =>
      cases hp
      induction q using List.reverseRecOn with
      | nil => rfl
      | append_singleton q j =>
          obtain ⟨parent, hparent, hj⟩ := follow_concat_eq_some.1 hq
          exact absurd hj (not_back hparent)
  | append_singleton p i ih =>
      obtain ⟨a, ha, hi⟩ := follow_concat_eq_some.1 hp
      induction q using List.reverseRecOn with
      | nil =>
          cases hq
          exact absurd hi (not_back ha)
      | append_singleton q j =>
          obtain ⟨b, hb, hj⟩ := follow_concat_eq_some.1 hq
          have below : g.Reaches root a := reaches_iff_follow.2 ⟨p, ha⟩
          have isNew := hc.children_new (hc.isNew_of_reaches hr below)
            (hasChild_iff_link.2 ⟨i, hi⟩)
          obtain ⟨rfl, rfl⟩ := hc.link_unique hf.closed isNew (hd a below)
            (hd b (reaches_iff_follow.2 ⟨q, hb⟩)) hi hj
          rw [ih ha hb]

/-- What hangs under a new node is a tree, wherever the node itself stands. -/
theorem newTree_of_isNew (hf : f.WellFormed) (hc : Construction f opened dropped g) {root : NodeId}
    (hr : ¬ f.Has root) (hhas : g.Has root) (hd : ∀ id, g.Reaches root id → ¬ dropped id) :
    f.NewTree g root := by
  intro id hid
  obtain ⟨p, hp⟩ := reaches_iff_follow.1 hid
  exact ⟨⟨hc.isNew_of_reaches hr hid, (hc.wellFormed hf).closed.has_of_reaches hhas hid⟩, p, hp,
    fun q hq => hc.follow_unique hf hr hd hq hp⟩

/-- What was given up is out of reach, as it is under no node. -/
theorem newTree (hf : f.WellFormed) (hc : Construction f opened dropped g) {root : NodeId}
    (hr : Root f g root) (hd : ∀ id, dropped id → Root f g id ∧ id ≠ root) :
    f.NewTree g root := by
  refine hc.newTree_of_isNew hf hr.isNew hr.has fun id h hid => ?_
  -- A node that was given up is neither the root nor under another node.
  obtain ⟨halone, hne⟩ := hd id hid
  rcases h.cases_tail with rfl | ⟨parent, -, hstep⟩
  · exact hne rfl
  · exact halone.parents parent hstep

end Construction

end IncidentReport.Forest
