import IncidentReport.Proofs.Forest.WellFormed

/-!
What building does to a forest. It makes nodes out of new ones, puts new nodes
under other new ones, and sets attributes of new nodes; of the nodes that were
there before it touches only those that are open to it, and these only gain new
children. Everything else about building is a consequence: it keeps the schema,
it leaves the old nodes alone, and it never puts a node in two places.
-/

namespace IncidentReport.Forest

/-- The node stands at this place among the children of the other one. -/
def Link (f : Forest) (parent : NodeId) (i : Nat) (child : NodeId) : Prop :=
  (f.children parent)[i]? = some child

theorem hasChild_iff_link {f : Forest} {parent child : NodeId} :
    f.HasChild parent child ↔ ∃ i, f.Link parent i child :=
  List.mem_iff_getElem?

/-- A node of `g` that is new since `f` and under no node that still counts. -/
structure Loose (f g : Forest) (dropped : NodeId → Prop) (id : NodeId) : Prop where
  isNew : ¬ f.Has id
  has : g.Has id
  parents : ∀ parent, g.HasChild parent id → dropped parent

/-- A node of `g` that is new since `f` and under no other node. -/
abbrev Root (f g : Forest) (id : NodeId) : Prop :=
  Loose f g (fun _ => False) id

/-- What building may make of the forest `f`. The nodes `opened` may gain children;
the nodes `dropped` have been given up, so that their children may be moved. -/
inductive Construction (f : Forest) (opened dropped : NodeId → Prop) : Forest → Prop where
  | start : Construction f opened dropped f
  | add {g : Forest} {node : Node NodeId} (done : Construction f opened dropped g)
      (valid : node.Valid) (nodup : node.children.Nodup)
      (loose : ∀ child ∈ node.children, Loose f g dropped child)
      (permitted : ∀ child ∈ node.children, node.kind.permits (g.get child).kind = true) :
      Construction f opened dropped (g.add node).2
  | attach {g h : Forest} {parent child : NodeId} (done : Construction f opened dropped g)
      (has : g.Has parent) (place : f.Has parent → opened parent)
      (loose : Loose f g dropped child) (accepted : g.addChild parent child = .ok h) :
      Construction f opened dropped h
  | mark {g h : Forest} {id : NodeId} {name value : String}
      (done : Construction f opened dropped g) (isNew : ¬ f.Has id)
      (accepted : g.setAttribute id name value = .ok h) : Construction f opened dropped h

variable {f g h : Forest} {opened dropped : NodeId → Prop}

/-! ### Links after one step -/

theorem link_add {node : Node NodeId} {parent child : NodeId} {i : Nat}
    (hl : (f.add node).2.Link parent i child) :
    f.Link parent i child ∨ parent = (f.add node).1 ∧ node.children[i]? = some child := by
  rcases has_add.1 (has_of_hasChild (hasChild_iff_link.2 ⟨i, hl⟩)) with hp | rfl
  · rw [Link, children, get_add_of_has node hp] at hl
    exact .inl hl
  · rw [Link, children, get_add_self] at hl
    exact .inr ⟨rfl, hl⟩

theorem link_addChild {parent child a b : NodeId} {i : Nat}
    (hg : f.addChild parent child = .ok g) (hl : g.Link a i b) :
    f.Link a i b ∨ a = parent ∧ b = child ∧ i = (f.children parent).length := by
  obtain ⟨-, -, rfl⟩ := addChild_eq_ok hg
  rw [Link, children] at hl
  rcases get_set_or f parent a ((f.get parent).push child) with hget | ⟨rfl, -, hget⟩ <;>
    rw [hget] at hl
  · exact .inl hl
  · by_cases hb : (f.get a).body.content = .children
    · rw [Node.children_push_of_content hb, List.getElem?_append] at hl
      split at hl
      · exact .inl hl
      · next hi =>
          obtain ⟨hz, hchild⟩ := List.getElem?_eq_some_iff.1 hl
          rw [List.length_singleton] at hz
          refine .inr ⟨rfl, ?_, by rw [children]; omega⟩
          simpa using hchild.symm
    · rw [Node.push_eq_self hb] at hl
      exact .inl hl

theorem reaches_of_addChild {parent child a b : NodeId} (hg : f.addChild parent child = .ok g)
    (hr : g.Reaches a b) : f.Reaches a b ∨ f.Reaches a parent ∧ f.Reaches child b := by
  have step : ∀ c d, g.HasChild c d → f.HasChild c d ∨ c = parent ∧ d = child := by
    intro c d hcd
    obtain ⟨i, hl⟩ := hasChild_iff_link.1 hcd
    exact (link_addChild hg hl).imp (fun hl => hasChild_iff_link.2 ⟨i, hl⟩) fun h => ⟨h.1, h.2.1⟩
  rcases Relation.reflTransGen_iff_eq_or_transGen.1 hr with rfl | hr
  · exact .inl .refl
  · exact (transGen_of_link step hr).imp_left (·.to_reflTransGen)

theorem children_setAttribute {id : NodeId} {name value : String}
    (hg : f.setAttribute id name value = .ok g) (other : NodeId) :
    g.children other = f.children other := by
  obtain ⟨node, hn, rfl⟩ := edit_eq_ok hg
  rw [children]
  rcases get_set_or f id other node with hget | ⟨rfl, -, hget⟩ <;> rw [hget]
  · rfl
  · exact (Node.amends_setAttribute hn).children

theorem has_of_edit {id other : NodeId}
    {change : Node NodeId → Except Violation (Node NodeId)} (hg : f.edit id change = .ok g) :
    g.Has other ↔ f.Has other := by
  obtain ⟨node, -, rfl⟩ := edit_eq_ok hg
  exact has_set

theorem has_of_addChild {parent child other : NodeId} (hg : f.addChild parent child = .ok g) :
    g.Has other ↔ f.Has other := by
  obtain ⟨-, -, rfl⟩ := addChild_eq_ok hg
  exact has_set

/-! ### What building keeps -/

namespace Construction

theorem has (hc : Construction f opened dropped g) {id : NodeId} (hid : f.Has id) : g.Has id := by
  induction hc with
  | start => exact hid
  | add _ _ _ _ _ ih => exact has_add.2 (.inl ih)
  | attach _ _ _ _ accepted ih => exact (has_of_addChild accepted).2 ih
  | mark _ _ accepted ih => exact (has_of_edit accepted).2 ih

theorem wellFormed (hf : f.WellFormed) (hc : Construction f opened dropped g) : g.WellFormed := by
  induction hc with
  | start => exact hf
  | add _ valid _ loose permitted ih =>
      exact ih.add valid fun child hchild => ⟨(loose child hchild).has, permitted child hchild⟩
  | attach _ has _ loose accepted ih => exact ih.addChild has loose.has accepted
  | mark _ _ accepted ih => exact ih.edit Node.amends_setAttribute accepted

/-- An old node keeps all that it has. If it is open it may have new children
behind the old ones. -/
theorem get_old (hc : Construction f opened dropped g) {id : NodeId} (hid : f.Has id) :
    ∃ new : List NodeId, (∀ child ∈ new, ¬ f.Has child) ∧ (¬ opened id → new = []) ∧
      g.get id = (f.get id).withChildren (f.children id ++ new) := by
  induction hc with
  | start => exact ⟨[], by simp, fun _ => rfl, by simp [children]⟩
  | add done _ _ _ _ ih =>
      rw [get_add_of_has _ (done.has hid)]
      exact ih
  | @attach g h parent child done _ place loose accepted ih =>
      obtain ⟨new, hnew, hopen, hget⟩ := ih
      obtain ⟨-, -, rfl⟩ := addChild_eq_ok accepted
      -- Only the parent changes, and if it is old it is open.
      rcases get_set_or g parent id ((g.get parent).push child) with hset | ⟨rfl, -, hset⟩
      · exact ⟨new, hnew, hopen, by rw [hset, hget]⟩
      · refine ⟨new ++ [child], ?_, fun ho => absurd (place hid) ho, ?_⟩
        · exact List.forall_mem_append.2 ⟨hnew, List.forall_mem_singleton.2 loose.isNew⟩
        · rw [hset, hget, Node.push_withChildren, List.append_assoc]
  | @mark g h other name value done isNew accepted ih =>
      obtain ⟨node, -, rfl⟩ := edit_eq_ok accepted
      have hne : id ≠ other := by
        rintro rfl
        exact isNew hid
      rw [get_set_of_ne node hne]
      exact ih

theorem get_closed (hc : Construction f opened dropped g) {id : NodeId} (hid : f.Has id)
    (ho : ¬ opened id) : g.get id = f.get id := by
  obtain ⟨new, -, hnil, hget⟩ := hc.get_old hid
  rw [hget, hnil ho, List.append_nil, children, Node.withChildren_children]

theorem kind_old (hc : Construction f opened dropped g) {id : NodeId} (hid : f.Has id) :
    (g.get id).kind = (f.get id).kind := by
  obtain ⟨new, -, -, hget⟩ := hc.get_old hid
  rw [hget]
  rfl

theorem extension (hc : Construction f opened dropped g) : f.Extends g :=
  fun _ hid => ⟨hc.has hid, hc.kind_old hid⟩

/-- A new node has new children only. -/
theorem children_new (hc : Construction f opened dropped g) {parent child : NodeId}
    (hp : ¬ f.Has parent) (hl : g.HasChild parent child) : ¬ f.Has child := by
  induction hc with
  | start => exact absurd (has_of_hasChild hl) hp
  | add _ _ _ loose _ ih =>
      rcases hasChild_add.1 hl with hl | ⟨-, hmem⟩
      · exact ih hl
      · exact (loose child hmem).isNew
  | attach _ _ _ loose accepted ih =>
      obtain ⟨i, hl⟩ := hasChild_iff_link.1 hl
      rcases link_addChild accepted hl with hl | ⟨-, rfl, -⟩
      · exact ih (hasChild_iff_link.2 ⟨i, hl⟩)
      · exact loose.isNew
  | mark _ _ accepted ih =>
      rw [HasChild, children_setAttribute accepted] at hl
      exact ih hl

/-- No old node gets a parent. -/
theorem parents_old (hc : Construction f opened dropped g) {parent child : NodeId}
    (hid : f.Has child) (hl : g.HasChild parent child) : f.HasChild parent child := by
  by_cases hp : f.Has parent
  · obtain ⟨new, hnew, -, hget⟩ := hc.get_old hp
    rw [HasChild, children, hget] at hl
    rcases List.mem_append.1 (Node.children_withChildren_subset _ _ _ hl) with hl | hl
    · exact hl
    · exact absurd hid (hnew child hl)
  · exact absurd hid (hc.children_new hp hl)

/-- A new node stands in one place only, as far as the nodes count that have not
been given up. -/
theorem link_unique (hf : f.Closed) (hc : Construction f opened dropped g)
    {child p q : NodeId} {i j : Nat} (hnew : ¬ f.Has child) (hp : ¬ dropped p)
    (hq : ¬ dropped q) (hi : g.Link p i child) (hj : g.Link q j child) : p = q ∧ i = j := by
  -- What gets a parent was loose, so it had none among the nodes that count.
  have under : ∀ {g : Forest} {node : NodeId} {k : Nat}, Loose f g dropped child →
      ¬ dropped node → ¬ g.Link node k child := fun hl hn hk =>
    hn (hl.parents _ (hasChild_iff_link.2 ⟨_, hk⟩))
  induction hc with
  | start => exact absurd (hf _ _ (hasChild_iff_link.2 ⟨i, hi⟩)) hnew
  | add _ _ nodup loose _ ih =>
      rcases link_add hi with hi | ⟨rfl, hci⟩ <;> rcases link_add hj with hj | ⟨hq', hcj⟩
      · exact ih hi hj
      · exact absurd hi (under (loose child (List.mem_of_getElem? hcj)) hp)
      · exact absurd hj (under (loose child (List.mem_of_getElem? hci)) hq)
      · exact ⟨hq'.symm, (List.getElem?_inj (List.getElem?_eq_some_iff.1 hci).1 nodup).1
          (hci.trans hcj.symm)⟩
  | attach _ _ _ loose accepted ih =>
      rcases link_addChild accepted hi with hi | ⟨hp', hci, hi'⟩ <;>
        rcases link_addChild accepted hj with hj | ⟨hq', hcj, hj'⟩
      · exact ih hi hj
      · exact absurd hi (under (hcj ▸ loose) hp)
      · exact absurd hj (under (hci ▸ loose) hq)
      · exact ⟨hp'.trans hq'.symm, hi'.trans hj'.symm⟩
  | mark _ _ accepted ih =>
      rw [Link, children_setAttribute accepted] at hi hj
      exact ih hi hj

end Construction

/-! ### Building in stages -/

theorem Loose.later {opened' dropped' : NodeId → Prop} {id : NodeId}
    (hl : Loose f g dropped id) (hc : Construction g opened' dropped' h) :
    Loose f h dropped id where
  isNew := hl.isNew
  has := hc.has hl.has
  parents parent hp := hl.parents parent (hc.parents_old hl.has hp)

/-- An attribute moves nothing. -/
theorem Loose.setAttribute {id other : NodeId} {name value : String}
    (hl : Loose f g dropped id) (accepted : g.setAttribute other name value = .ok h) :
    Loose f h dropped id where
  isNew := hl.isNew
  has := (has_of_edit accepted).2 hl.has
  parents parent hp := by
    rw [HasChild, children_setAttribute accepted] at hp
    exact hl.parents parent hp

/-- A child that is added is under one node more, the others are not. -/
theorem Loose.addChild {id parent child : NodeId} (hl : Loose f g dropped id)
    (hne : id ≠ child) (accepted : g.addChild parent child = .ok h) : Loose f h dropped id where
  isNew := hl.isNew
  has := (has_of_addChild accepted).2 hl.has
  parents other hp := by
    obtain ⟨i, hp⟩ := hasChild_iff_link.1 hp
    rcases link_addChild accepted hp with hp | ⟨-, hid, -⟩
    · exact hl.parents other (hasChild_iff_link.2 ⟨i, hp⟩)
    · exact absurd hid hne

theorem Loose.since {dropped' : NodeId → Prop} {id : NodeId}
    (hc : Construction f opened dropped g) (hl : Loose g h dropped' id)
    (hd : ∀ node, dropped' node → dropped node) : Loose f h dropped id where
  isNew := mt hc.has hl.isNew
  has := hl.has
  parents parent hp := hd parent (hl.parents parent hp)

/-- A second stage may open what is new since the first. -/
theorem Construction.trans {opened' dropped' : NodeId → Prop}
    (hg : Construction f opened dropped g) (hh : Construction g opened' dropped' h)
    (ho : ∀ id, f.Has id → opened' id → opened id) (hd : ∀ id, dropped' id → dropped id) :
    Construction f opened dropped h := by
  induction hh with
  | start => exact hg
  | add _ valid nodup loose permitted ih =>
      exact .add ih valid nodup (fun child hchild => .since hg (loose child hchild) hd) permitted
  | attach _ has place loose accepted ih =>
      exact .attach ih has (fun hp => ho _ hp (place (hg.has hp))) (.since hg loose hd) accepted
  | mark _ isNew accepted ih => exact .mark ih (mt hg.has isNew) accepted

/-- Building that leaves every old node as it is. -/
abbrev Growth (f g : Forest) : Prop :=
  Construction f (fun _ => False) (fun _ => False) g

theorem Construction.grow (hg : Construction f opened dropped g) (hh : Growth g h) :
    Construction f opened dropped h :=
  hg.trans hh (fun _ _ => False.elim) fun _ => False.elim

theorem Root.loose {id : NodeId} (hc : Construction f opened dropped g) (hr : Root g h id) :
    Loose f h dropped id :=
  .since hc hr fun _ => False.elim

end IncidentReport.Forest
