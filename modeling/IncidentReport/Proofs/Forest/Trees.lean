import IncidentReport.Proofs.Forest.Construction

/-!
The trees below the nodes of a forest that is being built. The tree below a node
depends on the nodes that it leads to and on no others, so building changes the
trees of those nodes only that lead to an open one.
-/

namespace IncidentReport.Forest

variable {f g : Forest} {opened dropped : NodeId → Prop}

namespace WellFormed

@[elab_as_elim]
theorem induction (hf : f.WellFormed) {motive : NodeId → Prop}
    (step : ∀ id, (∀ child, f.HasChild id child → motive child) → motive id) (id : NodeId) :
    motive id :=
  induction_below hf.acyclic hf.closed step id

theorem children_tree (hf : f.WellFormed) (id : NodeId) :
    (f.tree id).children = (f.children id).map f.tree := by
  rw [hf.tree_eq, Tree.children, Tree.node_mk]
  by_cases hb : (f.get id).body.content = .children
  · rw [Node.children_withChildren_of_content hb]
  · rw [children, Node.children_eq_nil_of_content hb, List.map_nil]
    exact Node.children_eq_nil_of_content (by rwa [Node.content_withChildren])

theorem attribute?_tree (hf : f.WellFormed) (id : NodeId) (name : String) :
    (f.tree id).attribute? name = (f.get id).attribute? name := by
  rw [hf.tree_eq]
  rfl

theorem not_reaches_of_hasChild (hf : f.WellFormed) {parent child : NodeId}
    (h : f.HasChild parent child) : ¬ f.Reaches child parent := by
  intro hback
  exact hf.acyclic parent (Relation.TransGen.head' h hback)

end WellFormed

/-! ### What a tree depends on -/

theorem reaches_of_get_eq {start goal : NodeId} (h : ∀ id, f.Reaches start id → g.get id = f.get id)
    (hr : g.Reaches start goal) : f.Reaches start goal := by
  induction hr with
  | refl => exact .refl
  | tail _ hstep ih =>
      rw [HasChild, children, h _ ih] at hstep
      exact ih.tail hstep

theorem tree_congr (hf : f.WellFormed) (hg : g.WellFormed) {id : NodeId}
    (h : ∀ other, f.Reaches id other → g.get other = f.get other) : g.tree id = f.tree id := by
  induction id using hf.induction with
  | step id below => ?_
  rw [hf.tree_eq, hg.tree_eq, children, h id .refl, ← children]
  have same : (f.children id).map g.tree = (f.children id).map f.tree :=
    List.map_congr_left fun child hchild =>
      below child hchild fun other ho => h other (.head hchild ho)
  rw [same]

theorem tree_add_of_has (hf : f.WellFormed) {node : Node NodeId}
    (hg : (f.add node).2.WellFormed) {id : NodeId} (hid : f.Has id) :
    (f.add node).2.tree id = f.tree id :=
  tree_congr hf hg fun _ ho => get_add_of_has node (hf.closed.has_of_reaches hid ho)

theorem tree_add_self (hf : f.WellFormed) {node : Node NodeId} (hg : (f.add node).2.WellFormed)
    (hc : ∀ child ∈ node.children, f.Has child) :
    (f.add node).2.tree (f.add node).1 = ⟨node.withChildren (node.children.map f.tree)⟩ := by
  rw [hg.tree_eq, children, get_add_self]
  have same : node.children.map (f.add node).2.tree = node.children.map f.tree :=
    List.map_congr_left fun child hchild => tree_add_of_has hf hg (hc child hchild)
  rw [same]

theorem tree_edit_of_not_reaches (hf : f.WellFormed) (hg : g.WellFormed) {id other : NodeId}
    {change : Node NodeId → Except Violation (Node NodeId)} (h : f.edit id change = .ok g)
    (hout : ¬ f.Reaches other id) : g.tree other = f.tree other := by
  obtain ⟨node, -, rfl⟩ := edit_eq_ok h
  refine tree_congr hf hg fun next hnext => get_set_of_ne _ ?_
  rintro rfl
  exact hout hnext

theorem reaches_setAttribute {id a b : NodeId} {name value : String}
    (accepted : f.setAttribute id name value = .ok g) : g.Reaches a b ↔ f.Reaches a b := by
  have same : g.HasChild = f.HasChild := by
    funext parent child
    rw [HasChild, HasChild, children_setAttribute accepted]
  rw [Reaches, Reaches, same]

/-- An edit that does not look at the children does to the root of a tree what it does to
the node. -/
theorem edit_tree (hf : f.WellFormed) {id : NodeId} (hid : f.Has id)
    (change : ∀ χ : Type, Node χ → Except Violation (Node χ))
    (amends : ∀ {n m}, change NodeId n = .ok m → n.Amends m)
    (commutes : ∀ (n : Node NodeId) (ts : List Tree),
      change Tree (n.withChildren ts) = (change NodeId n).map (·.withChildren ts)) :
    (f.edit id (change NodeId)).map (·.tree id) = (change Tree (f.tree id).node).map Tree.mk := by
  rw [hf.tree_eq, Tree.node_mk, commutes]
  cases hnode : change NodeId (f.get id) with
  | error violation =>
      rw [edit, hnode]
      rfl
  | ok node =>
      have accepted : f.edit id (change NodeId) = .ok (f.set id node) := by
        rw [edit, hnode]
        rfl
      have hset := hf.edit amends accepted
      have kept : node.children = f.children id := (amends hnode).children
      have below : (f.children id).map (f.set id node).tree = (f.children id).map f.tree :=
        List.map_congr_left fun child hchild =>
          tree_edit_of_not_reaches hf hset accepted (hf.not_reaches_of_hasChild hchild)
      have edited : (f.set id node).tree id = ⟨node.withChildren ((f.children id).map f.tree)⟩ := by
        rw [hset.tree_eq, children, get_set_self _ hid, kept, below]
      rw [accepted]
      exact congrArg Except.ok edited

/-- An attribute of a node is set as one of the root of its tree. -/
theorem setAttribute_tree (hf : f.WellFormed) {id : NodeId} (hid : f.Has id)
    (name value : String) :
    (f.setAttribute id name value).map (·.tree id) = (f.tree id).setAttribute name value :=
  edit_tree hf hid (fun _ n => n.setAttribute name value) Node.amends_setAttribute
    fun n ts => n.setAttribute_withChildren ts name value

/-! ### Trees and paths that building leaves alone -/

/-- The node is there, and no open node is below it. -/
structure Shut (f : Forest) (opened : NodeId → Prop) (id : NodeId) : Prop where
  has : f.Has id
  out : ∀ other, f.Reaches id other → ¬ opened other

namespace Shut

variable {id : NodeId}

theorem get_eq (hs : Shut f opened id) (hf : f.WellFormed) (hc : Construction f opened dropped g)
    {other : NodeId} (ho : f.Reaches id other) : g.get other = f.get other :=
  hc.get_closed (hf.closed.has_of_reaches hs.has ho) (hs.out other ho)

theorem tree_eq (hs : Shut f opened id) (hf : f.WellFormed)
    (hc : Construction f opened dropped g) : g.tree id = f.tree id :=
  tree_congr hf (hc.wellFormed hf) fun _ => hs.get_eq hf hc

theorem reaches (hs : Shut f opened id) (hf : f.WellFormed)
    (hc : Construction f opened dropped g) {other : NodeId} (ho : g.Reaches id other) :
    f.Reaches id other :=
  reaches_of_get_eq (fun _ => hs.get_eq hf hc) ho

theorem below (hs : Shut f opened id) (hf : f.WellFormed) {child : NodeId}
    (hc : f.HasChild id child) : Shut f opened child where
  has := hf.closed _ _ hc
  out other ho := hs.out other (.head hc ho)

theorem later (hs : Shut f opened id) (hf : f.WellFormed)
    (hc : Construction f opened dropped g) : Shut g opened id where
  has := hc.has hs.has
  out other ho := hs.out other (hs.reaches hf hc ho)

end Shut

theorem Construction.tree_eq (hc : Construction f (fun _ => False) dropped g)
    (hf : f.WellFormed) {id : NodeId} (hid : f.Has id) : g.tree id = f.tree id :=
  Shut.tree_eq ⟨hid, fun _ _ => not_false⟩ hf hc

/-! ### A root and its children -/

/-- What was there before does not lead to a root. -/
theorem root_shut {root id : NodeId} (hg : Growth f g) (hr : Root f g root)
    (hid : f.Has id) : Shut g (· = root) id where
  has := hg.has hid
  out other ho := by
    rintro rfl
    rcases ho.cases_tail with rfl | ⟨parent, -, hstep⟩
    · exact hr.isNew hid
    · exact hr.parents parent hstep

/-- Two children of a new node do not lead to each other. -/
theorem not_reaches_of_links (hf : f.WellFormed) (hg : Growth f g) {root : NodeId}
    (hr : Root f g root) {a b : NodeId} {i j : Nat} (hij : i ≠ j) (ha : g.Link root i a)
    (hb : g.Link root j b) : ¬ g.Reaches a b := by
  intro h
  have hstep : g.HasChild root a := hasChild_iff_link.2 ⟨i, ha⟩
  have isNew : ¬ f.Has b := hg.children_new hr.isNew (hasChild_iff_link.2 ⟨j, hb⟩)
  -- The last step to the second child starts at the root, so the first child leads back to it.
  rcases h.cases_tail with rfl | ⟨parent, hpath, hlast⟩
  · exact hij (hg.link_unique hf.closed isNew not_false not_false ha hb).2
  · obtain ⟨k, hk⟩ := hasChild_iff_link.1 hlast
    obtain ⟨rfl, -⟩ := hg.link_unique hf.closed isNew not_false not_false hb hk
    exact (hg.wellFormed hf).not_reaches_of_hasChild hstep hpath

theorem children_apart (hf : f.WellFormed) (hg : Growth f g) {root : NodeId}
    (hr : Root f g root) :
    (g.children root).Pairwise fun a b => ¬ g.Reaches a b ∧ ¬ g.Reaches b a := by
  refine List.pairwise_iff_getElem.2 fun i j hi hj hij => ?_
  have hfirst : g.Link root i (g.children root)[i] := List.getElem?_eq_getElem hi
  have hsecond : g.Link root j (g.children root)[j] := List.getElem?_eq_getElem hj
  exact ⟨not_reaches_of_links hf hg hr hij.ne hfirst hsecond,
    not_reaches_of_links hf hg hr hij.ne' hsecond hfirst⟩

end IncidentReport.Forest
