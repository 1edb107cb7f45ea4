import IncidentReport.Forest.Walk
import IncidentReport.Proofs.Outcome
import Mathlib.Data.List.Chain
import Mathlib.Data.List.Nodup
import Mathlib.Data.List.Perm.Subperm

/-!
Paths in a forest without cycles. No path is longer than the number of nodes, so
the walks that stop at this number see everything: every node has a tree, and a
node contains exactly the nodes that a path leads to.
-/

namespace IncidentReport.Forest

/-- The second node is a child of the first. -/
def HasChild (f : Forest) (parent child : NodeId) : Prop :=
  child ∈ f.children parent

/-- A path leads from the first node to the second; it may be empty. -/
abbrev Reaches (f : Forest) : NodeId → NodeId → Prop :=
  Relation.ReflTransGen f.HasChild

/-- No node is below itself. -/
def Acyclic (f : Forest) : Prop :=
  ∀ id, ¬ Relation.TransGen f.HasChild id id

/-- Every child is a node of the forest. -/
def Closed (f : Forest) : Prop :=
  ∀ parent child, f.HasChild parent child → f.Has child

variable {f : Forest}

/-- A handle that names no node has nothing below it. -/
theorem get_of_not_has {id : NodeId} (h : ¬ f.Has id) : f.get id = .new .report := by
  simp only [Has, size, Nat.not_lt] at h
  simp [get, h]
  rfl

theorem has_of_hasChild {parent child : NodeId} (h : f.HasChild parent child) : f.Has parent := by
  by_contra hp
  rw [HasChild, children, get_of_not_has hp] at h
  exact absurd h (List.not_mem_nil (a := child))

theorem Closed.has_of_reaches (hc : f.Closed) {id other : NodeId} (hid : f.Has id)
    (h : f.Reaches id other) : f.Has other := by
  induction h with
  | refl => exact hid
  | tail _ hstep _ => exact hc _ _ hstep

/-! ### The length of a path -/

theorem Acyclic.nodup_of_isChain (ha : f.Acyclic) {path : List NodeId}
    (h : path.IsChain f.HasChild) : path.Nodup := by
  have below : path.Pairwise (Relation.TransGen f.HasChild) :=
    List.isChain_iff_pairwise.1 (h.imp fun _ _ => .single)
  refine below.imp ?_
  rintro a b hab rfl
  exact ha a hab

theorem Closed.has_of_isChain (hc : f.Closed) {id : NodeId} {path : List NodeId}
    (hid : f.Has id) (h : (id :: path).IsChain f.HasChild) : ∀ other ∈ id :: path, f.Has other := by
  induction path generalizing id with
  | nil => simpa using hid
  | cons next path ih =>
      obtain ⟨hstep, hrest⟩ := List.isChain_cons_cons.1 h
      intro other ho
      rcases List.mem_cons.1 ho with rfl | ho
      · exact hid
      · exact ih (hc _ _ hstep) hrest other ho

/-- A path without a repetition is no longer than the list of all nodes. -/
theorem length_le_size {path : List NodeId} (hn : path.Nodup) (hb : ∀ id ∈ path, f.Has id) :
    path.length ≤ f.size := by
  have injective : Function.Injective NodeId.index := by
    rintro ⟨i⟩ ⟨j⟩ h
    exact congrArg NodeId.mk h
  have indices : (path.map NodeId.index).Nodup := hn.map injective
  have bounded : path.map NodeId.index ⊆ List.range f.size := by
    intro i hi
    obtain ⟨id, hid, rfl⟩ := List.mem_map.1 hi
    exact List.mem_range.2 (hb id hid)
  simpa using (indices.subperm bounded).length_le

theorem Acyclic.length_le_size (ha : f.Acyclic) (hc : f.Closed) {id : NodeId}
    {path : List NodeId} (hid : f.Has id) (h : (id :: path).IsChain f.HasChild) :
    path.length < f.size := by
  exact Forest.length_le_size (ha.nodup_of_isChain h) (hc.has_of_isChain hid h)

/-! ### Containment -/

theorem reaches_of_reaches_eq_true {bound : Nat} {start goal : NodeId}
    (h : f.reaches bound start goal = true) : f.Reaches start goal := by
  induction bound generalizing start with
  | zero => simp [reaches] at h
  | succ bound ih =>
      rw [reaches, Bool.or_eq_true, decide_eq_true_eq, List.any_eq_true] at h
      rcases h with rfl | ⟨child, hchild, hgoal⟩
      · exact .refl
      · exact (Relation.ReflTransGen.single hchild).trans (ih hgoal)

theorem reaches_eq_true_of_isChain {bound : Nat} {start goal : NodeId} {path : List NodeId}
    (h : (start :: path).IsChain f.HasChild)
    (hgoal : (start :: path).getLast (List.cons_ne_nil _ _) = goal) (hb : path.length < bound) :
    f.reaches bound start goal = true := by
  induction bound generalizing start path with
  | zero => omega
  | succ bound ih =>
      rw [reaches, Bool.or_eq_true, decide_eq_true_eq, List.any_eq_true]
      cases path with
      | nil => exact .inl hgoal
      | cons next path =>
          obtain ⟨hstep, hrest⟩ := List.isChain_cons_cons.1 h
          rw [List.getLast_cons_cons] at hgoal
          rw [List.length_cons] at hb
          exact .inr ⟨next, hstep, ih hrest hgoal (by omega)⟩

/-- A node contains exactly the nodes that a path leads to. -/
theorem contains_iff_reaches (ha : f.Acyclic) (hc : f.Closed) {id other : NodeId}
    (hid : f.Has id) : f.contains id other = true ↔ f.Reaches id other := by
  refine ⟨reaches_of_reaches_eq_true, fun h => ?_⟩
  -- Without a cycle no path is longer than the bound, which is the number of nodes.
  obtain ⟨path, hpath, hlast⟩ := List.exists_isChain_cons_of_relationReflTransGen h
  exact reaches_eq_true_of_isChain hpath hlast (ha.length_le_size hc hid hpath)

theorem contains_eq_false_iff (ha : f.Acyclic) (hc : f.Closed) {id other : NodeId}
    (hid : f.Has id) : f.contains id other = false ↔ ¬ f.Reaches id other := by
  rw [← Bool.not_eq_true, contains_iff_reaches ha hc hid]

/-! ### The tree below a node -/

theorem unfold_succ_eq_some {bound : Nat} {id : NodeId} {t : Tree} :
    f.unfold (bound + 1) id = some t ↔
      ∃ ts, (f.children id).mapM (fun child => f.unfold bound child) = some ts ∧
        ⟨(f.get id).withChildren ts⟩ = t := by
  simp [unfold, Option.bind_eq_some_iff]

/-- Where unfolding gives up, a path as long as its bound goes down. -/
theorem exists_isChain_of_unfold_eq_none {bound : Nat} {id : NodeId}
    (h : f.unfold bound id = none) :
    ∃ path : List NodeId, (id :: path).IsChain f.HasChild ∧ path.length = bound := by
  induction bound generalizing id with
  | zero => exact ⟨[], .singleton _, rfl⟩
  | succ bound ih =>
      have hm : (f.children id).mapM (fun child => f.unfold bound child) = none := by
        rw [unfold] at h
        cases hm : (f.children id).mapM (fun child => f.unfold bound child) with
        | none => rfl
        | some ts => simp [hm] at h
      obtain ⟨child, hchild, hnone⟩ := exists_of_mapM_eq_none hm
      obtain ⟨path, hpath, hlen⟩ := ih hnone
      exact ⟨child :: path, .cons_cons hchild hpath, by rw [List.length_cons, hlen]⟩

/-- A larger bound unfolds no node to another tree. -/
theorem unfold_succ {bound : Nat} {id : NodeId} {t : Tree} (h : f.unfold bound id = some t) :
    f.unfold (bound + 1) id = some t := by
  induction bound generalizing id t with
  | zero => simp [unfold] at h
  | succ bound ih =>
      obtain ⟨ts, hts, ht⟩ := unfold_succ_eq_some.1 h
      exact unfold_succ_eq_some.2 ⟨ts, mapM_congr_some (fun _ _ => ih) hts, ht⟩

theorem tree_eq_unfold (f : Forest) (id : NodeId) :
    f.tree id = (f.unfold f.size id).getD default := by
  rw [tree, tree?_eq_unfold]

theorem unfold_size_eq_tree (ha : f.Acyclic) (hc : f.Closed) {id : NodeId} (hid : f.Has id) :
    f.unfold f.size id = some (f.tree id) := by
  cases h : f.unfold f.size id with
  | some t => rw [tree_eq_unfold, h]; rfl
  | none =>
      obtain ⟨path, hpath, hlen⟩ := exists_isChain_of_unfold_eq_none h
      have := ha.length_le_size hc hid hpath
      omega

/-- What passes from the children of a node to the node holds of every node. -/
theorem induction_below (ha : f.Acyclic) (hc : f.Closed) {motive : NodeId → Prop}
    (step : ∀ id, (∀ child, f.HasChild id child → motive child) → motive id) (id : NodeId) :
    motive id := by
  -- A node that unfolds within a bound has children that unfold within a smaller one.
  have bounded : ∀ bound id, (f.unfold bound id).isSome → motive id := by
    intro bound
    induction bound with
    | zero => intro id h; simp [unfold] at h
    | succ bound ih =>
        intro id h
        obtain ⟨t, ht⟩ := Option.isSome_iff_exists.1 h
        obtain ⟨ts, hts, -⟩ := unfold_succ_eq_some.1 ht
        refine step id fun child hchild => ih child ?_
        obtain ⟨u, hu⟩ := exists_of_mapM_eq_some hts child hchild
        exact Option.isSome_iff_exists.2 ⟨u, hu⟩
  by_cases hid : f.Has id
  · exact bounded f.size id (by rw [unfold_size_eq_tree ha hc hid]; rfl)
  · exact step id fun child hchild => absurd (has_of_hasChild hchild) hid

/-- The tree below a node is the node with the trees below its children. -/
theorem tree_eq (ha : f.Acyclic) (hc : f.Closed) (id : NodeId) :
    f.tree id = ⟨(f.get id).withChildren ((f.children id).map f.tree)⟩ := by
  by_cases hid : f.Has id
  · have hroot := unfold_size_eq_tree ha hc hid
    have hsucc := unfold_succ hroot
    have hchildren : (f.children id).mapM (fun child => f.unfold f.size child) =
        some ((f.children id).map f.tree) :=
      mapM_eq_some_map fun child hchild => unfold_size_eq_tree ha hc (hc _ _ hchild)
    obtain ⟨ts, hts, ht⟩ := unfold_succ_eq_some.1 hsucc
    rw [hchildren, Option.some.injEq] at hts
    rw [← ht, hts]
  · have hnone : f.children id = [] := by rw [children, get_of_not_has hid]; rfl
    rw [tree_eq_unfold, hnone, get_of_not_has hid]
    cases f.size with
    | zero => rfl
    | succ n =>
        rw [unfold, hnone, get_of_not_has hid]
        rfl

@[simp] theorem kind_tree (ha : f.Acyclic) (hc : f.Closed) (id : NodeId) :
    (f.tree id).kind = (f.get id).kind := by
  rw [tree_eq ha hc]
  rfl

end IncidentReport.Forest
