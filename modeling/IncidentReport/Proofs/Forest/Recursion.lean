import IncidentReport.Proofs.Forest.Planting
import IncidentReport.Proofs.Tree.Writing
import Mathlib.Order.Filter.AtTopBot.Basic

/-!
The walks through a forest as they are meant: each calls itself for the children of a
node, and nothing but the forest stops it. A walk is followed so many calls deep, and has
no result, `none`, if it goes deeper; one that goes on for ever has no result however
deep it is followed. Main statement: in a forest that obeys the schema every walk from a
node of it comes to an end, with the result of the bounded walk.
-/

namespace IncidentReport

open Filter

/-- The recursion comes to an end, with this result: it has the result if it is followed
deep enough. -/
def Halts {α : Type} (run : Nat → Option α) (a : α) : Prop :=
  ∀ᶠ n in atTop, run n = some a

namespace Halts

variable {α β : Type} {run : Nat → Option α} {a b : α}

theorem const (a : α) : Halts (fun _ => some a) a :=
  .of_forall fun _ => rfl

theorem of_add (bound : Nat) (h : ∀ k, run (bound + k) = some a) : Halts run a := by
  refine eventually_atTop.2 ⟨bound, fun n hn => ?_⟩
  obtain ⟨k, rfl⟩ := Nat.exists_eq_add_of_le hn
  exact h k

theorem of_succ (h : Halts (fun n => run (n + 1)) a) : Halts run a := by
  rw [Halts, ← map_add_atTop_eq_nat 1]
  exact eventually_map.2 h

theorem bind {next : Nat → α → Option β} {b : β} (h : Halts run a)
    (hnext : Halts (fun n => next n a) b) : Halts (fun n => (run n).bind (next n)) b := by
  filter_upwards [h, hnext] with n hrun hb
  rw [hrun]
  exact hb

theorem unique (ha : Halts run a) (hb : Halts run b) : a = b := by
  obtain ⟨n, hrun, hrun'⟩ := (ha.and hb).exists
  exact Option.some.inj (hrun.symm.trans hrun')

end Halts

namespace Forest

/-! ### Walks -/

namespace Recursion

/-- Whether the second node is the first one or below it. -/
def contains (f : Forest) : Nat → NodeId → NodeId → Option Bool
  | 0, _, _ => none
  | n + 1, id, other =>
    if id = other then
      some true
    else
      (f.children id).anyM fun child => contains f n child other

def addChild (n : Nat) (f : Forest) (parent child : NodeId) :
    Option (Except Violation Forest) := do
  let node := f.get parent
  let kind := (f.get child).kind
  match node.checkChild kind with
  | .error violation => return .error violation
  | .ok _ =>
    if ← contains f n child parent then
      return .error (.cyclicAttachment node.kind kind)
    else
      return .ok (f.set parent (node.push child))

/-- Makes new nodes for a node and all that is below it. -/
def copy : Nat → NodeId → StateT Forest Option NodeId
  | 0, _ => fun _ => none
  | n + 1, id => do
    let node := (← MonadState.get).get id
    let children ← node.children.mapM fun child => copy n child
    fun f => some (f.add (node.withChildren children))

def render (f : Forest) : Nat → NodeId → Option Markup.Element
  | 0, _ => none
  | n + 1, id => do
    let node := f.get id
    let nodes ← match node.body with
      | .empty => some []
      | .children ids => do
        let elements ← ids.mapM fun child => render f n child
        pure (elements.map Markup.Element.toNode)
      | .text content => some (content.map Markup.Node.text).toList
      | .foreign fragments => some fragments
    return ⟨node.kind.name, Tree.writtenAttributes node.attributes, nodes⟩

def same (f : Forest) : Nat → NodeId → NodeId → Option Bool
  | 0, _, _ => none
  | n + 1, a, b =>
    if a = b then
      some true
    else if (f.get a).sameBy (fun _ _ => true) (f.get b) then
      ((f.children a).zip (f.children b)).allM fun (a, b) => same f n a b
    else
      some false

def search (f : Forest) (fits : Node NodeId → Bool) (inside : Bool) :
    Nat → NodeId → Option (Option Place)
  | 0, _ => none
  | n + 1, id =>
    if fits (f.get id) then
      some (some ⟨id, []⟩)
    else if (f.get id).kind = .definition ∧ !inside then
      some none
    else
      (f.children id).zipIdx.findSomeM? fun (child, i) => do
        let place? ← search f fits inside n child
        return place?.map fun place => { place with path := i :: place.path }

end Recursion

/-! ### Ends -/

variable {f g : Forest} {bound : Nat} {id : NodeId}

theorem isSome_unfold_child (h : (f.unfold (bound + 1) id).isSome) :
    ∀ child ∈ f.children id, (f.unfold bound child).isSome := by
  intro child hchild
  obtain ⟨t, ht⟩ := Option.isSome_iff_exists.1 h
  obtain ⟨ts, hts, -⟩ := unfold_succ_eq_some.1 ht
  exact Option.isSome_iff_exists.2 (exists_of_mapM_eq_some hts child hchild)

namespace Recursion

/-- A depth that unfolds a node is enough to walk through all that is below it. -/
theorem contains_eq_reaches (h : (f.unfold bound id).isSome) (k : Nat) (other : NodeId) :
    contains f (bound + k) id other = some (f.reaches bound id other) := by
  induction bound generalizing id with
  | zero => cases h
  | succ bound ih =>
      rw [Nat.add_right_comm, contains, reaches]
      by_cases hid : id = other
      · simp [hid]
      · rw [if_neg hid,
          anyM_eq_some_any fun child hchild => ih (isSome_unfold_child h child hchild)]
        simp [hid]

theorem same_eq_sameWithin (h : (f.unfold bound id).isSome) (k : Nat) (other : NodeId) :
    same f (bound + k) id other = some (f.sameWithin bound id other) := by
  induction bound generalizing id other with
  | zero => cases h
  | succ bound ih =>
      rw [Nat.add_right_comm, same, sameWithin, Node.sameBy_eq (f.sameWithin bound)]
      by_cases hid : id = other
      · simp [hid]
      · rw [if_neg hid]
        split
        · next halike =>
            have below : ∀ pair ∈ (f.children id).zip (f.children other),
                same f (bound + k) pair.1 pair.2 = some (f.sameWithin bound pair.1 pair.2) :=
              fun pair hpair =>
                ih (isSome_unfold_child h pair.1 (List.of_mem_zip hpair).1) pair.2
            rw [allM_eq_some_all below]
            simp [hid, halike, children]
        · next halike => simp [hid, halike]

theorem search_eq_search (h : (f.unfold bound id).isSome) (k : Nat) (fits : Node NodeId → Bool)
    (inside : Bool) :
    search f fits inside (bound + k) id = some (f.search fits inside bound id) := by
  induction bound generalizing id with
  | zero => cases h
  | succ bound ih =>
      rw [Nat.add_right_comm, search, Forest.search]
      split
      · rfl
      · split
        · rfl
        · refine findSomeM?_eq_some_findSome? fun pair hpair => ?_
          obtain ⟨child, i⟩ := pair
          dsimp only
          rw [ih (isSome_unfold_child h child (List.fst_mem_of_mem_zipIdx hpair))]
          rfl

theorem render_eq_toElement (hf : f.WellFormed) (h : (f.unfold bound id).isSome) (k : Nat) :
    render f (bound + k) id = some (f.tree id).toElement := by
  induction bound generalizing id with
  | zero => cases h
  | succ bound ih =>
      have elements : (f.children id).mapM (fun child => render f (bound + k) child) =
          some ((f.children id).map fun child => (f.tree child).toElement) :=
        mapM_eq_some_map fun child hchild => ih (isSome_unfold_child h child hchild)
      rw [Nat.add_right_comm, render, hf.tree_eq]
      rw [children] at elements ⊢
      generalize f.get id = n at elements ⊢
      obtain ⟨kind, attributes, body⟩ := n
      cases body with
      | children ids =>
          rw [Node.children] at elements ⊢
          rw [Node.withChildren, Tree.toElement, Tree.bodyNodes_children, List.map_map]
          dsimp only
          rw [elements]
          simp
      | empty | text | foreign => rfl

/-- What comes to be while a node is copied does not change what is copied. -/
theorem copy_eq_plant (hf : f.WellFormed) (hid : f.Has id) (h : (f.unfold bound id).isSome)
    (k : Nat) (hg : Growth f g) : copy (bound + k) id g = some (g.plant (f.tree id)) := by
  induction bound generalizing id g with
  | zero => cases h
  | succ bound ih => ?_
  -- Each child is copied in the forest that the copies of those before it have left.
  have copied : ∀ ids : List NodeId, (∀ child ∈ ids, f.HasChild id child) → ∀ g, Growth f g →
      ids.mapM (copy (bound + k)) g = some (g.plantAll (ids.map f.tree)) := by
    intro ids
    induction ids with
    | nil => exact fun _ _ _ => rfl
    | cons child ids rest =>
        intro hids g hg
        obtain ⟨hchild, hids⟩ := List.forall_mem_cons.1 hids
        have first := ih (hf.closed _ _ hchild) (isSome_unfold_child h child hchild) hg
        have grown := (plant_spec (hf.valid_tree child) (hg.wellFormed hf)).growth
        rw [List.mapM_cons]
        show (copy (bound + k) child g).bind _ = _
        rw [first]
        show (ids.mapM (copy (bound + k)) _).bind _ = _
        rw [rest hids _ (hg.grow grown)]
        rfl
  have read : g.get id = f.get id := hg.get_closed hid not_false
  have made := copied (f.children id) (fun _ hchild => hchild) g hg
  rw [Nat.add_right_comm, copy]
  show (((g.get id).children.mapM (copy (bound + k))) g).bind _ = _
  rw [read, ← children, made]
  have held := hf.children_tree id
  rw [hf.tree_eq] at held ⊢
  rw [plant_mk, show (Node.withChildren _ _).children = _ from held, Node.withChildren_withChildren]
  rfl

/-! No walk goes deeper than there are nodes. -/

theorem isSome_unfold_size (hf : f.WellFormed) (hid : f.Has id) :
    (f.unfold f.size id).isSome := by
  rw [unfold_size_eq_tree hf.acyclic hf.closed hid]
  rfl

theorem contains_halts (hf : f.WellFormed) (hid : f.Has id) (other : NodeId) :
    Halts (fun n => contains f n id other) (f.contains id other) :=
  .of_add f.size fun k => contains_eq_reaches (isSome_unfold_size hf hid) k other

theorem same_halts (hf : f.WellFormed) (hid : f.Has id) (other : NodeId) :
    Halts (fun n => same f n id other) (f.same id other) :=
  .of_add f.size fun k => same_eq_sameWithin (isSome_unfold_size hf hid) k other

theorem search_halts (hf : f.WellFormed) (hid : f.Has id) (fits : Node NodeId → Bool)
    (inside : Bool) :
    Halts (fun n => search f fits inside n id) (f.search fits inside f.size id) :=
  .of_add f.size fun k => search_eq_search (isSome_unfold_size hf hid) k fits inside

theorem render_halts (hf : f.WellFormed) (hid : f.Has id) :
    Halts (fun n => render f n id) (f.tree id).toElement :=
  .of_add f.size fun k => render_eq_toElement hf (isSome_unfold_size hf hid) k

theorem copy_halts (hf : f.WellFormed) (hid : f.Has id) :
    Halts (fun n => copy n id f) (f.copy id) :=
  .of_add f.size fun k => copy_eq_plant hf hid (isSome_unfold_size hf hid) k .start

theorem addChild_halts (hf : f.WellFormed) {child : NodeId} (hc : f.Has child)
    (parent : NodeId) :
    Halts (fun n => addChild n f parent child) (f.addChild parent child) := by
  filter_upwards [contains_halts hf hc parent] with n hcontains
  rw [addChild, hcontains, Forest.addChild, edit]
  cases (f.get parent).checkChild (f.get child).kind with
  | error violation => rfl
  | ok u => cases f.contains child parent <;> rfl

end Recursion

end Forest

end IncidentReport
