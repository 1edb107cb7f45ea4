import IncidentReport.Proofs.Forest.Trees
import IncidentReport.Resolution.Live

/-!
Nodes that are filled with children and the children gathered for them. A node
mirrors what has been gathered if its tree is what the gathering amounts to; what
is then attached to the node, as long as it does not lead back to it, is gathered.
-/

namespace IncidentReport.Library

open Forest Call

variable {f g h : Forest}

/-- The node has the children gathered so far, and is else the node to gather for. -/
structure Mirrors (f : Forest) (parent : NodeId) (s : Gathering) : Prop where
  bare : (f.get parent).withChildren ([] : List Tree) = s.parent.withChildren []
  trees : (f.children parent).map f.tree = s.children

/-- The call has done to the node what gathering has done, and ends as gathering
does. -/
structure Matches (made : Except ResolveError Unit × Forest) (parent : NodeId)
    (taken : Gathering × Option Violation) : Prop where
  mirrors : Mirrors made.2 parent taken.1
  outcome : made.1 = match taken.2 with
    | none => .ok ()
    | some violation => .error (.schema violation)

namespace Mirrors

variable {parent child : NodeId} {s : Gathering}

theorem kind (hm : Mirrors f parent s) : (f.get parent).kind = s.parent.kind := by
  have h := congrArg Node.kind hm.bare
  exact h

theorem tree (hm : Mirrors f parent s) (hf : f.WellFormed) : f.tree parent = s.toTree := by
  rw [hf.tree_eq, Gathering.toTree, hm.trees,
    ← Node.withChildren_withChildren _ ([] : List Tree), hm.bare, Node.withChildren_withChildren]

theorem startingFrom {t : Tree} (hf : f.WellFormed) (ht : f.tree parent = t) :
    Mirrors f parent (.startingFrom t) where
  bare := by
    subst ht
    rw [Gathering.startingFrom, hf.tree_eq, Tree.node_mk, Node.withChildren_withChildren]
  trees := by
    rw [Gathering.children, Gathering.startingFrom, List.reverse_reverse, ← ht, hf.children_tree]

theorem later {opened dropped : NodeId → Prop} (hm : Mirrors f parent s) (hf : f.WellFormed)
    (hp : Shut f opened parent) (hg : Construction f opened dropped g) : Mirrors g parent s := by
  have hget := hp.get_eq hf hg .refl
  refine ⟨by rw [hget]; exact hm.bare, ?_⟩
  rw [children, hget, ← children, ← hm.trees]
  exact List.map_congr_left fun child hchild => (hp.below hf hchild).tree_eq hf hg

end Mirrors

theorem Mirrors.addChild (hf : f.WellFormed) {parent child : NodeId} {s : Gathering}
    (hm : Mirrors f parent s) (hp : f.Has parent) (hc : f.Has child)
    (hno : ¬ f.Reaches child parent) (accepted : f.addChild parent child = .ok g) :
    Mirrors g parent { s with gathered := f.tree child :: s.gathered } := by
  have hg := hf.addChild hp hc accepted
  have kept : ∀ {id}, ¬ f.Reaches id parent → g.tree id = f.tree id := by
    rw [Forest.addChild] at accepted
    exact tree_edit_of_not_reaches hf hg accepted
  obtain ⟨hpermits, -, rfl⟩ := addChild_eq_ok accepted
  have hbody : (f.get parent).body.content = .children :=
    (hf.valid parent).body.trans (Node.permits_eq_true_imp hpermits)
  constructor
  · rw [get_set_self _ hp, Node.withChildren_push, hm.bare]
  · have old : (f.get parent).children.map (f.set parent ((f.get parent).push child)).tree =
        s.children := by
      rw [← hm.trees]
      exact List.map_congr_left fun other ho =>
        kept (hf.not_reaches_of_hasChild ho)
    rw [children, get_set_self _ hp, Node.children_push_of_content hbody, List.map_append,
      List.map_singleton, kept hno, old, Gathering.children, Gathering.children,
      List.reverse_cons]

/-- A node that does not lead back is added as its tree is taken. -/
theorem edit_addChild_matches (hf : f.WellFormed) {parent child : NodeId} {s : Gathering}
    (hm : Mirrors f parent s) (hp : f.Has parent) (hc : f.Has child)
    (hno : ¬ f.Reaches child parent) :
    Matches (Call.edit (·.addChild parent child) f) parent (s.take (f.tree child)) := by
  have hadd := addChild_of_not_reaches hf hc hno
  rw [Node.checkChild_congr hm.kind] at hadd
  rw [Call.edit, Gathering.take, hf.kind_tree]
  cases hcheck : s.parent.checkChild (f.get child).kind with
  | error violation =>
      rw [hcheck] at hadd
      rw [hadd]
      exact ⟨hm, rfl⟩
  | ok u =>
      rw [hcheck] at hadd
      have mirrored := hm.addChild hf hp hc hno hadd
      rw [hadd]
      exact ⟨mirrored, rfl⟩

/-! ### Marking -/

/-- Attributes have been set as in the trees, and nowhere else. -/
structure Marked (g : Forest) (ids : List NodeId) (name value : String)
    (made : Except ResolveError Unit × Forest) : Prop where
  wellFormed : made.2.WellFormed
  trees : made.1.map (fun _ => ids.map made.2.tree) =
    ((ids.map g.tree).mapM fun t => t.setAttribute name value :
      Except Violation (List Tree)).mapError .schema
  get_eq : ∀ other ∉ ids, made.2.get other = g.get other
  tree_eq : ∀ other, (∀ id ∈ ids, ¬ g.Reaches other id) → made.2.tree other = g.tree other

theorem forEach_setAttribute (hg : g.WellFormed) {ids : List NodeId}
    (hids : ∀ id ∈ ids, g.Has id)
    (hapart : ids.Pairwise fun a b => ¬ g.Reaches a b ∧ ¬ g.Reaches b a) (name value : String) :
    Marked g ids name value
      (forEach (fun id => Call.edit (·.setAttribute id name value)) ids g) := by
  induction ids generalizing g with
  | nil => exact ⟨hg, rfl, fun _ _ => rfl, fun _ _ => rfl⟩
  | cons id ids ih =>
      obtain ⟨hid, hids⟩ := List.forall_mem_cons.1 hids
      obtain ⟨hfirst, hapart⟩ := List.pairwise_cons.1 hapart
      have hroot := setAttribute_tree hg hid name value
      rw [forEach, bind_apply, Call.edit]
      cases accepted : g.setAttribute id name value with
      | error violation =>
          rw [accepted] at hroot
          refine ⟨hg, ?_, fun _ _ => rfl, fun _ _ => rfl⟩
          rw [List.map_cons, List.mapM_cons, ← hroot]
          rfl
      | ok h =>
          rw [accepted] at hroot
          have hh := hg.edit Node.amends_setAttribute accepted
          have reach : ∀ {a b : NodeId}, h.Reaches a b ↔ g.Reaches a b :=
            reaches_setAttribute accepted
          have same : ids.map h.tree = ids.map g.tree :=
            List.map_congr_left fun other ho =>
              tree_edit_of_not_reaches hg hh accepted (hfirst other ho).2
          have rest := ih hh (fun other ho => (has_of_edit accepted).2 (hids other ho))
            (hapart.imp fun hab => by rwa [reach, reach])
          dsimp only
          generalize forEach (fun id => Call.edit (·.setAttribute id name value)) ids h = made
            at rest ⊢
          refine ⟨rest.wellFormed, ?_, fun other ho => ?_, fun other ho => ?_⟩
          · have first := rest.tree_eq id fun other ho => by
              rw [reach]
              exact (hfirst other ho).1
            have htrees := rest.trees
            rw [same] at htrees
            rw [List.map_cons, List.map_cons,
              mapM_cons_of_ok (fun t : Tree => t.setAttribute name value) hroot.symm,
              ← mapError_map, ← htrees, map_map]
            simp only [first]
          · obtain ⟨hne, ho⟩ := not_or.1 (mt List.mem_cons.2 ho)
            rw [rest.get_eq other ho]
            obtain ⟨node, -, rfl⟩ := edit_eq_ok accepted
            exact get_set_of_ne _ hne
          · obtain ⟨hfirst, ho⟩ := List.forall_mem_cons.1 ho
            rw [rest.tree_eq other fun next hnext => by
              rw [reach]
              exact ho next hnext]
            exact tree_edit_of_not_reaches hg hh accepted hfirst

theorem mark_tree (hf : f.WellFormed) (hg : Growth f g) (id : String) {root : NodeId}
    (hr : Root f g root) {s : Gathering} (hm : Mirrors g root s) :
    (mark id root g).1.map (fun uniform => Expansion.mk ((mark id root g).2.tree root) uniform) =
      Definitions.complete id s := by
  have hwf := hg.wellFormed hf
  have uniform : NodeType.common? ((g.children root).map fun child => (g.get child).kind) =
      uniformType? s.children := by
    rw [uniformType?, ← hm.trees, List.map_map]
    congr 1
    exact List.map_congr_left fun child _ => (hwf.kind_tree child).symm
  rw [mark, bind_apply, look, Definitions.complete, Definitions.stamp]
  dsimp only
  rw [bind_apply, look]
  dsimp only
  rw [uniform]
  cases uniformType? s.children with
  | none =>
      exact congrArg (fun t => Except.ok (Expansion.mk t none)) (hm.tree hwf)
  | some kind =>
      have outside : root ∉ g.children root := fun hmem => hwf.acyclic root (.single hmem)
      have marked := forEach_setAttribute hwf (fun child hchild => hwf.closed root child hchild)
        (children_apart hf hg hr) provenanceAttribute id
      simp only [Option.isSome_some, if_true]
      rw [bind_apply]
      generalize forEach (fun child => Call.edit (·.setAttribute child provenanceAttribute id))
        (g.children root) g = made at marked ⊢
      obtain ⟨hwf', htrees, hget, -⟩ := marked
      rw [hm.trees] at htrees
      rw [← htrees]
      rcases made with ⟨e | u, h⟩
      · rfl
      · have hroot : h.get root = g.get root := hget root outside
        have done : h.tree root =
            ⟨s.parent.withChildren ((g.children root).map h.tree)⟩ := by
          rw [hwf'.tree_eq, children, hroot, ← children,
            ← Node.withChildren_withChildren _ ([] : List Tree), hm.bare,
            Node.withChildren_withChildren]
        exact congrArg (fun t => Except.ok (Expansion.mk t (some kind))) done

end IncidentReport.Library
