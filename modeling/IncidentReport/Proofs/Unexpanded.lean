import IncidentReport.Proofs.Attachment
import IncidentReport.Proofs.Resolution.Steps

/-!
Attaching a node where there is nothing to expand, because the budget allows nothing or
because nothing below the node refers to a definition. A copy of the node is added, whether
it is made all at once or level by level, and wherever the parent stands; so the budget makes
no difference.
-/

namespace IncidentReport

namespace Forest

variable {f : Forest} {parent child : NodeId} {made made' : Forest × Option ResolveError}

/-- Adds a copy of a node to another one. A copy that is refused stays by itself. -/
def addCopy (f : Forest) (parent child : NodeId) : Forest × Option ResolveError :=
  let (copy, g) := f.copy child
  match g.addChild parent copy with
  | .ok h => (h, none)
  | .error violation => (g, some (.schema violation))

/-- A copy of a node has been added to the parent, if the types allow it. -/
structure CopyAdded (f : Forest) (parent child : NodeId) (made : Forest × Option ResolveError) :
    Prop where
  /-- A tree of new nodes has come behind the children of the parent. It is that of the node,
  down to the order of attributes. Nothing else has changed. -/
  added : (f.get parent).kind.permits (f.get child).kind = true → made.2 = none ∧
    f.KeepsAround made.1 parent ∧ ∃ copy, made.1.children parent = f.children parent ++ [copy] ∧
      f.NewTree made.1 copy ∧ made.1.tree copy = f.tree child
  /-- Nothing has changed, and the reason is that of a child of this type. -/
  refused : (f.get parent).kind.permits (f.get child).kind = false →
    made.2 = some (.schema ((f.get parent).kind.refusal (f.get child).kind)) ∧ f.Keeps made.1

/-- Two calls have ended with the same error or with none, and what was there before the calls
has come to the same trees. -/
structure EndsAlike (f : Forest) (made made' : Forest × Option ResolveError) : Prop where
  outcome : made.2 = made'.2
  trees : ∀ id, f.Has id → made.1.tree id = made'.1.tree id

theorem EndsAlike.symm (h : f.EndsAlike made made') : f.EndsAlike made' made :=
  ⟨h.outcome.symm, fun id hid => (h.trees id hid).symm⟩

theorem EndsAlike.trans {made'' : Forest × Option ResolveError} (h : f.EndsAlike made made')
    (h' : f.EndsAlike made' made'') : f.EndsAlike made made'' :=
  ⟨h.outcome.trans h'.outcome, fun id hid => (h.trees id hid).trans (h'.trees id hid)⟩

theorem Keeps.tree_eq {g : Forest} (h : f.Keeps g) (hf : f.WellFormed) (hg : g.WellFormed)
    {id : NodeId} (hid : f.Has id) : g.tree id = f.tree id :=
  tree_congr hf hg fun other ho => (h other (hf.closed.has_of_reaches hid ho)).2

/-- Of the old nodes only the parent has changed, so the trees that have come behind its
children decide about all trees. -/
theorem KeepsAround.tree_eq {g h : Forest} (hg : f.KeepsAround g parent)
    (hh : f.KeepsAround h parent) (hf : f.WellFormed) (hgf : g.WellFormed) (hhf : h.WellFormed)
    {a b : List NodeId} (ha : g.children parent = f.children parent ++ a)
    (hb : h.children parent = f.children parent ++ b) (trees : a.map g.tree = b.map h.tree)
    {id : NodeId} (hid : f.Has id) : g.tree id = h.tree id := by
  obtain ⟨hgkeep, _, -, -, hgparent⟩ := hg
  obtain ⟨hhkeep, _, -, -, hhparent⟩ := hh
  induction id using hf.induction with
  | step id below => ?_
  have old : (f.children id).map g.tree = (f.children id).map h.tree :=
    List.map_congr_left fun child hchild => below child hchild (hf.closed _ _ hchild)
  rw [hgf.tree_eq, hhf.tree_eq]
  by_cases hp : id = parent
  · subst hp
    rw [ha, hb, List.map_append, List.map_append, old, trees, hgparent, hhparent,
      Node.withChildren_withChildren, Node.withChildren_withChildren]
  · rw [children, children, (hgkeep id hid).2 hp, (hhkeep id hid).2 hp, ← children, old]

/-- If the parent has no new child, nothing has changed. -/
theorem KeepsAround.keeps_of_children_eq {g : Forest} (h : f.KeepsAround g parent)
    (hchildren : g.children parent = f.children parent) : f.Keeps g := by
  obtain ⟨hkeep, new, -, hnew, hparent⟩ := h
  rw [hchildren, List.self_eq_append_right] at hnew
  subst hnew
  rw [List.append_nil, children, Node.withChildren_children] at hparent
  intro id hid
  by_cases hne : id = parent
  · exact ⟨(hkeep id hid).1, hne ▸ hparent⟩
  · exact ⟨(hkeep id hid).1, (hkeep id hid).2 hne⟩

theorem CopyAdded.endsAlike (h : f.CopyAdded parent child made)
    (h' : f.CopyAdded parent child made') (hf : f.WellFormed) (hm : made.1.WellFormed)
    (hm' : made'.1.WellFormed) : f.EndsAlike made made' := by
  cases hpermits : (f.get parent).kind.permits (f.get child).kind with
  | true =>
      obtain ⟨hout, hkeep, copy, hchildren, -, htree⟩ := h.added hpermits
      obtain ⟨hout', hkeep', copy', hchildren', -, htree'⟩ := h'.added hpermits
      refine ⟨hout.trans hout'.symm, fun id hid => ?_⟩
      refine hkeep.tree_eq hkeep' hf hm hm' hchildren hchildren' ?_ hid
      rw [List.map_singleton, List.map_singleton, htree, htree']
  | false =>
      obtain ⟨hout, hkeep⟩ := h.refused hpermits
      obtain ⟨hout', hkeep'⟩ := h'.refused hpermits
      refine ⟨hout.trans hout'.symm, fun id hid => ?_⟩
      rw [hkeep.tree_eq hf hm hid, hkeep'.tree_eq hf hm' hid]

end Forest

namespace Library

open Forest Call

variable {lib : Library} {f : Forest} {depth : Nat} {parent child : NodeId}

/-- Within this budget there is nothing to expand below the node: no unit is left for what it
refers to, or no node below it, itself included, refers to a stored definition. -/
def NothingToExpand (lib : Library) (f : Forest) (depth : Nat) (child : NodeId) : Prop :=
  depth ≤ 1 ∨ ∀ node, f.Reaches child node →
    ∀ key ∈ (f.get node).attribute? definitionAttribute, lib.find? key = none

/-- Without a unit to spare a node is attached by adding a copy of it. -/
theorem attach_eq_addCopy (lib : Library) (f : Forest) (hdepth : depth ≤ 1)
    (parent child : NodeId) : lib.attach f depth parent child = f.addCopy parent child := by
  obtain hspare : depth - 1 = 0 := by omega
  rw [attach, attachWithin, hspare, splice, bind_apply, make, addCopy]
  dsimp only
  rw [Call.edit]
  cases (f.copy child).2.addChild parent (f.copy child).1 <;> rfl

/-- Level by level the tree is taken as it is, as every level refers to nothing. -/
theorem splice_matches_take (hf : f.WellFormed) (hl : lib.Within f) (hp : f.Has parent)
    (hc : f.Has child) {s : Gathering} (hm : Mirrors f parent s) (spare : Nat)
    (h : spare = 0 ∨ (lib.definitions f).Unresolved (f.tree child)) :
    Matches (lib.splice spare parent child f) parent (s.take (f.tree child)) := by
  cases spare with
  | zero => exact splice_zero_matches hf hp child hm
  | succ spare =>
      have hplain := h.resolve_left (Nat.succ_ne_zero spare)
      obtain ⟨he, -⟩ := lib.expands_and_attaches_as (spare + 1)
      obtain ⟨-, ha⟩ := lib.expands_and_attaches_as spare
      obtain ⟨resolved?, g, hfollow, hg, -, htree⟩ :=
        follow?_tree he (lib.expand_builds (spare + 1)) hf hl child
      rw [Definitions.bind_resolve_of_unresolved hplain, Option.map_eq_none_iff] at htree
      subst htree
      have attached :=
        attachWith_unfollowed ha (lib.expands_and_attaches spare).2 hf hl hp hc hm hg hfollow
      rw [Definitions.gatherAlone_of_unresolved (hf.valid_tree child) hplain] at attached
      rw [splice_succ]
      exact attached

theorem attach_copyAdded (hf : f.WellFormed) (hl : lib.Within f) (hp : f.Has parent)
    (hc : f.Has child) (h : lib.NothingToExpand f depth child) :
    f.CopyAdded parent child (lib.attach f depth parent child) := by
  -- As nothing is followed, the parent may stand anywhere, even below the child.
  have plain : depth - 1 = 0 ∨ (lib.definitions f).Unresolved (f.tree child) :=
    h.imp (fun hdepth => by omega) (unresolved_tree hf)
  have matched := splice_matches_take hf hl hp hc (.startingFrom hf rfl) (depth - 1) plain
  rw [← Gathering.accept_ofTree] at matched
  obtain ⟨⟨around, new, hnew, hchildren, htrees⟩, outcome⟩ :=
    attach_of_matches hf hl hp hc matched
  have built := (lib.attachWithin_builds depth f parent child hf hl hp hc).construction
  rw [← attach_eq] at built
  generalize lib.attach f depth parent child = made at *
  rw [Offer.taken_ofTree, hf.kind_tree] at htrees
  rw [Offer.refusal?_ofTree, hf.kind_tree] at outcome
  constructor
  · intro hpermits
    rw [if_pos hpermits] at htrees outcome
    obtain ⟨copy, rfl, htree⟩ := List.map_eq_singleton_iff.1 htrees
    have hcopy := hnew copy (List.mem_singleton_self _)
    have hhas : made.1.Has copy := by
      refine (built.wellFormed hf).closed parent copy ?_
      rw [HasChild, hchildren]
      exact List.mem_append_right _ (List.mem_singleton_self _)
    have newTree := built.newTree_of_isNew hf hcopy hhas fun _ _ => not_false
    exact ⟨outcome, around, copy, hchildren, newTree, htree⟩
  · intro hpermits
    rw [if_neg (by simp [hpermits])] at htrees outcome
    rw [List.map_eq_nil_iff.1 htrees, List.append_nil] at hchildren
    exact ⟨outcome, around.keeps_of_children_eq hchildren⟩

theorem wellFormed_attach (hf : f.WellFormed) (hl : lib.Within f) (depth : Nat)
    (hp : f.Has parent) (hc : f.Has child) :
    (lib.attach f depth parent child).1.WellFormed := by
  rw [attach_eq]
  exact (lib.attachWithin_builds depth f parent child hf hl hp hc).construction.wellFormed hf

/-- Where there is nothing to expand, attaching ends as adding a copy does. -/
theorem attach_endsAlike (hf : f.WellFormed) (hl : lib.Within f) (hp : f.Has parent)
    (hc : f.Has child) (h : lib.NothingToExpand f depth child) :
    f.EndsAlike (lib.attach f depth parent child) (f.addCopy parent child) := by
  have spent : lib.NothingToExpand f 0 child := .inl (Nat.zero_le 1)
  rw [← lib.attach_eq_addCopy f (Nat.zero_le 1)]
  exact (attach_copyAdded hf hl hp hc h).endsAlike (attach_copyAdded hf hl hp hc spent) hf
    (wellFormed_attach hf hl depth hp hc) (wellFormed_attach hf hl 0 hp hc)

end Library

/-! ### Worlds -/

/-- How nodes are attached in a world where there is nothing to expand. -/
structure World.AttachesPlainly (w : World) : Prop where
  /-- Without a unit to spare, adding a copy is all that is done. -/
  spent : ∀ lib ∈ w.libraries, ∀ depth ≤ 1, ∀ parent child,
    lib.attach w.forest depth parent child = w.forest.addCopy parent child
  /-- A copy that is added has come to the parent, or its type is refused. -/
  copied : ∀ parent child, w.forest.Has parent → w.forest.Has child →
    w.forest.CopyAdded parent child (w.forest.addCopy parent child)
  /-- Level by level the same comes about, however many units there are. -/
  attached : ∀ lib ∈ w.libraries, ∀ depth parent child, w.forest.Has parent →
    w.forest.Has child → lib.NothingToExpand w.forest depth child →
      w.forest.CopyAdded parent child (lib.attach w.forest depth parent child) ∧
        w.forest.EndsAlike (lib.attach w.forest depth parent child)
          (w.forest.addCopy parent child)
  /-- So the budget makes no difference. -/
  budget : ∀ lib ∈ w.libraries, ∀ depth depth' parent child, w.forest.Has parent →
    w.forest.Has child → lib.NothingToExpand w.forest depth child →
      lib.NothingToExpand w.forest depth' child →
        w.forest.EndsAlike (lib.attach w.forest depth parent child)
          (lib.attach w.forest depth' parent child)

namespace World

theorem WellFormed.attachesPlainly {w : World} (hw : w.WellFormed) : w.AttachesPlainly where
  spent lib _ _ hdepth _ _ := lib.attach_eq_addCopy w.forest hdepth _ _
  copied parent child hp hc := by
    rw [← Library.empty.attach_eq_addCopy w.forest (Nat.zero_le 1)]
    exact Library.attach_copyAdded hw.forest Library.stores_empty.within hp hc
      (.inl (Nat.zero_le 1))
  attached lib hlib depth parent child hp hc h := by
    have hl := (hw.libraries lib hlib).within
    exact ⟨Library.attach_copyAdded hw.forest hl hp hc h,
      Library.attach_endsAlike hw.forest hl hp hc h⟩
  budget lib hlib depth depth' parent child hp hc h h' := by
    have hl := (hw.libraries lib hlib).within
    exact (Library.attach_endsAlike hw.forest hl hp hc h).trans
      (Library.attach_endsAlike hw.forest hl hp hc h').symm

/-- In every world what has nothing to expand is attached as a plain copy. -/
theorem run_attachesPlainly (operations : List Operation) :
    (run empty operations).AttachesPlainly :=
  (wellFormed_run wellFormed_empty operations).attachesPlainly

end World

end IncidentReport
