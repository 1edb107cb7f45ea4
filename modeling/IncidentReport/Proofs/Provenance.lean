import IncidentReport.Proofs.Resolution.Steps
import IncidentReport.Proofs.World

/-!
Where the marks of an expansion come from. The children are marked with its id if and only if
they are all of one type. Every other mark stood in a definition, or it is the id of another
expansion that was made on the way with less to spend.
-/

namespace IncidentReport

/-! ### Trees -/

namespace Definitions

variable {defs : Definitions} {ids : Set String} {origin : String → Prop} {bound : Nat}
  {id : String} {t : Tree} {ts : List Tree}

/-- All that the tree refers to is in the set, and all marks in it have such an origin. -/
def Traced (ids : Set String) (origin : String → Prop) (t : Tree) : Prop :=
  t.All fun n => (∀ id ∈ n.attribute? definitionAttribute, id ∈ ids) ∧
    ∀ mark ∈ n.attribute? provenanceAttribute, origin mark

theorem Traced.marked (h : Traced ids origin t) (hid : origin id) :
    Traced ids origin (t.marked id) := by
  refine .of_root ⟨fun next hnext => ?_, fun mark hmark => ?_⟩ fun _ => h.child
  · have hother : (t.marked id).attribute? definitionAttribute = some next := hnext
    rw [Tree.attribute?_marked, if_neg (by decide)] at hother
    exact h.root.1 next hother
  · have hown : (t.marked id).attribute? provenanceAttribute = some mark := hmark
    rw [Tree.attribute?_marked, if_pos rfl] at hown
    cases hown
    exact hid

theorem Traced.withChildren (h : Traced ids origin t) (hts : ∀ u ∈ ts, Traced ids origin u) :
    Traced ids origin ⟨t.node.withChildren ts⟩ :=
  .of_root h.root fun u hu => hts u (Node.children_withChildren_subset _ _ u hu)

/-- If the ids whose expansions are marked are an origin, marks keep their origin. -/
theorem keepsWithin_traced
    (stored : ∀ id ∈ ids, defs.StartsWithin ids (Traced ids origin) id)
    (expanded : ∀ id ∈ ids, ∀ depth < bound, ∀ e, defs.resolve depth id = .ok e →
      e.uniformType.isSome → origin id) :
    defs.KeepsWithin ids bound (Traced ids origin) fun _ => True where
  stored := stored
  refers _ ht id hid := ht.root.1 id hid
  marked id hid depth hdepth e he huniform _ ht _ :=
    ht.marked (expanded id hid depth hdepth e he huniform)
  refused _ _ _ := trivial
  inPlace spare t ht ho := by
    have inside : (Offer.concat (defs.offer spare) t.children).Meets (Traced ids origin)
        fun _ => True := .concat fun u hu => ho u (ht.child hu)
    dsimp only
    cases (Offer.concat (defs.offer spare) t.children).refusal? t.kind with
    | some v => exact Offer.meets_failure trivial
    | none => exact Offer.meets_ofTree (ht.withChildren inside.trees)

/-- Below the children there are only traced trees, whether the children are marked or not. -/
theorem traced_below_stamped (h : ∀ t ∈ ts, Traced ids origin t) :
    ∀ t ∈ stamped id ts, ∀ u ∈ t.children, Traced ids origin u :=
  forall_mem_stamped (fun t ht _ => (h t ht).child) fun _ t ht _ => (h t ht).child

theorem uniformType?_stamped (id : String) (ts : List Tree) :
    uniformType? (stamped id ts) = uniformType? ts := by
  rw [stamped]
  split
  · rw [uniformType?, List.map_map]
    rfl
  · rfl

end Definitions

/-! ### Forests -/

namespace Library

open Forest Definitions

variable {lib : Library} {f g : Forest} {depth : Nat} {id : String} {root : NodeId}
  {uniform : Option NodeType}

/-- The ids that the resolution of an id can come to after it. The id itself is one of them only
if definitions lead back to it. -/
def reachAfter (lib : Library) (f : Forest) (id : String) : Set String :=
  {next | Relation.TransGen (lib.LeadsTo f) id next}

/-- Where the expansion of an id may have a mark from that is not its own. -/
inductive MarkOrigin (lib : Library) (f : Forest) (depth : Nat) (id mark : String) : Prop where
  /-- It stands on a node below a definition that the resolution comes to. -/
  | written {key : String} {found node : NodeId} (reached : key ∈ lib.reach f id)
      (stored : lib.find? key = some found) (below : Relation.TransGen f.HasChild found node)
      (written : (f.get node).attribute? provenanceAttribute = some mark)
  /-- It is an id that definitions lead to from the first one on, and with less to spend its
  expansion has children of one type. -/
  | expanded {found : NodeId} {spent : Nat} {root : NodeId} {kind : NodeType} {g : Forest}
      (reached : mark ∈ lib.reachAfter f id) (stored : lib.find? mark = some found)
      (less : spent < depth) (built : lib.buildNode f spent mark = .ok (root, some kind, g))

/-- What the definition of a reached id starts with is traced. -/
theorem startsWithin_of_mem_reach (hf : f.WellFormed) (depth : Nat) {key : String}
    (hkey : key ∈ lib.reach f id) :
    (lib.definitions f).StartsWithin (lib.reachAfter f id)
      (Traced (lib.reachAfter f id) (lib.MarkOrigin f depth id)) key := by
  have leads : ∀ {found}, lib.find? key = some found →
      (f.tree found).LeadsWithin (lib.reachAfter f id) := fun hfound =>
    leadsWithin_tree hf hfound fun _ hnext => .tail' hkey hnext
  constructor
  · intro t ht child hchild
    obtain ⟨found, hfound, rfl⟩ := Option.map_eq_some_iff.1 ht
    have refers := (leads hfound).below child hchild
    rw [hf.children_tree] at hchild
    obtain ⟨node, hnode, rfl⟩ := List.mem_map.1 hchild
    refine Tree.All.and refers (hf.all_tree fun below hbelow mark hmark => ?_)
    refine .written hkey hfound (.head' hnode hbelow) ?_
    rw [← hf.attribute?_tree]
    exact hmark
  · intro t ht
    obtain ⟨found, hfound, rfl⟩ := Option.map_eq_some_iff.1 ht
    exact (leads hfound).template

theorem keepsWithin_reachAfter (hf : f.WellFormed) (hl : lib.Within f) (depth : Nat)
    (id : String) :
    (lib.definitions f).KeepsWithin (lib.reachAfter f id) depth
      (Traced (lib.reachAfter f id) (lib.MarkOrigin f depth id)) fun _ => True := by
  refine keepsWithin_traced (fun key hkey => ?_) fun key hkey spent hspent e he huniform => ?_
  · exact startsWithin_of_mem_reach hf depth (Relation.TransGen.to_reflTransGen hkey)
  · obtain ⟨-, t, -, hstored, -⟩ := resolved_of_resolve_eq_ok he
    obtain ⟨found, hfound, -⟩ := Option.map_eq_some_iff.1 hstored
    obtain ⟨root, g, hbuilt, -⟩ := exists_buildNode_of_resolve hf hl he
    obtain ⟨kind, hkind⟩ := Option.isSome_iff_exists.1 huniform
    rw [hkind] at hbuilt
    exact .expanded hkey hfound hspent hbuilt

/-- The children of an expansion come from trees that are traced, to which nothing but marks
of its own has been added. -/
theorem traced_of_buildNode (hf : f.WellFormed) (hl : lib.Within f)
    (h : lib.buildNode f depth id = .ok (root, uniform, g)) :
    ∃ ts, (∀ t ∈ ts, Traced (lib.reachAfter f id) (lib.MarkOrigin f depth id) t) ∧
      (g.children root).map g.tree = stamped id ts ∧ uniform = uniformType? ts := by
  obtain ⟨e, he, hchildren, rfl⟩ := children_of_buildNode hf hl h
  have keeps := keepsWithin_reachAfter hf hl depth id
  obtain ⟨ts, -, traced, rfl⟩ :=
    (keeps.completes (startsWithin_of_mem_reach hf depth .refl)).trees e he
  exact ⟨ts, traced, hchildren.symm, rfl⟩

/-- The marks of an expansion and the type of its children. -/
structure ProvenanceKnown (lib : Library) (f : Forest) (depth : Nat) (id : String) (root : NodeId)
    (uniform : Option NodeType) (g : Forest) : Prop where
  typed : ∀ kind, uniform = some kind ↔
    g.children root ≠ [] ∧ ∀ child, g.HasChild root child → (g.get child).kind = kind
  mixed : uniform = none → g.children root = [] ∨ ∃ a b, g.HasChild root a ∧ g.HasChild root b ∧
    (g.get a).kind ≠ (g.get b).kind
  /-- Children of one type are marked with the id, whether they are the definition's own, are
  inherited or have come in place of another one. -/
  marked : uniform.isSome → ∀ child, g.HasChild root child →
    (g.get child).attribute? provenanceAttribute = some id
  children : uniform = none → ∀ child, g.HasChild root child →
    ∀ mark ∈ (g.get child).attribute? provenanceAttribute, lib.MarkOrigin f depth id mark
  below : ∀ child, g.HasChild root child → ∀ node, Relation.TransGen g.HasChild child node →
    ∀ mark ∈ (g.get node).attribute? provenanceAttribute, lib.MarkOrigin f depth id mark

theorem uniform_iff_of_buildNode (hf : f.WellFormed) (hl : lib.Within f)
    (h : lib.buildNode f depth id = .ok (root, uniform, g)) (kind : NodeType) :
    uniform = some kind ↔
      g.children root ≠ [] ∧ ∀ child, g.HasChild root child → (g.get child).kind = kind := by
  have hg := wellFormed_of_buildNode hf hl h
  obtain ⟨ts, -, htrees, rfl⟩ := traced_of_buildNode hf hl h
  rw [← uniformType?_stamped id, ← htrees, uniformType?_eq_some_iff, List.forall_mem_map, ne_eq,
    List.map_eq_nil_iff]
  simp only [hg.kind_tree]
  rfl

theorem provenanceKnown_of_buildNode (hf : f.WellFormed) (hl : lib.Within f)
    (h : lib.buildNode f depth id = .ok (root, uniform, g)) :
    lib.ProvenanceKnown f depth id root uniform g := by
  have hg := wellFormed_of_buildNode hf hl h
  have typed := uniform_iff_of_buildNode hf hl h
  obtain ⟨e, he, hchildren, huniform⟩ := children_of_buildNode hf hl h
  obtain ⟨ts, traced, htrees, hts⟩ := traced_of_buildNode hf hl h
  have mem : ∀ {child}, g.HasChild root child → g.tree child ∈ (g.children root).map g.tree :=
    fun hchild => List.mem_map_of_mem hchild
  refine ⟨typed, fun hnone => ?_, fun hsome child hchild => ?_, fun hnone child hchild => ?_,
    fun child hchild node hnode => ?_⟩
  · refine or_iff_not_imp_left.2 fun hne => ?_
    obtain ⟨first, hfirst⟩ := List.exists_mem_of_ne_nil _ hne
    by_contra hall
    have same := (typed (g.get first).kind).2 ⟨hne, fun child hchild => ?_⟩
    · rw [hnone] at same
      cases same
    · by_contra hkind
      exact hall ⟨child, first, hchild, hfirst, hkind⟩
  · obtain ⟨kind, hkind⟩ := Option.isSome_iff_exists.1 hsome
    rw [← hg.attribute?_tree]
    exact provenance_of_uniformType he (huniform.trans hkind) _ (hchildren ▸ mem hchild)
  · have hmem := mem hchild
    rw [htrees, stamped, ← hts, hnone] at hmem
    rw [← hg.attribute?_tree]
    exact (traced _ hmem).root.2
  · obtain ⟨next, hnext, hreach⟩ := Relation.TransGen.head'_iff.1 hnode
    have hmem : g.tree next ∈ (g.tree child).children := by
      rw [hg.children_tree]
      exact List.mem_map_of_mem hnext
    have inside := traced_below_stamped traced (g.tree child) (htrees ▸ mem hchild) _ hmem
    rw [← hg.attribute?_tree]
    exact (hg.all_of_reaches hreach inside).root.2

end Library

/-! ### Worlds -/

/-- Whatever is built in the world, its marks and their origins are known. -/
def World.KnowsProvenance (w : World) : Prop :=
  ∀ lib ∈ w.libraries, ∀ depth id root uniform g,
    lib.buildNode w.forest depth id = .ok (root, uniform, g) →
      lib.ProvenanceKnown w.forest depth id root uniform g

namespace World

theorem WellFormed.knowsProvenance {w : World} (hw : w.WellFormed) : w.KnowsProvenance :=
  fun lib hlib _ _ _ _ _ h =>
    Library.provenanceKnown_of_buildNode hw.forest (hw.libraries lib hlib).within h

/-- In every world the children of an expansion carry its id if they are all of one type, and
all other marks in it come from definitions or from expansions on the way. -/
theorem run_knowsProvenance (operations : List Operation) :
    (run empty operations).KnowsProvenance :=
  (wellFormed_run wellFormed_empty operations).knowsProvenance

end World

end IncidentReport
