import IncidentReport.Proofs.Forest.Frame
import IncidentReport.Proofs.World
import Mathlib.Data.List.Lex

/-!
What a search finds. Each path down from a node leads to a place in the tree below it, and
the paths put these places in document order: a node comes before what is below it, and a
child with all that is below it before the next child. Main statement: of the places in
sight a search finds the first that fits.
-/

namespace IncidentReport

namespace Forest

variable {f : Forest} {inside : Bool} {root : NodeId} {bound : Nat}

/-! ### Places -/

/-- The place is in the tree below the root and in sight: there is no definition above it,
unless the search looks inside definitions. -/
structure InSight (f : Forest) (inside : Bool) (root : NodeId) (place : Place) : Prop where
  leads : f.follow root place.path = some place.id
  uncovered : inside = true ∨ ∀ n < place.path.length,
    ∀ id ∈ f.follow root (place.path.take n), (f.get id).kind ≠ .definition

/-- These are the places in sight, each once, in document order. -/
structure Lists (f : Forest) (inside : Bool) (root : NodeId) (places : List Place) : Prop where
  mem_iff : ∀ place, place ∈ places ↔ f.InSight inside root place
  /-- Paths are compared at the first step in which they differ, and one that goes on from
  another comes behind it. -/
  ordered : places.Pairwise fun a b => a.path < b.path

theorem Lists.unique {as bs : List Place} (ha : f.Lists inside root as)
    (hb : f.Lists inside root bs) : as = bs := by
  have nodup : ∀ {places : List Place}, places.Pairwise (fun a b => a.path < b.path) →
      places.Nodup := by
    intro places h
    refine h.imp ?_
    rintro a b hab rfl
    exact List.lt_irrefl _ hab
  have perm : as.Perm bs := (List.perm_ext_iff_of_nodup (nodup ha.ordered) (nodup hb.ordered)).2
    fun place => (ha.mem_iff place).trans (hb.mem_iff place).symm
  exact perm.eq_of_pairwise (fun a b _ _ hab hba => absurd hba (List.lt_asymm hab)) ha.ordered
    hb.ordered

/-- What is in sight while definitions are closed is in sight when they are open. -/
theorem InSight.look_inside {place : Place} (h : f.InSight false root place) :
    f.InSight true root place :=
  ⟨h.leads, .inl rfl⟩

theorem inSight_nil {id : NodeId} : f.InSight inside root ⟨id, []⟩ ↔ id = root := by
  constructor
  · intro h
    exact (Option.some.inj h.leads).symm
  · rintro rfl
    exact ⟨rfl, .inr fun n hn => absurd hn (Nat.not_lt_zero n)⟩

/-- Something below the root is in sight if the root lets the search in and it is in sight
from the child that the path goes to. -/
theorem inSight_cons {id : NodeId} {i : Nat} {path : List Nat} :
    f.InSight inside root ⟨id, i :: path⟩ ↔
      ¬ ((f.get root).kind = .definition ∧ !inside) ∧
        ∃ child, f.Link root i child ∧ f.InSight inside child ⟨id, path⟩ := by
  constructor
  · rintro ⟨leads, uncovered⟩
    obtain ⟨child, hchild, leads⟩ := Option.bind_eq_some_iff.1 leads
    refine ⟨?_, child, hchild, leads, uncovered.imp_right fun h n hn mid hmid => ?_⟩
    · rintro ⟨hkind, hclosed⟩
      rcases uncovered with rfl | h
      · cases hclosed
      · exact h 0 (Nat.succ_pos _) root rfl hkind
    · refine h (n + 1) (Nat.succ_lt_succ hn) mid ?_
      rw [List.take_succ_cons, follow, hchild]
      exact hmid
  · rintro ⟨hopen, child, hchild, leads, uncovered⟩
    refine ⟨?_, ?_⟩
    · rw [follow, hchild]
      exact leads
    · cases inside with
      | true => exact .inl rfl
      | false =>
          refine .inr fun n hn mid hmid => ?_
          cases n with
          | zero =>
              obtain rfl := Option.some.inj hmid
              exact fun hkind => hopen ⟨hkind, rfl⟩
          | succ n =>
              rw [List.take_succ_cons, follow, hchild] at hmid
              exact uncovered.resolve_left Bool.false_ne_true n (Nat.lt_of_succ_lt_succ hn) mid hmid

/-! ### The list of places -/

/-- The places in sight, in document order, on paths of at most `bound` nodes. -/
def places (f : Forest) (inside : Bool) : Nat → NodeId → List Place
  | 0, _ => []
  | bound + 1, id =>
    ⟨id, []⟩ ::
      if (f.get id).kind = .definition ∧ !inside then
        []
      else
        (f.children id).zipIdx.flatMap fun (child, i) =>
          (f.places inside bound child).map fun place => { place with path := i :: place.path }

/-- What is listed below a node that lets the search in. -/
theorem mem_flatMap_zipIdx {below : NodeId → List Place} {ids : List NodeId} {id : NodeId} {i : Nat}
    {path : List Nat} :
    (⟨id, i :: path⟩ : Place) ∈ (ids.zipIdx.flatMap fun (child, i) =>
        (below child).map fun place => { place with path := i :: place.path }) ↔
      ∃ child, ids[i]? = some child ∧ ⟨id, path⟩ ∈ below child := by
  rw [List.mem_flatMap]
  constructor
  · rintro ⟨⟨child, j⟩, hchild, hmapped⟩
    obtain ⟨⟨_, _⟩, hplace, ⟨⟩⟩ := List.mem_map.1 hmapped
    exact ⟨child, List.mk_mem_zipIdx_iff_getElem?.1 hchild, hplace⟩
  · rintro ⟨child, hchild, hplace⟩
    exact ⟨⟨child, i⟩, List.mk_mem_zipIdx_iff_getElem?.2 hchild, List.mem_map.2 ⟨_, hplace, rfl⟩⟩

/-- The places in sight that are not too far down are listed, and no others. -/
theorem mem_places {place : Place} : place ∈ f.places inside bound root ↔
    f.InSight inside root place ∧ place.path.length < bound := by
  obtain ⟨id, path⟩ := place
  induction bound generalizing root path with
  | zero => simp [places]
  | succ bound ih =>
      rw [places, List.mem_cons]
      cases path with
      | nil =>
          rw [inSight_nil]
          split <;> simp
      | cons i path =>
          rw [inSight_cons, List.length_cons, Nat.add_lt_add_iff_right]
          split
          · next hclosed => simp [hclosed]
          · next hopen =>
              rw [mem_flatMap_zipIdx]
              constructor
              · rintro (⟨⟨⟩⟩ | ⟨child, hchild, hplace⟩)
                obtain ⟨hplace, hlength⟩ := (ih path).1 hplace
                exact ⟨⟨hopen, child, hchild, hplace⟩, hlength⟩
              · rintro ⟨⟨-, child, hchild, hplace⟩, hlength⟩
                exact .inr ⟨child, hchild, (ih path).2 ⟨hplace, hlength⟩⟩

theorem ordered_places (f : Forest) (inside : Bool) (bound : Nat) (root : NodeId) :
    (f.places inside bound root).Pairwise fun a b => a.path < b.path := by
  induction bound generalizing root with
  | zero => exact .nil
  | succ bound ih =>
      rw [places, List.pairwise_cons]
      split
      · exact ⟨List.forall_mem_nil _, .nil⟩
      · refine ⟨fun place hplace => ?_, List.pairwise_flatMap.2 ⟨fun entry _ => ?_, ?_⟩⟩
        · obtain ⟨entry, -, hplace⟩ := List.mem_flatMap.1 hplace
          obtain ⟨_, -, rfl⟩ := List.mem_map.1 hplace
          exact List.nil_lt_cons _ _
        · refine List.pairwise_map.2 ((ih entry.1).imp fun hab => ?_)
          exact List.cons_lt_cons_iff.2 (.inr ⟨rfl, hab⟩)
        · -- What is below one child comes before what is below the next.
          have indices : (f.children root).zipIdx.Pairwise fun a b => a.2 < b.2 := by
            rw [← List.pairwise_map, List.zipIdx_map_snd]
            exact List.pairwise_lt_range' 1
          refine indices.imp fun hij a ha b hb => ?_
          obtain ⟨_, -, rfl⟩ := List.mem_map.1 ha
          obtain ⟨_, -, rfl⟩ := List.mem_map.1 hb
          exact List.cons_lt_cons_iff.2 (.inl hij)

/-! ### Searches -/

/-- The search goes through the places in document order up to the first that fits. -/
theorem search_eq_find? (fits : Node NodeId → Bool) (bound : Nat) (root : NodeId) :
    f.search fits inside bound root =
      (f.places inside bound root).find? fun place => fits (f.get place.id) := by
  induction bound generalizing root with
  | zero => rfl
  | succ bound ih =>
      rw [search, places, List.find?_cons]
      cases fits (f.get root) with
      | true => rfl
      | false =>
          rw [if_neg Bool.false_ne_true]
          dsimp only
          split
          · rfl
          · rw [List.find?_flatMap]
            congr 1
            funext entry
            rw [ih, List.find?_map]
            rfl

theorem exists_isChain_of_follow {id : NodeId} {path : List Nat}
    (h : f.follow root path = some id) :
    ∃ nodes : List NodeId, (root :: nodes).IsChain f.HasChild ∧ nodes.length = path.length := by
  induction path generalizing root with
  | nil => exact ⟨[], .singleton _, rfl⟩
  | cons i path ih =>
      obtain ⟨child, hchild, h⟩ := Option.bind_eq_some_iff.1 h
      obtain ⟨nodes, hnodes, hlength⟩ := ih h
      refine ⟨child :: nodes, .cons_cons (List.mem_of_getElem? hchild) hnodes, ?_⟩
      rw [List.length_cons, List.length_cons, hlength]

/-- The bound of the search leaves out no place. -/
theorem WellFormed.lists_places (hf : f.WellFormed) (hroot : f.Has root) (inside : Bool) :
    f.Lists inside root (f.places inside f.size root) where
  mem_iff place := by
    rw [mem_places]
    refine ⟨And.left, fun h => ⟨h, ?_⟩⟩
    obtain ⟨nodes, hnodes, hlength⟩ := exists_isChain_of_follow h.leads
    rw [← hlength]
    exact hf.acyclic.length_le_size hf.closed hroot hnodes
  ordered := ordered_places f inside f.size root

/-- Where something fits, something is found, and not behind it. -/
theorem exists_find?_idxOf_le {places : List Place} {fits : Place → Bool} {place : Place}
    (hmem : place ∈ places) (hfits : fits place) :
    ∃ first, places.find? fits = some first ∧ places.idxOf first ≤ places.idxOf place := by
  obtain ⟨first, hfirst⟩ := Option.isSome_iff_exists.1 (List.find?_isSome.2 ⟨place, hmem, hfits⟩)
  refine ⟨first, hfirst, ?_⟩
  obtain ⟨-, before, after, rfl, hbefore⟩ := List.find?_eq_some_iff_append.1 hfirst
  have hno : place ∉ before := fun hmem => by simpa [hfits] using hbefore place hmem
  have hle : (before ++ first :: after).idxOf first ≤ before.length := by
    rw [List.idxOf_append]
    split
    · exact List.idxOf_le_length
    · rw [List.idxOf_cons_self, Nat.zero_add]
  rw [List.idxOf_append_of_notMem hno]
  exact hle.trans (Nat.le_add_right _ _)

/-- The searches below a node return the first place in sight with a node that fits. -/
structure FindsFirst (f : Forest) (root : NodeId) (fits : Node NodeId → Bool)
    (search : Bool → Option Place) : Prop where
  first : ∀ inside places, f.Lists inside root places →
    search inside = places.find? fun place => fits (f.get place.id)
  /-- What is found with definitions closed is in sight with them open, and then nothing
  behind it is found. -/
  wider : ∀ found, search false = some found → ∃ first, search true = some first ∧
    ∀ places, f.Lists true root places →
      found ∈ places ∧ places.idxOf first ≤ places.idxOf found

theorem WellFormed.findsFirst (hf : f.WellFormed) (hroot : f.Has root)
    (fits : Node NodeId → Bool) :
    f.FindsFirst root fits fun inside => f.search fits inside f.size root := by
  have first : ∀ inside places, f.Lists inside root places →
      f.search fits inside f.size root = places.find? fun place => fits (f.get place.id) := by
    intro inside places h
    rw [search_eq_find?, (hf.lists_places hroot inside).unique h]
  refine ⟨first, fun found hfound => ?_⟩
  have lists := hf.lists_places hroot true
  rw [first false _ (hf.lists_places hroot false)] at hfound
  have hmem : found ∈ f.places true f.size root := by
    have hshut := ((hf.lists_places hroot false).mem_iff found).1 (List.mem_of_find?_eq_some hfound)
    exact (lists.mem_iff found).2 hshut.look_inside
  obtain ⟨place, hplace, hle⟩ := exists_find?_idxOf_le hmem (List.find?_some hfound)
  refine ⟨place, (first true _ lists).trans hplace, fun places h => ?_⟩
  obtain rfl := lists.unique h
  exact ⟨hmem, hle⟩

end Forest

/-! ### Worlds -/

/-- How searches come out in a world. -/
structure World.Searches (w : World) : Prop where
  /-- The places that a search sees have one order. -/
  listed : ∀ root, w.forest.Has root → ∀ inside, ∃! places, w.forest.Lists inside root places
  byAttribute : ∀ root, w.forest.Has root → ∀ name value,
    w.forest.FindsFirst root (fun node => node.attribute? name == some value)
      (w.forest.findAttribute? root name value)
  byType : ∀ root, w.forest.Has root → ∀ kind,
    w.forest.FindsFirst root (fun node => node.kind == kind) (w.forest.findType? root kind)

namespace World

theorem WellFormed.searches {w : World} (hw : w.WellFormed) : w.Searches where
  listed _ hroot inside :=
    have lists := hw.forest.lists_places hroot inside
    ⟨_, lists, fun _ h => h.unique lists⟩
  byAttribute _ hroot _ _ := hw.forest.findsFirst hroot _
  byType _ hroot _ := hw.forest.findsFirst hroot _

/-- In every world a search finds the first place in sight that fits. -/
theorem run_searches (operations : List Operation) : (run empty operations).Searches :=
  (wellFormed_run wellFormed_empty operations).searches

end World

end IncidentReport
