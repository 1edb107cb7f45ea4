import IncidentReport.Forest.Plant
import IncidentReport.Proofs.Forest.Trees
import IncidentReport.Proofs.Tree.Valid

/-!
Trees of a forest and trees made into nodes of one. The tree below a node obeys
the schema if the forest does, and planting such a tree only makes new nodes, with
that tree below the root.
-/

namespace IncidentReport.Forest

variable {f g : Forest}

theorem WellFormed.valid_tree (hf : f.WellFormed) (id : NodeId) : (f.tree id).Valid := by
  induction id using hf.induction with
  | step id below => ?_
  rw [hf.tree_eq]
  have child_of_mem : ∀ t ∈ ((f.get id).withChildren ((f.children id).map f.tree)).children,
      ∃ child, f.HasChild id child ∧ f.tree child = t := fun t ht =>
    List.mem_map.1 (Node.children_withChildren_subset _ _ t ht)
  refine .mk ((hf.valid id).withChildren _) (fun t ht => ?_) fun t ht => ?_
  · obtain ⟨child, hchild, rfl⟩ := child_of_mem t ht
    rw [hf.kind_tree]
    exact hf.permitted _ _ hchild
  · obtain ⟨child, hchild, rfl⟩ := child_of_mem t ht
    exact below child hchild

theorem plant_mk (f : Forest) (node : Node Tree) :
    f.plant ⟨node⟩ =
      (f.plantAll node.children).2.add (node.withChildren (f.plantAll node.children).1) := by
  obtain ⟨kind, attributes, body⟩ := node
  cases body <;> rfl

/-- What planting a tree is to do. -/
structure Planted (f : Forest) (t : Tree) (made : NodeId × Forest) : Prop where
  growth : Growth f made.2
  root : Root f made.2 made.1
  tree : made.2.tree made.1 = t

structure PlantedAll (f : Forest) (ts : List Tree) (made : List NodeId × Forest) : Prop where
  growth : Growth f made.2
  roots : ∀ id ∈ made.1, Root f made.2 id
  nodup : made.1.Nodup
  trees : made.1.map made.2.tree = ts

theorem Planted.kind {t : Tree} {made : NodeId × Forest} (planted : Planted f t made)
    (hf : f.WellFormed) : (made.2.get made.1).kind = t.kind := by
  rw [← (planted.growth.wellFormed hf).kind_tree, planted.tree]

theorem plantAll_spec {ts : List Tree}
    (each : ∀ t ∈ ts, ∀ f : Forest, f.WellFormed → Planted f t (f.plant t))
    (hf : f.WellFormed) : PlantedAll f ts (f.plantAll ts) := by
  induction ts generalizing f with
  | nil => exact ⟨.start, by simp [plantAll], by simp [plantAll], rfl⟩
  | cons t ts ih =>
      obtain ⟨ht, hts⟩ := List.forall_mem_cons.1 each
      have first := ht f hf
      have rest := ih hts (first.growth.wellFormed hf)
      rw [plantAll]
      refine ⟨first.growth.grow rest.growth, ?_, ?_, ?_⟩
      · refine List.forall_mem_cons.2 ⟨first.root.later rest.growth, fun id hid => ?_⟩
        exact (rest.roots id hid).loose first.growth
      · refine List.nodup_cons.2 ⟨fun hmem => ?_, rest.nodup⟩
        exact (rest.roots _ hmem).isNew first.root.has
      · rw [List.map_cons, rest.growth.tree_eq (first.growth.wellFormed hf) first.root.has,
          first.tree, rest.trees]

/-- Planting makes new nodes, and the root stands alone. -/
theorem plant_spec {t : Tree} (ht : t.Valid) (hf : f.WellFormed) :
    Planted f t (f.plant t) := by
  induction ht generalizing f with
  | @mk node root permitted below ih =>
      rw [plant_mk]
      have made := plantAll_spec (fun t ht f hf => ih t ht hf) hf
      generalize f.plantAll node.children = ids at made ⊢
      have hmem := Node.children_withChildren_subset node ids.1
      have hwf := made.growth.wellFormed hf
      have hpermitted : ∀ id ∈ (node.withChildren ids.1).children,
          node.kind.permits (ids.2.get id).kind = true := by
        intro id hid
        have hchild : ids.2.tree id ∈ node.children := by
          rw [← made.trees]
          exact List.mem_map_of_mem (hmem id hid)
        rw [← hwf.kind_tree]
        exact permitted _ hchild
      have hnodup : (node.withChildren ids.1).children.Nodup := by
        by_cases hb : node.body.content = .children
        · rw [Node.children_withChildren_of_content hb]
          exact made.nodup
        · rw [Node.children_eq_nil_of_content (by simpa using hb)]
          exact List.nodup_nil
      have grown : Growth f (ids.2.add (node.withChildren ids.1)).2 :=
        .add made.growth (root.withChildren _) hnodup
          (fun id hid => made.roots id (hmem id hid)) hpermitted
      refine ⟨grown, ⟨?_, has_add_self _, fun parent hp => ?_⟩, ?_⟩
      · exact mt made.growth.has (not_has_add_self _)
      · -- What was there before has old children, and the children of the root are older than it.
        rcases hasChild_add.1 hp with hp | ⟨-, hp⟩
        · exact not_has_add_self _ (hwf.closed _ _ hp)
        · exact not_has_add_self _ (made.roots _ (hmem _ hp)).has
      · rw [tree_add_self hwf (grown.wellFormed hf) fun id hid => (made.roots id (hmem id hid)).has,
          Node.withChildren_map made.trees]

theorem copy_spec (hf : f.WellFormed) (id : NodeId) : Planted f (f.tree id) (f.copy id) :=
  plant_spec (hf.valid_tree id) hf

/-- A single new node without children stands alone. -/
theorem add_spec (hf : f.WellFormed) {node : Node NodeId} (hn : node.Valid)
    (hc : node.children = []) : Growth f (f.add node).2 ∧ Root f (f.add node).2 (f.add node).1 := by
  refine ⟨.add .start hn ?_ ?_ ?_, not_has_add_self node, has_add_self node, fun parent hp => ?_⟩
  · rw [hc]
    exact List.nodup_nil
  · simp [hc]
  · simp [hc]
  · rcases hasChild_add.1 hp with hp | ⟨-, hp⟩
    · exact not_has_add_self _ (hf.closed _ _ hp)
    · simp [hc] at hp

theorem tree_add_new (hf : f.WellFormed) (kind : NodeType) :
    (f.add (.new kind)).2.tree (f.add (.new kind)).1 = Tree.new kind := by
  have hg := (add_spec hf (Node.new_valid kind) (Node.children_new kind)).1.wellFormed hf
  rw [tree_add_self hf hg (by simp [Node.children_new]), Node.children_new]
  cases kind <;> rfl

theorem copyAlone_spec (hf : f.WellFormed) (id : NodeId) :
    Growth f (f.copyAlone id).2 ∧ Root f (f.copyAlone id).2 (f.copyAlone id).1 :=
  add_spec hf ((hf.valid id).withChildren []) (Node.children_withoutChildren _)

end IncidentReport.Forest
