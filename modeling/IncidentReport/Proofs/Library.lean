import IncidentReport.Proofs.Forest.Planting
import IncidentReport.Library

/-!
Libraries whose definitions are nodes of a forest. What is imported is copied, so
an import makes new nodes and files them, and all that is filed is a definition.
-/

namespace IncidentReport.Library

open Forest

def nodes (lib : Library) : List NodeId :=
  lib.keyed.flatMap (·.2) ++ lib.unkeyed

/-- All that is filed is a definition of the forest. -/
def Stores (lib : Library) (f : Forest) : Prop :=
  ∀ node ∈ lib.nodes, f.Has node ∧ (f.get node).kind = .definition

/-- Every definition that a search can find is a node of the forest. -/
def Within (lib : Library) (f : Forest) : Prop :=
  ∀ id found, lib.find? id = some found → f.Has found

variable {lib : Library} {f g : Forest}

theorem mem_of_mem_filedUnder {keyed : List (String × List NodeId)} {key : String}
    {node : NodeId} (h : node ∈ filedUnder keyed key) : node ∈ keyed.flatMap (·.2) := by
  induction keyed with
  | nil => exact absurd h List.not_mem_nil
  | cons entry rest ih =>
      obtain ⟨k, nodes⟩ := entry
      rw [List.flatMap_cons, List.mem_append]
      rw [filedUnder] at h
      split at h
      · exact .inl h
      · exact .inr (ih h)

theorem mem_fileUnder {keyed : List (String × List NodeId)} {key : String} {node other : NodeId}
    (h : other ∈ (fileUnder keyed key node).flatMap (·.2)) :
    other = node ∨ other ∈ keyed.flatMap (·.2) := by
  induction keyed with
  | nil => simpa [fileUnder] using h
  | cons entry rest ih =>
      obtain ⟨k, nodes⟩ := entry
      rw [fileUnder] at h
      split at h <;> simp only [List.flatMap_cons, List.mem_append, List.mem_singleton] at h ⊢
      · tauto
      · rcases h with h | h
        · exact .inr (.inl h)
        · exact (ih h).imp_right .inr

theorem mem_nodes_file {key? : Option String} {node other : NodeId}
    (h : other ∈ (lib.file key? node).nodes) : other = node ∨ other ∈ lib.nodes := by
  rw [nodes, List.mem_append] at h ⊢
  cases key? with
  | none =>
      rcases h with h | h
      · exact .inr (.inl h)
      · rcases List.mem_append.1 h with h | h
        · exact .inr (.inr h)
        · exact .inl (List.mem_singleton.1 h)
  | some key =>
      rcases h with h | h
      · exact (mem_fileUnder h).imp_right .inl
      · exact .inr (.inr h)

theorem mem_nodes_of_find? {id : String} {found : NodeId} (h : lib.find? id = some found) :
    found ∈ lib.nodes := by
  have hmem : found ∈ lib.findAll id := List.mem_of_mem_head? h
  exact List.mem_append_left _ (mem_of_mem_filedUnder hmem)

theorem Stores.within (hl : lib.Stores f) : lib.Within f :=
  fun _ found hfound => (hl found (mem_nodes_of_find? hfound)).1

theorem Stores.kind (hl : lib.Stores f) {id : String} {found : NodeId}
    (h : lib.find? id = some found) : (f.get found).kind = .definition :=
  (hl found (mem_nodes_of_find? h)).2

theorem Stores.later (hl : lib.Stores f) (hg : f.Extends g) : lib.Stores g := by
  intro node hnode
  obtain ⟨hhas, hkind⟩ := hl node hnode
  obtain ⟨hhas, hkind'⟩ := hg node hhas
  exact ⟨hhas, hkind'.trans hkind⟩

theorem stores_empty : Library.empty.Stores f :=
  fun _ h => absurd h List.not_mem_nil

/-- The definitions that a report in the forest gives to an import. -/
theorem valid_definitions (hf : f.WellFormed) (root : NodeId) :
    ∀ t ∈ ((f.children root).filter fun id => (f.get id).kind = .definition).map f.tree,
      t.Valid ∧ t.kind = .definition := by
  intro t ht
  obtain ⟨id, hid, rfl⟩ := List.mem_map.1 ht
  refine ⟨hf.valid_tree id, ?_⟩
  rw [hf.kind_tree]
  simpa using (List.mem_filter.1 hid).2

/-- An import changes no node. -/
theorem importAll_spec {ts : List Tree} (hts : ∀ t ∈ ts, t.Valid ∧ t.kind = .definition)
    (hf : f.WellFormed) (hl : lib.Stores f) :
    Growth f (lib.importAll f ts).2 ∧ (lib.importAll f ts).1.Stores (lib.importAll f ts).2 := by
  induction ts generalizing lib f with
  | nil => exact ⟨.start, hl⟩
  | cons t ts ih =>
      obtain ⟨⟨ht, hkind⟩, hts⟩ := List.forall_mem_cons.1 hts
      have planted := plant_spec ht hf
      rw [importAll]
      have filed : (lib.file (t.attribute? definesAttribute) (f.plant t).1).Stores
          (f.plant t).2 := by
        intro node hnode
        rcases mem_nodes_file hnode with rfl | hnode
        · exact ⟨planted.root.has, (planted.kind hf).trans hkind⟩
        · exact hl.later planted.growth.extension node hnode
      obtain ⟨hgrow, hstores⟩ := ih hts (planted.growth.wellFormed hf) filed
      exact ⟨planted.growth.grow hgrow, hstores⟩

end IncidentReport.Library
