import IncidentReport.Proofs.Forest.Frame
import IncidentReport.Proofs.World

/-!
Resolution keeps to itself. In every world that calls lead to, what is built is a
tree of new nodes, and no node that was there before is changed by building it;
what attaches a node adds to the children of one node and changes nothing else.
-/

namespace IncidentReport

open Forest

variable {w : World}

/-- How resolution leaves a world. -/
structure World.Isolated (w : World) : Prop where
  /-- A node is built, or it is not, without a change to the nodes, the reports and
  the libraries. -/
  node : ∀ (library depth : Nat) (id : String),
    let after := w.perform (.buildNode library depth id)
    w.forest.Keeps after.forest ∧ after.documents = w.documents ∧ after.libraries = w.libraries
  /-- A node that was built is the root of a tree of new nodes. -/
  nodeTree : ∀ lib ∈ w.libraries, ∀ (depth : Nat) (id : String) (root : NodeId)
    (kind : Option NodeType) (g : Forest),
    lib.buildNode w.forest depth id = .ok (root, kind, g) → w.forest.NewTree g root
  /-- A report is built, or it is not, without a change to the nodes and the
  libraries. It comes behind the reports that there are. -/
  report : ∀ (library depth : Nat) (id : String),
    let after := w.perform (.buildReport library depth id)
    w.forest.Keeps after.forest ∧ w.documents <+: after.documents ∧
      after.libraries = w.libraries
  /-- The root of a report that was built is the root of a tree of new nodes. -/
  reportTree : ∀ lib ∈ w.libraries, ∀ (depth : Nat) (id : String) (report : Document)
    (g : Forest),
    lib.buildReport w.forest depth id = .ok (report, g) → w.forest.NewTree g report.root
  /-- Attaching a node, whether it succeeds or fails, adds new nodes to the parent. -/
  attach : ∀ (library depth : Nat) (parent child : NodeId),
    let after := w.perform (.attach library depth parent child)
    w.forest.KeepsAround after.forest parent ∧ after.documents = w.documents ∧
      after.libraries = w.libraries

namespace Library

variable {lib : Library} {f g : Forest}

theorem newTree_of_buildNode (hf : f.WellFormed) (hl : lib.Within f) {depth : Nat} {id : String}
    {root : NodeId} {kind : Option NodeType} (h : lib.buildNode f depth id = .ok (root, kind, g)) :
    f.NewTree g root := by
  obtain ⟨hg, hr⟩ := lib.expand_builds depth f id hf hl
  rw [buildNode_eq_ok h] at hg hr
  exact hg.newTree hf (hr _ rfl) fun _ => False.elim

theorem newTree_of_buildReport (hf : f.WellFormed) (hl : lib.Within f) {depth : Nat}
    {id : String} {report : Document} (h : lib.buildReport f depth id = .ok (report, g)) :
    f.NewTree g report.root := by
  obtain ⟨hg, hr⟩ := lib.assemble_builds depth id hf hl
  rw [buildReport] at h
  split at h
  · next hcall =>
      cases h
      rw [hcall] at hg hr
      obtain ⟨hroot, -, hspent⟩ := hr _ rfl
      exact hg.newTree hf hroot hspent
  · cases h

end Library

namespace World

theorem perform_of_forall_has {operation : Operation}
    (h : ∀ id ∈ operation.handles, w.forest.Has id) : w.perform operation = w.effect operation :=
  if_pos h

variable {library : Nat} {lib : Library}

theorem keeps_expand (hw : w.WellFormed) (hlib : w.libraries[library]? = some lib) (depth : Nat)
    (id : String) : w.forest.Keeps (lib.expand depth id w.forest).2 :=
  (lib.expand_builds depth w.forest id hw.forest (hw.within hlib)).construction.keeps

theorem keeps_assemble (hw : w.WellFormed) (hlib : w.libraries[library]? = some lib) (depth : Nat)
    (id : String) : w.forest.Keeps (lib.assemble depth id w.forest).2 :=
  (lib.assemble_builds depth id hw.forest (hw.within hlib)).construction.keeps

theorem keepsAround_attach (hw : w.WellFormed) (hlib : w.libraries[library]? = some lib)
    (depth : Nat) {parent child : NodeId} (hp : w.forest.Has parent) (hc : w.forest.Has child) :
    w.forest.KeepsAround (lib.attach w.forest depth parent child).1 parent := by
  have attached :=
    lib.attachWithin_builds depth w.forest parent child hw.forest (hw.within hlib) hp hc
  rw [lib.attach_eq]
  exact attached.construction.keepsAround hw.forest hp

theorem isolated (hw : w.WellFormed) : w.Isolated where
  node library depth id := by
    rw [perform_of_forall_has (List.forall_mem_nil _), effect]
    split
    · next lib hlib => exact ⟨keeps_expand hw hlib depth id, rfl, rfl⟩
    · exact ⟨keeps_refl _, rfl, rfl⟩
  nodeTree lib hlib _ _ _ _ _ h :=
    Library.newTree_of_buildNode hw.forest (hw.libraries lib hlib).within h
  report library depth id := by
    rw [perform_of_forall_has (List.forall_mem_nil _), effect]
    split
    · next lib hlib =>
        have kept := keeps_assemble hw hlib depth id
        split
        · next report g hcall =>
            rw [hcall] at kept
            exact ⟨kept, List.prefix_append _ _, rfl⟩
        · next e g hcall =>
            rw [hcall] at kept
            exact ⟨kept, List.prefix_rfl, rfl⟩
    · exact ⟨keeps_refl _, List.prefix_rfl, rfl⟩
  reportTree lib hlib _ _ _ _ h :=
    Library.newTree_of_buildReport hw.forest (hw.libraries lib hlib).within h
  attach library depth parent child := by
    rw [perform]
    split
    · next hhas =>
        obtain ⟨hp, hc⟩ := has_both hhas
        rw [effect]
        split
        · next lib hlib => exact ⟨keepsAround_attach hw hlib depth hp hc, rfl, rfl⟩
        · exact ⟨keepsAround_refl _ _, rfl, rfl⟩
    · exact ⟨keepsAround_refl _ _, rfl, rfl⟩

/-- In every world that calls lead to, resolution keeps to itself. -/
theorem run_isolated (operations : List Operation) : (run empty operations).Isolated :=
  isolated (wellFormed_run wellFormed_empty operations)

end World

end IncidentReport
