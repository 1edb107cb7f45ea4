import IncidentReport.Proofs.Resolution.Ranked
import IncidentReport.Proofs.Tree.RoundTrip
import IncidentReport.Proofs.World

/-!
The budget of a resolution is only a cut-off. In every world, if the definitions of a
library can be ranked so that none leads to one of its own rank or higher, there is a
budget for each id from which on more of it makes no difference.
-/

namespace IncidentReport

open Filter

/-- If a ranking goes down from every definition to the definitions that it leads to,
there is a budget from which on a node is built with the same outcome. -/
theorem World.run_buildNode_settles (operations : List Operation) {lib : Library}
    (hlib : lib ∈ (run empty operations).libraries) {rank : String → Nat}
    (ranked : ∀ id next, lib.LeadsTo (run empty operations).forest id next →
      (lib.find? next).isSome → rank next < rank id) (id : String) :
    ∃ bound, ∀ depth depth', bound ≤ depth → bound ≤ depth' →
      Agree Library.SameBuild (lib.buildNode (run empty operations).forest depth id)
        (lib.buildNode (run empty operations).forest depth' id) := by
  have hw := wellFormed_run wellFormed_empty operations
  generalize run empty operations = w at hlib ranked hw ⊢
  have hwithin := (hw.libraries lib hlib).within
  have hranked : (lib.definitions w.forest).Ranked rank := by
    intro k t ht
    obtain ⟨found, hfound, rfl⟩ := Option.map_eq_some_iff.1 ht
    refine Library.leadsWithin_tree hw.forest hfound fun next hnext hsome => ?_
    exact ranked k next hnext (by simpa [Library.definitions] using hsome)
  obtain ⟨bound, hbound⟩ := eventuallyConst_atTop.1
    ((hranked.settles (rank id + 1)).1 id fun _ => Nat.lt_succ_self _)
  refine ⟨bound, fun depth depth' hdepth hdepth' => ?_⟩
  refine Library.buildNode_agree hw.forest hwithin hw.forest hwithin ?_
  rw [hbound depth hdepth, hbound depth' hdepth']
  exact Agree.refl (fun e => ⟨Tree.same_refl _, rfl⟩) _

/-- A report of two definitions, the first of which refers to the second. -/
def chainedReport : Markup.Element :=
  ⟨"report", [],
    [.element "definition" [("defines", "a")] [.element "state" [("definition", "b")] []],
      .element "definition" [("defines", "b")] [.element "state" [] []]]⟩

/-- The library of the two definitions, and the forest that it is in. -/
def chained : Library × Forest :=
  Library.empty.importAll .empty
    [⟨⟨.definition, .ofList [("defines", "a")],
        .children [⟨⟨.state, .ofList [("definition", "b")], .children []⟩⟩]⟩⟩,
      ⟨⟨.definition, .ofList [("defines", "b")], .children [⟨.new .state⟩]⟩⟩]

theorem run_chainedReport :
    World.run .empty [.newLibrary, .importText 0 chainedReport.printDocument] =
      ⟨chained.2, [], [chained.1]⟩ := by
  have hread : Report.parse chainedReport.printDocument = .ok _ :=
    (Report.parse_printDocument (by decide) (by decide)).trans rfl
  exact World.run_importText hread

/-- In the library of the two definitions the first one is ranked above the second. -/
theorem run_buildNode_settles_chainedReport :
    let w := World.run .empty [.newLibrary, .importText 0 chainedReport.printDocument]
    ∃ lib ∈ w.libraries, lib.LeadsTo w.forest "a" "b" ∧ (lib.find? "b").isSome ∧
      ∃ bound, ∀ depth depth', bound ≤ depth → bound ≤ depth' →
        Agree Library.SameBuild (lib.buildNode w.forest depth "a")
          (lib.buildNode w.forest depth' "a") := by
  intro w
  have hw : w = ⟨chained.2, [], [chained.1]⟩ := run_chainedReport
  have hlib : chained.1 ∈ w.libraries := by
    rw [hw]
    exact List.mem_singleton_self _
  have leads : chained.1.LeadsTo w.forest "a" "b" := by
    rw [hw]
    exact ⟨⟨1⟩, rfl, .inr ⟨⟨0⟩, .single (List.mem_singleton_self _), rfl⟩⟩
  -- Each definition has one node below it, which has none.
  have below : ∀ {root leaf node : NodeId}, chained.2.children root = [leaf] →
      chained.2.children leaf = [] → Relation.TransGen chained.2.HasChild root node →
        node = leaf := by
    intro root leaf node hroot hleaf hpath
    obtain ⟨child, hchild, hpath⟩ := Relation.TransGen.head'_iff.1 hpath
    rw [Forest.HasChild, hroot, List.mem_singleton] at hchild
    rcases hpath.cases_head with rfl | ⟨next, hnext, -⟩
    · exact hchild
    · rw [Forest.HasChild, hchild, hleaf] at hnext
      exact absurd hnext List.not_mem_nil
  let rank : String → Nat := fun id => if id = "a" then 1 else 0
  have ranked : ∀ id next, chained.1.LeadsTo w.forest id next →
      (chained.1.find? next).isSome → rank next < rank id := by
    rw [hw]
    rintro id next ⟨root, hroot, hnext⟩ -
    have hfound : chained.1.find? id =
        if "a" = id then some ⟨1⟩ else if "b" = id then some ⟨3⟩ else none := by
      show (Library.filedUnder [("a", [⟨1⟩]), ("b", [⟨3⟩])] id).head? = _
      simp only [Library.filedUnder]
      split_ifs <;> rfl
    rw [hfound] at hroot
    split_ifs at hroot with ha hb
    · obtain rfl : ⟨1⟩ = root := Option.some.inj hroot
      rcases hnext with hnext | ⟨node, hnode, hnext⟩
      · cases hnext
      · rw [below rfl rfl hnode] at hnext
        obtain rfl : "b" = next := Option.some.inj hnext
        rw [← ha]
        decide
    · obtain rfl : ⟨3⟩ = root := Option.some.inj hroot
      rcases hnext with hnext | ⟨node, hnode, hnext⟩
      · cases hnext
      · rw [below rfl rfl hnode] at hnext
        cases hnext
  exact ⟨chained.1, hlib, leads, rfl, World.run_buildNode_settles _ hlib ranked "a"⟩

end IncidentReport
