import IncidentReport.Proofs.Forest.Equality
import IncidentReport.Proofs.Resolution.ReportTrees
import IncidentReport.Proofs.Resolution.Twins
import IncidentReport.Proofs.World

/-!
Resolution is local. What an id is resolved to depends on the structure of the
definitions that the resolution can reach and on nothing else: not on the library, the
world, what is shared, or the order of attributes. So it does not matter what else is
imported, and an id that is filed already keeps its meaning.
-/

namespace IncidentReport

namespace Library

variable {lib A B : Library} {f g : Forest} {id : String}

/-- Whatever the budget, the id is resolved alike: building a node and building a report
fail with the same error or lead to equal trees. -/
def SameOutcomes (A : Library) (f : Forest) (B : Library) (g : Forest) (id : String) : Prop :=
  ∀ depth,
    Agree SameBuild (A.buildNode f depth id) (B.buildNode g depth id) ∧
    Agree (fun (a, f') (b, g') => (f'.tree a.root).same (g'.tree b.root) = true)
      (A.buildReport f depth id) (B.buildReport g depth id)

/-- Definitions that are the same as far as an id reaches lead to the same outcomes. -/
theorem sameOutcomes (hf : f.WellFormed) (hA : A.Within f) (hg : g.WellFormed) (hB : B.Within g)
    (h : ∀ k ∈ A.reach f id,
      Option.Rel (fun a b => (f.tree a).same (g.tree b) = true) (A.find? k) (B.find? k)) :
    A.SameOutcomes f B g id := by
  have hdefs : Definitions.SameOn (A.reach f id) (A.definitions f) (B.definitions g) := by
    intro k hk
    have hrel := h k hk
    rw [definitions, definitions]
    generalize A.find? k = a? at hrel ⊢
    generalize B.find? k = b? at hrel ⊢
    cases hrel with
    | none => exact .none
    | some hsame => exact .some hsame
  have hclosed := A.closed_reach hf id
  have hid : id ∈ A.reach f id := .refl
  intro depth
  constructor
  · have alike := (Definitions.resolve_and_gather_alike hdefs hclosed depth).1 id hid
    exact buildNode_agree hf hA hg hB (alike.imp fun _ _ he => ⟨he.definition, he.uniformType⟩)
  · have alike := Definitions.buildReport_alike hdefs hclosed hid depth
    rw [← buildReport_eq_resolve _ hf hA, ← buildReport_eq_resolve _ hg hB] at alike
    exact alike.of_map

/-! ### Imports -/

theorem find?_file (lib : Library) (key? : Option String) (node : NodeId) (key : String) :
    (lib.file key? node).find? key =
      (lib.find? key).or (if key? = some key then some node else none) := by
  rw [find?, find?, findAll_file]
  split <;> simp [List.head?_append]

/-- Definitions do not change what is found under an id that none of them has, or that
is filed already. -/
theorem find?_importAll {ts : List Tree} {key : String}
    (h : ∀ t ∈ ts, t.attribute? definesAttribute = some key → (lib.find? key).isSome) :
    (lib.importAll f ts).1.find? key = lib.find? key := by
  induction ts generalizing lib f with
  | nil => rfl
  | cons t ts ih =>
      obtain ⟨ht, hts⟩ := List.forall_mem_cons.1 h
      have first : (lib.file (t.attribute? definesAttribute) (f.plant t).1).find? key =
          lib.find? key := by
        rw [find?_file]
        split
        · next hkey => rw [Option.or_of_isSome (ht hkey)]
        · rw [Option.or_none]
      rw [importAll, ih fun t ht hkey => by rw [first]; exact hts t ht hkey, first]

/-- None of the trees is filed under an id that is reached but not yet filed. -/
def Spared (lib : Library) (f : Forest) (id : String) (ts : List Tree) : Prop :=
  ∀ t ∈ ts, ∀ key ∈ t.attribute? definesAttribute,
    key ∉ lib.reach f id ∨ (lib.find? key).isSome

theorem sameOutcomes_importAll (hf : f.WellFormed) (hl : lib.Stores f) {ts : List Tree}
    (hts : ∀ t ∈ ts, t.Valid ∧ t.kind = .definition) (h : lib.Spared f id ts) :
    lib.SameOutcomes f (lib.importAll f ts).1 (lib.importAll f ts).2 id := by
  obtain ⟨growth, stores⟩ := importAll_spec hts hf hl
  refine sameOutcomes hf hl.within (growth.wellFormed hf) stores.within fun k hk => ?_
  rw [find?_importAll fun t ht hkey => (h t ht k hkey).resolve_left (not_not_intro hk)]
  cases hfound : lib.find? k with
  | none => exact .none
  | some found =>
      refine .some ?_
      rw [growth.tree_eq hf (hl.within k found hfound)]
      exact Tree.same_refl _

end Library

/-! ### Worlds -/

/-- How resolution depends on what there is in a world. -/
structure World.Local (w : World) : Prop where
  /-- Libraries of two worlds resolve an id alike if they have the same definitions as
  far as it reaches, in whatever nodes. -/
  across : ∀ operations : List Operation,
    let v := run empty operations
    ∀ A ∈ w.libraries, ∀ B ∈ v.libraries, ∀ id,
      (∀ k ∈ A.reach w.forest id,
        Option.Rel (fun a b => (w.forest.tree a).same (v.forest.tree b) = true)
          (A.find? k) (B.find? k)) →
      A.SameOutcomes w.forest B v.forest id
  /-- So do libraries of one world, where it takes equal nodes. -/
  within : ∀ A ∈ w.libraries, ∀ B ∈ w.libraries, ∀ id,
    (∀ k ∈ A.reach w.forest id,
      Option.Rel (fun a b => w.forest.same a b = true) (A.find? k) (B.find? k)) →
    A.SameOutcomes w.forest B w.forest id
  /-- The import of a report changes no outcome for an id if each of its definitions is
  filed under an id that is out of reach or filed already. -/
  importReport : ∀ (library document : Nat) (lib : Library) (report : Document) (id : String),
    w.libraries[library]? = some lib → w.documents[document]? = some report →
    (∀ node, w.forest.HasChild report.root node → (w.forest.get node).kind = .definition →
      ∀ key ∈ (w.forest.get node).attribute? definesAttribute,
        key ∉ lib.reach w.forest id ∨ (lib.find? key).isSome) →
    let after := w.perform (.importReport library document)
    ∃ lib', after.libraries[library]? = some lib' ∧
      lib.SameOutcomes w.forest lib' after.forest id
  /-- Nor does the import of a text that is a report with such definitions. -/
  importText : ∀ (library : Nat) (text : String) (lib : Library) (report : Tree) (id : String),
    w.libraries[library]? = some lib → Report.parse text = .ok report →
    (∀ t ∈ report.children, t.kind = .definition → ∀ key ∈ t.attribute? definesAttribute,
      key ∉ lib.reach w.forest id ∨ (lib.find? key).isSome) →
    let after := w.perform (.importText library text)
    ∃ lib', after.libraries[library]? = some lib' ∧
      lib.SameOutcomes w.forest lib' after.forest id

namespace World

variable {w : World} {library : Nat} {lib : Library} {id : String}

theorem getElem?_withLibrary (hlib : w.libraries[library]? = some lib)
    (imported : Nat × Library × Forest) :
    (w.withLibrary library imported).libraries[library]? = some imported.2.1 := by
  obtain ⟨hlt, -⟩ := List.getElem?_eq_some_iff.1 hlib
  exact List.getElem?_set_self hlt

theorem WellFormed.sameOutcomes_imported (hw : w.WellFormed)
    (hlib : w.libraries[library]? = some lib) {ts : List Tree}
    (hts : ∀ t ∈ ts, t.Valid ∧ t.kind = .definition) (h : lib.Spared w.forest id ts) :
    let after := w.withLibrary library (lib.importDefinitions w.forest ts)
    ∃ lib', after.libraries[library]? = some lib' ∧
      lib.SameOutcomes w.forest lib' after.forest id :=
  ⟨_, getElem?_withLibrary hlib _, Library.sameOutcomes_importAll hw.forest
    (hw.libraries lib (List.mem_of_getElem? hlib)) hts h⟩

theorem WellFormed.isLocal (hw : w.WellFormed) : w.Local where
  across operations A hA B hB id h := by
    have hv := wellFormed_run wellFormed_empty operations
    exact Library.sameOutcomes hw.forest (hw.libraries A hA).within hv.forest
      (hv.libraries B hB).within h
  within A hA B hB id h := by
    have hwithin := (hw.libraries A hA).within
    refine Library.sameOutcomes hw.forest hwithin hw.forest (hw.libraries B hB).within
      fun k hk => ?_
    have hrel := h k hk
    have hhas := hwithin k
    generalize A.find? k = a? at hrel hhas ⊢
    generalize B.find? k = b? at hrel ⊢
    cases hrel with
    | none => exact .none
    | some hsame => exact .some ((Forest.same_iff hw.forest (hhas _ rfl) _).1 hsame)
  importReport library document lib report id hlib hreport h := by
    have spared : lib.Spared w.forest id (((w.forest.children report.root).filter fun node =>
        (w.forest.get node).kind = .definition).map w.forest.tree) := by
      intro t ht key hkey
      obtain ⟨node, hnode, rfl⟩ := List.mem_map.1 ht
      obtain ⟨hchild, hkind⟩ := List.mem_filter.1 hnode
      rw [hw.forest.attribute?_tree] at hkey
      exact h node hchild (by simpa using hkind) key hkey
    have imported := hw.sameOutcomes_imported hlib
      (Library.valid_definitions hw.forest report.root) spared
    rw [perform, if_pos (by simp [Operation.handles]), effect, hlib, hreport]
    exact imported
  importText library text lib report id hlib hreport h := by
    have spared : lib.Spared w.forest id
        (report.children.filter fun t => t.kind = .definition) := by
      intro t ht key hkey
      obtain ⟨ht, hkind⟩ := List.mem_filter.1 ht
      exact h t ht (by simpa using hkind) key hkey
    have imported := hw.sameOutcomes_imported hlib
      (Report.valid_of_parse hreport).1.definitions spared
    rw [perform, if_pos (by simp [Operation.handles]), effect, hlib]
    dsimp only
    rw [Library.importText, hreport]
    exact imported

/-- In every world resolution depends on the definitions within reach alone. -/
theorem run_local (operations : List Operation) : (run empty operations).Local :=
  (wellFormed_run wellFormed_empty operations).isLocal

end World

end IncidentReport
