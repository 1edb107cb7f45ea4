import IncidentReport.Proofs.Log
import IncidentReport.Proofs.Resolution.Steps
import IncidentReport.Proofs.Resolution.Reach
import IncidentReport.Proofs.Tree.RoundTrip
import Mathlib.Tactic.Ring

/-!
How many children an expansion has. A reference is expanded with one unit less, and what it
comes to is expanded once more with that budget, so each unit squares the number of trees: it
is doubly exponential in the budget. Definitions that refer to themselves reach this bound.
-/

namespace IncidentReport

/-! ### Offers -/

namespace Offer

variable {offer : Tree → Offer} {ts : List Tree} {c : Nat}

theorem length_append_le (a b : Offer) :
    (a.append b).trees.length ≤ a.trees.length + b.trees.length := by
  rw [append]
  split
  · omega
  · simp

theorem length_concat_le (h : ∀ t ∈ ts, (offer t).trees.length ≤ c) :
    (concat offer ts).trees.length ≤ ts.length * c := by
  induction ts with
  | nil => simp [concat, nothing]
  | cons t ts ih =>
      obtain ⟨ht, hts⟩ := List.forall_mem_cons.1 h
      have first := length_append_le (offer t) (concat offer ts)
      have rest := ih hts
      calc (concat offer (t :: ts)).trees.length
          ≤ (offer t).trees.length + (concat offer ts).trees.length := first
        _ ≤ c + ts.length * c := by omega
        _ = (t :: ts).length * c := by rw [List.length_cons]; ring

/-- The offer is this many trees that have the property, and nothing behind them. -/
structure Counts (p : Tree → Prop) (c : Nat) (o : Offer) : Prop where
  whole : o.violation? = none
  length : o.trees.length = c
  trees : ∀ t ∈ o.trees, p t

theorem counts_ofTree {p : Tree → Prop} {t : Tree} (ht : p t) : (ofTree t).Counts p 1 :=
  ⟨rfl, rfl, List.forall_mem_singleton.2 ht⟩

theorem counts_concat {p : Tree → Prop} (h : ∀ t ∈ ts, (offer t).Counts p c) :
    (concat offer ts).Counts p (ts.length * c) := by
  induction ts with
  | nil => exact ⟨rfl, by simp [concat, nothing], List.forall_mem_nil _⟩
  | cons t ts ih =>
      obtain ⟨first, hts⟩ := List.forall_mem_cons.1 h
      have rest := ih hts
      have together : concat offer (t :: ts) =
          ⟨(offer t).trees ++ (concat offer ts).trees, none⟩ := by
        show (offer t).append (concat offer ts) = _
        rw [append, first.whole, rest.whole]
        rfl
      rw [together]
      refine ⟨rfl, ?_, List.forall_mem_append.2 ⟨first.trees, rest.trees⟩⟩
      rw [List.length_append, first.length, rest.length, List.length_cons]
      ring

end Offer

namespace Definitions

variable {defs : Definitions} {b depth spare : Nat} {id : String} {e : Expansion}

theorem mul_pow_two_pow_sub_one (b depth : Nat) : b * b ^ (2 ^ depth - 1) = b ^ 2 ^ depth := by
  have := Nat.one_le_two_pow (n := depth)
  rw [← pow_succ']
  congr 1
  omega

theorem pow_two_pow_mul (b spare : Nat) :
    b ^ 2 ^ spare * b ^ (2 ^ spare - 1) = b ^ (2 ^ (spare + 1) - 1) := by
  have := Nat.one_le_two_pow (n := spare)
  rw [← pow_add]
  congr 1
  omega

/-! ### The bound -/

/-- No definition has a template, or more than `b` children. -/
def Narrow (defs : Definitions) (b : Nat) : Prop :=
  ∀ id, ∀ found ∈ defs id, found.attribute? templateAttribute = none ∧ found.children.length ≤ b

/-- A definition without a template has as many children as its own come to. -/
theorem length_resolve_le (hd : defs.Narrow b)
    (ho : ∀ t, (defs.offer depth t).trees.length ≤ b ^ (2 ^ depth - 1))
    (h : defs.resolve (depth + 1) id = .ok e) :
    e.definition.children.length ≤ b ^ 2 ^ depth := by
  obtain ⟨spare, found, hdepth, hfound, step⟩ := resolved_of_resolve_eq_ok h
  obtain rfl : depth = spare := by omega
  obtain ⟨htemplate, hchildren⟩ := hd id found hfound
  obtain _ | _ | @⟨start, basis, -, -⟩ := step
  rcases basis_eq_ok basis with ⟨template, -, ht, -⟩ | ⟨-, rfl⟩
  · rw [htemplate] at ht
    cases ht
  · calc (stamped id ([] ++ (Offer.concat (defs.offer depth) found.children).trees)).length
        = (Offer.concat (defs.offer depth) found.children).trees.length := length_stamped _ _
      _ ≤ found.children.length * b ^ (2 ^ depth - 1) := Offer.length_concat_le fun t _ => ho t
      _ ≤ b * b ^ (2 ^ depth - 1) := Nat.mul_le_mul_right _ hchildren
      _ = b ^ 2 ^ depth := mul_pow_two_pow_sub_one b depth

theorem length_offer_le (hb : 1 ≤ b) (hd : defs.Narrow b) (spare : Nat) (t : Tree) :
    (defs.offer spare t).trees.length ≤ b ^ (2 ^ spare - 1) := by
  have positive : ∀ n, 1 ≤ b ^ n := fun n => Nat.one_le_pow n b hb
  induction spare generalizing t with
  | zero => exact positive _
  | succ spare ih =>
      rcases offer_cases defs spare t with ⟨id, e, -, he, hoffer⟩ | ⟨-, hoffer⟩
      · have expanded := length_resolve_le hd ih he
        rw [hoffer]
        calc (Offer.concat (defs.offer spare) e.definition.children).trees.length
            ≤ e.definition.children.length * b ^ (2 ^ spare - 1) :=
              Offer.length_concat_le fun u _ => ih u
          _ ≤ b ^ 2 ^ spare * b ^ (2 ^ spare - 1) := Nat.mul_le_mul_right _ expanded
          _ = b ^ (2 ^ (spare + 1) - 1) := pow_two_pow_mul b spare
      · rw [hoffer]
        cases (Offer.concat (defs.offer spare) t.children).refusal? t.kind with
        | some violation => exact Nat.zero_le _
        | none => exact positive _

/-! ### The bound is reached -/

/-- A state that refers to the definition. -/
def StateOf (id : String) (t : Tree) : Prop :=
  t.kind = .state ∧ t.attribute? definitionAttribute = some id

theorem StateOf.marked {t : Tree} (h : StateOf id t) (other : String) :
    StateOf id (t.marked other) := by
  refine ⟨h.1, ?_⟩
  rw [Tree.attribute?_marked, if_neg (by decide)]
  exact h.2

/-- A definition of states that refer to it. -/
structure Repeats (defs : Definitions) (id : String) (b : Nat) (found : Tree) : Prop where
  stored : defs id = some found
  template : found.attribute? templateAttribute = none
  length : found.children.length = b
  states : ∀ t ∈ found.children, StateOf id t

variable {found : Tree}

theorem Repeats.resolve (hd : defs.Repeats id b found)
    (ho : ∀ t, StateOf id t → (defs.offer depth t).Counts (StateOf id) (b ^ (2 ^ depth - 1))) :
    ∃ ts, ts.length = b ^ 2 ^ depth ∧ (∀ t ∈ ts, StateOf id t) ∧
      defs.resolve (depth + 1) id = .ok (completed id ts) := by
  have inside := Offer.counts_concat fun t ht => ho t (hd.states t ht)
  have basis : Definitions.basis (defs.resolve depth) found = .ok (definitionOf []) := by
    rw [Definitions.basis, hd.template]
    rfl
  have step := resolve_succ hd.stored basis (.mk (List.forall_mem_nil _))
  generalize Offer.concat (defs.offer depth) found.children = o at inside step
  refine ⟨o.trees, ?_, inside.trees, ?_⟩
  · rw [inside.length, hd.length, mul_pow_two_pow_sub_one]
  · have accepted : o.refusal? .definition = none := by
      rw [Offer.refusal?_eq_none_iff]
      refine ⟨List.takeWhile_eq_self_iff.2 fun t ht => ?_, inside.whole⟩
      rw [(inside.trees t ht).1]
      rfl
    dsimp only at step
    rw [step, accepted]
    rfl

theorem Repeats.offer (hd : defs.Repeats id b found) (spare : Nat) {t : Tree}
    (ht : StateOf id t) :
    (defs.offer spare t).Counts (StateOf id) (b ^ (2 ^ spare - 1)) := by
  induction spare generalizing t with
  | zero => exact Offer.counts_ofTree ht
  | succ spare ih =>
      obtain ⟨ts, hlength, hts, hresolve⟩ := hd.resolve fun t ht => ih ht
      rcases offer_cases defs spare t with ⟨id', e, hid, he, hoffer⟩ | ⟨hno, -⟩
      · obtain rfl : id = id' := Option.some.inj (ht.2.symm.trans hid)
        obtain rfl : completed id ts = e := Except.ok.inj (hresolve.symm.trans he)
        have states : ∀ t ∈ stamped id ts, StateOf id t :=
          forall_mem_stamped hts fun _ t ht => (hts t ht).marked id
        have counts := Offer.counts_concat fun t ht => ih (states t ht)
        rw [length_stamped, hlength, pow_two_pow_mul] at counts
        rw [hoffer]
        exact counts
      · exact absurd hresolve (hno id _ ht.2)

end Definitions

/-! ### Libraries -/

namespace Library

variable {lib : Library} {f g : Forest} {b depth : Nat} {id : String} {root : NodeId}
  {uniform : Option NodeType}

/-- The definition that the library finds has `b` children, all of them states that refer to
it. -/
def Repeats (lib : Library) (f : Forest) (id : String) (b : Nat) : Prop :=
  ∃ found, lib.find? id = some found ∧ (f.get found).attribute? templateAttribute = none ∧
    (f.children found).length = b ∧ ∀ child, f.HasChild found child →
      (f.get child).kind = .state ∧ (f.get child).attribute? definitionAttribute = some id

theorem length_children_tree (hf : f.WellFormed) (node : NodeId) :
    (f.tree node).children.length = (f.children node).length := by
  rw [hf.children_tree, List.length_map]

theorem narrow_definitions (hf : f.WellFormed)
    (h : ∀ id, ∀ found ∈ lib.find? id,
      (f.get found).attribute? templateAttribute = none ∧ (f.children found).length ≤ b) :
    (lib.definitions f).Narrow b := by
  intro id t ht
  obtain ⟨found, hfound, rfl⟩ := Option.map_eq_some_iff.1 ht
  rw [hf.attribute?_tree, length_children_tree hf]
  exact h id found hfound

theorem Repeats.definitions (h : lib.Repeats f id b) (hf : f.WellFormed) :
    ∃ found, (lib.definitions f).Repeats id b found := by
  obtain ⟨found, hfound, htemplate, hlength, hstates⟩ := h
  refine ⟨f.tree found, ?_, ?_, ?_, ?_⟩
  · rw [Library.definitions, hfound]
    rfl
  · rw [hf.attribute?_tree, htemplate]
  · rw [length_children_tree hf, hlength]
  · rw [hf.children_tree, List.forall_mem_map]
    intro child hchild
    rw [Definitions.StateOf, hf.kind_tree, hf.attribute?_tree]
    exact hstates child hchild

theorem length_buildNode_le (hf : f.WellFormed) (hl : lib.Within f) (hb : 1 ≤ b)
    (hnarrow : (lib.definitions f).Narrow b) (hdepth : 1 ≤ depth)
    (h : lib.buildNode f depth id = .ok (root, uniform, g)) :
    (g.children root).length ≤ b ^ 2 ^ (depth - 1) := by
  obtain ⟨e, he, hchildren, -⟩ := children_of_buildNode hf hl h
  obtain ⟨d, rfl⟩ := Nat.exists_eq_add_of_le' hdepth
  rw [← List.length_map g.tree, ← hchildren]
  exact Definitions.length_resolve_le hnarrow (Definitions.length_offer_le hb hnarrow d) he

theorem Repeats.buildNode (h : lib.Repeats f id b) (hf : f.WellFormed) (hl : lib.Within f)
    (hb : 1 ≤ b) (hdepth : 1 ≤ depth) :
    ∃ root g, lib.buildNode f depth id = .ok (root, some .state, g) ∧
      (g.children root).length = b ^ 2 ^ (depth - 1) ∧
        ∀ child ∈ g.children root, (g.get child).kind = .state := by
  obtain ⟨found, repeats⟩ := h.definitions hf
  obtain ⟨d, rfl⟩ := Nat.exists_eq_add_of_le' hdepth
  obtain ⟨ts, hlength, hts, hresolve⟩ := repeats.resolve fun t ht => repeats.offer d ht
  have nonempty : ts ≠ [] := by
    rintro rfl
    have positive := Nat.one_le_pow (2 ^ d) b hb
    rw [List.length_nil] at hlength
    omega
  obtain ⟨root, g, hbuilt, hdefinition⟩ := exists_buildNode_of_resolve hf hl hresolve
  have hg := wellFormed_of_buildNode hf hl hbuilt
  have children : (g.children root).map g.tree = Definitions.stamped id ts := by
    rw [← hg.children_tree, hdefinition]
    rfl
  have huniform : (Definitions.completed id ts).uniformType = some .state :=
    uniformType?_eq_some_iff.2 ⟨nonempty, fun t ht => (hts t ht).1⟩
  rw [huniform] at hbuilt
  refine ⟨root, g, hbuilt, ?_, fun child hchild => ?_⟩
  · rw [← List.length_map g.tree, children, Definitions.length_stamped, hlength]
    rfl
  · rw [← hg.kind_tree]
    have hmem := List.mem_map_of_mem (f := g.tree) hchild
    rw [children] at hmem
    exact Definitions.forall_mem_stamped (fun t ht => (hts t ht).1)
      (fun _ t ht => (hts t ht).1) _ hmem

end Library

/-! ### A definition that repeats itself -/

section Repeated

/-- A state without children that refers to the definition. -/
def repeatedState (id : String) : Tree :=
  ⟨⟨.state, .ofList [(definitionAttribute, id)], .children []⟩⟩

/-- A definition of `b` such states. -/
def repeatedDefinition (id : String) (b : Nat) : Tree :=
  ⟨⟨.definition, .ofList [(definesAttribute, id)], .children (List.replicate b (repeatedState id))⟩⟩

/-- A report of this definition. -/
def repeatedReport (id : String) (b : Nat) : Tree :=
  ⟨⟨.report, .ofList NodeType.report.defaults, .children [repeatedDefinition id b]⟩⟩

/-- Imports the definition into a library and does nothing else. -/
def repeatedCalls (id : String) (b : Nat) : List Operation :=
  [.newLibrary, .readDocument (repeatedReport id b).toElement, .importReport 0 0]

variable (id : String) (b : Nat)

theorem ofElement_repeatedDefinition :
    Tree.ofElement (repeatedDefinition id b).toElement = .ok (repeatedDefinition id b) := by
  have states : ∀ t ∈ List.replicate b (repeatedState id), t = repeatedState id :=
    fun t ht => List.eq_of_mem_replicate ht
  let start : Node Tree := ⟨.definition, .ofList [(definesAttribute, id)], .children []⟩
  have read : Tree.readChildren start (Tree.treeNodes (List.replicate b (repeatedState id))) =
      .ok (start.withChildren ([] ++ (List.replicate b (repeatedState id)).map fun t => t)) := by
    apply Tree.readChildren_treeNodes rfl rfl
    all_goals
      intro t ht
      rw [states t ht]
      rfl
  show Tree.readChildren start (Tree.treeNodes (List.replicate b (repeatedState id))) >>=
    (fun n => pure (Tree.mk n)) = _
  rw [read, List.map_id']
  rfl

theorem ofElement_repeatedReport :
    Report.ofElement (repeatedReport id b).toElement = .ok (repeatedReport id b) := by
  have read : Tree.readChildren (.new .report) (Tree.treeNodes [repeatedDefinition id b]) =
      .ok ((Node.new .report).withChildren ([] ++ [repeatedDefinition id b].map fun t => t)) :=
    Tree.readChildren_treeNodes rfl rfl
      (List.forall_mem_singleton.2 (ofElement_repeatedDefinition id b))
      (List.forall_mem_singleton.2 rfl)
  rw [Report.ofElement_eq_ok_iff]
  refine ⟨?_, rfl⟩
  show Tree.readChildren (.new .report) (Tree.treeNodes [repeatedDefinition id b]) >>=
    (fun n => pure (Tree.mk n)) = _
  rw [read]
  rfl

theorem tree_of_repeatedDefinition {f : Forest} (hf : f.WellFormed) {node : NodeId}
    (h : f.tree node = repeatedDefinition id b) (child : NodeId) (hchild : f.HasChild node child) :
    f.tree child = repeatedState id := by
  have hmem : f.tree child ∈ (f.tree node).children := by
    rw [hf.children_tree]
    exact List.mem_map_of_mem hchild
  rw [h] at hmem
  exact List.eq_of_mem_replicate hmem

/-- The library files the definition alone. -/
theorem run_repeatedCalls :
    ∃ f documents node, World.run .empty (repeatedCalls id b) =
        ⟨f, documents, [⟨[(id, [node])], []⟩]⟩ ∧
      f.tree node = repeatedDefinition id b := by
  have report := Tree.valid_of_ofElement
    (Report.ofElement_eq_ok_iff.1 (ofElement_repeatedReport id b)).1
  have definition := Tree.valid_of_ofElement (ofElement_repeatedDefinition id b)
  have planted := Forest.plant_spec report Forest.wellFormed_empty
  generalize hmade : Forest.empty.plant (repeatedReport id b) = made at planted
  obtain ⟨root, f⟩ := made
  have hf : f.WellFormed := planted.growth.wellFormed Forest.wellFormed_empty
  have imported : ((f.children root).filter fun node => (f.get node).kind = .definition).map
      f.tree = [repeatedDefinition id b] := by
    have children := hf.children_tree root
    rw [planted.tree] at children
    obtain ⟨node, hnode, htree⟩ := List.map_eq_singleton_iff.1 children.symm
    have hkind : (f.get node).kind = .definition := by
      rw [← hf.kind_tree, htree]
      rfl
    rw [hnode]
    simp [hkind, htree]
  have copied := Forest.plant_spec definition hf
  refine ⟨(f.plant (repeatedDefinition id b)).2, [⟨root⟩],
    (f.plant (repeatedDefinition id b)).1, ?_, copied.tree⟩
  have hread : World.effect ⟨.empty, [], [.empty]⟩
      (.readDocument (repeatedReport id b).toElement) = ⟨f, [⟨root⟩], [.empty]⟩ := by
    rw [World.effect, Document.ofElement, ofElement_repeatedReport]
    show World.withDocument _ (Document.plant _ _) = _
    rw [Document.plant, hmade]
    rfl
  rw [repeatedCalls, World.run, List.foldl_cons, List.foldl_cons, List.foldl_cons,
    World.perform_of_handles_eq_nil _ rfl, World.perform_of_handles_eq_nil _ rfl,
    World.perform_of_handles_eq_nil _ rfl]
  show World.effect (World.effect ⟨.empty, [], [.empty]⟩ (.readDocument _)) (.importReport 0 0) = _
  rw [hread]
  show World.withLibrary _ 0 (Library.importDefinitions _ f _) = _
  rw [imported]
  rfl

end Repeated

/-! ### Worlds -/

/-- How many children the nodes have that are built in a world. -/
structure World.Widths (w : World) : Prop where
  /-- Whatever else is filed, if the definitions that are found have no template and at most
  `b` children each, the budget alone bounds the width of what is built. -/
  bounded : ∀ lib ∈ w.libraries, ∀ b, 1 ≤ b →
    (∀ id, ∀ found ∈ lib.find? id, (w.forest.get found).attribute? templateAttribute = none ∧
      (w.forest.children found).length ≤ b) →
    ∀ depth, 1 ≤ depth → ∀ id root uniform g,
      lib.buildNode w.forest depth id = .ok (root, uniform, g) →
        (g.children root).length ≤ b ^ 2 ^ (depth - 1)
  /-- States that refer to their own definition come to as many states as there can be. -/
  attained : ∀ lib ∈ w.libraries, ∀ b, 1 ≤ b → ∀ id, lib.Repeats w.forest id b →
    ∀ depth, 1 ≤ depth → ∃ root g,
      lib.buildNode w.forest depth id = .ok (root, some .state, g) ∧
        (g.children root).length = b ^ 2 ^ (depth - 1) ∧
          ∀ child, g.HasChild root child → (g.get child).kind = .state

namespace World

theorem WellFormed.widths {w : World} (hw : w.WellFormed) : w.Widths where
  bounded lib hlib _ hb hnarrow _ hdepth _ _ _ _ h :=
    Library.length_buildNode_le hw.forest (hw.libraries lib hlib).within hb
      (Library.narrow_definitions hw.forest hnarrow) hdepth h
  attained lib hlib _ hb _ h _ hdepth :=
    h.buildNode hw.forest (hw.libraries lib hlib).within hb hdepth

/-- In every world the width of an expansion is bounded by its budget, and for every id and
every width there is a world with a library whose only definition reaches the bound. -/
theorem run_widths :
    (∀ operations, (run empty operations).Widths) ∧
    ∀ id b, ∃ operations, let w := run empty operations
      ∃ lib ∈ w.libraries, lib.ids = [id] ∧ lib.size = 1 ∧ lib.Repeats w.forest id b ∧
        ∀ found ∈ lib.find? id, ∀ child, w.forest.HasChild found child →
          w.forest.children child = [] := by
  refine ⟨fun operations => (wellFormed_run wellFormed_empty operations).widths, fun id b => ?_⟩
  have hf := (wellFormed_run wellFormed_empty (repeatedCalls id b)).forest
  obtain ⟨f, documents, node, hrun, htree⟩ := run_repeatedCalls id b
  refine ⟨repeatedCalls id b, ?_⟩
  rw [hrun] at hf ⊢
  have states := tree_of_repeatedDefinition id b hf htree
  have found : (Library.mk [(id, [node])] []).find? id = some node := by
    simp [Library.find?, Library.findAll, Library.filedUnder]
  refine ⟨_, List.mem_singleton_self _, rfl, rfl, ⟨node, found, ?_, ?_, ?_⟩, ?_⟩
  · rw [← hf.attribute?_tree, htree]
    rfl
  · rw [← Library.length_children_tree hf, htree]
    exact List.length_replicate
  · intro child hchild
    rw [← hf.kind_tree, ← hf.attribute?_tree, states child hchild]
    exact ⟨rfl, rfl⟩
  · intro other hother child hchild
    obtain rfl : node = other := Option.some.inj (found.symm.trans hother)
    have children := hf.children_tree child
    rw [states child hchild] at children
    exact List.map_eq_nil_iff.1 children.symm

end World

end IncidentReport
