import IncidentReport.Proofs.Forest.Frame
import IncidentReport.Proofs.Resolution.Gathering
import IncidentReport.Proofs.Resolution.Live

/-!
Resolution on handles does what resolution on trees does. Expanding a definition has
the outcome of resolving its id among the trees of the definitions, and attaching a
node does what gathering its tree does, as long as nothing that is read leads to the
parent.
-/

namespace IncidentReport.Library

open Forest Call

variable {lib : Library} {f g h : Forest}

/-! ### Definitions that stay as they are -/

/-- No definition that can be found leads to an open node. -/
def Unopened (lib : Library) (f : Forest) (opened : NodeId → Prop) : Prop :=
  ∀ id found, lib.find? id = some found → Shut f opened found

variable {opened dropped : NodeId → Prop}

theorem Within.unopened (hl : lib.Within f) : lib.Unopened f fun _ => False :=
  fun id found hfound => ⟨hl id found hfound, fun _ _ => not_false⟩

namespace Unopened

theorem within (hl : lib.Unopened f opened) : lib.Within f :=
  fun id found hfound => (hl id found hfound).has

theorem later (hl : lib.Unopened f opened) (hf : f.WellFormed)
    (hg : Construction f opened dropped g) : lib.Unopened g opened :=
  fun id found hfound => (hl id found hfound).later hf hg

theorem definitions_eq (hl : lib.Unopened f opened) (hf : f.WellFormed)
    (hg : Construction f opened dropped g) : lib.definitions g = lib.definitions f := by
  funext id
  rw [definitions, definitions]
  cases hfound : lib.find? id with
  | none => rfl
  | some found => rw [Option.map_some, Option.map_some, (hl id found hfound).tree_eq hf hg]

end Unopened

/-! ### One level -/

/-- Attaching a node does what gathering its tree does, if neither the node nor a
definition leads to the parent. -/
def AttachesAs (lib : Library) (attach : NodeId → NodeId → Call Unit)
    (gather : Definitions → Gathering → Tree → Gathering × Option Violation) : Prop :=
  ∀ (f : Forest) (parent child : NodeId) (s : Gathering), f.WellFormed →
    lib.Unopened f (· = parent) → f.Has parent → Shut f (· = parent) child →
      Mirrors f parent s →
        Matches (attach parent child f) parent (gather (lib.definitions f) s (f.tree child))

/-- Expanding a definition has the outcome of resolving the id among the trees of
the definitions. -/
def ExpandsAs (lib : Library) (expand : String → Call Resolved)
    (resolve : Definitions → String → Except ResolveError Expansion) : Prop :=
  ∀ (f : Forest) (id : String), f.WellFormed → lib.Within f →
    (expand id f).1.map (fun r => Expansion.mk ((expand id f).2.tree r.1) r.2) =
      resolve (lib.definitions f) id

variable {inherit expand : String → Call Resolved} {attach : NodeId → NodeId → Call Unit}
  {resolve : Definitions → String → Except ResolveError Expansion}
  {gather : Definitions → Gathering → Tree → Gathering × Option Violation}

theorem forEach_matches (ha : lib.Attaches attach) (hs : lib.AttachesAs attach gather)
    (hf : f.WellFormed) {parent : NodeId} (hl : lib.Unopened f (· = parent))
    (hp : f.Has parent) {ids : List NodeId} (hids : ∀ id ∈ ids, Shut f (· = parent) id)
    {s : Gathering} (hm : Mirrors f parent s) :
    Matches (forEach (attach parent) ids f) parent
      (forEachTree (gather (lib.definitions f)) s (ids.map f.tree)) := by
  induction ids generalizing f s with
  | nil => exact ⟨hm, rfl⟩
  | cons id ids ih =>
      obtain ⟨hid, hids⟩ := List.forall_mem_cons.1 hids
      have made := (ha f parent id hf hl.within hp hid.has).construction
      have first := hs f parent id s hf hl hp hid hm
      rw [forEach, bind_apply, List.map_cons, forEachTree]
      rcases hcall : attach parent id f with ⟨outcome, g⟩
      rcases htake : gather (lib.definitions f) s (f.tree id) with ⟨taken, violation?⟩
      rw [hcall] at made first
      rw [htake] at first
      obtain ⟨hm, ho⟩ := first
      dsimp only at made hm ho
      cases violation? with
      | some violation =>
          subst ho
          exact ⟨hm, rfl⟩
      | none =>
          subst ho
          have trees : ids.map f.tree = ids.map g.tree :=
            List.map_congr_left fun other ho => ((hids other ho).tree_eq hf made).symm
          rw [trees, ← hl.definitions_eq hf made]
          exact ih (made.wellFormed hf) (hl.later hf made) (made.has hp)
            (fun other ho => (hids other ho).later hf made) hm

/-- The children of an old node are attached to a new root, which none of them leads
to. -/
theorem fill_matches (ha : lib.AttachesAs attach gather) (hab : lib.Attaches attach)
    (hf : f.WellFormed) (hl : lib.Within f) (hg : Growth f g) {root source : NodeId}
    (hr : Root f g root) (hsource : f.Has source) {s : Gathering} (hm : Mirrors g root s) :
    Builds f (fun _ => False) (fun _ => False) g (forEach (attach root) (g.children source))
        (fun _ h => Root f h root) ∧
      Matches (forEach (attach root) (g.children source) g) root
        (forEachTree (gather (lib.definitions f)) s (f.tree source).children) := by
  have hwf := hg.wellFormed hf
  have hsame : g.children source = f.children source := by
    rw [children, hg.get_closed hsource not_false, ← children]
  have hids : ∀ child ∈ g.children source, Shut g (· = root) child := by
    rw [hsame]
    exact fun child hchild => root_shut hg hr (hf.closed source child hchild)
  have htrees : (g.children source).map g.tree = (f.tree source).children := by
    rw [← hwf.children_tree, hg.tree_eq hf hsource]
  have spared : lib.Unopened g (· = root) := fun id found hfound =>
    root_shut hg hr (hl id found hfound)
  have builds := forEach_attach hab hf hl hg hr.has (fun hold => absurd hold hr.isNew)
    fun child hchild => (hids child hchild).has
  have attached := forEach_matches hab ha hwf spared hr.has hids hm
  rw [hl.unopened.definitions_eq hf hg, htrees] at attached
  exact ⟨builds.imp fun _ _ _ hkept => hkept root hr, attached⟩

theorem basis_tree (hi : lib.ExpandsAs inherit resolve) (hib : lib.Expands inherit)
    (hf : f.WellFormed) (hl : lib.Within f) (found : NodeId) :
    (basis inherit found f).1.map (basis inherit found f).2.tree =
      Definitions.basis (resolve (lib.definitions f)) (f.tree found) := by
  rw [Definitions.basis, hf.attribute?_tree, basis, bind_apply, look]
  cases (f.get found).attribute? templateAttribute with
  | none => exact congrArg Except.ok (tree_add_new hf .definition)
  | some template =>
      have same := hi f template hf hl
      have grown := (hib f template hf hl).construction
      dsimp only
      rw [bind_apply, ← same]
      rcases hcall : inherit template f with ⟨e | r, g⟩
      · rfl
      · rw [hcall] at grown
        have copied := copy_spec (grown.wellFormed hf) r.1
        exact congrArg Except.ok copied.tree

/-! ### Expansions and references -/

theorem expandWith_apply {id : String} {found root : NodeId} (hfound : lib.find? id = some found)
    (hbasis : basis inherit found f = (.ok root, g)) :
    lib.expandWith inherit attach id f =
      match forEach (attach root) (g.children found) g with
      | (.ok _, h) => (mark id root >>= fun uniform => pure (root, uniform)) h
      | (.error e, h) => (.error e, h) := by
  rw [expandWith, hfound]
  dsimp only
  rw [bind_apply, hbasis]
  dsimp only
  rw [bind_apply, look]
  dsimp only
  rw [bind_apply]
  rcases forEach (attach root) (g.children found) g with ⟨e | u, h⟩ <;> rfl

theorem expandWith_eq_complete {defs : Definitions} {id : String} {found start : Tree}
    {inherit : String → Except ResolveError Expansion}
    {gather : Gathering → Tree → Gathering × Option Violation} (hfound : defs id = some found)
    (hbasis : Definitions.basis inherit found = .ok start) :
    defs.expandWith inherit gather id =
      match forEachTree gather (.startingFrom start) found.children with
      | (_, some violation) => .error (.schema violation)
      | (s, none) => Definitions.complete id s := by
  rw [Definitions.expandWith, hfound]
  dsimp only
  rw [hbasis]
  rfl

theorem map_mark (hf : f.WellFormed) (hg : Growth f g) (id : String) {root : NodeId}
    (hr : Root f g root) {s : Gathering} (hm : Mirrors g root s) :
    let made := (mark id root >>= fun uniform => pure (root, uniform)) g
    made.1.map (fun r => Expansion.mk (made.2.tree r.1) r.2) = Definitions.complete id s := by
  have marked := mark_tree hf hg id hr hm
  rw [bind_apply, ← marked]
  rcases mark id root g with ⟨e | uniform, h⟩ <;> rfl

theorem expandWith_tree (hi : lib.ExpandsAs inherit resolve) (hib : lib.Expands inherit)
    (ha : lib.AttachesAs attach gather) (hab : lib.Attaches attach) :
    lib.ExpandsAs (lib.expandWith inherit attach) fun defs =>
      defs.expandWith (resolve defs) (gather defs) := by
  intro f id hf hl
  dsimp only
  have hdefs : lib.definitions f id = (lib.find? id).map f.tree := rfl
  cases hfound : lib.find? id with
  | none =>
      rw [hfound] at hdefs
      rw [expandWith, hfound, Definitions.expandWith, hdefs]
      rfl
  | some found =>
      rw [hfound] at hdefs
      have based := basis_tree hi hib hf hl found
      obtain ⟨hg, hroot⟩ := basis_builds hib hf hl found
      rcases hcall : basis inherit found f with ⟨e | root, g⟩ <;> rw [hcall] at hg hroot based
      · rw [expandWith, hfound, Definitions.expandWith, hdefs]
        dsimp only [Option.map_some]
        rw [bind_apply, hcall, ← based]
        rfl
      · have hroot := hroot root rfl
        dsimp only at hg hroot
        rw [expandWith_apply hfound hcall, expandWith_eq_complete hdefs based.symm]
        obtain ⟨⟨hh, hkept⟩, filled⟩ := fill_matches ha hab hf hl hg hroot (hl id found hfound)
          (Mirrors.startingFrom (hg.wellFormed hf) rfl)
        rcases hcalls : forEach (attach root) (g.children found) g with ⟨outcome, h⟩
        rcases hgathered : forEachTree (gather (lib.definitions f)) (.startingFrom (g.tree root))
          (f.tree found).children with ⟨s, violation?⟩
        rw [hcalls] at filled hh hkept
        rw [hgathered] at filled
        obtain ⟨hm, ho⟩ := filled
        dsimp only at hh hkept hm ho
        subst ho
        cases violation? with
        | some violation => rfl
        | none => exact map_mark hf hh id (hkept () rfl) hm

/-- A reference is followed where it leads somewhere among the trees. -/
theorem follow?_tree (he : lib.ExpandsAs expand resolve) (heb : lib.Expands expand)
    (hf : f.WellFormed) (hl : lib.Within f) (child : NodeId) :
    ∃ resolved? g, follow? expand child f = (.ok resolved?, g) ∧ Growth f g ∧
      (∀ r, resolved? = some r → Root f g r.1) ∧
        resolved?.map (fun r => Expansion.mk (g.tree r.1) r.2) =
          ((f.tree child).attribute? definitionAttribute).bind fun id =>
            (resolve (lib.definitions f) id).toOption := by
  rw [hf.attribute?_tree, follow?, bind_apply, look]
  cases (f.get child).attribute? definitionAttribute with
  | none =>
      refine ⟨none, f, rfl, .start, fun r hr => ?_, rfl⟩
      cases hr
  | some id =>
      have same := he f id hf hl
      obtain ⟨hg, hroot⟩ := heb f id hf hl
      dsimp only
      rw [attempt, Option.bind_some, ← same]
      rcases hcall : expand id f with ⟨e | r, g⟩ <;> rw [hcall] at hg hroot
      · refine ⟨none, g, rfl, hg, fun r hr => ?_, rfl⟩
        cases hr
      · refine ⟨some r, g, rfl, hg, fun r' hr => ?_, rfl⟩
        cases hr
        exact hroot r rfl

theorem copyAlone_mirrors (hf : f.WellFormed) (child : NodeId) :
    Mirrors (f.copyAlone child).2 (f.copyAlone child).1 ⟨(f.tree child).node, []⟩ := by
  constructor
  · rw [copyAlone, get_add_self, hf.tree_eq, Tree.node_mk, Node.withChildren_withChildren]
    exact Node.withChildren_withChildren _ _ _
  · rw [copyAlone, children, get_add_self, Node.children_withoutChildren]
    rfl

/-- A node is expanded on a copy, which nothing leads to until it is attached. -/
theorem attachCopy_matches (ha : lib.AttachesAs attach gather) (hab : lib.Attaches attach)
    (hf : f.WellFormed) (hl : lib.Within f) {parent child : NodeId} (hp : f.Has parent)
    (hc : f.Has child) {s : Gathering} (hm : Mirrors f parent s) :
    Matches
      ((make (·.copyAlone child) >>= fun copy => look (·.children child) >>= fun ids =>
        forEach (attach copy) ids >>= fun _ => Call.edit (·.addChild parent copy)) f)
      parent
      (Definitions.gatherAlone (gather (lib.definitions f)) s (f.tree child)) := by
  obtain ⟨hg, hroot⟩ := copyAlone_spec hf child
  have hcopy := copyAlone_mirrors hf child
  rw [bind_apply, make]
  generalize f.copyAlone child = made at hg hroot hcopy ⊢
  obtain ⟨copy, g⟩ := made
  dsimp only at hg hroot hcopy ⊢
  obtain ⟨⟨hh, hkept⟩, filled⟩ := fill_matches ha hab hf hl hg hroot hc hcopy
  rw [bind_apply, look, Definitions.gatherAlone]
  dsimp only
  rw [bind_apply]
  rcases hcalls : forEach (attach copy) (g.children child) g with ⟨outcome, h⟩
  rcases hgathered : forEachTree (gather (lib.definitions f)) ⟨(f.tree child).node, []⟩
    (f.tree child).children with ⟨expanded, violation?⟩
  rw [hcalls] at filled hh hkept
  rw [hgathered] at filled
  obtain ⟨hexpanded, ho⟩ := filled
  dsimp only at hh hkept hexpanded ho
  subst ho
  have hm := hm.later hf ⟨hp, fun _ _ => not_false⟩ hh
  cases violation? with
  | some violation => exact ⟨hm, rfl⟩
  | none =>
      have hroot := hkept () rfl
      have hno : ¬ h.Reaches copy parent := fun hback => hh.isNew_of_reaches hroot.isNew hback hp
      have added := edit_addChild_matches (hh.wellFormed hf) hm (hh.has hp) hroot.has hno
      rw [hexpanded.tree (hh.wellFormed hf)] at added
      exact added

/-- A node that refers to nothing is expanded with all that is below it. -/
theorem attachWith_unfollowed (ha : lib.AttachesAs attach gather) (hab : lib.Attaches attach)
    (hf : f.WellFormed) (hl : lib.Within f) {parent child : NodeId} (hp : f.Has parent)
    (hc : f.Has child) {s : Gathering} (hm : Mirrors f parent s) (hg : Growth f g)
    (hfollow : follow? expand child f = (.ok none, g)) :
    Matches (attachWith expand attach parent child f) parent
      (Definitions.gatherAlone (gather (lib.definitions f)) s (f.tree child)) := by
  have attached := attachCopy_matches ha hab (hg.wellFormed hf) (hl.later hg) (hg.has hp)
    (hg.has hc) (hm.later hf ⟨hp, fun _ _ => not_false⟩ hg)
  rw [hl.unopened.definitions_eq hf hg, hg.tree_eq hf hc] at attached
  rw [attachWith, bind_apply, hfollow]
  exact attached

theorem attachWith_tree (he : lib.ExpandsAs expand resolve) (heb : lib.Expands expand)
    (ha : lib.AttachesAs attach gather) (hab : lib.Attaches attach) :
    lib.AttachesAs (attachWith expand attach) fun defs =>
      Definitions.gatherWith (resolve defs) (gather defs) := by
  intro f parent child s hf hl hp hc hm
  dsimp only
  obtain ⟨resolved?, g, hfollow, hg, hroot, htree⟩ := follow?_tree he heb hf hl.within child
  rw [Definitions.gatherWith_eq, ← htree]
  cases resolved? with
  | some r =>
      have hwf := hg.wellFormed hf
      have opened : Construction f (· = parent) (fun _ => False) g := Construction.start.grow hg
      have hm : Mirrors g parent s := hm.later hf ⟨hp, fun _ _ => not_false⟩ hg
      have hroot := hroot r rfl
      have hids : ∀ id ∈ g.children r.1, Shut g (· = parent) id := by
        intro id hid
        refine ⟨hwf.closed _ _ hid, ?_⟩
        rintro other ho rfl
        exact hg.isNew_of_reaches (hg.children_new hroot.isNew hid) ho hp
      have attached := forEach_matches hab ha hwf (hl.later hf opened) (hg.has hp) hids hm
      rw [← hwf.children_tree, hl.within.unopened.definitions_eq hf hg] at attached
      rw [attachWith, bind_apply, hfollow]
      exact attached
  | none => exact attachWith_unfollowed ha hab hf hl.within hp hc.has hm hg hfollow

/-! ### All levels -/

/-- Without anything to spend the tree is taken as it is, wherever the parent stands. -/
theorem splice_zero_matches (hf : f.WellFormed) {parent : NodeId} (hp : f.Has parent)
    (child : NodeId) {s : Gathering} (hm : Mirrors f parent s) :
    Matches (lib.splice 0 parent child f) parent (s.take (f.tree child)) := by
  obtain ⟨hg, hroot, htree⟩ := copy_spec hf child
  rw [splice, bind_apply, make]
  dsimp only
  generalize f.copy child = made at hg hroot htree ⊢
  obtain ⟨copy, g⟩ := made
  dsimp only at hg hroot htree ⊢
  have hm := hm.later hf ⟨hp, fun _ _ => not_false⟩ hg
  have hno : ¬ g.Reaches copy parent := fun hback => hg.isNew_of_reaches hroot.isNew hback hp
  have added := edit_addChild_matches (hg.wellFormed hf) hm (hg.has hp) hroot.has hno
  rw [htree] at added
  exact added

theorem splice_zero_tree : lib.AttachesAs (lib.splice 0) fun defs => defs.gather 0 := by
  intro f parent child s hf _ hp _ hm
  dsimp only
  rw [Definitions.gather]
  exact splice_zero_matches hf hp child hm

theorem expands_and_attaches_as (lib : Library) (depth : Nat) :
    lib.ExpandsAs (lib.expand depth) (fun defs => defs.resolve depth) ∧
      lib.AttachesAs (lib.splice depth) fun defs => defs.gather depth := by
  induction depth with
  | zero => exact ⟨fun f id hf hl => rfl, splice_zero_tree⟩
  | succ depth ih =>
      obtain ⟨he, ha⟩ := ih
      obtain ⟨heb, hab⟩ := lib.expands_and_attaches depth
      have hnext := expandWith_tree he heb ha hab
      have hnextb := expandWith_builds heb hab
      exact ⟨hnext, attachWith_tree hnext hnextb ha hab⟩

/-- A definition is expanded into the tree that its id is resolved to. -/
theorem buildNode_eq_resolve (hf : f.WellFormed) (hl : lib.Within f) (depth : Nat) (id : String) :
    (lib.buildNode f depth id).map (fun (root, uniform, g) => ⟨g.tree root, uniform⟩) =
      (lib.definitions f).resolve depth id := by
  have same := (lib.expands_and_attaches_as depth).1 f id hf hl
  dsimp only at same
  rw [← same, buildNode]
  rcases lib.expand depth id f with ⟨e | r, g⟩ <;> rfl

variable {depth : Nat} {id : String} {root : NodeId} {uniform : Option NodeType}

theorem resolve_of_buildNode (hf : f.WellFormed) (hl : lib.Within f)
    (hbuilt : lib.buildNode f depth id = .ok (root, uniform, g)) :
    (lib.definitions f).resolve depth id = .ok ⟨g.tree root, uniform⟩ := by
  rw [← buildNode_eq_resolve hf hl, hbuilt]
  rfl

theorem resolve_of_buildNode_error (hf : f.WellFormed) (hl : lib.Within f) {e : ResolveError}
    (hbuilt : lib.buildNode f depth id = .error e) :
    (lib.definitions f).resolve depth id = .error e := by
  rw [← buildNode_eq_resolve hf hl, hbuilt]
  rfl

theorem exists_buildNode_of_resolve (hf : f.WellFormed) (hl : lib.Within f) {e : Expansion}
    (hresolved : (lib.definitions f).resolve depth id = .ok e) :
    ∃ root g, lib.buildNode f depth id = .ok (root, e.uniformType, g) ∧
      g.tree root = e.definition := by
  rw [← buildNode_eq_resolve hf hl] at hresolved
  obtain ⟨⟨root, uniform, g⟩, hbuilt, rfl⟩ := map_eq_ok.1 hresolved
  exact ⟨root, g, hbuilt, rfl⟩

/-- Two nodes were built that are equal and whose children have the same type, if they
have one. -/
def SameBuild : NodeId × Option NodeType × Forest → NodeId × Option NodeType × Forest → Prop
  | (a, uniform, f), (b, uniform', g) =>
    (f.tree a).same (g.tree b) = true ∧ uniform = uniform'

/-- Nodes are built alike where the ids are resolved alike. -/
theorem buildNode_agree {A B : Library} (hf : f.WellFormed) (hA : A.Within f) (hg : g.WellFormed)
    (hB : B.Within g) {depth depth' : Nat} {id : String}
    (h : Agree (fun e e' => e.definition.same e'.definition = true ∧
        e.uniformType = e'.uniformType)
      ((A.definitions f).resolve depth id) ((B.definitions g).resolve depth' id)) :
    Agree SameBuild (A.buildNode f depth id) (B.buildNode g depth' id) := by
  rw [← buildNode_eq_resolve hf hA, ← buildNode_eq_resolve hg hB] at h
  exact h.of_map

end IncidentReport.Library
