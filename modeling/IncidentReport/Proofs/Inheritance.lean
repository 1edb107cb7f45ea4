import IncidentReport.Proofs.Node.Normal
import IncidentReport.Proofs.Resolution.Steps
import IncidentReport.Proofs.Resolution.Templates
import IncidentReport.Proofs.World

/-!
What a definition inherits. Every definition in the chain of templates has a share in the
expansion: what its own children come to when they are attached one after the other, with the
units that are left when the chain has come to it. The shares are put one behind the other, that
of the last template first, and then at most the children are marked.
-/

namespace IncidentReport

/-! ### Marks left out -/

namespace Tree

/-- The tree without the mark of its root. -/
def unmarked (t : Tree) : Tree :=
  ⟨{ t.node with attributes := t.node.attributes.without provenanceAttribute }⟩

theorem unmarked_marked (id : String) (t : Tree) : (t.marked id).unmarked = t.unmarked :=
  congrArg (fun attributes => (⟨{ t.node with attributes := attributes }⟩ : Tree))
    (Attributes.without_insert _ _ _)

end Tree

theorem Definitions.map_unmarked_stamped (id : String) (ts : List Tree) :
    (stamped id ts).map Tree.unmarked = ts.map Tree.unmarked := by
  rw [stamped]
  split
  · rw [List.map_map]
    exact List.map_congr_left fun t _ => t.unmarked_marked id
  · rfl

namespace Library

open Forest Call Definitions

variable {lib : Library} {f g : Forest} {depth : Nat} {id : String}

/-! ### One share -/

/-- Attaches nodes to a parent, one after the other, up to the first that is refused. -/
def attachEach (lib : Library) (depth : Nat) (parent : NodeId) :
    Forest → List NodeId → Forest × Option ResolveError
  | f, [] => (f, none)
  | f, child :: rest =>
    match lib.attach f depth parent child with
    | (g, none) => attachEach lib depth parent g rest
    | (g, some e) => (g, some e)

/-- The children of the definition come to these trees when they are attached to a new one. -/
def Contributes (lib : Library) (f : Forest) (depth : Nat) (found : NodeId) (ts : List Tree) :
    Prop :=
  let made := f.add (.new .definition)
  let filled := lib.attachEach depth made.1 made.2 (f.children found)
  filled.2 = none ∧ (filled.1.children made.1).map filled.1.tree = ts

theorem attachEach_of_forEach {parent : NodeId} {ids : List NodeId}
    (h : forEach (lib.attachWithin depth parent) ids f = (.ok (), g)) :
    lib.attachEach depth parent f ids = (g, none) := by
  induction ids generalizing f with
  | nil =>
      cases h
      rfl
  | cons child rest ih =>
      rw [forEach] at h
      obtain ⟨_, _, hcall, hrest⟩ := Call.bind_eq_ok.1 h
      rw [attachEach, attach, hcall]
      exact ih hrest

/-- What an expansion accepts of a definition is what the definition contributes. -/
theorem contributes_of_accepted (hf : f.WellFormed) (hl : lib.Within f) {found : NodeId}
    (hfound : f.Has found)
    (accepted : (Offer.concat ((lib.definitions f).offer depth) (f.tree found).children).refusal?
      .definition = none) :
    lib.Contributes f (depth + 1) found
      (Offer.concat ((lib.definitions f).offer depth) (f.tree found).children).trees := by
  obtain ⟨hg, hroot⟩ := add_spec hf (Node.new_valid .definition) (Node.children_new .definition)
  have same : (f.add (.new .definition)).2.children found = f.children found := by
    rw [children, get_add_of_has _ hfound, ← children]
  have start := Mirrors.startingFrom (hg.wellFormed hf) (tree_add_new hf .definition)
  obtain ⟨-, filled⟩ := fill_matches (lib.expands_and_attaches_as depth).2
    (lib.expands_and_attaches depth).2 hf hl hg hroot hfound start
  have gathered := Gathering.forEachTree_eq_accept
    (fun t s => gather_eq_accept (lib.definitions f) depth s t)
  rw [same, gathered] at filled
  -- A new definition has no children, so in the end it has those that it has taken.
  have trees := filled.mirrors.trees
  rw [Gathering.children_accept_startingFrom] at trees
  have ended := filled.outcome
  rw [Gathering.accept, show (Gathering.startingFrom (Tree.new .definition)).parent.kind =
    .definition from rfl, accepted] at ended
  rcases hcall : forEach (lib.splice depth (f.add (.new .definition)).1) (f.children found)
    (f.add (.new .definition)).2 with ⟨outcome, g⟩
  rw [hcall] at trees ended
  obtain rfl : outcome = .ok () := ended
  have made : lib.attachEach (depth + 1) _ _ _ = (g, none) := attachEach_of_forEach hcall
  rw [Contributes, made]
  exact ⟨rfl, trees.trans (Offer.refusal?_eq_none_iff.1 accepted).1⟩

/-! ### The chain of templates -/

/-- The shares of the definitions in the chain of templates, the one that the chain starts with
first. A unit is spent at each link, and the last definition has no template. -/
structure Inherited (lib : Library) (f : Forest) (depth : Nat) (id : String)
    (shares : List (List Tree)) : Prop where
  nonempty : shares ≠ []
  length_le : shares.length ≤ depth
  share : ∀ j ts, shares[j]? = some ts → ∃ key found, lib.templateAt f id j = some key ∧
    lib.find? key = some found ∧ lib.Contributes f (depth - j) found ts
  ends : lib.templateAt f id shares.length = none

theorem inherited_last {found : NodeId} {ts : List Tree} (hfound : lib.find? id = some found)
    (hlast : lib.template? f id = none) (h : lib.Contributes f (depth + 1) found ts) :
    lib.Inherited f (depth + 1) id [ts] where
  nonempty := List.cons_ne_nil _ _
  length_le := Nat.succ_le_succ (Nat.zero_le depth)
  share j us hj := by
    cases j with
    | zero =>
        cases hj
        exact ⟨id, found, rfl, hfound, h⟩
    | succ j => cases hj
  ends := by
    rw [List.length_singleton, templateAt_succ, hlast]
    rfl

/-- A definition comes in front of the chain of its template. -/
theorem Inherited.link {found : NodeId} {next : String} {ts : List Tree}
    {shares : List (List Tree)} (hnext : lib.Inherited f depth next shares)
    (hfound : lib.find? id = some found) (htemplate : lib.template? f id = some next)
    (h : lib.Contributes f (depth + 1) found ts) :
    lib.Inherited f (depth + 1) id (ts :: shares) where
  nonempty := List.cons_ne_nil _ _
  length_le := Nat.succ_le_succ hnext.length_le
  share j us hj := by
    cases j with
    | zero =>
        cases hj
        exact ⟨id, found, rfl, hfound, h⟩
    | succ j =>
        obtain ⟨key, other, hkey, hother, hus⟩ := hnext.share j us hj
        refine ⟨key, other, ?_, hother, ?_⟩
        · rw [templateAt_succ, htemplate, Option.bind_some, hkey]
        · rwa [Nat.succ_sub_succ]
  ends := by
    rw [List.length_cons, templateAt_succ, htemplate, Option.bind_some, hnext.ends]

/-- Where the one chain has ended the other one has no link left. -/
theorem Inherited.length_le_length {shares shares' : List (List Tree)}
    (h : lib.Inherited f depth id shares) (h' : lib.Inherited f depth id shares') :
    shares.length ≤ shares'.length := by
  by_contra hlonger
  obtain ⟨key, -, hkey, -⟩ :=
    h.share shares'.length _ (List.getElem?_eq_getElem (Nat.lt_of_not_le hlonger))
  rw [h'.ends] at hkey
  cases hkey

theorem Inherited.unique {shares shares' : List (List Tree)}
    (h : lib.Inherited f depth id shares) (h' : lib.Inherited f depth id shares') :
    shares = shares' := by
  have same := Nat.le_antisymm (h.length_le_length h') (h'.length_le_length h)
  refine List.ext_getElem same fun j hj hj' => ?_
  obtain ⟨key, found, hkey, hfound, hts⟩ := h.share j _ (List.getElem?_eq_getElem hj)
  obtain ⟨key', found', hkey', hfound', hts'⟩ := h'.share j _ (List.getElem?_eq_getElem hj')
  obtain rfl := Option.some.inj (hkey.symm.trans hkey')
  obtain rfl := Option.some.inj (hfound.symm.trans hfound')
  exact hts.2.symm.trans hts'.2

/-- What an id is resolved to are the shares, one behind the other, but for the marks. -/
theorem exists_inherited_of_resolve (hf : f.WellFormed) (hl : lib.Within f) {e : Expansion}
    (h : (lib.definitions f).resolve depth id = .ok e) :
    ∃ shares, lib.Inherited f depth id shares ∧
      e.definition.children.map Tree.unmarked = shares.reverse.flatten.map Tree.unmarked := by
  induction depth generalizing id e with
  | zero =>
      rw [resolve] at h
      cases h
  | succ depth ih =>
      obtain ⟨spare, t, hspare, hstored, step⟩ := resolved_of_resolve_eq_ok h
      obtain rfl : depth = spare := Nat.succ.inj hspare
      obtain ⟨found, hfound, rfl⟩ := Option.map_eq_some_iff.1 hstored
      obtain _ | _ | @⟨start, basis, -, accepted⟩ := step
      -- What the template has come to is marked twice, which does not show without marks.
      have share := contributes_of_accepted hf hl (hl id found hfound) accepted
      rw [completed, children_definitionOf, map_unmarked_stamped]
      rcases basis_eq_ok basis with ⟨next, e, htemplate, he, rfl⟩ | ⟨htemplate, rfl⟩ <;>
        rw [hf.attribute?_tree, ← template?_of_find? hfound] at htemplate
      · obtain ⟨shares, hshares, hchildren⟩ := ih he
        refine ⟨_ :: shares, hshares.link hfound htemplate share, ?_⟩
        rw [List.reverse_cons, List.flatten_append, List.flatten_singleton, List.map_append,
          List.map_append, hchildren]
      · refine ⟨[_], inherited_last hfound htemplate share, ?_⟩
        rw [children_definitionOf, List.nil_append, List.reverse_singleton, List.flatten_singleton]

/-- The root is a definition that has nothing but children, and the children are the shares in
the chain of templates, that of the last one first. None is left out, comes twice or stands
elsewhere, and they differ at most in their marks. -/
structure Concatenates (lib : Library) (f : Forest) (depth : Nat) (id : String) (root : NodeId)
    (g : Forest) : Prop where
  kind : (g.get root).kind = .definition
  attributes : (g.get root).attributes = .empty
  chain : ∃ shares, lib.Inherited f depth id shares
  children : ∀ shares, lib.Inherited f depth id shares →
    (g.children root).map (fun child => (g.tree child).unmarked) =
      shares.reverse.flatten.map Tree.unmarked

theorem concatenates_of_buildNode (hf : f.WellFormed) (hl : lib.Within f) {root : NodeId}
    {uniform : Option NodeType} (h : lib.buildNode f depth id = .ok (root, uniform, g)) :
    lib.Concatenates f depth id root g := by
  have hg := wellFormed_of_buildNode hf hl h
  have resolved := resolve_of_buildNode hf hl h
  have bare := bare_of_resolve resolved
  obtain ⟨shares, hshares, hchildren⟩ := exists_inherited_of_resolve hf hl resolved
  dsimp only at bare hchildren
  obtain ⟨ts, htree⟩ : ∃ ts, g.tree root = definitionOf ts := by
    generalize g.tree root = t at bare
    obtain ⟨-⟩ := bare
    exact ⟨_, rfl⟩
  refine ⟨?_, ?_, ⟨shares, hshares⟩, fun shares' hshares' => ?_⟩
  · rw [← hg.kind_tree, htree]
    rfl
  · have attributes : (g.tree root).node.attributes = (g.get root).attributes := by
      rw [hg.tree_eq]
      rfl
    rw [← attributes, htree]
    rfl
  · rw [hshares'.unique hshares, ← hchildren, hg.children_tree, List.map_map]
    rfl

end Library

/-! ### Worlds -/

/-- Whatever is built in the world is put together along the templates. -/
def World.Inherits (w : World) : Prop :=
  ∀ lib ∈ w.libraries, ∀ depth id root uniform g,
    lib.buildNode w.forest depth id = .ok (root, uniform, g) →
      lib.Concatenates w.forest depth id root g

namespace World

theorem WellFormed.inherits {w : World} (hw : w.WellFormed) : w.Inherits :=
  fun lib hlib _ _ _ _ _ h =>
    Library.concatenates_of_buildNode hw.forest (hw.libraries lib hlib).within h

/-- In every world the children of an expansion are those of the last template, then those of
the template before it, and so on down to the definition's own. -/
theorem run_inherits (operations : List Operation) : (run empty operations).Inherits :=
  (wellFormed_run wellFormed_empty operations).inherits

end World

end IncidentReport
