import IncidentReport.Proofs.Isolation
import IncidentReport.Proofs.Resolution.Offers
import IncidentReport.Proofs.Resolution.Refinement
import IncidentReport.Proofs.Tree.RoundTrip

/-!
What attaching a node does, to the end or up to a violation. In every world, what the
node comes to is settled before it is known where it goes, and a parent that nothing
which is read leads to gets copies of the longest run of it that the parent permits.
-/

namespace IncidentReport

/-- Copies of these trees, made of new nodes, have come behind the children of a node,
and nothing else has changed. -/
structure Forest.Appended (f g : Forest) (parent : NodeId) (ts : List Tree) : Prop where
  around : f.KeepsAround g parent
  copies : ∃ new : List NodeId, (∀ id ∈ new, ¬ f.Has id) ∧
    g.children parent = f.children parent ++ new ∧ new.map g.tree = ts

/-- How a node is attached that comes to these trees and this violation. The parent
takes the trees up to the first that it does not permit; all goes well if it takes
every tree and no violation is behind them; else the first tree that is refused says
why, as if it were added on its own, or the violation behind the trees does. -/
structure Forest.Attached (f : Forest) (parent : NodeId) (o : Offer)
    (made : Forest × Option ResolveError) : Prop where
  appended : f.Appended made.1 parent (o.taken (f.get parent).kind)
  whole : made.2 = none ↔ o.taken (f.get parent).kind = o.trees ∧ o.violation? = none
  refused : ∀ t rest, o.trees = o.taken (f.get parent).kind ++ t :: rest →
    ∃ violation, (f.tree parent).node.addChild t.kind t = .error violation ∧
      made.2 = some (.schema violation)
  broken : o.taken (f.get parent).kind = o.trees → ∀ violation ∈ o.violation?,
    made.2 = some (.schema violation)

namespace Library

open Forest

variable {lib : Library} {f : Forest}

/-- What is attached are copies of what has been gathered. -/
theorem appended_of_mirrors {g : Forest} {parent : NodeId} {o : Offer} (hf : f.WellFormed)
    (hp : f.Has parent) (hg : Construction f (· = parent) (fun _ => False) g)
    (hm : Mirrors g parent ((Gathering.startingFrom (f.tree parent)).accept o).1) :
    f.Appended g parent (o.taken (f.get parent).kind) := by
  obtain ⟨others, new, hnew, hchildren, hget⟩ := hg.keepsAround hf hp
  -- The parent was open, but no child of it that was there before leads back to it.
  have old : (f.children parent).map g.tree = (f.children parent).map f.tree := by
    refine List.map_congr_left fun child hchild => ?_
    refine Shut.tree_eq ⟨hf.closed _ _ hchild, ?_⟩ hf hg
    rintro other ho rfl
    exact hf.not_reaches_of_hasChild hchild ho
  have trees := hm.trees
  rw [hchildren, List.map_append, old, Gathering.children_accept_startingFrom,
    hf.children_tree] at trees
  refine ⟨⟨others, new, hnew, hchildren, hget⟩, new, fun id hid => (hnew id hid).1, hchildren, ?_⟩
  rw [List.append_cancel_left trees, ← hf.kind_tree]

theorem attached_of_refusal? {made : Forest × Option ResolveError} {parent : NodeId} {o : Offer}
    (hf : f.WellFormed) (appended : f.Appended made.1 parent (o.taken (f.get parent).kind))
    (outcome : made.2 = (o.refusal? (f.get parent).kind).map .schema) :
    f.Attached parent o made where
  appended := appended
  whole := by rw [outcome, Option.map_eq_none_iff, Offer.refusal?_eq_none_iff]
  refused t rest hsplit := by
    have hleft : o.left (f.get parent).kind = t :: rest := by
      rw [← o.taken_append_left (f.get parent).kind] at hsplit
      exact List.append_cancel_left hsplit
    have hno : (f.tree parent).node.kind.permits t.kind = false := by
      have hfirst := List.head?_dropWhile_not (fun t => (f.get parent).kind.permits t.kind) o.trees
      rw [show o.trees.dropWhile _ = t :: rest from hleft, ← hf.kind_tree] at hfirst
      simpa [Tree.kind] using hfirst
    refine ⟨(f.get parent).kind.refusal t.kind, ?_, ?_⟩
    · rw [Node.addChild, Node.checkChild_eq, hno, ← hf.kind_tree]
      rfl
    · rw [outcome, Offer.refusal?, hleft]
      rfl
  broken htaken violation hviolation := by
    have hleft : o.left (f.get parent).kind = [] := by
      have hsplit := o.taken_append_left (f.get parent).kind
      rw [htaken] at hsplit
      exact List.append_right_eq_self.1 hsplit
    rw [outcome, Offer.refusal?, hleft, Option.mem_def.1 hviolation]
    rfl

/-- What has been gathered from an offer for the parent is what the parent has been given. -/
theorem attach_of_matches (hf : f.WellFormed) (hl : lib.Within f) {depth : Nat}
    {parent child : NodeId} (hp : f.Has parent) (hc : f.Has child) {o : Offer}
    (matched : Matches (lib.splice (depth - 1) parent child f) parent
      ((Gathering.startingFrom (f.tree parent)).accept o)) :
    f.Appended (lib.attach f depth parent child).1 parent (o.taken (f.get parent).kind) ∧
      (lib.attach f depth parent child).2 = (o.refusal? (f.get parent).kind).map .schema := by
  have built := (lib.attachWithin_builds depth f parent child hf hl hp hc).construction
  obtain ⟨mirrors, outcome⟩ := matched
  constructor
  · rw [attach_eq]
    exact appended_of_mirrors hf hp built mirrors
  · have kind : (f.tree parent).node.kind = (f.get parent).kind := hf.kind_tree parent
    rw [Gathering.accept, Gathering.startingFrom, kind] at outcome
    rw [attach, attachWithin]
    rcases hmade : lib.splice (depth - 1) parent child f with ⟨made, g⟩
    rw [hmade] at outcome
    obtain rfl := outcome
    cases o.refusal? (f.get parent).kind <;> rfl

/-- What a node comes to is gathered under a parent that nothing which is read leads to. -/
theorem attachWithin_matches (hf : f.WellFormed) (hl : lib.Within f) (depth : Nat)
    {parent child : NodeId} (hp : f.Has parent) (hc : f.Has child)
    (hchild : ¬ f.Reaches child parent)
    (hstored : ∀ id, ∀ found ∈ lib.find? id, ¬ f.Reaches found parent) :
    Matches (lib.attachWithin depth parent child f) parent
      ((Gathering.startingFrom (f.tree parent)).accept
        ((lib.definitions f).offer (depth - 1) (f.tree child))) := by
  have shut : ∀ id, f.Has id → ¬ f.Reaches id parent → Shut f (· = parent) id := by
    rintro id hid hno
    refine ⟨hid, ?_⟩
    rintro other ho rfl
    exact hno ho
  have unopened : lib.Unopened f (· = parent) := fun id found hfound =>
    shut found (hl id found hfound) (hstored id found hfound)
  have matched := (lib.expands_and_attaches_as (depth - 1)).2 f parent child _ hf unopened hp
    (shut child hc hchild) (.startingFrom hf rfl)
  dsimp only at matched
  rwa [Definitions.gather_eq_accept] at matched

theorem attach_attached (hf : f.WellFormed) (hl : lib.Within f) (depth : Nat)
    {parent child : NodeId} (hp : f.Has parent) (hc : f.Has child)
    (hchild : ¬ f.Reaches child parent)
    (hstored : ∀ id, ∀ found ∈ lib.find? id, ¬ f.Reaches found parent) :
    f.Attached parent ((lib.definitions f).offer (depth - 1) (f.tree child))
      (lib.attach f depth parent child) := by
  have matched := attachWithin_matches hf hl depth hp hc hchild hstored
  obtain ⟨appended, outcome⟩ := attach_of_matches hf hl hp hc matched
  exact attached_of_refusal? hf appended outcome

end Library

namespace World

/-- In every world, whatever the budget, attaching a node to a parent that neither the
node nor a definition leads to goes by what the node comes to, and this does not
depend on the parent. -/
theorem run_attached (operations : List Operation) {lib : Library}
    (hlib : lib ∈ (run empty operations).libraries) (depth : Nat) {child : NodeId}
    (hc : (run empty operations).forest.Has child) {parent : NodeId}
    (hp : (run empty operations).forest.Has parent)
    (hchild : ¬ (run empty operations).forest.Reaches child parent)
    (hstored : ∀ id, ∀ found ∈ lib.find? id,
      ¬ (run empty operations).forest.Reaches found parent) :
    let f := (run empty operations).forest
    f.Attached parent ((lib.definitions f).offer (depth - 1) (f.tree child))
      (lib.attach f depth parent child) := by
  have hw := wellFormed_run wellFormed_empty operations
  exact Library.attach_attached hw.forest (hw.libraries lib hlib).within depth hp hc hchild hstored

end World

/-- A report of a definition with children of two types. -/
def mixedReport : Markup.Element :=
  ⟨"report", [], [.element "definition" [("defines", "a")]
    [.element "state" [] [], .element "text" [] [], .element "state" [] []]]⟩

/-- Reads the report into a library, and makes an incident and a state that refers to
the definition. -/
def mixedCalls : List Operation :=
  [.newLibrary, .importText 0 mixedReport.printDocument, .newNode .incident,
    .newWithIdentity .state none (some "a") none]

/-- The library of the definition, and the forest that it is in. -/
def mixed : Library × Forest :=
  Library.empty.importAll .empty
    [⟨⟨.definition, .ofList [("defines", "a")],
      .children [⟨.new .state⟩, ⟨.new .text⟩, ⟨.new .state⟩]⟩⟩]

theorem run_mixedCalls :
    World.run .empty mixedCalls =
      ⟨((mixed.2.add (.new .incident)).2.add
        ⟨.state, .ofList [("definition", "a")], .children []⟩).2, [], [mixed.1]⟩ := by
  have hread : Report.parse mixedReport.printDocument = .ok _ :=
    (Report.parse_printDocument (by decide) (by decide)).trans rfl
  have hworld : World.run .empty [.newLibrary, .importText 0 mixedReport.printDocument] =
      ⟨mixed.2, [], [mixed.1]⟩ := World.run_importText hread
  show World.run (World.run .empty [.newLibrary, .importText 0 mixedReport.printDocument])
    [.newNode .incident, .newWithIdentity .state none (some "a") none] = _
  rw [hworld]
  rfl

/-- The definition is all that the library finds. -/
theorem find?_mixed (id : String) : mixed.1.find? id = if "a" = id then some ⟨3⟩ else none := by
  show (Library.filedUnder [("a", [⟨3⟩])] id).head? = _
  rw [Library.filedUnder]
  split_ifs <;> rfl

/-- The state that refers to the definition comes to the children of it. -/
theorem offer_mixed :
    (mixed.1.definitions (World.run .empty mixedCalls).forest).offer 1
        ((World.run .empty mixedCalls).forest.tree ⟨5⟩) =
      ⟨[.new .state, .new .text, .new .state], none⟩ := by
  rw [run_mixedCalls]
  generalize hf : World.forest _ = f
  unfold Library.definitions
  rw [funext f.tree_eq_unfold, ← hf]
  rfl

/-- An incident takes the first child of the definition, refuses the second, and never
comes to the third. -/
theorem run_attached_mixedReport :
    let w := World.run .empty mixedCalls
    ∃ lib ∈ w.libraries, w.forest.Has ⟨5⟩ ∧ w.forest.Has ⟨4⟩ ∧ ¬ w.forest.Reaches ⟨5⟩ ⟨4⟩ ∧
      (∀ id, ∀ found ∈ lib.find? id, ¬ w.forest.Reaches found ⟨4⟩) ∧
      w.forest.Appended (lib.attach w.forest 2 ⟨4⟩ ⟨5⟩).1 ⟨4⟩ [.new .state] ∧
      (lib.attach w.forest 2 ⟨4⟩ ⟨5⟩).2 = some (.schema (.childNotPermitted .incident .text)) := by
  intro w
  have hf : w.forest.WellFormed := (World.wellFormed_run World.wellFormed_empty mixedCalls).forest
  have hw : w = ⟨_, [], [mixed.1]⟩ := run_mixedCalls
  have hlib : mixed.1 ∈ w.libraries := by
    rw [hw]
    exact List.mem_singleton_self _
  have hc : w.forest.Has ⟨5⟩ := by rw [hw]; decide
  have hp : w.forest.Has ⟨4⟩ := by rw [hw]; decide
  have apart : ∀ {id}, w.forest.Has id → w.forest.contains id ⟨4⟩ = false →
      ¬ w.forest.Reaches id ⟨4⟩ := fun hid =>
    (Forest.contains_eq_false_iff hf.acyclic hf.closed hid).1
  have hchild : ¬ w.forest.Reaches ⟨5⟩ ⟨4⟩ := apart hc (by rw [hw]; rfl)
  have hstored : ∀ id, ∀ found ∈ mixed.1.find? id, ¬ w.forest.Reaches found ⟨4⟩ := by
    intro id found hfound
    rw [find?_mixed] at hfound
    split_ifs at hfound
    · obtain rfl : ⟨3⟩ = found := Option.some.inj hfound
      exact apart (by rw [hw]; decide) (by rw [hw]; rfl)
    · cases hfound
  have attached := World.run_attached mixedCalls hlib 2 hc hp hchild hstored
  dsimp only at attached
  rw [show 2 - 1 = 1 from rfl, offer_mixed] at attached
  have htaken : (Offer.mk [.new .state, .new .text, .new .state] none).taken
      (w.forest.get ⟨4⟩).kind = [.new .state] := by
    rw [hw]
    rfl
  obtain ⟨violation, hviolation, hmade⟩ := attached.refused (.new .text) [.new .state]
    (by rw [htaken]; rfl)
  have hkind : (w.forest.tree ⟨4⟩).node.kind = .incident := by
    refine (hf.kind_tree ⟨4⟩).trans ?_
    rw [hw]
    rfl
  rw [Node.addChild, Node.checkChild_eq, hkind] at hviolation
  cases hviolation
  refine ⟨mixed.1, hlib, hc, hp, hchild, hstored, ?_, hmade⟩
  exact htaken ▸ attached.appended

end IncidentReport
