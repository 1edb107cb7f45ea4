import IncidentReport.Proofs.Attachment
import IncidentReport.Proofs.Copies

/-!
Changes to a node that is under no other one. Such a change does to the tree below the node
what it amounts to for that tree, and no other tree changes. On trees that are the same it
comes to the same end.
-/

namespace IncidentReport

open Forest

/-! ### Changes to trees -/

namespace Tree

variable {t u : Tree}

/-- The tree after an edit of its root, and the violation if the edit was refused. -/
def edited (t : Tree) (result : Except Violation (Node Tree)) : Tree × Option Violation :=
  match result with
  | .ok n => (⟨n⟩, none)
  | .error violation => (t, some violation)

/-- The tree with what its root takes of an offer, and why it does not take all. -/
def accept (t : Tree) (o : Offer) : Tree × Option Violation :=
  let (s, violation?) := (Gathering.startingFrom t).accept o
  (s.toTree, violation?)

/-- The trees are the same, and there is the same violation or none. -/
def SameEnd (left right : Tree × Option Violation) : Prop :=
  left.1.same right.1 = true ∧ left.2 = right.2

/-- An edit that comes to the same end on alike nodes comes to the same end on trees that
are the same. -/
theorem sameEnd_edited {change : Node Tree → Except Violation (Node Tree)}
    (h : t.same u = true) (amends : ∀ {n m}, change n = .ok m → n.Amends m)
    (alike : Agree Node.Alike (change t.node) (change u.node)) :
    SameEnd (t.edited (change t.node)) (u.edited (change u.node)) := by
  generalize hm : change t.node = x at alike ⊢
  generalize hn : change u.node = y at alike ⊢
  cases alike with
  | error violation => exact ⟨h, rfl⟩
  | ok alike =>
      have below := (same_iff.1 h).2
      rw [children, children, ← (amends hm).children, ← (amends hn).children] at below
      exact ⟨same_iff.2 ⟨alike, below⟩, rfl⟩

theorem sameEnd_accept (h : t.same u = true) (o : Offer) : SameEnd (t.accept o) (u.accept o) := by
  obtain ⟨alike, below⟩ := same_iff.1 h
  have kind : t.kind = u.kind := alike.kind
  have taken : List.Forall₂ (fun t u => t.same u = true)
      ((Gathering.startingFrom t).accept o).1.children
      ((Gathering.startingFrom u).accept o).1.children := by
    rw [Gathering.children_accept_startingFrom, Gathering.children_accept_startingFrom, kind]
    exact List.rel_append below (List.forall₂_same.2 fun t _ => same_refl t)
  exact ⟨same_withChildren alike taken, congrArg o.refusal? kind⟩

end Tree

/-! ### Changes to nodes -/

/-- A change that a node can be asked for. As in calls, a library is named by its place in
the world. -/
inductive Mutation where
  | setAttribute (name value : String)
  | addChild (child : NodeId)
  | setContent (content : String)
  | clearContent
  | addFragment (fragment : Markup.Node)
  | attach (library depth : Nat) (child : NodeId)

namespace Mutation

/-- The call by which a node is asked. -/
def on (m : Mutation) (id : NodeId) : Operation :=
  match m with
  | .setAttribute name value => .setAttribute id name value
  | .addChild child => .addChild id child
  | .setContent content => .setContent id content
  | .clearContent => .clearContent id
  | .addFragment fragment => .addFragment id fragment
  | .attach library depth child => .attach library depth id child

/-- The nodes that the call is given besides. -/
def given : Mutation → List NodeId
  | .addChild child | .attach _ _ child => [child]
  | .setAttribute _ _ | .setContent _ | .clearContent | .addFragment _ => []

/-- What the call does to the nodes, with its answer. -/
def call (m : Mutation) (libraries : List Library) (id : NodeId) : Call Unit :=
  match m with
  | .setAttribute name value => Call.edit (·.setAttribute id name value)
  | .addChild child => Call.edit (·.addChild id child)
  | .setContent content => Call.edit (·.setContent id content)
  | .clearContent => Call.edit (·.clearContent id)
  | .addFragment fragment => Call.edit (·.addFragment id fragment)
  | .attach library depth child =>
    match libraries[library]? with
    | some lib => lib.attachWithin depth id child
    | none => pure ()

/-- What the call amounts to for a tree. What it is given besides is looked up in the
world. -/
def onTree (m : Mutation) (w : World) (t : Tree) : Tree × Option Violation :=
  match m with
  | .setAttribute name value => t.edited (t.node.setAttribute name value)
  | .addChild child => t.accept (.ofTree (w.forest.tree child))
  | .setContent content => t.edited (t.node.setContent content)
  | .clearContent => t.edited t.node.clearContent
  | .addFragment fragment => t.edited (t.node.addFragment fragment)
  | .attach library depth child =>
    match w.libraries[library]? with
    | some lib => t.accept ((lib.definitions w.forest).offer (depth - 1) (w.forest.tree child))
    | none => (t, none)

variable (m : Mutation) (id : NodeId)

theorem handles_on : (m.on id).handles = id :: m.given := by
  cases m <;> rfl

theorem target?_on : (m.on id).target? = some id := by
  cases m <;> rfl

/-- On trees that are the same it comes to the same end. -/
theorem sameEnd_onTree (w : World) {t u : Tree} (h : t.same u = true) :
    Tree.SameEnd (m.onTree w t) (m.onTree w u) := by
  have alike := (Tree.same_iff.1 h).1
  cases m with
  | setAttribute name value =>
      exact Tree.sameEnd_edited h Node.amends_setAttribute (alike.setAttribute name value)
  | addChild child => exact Tree.sameEnd_accept h _
  | setContent content =>
      exact Tree.sameEnd_edited h Node.amends_replaceContent (alike.replaceContent _)
  | clearContent => exact Tree.sameEnd_edited h Node.amends_replaceContent (alike.replaceContent _)
  | addFragment fragment =>
      exact Tree.sameEnd_edited h Node.amends_addFragment (alike.addFragment fragment)
  | attach library depth child =>
      rw [onTree, onTree]
      split
      · exact Tree.sameEnd_accept h _
      · exact ⟨h, rfl⟩

end Mutation

/-! ### One change -/

/-- The call does to the tree below the node what is done to the tree here, and answers
accordingly. -/
structure Call.ActsOn (id : NodeId) (made : Except ResolveError Unit × Forest)
    (done : Tree × Option Violation) : Prop where
  tree : made.2.tree id = done.1
  answer : made.1 = match done.2 with
    | none => .ok ()
    | some violation => .error (.schema violation)

theorem Library.Matches.actsOn {made : Except ResolveError Unit × Forest} {id : NodeId}
    {taken : Gathering × Option Violation} (h : Library.Matches made id taken)
    (hg : made.2.WellFormed) : Call.ActsOn id made (taken.1.toTree, taken.2) :=
  ⟨h.mirrors.tree hg, h.outcome⟩

theorem Call.actsOn_edit {f : Forest} (hf : f.WellFormed) {id : NodeId} (hid : f.Has id)
    (change : ∀ χ : Type, Node χ → Except Violation (Node χ))
    (amends : ∀ {n m}, change NodeId n = .ok m → n.Amends m)
    (commutes : ∀ (n : Node NodeId) (ts : List Tree),
      change Tree (n.withChildren ts) = (change NodeId n).map (·.withChildren ts)) :
    ActsOn id (Call.edit (·.edit id (change NodeId)) f)
      ((f.tree id).edited (change Tree (f.tree id).node)) := by
  have same := edit_tree hf hid change amends commutes
  rw [Call.edit]
  generalize f.edit id (change NodeId) = made at same ⊢
  generalize change Tree (f.tree id).node = result at same ⊢
  cases made <;> cases result
  case ok.ok g n => exact ⟨Except.ok.inj same, rfl⟩
  case error.error =>
    cases same
    exact ⟨rfl, rfl⟩
  all_goals cases same

namespace World

variable {w : World} {m : Mutation} {id other : NodeId}

/-- The node is under no other one, and no library holds it. -/
structure Topmost (w : World) (id : NodeId) : Prop where
  has : w.forest.Has id
  parents : ∀ parent, ¬ w.forest.HasChild parent id
  held : ¬ w.Holds id

theorem Topmost.not_reaches (h : w.Topmost id) (hne : other ≠ id) :
    ¬ w.forest.Reaches other id := by
  intro hr
  rcases hr.cases_tail with rfl | ⟨parent, -, hstep⟩
  · exact hne rfl
  · exact h.parents parent hstep

theorem Topmost.ne_of_find? (h : w.Topmost id) {library : Nat} {lib : Library}
    (hlib : w.libraries[library]? = some lib) : ∀ key, ∀ found ∈ lib.find? key, found ≠ id := by
  rintro key found hfound rfl
  exact h.held ⟨lib, List.mem_of_getElem? hlib, Library.mem_nodes_of_find? hfound⟩

theorem libraries_perform_on (w : World) (m : Mutation) (id : NodeId) :
    (w.perform (m.on id)).libraries = w.libraries := by
  rw [perform]
  split
  · cases m with
    | attach library depth child =>
        rw [Mutation.on, effect]
        split <;> rfl
    | _ => exact libraries_edited _
  · rfl

theorem forest_perform_on (hid : w.forest.Has id) (hgiven : ∀ child ∈ m.given, w.forest.Has child) :
    (w.perform (m.on id)).forest = (m.call w.libraries id w.forest).2 := by
  have edited : ∀ change : Forest → Except Violation Forest,
      (w.edited (change w.forest)).forest = (Call.edit change w.forest).2 := by
    intro change
    rw [Call.edit]
    cases change w.forest <;> rfl
  have hhas : ∀ node ∈ (m.on id).handles, w.forest.Has node := by
    rw [m.handles_on]
    exact List.forall_mem_cons.2 ⟨hid, hgiven⟩
  rw [perform_of_forall_has hhas]
  cases m with
  | setAttribute name value => exact edited (·.setAttribute id name value)
  | addChild child => exact edited (·.addChild id child)
  | setContent content => exact edited (·.setContent id content)
  | clearContent => exact edited (·.clearContent id)
  | addFragment fragment => exact edited (·.addFragment id fragment)
  | attach library depth child =>
      rw [Mutation.on, effect, Mutation.call]
      cases w.libraries[library]? with
      | none => rfl
      | some lib => exact lib.attach_eq w.forest depth id child

theorem call_actsOn (hw : w.WellFormed) (h : w.Topmost id)
    (hgiven : ∀ child ∈ m.given, w.forest.Has child ∧ child ≠ id) :
    Call.ActsOn id (m.call w.libraries id w.forest) (m.onTree w (w.forest.tree id)) := by
  have hf := hw.forest
  have hg : (m.call w.libraries id w.forest).2.WellFormed := by
    rw [← forest_perform_on h.has fun child hchild => (hgiven child hchild).1]
    exact (wellFormed_perform hw _).forest
  cases m with
  | setAttribute name value =>
      exact Call.actsOn_edit hf h.has (fun _ n => n.setAttribute name value)
        Node.amends_setAttribute fun n ts => n.setAttribute_withChildren ts name value
  | addChild child =>
      obtain ⟨hc, hne⟩ := hgiven child List.mem_cons_self
      have matched := Library.edit_addChild_matches hf (.startingFrom hf rfl) h.has hc
        (h.not_reaches hne)
      rw [← Gathering.accept_ofTree] at matched
      exact matched.actsOn hg
  | setContent content =>
      exact Call.actsOn_edit hf h.has (fun _ n => n.setContent content)
        Node.amends_replaceContent fun n ts => n.replaceContent_withChildren ts _
  | clearContent =>
      exact Call.actsOn_edit hf h.has (fun _ n => n.clearContent)
        Node.amends_replaceContent fun n ts => n.replaceContent_withChildren ts _
  | addFragment fragment =>
      exact Call.actsOn_edit hf h.has (fun _ n => n.addFragment fragment)
        Node.amends_addFragment fun n ts => n.addFragment_withChildren ts fragment
  | attach library depth child =>
      obtain ⟨hc, hne⟩ := hgiven child List.mem_cons_self
      rw [Mutation.call] at hg ⊢
      rw [Mutation.onTree]
      cases hlib : w.libraries[library]? with
      | none => exact ⟨rfl, rfl⟩
      | some lib =>
          rw [hlib] at hg
          exact (Library.attachWithin_matches hf (hw.within hlib) depth h.has hc
            (h.not_reaches hne) fun key found hfound =>
              h.not_reaches (h.ne_of_find? hlib key found hfound)).actsOn hg

theorem tree_perform_on (hw : w.WellFormed) (h : w.Topmost id)
    (hgiven : ∀ child ∈ m.given, w.forest.Has child ∧ child ≠ id) :
    (w.perform (m.on id)).forest.tree id = (m.onTree w (w.forest.tree id)).1 := by
  rw [forest_perform_on h.has fun child hchild => (hgiven child hchild).1]
  exact (call_actsOn hw h hgiven).tree

/-- A call on a node that is under no other one leaves all others as they are. -/
theorem Topmost.stays (h : w.Topmost id) (hw : w.WellFormed) (m : Mutation)
    (hother : w.forest.Has other) (hne : other ≠ id) :
    Stays w.forest (w.perform (m.on id)).forest other := by
  refine stays_perform hw hother fun target htarget => ?_
  rw [m.target?_on, Option.mem_some_iff] at htarget
  exact htarget ▸ h.not_reaches hne

/-- A node stays under no other one, if the call is not given it. -/
theorem Topmost.perform (h : w.Topmost id) (hw : w.WellFormed) (hno : id ∉ m.given) :
    (w.perform (m.on other)).Topmost id := by
  have changes := hw.perform_changes (m.on other)
  refine ⟨changes.has h.has, fun parent hstep => ?_, ?_⟩
  · rcases changes.parents h.has hstep with hstep | ⟨htarget, hgiven⟩
    · exact h.parents parent hstep
    · rw [m.target?_on, Option.some.injEq] at htarget
      rw [m.handles_on, List.mem_cons] at hgiven
      obtain rfl := hgiven.resolve_right hno
      subst htarget
      exact (wellFormed_perform hw _).forest.acyclic _ (.single hstep)
  · rw [Holds, libraries_perform_on]
    exact h.held

/-- What a call amounts to for a tree is the same after it has been made. -/
theorem onTree_perform (hw : w.WellFormed) (h : w.Topmost id)
    (hgiven : ∀ child ∈ m.given, w.forest.Has child ∧ child ≠ id) (t : Tree) :
    m.onTree (w.perform (m.on id)) t = m.onTree w t := by
  have kept : ∀ other, w.forest.Has other → other ≠ id →
      (w.perform (m.on id)).forest.tree other = w.forest.tree other :=
    fun other hother hne => (h.stays hw m hother hne).tree
  have libraries := w.libraries_perform_on m id
  generalize w.perform (m.on id) = after at kept libraries
  cases m with
  | setAttribute | setContent | clearContent | addFragment => rfl
  | addChild child =>
      obtain ⟨hc, hne⟩ := hgiven child List.mem_cons_self
      rw [Mutation.onTree, Mutation.onTree, kept child hc hne]
  | attach library depth child =>
      obtain ⟨hc, hne⟩ := hgiven child List.mem_cons_self
      rw [Mutation.onTree, Mutation.onTree, libraries, kept child hc hne]
      cases hlib : w.libraries[library]? with
      | none => rfl
      | some lib =>
          have definitions : lib.definitions after.forest = lib.definitions w.forest := by
            funext key
            refine Option.map_congr fun found hfound => ?_
            exact kept found (hw.within hlib key found hfound) (h.ne_of_find? hlib key found hfound)
          dsimp only
          rw [definitions]

end World

end IncidentReport
