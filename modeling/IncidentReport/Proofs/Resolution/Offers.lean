import IncidentReport.Proofs.Node.Valid
import IncidentReport.Resolution.Expansion

/-!
What a tree comes to when it is attached, said without the node that it is attached to.
It is a list of trees, behind which a violation may stand. Whoever gathers the tree takes
the longest run of these trees that it permits, and the first refusal, or else the
violation behind them, ends the gathering.
-/

namespace IncidentReport

/-- What a tree comes to wherever it is gathered: trees, in order, and the violation
behind them if what would come next could not be expanded. -/
structure Offer where
  trees : List Tree
  violation? : Option Violation

namespace Offer

def nothing : Offer :=
  ⟨[], none⟩

def ofTree (t : Tree) : Offer :=
  ⟨[t], none⟩

def failure (violation : Violation) : Offer :=
  ⟨[], some violation⟩

/-- One offer behind another. Nothing comes behind a violation. -/
def append (a b : Offer) : Offer :=
  if a.violation?.isSome then a else ⟨a.trees ++ b.trees, b.violation?⟩

/-- The offers of some trees, one behind the other. -/
def concat (offer : Tree → Offer) (ts : List Tree) : Offer :=
  ts.foldr (fun t rest => (offer t).append rest) nothing

/-- The trees that a node of this type takes: the longest run from the first on of
those that it permits. -/
def taken (o : Offer) (kind : NodeType) : List Tree :=
  o.trees.takeWhile fun t => kind.permits t.kind

/-- The trees that are left over. -/
def left (o : Offer) (kind : NodeType) : List Tree :=
  o.trees.dropWhile fun t => kind.permits t.kind

/-- Why a node of this type does not take the whole offer, if it does not. -/
def refusal? (o : Offer) (kind : NodeType) : Option Violation :=
  match o.left kind with
  | [] => o.violation?
  | t :: _ => some (kind.refusal t.kind)

theorem taken_append_left (o : Offer) (kind : NodeType) : o.taken kind ++ o.left kind = o.trees :=
  List.takeWhile_append_dropWhile

/-- A node takes the whole offer if and only if it permits all of the trees and no
violation is behind them. -/
theorem refusal?_eq_none_iff {o : Offer} {kind : NodeType} :
    o.refusal? kind = none ↔ o.taken kind = o.trees ∧ o.violation? = none := by
  have hsplit := o.taken_append_left kind
  rw [refusal?]
  cases hleft : o.left kind with
  | nil =>
      rw [hleft, List.append_nil] at hsplit
      simp [hsplit]
  | cons t ts =>
      rw [hleft] at hsplit
      simp [← hsplit]

theorem taken_ofTree (t : Tree) (kind : NodeType) :
    (ofTree t).taken kind = if kind.permits t.kind then [t] else [] := by
  rw [taken, ofTree, List.takeWhile_cons, List.takeWhile_nil]

theorem refusal?_ofTree (t : Tree) (kind : NodeType) :
    (ofTree t).refusal? kind = if kind.permits t.kind then none else some (kind.refusal t.kind) := by
  rw [refusal?, left, ofTree, List.dropWhile_cons, List.dropWhile_nil]
  cases kind.permits t.kind <;> rfl

end Offer

namespace Gathering

/-- Takes the trees of an offer, up to the first that is refused. -/
def accept (g : Gathering) (o : Offer) : Gathering × Option Violation :=
  ({ g with gathered := (o.taken g.parent.kind).reverse ++ g.gathered },
    o.refusal? g.parent.kind)

/-- What is taken comes behind the children that are there. -/
theorem children_accept_startingFrom (t : Tree) (o : Offer) :
    ((startingFrom t).accept o).1.children = t.children ++ o.taken t.kind := by
  rw [accept, startingFrom, children, List.reverse_append, List.reverse_reverse,
    List.reverse_reverse]
  rfl

/-- The first tree is taken, or it is refused and with it all that is behind it. -/
theorem accept_cons (g : Gathering) (t : Tree) (ts : List Tree) (violation? : Option Violation) :
    g.accept ⟨t :: ts, violation?⟩ =
      match g.take t with
      | (s, none) => s.accept ⟨ts, violation?⟩
      | (s, some violation) => (s, some violation) := by
  rw [take, Node.checkChild_eq]
  by_cases hp : g.parent.kind.permits t.kind <;>
    simp [accept, Offer.refusal?, Offer.left, Offer.taken, hp]

theorem accept_ofTree (g : Gathering) (t : Tree) : g.accept (.ofTree t) = g.take t := by
  rw [Offer.ofTree, accept_cons]
  rcases g.take t with ⟨s, _ | violation⟩ <;> rfl

/-- An offer behind another one is come to if all of the first is taken. -/
theorem accept_append (g : Gathering) (a b : Offer) :
    g.accept (a.append b) =
      match g.accept a with
      | (s, none) => s.accept b
      | (s, some violation) => (s, some violation) := by
  obtain ⟨ts, violation?⟩ := a
  cases violation? with
  | some violation =>
      rw [show Offer.append ⟨ts, some violation⟩ b = ⟨ts, some violation⟩ from rfl]
      obtain ⟨other, hother⟩ : ∃ other, (g.accept ⟨ts, some violation⟩).2 = some other := by
        rw [accept, Offer.refusal?]
        split
        · exact ⟨_, rfl⟩
        · exact ⟨_, rfl⟩
      rcases h : g.accept ⟨ts, some violation⟩ with ⟨s, refusal?⟩
      rw [h] at hother
      obtain rfl : refusal? = some other := hother
      rfl
  | none =>
      rw [show Offer.append ⟨ts, none⟩ b = ⟨ts ++ b.trees, b.violation?⟩ from rfl]
      induction ts generalizing g with
      | nil => rfl
      | cons t ts ih =>
          rw [List.cons_append, accept_cons, accept_cons]
          rcases g.take t with ⟨s, _ | violation⟩
          · exact ih s
          · rfl

/-- Gathering trees one after the other comes to accepting their offers. -/
theorem forEachTree_eq_accept {act : Gathering → Tree → Gathering × Option Violation}
    {offer : Tree → Offer} (h : ∀ t g, act g t = g.accept (offer t)) (g : Gathering)
    (ts : List Tree) : forEachTree act g ts = g.accept (.concat offer ts) := by
  induction ts generalizing g with
  | nil => rfl
  | cons t ts ih =>
      rw [forEachTree, h, show Offer.concat offer (t :: ts) =
        (offer t).append (.concat offer ts) from rfl, accept_append]
      rcases g.accept (offer t) with ⟨s, _ | violation⟩
      · exact ih s
      · rfl

end Gathering

namespace Definitions

/-- What a tree comes to with `spare` units to spend on what it refers to. The offers of
the children of the definition that it refers to take its place; if there is none, the
tree is offered with what its own children come to, as far as it takes that. -/
def offer (defs : Definitions) : Nat → Tree → Offer
  | 0, t => .ofTree t
  | spare + 1, t =>
    match (t.attribute? definitionAttribute).bind fun id =>
      (defs.resolve (spare + 1) id).toOption with
    | some expansion => .concat (defs.offer spare) expansion.definition.children
    | none =>
      let inside := Offer.concat (defs.offer spare) t.children
      match inside.refusal? t.kind with
      | some violation => .failure violation
      | none => .ofTree ⟨t.node.withChildren inside.trees⟩

/-- Whoever gathers a tree accepts what the tree comes to. -/
theorem gather_eq_accept (defs : Definitions) (spare : Nat) (g : Gathering) (t : Tree) :
    defs.gather spare g t = g.accept (defs.offer spare t) := by
  induction spare generalizing g t with
  | zero => exact (g.accept_ofTree t).symm
  | succ spare ih =>
      have gathered : ∀ (s : Gathering) (ts : List Tree),
          forEachTree (defs.gather spare) s ts = s.accept (.concat (defs.offer spare) ts) :=
        fun s ts => Gathering.forEachTree_eq_accept (fun t g => ih g t) s ts
      rw [gather_succ, gatherWith_eq, offer]
      cases (t.attribute? definitionAttribute).bind fun id =>
        (defs.resolve (spare + 1) id).toOption with
      | some expansion => exact gathered g expansion.definition.children
      | none =>
          -- What stands inside is gathered on the node without its children.
          rw [Option.elim_none, gatherAlone, gathered]
          dsimp only
          generalize Offer.concat (defs.offer spare) t.children = inside
          have accepted : (⟨t.node, []⟩ : Gathering).accept inside =
              (⟨t.node, (inside.taken t.kind).reverse⟩, inside.refusal? t.kind) := by
            rw [Gathering.accept, List.append_nil]
            rfl
          rw [accepted]
          cases hrefusal : inside.refusal? t.kind with
          | some violation => rfl
          | none =>
              dsimp only
              rw [Gathering.accept_ofTree, Gathering.toTree, Gathering.children,
                List.reverse_reverse, (Offer.refusal?_eq_none_iff.1 hrefusal).1]

end Definitions

end IncidentReport
