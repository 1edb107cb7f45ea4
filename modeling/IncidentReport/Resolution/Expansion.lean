import IncidentReport.Resolution.Error
import IncidentReport.Tree.Basic

/-!
The expansion of a definition. A definition inherits the children of its
template, and a child that refers to a definition is replaced by the children of
that definition. Each template and each reference spends a unit of a budget, so
that definitions which lead back to themselves come to an end.

A failure of a template is a failure of the definition; a reference that cannot
be followed leaves the child as it is.
-/

namespace IncidentReport

/-- The definitions to resolve against. -/
abbrev Definitions := String → Option Tree

/-- A definition with its children expanded. -/
structure Expansion where
  /-- A new definition that holds the expanded children. -/
  definition : Tree
  /-- The type that all its children have, if there is one. -/
  uniformType : Option NodeType

/-- Does something with every tree of a list, up to the first violation. What was
done before stays done. -/
def forEachTree {σ : Type} (act : σ → Tree → σ × Option Violation) (s : σ) :
    List Tree → σ × Option Violation
  | [] => (s, none)
  | t :: ts =>
    match act s t with
    | (s, none) => forEachTree act s ts
    | (s, some violation) => (s, some violation)

/-- A new node whose children are being gathered. -/
structure Gathering where
  parent : Node Tree
  /-- The children so far, last first. -/
  gathered : List Tree

namespace Gathering

def children (g : Gathering) : List Tree :=
  g.gathered.reverse

def toTree (g : Gathering) : Tree :=
  ⟨g.parent.withChildren g.children⟩

/-- Gathers children under a node on top of those that it has. -/
def startingFrom (t : Tree) : Gathering :=
  ⟨t.node, t.children.reverse⟩

/-- Takes a tree as it is, if the schema permits it as a child. A refusal leaves
the children as they were. -/
def take (g : Gathering) (t : Tree) : Gathering × Option Violation :=
  match g.parent.checkChild t.kind with
  | .ok _ => ({ g with gathered := t :: g.gathered }, none)
  | .error violation => (g, some violation)

end Gathering

namespace Definitions

/-- Marks children of one type with the id that they were expanded from. Children
of several types are left as they are. -/
def stamp (id : String) (ts : List Tree) : Except Violation (List Tree) :=
  match uniformType? ts with
  | some _ => ts.mapM (·.setAttribute provenanceAttribute id)
  | none => .ok ts

/-- The tree that the children of a definition are gathered on: what the template
expands to, or a new definition. -/
def basis (inherit : String → Except ResolveError Expansion) (found : Tree) :
    Except ResolveError Tree :=
  match found.attribute? templateAttribute with
  | some template => (inherit template).map Expansion.definition
  | none => .ok (.new .definition)

/-- The expansion of `id`, given the children that have been gathered for it. -/
def complete (id : String) (g : Gathering) : Except ResolveError Expansion :=
  ((stamp id g.children).mapError .schema).map fun children =>
    ⟨⟨g.parent.withChildren children⟩, uniformType? g.children⟩

/-- Expands a definition, given how a template is expanded and how a child is
gathered. -/
def expandWith (defs : Definitions) (inherit : String → Except ResolveError Expansion)
    (gather : Gathering → Tree → Gathering × Option Violation) (id : String) :
    Except ResolveError Expansion :=
  match defs id with
  | none => .error (.notFound id)
  | some found => do
    let start ← basis inherit found
    match forEachTree gather (.startingFrom start) found.children with
    | (_, some violation) => throw (.schema violation)
    | (g, none) => complete id g

/-- Gathers what a tree expands to, given how references are followed and how trees
are gathered further down. The children of the definition that the tree refers to
take its place; if there is none, the tree is gathered with its own children
expanded. -/
def gatherWith (follow : String → Except ResolveError Expansion)
    (gather : Gathering → Tree → Gathering × Option Violation) (g : Gathering) (t : Tree) :
    Gathering × Option Violation :=
  match (t.attribute? definitionAttribute).bind fun id => (follow id).toOption with
  | some expansion => forEachTree gather g expansion.definition.children
  | none =>
    match forEachTree gather ⟨t.node, []⟩ t.children with
    | (_, some violation) => (g, some violation)
    | (expanded, none) => g.take expanded.toTree

mutual

/-- Expands a definition within a budget. -/
def resolve (defs : Definitions) : Nat → String → Except ResolveError Expansion
  | 0, id => .error (.depthExhausted id)
  | depth + 1, id => expandWith defs (resolve defs depth) (gather defs depth) id

/-- Gathers the expansion of a tree, with `spare` units to spend on what the tree
refers to. Without any the tree is taken as it is. -/
def gather (defs : Definitions) : Nat → Gathering → Tree → Gathering × Option Violation
  | 0, g, t => g.take t
  | spare + 1, g, t =>
    gatherWith (expandWith defs (resolve defs spare) (gather defs spare)) (gather defs spare) g t

end

/-- Gathers a tree with its own children expanded, whatever it refers to. -/
def gatherAlone (gather : Gathering → Tree → Gathering × Option Violation) (g : Gathering)
    (t : Tree) : Gathering × Option Violation :=
  match forEachTree gather ⟨t.node, []⟩ t.children with
  | (_, some violation) => (g, some violation)
  | (expanded, none) => g.take expanded.toTree

theorem gatherWith_eq (follow : String → Except ResolveError Expansion)
    (gather : Gathering → Tree → Gathering × Option Violation) (g : Gathering) (t : Tree) :
    gatherWith follow gather g t =
      ((t.attribute? definitionAttribute).bind fun id => (follow id).toOption).elim
        (gatherAlone gather g t) fun e => forEachTree gather g e.definition.children := by
  rw [gatherWith]
  cases (t.attribute? definitionAttribute).bind fun id => (follow id).toOption <;> rfl

/-- A reference is followed with one unit less than the tree that holds it has. -/
theorem gather_succ (defs : Definitions) (spare : Nat) :
    gather defs (spare + 1) = gatherWith (resolve defs (spare + 1)) (gather defs spare) := by
  funext g t
  simp only [gather, resolve]

end Definitions

end IncidentReport
