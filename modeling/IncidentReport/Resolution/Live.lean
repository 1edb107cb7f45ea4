import IncidentReport.Library
import IncidentReport.Resolution.Call
import IncidentReport.Resolution.Report

/-!
Resolution against a library whose definitions are nodes of a forest. It works on
handles: it reads the definitions where they stand, and copies, marks and attaches
nodes one at a time. An expansion may also be attached to a node that is there
already, even one inside a definition, and each step then sees what the steps
before it attached.
-/

namespace IncidentReport

namespace Library

open Call

/-- The root of an expansion and the type that its children have, if there is one. -/
abbrev Resolved := NodeId × Option NodeType

/-- The definitions as they stand in the forest. -/
def definitions (lib : Library) (f : Forest) : Definitions :=
  fun id => (lib.find? id).map f.tree

/-- Makes the node that the children of a definition go to: a copy of what the
template expands to, or a new definition. -/
def basis (inherit : String → Call Resolved) (found : NodeId) : Call NodeId := do
  match ← look fun f => (f.get found).attribute? templateAttribute with
  | some template =>
    let (root, _) ← inherit template
    make (·.copy root)
  | none => make (·.add (.new .definition))

/-- Marks children of one type with the id that they were expanded from, and
returns the type. Children of several types are left as they are. -/
def mark (id : String) (root : NodeId) : Call (Option NodeType) := do
  let children ← look (·.children root)
  let uniform ← look fun f => NodeType.common? (children.map fun child => (f.get child).kind)
  if uniform.isSome then
    forEach (fun child => edit (·.setAttribute child provenanceAttribute id)) children
  return uniform

/-- Expands a definition, given how a template is expanded and how a child is
attached. -/
def expandWith (lib : Library) (inherit : String → Call Resolved)
    (attach : NodeId → NodeId → Call Unit) (id : String) : Call Resolved := do
  match lib.find? id with
  | none => fail (.notFound id)
  | some found =>
    let root ← basis inherit found
    forEach (attach root) (← look (·.children found))
    return (root, ← mark id root)

/-- Expands the definition that a node refers to, if it does and this succeeds. -/
def follow? (expand : String → Call Resolved) (child : NodeId) : Call (Option Resolved) := do
  match ← look fun f => (f.get child).attribute? definitionAttribute with
  | some id => attempt (expand id)
  | none => return none

/-- Attaches what a node expands to, given how references are followed and how
nodes are attached further down. Copies of the children of the definition that the
node refers to take its place; if there is none, a copy of the node is attached
with its own children expanded. -/
def attachWith (expand : String → Call Resolved) (attach : NodeId → NodeId → Call Unit)
    (parent child : NodeId) : Call Unit := do
  match ← follow? expand child with
  | some (root, _) => forEach (attach parent) (← look (·.children root))
  | none =>
    let copy ← make (·.copyAlone child)
    forEach (attach copy) (← look (·.children child))
    edit (·.addChild parent copy)

mutual

/-- Expands a definition within a budget. -/
def expand (lib : Library) : Nat → String → Call Resolved
  | 0, id => fail (.depthExhausted id)
  | depth + 1, id => lib.expandWith (expand lib depth) (splice lib depth) id

/-- Attaches the expansion of a node, with `spare` units to spend on what the node
refers to. Without any a copy of the node is attached as it is. -/
def splice (lib : Library) : Nat → NodeId → NodeId → Call Unit
  | 0, parent, child => do
    let copy ← make (·.copy child)
    edit (·.addChild parent copy)
  | spare + 1, parent, child =>
    attachWith (lib.expandWith (expand lib spare) (splice lib spare)) (splice lib spare)
      parent child

end

/-- A reference is followed with one unit less than the node that holds it has. -/
theorem splice_succ (lib : Library) (spare : Nat) :
    lib.splice (spare + 1) = attachWith (lib.expand (spare + 1)) (lib.splice spare) := by
  funext parent child
  simp only [splice, expand]

/-- Attaches the expansion of a node within a budget, the first unit of which goes
to the node itself. -/
def attachWithin (lib : Library) (depth : Nat) (parent child : NodeId) : Call Unit :=
  lib.splice (depth - 1) parent child

/-- Makes the node of a new report that nodes of type `kind` go to. -/
def reportPlace (report : Document) (id : String) : NodeType → Call NodeId
  | .incident => return report.root
  | .state => do
    let incident ← make (·.add (.new .incident))
    edit (·.addChild report.root incident)
    return incident
  | found => fail (.unsupported id found)

/-- Puts a node into a report. One of type `kind` is given the id of the
definition. -/
def collect (kind : NodeType) (id : String) (place child : NodeId) : Call Unit := do
  if (← look fun f => (f.get child).kind) = kind then
    edit (·.setAttribute child definitionAttribute id)
  edit (·.addChild place child)

/-- Expands a definition and moves the expanded children into a new report. -/
def assemble (lib : Library) (depth : Nat) (id : String) : Call Document := do
  let (root, uniform) ← lib.expand depth id
  match ← look (·.children root) with
  | [] => make Document.new
  | first :: rest =>
    let kind ← look fun f => uniform.getD (f.get first).kind
    let report ← make Document.new
    let place ← reportPlace report id kind
    forEach (collect kind id place) (first :: rest)
    return report

/-- Expands a definition into new nodes. Returns the root, the type that its
children have, and the forest with them. -/
def buildNode (lib : Library) (f : Forest) (depth : Nat) (id : String) :
    Except ResolveError (NodeId × Option NodeType × Forest) :=
  match lib.expand depth id f with
  | (.ok (root, uniform), f) => .ok (root, uniform, f)
  | (.error e, _) => .error e

/-- Builds a report from a definition out of new nodes. -/
def buildReport (lib : Library) (f : Forest) (depth : Nat) (id : String) :
    Except ResolveError (Document × Forest) :=
  match lib.assemble depth id f with
  | (.ok report, f) => .ok (report, f)
  | (.error e, _) => .error e

/-- Attaches the expansion of a node under another one. What was attached before
a violation stays. -/
def attach (lib : Library) (f : Forest) (depth : Nat) (parent child : NodeId) :
    Forest × Option ResolveError :=
  match lib.attachWithin depth parent child f with
  | (.ok _, f) => (f, none)
  | (.error e, f) => (f, some e)

end Library

end IncidentReport
