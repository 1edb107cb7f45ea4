import IncidentReport.Resolution.Expansion

/-!
Reports made from expansions. Incidents go under the root; states go under one
incident. The type of the children decides, or that of the first child if they
differ.
-/

namespace IncidentReport

namespace Expansion

/-- A tree that goes under a node, if the schema permits it there. It is given the
id of the definition if it is of type `kind`. -/
def collected (kind : NodeType) (id : String) (parent : Node Tree) (t : Tree) :
    Except Violation Tree := do
  let t ← if t.kind = kind then t.setAttribute definitionAttribute id else .ok t
  parent.checkChild t.kind
  return t

/-- Puts trees under a node that has no children, up to the first that has no
place there. -/
def collect (kind : NodeType) (id : String) (parent : Node Tree) (ts : List Tree) :
    Except Violation (Node Tree) :=
  (ts.mapM (collected kind id parent)).map parent.withChildren

/-- The report that trees go to, those of type `kind` with the id. -/
def reportOf (kind : NodeType) (id : String) (ts : List Tree) : Except ResolveError Tree :=
  match kind with
  | .incident => ((collect .incident id (.new .report) ts).map Tree.mk).mapError .schema
  | .state => Except.mapError .schema do
    let incident ← collect .state id (.new .incident) ts
    return ⟨← (Node.new .report).addChild .incident ⟨incident⟩⟩
  | found => .error (.unsupported id found)

/-- The report made from the expansion of `id`. -/
def toReport (e : Expansion) (id : String) : Except ResolveError Tree :=
  match e.definition.children with
  | [] => .ok (.new .report)
  | first :: rest => reportOf (e.uniformType.getD first.kind) id (first :: rest)

end Expansion

namespace Definitions

/-- Expands a definition within a budget and makes a report from it. -/
def buildReport (defs : Definitions) (depth : Nat) (id : String) : Except ResolveError Tree := do
  (← defs.resolve depth id).toReport id

end Definitions

end IncidentReport
