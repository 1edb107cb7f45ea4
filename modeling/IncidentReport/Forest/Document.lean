import IncidentReport.Forest.Plant
import IncidentReport.Tree.Report

/-!
Documents: reports whose nodes live in a forest. A document is no more than the
handle of its root, so an edit below the root is an edit of the document.
-/

namespace IncidentReport

/-- A report in a forest. -/
structure Document where
  /-- A node of type `report`. -/
  root : NodeId
  deriving DecidableEq, Repr, Inhabited

namespace Document

def plant (f : Forest) (report : Tree) : Document × Forest :=
  let (root, f) := f.plant report
  (⟨root⟩, f)

/-- Makes a report with the defaults and nothing in it. -/
def new (f : Forest) : Document × Forest :=
  plant f (.new .report)

def ofElement (f : Forest) (e : Markup.Element) : Except ParseError (Document × Forest) :=
  (Report.ofElement e).map (plant f)

def parse (f : Forest) (text : String) : Except ParseError (Document × Forest) :=
  (Report.parse text).map (plant f)

def print (d : Document) (f : Forest) : String :=
  Report.print (f.tree d.root)

def same (f : Forest) (a b : Document) : Bool :=
  f.same a.root b.root

end Document

end IncidentReport
