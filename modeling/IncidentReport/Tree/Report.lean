import IncidentReport.Markup.Assembly
import IncidentReport.Markup.Print
import IncidentReport.Tree.Markup

/-!
Whole reports as trees: a report is a tree whose root has type `report`.
-/

namespace IncidentReport.Report

/-- The report that an element stands for. Its root is looked at last. -/
def ofElement (e : Markup.Element) : Except ParseError Tree := do
  let t ← Tree.ofElement e
  if t.kind = .report then return t else throw (.notAReport t.kind)

def parse (text : String) : Except ParseError Tree := do
  ofElement (← (Markup.Element.parse text).mapError .markup)

def print (t : Tree) : String :=
  t.toElement.printDocument

end IncidentReport.Report
