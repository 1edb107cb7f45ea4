import IncidentReport.Forest.Document
import IncidentReport.Forest.Edit

/-!
A sample report, and short ways to make small nodes.
-/

namespace IncidentReport.Sample

/-- A complete report with nodes of most types. -/
def reportText : String :=
  r#"<?xml version="1.0" encoding="UTF-8"?>
<report xmlns="http://icecast.org/specs/reportxml-0.0.1" version="0.0.1">
    <incident id="i1" definition="not-found">
        <state>
            <text lang="en">File not found</text>
            <timestamp absolute="2018-06-05T14:00:00Z"/>
            <backtrace>
                <position function="main" filename="main.c" line="42" offset="0x1f"/>
                <more/>
            </backtrace>
        </state>
        <resource type="manipulation-target" name="path">
            <value member="path" type="string" value="/tmp/x"/>
        </resource>
        <reason>
            <text>It vanished</text>
        </reason>
        <fix>
            <action type="retry"/>
        </fix>
    </incident>
    <extension application="urn:example">
        <custom key="v">payload</custom>
    </extension>
</report>"#

def node (f : Forest) (kind : NodeType) : NodeId × Forest :=
  f.add (.new kind)

def text (f : Forest) (content : String) : Except Violation (NodeId × Forest) := do
  return f.add (← (Node.new .text).setContent content)

/-- Puts nodes under another one, from the left. -/
def addAll (f : Forest) (parent : NodeId) : List NodeId → Except Violation Forest
  | [] => .ok f
  | child :: children => do addAll (← f.addChild parent child) parent children

def stateWithText (f : Forest) (content : String) : Except Violation (NodeId × Forest) := do
  let (content, f) ← text f content
  let (state, f) := node f .state
  return (state, ← f.addChild state content)

def definition (f : Forest) (defines : String) (template : Option String)
    (children : List NodeId) : Except Violation (NodeId × Forest) := do
  let (id, f) := node f .definition
  let f ← f.setAttribute id definesAttribute defines
  let f ← addAll f id children
  match template with
  | some template => return (id, ← f.setAttribute id templateAttribute template)
  | none => return (id, f)

def referenceTo (f : Forest) (kind : NodeType) (definition : String) :
    Except Violation (NodeId × Forest) := do
  return f.add (← Node.withIdentity kind none (some definition) none)

def report (f : Forest) (children : List NodeId) : Except Violation (Document × Forest) := do
  let (document, f) := Document.new f
  return (document, ← addAll f document.root children)

end IncidentReport.Sample
