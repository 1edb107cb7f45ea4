import IncidentReport.Text.Quoted
import IncidentReport.Tree.Basic

/-!
Values shown in full to someone who looks for a mistake, with the fields of each
by name.
-/

namespace IncidentReport

open Text

namespace Inspect

def bracketed (items : List String) : String :=
  "[" ++ String.intercalate ", " items ++ "]"

/-- A record with its name and its fields. -/
def record (name : String) (fields : List (String × String)) : String :=
  name ++ " \x7b " ++
    String.intercalate ", " (fields.map fun (field, shown) => field ++ ": " ++ shown) ++ " \x7d"

def optional (s : Option String) : String :=
  match s with
  | some s => "Some(" ++ quoted s ++ ")"
  | none => "None"

def mapping (attributes : AttributeList) : String :=
  "\x7b" ++
    String.intercalate ", "
      (attributes.map fun (name, value) => quoted name ++ ": " ++ quoted value) ++ "\x7d"

def pairs (attributes : AttributeList) : String :=
  bracketed (attributes.map fun (name, value) => "(" ++ quoted name ++ ", " ++ quoted value ++ ")")

end Inspect

open Inspect

/-- The rule with all its fields; of the checker only that there is one. -/
def AttributeRule.inspect (rule : AttributeRule) : String :=
  record "AttributeSpec"
    [("name", quoted rule.name), ("value_type", optional rule.valueType),
      ("default", optional rule.default), ("required", toString rule.required),
      ("values", bracketed (rule.values.map quoted)),
      ("has_checker", toString rule.checker.isSome)]

mutual

def Markup.Node.inspect : Markup.Node → String
  | .element name attributes children =>
    "Element(" ++ record "XmlElement"
      [("name", quoted name), ("attributes", pairs attributes),
        ("children", bracketed (Markup.inspectAll children))] ++ ")"
  | .text content => "Text(" ++ quoted content ++ ")"
  | .cdata content => "CData(" ++ quoted content ++ ")"
  | .comment content => "Comment(" ++ quoted content ++ ")"

def Markup.inspectAll : List Markup.Node → List String
  | [] => []
  | node :: nodes => node.inspect :: Markup.inspectAll nodes

end

namespace Tree

mutual

def inspect : Tree → String
  | ⟨⟨kind, attributes, body⟩⟩ =>
    record "Node"
      ([("type", kind.name.capitalize), ("attributes", mapping attributes.entries)] ++
        inspectBody body)

/-- The field of what a node holds, if it holds something. -/
def inspectBody : Body Tree → List (String × String)
  | .empty => []
  | .children ts => [("children", bracketed (inspectAll ts))]
  | .text content => [("content", optional content)]
  | .foreign fragments => [("foreign", bracketed (Markup.inspectAll fragments))]

def inspectAll : List Tree → List String
  | [] => []
  | t :: ts => t.inspect :: inspectAll ts

end

end Tree

end IncidentReport
