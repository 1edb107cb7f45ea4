import IncidentReport.Markup.Escape

/-!
The text of an element. Text and attribute values are escaped; names, CDATA
sections and comments are written as they are. An element without children is
written as a single tag.
-/

namespace IncidentReport.Markup

/-- The attributes in a tag, with a blank before each. -/
def attributeChars (attributes : AttributeList) : List Char :=
  attributes.flatMap fun (name, value) =>
    ' ' :: name.toList ++ ['=', '"'] ++ escape value.toList ++ ['"']

mutual

def Node.chars : Node → List Char
  | .element name attributes children =>
    '<' :: name.toList ++ attributeChars attributes ++
      if children.isEmpty then
        ['/', '>']
      else
        '>' :: nodesChars children ++ ['<', '/'] ++ name.toList ++ ['>']
  | .text content => escape content.toList
  | .cdata content =>
    ['<', '!', '[', 'C', 'D', 'A', 'T', 'A', '['] ++ content.toList ++ [']', ']', '>']
  | .comment content => ['<', '!', '-', '-'] ++ content.toList ++ ['-', '-', '>']

def nodesChars : List Node → List Char
  | [] => []
  | node :: nodes => node.chars ++ nodesChars nodes

end

mutual

/-- The text of a node with `rest` behind it, made in one pass. -/
def Node.charsBefore : Node → List Char → List Char
  | .element name attributes children, rest =>
    '<' :: name.toList ++ attributeChars attributes ++
      if children.isEmpty then
        '/' :: '>' :: rest
      else
        '>' :: nodesCharsBefore children ('<' :: '/' :: name.toList ++ '>' :: rest)
  | .text content, rest => escape content.toList ++ rest
  | .cdata content, rest =>
    ['<', '!', '[', 'C', 'D', 'A', 'T', 'A', '['] ++ content.toList ++ ']' :: ']' :: '>' :: rest
  | .comment content, rest =>
    ['<', '!', '-', '-'] ++ content.toList ++ '-' :: '-' :: '>' :: rest

/-- The texts of some nodes with `rest` behind them. -/
def nodesCharsBefore : List Node → List Char → List Char
  | [], rest => rest
  | node :: nodes, rest => node.charsBefore (nodesCharsBefore nodes rest)

end

mutual

@[simp] theorem Node.charsBefore_eq :
    ∀ (node : Node) (rest : List Char), node.charsBefore rest = node.chars ++ rest
  | .element name attributes children, rest => by
    rw [Node.charsBefore, Node.chars]
    split <;> simp [nodesCharsBefore_eq children]
  | .text content, rest => rfl
  | .cdata content, rest => by simp [Node.charsBefore, Node.chars]
  | .comment content, rest => by simp [Node.charsBefore, Node.chars]

@[simp] theorem nodesCharsBefore_eq :
    ∀ (nodes : List Node) (rest : List Char), nodesCharsBefore nodes rest = nodesChars nodes ++ rest
  | [], _ => rfl
  | node :: nodes, rest => by
    simp [nodesCharsBefore, nodesChars, Node.charsBefore_eq node, nodesCharsBefore_eq nodes]

end

def declaration : String :=
  "<?xml version=\"1.0\" encoding=\"UTF-8\"?>"

namespace Element

def print (e : Element) : String :=
  String.ofList (e.toNode.charsBefore [])

theorem print_eq (e : Element) : e.print = String.ofList e.toNode.chars := by
  simp [print]

def printDocument (e : Element) : String :=
  declaration ++ e.print

end Element

end IncidentReport.Markup
