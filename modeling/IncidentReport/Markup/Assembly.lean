import IncidentReport.Markup.StartTag
import IncidentReport.Markup.Token.Read
import IncidentReport.Text.WhiteSpace

/-!
Elements put together from tokens. The elements that are still open form a
stack; a document is read when its root is complete and the stack is empty.
-/

namespace IncidentReport.Markup

open Text

/-- What has been put together so far. -/
structure Assembly where
  /-- The open elements, innermost first, each with its children so far in
  reverse order. -/
  opened : List Element
  /-- The root, once it is complete. -/
  root : Option Element
  deriving Inhabited, Repr

namespace Assembly

def start : Assembly :=
  ⟨[], none⟩

/-- Adds a node to the innermost open element; `none` outside the root. -/
def push? (a : Assembly) (node : Node) : Option Assembly :=
  match a.opened with
  | [] => none
  | e :: outer => some { a with opened := { e with children := node :: e.children } :: outer }

/-- Adds a complete element, which is the root if no element is open. -/
def place (a : Assembly) (e : Element) : Assembly :=
  (a.push? e.toNode).getD { a with root := some e }

def enter (a : Assembly) (e : Element) : Assembly :=
  { a with opened := e :: a.opened }

/-- Closes the innermost open element, which an end tag names. -/
def leave (a : Assembly) (name : List Char) : Except Fault Assembly :=
  match a.opened with
  | [] => .error (.unmatchedEnd (String.ofList name))
  | e :: outer =>
    if e.name.toList = name then
      .ok ({ a with opened := outer }.place { e with children := e.children.reverse })
    else
      .error (.mismatchedEnd e.name (String.ofList name))

/-- The name in an end tag. Space behind it does not count, unless there is
nothing else. -/
def endName (raw : List Char) : List Char :=
  if raw.all isSpace then raw else (raw.reverse.dropWhile isSpace).reverse

/-- Takes the token that starts at byte `position`. -/
def step (a : Assembly) (position : Nat) (token : Token) : Except Error Assembly :=
  match token with
  | .text raw => do
    let content ← (unescape raw).mapError (.syntaxFault position)
    match a.push? (.text (String.ofList content)) with
    | some a => return a
    | none => if content.all isWhiteSpace then return a else throw (.trailingContent position)
  | .cdata content =>
    match a.push? (.cdata (String.ofList content)) with
    | some a => .ok a
    | none => .error (.trailingContent position)
  | .comment content => .ok ((a.push? (.comment (String.ofList content))).getD a)
  | .doctype _ | .instruction _ => .ok a
  | .startTag raw closed =>
    if a.root.isSome then
      .error (.trailingContent position)
    else do
      let e ← (Element.ofStartTag raw).mapError (.syntaxFault position)
      return if closed then a.place e else a.enter e
  | .endTag raw => (a.leave (endName raw)).mapError (.syntaxFault position)

/-- Takes tokens, the first of which starts at byte `position`, and returns where
they end. -/
def run (a : Assembly) (position : Nat) : List Token → Except Error (Assembly × Nat)
  | [] => .ok (a, position)
  | token :: tokens => do
    run (← a.step position token) (position + byteCount token.spelling) tokens

/-- The root of a text that has come to its end. -/
def finish (a : Assembly) : Except Error Element :=
  if a.opened.isEmpty then
    match a.root with
    | some e => .ok e
    | none => .error .missingRoot
  else
    .error .unexpectedEnd

end Assembly

/-- The character that may stand at the start of a text to mark its encoding. -/
def byteOrderMark : Char := '\uFEFF'

/-- The text behind the mark of its encoding, if it has one. -/
def withoutMark : List Char → List Char
  | [] => []
  | c :: cs => if c = byteOrderMark then cs else c :: cs

/-- The root of the document with these characters. -/
def Element.ofChars (cs : List Char) : Except Error Element := do
  let (tokens, fault?) := Token.tokens (withoutMark cs)
  let (assembly, position) ← Assembly.start.run 0 tokens
  match fault? with
  | some fault => throw (.syntaxFault position fault)
  | none => assembly.finish

/-- The root of a document. Declarations, instructions and document types are
left out everywhere, comments outside the root. -/
def Element.parse (text : String) : Except Error Element :=
  Element.ofChars text.toList

end IncidentReport.Markup
