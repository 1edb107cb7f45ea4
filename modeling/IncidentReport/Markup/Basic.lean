import IncidentReport.AttributeList
import IncidentReport.Text.Space

/-!
A small XML tree: elements with attributes in document order, text, CDATA
sections and comments. It knows nothing about reports.
-/

namespace IncidentReport.Markup

/-- What may stand inside an element. Text is held without escapes. -/
inductive Node where
  | element (name : String) (attributes : AttributeList) (children : List Node)
  | text (content : String)
  | cdata (content : String)
  | comment (content : String)
  deriving Inhabited, Repr

structure Element where
  name : String
  attributes : AttributeList
  children : List Node
  deriving Inhabited, Repr

namespace Node

mutual

def decEq : (a b : Node) → Decidable (a = b)
  | .element n as cs, .element m bs ds =>
    if hn : n = m then
      if ha : as = bs then
        match decEqList cs ds with
        | isTrue hc => isTrue (by rw [hn, ha, hc])
        | isFalse hc => isFalse (by simp [hc])
      else isFalse (by simp [ha])
    else isFalse (by simp [hn])
  | .text s, .text t => if h : s = t then isTrue (by rw [h]) else isFalse (by simp [h])
  | .cdata s, .cdata t => if h : s = t then isTrue (by rw [h]) else isFalse (by simp [h])
  | .comment s, .comment t => if h : s = t then isTrue (by rw [h]) else isFalse (by simp [h])
  | .element .., .text _ => isFalse (by simp)
  | .element .., .cdata _ => isFalse (by simp)
  | .element .., .comment _ => isFalse (by simp)
  | .text _, .element .. => isFalse (by simp)
  | .text _, .cdata _ => isFalse (by simp)
  | .text _, .comment _ => isFalse (by simp)
  | .cdata _, .element .. => isFalse (by simp)
  | .cdata _, .text _ => isFalse (by simp)
  | .cdata _, .comment _ => isFalse (by simp)
  | .comment _, .element .. => isFalse (by simp)
  | .comment _, .text _ => isFalse (by simp)
  | .comment _, .cdata _ => isFalse (by simp)

def decEqList : (as bs : List Node) → Decidable (as = bs)
  | [], [] => isTrue rfl
  | [], _ :: _ => isFalse (by simp)
  | _ :: _, [] => isFalse (by simp)
  | a :: as, b :: bs =>
    match decEq a b with
    | isTrue h =>
      match decEqList as bs with
      | isTrue hs => isTrue (by rw [h, hs])
      | isFalse hs => isFalse (by simp [hs])
    | isFalse h => isFalse (by simp [h])

end

instance : DecidableEq Node := decEq

/-- Text or CDATA made of space only. -/
def isBlank : Node → Bool
  | .text content | .cdata content => content.toList.all Text.isSpace
  | .element .. | .comment _ => false

def asElement? : Node → Option Element
  | .element name attributes children => some ⟨name, attributes, children⟩
  | .text _ | .cdata _ | .comment _ => none

end Node

namespace Element

deriving instance DecidableEq for Element

def toNode (e : Element) : Node :=
  .element e.name e.attributes e.children

def empty (name : String) : Element :=
  ⟨name, [], []⟩

def attribute? (e : Element) (name : String) : Option String :=
  e.attributes.get? name

/-- Overwrites an attribute where it stands, or appends it. -/
def setAttribute (e : Element) (name value : String) : Element :=
  { e with attributes := e.attributes.put name value }

def removeAttribute (e : Element) (name : String) : Element :=
  { e with attributes := e.attributes.erase name }

def push (e : Element) (child : Node) : Element :=
  { e with children := e.children ++ [child] }

def childElements (e : Element) : List Element :=
  e.children.filterMap Node.asElement?

end Element

end IncidentReport.Markup
