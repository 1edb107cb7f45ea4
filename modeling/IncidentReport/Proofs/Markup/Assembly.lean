import IncidentReport.Markup.Assembly
import IncidentReport.Proofs.Markup.Tokens

/-!
Trees put together again from their tokens. The tokens of an element add one child
to the element that is open, its normal form; so what is written is read as the
normal form of what was there.
-/

namespace IncidentReport.Markup

namespace Assembly

/-- The tokens lead from one state to the other, wherever they start. -/
def Takes (a : Assembly) (ts : List Token) (b : Assembly) : Prop :=
  ∀ position, ∃ position', a.run position ts = .ok (b, position')

variable {a b c : Assembly} {ts us : List Token} {t : Token}

theorem Takes.nil : a.Takes [] a :=
  fun position => ⟨position, rfl⟩

theorem Takes.cons (h : ∀ position, a.step position t = .ok b) (hb : b.Takes ts c) :
    a.Takes (t :: ts) c := by
  intro position
  obtain ⟨position', hrun⟩ := hb (position + Text.byteCount t.spelling)
  refine ⟨position', ?_⟩
  rw [run, h position]
  exact hrun

theorem run_append (a : Assembly) (position : Nat) (ts us : List Token) :
    a.run position (ts ++ us) = a.run position ts >>= fun r => r.1.run r.2 us := by
  induction ts generalizing a position with
  | nil => rfl
  | cons t ts ih =>
      rw [List.cons_append, run, run]
      cases a.step position t with
      | error e => rfl
      | ok b => exact ih b _

theorem Takes.append (ha : a.Takes ts b) (hb : b.Takes us c) : a.Takes (ts ++ us) c := by
  intro position
  obtain ⟨middle, hrun⟩ := ha position
  rw [run_append, hrun]
  exact hb middle

end Assembly

/-- The element with some nodes behind its children, which are held in reverse. -/
def Element.behind (e : Element) (nodes : List Node) : Element :=
  { e with children := nodes.reverse ++ e.children }

theorem Element.behind_append (e : Element) (xs ys : List Node) :
    e.behind (xs ++ ys) = (e.behind xs).behind ys := by
  simp [behind]

theorem Element.behind_cons (e : Element) (x : Node) (xs : List Node) :
    e.behind (x :: xs) = (e.behind [x]).behind xs :=
  e.behind_append [x] xs

open Assembly

variable {e : Element} {outer : List Element} {root : Option Element}

theorem endName_of_isPlainName {name : String} (hn : isPlainName name = true) :
    endName name.toList = name.toList := by
  have hname : ∀ c ∈ name.toList.reverse, Text.isSpace c = false := fun c hc =>
    isSpace_eq_false (continuesPlainName_of_mem hn (List.mem_reverse.1 hc))
  have hkeep : name.toList.reverse.dropWhile Text.isSpace = name.toList.reverse := by
    cases h : name.toList.reverse with
    | nil => rfl
    | cons c cs => exact List.dropWhile_cons_of_neg (by simp [hname c (by simp [h])])
  rw [endName, hkeep, List.reverse_reverse, ite_self]

theorem takes_textTokens (pending : List Char) :
    Takes ⟨e :: outer, root⟩ (textTokens pending)
      ⟨e.behind (textNodes pending) :: outer, root⟩ := by
  cases pending with
  | nil => exact .nil
  | cons c cs =>
      refine .cons (fun position => ?_) .nil
      rw [step, unescape_escape]
      rfl

theorem step_cdata (position : Nat) (content : String) :
    step ⟨e :: outer, root⟩ position (.cdata content.toList) =
      .ok ⟨e.behind [.cdata content] :: outer, root⟩ := by
  simp [step, push?, Element.behind]

theorem step_comment (position : Nat) (content : String) :
    step ⟨e :: outer, root⟩ position (.comment content.toList) =
      .ok ⟨e.behind [.comment content] :: outer, root⟩ := by
  simp [step, push?, Element.behind]

theorem takes_closedTag {a : Assembly} (hroot : a.root = none) {raw : List Char}
    (hstart : Element.ofStartTag raw = .ok e) : a.Takes [.startTag raw true] (a.place e) := by
  refine .cons (fun position => ?_) .nil
  rw [step, hroot, hstart]
  rfl

/-- A start tag, the tokens that fill the element, and an end tag place it. -/
theorem takes_tags {a : Assembly} (hroot : a.root = none) {name : String}
    {attributes : AttributeList} {children : List Node} {raw stop : List Char} {ts : List Token}
    (hstart : Element.ofStartTag raw = .ok ⟨name, attributes, []⟩)
    (hinside : ∀ outer, Takes ⟨⟨name, attributes, []⟩ :: outer, none⟩ ts
      ⟨(⟨name, attributes, []⟩ : Element).behind children :: outer, none⟩)
    (hstop : endName stop = name.toList) :
    a.Takes (.startTag raw false :: (ts ++ [.endTag stop])) (a.place ⟨name, attributes, children⟩) := by
  obtain ⟨opened, root⟩ := a
  obtain rfl : root = none := hroot
  refine .cons (fun position => ?_) ((hinside opened).append (.cons (fun position => ?_) .nil))
  · rw [step, hstart]
    rfl
  · rw [step, hstop, leave]
    simp [Element.behind, Except.mapError]

/-- The tags of an element and the tokens of its children place it, with its children
as they are read. -/
theorem takes_element {a : Assembly} (hroot : a.root = none) {name : String}
    {attributes : AttributeList} {children : List Node}
    (hp : (Node.element name attributes children).PlainNames)
    (hinside : ∀ e outer, Takes ⟨e :: outer, none⟩ (nodesTokens [] children)
      ⟨e.behind (joinTexts [] children) :: outer, none⟩) :
    Takes a (Node.element name attributes children).tokens
      (a.place ⟨name, attributes, joinTexts [] children⟩) := by
  obtain ⟨hn, ha, hd⟩ := hp
  have hstart := ofStartTag_tagChars hn ha hd
  -- An element without children has a single tag; any other is opened, filled and left.
  rw [Node.tokens]
  split
  · next hnil =>
      obtain rfl := List.isEmpty_iff.1 hnil
      exact takes_closedTag hroot hstart
  · exact takes_tags hroot hstart (hinside _) (endName_of_isPlainName hn)

/-- The tokens of some nodes add the nodes as they are read. -/
theorem takes_nodesTokens : ∀ {nodes : List Node} {e : Element} {outer : List Element}
    (pending : List Char), allNodes Node.PlainNames nodes →
      Takes ⟨e :: outer, none⟩ (nodesTokens pending nodes)
        ⟨e.behind (joinTexts pending nodes) :: outer, none⟩
  | [], e, outer, pending, _ => takes_textTokens pending
  | .text content :: nodes, e, outer, pending, hp => by
    rw [nodesTokens, joinTexts]
    exact takes_nodesTokens _ hp.2
  | .element name attributes children :: nodes, e, outer, pending, hp => by
    have hfirst := takes_element (a := ⟨e.behind (textNodes pending) :: outer, none⟩) rfl hp.1.1
      fun _ _ => takes_nodesTokens [] hp.1.2
    rw [nodesTokens, joinTexts, Element.behind_append, Element.behind_cons]
    exact (takes_textTokens pending).append (hfirst.append (takes_nodesTokens [] hp.2))
  | .cdata content :: nodes, e, outer, pending, hp => by
    rw [nodesTokens, joinTexts, Element.behind_append, Element.behind_cons]
    exact (takes_textTokens pending).append (.cons (fun position => step_cdata position content)
      (takes_nodesTokens [] hp.2))
  | .comment content :: nodes, e, outer, pending, hp => by
    rw [nodesTokens, joinTexts, Element.behind_append, Element.behind_cons]
    exact (takes_textTokens pending).append (.cons (fun position => step_comment position content)
      (takes_nodesTokens [] hp.2))

/-- The tokens of an element on its own make it the root. -/
theorem takes_root (hp : e.toNode.All Node.PlainNames) :
    start.Takes e.toNode.tokens ⟨[], some e.joined⟩ :=
  takes_element rfl hp.1 fun _ _ => takes_nodesTokens [] hp.2

end IncidentReport.Markup
