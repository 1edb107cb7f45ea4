import IncidentReport.Markup.Print
import Mathlib.Data.List.Infix
import Mathlib.Data.List.Chain

/-!
What is left of a tree when it is written and read again. Text that stands next to
text runs into it and empty text vanishes; a tree has nothing of either if and only
if it is its own normal form.
-/

namespace IncidentReport.Markup

mutual

/-- The node and all that is inside it have the property. -/
def Node.All (p : Node → Prop) : Node → Prop
  | .element name attributes children =>
    p (.element name attributes children) ∧ allNodes p children
  | .text content => p (.text content)
  | .cdata content => p (.cdata content)
  | .comment content => p (.comment content)

/-- The nodes and all that is inside them have the property. -/
def allNodes (p : Node → Prop) : List Node → Prop
  | [] => True
  | node :: nodes => node.All p ∧ allNodes p nodes

end

mutual

instance Node.decidableAll (p : Node → Prop) [DecidablePred p] :
    ∀ node : Node, Decidable (node.All p)
  | .element name attributes children =>
    @instDecidableAnd _ _ (inferInstanceAs (Decidable (p (.element name attributes children))))
      (decidableAllNodes p children)
  | .text content => inferInstanceAs (Decidable (p (.text content)))
  | .cdata content => inferInstanceAs (Decidable (p (.cdata content)))
  | .comment content => inferInstanceAs (Decidable (p (.comment content)))

instance decidableAllNodes (p : Node → Prop) [DecidablePred p] :
    ∀ nodes : List Node, Decidable (allNodes p nodes)
  | [] => .isTrue trivial
  | node :: nodes => @instDecidableAnd _ _ (Node.decidableAll p node) (decidableAllNodes p nodes)

end

/-- Whether the node is text outside CDATA. -/
def Node.isText : Node → Bool
  | .text _ => true
  | .element .. | .cdata _ | .comment _ => false

/-- Text as a node, if there is any. -/
def textNodes : List Char → List Node
  | [] => []
  | c :: cs => [.text (String.ofList (c :: cs))]

mutual

/-- The normal form of a node. -/
def Node.joined : Node → Node
  | .element name attributes children => .element name attributes (joinTexts [] children)
  | .text content => .text content
  | .cdata content => .cdata content
  | .comment content => .comment content

/-- Nodes with each run of text made one and empty text left out, at all levels.
The text that stands before them is `pending`. -/
def joinTexts (pending : List Char) : List Node → List Node
  | [] => textNodes pending
  | .text content :: nodes => joinTexts (pending ++ content.toList) nodes
  | .element name attributes children :: nodes =>
    textNodes pending ++ (Node.element name attributes children).joined :: joinTexts [] nodes
  | .cdata content :: nodes => textNodes pending ++ .cdata content :: joinTexts [] nodes
  | .comment content :: nodes => textNodes pending ++ .comment content :: joinTexts [] nodes

end

def Element.joined (e : Element) : Element :=
  { e with children := joinTexts [] e.children }

/-- A node whose texts can be told apart: they are not empty, and none stands next
to another one. -/
def Node.SeparatesTexts : Node → Prop
  | .element _ _ children => children.IsChain fun a b => ¬ (a.isText ∧ b.isText)
  | .text content => content ≠ ""
  | .cdata _ | .comment _ => True

/-- No two neighbours are texts. -/
abbrev Apart (nodes : List Node) : Prop :=
  nodes.IsChain fun a b => ¬ (a.isText ∧ b.isText)

variable {p q : Node → Prop} {pending : List Char} {nodes : List Node}

/-! ### Properties of all nodes -/

theorem allNodes_iff : allNodes p nodes ↔ ∀ node ∈ nodes, node.All p := by
  induction nodes with
  | nil => simp [allNodes]
  | cons node nodes ih => simp [allNodes, ih]

theorem allNodes_append {others : List Node} :
    allNodes p (nodes ++ others) ↔ allNodes p nodes ∧ allNodes p others := by
  rw [allNodes_iff, allNodes_iff, allNodes_iff, List.forall_mem_append]

theorem allNodes_reverse : allNodes p nodes.reverse ↔ allNodes p nodes := by
  simp only [allNodes_iff, List.mem_reverse]

mutual

theorem Node.all_and : ∀ node : Node,
    node.All (fun n => p n ∧ q n) ↔ node.All p ∧ node.All q
  | .element _ _ children => by
    rw [Node.All, Node.All, Node.All, allNodes_and children]
    tauto
  | .text _ | .cdata _ | .comment _ => Iff.rfl

theorem allNodes_and : ∀ nodes : List Node,
    allNodes (fun n => p n ∧ q n) nodes ↔ allNodes p nodes ∧ allNodes q nodes
  | [] => by simp [allNodes]
  | node :: nodes => by
    rw [allNodes, allNodes, allNodes, Node.all_and node, allNodes_and nodes]
    tauto

end

mutual

theorem Node.all_of_forall (hp : ∀ n, p n) : ∀ node : Node, node.All p
  | .element _ _ children => ⟨hp _, allNodes_of_forall hp children⟩
  | .text _ | .cdata _ | .comment _ => hp _

theorem allNodes_of_forall (hp : ∀ n, p n) : ∀ nodes : List Node, allNodes p nodes
  | [] => trivial
  | node :: nodes => ⟨node.all_of_forall hp, allNodes_of_forall hp nodes⟩

end

mutual

theorem Node.All.imp (hpq : ∀ n, p n → q n) : ∀ {node : Node}, node.All p → node.All q
  | .element _ _ _, h => ⟨hpq _ h.1, allNodes_imp hpq h.2⟩
  | .text _, h | .cdata _, h | .comment _, h => hpq _ h

theorem allNodes_imp (hpq : ∀ n, p n → q n) : ∀ {nodes : List Node},
    allNodes p nodes → allNodes q nodes
  | [], _ => trivial
  | _ :: _, h => ⟨h.1.imp hpq, allNodes_imp hpq h.2⟩

end

/-! ### The normal form -/

theorem textNodes_of_ne_nil (h : pending ≠ []) :
    textNodes pending = [.text (String.ofList pending)] := by
  cases pending with
  | nil => exact absurd rfl h
  | cons c cs => rfl

/-- Text does not run into anything but text. -/
theorem joinTexts_of_head (h : ∀ node ∈ nodes.head?, node.isText = false) :
    joinTexts pending nodes = textNodes pending ++ joinTexts [] nodes := by
  match nodes with
  | [] => simp [joinTexts, textNodes]
  | .text content :: nodes => simp [Node.isText] at h
  | .element name attributes children :: nodes => rfl
  | .cdata content :: nodes => rfl
  | .comment content :: nodes => rfl

/-- Nodes whose texts can be told apart are left as they are. -/
theorem joinTexts_eq_self : ∀ {nodes : List Node}, allNodes Node.SeparatesTexts nodes →
    Apart nodes → joinTexts [] nodes = nodes
  | [], _, _ => rfl
  | .text content :: nodes, hs, ha => by
    obtain ⟨hne, hs⟩ := hs
    -- The run of text ends here, as the node behind it is no text.
    have hhead : ∀ node ∈ nodes.head?, node.isText = false := by
      intro node hnode
      have := (List.isChain_cons.1 ha).1 node hnode
      simpa [Node.isText] using this
    have hne : content.toList ≠ [] := fun h => hne (String.toList_eq_nil_iff.1 h)
    rw [joinTexts, List.nil_append, joinTexts_of_head hhead, textNodes_of_ne_nil hne,
      joinTexts_eq_self hs ha.tail, String.ofList_toList]
    rfl
  | .element name attributes children :: nodes, hs, ha => by
    obtain ⟨⟨hchildren, hall⟩, hs⟩ := hs
    rw [joinTexts, Node.joined, joinTexts_eq_self hall hchildren, joinTexts_eq_self hs ha.tail]
    rfl
  | .cdata content :: nodes, hs, ha => by
    rw [joinTexts, joinTexts_eq_self hs.2 ha.tail]
    rfl
  | .comment content :: nodes, hs, ha => by
    rw [joinTexts, joinTexts_eq_self hs.2 ha.tail]
    rfl

theorem allNodes_textNodes (pending : List Char) :
    allNodes Node.SeparatesTexts (textNodes pending) := by
  cases pending with
  | nil => trivial
  | cons c cs => exact ⟨by simp [Node.All, Node.SeparatesTexts], trivial⟩

theorem apart_textNodes (pending : List Char) {node : Node} (hn : node.isText = false)
    (ha : Apart nodes) : Apart (textNodes pending ++ node :: nodes) := by
  have htail : Apart (node :: nodes) := by
    refine List.isChain_cons.2 ⟨fun next _ => ?_, ha⟩
    simp [hn]
  cases pending with
  | nil => exact htail
  | cons c cs =>
      refine List.isChain_cons_cons.2 ⟨?_, htail⟩
      simp [hn]

/-- The texts of a normal form can be told apart. -/
theorem separates_joinTexts : ∀ (nodes : List Node) (pending : List Char),
    allNodes Node.SeparatesTexts (joinTexts pending nodes) ∧ Apart (joinTexts pending nodes)
  | [], pending => by
    refine ⟨allNodes_textNodes pending, ?_⟩
    cases pending with
    | nil => exact .nil
    | cons c cs => exact .singleton _
  | .text content :: nodes, pending => separates_joinTexts nodes _
  | .element name attributes children :: nodes, pending => by
    obtain ⟨hall, hchildren⟩ := separates_joinTexts children []
    obtain ⟨hs, ha⟩ := separates_joinTexts nodes []
    exact ⟨allNodes_append.2 ⟨allNodes_textNodes pending, ⟨hchildren, hall⟩, hs⟩,
      apart_textNodes pending rfl ha⟩
  | .cdata content :: nodes, pending => by
    obtain ⟨hs, ha⟩ := separates_joinTexts nodes []
    exact ⟨allNodes_append.2 ⟨allNodes_textNodes pending, trivial, hs⟩,
      apart_textNodes pending rfl ha⟩
  | .comment content :: nodes, pending => by
    obtain ⟨hs, ha⟩ := separates_joinTexts nodes []
    exact ⟨allNodes_append.2 ⟨allNodes_textNodes pending, trivial, hs⟩,
      apart_textNodes pending rfl ha⟩

/-- An element is its own normal form if and only if its texts can be told apart. -/
theorem joined_eq_self_iff {e : Element} : e.joined = e ↔ e.toNode.All Node.SeparatesTexts := by
  constructor
  · intro h
    rw [← h]
    exact (separates_joinTexts e.children []).symm
  · rintro ⟨hchildren, hall⟩
    rw [Element.joined, joinTexts_eq_self hall hchildren]

end IncidentReport.Markup
