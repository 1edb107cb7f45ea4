import IncidentReport.Node.Basic

/-!
A report or a part of one as a tree of nodes. Nothing is shared, so a tree
stands for the content of a node with all that is below it.
-/

namespace IncidentReport

/-- A node with its children below it. -/
inductive Tree where
  | mk (node : Node Tree)

namespace Tree

def node : Tree → Node Tree
  | mk node => node

instance : Inhabited Tree := ⟨mk default⟩

@[simp] theorem node_mk (node : Node Tree) : (mk node).node = node := rfl

/-- What passes from the children of a node to the node holds of every tree. -/
@[elab_as_elim]
theorem induction {motive : Tree → Prop}
    (mk : ∀ node : Node Tree, (∀ child ∈ node.children, motive child) → motive ⟨node⟩)
    (t : Tree) : motive t :=
  Tree.rec (motive_1 := motive) (motive_2 := fun node => ∀ child ∈ node.children, motive child)
    (motive_3 := fun body => ∀ nodes, body = .children nodes → ∀ child ∈ nodes, motive child)
    (motive_4 := fun nodes => ∀ child ∈ nodes, motive child)
    mk
    (fun _ _ body ih child h => by
      cases body with
      | children nodes => exact ih nodes rfl child h
      | empty | text | foreign => simp [Node.children] at h)
    (by simp)
    (fun nodes ih _ h => by cases h; exact ih)
    (by simp) (by simp) (by simp)
    (fun _ _ hd tl => List.forall_mem_cons.2 ⟨hd, tl⟩) t

def kind (t : Tree) : NodeType :=
  t.node.kind

def attribute? (t : Tree) (name : String) : Option String :=
  t.node.attribute? name

def children (t : Tree) : List Tree :=
  t.node.children

/-- A tree of one node, with the defaults of its type. -/
def new (kind : NodeType) : Tree :=
  mk (.new kind)

def setAttribute (t : Tree) (name value : String) : Except Violation Tree :=
  (t.node.setAttribute name value).map mk

mutual

/-- Whether two trees are the same up to the order of attributes. -/
def same : Tree → Tree → Bool
  | ⟨⟨kind, attributes, body⟩⟩, u =>
    kind == u.node.kind && attributes.same u.node.attributes && sameBody body u.node.body

/-- Whether two bodies are the same up to the order of attributes. -/
def sameBody : Body Tree → Body Tree → Bool
  | .empty, .empty => true
  | .children ts, .children us => sameAll ts us
  | .text a, .text b => a == b
  | .foreign as, .foreign bs => as == bs
  | _, _ => false

/-- Whether two lists of trees are the same up to the order of attributes. -/
def sameAll : List Tree → List Tree → Bool
  | [], [] => true
  | t :: ts, u :: us => same t u && sameAll ts us
  | _, _ => false

end

theorem sameAll_eq (ts us : List Tree) :
    sameAll ts us = (ts.length == us.length && (ts.zip us).all fun (t, u) => same t u) := by
  induction ts generalizing us with
  | nil => cases us <;> rfl
  | cons t ts ih =>
    cases us with
    | nil => rfl
    | cons u us => simp [sameAll, ih, Bool.and_left_comm]

/-- Trees are the same if their roots are, given that for the trees below. -/
theorem same_eq_sameBy (t u : Tree) : t.same u = t.node.sameBy same u.node := by
  obtain ⟨⟨kind, attributes, body⟩⟩ := t
  obtain ⟨⟨kind', attributes', body'⟩⟩ := u
  cases body <;> cases body' <;> simp [same, sameBody, Node.sameBy, sameAll_eq]

end Tree

/-- The type that all trees of a list have; `none` if there is no such type or no
tree. -/
def uniformType? (ts : List Tree) : Option NodeType :=
  NodeType.common? (ts.map Tree.kind)

end IncidentReport
