import IncidentReport.Proofs.Resolution.Reach
import IncidentReport.Proofs.Tree.Same

/-!
Resolution against definitions that are the same as far as it can reach. The two runs
gather trees that are the same one by one and that refer to nothing outside the reach,
so each step of the one has its like in the other.
-/

namespace IncidentReport

variable {ids : Set String}

namespace Tree

/-- The trees are the same, and refer to nothing outside the set. -/
structure Twin (ids : Set String) (t u : Tree) : Prop where
  same : t.same u = true
  refers : t.RefersWithin ids

/-- The lists are twins tree by tree. -/
abbrev Twins (ids : Set String) : List Tree → List Tree → Prop :=
  List.Forall₂ (Twin ids)

variable {t u : Tree} {ts us : List Tree}

theorem twins_iff : Twins ids ts us ↔
    (∀ t ∈ ts, t.RefersWithin ids) ∧ List.Forall₂ (fun t u => t.same u = true) ts us := by
  rw [← List.forall₂_and_left]
  constructor <;> refine fun h => h.imp fun _ _ htwin => ?_
  · exact ⟨htwin.refers, htwin.same⟩
  · exact ⟨htwin.2, htwin.1⟩

namespace Twin

theorem alike (h : Twin ids t u) : t.node.Alike u.node :=
  (same_iff.1 h.same).1

theorem kind (h : Twin ids t u) : t.kind = u.kind :=
  h.alike.kind

theorem attribute? (h : Twin ids t u) (name : String) : t.attribute? name = u.attribute? name :=
  h.alike.attribute? name

theorem children (h : Twin ids t u) : Twins ids t.children u.children :=
  twins_iff.2 ⟨fun _ hchild => h.refers.child hchild, (same_iff.1 h.same).2⟩

theorem withChildren {m n : Node Tree} (alike : m.Alike n)
    (refers : ∀ id ∈ m.attribute? definitionAttribute, id ∈ ids) (h : Twins ids ts us) :
    Twin ids ⟨m.withChildren ts⟩ ⟨n.withChildren us⟩ where
  same := same_withChildren alike (twins_iff.1 h).2
  refers := .mk refers fun child hchild =>
    (twins_iff.1 h).1 child (Node.children_withChildren_subset _ _ child hchild)

/-- Setting an attribute of both trees makes twins again, unless it refers to something
outside the set. -/
theorem setAttribute (h : Twin ids t u) {name value : String}
    (hvalue : name = definitionAttribute → value ∈ ids) :
    Agree (Twin ids) (t.setAttribute name value) (u.setAttribute name value) := by
  obtain ⟨⟨kind, as, body⟩⟩ := t
  obtain ⟨⟨kind', bs, body'⟩⟩ := u
  obtain rfl : kind = kind' := h.kind
  have refers : ∀ id ∈ (as.insert name value).get? definitionAttribute, id ∈ ids := by
    intro id hid
    rw [Attributes.get?_insert] at hid
    split at hid
    · next hname => exact Option.some.inj hid ▸ hvalue hname
    · exact h.refers.root id hid
  rw [Tree.setAttribute, Tree.setAttribute, node_mk, node_mk, Node.setAttribute, Node.setAttribute]
  dsimp only
  cases kind.attribute? name with
  | none => exact .error _
  | some rule =>
      dsimp only
      cases rule.check kind value with
      | error violation => exact .error _
      | ok _ =>
          exact .ok ⟨same_iff.2 ⟨h.alike.insert name value, (same_iff.1 h.same).2⟩,
            .mk refers fun child hchild => h.refers.child hchild⟩

end Twin

theorem Twins.map_kind (h : Twins ids ts us) : ts.map Tree.kind = us.map Tree.kind := by
  induction h with
  | nil => rfl
  | cons first _ ih => rw [List.map_cons, List.map_cons, ih, first.kind]

theorem Twins.uniformType? (h : Twins ids ts us) :
    IncidentReport.uniformType? ts = IncidentReport.uniformType? us := by
  rw [IncidentReport.uniformType?, IncidentReport.uniformType?, h.map_kind]

end Tree

/-! ### Gathering -/

open IncidentReport.Tree (Twin Twins)

/-- Both runs have gathered twins, under the nodes that they gather for, and came to the
same end. -/
def Gathering.Alike (ids : Set String) (m n : Node Tree)
    (left right : Gathering × Option Violation) : Prop :=
  ∃ ts us violation?, Twins ids ts us ∧ left = (⟨m, ts⟩, violation?) ∧
    right = (⟨n, us⟩, violation?)

/-- Twins are gathered alike. -/
def GathersAlike (ids : Set String) (left right : Gathering → Tree → Gathering × Option Violation) :
    Prop :=
  ∀ ⦃m n : Node Tree⦄ ⦃ts us : List Tree⦄ ⦃t u : Tree⦄, m.Alike n → Twins ids ts us →
    Twin ids t u → Gathering.Alike ids m n (left ⟨m, ts⟩ t) (right ⟨n, us⟩ u)

variable {m n : Node Tree} {ts us : List Tree}
  {left right : Gathering → Tree → Gathering × Option Violation}

theorem take_alike : GathersAlike ids Gathering.take Gathering.take := by
  intro m n ts us t u hnodes hgathered ht
  rw [Gathering.take, Gathering.take, Node.checkChild_congr hnodes.kind, ht.kind]
  dsimp only
  cases n.checkChild u.kind with
  | error violation => exact ⟨ts, us, some violation, hgathered, rfl, rfl⟩
  | ok _ => exact ⟨t :: ts, u :: us, none, .cons ht hgathered, rfl, rfl⟩

theorem forEachTree_alike (hact : GathersAlike ids left right) (hnodes : m.Alike n)
    {ts' us' : List Tree} (hgathered : Twins ids ts' us') (hts : Twins ids ts us) :
    Gathering.Alike ids m n (forEachTree left ⟨m, ts'⟩ ts) (forEachTree right ⟨n, us'⟩ us) := by
  induction hts generalizing ts' us' with
  | nil => exact ⟨ts', us', none, hgathered, rfl, rfl⟩
  | cons first _ ih =>
      obtain ⟨ts, us, violation?, htwins, hleft, hright⟩ := hact hnodes hgathered first
      rw [forEachTree, forEachTree, hleft, hright]
      cases violation? with
      | some violation => exact ⟨ts, us, some violation, htwins, rfl, rfl⟩
      | none => exact ih htwins

/-! ### Resolution -/

/-- The expansions are made of twins. -/
structure Expansion.Twin (ids : Set String) (e e' : Expansion) : Prop where
  definition : e.definition.same e'.definition = true
  children : Twins ids e.definition.children e'.definition.children
  uniformType : e.uniformType = e'.uniformType

/-- Ids of the set are resolved alike. -/
def ResolvesAlike (ids : Set String) (left right : String → Except ResolveError Expansion) : Prop :=
  ∀ id ∈ ids, Agree (Expansion.Twin ids) (left id) (right id)

namespace Definitions

variable {inherit inherit' : String → Except ResolveError Expansion}

/-- The definitions of the set are the same. -/
def SameOn (ids : Set String) (defs others : Definitions) : Prop :=
  ∀ id ∈ ids, Option.Rel (fun t u => t.same u = true) (defs id) (others id)

theorem basis_alike (hi : ResolvesAlike ids inherit inherit') {found other : Tree}
    (hsame : found.same other = true) (hleads : found.LeadsWithin ids) :
    Agree (fun t u => t.same u = true ∧ Twins ids t.children u.children)
      (basis inherit found) (basis inherit' other) := by
  have template : found.attribute? templateAttribute = other.attribute? templateAttribute :=
    (Tree.same_iff.1 hsame).1.attribute? _
  rw [basis, basis, ← template]
  cases htemplate : found.attribute? templateAttribute with
  | none => exact .ok ⟨Tree.same_refl _, .nil⟩
  | some template =>
      exact (hi template (hleads.template template htemplate)).map fun _ _ he =>
        ⟨he.definition, he.children⟩

theorem stamp_alike (id : String) (h : Twins ids ts us) :
    Agree (Twins ids) (stamp id ts) (stamp id us) := by
  rw [stamp, stamp, h.uniformType?]
  cases uniformType? us with
  | none => exact .ok h
  | some kind => exact Agree.mapM h fun _ _ ht => ht.setAttribute fun hname => absurd hname (by decide)

theorem complete_alike (id : String) (hnodes : m.Alike n) (h : Twins ids ts us) :
    Agree (Expansion.Twin ids) (complete id ⟨m, ts⟩) (complete id ⟨n, us⟩) := by
  have children : Twins ids ts.reverse us.reverse := List.rel_reverse h
  refine ((stamp_alike id children).mapError ResolveError.schema).map fun ts us htwins => ?_
  refine ⟨Tree.same_withChildren hnodes (Tree.twins_iff.1 htwins).2,
    hnodes.forall₂_children htwins, children.uniformType?⟩

variable {defs others : Definitions}

/-- A definition leads to twin expansions if it is the same for both runs; what it leads
to needs to be in the set, but not the definition itself. -/
theorem expandWith_alike {id : String}
    (hrel : Option.Rel (fun t u => t.same u = true) (defs id) (others id))
    (hleads : ∀ found ∈ defs id, found.LeadsWithin ids)
    (hi : ResolvesAlike ids inherit inherit') (hgather : GathersAlike ids left right) :
    Agree (Expansion.Twin ids) (defs.expandWith inherit left id)
      (others.expandWith inherit' right id) := by
  rw [expandWith, expandWith]
  generalize defs id = found? at hrel hleads ⊢
  generalize others id = other? at hrel ⊢
  cases hrel with
  | none => exact .error _
  | @some found other hsame =>
      have hleads := hleads found rfl
      have children : Twins ids found.children other.children :=
        Tree.twins_iff.2 ⟨hleads.below, (Tree.same_iff.1 hsame).2⟩
      refine (basis_alike hi hsame hleads).bind fun start start' hstart => ?_
      have hnodes := (Tree.same_iff.1 hstart.1).1
      obtain ⟨ts, us, violation?, htwins, hleft, hright⟩ :=
        forEachTree_alike hgather hnodes (List.rel_reverse hstart.2) children
      rw [Gathering.startingFrom, Gathering.startingFrom, hleft, hright]
      cases violation? with
      | some violation => exact .error _
      | none => exact complete_alike id hnodes htwins

/-- A tree whose reference is not followed is gathered on a copy of its root. -/
theorem gatherAlone_alike (hgather : GathersAlike ids left right) :
    GathersAlike ids (gatherAlone left) (gatherAlone right) := by
  intro m n ts us t u hnodes hgathered ht
  obtain ⟨ts', us', violation?, htwins, hleft, hright⟩ :=
    forEachTree_alike hgather ht.alike .nil ht.children
  rw [gatherAlone, gatherAlone, hleft, hright]
  cases violation? with
  | some violation => exact ⟨ts, us, some violation, hgathered, rfl, rfl⟩
  | none =>
      exact take_alike hnodes hgathered
        (.withChildren ht.alike ht.refers.root (List.rel_reverse htwins))

theorem gatherWith_alike {follow follow' : String → Except ResolveError Expansion}
    (hfollow : ResolvesAlike ids follow follow') (hgather : GathersAlike ids left right) :
    GathersAlike ids (gatherWith follow left) (gatherWith follow' right) := by
  intro m n ts us t u hnodes hgathered ht
  have alone := gatherAlone_alike hgather hnodes hgathered ht
  rw [gatherWith_eq, gatherWith_eq, ← ht.attribute?]
  cases hid : t.attribute? definitionAttribute with
  | none => exact alone
  | some id =>
      have followed := hfollow id (ht.refers.root id hid)
      rw [Option.bind_some, Option.bind_some]
      generalize follow id = x at followed ⊢
      generalize follow' id = y at followed ⊢
      cases followed with
      | error e => exact alone
      | ok he => exact forEachTree_alike hgather hnodes hgathered he.children

/-- Within any budget, ids of a closed set are resolved alike against definitions that
are the same on the set, and twins are gathered alike. -/
theorem resolve_and_gather_alike (hdefs : SameOn ids defs others) (hclosed : defs.Closed ids)
    (depth : Nat) :
    ResolvesAlike ids (defs.resolve depth) (others.resolve depth) ∧
      GathersAlike ids (defs.gather depth) (others.gather depth) := by
  induction depth with
  | zero => exact ⟨fun id _ => .error _, take_alike⟩
  | succ depth ih =>
      have next : ResolvesAlike ids (defs.resolve (depth + 1)) (others.resolve (depth + 1)) :=
        fun id hid => expandWith_alike (hdefs id hid) (hclosed id hid) ih.1 ih.2
      exact ⟨next, gatherWith_alike next ih.2⟩

end Definitions

/-! ### Reports -/

namespace Expansion

variable {id : String} {t u : Tree}

theorem collected_alike (hid : id ∈ ids) (kind : NodeType) (parent : Node Tree)
    (h : Tree.Twin ids t u) :
    Agree (Tree.Twin ids) (collected kind id parent t) (collected kind id parent u) := by
  have placed : ∀ t u, Tree.Twin ids t u → Agree (Tree.Twin ids)
      (parent.checkChild t.kind >>= fun _ => pure t)
      (parent.checkChild u.kind >>= fun _ => pure u) := by
    intro t u h
    rw [h.kind]
    exact (Agree.refl (fun _ => rfl) (parent.checkChild u.kind)).bind fun _ _ _ => .ok h
  rw [collected, collected, h.kind]
  split
  · exact (h.setAttribute fun _ => hid).bind placed
  · exact (Agree.ok h).bind placed

theorem collect_alike (hid : id ∈ ids) (kind : NodeType) (parent : Node Tree)
    (h : Twins ids ts us) :
    Agree (fun m n => (⟨m⟩ : Tree).same ⟨n⟩ = true) (collect kind id parent ts)
      (collect kind id parent us) :=
  (Agree.mapM h fun _ _ => collected_alike hid kind parent).map fun _ _ htwins =>
    Tree.same_withChildren (.refl parent) (Tree.twins_iff.1 htwins).2

theorem reportOf_alike (hid : id ∈ ids) (kind : NodeType) (h : Twins ids ts us) :
    Agree (fun t u => t.same u = true) (reportOf kind id ts) (reportOf kind id us) := by
  cases kind with
  | incident =>
      exact ((collect_alike hid .incident (.new .report) h).map fun _ _ hsame => hsame).mapError _
  | state =>
      refine Agree.mapError ((collect_alike hid .state (.new .incident) h).bind ?_) _
      intro incident incident' hsame
      exact .ok (Tree.same_withChildren (.refl (.new .report)) (.cons hsame .nil))
  | _ => exact .error _

/-- Twin expansions make the same report. -/
theorem toReport_alike (hid : id ∈ ids) {e e' : Expansion} (h : e.Twin ids e') :
    Agree (fun t u => t.same u = true) (e.toReport id) (e'.toReport id) := by
  have children := h.children
  rw [toReport, toReport, h.uniformType]
  generalize e.definition.children = ts at children ⊢
  generalize e'.definition.children = us at children ⊢
  cases children with
  | nil => exact .ok (Tree.same_refl _)
  | cons first rest =>
      dsimp only
      rw [first.kind]
      exact reportOf_alike hid _ (.cons first rest)

end Expansion

theorem Definitions.buildReport_alike {defs others : Definitions} (hdefs : Definitions.SameOn ids defs others)
    (hclosed : defs.Closed ids) {id : String} (hid : id ∈ ids) (depth : Nat) :
    Agree (fun t u => t.same u = true) (defs.buildReport depth id) (others.buildReport depth id) :=
  ((Definitions.resolve_and_gather_alike hdefs hclosed depth).1 id hid).bind fun _ _ he =>
    Expansion.toReport_alike hid he

end IncidentReport
