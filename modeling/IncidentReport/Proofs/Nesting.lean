import IncidentReport.Proofs.World

/-!
When a child is refused. The types are looked at first, and then whether the child leads
to the parent, which is decided exactly. The types leave little room for this: from parent
to child they go down the schema, except from value to value, so a path comes twice to
values only, and only among values can a cycle be closed.
-/

namespace IncidentReport

namespace NodeType

/-- The level of a type in the schema. Each type stands above those of its children; a
value, which may stand under a value, stands above all others under it. -/
def level : NodeType → Nat
  | .text | .timestamp | .extension => 0
  | .reference | .more => 1
  | .position => 2
  | .backtrace | .value => 3
  | .state | .action | .resource => 4
  | .fix | .reason => 5
  | .incident => 6
  | .definition => 7
  | .report => 8

theorem level_lt_or_value (kind : NodeType) : ∀ child ∈ kind.childTypes,
    child.level < kind.level ∨ kind = .value ∧ child = .value := by
  cases kind <;> decide

theorem mem_childTypes_iff {kind child : NodeType} :
    child ∈ kind.childTypes ↔ kind.permits child = true := by
  rw [permits_eq_contains, List.contains_iff_mem]

end NodeType

namespace Forest

variable {f g : Forest} {parent child : NodeId}

/-! ### Paths -/

/-- Down a path the level of the type falls, unless there are values at both ends. -/
theorem WellFormed.level_lt_or_value (hf : f.WellFormed) {a b : NodeId}
    (h : Relation.TransGen f.HasChild a b) :
    (f.get b).kind.level < (f.get a).kind.level ∨
      (f.get a).kind = .value ∧ (f.get b).kind = .value := by
  have step : ∀ {c d : NodeId}, f.HasChild c d → (f.get d).kind.level < (f.get c).kind.level ∨
      (f.get c).kind = .value ∧ (f.get d).kind = .value := fun hstep =>
    NodeType.level_lt_or_value _ _ (NodeType.mem_childTypes_iff.2 (hf.permitted _ _ hstep))
  induction h with
  | single hstep => exact step hstep
  | @tail mid last _ hlast ih =>
      rcases ih, step hlast with ⟨hfirst | ⟨ha, hmid⟩, hnext | ⟨hmid', hb⟩⟩
      · exact .inl (hnext.trans hfirst)
      · exact .inl (by rwa [hb, ← hmid'])
      · exact .inl (by rwa [ha, ← hmid])
      · exact .inr ⟨ha, hb⟩

/-- A type that comes back below itself is that of values. -/
theorem WellFormed.eq_value_of_below (hf : f.WellFormed) {a b : NodeId}
    (h : Relation.TransGen f.HasChild a b) (hkind : (f.get a).kind = (f.get b).kind) :
    (f.get a).kind = .value := by
  rcases hf.level_lt_or_value h with hlt | ⟨ha, -⟩
  · rw [hkind] at hlt
    exact absurd hlt (Nat.lt_irrefl _)
  · exact ha

/-- On a path no type comes twice, that of values excepted. -/
theorem WellFormed.nodup_kinds_of_isChain (hf : f.WellFormed) {nodes : List NodeId}
    (h : nodes.IsChain f.HasChild) :
    ((nodes.map fun id => (f.get id).kind).filter (· ≠ .value)).Nodup := by
  have below : nodes.Pairwise (Relation.TransGen f.HasChild) :=
    List.isChain_iff_pairwise.1 (h.imp fun _ _ => .single)
  rw [List.Nodup, List.pairwise_filter, List.pairwise_map]
  refine below.imp fun {a b} hab ha _ hkind => ?_
  exact (by simpa using ha : (f.get a).kind ≠ .value) (hf.eq_value_of_below hab hkind)

/-- A node leads back to one that may hold it only if both are values. -/
theorem WellFormed.eq_value_of_permits_of_reaches (hf : f.WellFormed)
    (hpermits : (f.get parent).kind.permits (f.get child).kind = true)
    (hback : f.Reaches child parent) :
    (f.get parent).kind = .value ∧ (f.get child).kind = .value := by
  have down := NodeType.level_lt_or_value _ _ (NodeType.mem_childTypes_iff.2 hpermits)
  rcases Relation.reflTransGen_iff_eq_or_transGen.1 hback with rfl | hback
  · exact down.resolve_left (Nat.lt_irrefl _)
  · rcases down, hf.level_lt_or_value hback with ⟨hlt | hvalues, hlt' | ⟨hchild, hparent⟩⟩
    · exact absurd (hlt.trans hlt') (Nat.lt_irrefl _)
    · exact ⟨hparent, hchild⟩
    · exact hvalues
    · exact hvalues

/-! ### Adding -/

/-- How adding one node to another comes out, and when it does. -/
structure AddedExactly (f : Forest) (parent child : NodeId) (outcome : Except Violation Forest) :
    Prop where
  mismatch : outcome = .error (.contentMismatch (f.get parent).kind .children
    (f.get parent).kind.content) ↔ (f.get parent).kind.content ≠ .children
  notPermitted : outcome = .error (.childNotPermitted (f.get parent).kind (f.get child).kind) ↔
    (f.get parent).kind.content = .children ∧
      (f.get child).kind ∉ (f.get parent).kind.childTypes
  cyclic : outcome = .error (.cyclicAttachment (f.get parent).kind (f.get child).kind) ↔
    (f.get child).kind ∈ (f.get parent).kind.childTypes ∧ f.Reaches child parent
  accepted : (∃ g, outcome = .ok g) ↔
    (f.get child).kind ∈ (f.get parent).kind.childTypes ∧ ¬ f.Reaches child parent
  /-- The handle comes behind the children of the parent, whatever nodes it is under already,
  and nothing else changes. -/
  appended : ∀ g, outcome = .ok g → g.children parent = f.children parent ++ [child] ∧
    g.get parent = (f.get parent).withChildren (f.children parent ++ [child]) ∧
      g.size = f.size ∧ ∀ other, other ≠ parent → g.get other = f.get other

theorem addChild_of_refusal (f : Forest)
    (h : (f.get parent).kind.permits (f.get child).kind = false) :
    f.addChild parent child = .error ((f.get parent).kind.refusal (f.get child).kind) := by
  rw [addChild, edit]
  dsimp only
  rw [Node.checkChild_eq, h]
  rfl

theorem addChild_of_reaches (hf : f.WellFormed) (hc : f.Has child)
    (h : (f.get parent).kind.permits (f.get child).kind = true) (hback : f.Reaches child parent) :
    f.addChild parent child =
      .error (.cyclicAttachment (f.get parent).kind (f.get child).kind) := by
  have hcontains := (contains_iff_reaches hf.acyclic hf.closed hc).2 hback
  rw [addChild, edit]
  dsimp only
  rw [Node.checkChild_eq, h, hcontains]
  rfl

theorem addChild_of_permits (hf : f.WellFormed) (hc : f.Has child)
    (h : (f.get parent).kind.permits (f.get child).kind = true)
    (hno : ¬ f.Reaches child parent) :
    f.addChild parent child = .ok (f.set parent ((f.get parent).push child)) := by
  rw [addChild_of_not_reaches hf hc hno, Node.checkChild_eq, h]
  rfl

theorem WellFormed.addedExactly (hf : f.WellFormed) (hp : f.Has parent) (hc : f.Has child) :
    f.AddedExactly parent child (f.addChild parent child) := by
  by_cases hpermits : (f.get parent).kind.permits (f.get child).kind = true
  · have hchild := NodeType.mem_childTypes_iff.2 hpermits
    have hcontent := Node.permits_eq_true_imp hpermits
    by_cases hback : f.Reaches child parent
    · rw [addChild_of_reaches hf hc hpermits hback]
      constructor <;> simp [hchild, hcontent, hback]
    · rw [addChild_of_permits hf hc hpermits hback]
      have hbody := (hf.valid parent).body.trans hcontent
      refine ⟨by simp [hcontent], by simp [hchild], by simp [hback], by simp [hchild, hback], ?_⟩
      rintro g ⟨⟩
      refine ⟨?_, ?_, size_set _ _ _, fun other ho => get_set_of_ne _ ho⟩
      · rw [children, get_set_self _ hp, Node.children_push_of_content hbody, ← children]
      · rw [get_set_self _ hp, children, ← Node.push_withChildren, Node.withChildren_children]
  · have hno := mt NodeType.mem_childTypes_iff.1 hpermits
    rw [addChild_of_refusal f (by simpa using hpermits), NodeType.refusal]
    by_cases hcontent : (f.get parent).kind.content = .children <;> constructor <;>
      simp [hcontent, hno]

/-- What is refused for a cycle is permitted by its type, so both are values. -/
theorem WellFormed.eq_value_of_cyclic (hf : f.WellFormed) (hc : f.Has child) {p c : NodeType}
    (h : f.addChild parent child = .error (.cyclicAttachment p c)) :
    (f.get parent).kind = .value ∧ (f.get child).kind = .value := by
  by_cases hpermits : (f.get parent).kind.permits (f.get child).kind = true
  · refine hf.eq_value_of_permits_of_reaches hpermits ?_
    by_contra hno
    rw [addChild_of_permits hf hc hpermits hno] at h
    cases h
  · rw [addChild_of_refusal f (by simpa using hpermits), NodeType.refusal] at h
    split at h <;> cases h

end Forest

/-! ### Worlds -/

/-- How the nodes of a world stand under each other, and which may come under which. -/
structure World.Nests (w : World) : Prop where
  /-- A child is refused for its type or because it contains the parent, and for nothing
  else. -/
  add : ∀ parent child, w.forest.Has parent → w.forest.Has child →
    w.forest.AddedExactly parent child (w.forest.addChild parent child)
  /-- If it contains the parent, both are values. -/
  cyclic : ∀ parent child, w.forest.Has parent → w.forest.Has child → ∀ p c,
    w.forest.addChild parent child = .error (.cyclicAttachment p c) →
      (w.forest.get parent).kind = .value ∧ (w.forest.get child).kind = .value
  /-- The types on a path are all different, that of values excepted. -/
  path : ∀ nodes : List NodeId, nodes.IsChain w.forest.HasChild →
    ((nodes.map fun id => (w.forest.get id).kind).filter (· ≠ .value)).Nodup

namespace World

theorem WellFormed.nests {w : World} (hw : w.WellFormed) : w.Nests where
  add _ _ hp hc := hw.forest.addedExactly hp hc
  cyclic _ _ _ hc _ _ h := hw.forest.eq_value_of_cyclic hc h
  path _ h := hw.forest.nodup_kinds_of_isChain h

/-- In every world a child is refused exactly where the schema or a cycle of values is in
the way. -/
theorem run_nests (operations : List Operation) : (run empty operations).Nests :=
  (wellFormed_run wellFormed_empty operations).nests

end World

end IncidentReport
