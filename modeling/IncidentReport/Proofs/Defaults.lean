import IncidentReport.Proofs.Forest.Planting
import IncidentReport.Proofs.Log
import IncidentReport.Proofs.Node.Growth
import IncidentReport.Proofs.Tree.Reading

/-!
Defaults in front. New nodes start with the defaults of their type, reading starts from
them, copies have the order of what they copy, and no edit moves an attribute. So in
every world the defaults come first among the attributes of every node.
-/

namespace IncidentReport

open Forest

/-! ### Trees that are planted -/

theorem Tree.defaultsFirst_new (kind : NodeType) : (Tree.new kind).All Node.DefaultsFirst := by
  refine .mk (Node.defaultsFirst_new kind) fun child hchild => ?_
  rw [Node.children_new] at hchild
  exact absurd hchild List.not_mem_nil

namespace Report

variable {e : Markup.Element} {text : String} {t : Tree}

theorem defaultsFirst_of_ofElement (h : ofElement e = .ok t) : t.All Node.DefaultsFirst :=
  Tree.defaultsFirst_of_ofElement (ofElement_eq_ok_iff.1 h).1

theorem defaultsFirst_of_parse (h : parse text = .ok t) : t.All Node.DefaultsFirst := by
  obtain ⟨e, -, h⟩ := parse_eq_ok_iff.1 h
  exact defaultsFirst_of_ofElement h

end Report

/-! ### Forests -/

namespace Forest

variable {f g : Forest}

/-- The attributes of every node start with the defaults of its type. -/
def DefaultsFirst (f : Forest) : Prop :=
  ∀ id, (f.get id).DefaultsFirst

theorem defaultsFirst_empty : DefaultsFirst empty := fun id => by
  rw [get_of_not_has (not_has_empty id)]
  exact Node.defaultsFirst_new .report

theorem DefaultsFirst.add (h : f.DefaultsFirst) {node : Node NodeId} (hn : node.DefaultsFirst) :
    (f.add node).2.DefaultsFirst := by
  intro id
  by_cases hid : (f.add node).2.Has id
  · rcases has_add.1 hid with hold | rfl
    · rw [get_add_of_has node hold]
      exact h id
    · rw [get_add_self]
      exact hn
  · rw [get_of_not_has hid]
    exact Node.defaultsFirst_new .report

theorem DefaultsFirst.edit (h : f.DefaultsFirst) {id : NodeId}
    {change : Node NodeId → Except Violation (Node NodeId)}
    (hchange : ∀ {n m}, change n = .ok m → n.GrowsTo m) (accepted : f.edit id change = .ok g) :
    g.DefaultsFirst := by
  obtain ⟨node, hnode, rfl⟩ := edit_eq_ok accepted
  intro other
  rcases get_set_or f id other node with hget | ⟨-, -, hget⟩ <;> rw [hget]
  · exact h other
  · exact (h id).grow (hchange hnode)

theorem DefaultsFirst.addChild (h : f.DefaultsFirst) {parent child : NodeId}
    (accepted : f.addChild parent child = .ok g) : g.DefaultsFirst := by
  obtain ⟨-, -, rfl⟩ := addChild_eq_ok accepted
  intro other
  rcases get_set_or f parent other ((f.get parent).push child) with hget | ⟨-, -, hget⟩ <;>
    rw [hget]
  · exact h other
  · exact (h parent).grow (.push _ child)

theorem DefaultsFirst.unfold (h : f.DefaultsFirst) {bound : Nat} {id : NodeId} {t : Tree}
    (ht : f.unfold bound id = some t) : t.All Node.DefaultsFirst := by
  induction bound generalizing id t with
  | zero => cases ht
  | succ bound ih =>
      obtain ⟨ts, hts, rfl⟩ := unfold_succ_eq_some.1 ht
      refine .mk (h id) fun child hchild => ?_
      obtain ⟨c, -, hc⟩ := exists_of_mem_mapM hts child
        (Node.children_withChildren_subset _ _ child hchild)
      exact ih hc

theorem DefaultsFirst.tree (h : f.DefaultsFirst) (id : NodeId) :
    (f.tree id).All Node.DefaultsFirst := by
  rw [tree_eq_unfold]
  cases ht : f.unfold f.size id with
  | some t => exact h.unfold ht
  | none =>
      exact Tree.defaultsFirst_new .report

theorem DefaultsFirst.plantAll {ts : List Tree}
    (each : ∀ t ∈ ts, ∀ f : Forest, f.DefaultsFirst → (f.plant t).2.DefaultsFirst)
    (h : f.DefaultsFirst) : (f.plantAll ts).2.DefaultsFirst := by
  induction ts generalizing f with
  | nil => exact h
  | cons t ts ih =>
      obtain ⟨ht, hts⟩ := List.forall_mem_cons.1 each
      exact ih hts (ht f h)

theorem DefaultsFirst.plant (h : f.DefaultsFirst) {t : Tree} (ht : t.All Node.DefaultsFirst) :
    (f.plant t).2.DefaultsFirst := by
  induction ht generalizing f with
  | mk root below ih =>
      rw [plant_mk]
      exact (h.plantAll fun t ht f hf => ih t ht hf).add root

theorem DefaultsFirst.planted (h : f.DefaultsFirst) {t : Tree} (ht : t.All Node.DefaultsFirst) :
    (Document.plant f t).2.DefaultsFirst :=
  h.plant ht

theorem DefaultsFirst.newDocument (h : f.DefaultsFirst) : (Document.new f).2.DefaultsFirst :=
  h.planted (Tree.defaultsFirst_new .report)

theorem DefaultsFirst.copy (h : f.DefaultsFirst) (id : NodeId) : (f.copy id).2.DefaultsFirst :=
  h.plant (h.tree id)

end Forest

/-! ### Resolution -/

namespace Library

open Call

variable {lib : Library} {inherit expand : String → Call Resolved}
  {attach : NodeId → NodeId → Call Unit}

theorem setAttribute_maintains (id : NodeId) (name value : String) :
    Maintains DefaultsFirst (edit (·.setAttribute id name value)) :=
  .edit fun _ _ h accepted => h.edit Node.GrowsTo.setAttribute accepted

theorem addChild_maintains (parent child : NodeId) :
    Maintains DefaultsFirst (edit (·.addChild parent child)) :=
  .edit fun _ _ h accepted => h.addChild accepted

theorem new_maintains (kind : NodeType) : Maintains DefaultsFirst (make (·.add (.new kind))) :=
  .make fun _ h => h.add (Node.defaultsFirst_new kind)

theorem copy_maintains (id : NodeId) : Maintains DefaultsFirst (make (·.copy id)) :=
  .make fun _ h => h.copy id

theorem mark_maintains (id : String) (root : NodeId) : Maintains DefaultsFirst (mark id root) := by
  refine (Maintains.look _).bind fun children => (Maintains.look _).bind fun uniform => ?_
  split
  · refine .bind (.forEach fun child _ => ?_) fun _ => .pure uniform
    exact setAttribute_maintains child provenanceAttribute id
  · exact .pure uniform

theorem basis_maintains (hi : ∀ id, Maintains DefaultsFirst (inherit id)) (found : NodeId) :
    Maintains DefaultsFirst (basis inherit found) := by
  refine (Maintains.look _).bind fun template => ?_
  cases template with
  | some template => exact (hi template).bind fun r => copy_maintains r.1
  | none => exact new_maintains .definition

theorem expandWith_maintains (hi : ∀ id, Maintains DefaultsFirst (inherit id))
    (ha : ∀ parent child, Maintains DefaultsFirst (attach parent child)) (id : String) :
    Maintains DefaultsFirst (lib.expandWith inherit attach id) := by
  rw [expandWith]
  split
  · exact .fail _
  · next found _ =>
      refine (basis_maintains hi found).bind fun root => (Maintains.look _).bind fun children => ?_
      refine (Maintains.forEach fun child _ => ha root child).bind fun _ => ?_
      exact (mark_maintains id root).bind fun _ => .pure _

theorem attachWith_maintains (he : ∀ id, Maintains DefaultsFirst (expand id))
    (ha : ∀ parent child, Maintains DefaultsFirst (attach parent child)) (parent child : NodeId) :
    Maintains DefaultsFirst (attachWith expand attach parent child) := by
  have followed : Maintains DefaultsFirst (follow? expand child) := by
    refine (Maintains.look _).bind fun id => ?_
    cases id with
    | some id => exact (he id).attempt
    | none => exact .pure none
  refine followed.bind fun resolved? => ?_
  cases resolved? with
  | some r => exact (Maintains.look _).bind fun children => .forEach fun child _ => ha parent child
  | none =>
      have copied : Maintains DefaultsFirst (make (·.copyAlone child)) :=
        .make fun f h => h.add (h child)
      refine copied.bind fun copy => (Maintains.look _).bind fun children => ?_
      exact (Maintains.forEach fun child _ => ha copy child).bind fun _ =>
        addChild_maintains parent copy

theorem expand_and_splice_maintain (lib : Library) (depth : Nat) :
    (∀ id, Maintains DefaultsFirst (lib.expand depth id)) ∧
      ∀ parent child, Maintains DefaultsFirst (lib.splice depth parent child) := by
  induction depth with
  | zero =>
      exact ⟨fun id => .fail _, fun parent child =>
        (copy_maintains child).bind fun copy => addChild_maintains parent copy⟩
  | succ depth ih =>
      obtain ⟨he, ha⟩ := ih
      have hnext : ∀ id, Maintains DefaultsFirst (lib.expand (depth + 1) id) :=
        expandWith_maintains he ha
      exact ⟨hnext, attachWith_maintains hnext ha⟩

theorem assemble_maintains (lib : Library) (depth : Nat) (id : String) :
    Maintains DefaultsFirst (lib.assemble depth id) := by
  have newDocument : Maintains DefaultsFirst (make Document.new) :=
    .make fun _ h => h.newDocument
  have place : ∀ report kind, Maintains DefaultsFirst (reportPlace report id kind) := by
    intro report kind
    rw [reportPlace.eq_def]
    split
    · exact .pure _
    · exact (new_maintains .incident).bind fun incident =>
        (addChild_maintains report.root incident).bind fun _ => .pure incident
    · exact .fail _
  have collected : ∀ kind place child, Maintains DefaultsFirst (collect kind id place child) := by
    intro kind place child
    refine (Maintains.look _).bind fun found => ?_
    split
    · exact (setAttribute_maintains child _ id).bind fun _ => addChild_maintains place child
    · exact addChild_maintains place child
  refine ((lib.expand_and_splice_maintain depth).1 id).bind fun r => (Maintains.look _).bind
    fun children => ?_
  split
  · exact newDocument
  · refine (Maintains.look _).bind fun kind => newDocument.bind fun report => ?_
    refine (place report kind).bind fun place => ?_
    exact (Maintains.forEach fun child _ => collected kind place child).bind fun _ => .pure report

theorem importDefinitions_defaultsFirst {f : Forest} (h : f.DefaultsFirst) {ts : List Tree}
    (hts : ∀ t ∈ ts, t.All Node.DefaultsFirst) :
    (lib.importDefinitions f ts).2.2.DefaultsFirst := by
  rw [importDefinitions, importAll_eq]
  exact h.plantAll fun t ht f hf => hf.plant (hts t ht)

end Library

/-! ### Worlds -/

namespace World

variable {w : World}

theorem defaultsFirst_edited (h : w.forest.DefaultsFirst) {result : Except Violation Forest}
    (hresult : ∀ g, result = .ok g → g.DefaultsFirst) : (w.edited result).forest.DefaultsFirst := by
  cases result with
  | ok g => exact hresult g rfl
  | error violation => exact h

theorem defaultsFirst_effect (h : w.forest.DefaultsFirst) (operation : Operation) :
    (w.effect operation).forest.DefaultsFirst := by
  have amended : ∀ {id : NodeId} {change : Node NodeId → Except Violation (Node NodeId)},
      (∀ {n m}, change n = .ok m → n.GrowsTo m) →
        (w.edited (w.forest.edit id change)).forest.DefaultsFirst :=
    fun hchange => defaultsFirst_edited h fun _ accepted => h.edit hchange accepted
  cases operation with
  | newNode kind => exact h.add (Node.defaultsFirst_new kind)
  | newWithIdentity kind id definition akindof =>
      rw [effect]
      split
      · next hnode => exact h.add (Node.defaultsFirst_withIdentity hnode)
      · exact h
  | readNode element =>
      rw [effect]
      split
      · next ht => exact h.plant (Tree.defaultsFirst_of_ofElement ht)
      · exact h
  | setAttribute node name value => exact amended .setAttribute
  | addChild parent child => exact defaultsFirst_edited h fun _ => h.addChild
  | setContent node content => exact amended .replaceContent
  | clearContent node => exact amended .replaceContent
  | addFragment node fragment => exact amended .addFragment
  | copy node => exact h.copy node
  | copyAlone node => exact h.add (h node)
  | newDocument => exact h.newDocument
  | readDocument element =>
      rw [effect]
      split
      · next hmade =>
          obtain ⟨t, ht, rfl⟩ := map_eq_ok.1 hmade
          exact h.planted (Report.defaultsFirst_of_ofElement ht)
      · exact h
  | parseDocument text =>
      rw [effect]
      split
      · next hmade =>
          obtain ⟨t, ht, rfl⟩ := map_eq_ok.1 hmade
          exact h.planted (Report.defaultsFirst_of_parse ht)
      · exact h
  | newLibrary => exact h
  | importReport library document =>
      rw [effect]
      split
      · refine Library.importDefinitions_defaultsFirst h fun t ht => ?_
        obtain ⟨id, -, rfl⟩ := List.mem_map.1 ht
        exact h.tree id
      · exact h
  | importText library text =>
      rw [effect]
      split
      · split
        · next himported =>
            obtain ⟨report, hreport, rfl⟩ := map_eq_ok.1 himported
            refine Library.importDefinitions_defaultsFirst h fun t ht => ?_
            exact (Report.defaultsFirst_of_parse (mapError_eq_ok.1 hreport)).child
              (List.mem_filter.1 ht).1
        · exact h
      · exact h
  | find library id => exact h
  | buildNode library depth id =>
      rw [effect]
      split
      · next lib _ => exact (lib.expand_and_splice_maintain depth).1 id w.forest h
      · exact h
  | buildReport library depth id =>
      rw [effect]
      split
      · next lib _ =>
          have kept := lib.assemble_maintains depth id w.forest h
          split <;> next hcall => rw [hcall] at kept; exact kept
      · exact h
  | attach library depth parent child =>
      rw [effect]
      split
      · next lib _ =>
          have kept := (lib.expand_and_splice_maintain (depth - 1)).2 parent child w.forest h
          rw [Library.attach_eq]
          exact kept
      · exact h

/-- In every world the defaults come first. -/
theorem defaultsFirst_run (h : w.forest.DefaultsFirst) (operations : List Operation) :
    (w.run operations).forest.DefaultsFirst := by
  induction operations generalizing w with
  | nil => exact h
  | cons operation operations ih =>
      refine ih ?_
      rw [perform]
      split
      · exact defaultsFirst_effect h operation
      · exact h

end World

end IncidentReport
