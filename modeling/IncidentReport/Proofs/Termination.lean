import IncidentReport.Proofs.Resolution.Recursion
import IncidentReport.Proofs.World

/-!
Everything comes to an end. In every world the walks and resolution, as they are meant,
have a result if they are followed deep enough: the schema keeps cycles out of the
forest, and every cycle among the definitions costs a unit of the budget.
-/

namespace IncidentReport.World

open Forest Process

/-- In the world no walk and no resolution goes on for ever, and each has the result of the
one that is bounded. -/
structure Terminates (w : World) : Prop where
  contains : ∀ id other, w.forest.Has id →
    Halts (fun n => Recursion.contains w.forest n id other) (w.forest.contains id other)
  addChild : ∀ parent child, w.forest.Has parent → w.forest.Has child →
    Halts (fun n => Recursion.addChild n w.forest parent child) (w.forest.addChild parent child)
  copy : ∀ id, w.forest.Has id →
    Halts (fun n => Recursion.copy n id w.forest) (w.forest.copy id)
  render : ∀ id, w.forest.Has id →
    Halts (fun n => Recursion.render w.forest n id) (w.forest.tree id).toElement
  same : ∀ a b, w.forest.Has a → w.forest.Has b →
    Halts (fun n => Recursion.same w.forest n a b) (w.forest.same a b)
  /-- The search for an attribute and the one for a type, among others. -/
  search : ∀ fits inside id, w.forest.Has id →
    Halts (fun n => Recursion.search w.forest fits inside n id)
      (w.forest.search fits inside w.forest.size id)
  buildNode : ∀ lib ∈ w.libraries, ∀ (depth : UInt32) (id : String),
    let run := fun n => Library.Recursion.resolve lib n depth id
    Ends run (lib.expand depth.toNat id) w.forest ∧ ¬ Underflows run w.forest
  buildReport : ∀ lib ∈ w.libraries, ∀ (depth : UInt32) (id : String),
    let run := fun n => Library.Recursion.assemble lib n depth id
    Ends run (lib.assemble depth.toNat id) w.forest ∧ ¬ Underflows run w.forest
  /-- This is so wherever the parent is: in a definition, or in what is attached. -/
  attach : ∀ lib ∈ w.libraries, ∀ (depth : UInt32) (parent child : NodeId),
    w.forest.Has parent → w.forest.Has child →
    let run := fun n => Library.Recursion.attach lib n depth parent child
    Ends run (lib.attachWithin depth.toNat parent child) w.forest ∧ ¬ Underflows run w.forest

/-- In every world everything comes to an end. -/
theorem run_terminates (operations : List Operation) : (run empty operations).Terminates := by
  have hw := wellFormed_run wellFormed_empty operations
  generalize run empty operations = w at hw
  have hf := hw.forest
  have ready : ∀ lib ∈ w.libraries, ∀ ids : List NodeId, (∀ id ∈ ids, w.forest.Has id) →
      Library.Recursion.Ready lib ids w.forest :=
    fun lib hlib ids hids => ⟨hf, (hw.libraries lib hlib).within, hids⟩
  exact {
    contains := fun id other hid => Recursion.contains_halts hf hid other
    addChild := fun parent child _ hc => Recursion.addChild_halts hf hc parent
    copy := fun id hid => Recursion.copy_halts hf hid
    render := fun id hid => Recursion.render_halts hf hid
    same := fun a b ha _ => Recursion.same_halts hf ha b
    search := fun fits inside id hid => Recursion.search_halts hf hid fits inside
    buildNode := fun lib hlib depth id => by
      have bare := ready lib hlib [] (List.forall_mem_nil _)
      have ends := (Library.Recursion.ends lib depth.toNat).1 depth rfl id w.forest bare
      exact ⟨ends, ends.not_underflows⟩
    buildReport := fun lib hlib depth id => by
      have bare := ready lib hlib [] (List.forall_mem_nil _)
      have ends := Library.Recursion.assemble_ends lib depth id bare
      exact ⟨ends, ends.not_underflows⟩
    attach := fun lib hlib depth parent child hp hc => by
      have both := ready lib hlib [parent, child] (by simp [hp, hc])
      have ends := Library.Recursion.attachWithin_ends lib depth.toNat depth rfl parent child
        w.forest both
      exact ⟨ends, ends.not_underflows⟩ }

end IncidentReport.World
