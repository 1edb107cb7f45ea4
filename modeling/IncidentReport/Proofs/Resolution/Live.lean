import IncidentReport.Proofs.Library
import IncidentReport.Proofs.Resolution.Builds
import IncidentReport.Resolution.Live

/-!
What resolution against the definitions of a forest builds. An expansion leaves
every node as it is and stands alone; what attaches a node adds new nodes to the
parent and touches nothing else. Neither depends on how a call ends, nor on
whether the parent is a part of what is expanded.
-/

namespace IncidentReport.Library

open Forest Call

/-- What a call that expands a definition is to do. -/
def Expands (lib : Library) (expand : String → Call Resolved) : Prop :=
  ∀ (f : Forest) (id : String), f.WellFormed → lib.Within f →
    Builds f (fun _ => False) (fun _ => False) f (expand id) fun r h => Root f h r.1

/-- What a call that attaches the expansion of a node is to do. -/
def Attaches (lib : Library) (attach : NodeId → NodeId → Call Unit) : Prop :=
  ∀ (f : Forest) (parent child : NodeId), f.WellFormed → lib.Within f → f.Has parent →
    f.Has child →
      Builds f (· = parent) (fun _ => False) f (attach parent child) fun _ _ => True

variable {lib : Library} {f g h : Forest} {opened dropped : NodeId → Prop}
  {inherit expand : String → Call Resolved} {attach : NodeId → NodeId → Call Unit}

theorem Within.later (hl : lib.Within f) (hc : Construction f opened dropped g) : lib.Within g :=
  fun id found hfound => hc.has (hl id found hfound)

/-! ### One level -/

/-- Nodes are attached to a new node, or to one that is open. A root stays one. -/
theorem forEach_attach (ha : lib.Attaches attach) (hf : f.WellFormed) (hl : lib.Within f)
    (hg : Construction f opened dropped g) {parent : NodeId} (hp : g.Has parent)
    (place : f.Has parent → opened parent) {ids : List NodeId} (hids : ∀ id ∈ ids, g.Has id) :
    Builds f opened dropped g (forEach (attach parent) ids) fun _ h =>
      ∀ root, Root f g root → Root f h root := by
  have step : ∀ id rest h, Construction f opened dropped h →
      (h.Has parent ∧ (∀ other ∈ id :: rest, h.Has other) ∧ ∀ root, Root f g root → Root f h root) →
      Builds f opened dropped h (attach parent id) fun _ k =>
        k.Has parent ∧ (∀ id ∈ rest, k.Has id) ∧ ∀ root, Root f g root → Root f k root := by
    intro id rest h hh ⟨hparent, hrest, hroot⟩
    obtain ⟨hid, hrest⟩ := List.forall_mem_cons.1 hrest
    have attached := ha h parent id (hh.wellFormed hf) (hl.later hh) hparent hid
    refine (Builds.stage hh attached ?_ fun _ => False.elim).imp fun _ k _ hk => ?_
    · rintro _ hid rfl
      exact place hid
    · exact ⟨hk.2.has hparent, fun other ho => hk.2.has (hrest other ho),
        fun root hr => (hroot root hr).later hk.2⟩
  exact (Builds.forEach (fun rest h => h.Has parent ∧ (∀ id ∈ rest, h.Has id) ∧
    ∀ root, Root f g root → Root f h root) step hg ⟨hp, hids, fun _ => id⟩).imp
      fun _ _ _ hh => hh.2.2

theorem basis_builds (hi : lib.Expands inherit) (hf : f.WellFormed) (hl : lib.Within f)
    (found : NodeId) :
    Builds f (fun _ => False) (fun _ => False) f (basis inherit found) fun root h =>
      Root f h root := by
  refine .look ?_
  split
  · next template _ =>
      refine (hi f template hf hl).bind fun r h hh _ => ?_
      have copied := copy_spec (hh.wellFormed hf) r.1
      exact .make _ _ hh copied.growth (copied.root.loose hh)
  · obtain ⟨hgrow, hroot⟩ := add_spec hf (Node.new_valid .definition) rfl
    exact .make _ _ .start hgrow hroot

/-- The children of a new node are new, so that marking them touches no other node. -/
theorem mark_builds (hg : Construction f opened dropped g) (id : String) {root : NodeId}
    (hr : Root f g root) :
    Builds f opened dropped g (mark id root) fun _ h => Root f h root := by
  have step : ∀ child rest h, Construction f opened dropped h →
      (Root f h root ∧ ∀ other ∈ child :: rest, ¬ f.Has other) →
      Builds f opened dropped h (edit (·.setAttribute child provenanceAttribute id)) fun _ k =>
        Root f k root ∧ ∀ other ∈ rest, ¬ f.Has other := by
    intro child rest h hh ⟨hroot, hnew⟩
    obtain ⟨hchild, hnew⟩ := List.forall_mem_cons.1 hnew
    exact .edit hh fun k hk => ⟨.mark hh hchild hk, hroot.setAttribute hk, hnew⟩
  have marked := Builds.forEach
    (fun rest h => Root f h root ∧ ∀ other ∈ rest, ¬ f.Has other) step hg
    ⟨hr, fun child hchild => hg.children_new hr.isNew hchild⟩
  refine .look (.look ?_)
  split
  · exact marked.bind fun _ h hh hroot => .pure hh hroot.1
  · exact .pure hg hr

theorem expandWith_builds (hi : lib.Expands inherit) (ha : lib.Attaches attach) :
    lib.Expands (lib.expandWith inherit attach) := by
  intro f id hf hl
  rw [expandWith]
  split
  · exact .fail .start
  · next found hfound =>
      refine (basis_builds hi hf hl found).bind fun root g hg hroot => .look ?_
      have hids : ∀ child ∈ g.children found, g.Has child := (hg.wellFormed hf).closed found
      refine (forEach_attach ha hf hl hg hroot.has (fun hold => absurd hold hroot.isNew)
        hids).bind fun _ h hh hkept => ?_
      exact (mark_builds hh id (hkept root hroot)).bind fun _ k hk hr => .pure hk hr

/-- Where a reference leads nowhere, what was made on the way stays unattached. -/
theorem follow?_builds (he : lib.Expands expand) (hf : f.WellFormed) (hl : lib.Within f)
    (child : NodeId) :
    Builds f (fun _ => False) (fun _ => False) f (follow? expand child) fun _ _ => True := by
  refine .look ?_
  split
  · next id _ => exact .attempt (he f id hf hl)
  · exact .pure .start trivial

/-- Copies a node and attaches what its children expand to. -/
def copyWith (attach : NodeId → NodeId → Call Unit) (node : NodeId) : Call NodeId := do
  let copy ← make (·.copyAlone node)
  forEach (attach copy) (← look (·.children node))
  return copy

/-- What takes the place of a node: the children of what it refers to, or a copy of it. -/
theorem attachWith_eq (expand : String → Call Resolved) (attach : NodeId → NodeId → Call Unit)
    (parent child : NodeId) :
    attachWith expand attach parent child = follow? expand child >>= fun resolved? =>
      resolved?.elim (copyWith attach child >>= fun copy => edit (·.addChild parent copy))
        fun r => look (·.children r.1) >>= forEach (attach parent) := by
  rw [attachWith]
  refine congrArg _ (funext fun resolved? => ?_)
  cases resolved? with
  | some r => rfl
  | none =>
      rw [Option.elim_none, copyWith]
      simp only [Call.bind_assoc, Call.pure_bind]

theorem copyWith_builds (ha : lib.Attaches attach) (hf : f.WellFormed) (hl : lib.Within f)
    (node : NodeId) :
    Builds f (fun _ => False) (fun _ => False) f (copyWith attach node) fun copy h =>
      Root f h copy := by
  obtain ⟨hgrow, hroot⟩ := copyAlone_spec hf node
  have begun : Growth f f := .start
  have made := Builds.make (·.copyAlone node) (fun copy h => Root f h copy) begun hgrow hroot
  refine made.bind fun copy g hg hcopy => .look ?_
  have hids : ∀ id ∈ g.children node, g.Has id := (hg.wellFormed hf).closed node
  refine (forEach_attach ha hf hl hg hcopy.has (fun hold => absurd hold hcopy.isNew)
    hids).bind fun _ h hh hkept => ?_
  exact .pure hh (hkept copy hcopy)

theorem attachWith_builds (he : lib.Expands expand) (ha : lib.Attaches attach) :
    lib.Attaches (attachWith expand attach) := by
  intro f parent child hf hl hp hc
  rw [attachWith_eq]
  refine (Builds.stage .start (follow?_builds he hf hl child) (fun _ _ => False.elim)
    fun _ => False.elim).bind fun resolved? g hg _ => ?_
  cases resolved? with
  | some r =>
      refine .look ?_
      have hids : ∀ id ∈ g.children r.1, g.Has id := (hg.wellFormed hf).closed r.1
      exact (forEach_attach ha hf hl hg (hg.has hp) (fun _ => rfl) hids).imp
        fun _ _ _ _ => trivial
  | none =>
      have copied := copyWith_builds ha (hg.wellFormed hf) (hl.later hg) child
      refine (Builds.stage hg copied (fun _ _ => False.elim) fun _ => False.elim).bind
        fun copy h hh ⟨hroot, _⟩ => ?_
      exact .edit hh fun k hk =>
        ⟨.attach hh (hh.has hp) (fun _ => rfl) (hroot.loose hg) hk, trivial⟩

/-! ### All levels -/

theorem splice_zero_attaches : lib.Attaches (lib.splice 0) := by
  intro f parent child hf _ hp _
  have copied := copy_spec hf child
  refine (Builds.make (·.copy child) (fun copy g => Root f g copy) .start copied.growth
    copied.root).bind fun copy g hg hcopy => ?_
  exact .edit hg fun h hh => ⟨.attach hg (hg.has hp) (fun _ => rfl) hcopy hh, trivial⟩

/-- What is spent on one node is not there for the nodes that it refers to, so the
two kinds of call are followed together. -/
theorem expands_and_attaches (lib : Library) (depth : Nat) :
    lib.Expands (lib.expand depth) ∧ lib.Attaches (lib.splice depth) := by
  induction depth with
  | zero => exact ⟨fun f id hf hl => .fail .start, splice_zero_attaches⟩
  | succ depth ih =>
      obtain ⟨he, ha⟩ := ih
      have hnext := expandWith_builds he ha
      exact ⟨hnext, attachWith_builds hnext ha⟩

theorem expand_builds (lib : Library) (depth : Nat) : lib.Expands (lib.expand depth) :=
  (lib.expands_and_attaches depth).1

theorem attachWithin_builds (lib : Library) (depth : Nat) :
    lib.Attaches (lib.attachWithin depth) :=
  (lib.expands_and_attaches (depth - 1)).2

/-- A node that was built is what the expansion has returned. -/
theorem buildNode_eq_ok {lib : Library} {f g : Forest} {depth : Nat} {id : String} {root : NodeId}
    {kind : Option NodeType} (h : lib.buildNode f depth id = .ok (root, kind, g)) :
    lib.expand depth id f = (.ok (root, kind), g) := by
  rw [buildNode] at h
  split at h
  · next hcall =>
      cases h
      exact hcall
  · cases h

/-- Attaching leaves the forest that the call leaves, whether it fails or not. -/
theorem attach_eq (lib : Library) (f : Forest) (depth : Nat) (parent child : NodeId) :
    (lib.attach f depth parent child).1 = (lib.attachWithin depth parent child f).2 := by
  rw [attach]
  rcases lib.attachWithin depth parent child f with ⟨_ | _, g⟩ <;> rfl

end IncidentReport.Library
