import IncidentReport.Proofs.Forest.Recursion
import IncidentReport.Proofs.Resolution.Live

/-!
Resolution as it is meant: its functions call each other with budgets of 32 bits, and
nothing but the budget and the forest stops them. A run is followed so many calls deep,
and has no outcome, `none`, if it goes deeper; one that takes a unit from an empty budget
breaks off. Main statement: every run comes to an end, does not break off, and has the
outcome of the call whose budget is the recursion; even where nodes are attached to what
is being read.
-/

namespace IncidentReport

/-- Why a run stops short. -/
inductive Stop where
  /-- A unit has been taken from a budget of none. -/
  | underflow
  | failed (error : ResolveError)

/-- A run: from a forest to the answer and the forest that it leaves, if it has an
outcome. -/
abbrev Process := ExceptT Stop (StateT Forest Option)

namespace Process

variable {α : Type}

/-- The outcome of a call as one of a run. -/
def outcome (made : Except ResolveError α × Forest) : Except Stop α × Forest :=
  (made.1.mapError .failed, made.2)

/-- A single step, which is a call. -/
def step (x : Call α) : Process α :=
  ExceptT.mk fun f => some (outcome (x f))

/-- A run that goes deeper than it is followed. -/
def tooDeep : Process α :=
  ExceptT.mk fun _ => none

/-- Takes a unit from a budget. -/
def spend (depth : UInt32) : Process UInt32 :=
  if depth = 0 then throw .underflow else pure (depth - 1)

def copy (n : Nat) (id : NodeId) : Process NodeId :=
  ExceptT.lift (Forest.Recursion.copy n id)

def addChild (n : Nat) (parent child : NodeId) : Process Unit :=
  ExceptT.mk fun f => do
    match ← Forest.Recursion.addChild n f parent child with
    | .ok f => some (.ok (), f)
    | .error violation => some (.error (.failed (.schema violation)), f)

/-- Makes a run and goes on without an answer if it fails. -/
def attempt (x : Process α) : Process (Option α) :=
  show StateT Forest Option (Except Stop (Option α)) from do
    match ← x.run with
    | .ok a => return .ok (some a)
    | .error (.failed _) => return .ok none
    | .error .underflow => return .error .underflow

end Process

namespace Library.Recursion

open Call Process

mutual

/-- Expands a definition within a budget. -/
def resolve (lib : Library) : Nat → UInt32 → String → Process Resolved
  | 0, _, _ => tooDeep
  | n + 1, depth, id =>
    if depth = 0 then
      throw (.failed (.depthExhausted id))
    else
      match lib.find? id with
      | none => throw (.failed (.notFound id))
      | some found => do
        let root ← basis lib n depth found
        let children ← step (look (·.children found))
        children.forM fun child => attach lib n depth root child
        let uniform ← step (mark id root)
        return (root, uniform)

def basis (lib : Library) : Nat → UInt32 → NodeId → Process NodeId
  | 0, _, _ => tooDeep
  | n + 1, depth, found => do
    match ← step (look fun f => (f.get found).attribute? templateAttribute) with
    | some template => do
      let depth ← spend depth
      let resolved ← resolve lib n depth template
      copy n resolved.1
    | none => step (make (·.add (.new .definition)))

/-- Attaches the expansion of a node within a budget. -/
def attach (lib : Library) : Nat → UInt32 → NodeId → NodeId → Process Unit
  | 0, _, _, _ => tooDeep
  | n + 1, depth, parent, child => do
    match ← follow lib n depth child with
    | some resolved => do
      let children ← step (look (·.children resolved.1))
      children.forM fun child => do
        let depth ← spend depth
        attach lib n depth parent child
    | none => do
      let copy ← copyExpanded lib n (if depth = 0 then 0 else depth - 1) child
      addChild n parent copy

/-- Expands the definition that a node refers to, if it does, the budget allows it and
it succeeds. -/
def follow (lib : Library) : Nat → UInt32 → NodeId → Process (Option Resolved)
  | 0, _, _ => tooDeep
  | n + 1, depth, child =>
    if depth < 2 then
      return none
    else do
      match ← step (look fun f => (f.get child).attribute? definitionAttribute) with
      | some id => do
        let depth ← spend depth
        attempt (resolve lib n depth id)
      | none => return none

/-- Copies a node and attaches the expansions of its children to the copy. -/
def copyExpanded (lib : Library) : Nat → UInt32 → NodeId → Process NodeId
  | 0, _, _ => tooDeep
  | n + 1, depth, node =>
    if depth = 0 then
      copy n node
    else do
      let copy ← step (make (·.copyAlone node))
      let children ← step (look (·.children node))
      children.forM fun child => attach lib n depth copy child
      return copy

end

/-- Makes the node of a new report that nodes of type `kind` go to. -/
def reportPlace (n : Nat) (report : Document) (id : String) : NodeType → Process NodeId
  | .incident => pure report.root
  | .state => do
    let incident ← step (make (·.add (.new .incident)))
    addChild n report.root incident
    return incident
  | found => throw (.failed (.unsupported id found))

/-- Puts a node into a report. One of type `kind` is given the id of the definition. -/
def collect (n : Nat) (kind : NodeType) (id : String) (place child : NodeId) :
    Process Unit := do
  if (← step (look fun f => (f.get child).kind)) = kind then
    step (edit (·.setAttribute child definitionAttribute id))
  addChild n place child

/-- Expands a definition and moves the expanded children into a new report. -/
def assemble (lib : Library) (n : Nat) (depth : UInt32) (id : String) : Process Document := do
  let resolved ← resolve lib n depth id
  match ← step (look (·.children resolved.1)) with
  | [] => step (make Document.new)
  | first :: rest => do
    let kind ← step (look fun f => resolved.2.getD (f.get first).kind)
    let report ← step (make Document.new)
    let place ← reportPlace n report id kind
    (first :: rest).forM fun child => collect n kind id place child
    return report

end Library.Recursion

/-! ### Rules -/

namespace Process

theorem pred_of_toNat_eq_succ {depth : UInt32} {n : Nat} (hd : depth.toNat = n + 1) :
    depth ≠ 0 ∧ (depth - 1).toNat = n := by
  have hle : 1 ≤ depth := UInt32.le_iff_toNat_le.2 (hd ▸ Nat.le_add_left 1 n)
  refine ⟨?_, ?_⟩
  · rintro rfl
    cases hd
  · rw [UInt32.toNat_sub_of_le depth 1 hle, hd]
    rfl

variable {α β : Type} {x : Nat → Process α} {c : Call α} {f : Forest}

/-- The run comes to an end, with the outcome of the call. -/
def Ends (x : Nat → Process α) (c : Call α) (f : Forest) : Prop :=
  Halts (fun n => x n f) (outcome (c f))

/-- The run comes to an end as it takes a unit from a budget of none. -/
def Underflows (x : Nat → Process α) (f : Forest) : Prop :=
  ∃ g, Halts (fun n => x n f) (.error .underflow, g)

namespace Ends

theorem not_underflows (h : Ends x c f) : ¬ Underflows x f := by
  rintro ⟨g, hg⟩
  have failed : (c f).1.mapError Stop.failed = .error .underflow :=
    congrArg Prod.fst (h.unique hg)
  generalize (c f).1 = answer at failed
  cases answer <;> cases failed

theorem of_succ (h : Ends (fun n => x (n + 1)) c f) : Ends x c f :=
  Halts.of_succ h

theorem step (c : Call α) (f : Forest) : Ends (fun _ => step c) c f :=
  .const _

theorem pure (a : α) (f : Forest) : Ends (fun _ => pure a) (pure a) f :=
  .const _

theorem fail (e : ResolveError) (f : Forest) :
    Ends (fun _ => (throw (.failed e) : Process α)) (Call.fail e) f :=
  .const _

theorem bind {next : Nat → α → Process β} {next' : α → Call β} (hx : Ends x c f)
    (hnext : ∀ a, (c f).1 = .ok a → Ends (fun n => next n a) (next' a) (c f).2) :
    Ends (fun n => x n >>= next n) (c >>= next') f := by
  rw [Ends] at hx ⊢
  rw [Call.bind_apply]
  refine hx.bind ?_
  rcases hc : c f with ⟨e | a, g⟩
  · exact .const _
  · rw [hc] at hnext
    exact hnext a rfl

/-- What is so with any number of nodes left, and is kept by each of them, is enough to
go through all of them. -/
theorem forM {act : Nat → NodeId → Process Unit} {act' : NodeId → Call Unit}
    {p : Forest → Prop} {ids : List NodeId}
    (hact : ∀ id ∈ ids, ∀ g, p g → Ends (fun n => act n id) (act' id) g ∧ p (act' id g).2)
    (hf : p f) : Ends (fun n => ids.forM (act n)) (Call.forEach act' ids) f := by
  induction ids generalizing f with
  | nil => exact .pure () f
  | cons id ids ih =>
      obtain ⟨hfirst, hrest⟩ := List.forall_mem_cons.1 hact
      obtain ⟨ends, kept⟩ := hfirst f hf
      exact ends.bind fun _ _ => ih hrest kept

theorem attempt (h : Ends x c f) : Ends (fun n => attempt (x n)) (Call.attempt c) f := by
  rw [Ends] at h ⊢
  rw [Call.attempt]
  refine h.bind ?_
  rcases c f with ⟨_ | _, _⟩ <;> exact .const _

theorem copy (hf : f.WellFormed) {id : NodeId} (hid : f.Has id) :
    Ends (fun n => copy n id) (Call.make (·.copy id)) f :=
  (Forest.Recursion.copy_halts hf hid).bind (.const _)

theorem addChild (hf : f.WellFormed) {parent child : NodeId} (hc : f.Has child) :
    Ends (fun n => addChild n parent child) (Call.edit (·.addChild parent child)) f := by
  rw [Ends, Call.edit]
  refine (Forest.Recursion.addChild_halts hf hc parent).bind ?_
  cases f.addChild parent child <;> exact .const _

/-- A unit is there to be taken. -/
theorem spend {depth : UInt32} {k : Nat} (hd : depth.toNat = k + 1)
    {next : Nat → UInt32 → Process α}
    (hnext : (depth - 1).toNat = k → Ends (fun n => next n (depth - 1)) c f) :
    Ends (fun n => spend depth >>= next n) c f := by
  obtain ⟨hne, hpred⟩ := pred_of_toNat_eq_succ hd
  rw [Process.spend, if_neg hne]
  exact hnext hpred

end Ends

end Process

/-! ### Resolution -/

namespace Library.Recursion

open Call Process Forest

variable {lib : Library} {budget : Nat}

/-- What resolution needs: a forest that obeys the schema, with the definitions and these
nodes in it. -/
structure Ready (lib : Library) (ids : List NodeId) (f : Forest) : Prop where
  wellFormed : f.WellFormed
  within : lib.Within f
  has : ∀ id ∈ ids, f.Has id

theorem Ready.later {ids : List NodeId} {f g : Forest} {opened dropped : NodeId → Prop}
    (h : Ready lib ids f) (hg : Construction f opened dropped g) : Ready lib ids g where
  wellFormed := hg.wellFormed h.wellFormed
  within := h.within.later hg
  has id hid := hg.has (h.has id hid)

/-- Every expansion with this budget ends. -/
def ResolveEnds (lib : Library) (budget : Nat) : Prop :=
  ∀ depth : UInt32, depth.toNat = budget → ∀ (id : String) (f : Forest), Ready lib [] f →
    Ends (fun n => resolve lib n depth id) (lib.expand budget id) f

/-- Every attachment with this budget ends. -/
def AttachEnds (lib : Library) (budget : Nat) : Prop :=
  ∀ depth : UInt32, depth.toNat = budget → ∀ (parent child : NodeId) (f : Forest),
    Ready lib [parent, child] f →
      Ends (fun n => attach lib n depth parent child) (lib.attachWithin budget parent child) f

/-- Many nodes are attached one after the other. What has been attached may be read on
the way. -/
theorem forM_ends {act : Nat → NodeId → Process Unit} {parent : NodeId} {ids : List NodeId}
    {f : Forest}
    (hact : ∀ child g, Ready lib [parent, child] g →
      Ends (fun n => act n child) (lib.splice budget parent child) g)
    (hf : Ready lib (parent :: ids) f) :
    Ends (fun n => ids.forM (act n)) (forEach (lib.splice budget parent) ids) f := by
  refine .forM (p := Ready lib (parent :: ids)) (fun child hchild g hg => ?_) hf
  obtain ⟨hp, hids⟩ := List.forall_mem_cons.1 hg.has
  have both : Ready lib [parent, child] g :=
    ⟨hg.wellFormed, hg.within, by simp [hp, hids child hchild]⟩
  have built := (lib.expands_and_attaches budget).2 g parent child hg.wellFormed hg.within hp
    (hids child hchild)
  exact ⟨hact child g both, hg.later built.construction⟩

theorem basis_ends (hr : ResolveEnds lib budget) {depth : UInt32}
    (hd : depth.toNat = budget + 1) (found : NodeId) {f : Forest} (hf : Ready lib [] f) :
    Ends (fun n => basis lib n depth found) (Library.basis (lib.expand budget) found) f := by
  refine .of_succ ?_
  simp only [basis]
  rw [Library.basis]
  refine (Ends.step _ f).bind fun template? _ => ?_
  cases template? with
  | none => exact .step _ f
  | some template =>
      refine .spend hd fun hd => (hr _ hd template f hf).bind fun resolved hresolved => ?_
      have built := lib.expand_builds budget f template hf.wellFormed hf.within
      exact .copy (built.construction.wellFormed hf.wellFormed) (built.answer _ hresolved).has

theorem resolve_ends (hr : ResolveEnds lib budget) (ha : AttachEnds lib (budget + 1)) :
    ResolveEnds lib (budget + 1) := by
  intro depth hd id f hf
  obtain ⟨hne, -⟩ := pred_of_toNat_eq_succ hd
  refine .of_succ ?_
  show Ends _ (lib.expandWith (lib.expand budget) (lib.splice budget) id) f
  simp only [resolve, if_neg hne]
  rw [expandWith]
  cases hfound : lib.find? id with
  | none => exact .fail _ f
  | some found =>
      refine (basis_ends hr hd found hf).bind fun root hroot => ?_
      have built := basis_builds (lib.expand_builds budget) hf.wellFormed hf.within found
      have hg := hf.later built.construction
      have alone := built.answer root hroot
      generalize (Library.basis (lib.expand budget) found f).2 = g at hg alone ⊢
      refine (Ends.step _ g).bind fun children hchildren => ?_
      cases hchildren
      have ready : Ready lib (root :: g.children found) g :=
        ⟨hg.wellFormed, hg.within, List.forall_mem_cons.2 ⟨alone.has, hg.wellFormed.closed found⟩⟩
      refine (forM_ends (fun child h hh => ha depth hd root child h hh) ready).bind fun _ _ => ?_
      exact (Ends.step _ _).bind fun _ _ => .pure _ _

theorem follow_ends (hr : ResolveEnds lib (budget + 1)) {depth : UInt32}
    (hd : depth.toNat = budget + 2) (child : NodeId) {f : Forest} (hf : Ready lib [] f) :
    Ends (fun n => follow lib n depth child) (follow? (lib.expand (budget + 1)) child) f := by
  have enough : ¬ depth < 2 := by
    rw [UInt32.lt_iff_toNat_lt, hd]
    exact not_lt.2 (Nat.le_add_left 2 budget)
  refine .of_succ ?_
  simp only [follow, if_neg enough]
  rw [follow?]
  refine (Ends.step _ f).bind fun id? hid => ?_
  cases id? with
  | none => exact .pure _ _
  | some id => exact .spend hd fun hd => (hr _ hd id f hf).attempt

theorem copyExpanded_ends (ha : AttachEnds lib (budget + 1)) {depth : UInt32}
    (hd : depth.toNat = budget + 1) (node : NodeId) {f : Forest} (hf : Ready lib [] f) :
    Ends (fun n => copyExpanded lib n depth node) (copyWith (lib.splice budget) node) f := by
  obtain ⟨hne, -⟩ := pred_of_toNat_eq_succ hd
  obtain ⟨hgrow, hroot⟩ := copyAlone_spec hf.wellFormed node
  have hg := hf.later hgrow
  refine .of_succ ?_
  simp only [copyExpanded, if_neg hne]
  rw [copyWith]
  refine (Ends.step _ f).bind fun copy hcopy => (Ends.step _ _).bind fun children hchildren => ?_
  cases hcopy
  cases hchildren
  have ready : Ready lib ((f.copyAlone node).1 :: (f.copyAlone node).2.children node)
      (f.copyAlone node).2 :=
    ⟨hg.wellFormed, hg.within, List.forall_mem_cons.2 ⟨hroot.has, hg.wellFormed.closed node⟩⟩
  exact (forM_ends (fun child h hh => ha depth hd _ child h hh) ready).bind fun _ _ => .pure _ _

/-- Too little to follow a reference: a copy is attached. -/
theorem attach_ends_of_le_one (hb : budget ≤ 1) : AttachEnds lib budget := by
  intro depth hd parent child f hf
  have short : depth < 2 := by
    rw [UInt32.lt_iff_toNat_lt, hd]
    exact Nat.lt_succ_of_le hb
  have spent : (if depth = 0 then 0 else depth - 1) = 0 := by
    rcases Nat.le_one_iff_eq_zero_or_eq_one.1 hb with rfl | rfl
    · obtain rfl : depth = 0 := UInt32.toNat_inj.1 hd
      rfl
    · obtain rfl : depth = 1 := UInt32.toNat_inj.1 hd
      rfl
  obtain ⟨hp, hc⟩ := List.forall_mem_cons.1 hf.has
  have copied := copy_spec hf.wellFormed child
  have unfollowed : Ends (fun n => follow lib n depth child) (Pure.pure none) f := by
    refine .of_succ ?_
    simp only [follow, if_pos short]
    exact .pure none f
  have literal : Ends (fun n => copyExpanded lib n 0 child) (make (·.copy child)) f :=
    .of_succ (.copy hf.wellFormed (hc child List.mem_cons_self))
  refine .of_succ ?_
  simp only [attach, spent]
  rw [attachWithin, Nat.sub_eq_zero_of_le hb, splice]
  show Ends _ ((Pure.pure none : Call (Option Resolved)) >>= fun _ =>
    make (·.copy child) >>= fun copy => edit (·.addChild parent copy)) f
  refine unfollowed.bind fun resolved? hresolved => ?_
  cases hresolved
  refine literal.bind fun copy hcopy => ?_
  cases hcopy
  exact .addChild (hf.later copied.growth).wellFormed copied.root.has

theorem attach_ends (hr : ResolveEnds lib (budget + 1)) (ha : AttachEnds lib (budget + 1)) :
    AttachEnds lib (budget + 2) := by
  intro depth hd parent child f hf
  obtain ⟨hp, -⟩ := List.forall_mem_cons.1 hf.has
  have bare : Ready lib [] f := ⟨hf.wellFormed, hf.within, List.forall_mem_nil _⟩
  rw [attachWithin, show budget + 2 - 1 = budget + 1 from rfl, splice_succ, attachWith_eq]
  refine .of_succ ?_
  simp only [attach]
  refine (follow_ends hr hd child bare).bind fun resolved? hresolved => ?_
  have built := follow?_builds (lib.expand_builds (budget + 1)) hf.wellFormed hf.within child
  have hg := bare.later built.construction
  have hp := built.construction.has hp
  generalize (follow? (lib.expand (budget + 1)) child f).2 = g at hg hp ⊢
  cases resolved? with
  | some r =>
      -- The children of the definition are attached with the unit less that it cost.
      refine (Ends.step _ g).bind fun children hchildren => ?_
      cases hchildren
      refine forM_ends (fun child h hh => .spend hd fun hd => ?_)
        ⟨hg.wellFormed, hg.within, List.forall_mem_cons.2 ⟨hp, hg.wellFormed.closed r.1⟩⟩
      exact ha _ hd parent child h hh
  | none =>
      have copied := copyWith_builds (lib.expands_and_attaches budget).2 hg.wellFormed hg.within
        child
      obtain ⟨hne, hpred⟩ := pred_of_toNat_eq_succ hd
      simp only [if_neg hne]
      refine (copyExpanded_ends ha hpred child hg).bind fun copy hcopy => ?_
      exact .addChild (copied.construction.wellFormed hg.wellFormed) (copied.answer copy hcopy).has

theorem resolve_zero_ends : ResolveEnds lib 0 := by
  intro depth hd id f _
  obtain rfl : depth = 0 := UInt32.toNat_inj.1 hd
  rw [expand]
  exact .of_succ (.fail _ f)

/-- Every run ends, whatever the budget. -/
theorem ends (lib : Library) (budget : Nat) :
    ResolveEnds lib budget ∧ AttachEnds lib (budget + 1) := by
  -- An expansion attaches with the budget that it has, while an attachment expands with one
  -- unit less: so attachments are a unit ahead.
  induction budget with
  | zero => exact ⟨resolve_zero_ends, attach_ends_of_le_one (Nat.le_refl 1)⟩
  | succ budget ih =>
      obtain ⟨hr, ha⟩ := ih
      have hnext := resolve_ends hr ha
      exact ⟨hnext, attach_ends hnext ha⟩

theorem attachWithin_ends (lib : Library) (budget : Nat) : AttachEnds lib budget := by
  cases budget with
  | zero => exact attach_ends_of_le_one (Nat.zero_le 1)
  | succ budget => exact (ends lib budget).2

/-! ### Reports -/

section Reports

variable {f g : Forest} {ids : List NodeId} {place child : NodeId}

theorem Ready.extend (h : Ready lib ids f) (hg : g.WellFormed) (he : f.Extends g) :
    Ready lib ids g where
  wellFormed := hg
  within id found hfound := (he _ (h.within id found hfound)).1
  has id hid := (he id (h.has id hid)).1

theorem setAttribute_maintains (id : NodeId) (name value : String) :
    Maintains (Ready lib ids) (edit (·.setAttribute id name value)) :=
  .edit fun _ _ h accepted => h.extend (h.wellFormed.edit Node.amends_setAttribute accepted)
    (extends_edit Node.amends_setAttribute accepted)

theorem addChild_maintains (hp : place ∈ ids) (hc : child ∈ ids) :
    Maintains (Ready lib ids) (edit (·.addChild place child)) :=
  .edit fun _ _ h accepted => h.extend (h.wellFormed.addChild (h.has _ hp) (h.has _ hc) accepted)
    (extends_addChild accepted)

theorem collect_maintains (kind : NodeType) (id : String) (hp : place ∈ ids) (hc : child ∈ ids) :
    Maintains (Ready lib ids) (Library.collect kind id place child) := by
  refine (Maintains.look _).bind fun found => ?_
  split
  · exact (setAttribute_maintains child definitionAttribute id).bind fun _ =>
      addChild_maintains hp hc
  · exact addChild_maintains hp hc

theorem collect_ends (kind : NodeType) (id : String) (hc : child ∈ ids) (hf : Ready lib ids f) :
    Ends (fun n => collect n kind id place child) (Library.collect kind id place child) f := by
  refine (Ends.step _ f).bind fun found _ => ?_
  split
  · refine (Ends.step _ f).bind fun _ _ => ?_
    have hg := setAttribute_maintains child definitionAttribute id f hf
    exact .addChild hg.wellFormed (hg.has child hc)
  · exact .addChild hf.wellFormed (hf.has child hc)

theorem reportPlace_ends (report : Document) (id : String) (kind : NodeType)
    (hf : Ready lib (report.root :: ids) f) :
    Ends (fun n => reportPlace n report id kind) (Library.reportPlace report id kind) f ∧
      ∀ place, (Library.reportPlace report id kind f).1 = .ok place →
        Ready lib (place :: ids) (Library.reportPlace report id kind f).2 := by
  obtain ⟨hroot, hids⟩ := List.forall_mem_cons.1 hf.has
  cases kind with
  | incident =>
      refine ⟨.pure _ f, fun place hplace => ?_⟩
      cases hplace
      exact hf
  | state =>
      obtain ⟨hgrow, halone⟩ := add_spec hf.wellFormed (Node.new_valid .incident) rfl
      have hg := hf.later hgrow
      have ready : Ready lib ((f.add (.new .incident)).1 :: report.root :: ids)
          (f.add (.new .incident)).2 :=
        ⟨hg.wellFormed, hg.within, List.forall_mem_cons.2 ⟨halone.has, hg.has⟩⟩
      refine ⟨(Ends.step _ f).bind fun incident hincident => ?_, fun place hplace => ?_⟩
      · cases hincident
        exact (Ends.addChild hg.wellFormed halone.has).bind fun _ _ => .pure _ _
      · have after : Ready lib ((f.add (.new .incident)).1 :: report.root :: ids)
            (edit (·.addChild report.root (f.add (.new .incident)).1)
              (f.add (.new .incident)).2).2 :=
          addChild_maintains (by simp) List.mem_cons_self _ ready
        have same : Library.reportPlace report id .state f =
            (edit (·.addChild report.root (f.add (.new .incident)).1) >>= fun _ =>
              pure (f.add (.new .incident)).1) (f.add (.new .incident)).2 := rfl
        rw [same] at hplace ⊢
        obtain ⟨hcall, rfl⟩ := bind_const_apply hplace
        rw [hcall]
        obtain ⟨hhas, hrest⟩ := List.forall_mem_cons.1 after.has
        exact ⟨after.wellFormed, after.within,
          List.forall_mem_cons.2 ⟨hhas, (List.forall_mem_cons.1 hrest).2⟩⟩
  | _ => exact ⟨.fail _ f, nofun⟩

theorem assemble_ends (lib : Library) (depth : UInt32) (id : String) (hf : Ready lib [] f) :
    Ends (fun n => assemble lib n depth id) (lib.assemble depth.toNat id) f := by
  refine ((ends lib depth.toNat).1 depth rfl id f hf).bind fun resolved _ => ?_
  have built := lib.expand_builds depth.toNat f id hf.wellFormed hf.within
  have hg := hf.later built.construction
  generalize (lib.expand depth.toNat id f).2 = g at hg ⊢
  obtain ⟨root, uniform⟩ := resolved
  refine (Ends.step _ g).bind fun children hchildren => ?_
  cases hchildren
  have has : ∀ child ∈ g.children root, g.Has child := hg.wellFormed.closed root
  dsimp only
  generalize g.children root = children at has ⊢
  cases children with
  | nil => exact .step _ g
  | cons first rest =>
      refine (Ends.step _ g).bind fun kind _ => (Ends.step _ g).bind fun report hreport => ?_
      cases hreport
      have planted := plant_spec (Tree.valid_new .report) hg.wellFormed
      have later := hg.later planted.growth
      have ready : Ready lib ((Document.new g).1.root :: first :: rest) (Document.new g).2 :=
        ⟨later.wellFormed, later.within, List.forall_mem_cons.2 ⟨planted.root.has,
          fun child hchild => planted.growth.has (has child hchild)⟩⟩
      obtain ⟨hplace, hready⟩ := reportPlace_ends (Document.new g).1 id kind ready
      refine hplace.bind fun place h => ?_
      refine (Ends.forM (p := Ready lib (place :: first :: rest)) (fun child hchild k hk => ?_)
        (hready place h)).bind fun _ _ => .pure _ _
      have hmem := List.mem_cons_of_mem place hchild
      exact ⟨collect_ends kind id hmem hk,
        collect_maintains kind id List.mem_cons_self hmem k hk⟩

end Reports

end Library.Recursion

end IncidentReport
