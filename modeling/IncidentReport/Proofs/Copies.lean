import IncidentReport.Proofs.Forest.Equality
import IncidentReport.Proofs.History
import IncidentReport.Proofs.Isolation

/-!
Copies stand on their own. A copy is a tree of new nodes, so calls on it do not show in
what was there before, and calls on anything else do not show in it. A library files
copies, so what it holds stays as it was when it was imported, as long as no call is made
on what a search has returned.
-/

namespace IncidentReport

open Forest

/-! ### What stays -/

namespace Forest

variable {f g h : Forest} {id : NodeId}

/-- The node and all that is below it are as they were. -/
structure Stays (f g : Forest) (id : NodeId) : Prop where
  nodes : ∀ other, f.Reaches id other → g.get other = f.get other
  tree : g.tree id = f.tree id

theorem WellFormed.stays (hf : f.WellFormed) (hg : g.WellFormed)
    (nodes : ∀ other, f.Reaches id other → g.get other = f.get other) : Stays f g id :=
  ⟨nodes, tree_congr hf hg nodes⟩

theorem Stays.refl (f : Forest) (id : NodeId) : Stays f f id :=
  ⟨fun _ _ => rfl, rfl⟩

theorem Stays.reaches_iff (hs : Stays f g id) {other : NodeId} :
    g.Reaches id other ↔ f.Reaches id other := by
  refine ⟨reaches_of_get_eq hs.nodes, fun hr => ?_⟩
  induction hr with
  | refl => exact .refl
  | tail hpath hstep ih =>
      rw [HasChild, children, ← hs.nodes _ hpath] at hstep
      exact ih.tail hstep

theorem Stays.trans (hs : Stays f g id) (hs' : Stays g h id) : Stays f h id where
  nodes other ho := (hs'.nodes other (hs.reaches_iff.2 ho)).trans (hs.nodes other ho)
  tree := hs'.tree.trans hs.tree

/-- Building leads to an old node in old ways only. -/
theorem Construction.reaches_old {opened dropped : NodeId → Prop}
    (hc : Construction f opened dropped g) {other : NodeId} (ho : f.Has other)
    (hr : g.Reaches id other) : f.Reaches id other := by
  induction hr with
  | refl => exact .refl
  | tail _ hstep ih =>
      have hstep := hc.parents_old ho hstep
      exact (ih (has_of_hasChild hstep)).tail hstep

theorem Changes.isNew_of_reaches {operation : Operation} (h : Changes f operation g)
    (hnew : ¬ f.Has id) (hid : g.Has id) {other : NodeId} (hr : g.Reaches id other) :
    ¬ f.Has other := by
  cases h with
  | build done => exact done.isNew_of_reaches hnew hr
  | edit => exact absurd (has_set.1 hid) hnew

/-- Where a call leads from a node, all old nodes are what has been below it or below
the nodes that the call is given. -/
theorem Changes.of_reaches {operation : Operation} (h : Changes f operation g)
    {p : NodeId → Prop} (closed : ∀ a b, p a → f.HasChild a b → p b)
    (given : ∀ id ∈ operation.handles, p id) (hid : p id) {other : NodeId} (ho : f.Has other)
    (hr : g.Reaches id other) : p other := by
  cases h with
  | build done =>
      have old := done.reaches_old ho hr
      clear ho hr
      induction old with
      | refl => exact hid
      | tail _ hstep ih => exact closed _ _ ih hstep
  | @edit target node _ _ children =>
      -- The target alone has other children than before, and those the call was given.
      clear ho
      induction hr with
      | refl => exact hid
      | @tail parent child _ hstep ih =>
          rw [HasChild, Forest.children] at hstep
          rcases get_set_or f target parent node with hget | ⟨rfl, -, hget⟩ <;> rw [hget] at hstep
          · exact closed _ _ ih hstep
          · exact (children child hstep).elim (closed _ _ ih) (given child)

/-! ### Copies -/

/-- The node `made` is a copy of a node of `f`: equal to it, with the attributes in the
same order, made of new nodes, one for each path, and out of the reach of all others. -/
structure Copied (f g : Forest) (id made : NodeId) : Prop where
  same : g.same made id = true
  tree : g.tree made = f.tree id
  newTree : f.NewTree g made
  apart : ∀ old, f.Has old → ∀ other, g.Reaches old other → ¬ g.Reaches made other

theorem WellFormed.copied (hf : f.WellFormed) (hid : f.Has id) :
    Copied f (f.copy id).2 id (f.copy id).1 := by
  have planted := copy_spec hf id
  have hg := planted.growth.wellFormed hf
  refine ⟨?_, planted.tree, ?_, fun old hold other ho hmade => ?_⟩
  · rw [same_iff hg planted.root.has, planted.tree, planted.growth.tree_eq hf hid]
    exact Tree.same_refl _
  · exact planted.growth.newTree hf planted.root fun _ => False.elim
  · have stays := hf.stays hg fun next hnext =>
      (planted.growth.keeps next (hf.closed.has_of_reaches hold hnext)).2
    exact planted.growth.isNew_of_reaches planted.root.isNew hmade
      (hf.closed.has_of_reaches hold (stays.reaches_iff.1 ho))

end Forest

namespace World

variable {w : World} {id : NodeId} {operation : Operation} {operations : List Operation}

/-! ### Calls elsewhere -/

/-- What no call is made on or below stays. -/
theorem stays_run (hw : w.WellFormed) (hid : w.forest.Has id)
    (hout : ∀ operation ∈ operations, ∀ target ∈ operation.target?, ¬ w.forest.Reaches id target) :
    Stays w.forest (w.run operations).forest id := by
  refine hw.forest.stays (wellFormed_run hw operations).forest fun other ho => ?_
  refine get_run hw (hw.forest.closed.has_of_reaches hid ho) fun operation hop htarget => ?_
  exact hout operation hop other htarget ho

theorem stays_perform (hw : w.WellFormed) (hid : w.forest.Has id)
    (hout : ∀ target ∈ operation.target?, ¬ w.forest.Reaches id target) :
    Stays w.forest (w.perform operation).forest id := by
  show Stays w.forest (w.run [operation]).forest id
  exact stays_run hw hid (List.forall_mem_singleton.2 hout)

/-- A call that is made on no node leaves every node as it is. -/
theorem stays_of_target?_eq_none (hw : w.WellFormed) (hid : w.forest.Has id)
    (hno : operation.target? = none) : Stays w.forest (w.perform operation).forest id :=
  stays_perform hw hid fun target htarget => by
    rw [hno] at htarget
    cases htarget

end World

/-! ### What libraries hold -/

namespace Library

variable {lib : Library} {f : Forest} {ts : List Tree}

theorem subset_fileUnder (keyed : List (String × List NodeId)) (key : String) (node : NodeId) :
    keyed.flatMap (·.2) ⊆ (fileUnder keyed key node).flatMap (·.2) := by
  induction keyed with
  | nil => exact List.nil_subset _
  | cons entry rest ih =>
      obtain ⟨k, nodes⟩ := entry
      intro other hother
      rw [List.flatMap_cons, List.mem_append] at hother
      rw [fileUnder]
      split <;> rw [List.flatMap_cons, List.mem_append]
      · exact hother.imp_left (List.mem_append_left _)
      · exact hother.imp_right fun h => ih h

theorem nodes_subset_file (lib : Library) (key? : Option String) (node : NodeId) :
    lib.nodes ⊆ (lib.file key? node).nodes := by
  intro other hother
  rw [nodes, List.mem_append] at hother ⊢
  cases key? with
  | none => exact hother.imp_right (List.mem_append_left _)
  | some key => exact hother.imp_left fun h => subset_fileUnder lib.keyed key node h

theorem findAll_subset_file (id : String) (lib : Library) (key? : Option String)
    (node : NodeId) : lib.findAll id ⊆ (lib.file key? node).findAll id := by
  rw [findAll_file]
  split
  · exact List.subset_append_left _ _
  · exact List.Subset.refl _

/-- What lasts when a definition is filed lasts when many are imported. -/
theorem subset_importAll {view : Library → List NodeId}
    (filed : ∀ lib key? node, view lib ⊆ view (lib.file key? node)) (lib : Library) (f : Forest)
    (ts : List Tree) : view lib ⊆ view (lib.importAll f ts).1 := by
  induction ts generalizing lib f with
  | nil => exact List.Subset.refl _
  | cons t ts ih =>
      rw [importAll]
      exact List.Subset.trans (filed lib _ _) (ih _ _)

/-- What an import files is what it plants. -/
theorem mem_nodes_importAll {node : NodeId} (h : node ∈ (lib.importAll f ts).1.nodes) :
    node ∈ lib.nodes ∨ node ∈ (f.plantAll ts).1 := by
  induction ts generalizing lib f with
  | nil => exact .inl h
  | cons t ts ih =>
      rw [importAll] at h
      rcases ih h with h | h
      · rcases mem_nodes_file h with rfl | h
        · exact .inr List.mem_cons_self
        · exact .inl h
      · exact .inr (List.mem_cons_of_mem _ h)

theorem mem_nodes_of_mem_findAll {id : String} {node : NodeId} (h : node ∈ lib.findAll id) :
    node ∈ lib.nodes :=
  List.mem_append_left _ (mem_of_mem_filedUnder h)

end Library

def Operation.Importing : Operation → Prop
  | .importReport .. | .importText .. => True
  | _ => False

theorem Operation.target?_of_importing {operation : Operation} (h : operation.Importing) :
    operation.target? = none := by
  cases operation <;> first | rfl | exact h.elim

theorem Operation.target_mem_handles {operation : Operation} {target : NodeId}
    (h : target ∈ operation.target?) : target ∈ operation.handles := by
  cases operation with
  | setAttribute | setContent | clearContent | addFragment | addChild | attach =>
      cases h
      exact List.mem_cons_self
  | _ => cases h

namespace World

variable {w : World} {node : NodeId} {operation : Operation} {operations : List Operation}

/-- A library holds the definition, under an id or under none. -/
def Holds (w : World) (node : NodeId) : Prop :=
  ∃ lib ∈ w.libraries, node ∈ lib.nodes

/-- A search of some library finds the definition. -/
def Finds (w : World) (node : NodeId) : Prop :=
  ∃ lib ∈ w.libraries, ∃ id, node ∈ lib.findAll id

theorem Finds.holds (h : w.Finds node) : w.Holds node := by
  obtain ⟨lib, hlib, id, hnode⟩ := h
  exact ⟨lib, hlib, Library.mem_nodes_of_mem_findAll hnode⟩

theorem Holds.has (h : w.Holds node) (hw : w.WellFormed) : w.forest.Has node := by
  obtain ⟨lib, hlib, hnode⟩ := h
  exact (hw.libraries lib hlib node hnode).1

/-- After a call every library is there, perhaps with more definitions. -/
theorem exists_importAll_of_mem {lib : Library} (hlib : lib ∈ w.libraries)
    (operation : Operation) :
    ∃ lib' ∈ (w.perform operation).libraries, ∃ ts, (lib.importAll w.forest ts).1 = lib' := by
  obtain ⟨library, hlib⟩ := List.mem_iff_getElem?.1 hlib
  rcases w.imports_or_spares library operation with ⟨_, hlib', hafter⟩ | ⟨-, hkept | ⟨hno, -⟩⟩
  · obtain rfl := Option.some.inj (hlib.symm.trans hlib')
    exact ⟨_, List.mem_of_getElem? (hafter ▸ getElem?_withLibrary hlib _), _, rfl⟩
  · exact ⟨lib, List.mem_of_getElem? (hkept.trans hlib), [], rfl⟩
  · rw [hno] at hlib
    cases hlib

theorem Holds.perform (h : w.Holds node) (operation : Operation) :
    (w.perform operation).Holds node := by
  obtain ⟨lib, hlib, hnode⟩ := h
  obtain ⟨_, hlib', ts, rfl⟩ := exists_importAll_of_mem hlib operation
  exact ⟨_, hlib', Library.subset_importAll Library.nodes_subset_file lib _ _ hnode⟩

theorem Finds.perform (h : w.Finds node) (operation : Operation) :
    (w.perform operation).Finds node := by
  obtain ⟨lib, hlib, id, hnode⟩ := h
  obtain ⟨_, hlib', ts, rfl⟩ := exists_importAll_of_mem hlib operation
  exact ⟨_, hlib', id, Library.subset_importAll (Library.findAll_subset_file id) lib _ _ hnode⟩

/-- What a call adds to a library is new, and only an import adds anything. -/
theorem holds_perform (hw : w.WellFormed) (h : (w.perform operation).Holds node) :
    w.Holds node ∨ operation.Importing ∧ ¬ w.forest.Has node := by
  obtain ⟨lib', hlib', hnode⟩ := h
  obtain ⟨library, hlib'⟩ := List.mem_iff_getElem?.1 hlib'
  rcases w.imports_or_spares library operation with ⟨lib, hlib, hafter⟩ | ⟨-, hkept | ⟨-, hmade⟩⟩
  · have filed : some lib' = some _ := hlib'.symm.trans (hafter ▸ getElem?_withLibrary hlib _)
    obtain rfl := Option.some.inj filed
    rcases Library.mem_nodes_importAll hnode with hnode | hnode
    · exact .inl ⟨lib, List.mem_of_getElem? hlib, hnode⟩
    · have valid := hw.valid_imports library operation
      have planted := plantAll_spec (fun t ht f hf => plant_spec (valid t ht).1 hf) hw.forest
      refine .inr ⟨?_, (planted.roots node hnode).isNew⟩
      cases operation with
      | importReport | importText => trivial
      | _ => exact absurd hnode List.not_mem_nil
  · exact .inl ⟨lib', List.mem_of_getElem? (hkept.symm.trans hlib'), hnode⟩
  · rw [hmade] at hlib'
    obtain rfl := Option.some.inj hlib'
    exact absurd hnode List.not_mem_nil

/-! ### Definitions that searches find -/

/-- No call is made on what is below a definition that a search finds at that time. -/
def SparesFound (w : World) : List Operation → Prop
  | [] => True
  | operation :: operations =>
    (∀ found, w.Finds found → ∀ target ∈ operation.target?, ¬ w.forest.Reaches found target) ∧
      (w.perform operation).SparesFound operations

theorem stays_of_sparesFound (hw : w.WellFormed) (h : w.SparesFound operations)
    (hnode : w.Finds node) : Stays w.forest (w.run operations).forest node := by
  induction operations generalizing w with
  | nil => exact .refl _ _
  | cons operation operations ih =>
      obtain ⟨hfirst, hrest⟩ := h
      have first := stays_perform hw (hnode.holds.has hw) (hfirst node hnode)
      exact first.trans (ih (wellFormed_perform hw operation) hrest (hnode.perform operation))

/-! ### Definitions that no search finds -/

/-- The handles that a program has. -/
structure Handles where
  /-- The nodes that calls have made for it. -/
  made : NodeId → Prop
  /-- The definitions that searches have returned to it. -/
  returned : NodeId → Prop

namespace Handles

def none : Handles :=
  ⟨fun _ => False, fun _ => False⟩

def Has (handles : Handles) (id : NodeId) : Prop :=
  handles.made id ∨ handles.returned id

/-- The program can get to the node: it has the handle of it or of one above it. -/
def GetTo (handles : Handles) (f : Forest) (id : NodeId) : Prop :=
  ∃ handle, handles.Has handle ∧ f.Reaches handle id

theorem GetTo.child {handles : Handles} {f : Forest} {a b : NodeId} (h : handles.GetTo f a)
    (hstep : f.HasChild a b) : handles.GetTo f b := by
  obtain ⟨handle, hhas, hpath⟩ := h
  exact ⟨handle, hhas, hpath.tail hstep⟩

end Handles

/-- What a search returns. -/
def returns (w : World) : Operation → List NodeId
  | .find library id =>
    match w.libraries[library]? with
    | some lib => lib.findAll id
    | none => []
  | _ => []

/-- The handles that a program has after a call. Every call gives it the nodes that it
makes, except an import, which keeps them to the library. -/
def handlesAfter (w : World) (handles : Handles) (operation : Operation) : Handles where
  made id := handles.made id ∨
    ¬ operation.Importing ∧ ¬ w.forest.Has id ∧ (w.perform operation).forest.Has id
  returned id := handles.returned id ∨ id ∈ w.returns operation

/-- The calls of a program that starts with these handles. It gives to a call the nodes
that it can get to, and it makes no call on what is below a definition that a search has
returned. -/
def Respects (w : World) (handles : Handles) : List Operation → Prop
  | [] => True
  | operation :: operations =>
    (∀ id ∈ operation.handles, handles.GetTo w.forest id) ∧
      (∀ found, handles.returned found → ∀ target ∈ operation.target?,
        ¬ w.forest.Reaches found target) ∧
      (w.perform operation).Respects (w.handlesAfter handles operation) operations

/-- What is below a definition that a library holds, a program can get to through a
definition that a search has returned, if at all. -/
structure Sealed (w : World) (handles : Handles) : Prop where
  has : ∀ id, handles.Has id → w.forest.Has id
  below : ∀ node, w.Holds node → ∀ id, w.forest.Reaches node id → handles.GetTo w.forest id →
    ∃ found, handles.returned found ∧ w.forest.Reaches found id

theorem sealed_empty : Sealed empty .none where
  has _ h := h.elim False.elim False.elim
  below _ h := by
    obtain ⟨lib, hlib, -⟩ := h
    exact absurd hlib List.not_mem_nil

theorem finds_of_mem_returns (h : node ∈ w.returns operation) :
    w.Finds node ∧ operation.target? = none ∧ ¬ operation.Importing := by
  cases operation with
  | find library id =>
      rw [returns] at h
      split at h
      · next lib hlib =>
          exact ⟨⟨lib, List.mem_of_getElem? hlib, id, h⟩, rfl, not_false⟩
      · exact absurd h List.not_mem_nil
  | _ => exact absurd h List.not_mem_nil

variable {handles : Handles}

/-- The call is made on no node below a definition that a library holds: the program could
get to it only through one that a search has returned. -/
theorem Sealed.stays (hs : w.Sealed handles) (hw : w.WellFormed)
    (named : ∀ id ∈ operation.handles, handles.GetTo w.forest id)
    (spared : ∀ found, handles.returned found → ∀ target ∈ operation.target?,
      ¬ w.forest.Reaches found target) (hnode : w.Holds node) :
    Stays w.forest (w.perform operation).forest node := by
  refine stays_perform hw (hnode.has hw) fun target htarget hr => ?_
  obtain ⟨found, hfound, hr⟩ :=
    hs.below node hnode target hr (named target (Operation.target_mem_handles htarget))
  exact spared found hfound target htarget hr

/-- An old node that the program can get to after the call is one that it could get to
before, or it is below what the call returns. -/
theorem getTo_of_handlesAfter (hw : w.WellFormed)
    (named : ∀ id ∈ operation.handles, handles.GetTo w.forest id) {id : NodeId}
    (hid : w.forest.Has id)
    (h : (w.handlesAfter handles operation).GetTo (w.perform operation).forest id) :
    handles.GetTo w.forest id ∨ ∃ found ∈ w.returns operation, w.forest.Reaches found id := by
  have changes := hw.perform_changes operation
  have before : ∀ handle, handles.Has handle →
      (w.perform operation).forest.Reaches handle id → handles.GetTo w.forest id :=
    fun handle hhandle => changes.of_reaches (fun _ _ => .child) named ⟨handle, hhandle, .refl⟩ hid
  obtain ⟨handle, hhandle, hr⟩ := h
  rcases hhandle with (hmade | ⟨-, hnew, hhas⟩) | (hreturned | hreturned)
  · exact .inl (before handle (.inl hmade) hr)
  · exact absurd hid (changes.isNew_of_reaches hnew hhas hr)
  · exact .inl (before handle (.inr hreturned) hr)
  · obtain ⟨hfinds, htarget, -⟩ := finds_of_mem_returns hreturned
    have stays := stays_of_target?_eq_none hw (hfinds.holds.has hw) htarget
    exact .inr ⟨handle, hreturned, stays.reaches_iff.1 hr⟩

/-- What an import files, the program cannot get to after it. -/
theorem Sealed.not_getTo_of_importing (hs : w.Sealed handles) (hw : w.WellFormed)
    (himport : operation.Importing) {id : NodeId} (hid : ¬ w.forest.Has id) :
    ¬ (w.handlesAfter handles operation).GetTo (w.perform operation).forest id := by
  have closed : ∀ handle, handles.Has handle →
      ¬ (w.perform operation).forest.Reaches handle id := by
    intro handle hhandle hr
    have hhas := hs.has handle hhandle
    have stays := stays_of_target?_eq_none hw hhas (Operation.target?_of_importing himport)
    exact hid (hw.forest.closed.has_of_reaches hhas (stays.reaches_iff.1 hr))
  rintro ⟨handle, hhandle, hr⟩
  rcases hhandle with (hmade | ⟨hno, -, -⟩) | (hreturned | hreturned)
  · exact closed handle (.inl hmade) hr
  · exact hno himport
  · exact closed handle (.inr hreturned) hr
  · exact (finds_of_mem_returns hreturned).2.2 himport

theorem Sealed.perform (hs : w.Sealed handles) (hw : w.WellFormed)
    (named : ∀ id ∈ operation.handles, handles.GetTo w.forest id)
    (spared : ∀ found, handles.returned found → ∀ target ∈ operation.target?,
      ¬ w.forest.Reaches found target) :
    (w.perform operation).Sealed (w.handlesAfter handles operation) := by
  have changes := hw.perform_changes operation
  have hw' := wellFormed_perform hw operation
  refine ⟨fun id hid => ?_, fun node hnode id hbelow hgetTo => ?_⟩
  · rcases hid with (hmade | ⟨-, -, hhas⟩) | (hreturned | hreturned)
    · exact changes.has (hs.has id (.inl hmade))
    · exact hhas
    · exact changes.has (hs.has id (.inr hreturned))
    · exact changes.has ((finds_of_mem_returns hreturned).1.holds.has hw)
  · rcases holds_perform hw hnode with hold | ⟨himport, hnew⟩
    -- The definition has been there: what is below it now was below it before the call.
    · have hbelow := (hs.stays hw named spared hold).reaches_iff.1 hbelow
      have hid := hw.forest.closed.has_of_reaches (hold.has hw) hbelow
      rcases getTo_of_handlesAfter hw named hid hgetTo with hgetTo | ⟨found, hfound, hr⟩
      · obtain ⟨found, hfound, hr⟩ := hs.below node hold id hbelow hgetTo
        have stays := stays_perform hw (hs.has found (.inr hfound)) (spared found hfound)
        exact ⟨found, .inl hfound, stays.reaches_iff.2 hr⟩
      · obtain ⟨hfinds, htarget, -⟩ := finds_of_mem_returns hfound
        have stays := stays_of_target?_eq_none hw (hfinds.holds.has hw) htarget
        exact ⟨found, .inr hfound, stays.reaches_iff.2 hr⟩
    -- The import has just filed it: all that is below it is out of the program's reach.
    · have hnew := changes.isNew_of_reaches hnew (hnode.has hw') hbelow
      exact absurd hgetTo (hs.not_getTo_of_importing hw himport hnew)

theorem sealed_run (hs : w.Sealed handles) (hw : w.WellFormed) {operations later : List Operation}
    (h : w.Respects handles (operations ++ later)) :
    ∃ handles', (w.run operations).Sealed handles' ∧
      (w.run operations).Respects handles' later := by
  induction operations generalizing w handles with
  | nil => exact ⟨handles, hs, h⟩
  | cons operation operations ih =>
      obtain ⟨named, spared, hrest⟩ := h
      exact ih (hs.perform hw named spared) (wellFormed_perform hw operation) hrest

theorem Sealed.stays_run (hs : w.Sealed handles) (hw : w.WellFormed)
    (h : w.Respects handles operations) (hnode : w.Holds node) :
    Stays w.forest (w.run operations).forest node := by
  induction operations generalizing w handles with
  | nil => exact .refl _ _
  | cons operation operations ih =>
      obtain ⟨named, spared, hrest⟩ := h
      have rest := ih (hs.perform hw named spared) (wellFormed_perform hw operation) hrest
        (hnode.perform operation)
      exact (hs.stays hw named spared hnode).trans rest

/-! ### Worlds -/

/-- How copies stand in the world that these calls lead to. -/
structure Independent (operations : List Operation) : Prop where
  copied : ∀ id, (run empty operations).forest.Has id →
    let f := (run empty operations).forest
    Copied f ((run empty operations).perform (.copy id)).forest id (f.copy id).1
  /-- A copy stays what it is while no call is made on a node of it. -/
  copy : ∀ id, (run empty operations).forest.Has id → ∀ later,
    let made := ((run empty operations).forest.copy id).1
    let after := (run empty operations).perform (.copy id)
    (∀ operation ∈ later, ∀ target ∈ operation.target?, ¬ after.forest.Reaches made target) →
    Stays after.forest (after.run later).forest made
  /-- All that was there before stays what it is while calls are made only on the nodes
  of the copy and on later ones. -/
  others : ∀ id, (run empty operations).forest.Has id → ∀ later,
    let made := ((run empty operations).forest.copy id).1
    let after := (run empty operations).perform (.copy id)
    (∀ operation ∈ later, ∀ target ∈ operation.target?,
      after.forest.Reaches made target ∨ ¬ after.forest.Has target) →
    ∀ old, (run empty operations).forest.Has old →
      Stays (run empty operations).forest (after.run later).forest old
  /-- A definition that a search finds stays what it is while no call is made below such
  a definition, whatever handles the calls are given. -/
  found : ∀ later, (run empty operations).SparesFound later →
    ∀ node, (run empty operations).Finds node →
      Stays (run empty operations).forest ((run empty operations).run later).forest node
  /-- Every definition that a library holds, with or without an id, stays what it is while
  a program that begins with nothing makes no call below what a search has returned to it. -/
  held : ∀ later, empty.Respects .none (operations ++ later) →
    ∀ node, (run empty operations).Holds node →
      Stays (run empty operations).forest ((run empty operations).run later).forest node

/-- In every world copies stand on their own, and so do the copies that libraries hold. -/
theorem run_independent (operations : List Operation) : Independent operations := by
  have hw := wellFormed_run wellFormed_empty operations
  generalize hrun : run empty operations = w at hw
  have performed : ∀ id, w.forest.Has id →
      (w.perform (.copy id)).forest = (w.forest.copy id).2 := by
    intro id hid
    have hhas : ∀ other ∈ (Operation.copy id).handles, w.forest.Has other :=
      List.forall_mem_singleton.2 hid
    rw [perform_of_forall_has hhas]
    rfl
  have copied : ∀ id, w.forest.Has id →
      Copied w.forest (w.perform (.copy id)).forest id (w.forest.copy id).1 := fun id hid => by
    rw [performed id hid]
    exact hw.forest.copied hid
  refine ⟨?_, ?_, ?_, ?_, ?_⟩ <;> rw [hrun]
  · exact copied
  · intro id hid later made after hout
    have hmade : after.forest.Has made := ((copied id hid).newTree made .refl).1.2
    exact stays_run (wellFormed_perform hw _) hmade hout
  · intro id hid later made after honly old hold
    have kept : Stays w.forest after.forest old := stays_of_target?_eq_none hw hold rfl
    have hhas : after.forest.Has old := (hw.perform_changes _).has hold
    have hw' : after.WellFormed := wellFormed_perform hw _
    refine kept.trans (stays_run hw' hhas fun operation hop target htarget hr => ?_)
    rcases honly operation hop target htarget with hcopy | hlater
    · exact (copied id hid).apart old hold target hr hcopy
    · exact hlater (hw'.forest.closed.has_of_reaches hhas hr)
  · exact fun later h node => stays_of_sparesFound hw h
  · intro later h node hnode
    obtain ⟨handles, hs, hlater⟩ := sealed_run sealed_empty wellFormed_empty h
    rw [hrun] at hs hlater
    exact hs.stays_run hw hlater hnode

end World

end IncidentReport
