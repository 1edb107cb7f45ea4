import IncidentReport.Proofs.Locality

/-!
A library is a log of its imports. An import appends an entry for each definition
directly under the root of a report, with the value that `defines` has at that moment,
and all that a library answers is read off the log. Nothing else changes the log, so
what is found under an id is found under it for good.
-/

namespace IncidentReport

open Forest

/-- What is filed when a definition is imported. -/
structure Entry where
  /-- The value of `defines`, if there is one. -/
  key? : Option String
  copy : NodeId

namespace Library

variable {lib : Library} {f : Forest}

/-- The answers of a library are those of its log. -/
structure Shows (lib : Library) (log : List Entry) : Prop where
  find? : ∀ id, lib.find? id = (log.find? fun entry => entry.key? = some id).map (·.copy)
  findAll : ∀ id, lib.findAll id = (log.filter fun entry => entry.key? = some id).map (·.copy)
  size : lib.size = log.length
  isEmpty : lib.isEmpty = true ↔ log = []
  ids : lib.ids = (log.filterMap (·.key?)).eraseDups

/-- It is enough to look at all that is found, at the size and at the ids. -/
theorem Shows.mk' {log : List Entry}
    (findAll : ∀ id, lib.findAll id = (log.filter fun entry => entry.key? = some id).map (·.copy))
    (size : lib.size = log.length) (ids : lib.ids = (log.filterMap (·.key?)).eraseDups) :
    lib.Shows log where
  find? id := by rw [Library.find?, findAll, List.head?_map, List.head?_filter]
  findAll := findAll
  size := size
  isEmpty := by rw [Library.isEmpty, size, beq_iff_eq, List.length_eq_zero_iff]
  ids := ids

theorem shows_empty : Library.empty.Shows [] :=
  .mk' (fun _ => rfl) rfl rfl

theorem length_fileUnder (keyed : List (String × List NodeId)) (key : String) (node : NodeId) :
    ((fileUnder keyed key node).flatMap (·.2)).length = (keyed.flatMap (·.2)).length + 1 := by
  induction keyed with
  | nil => rfl
  | cons entry rest ih =>
      obtain ⟨k, nodes⟩ := entry
      rw [fileUnder]
      split
      · simp only [List.flatMap_cons, List.length_append, List.length_singleton]
        omega
      · simp only [List.flatMap_cons, List.length_append, ih]
        omega

theorem size_file (lib : Library) (key? : Option String) (node : NodeId) :
    (lib.file key? node).size = lib.size + 1 := by
  cases key? with
  | none => simp [file, size, Nat.add_assoc]
  | some key =>
      simp only [file, size, length_fileUnder]
      omega

/-- An id gets its place when something is filed under it for the first time. -/
theorem map_fst_fileUnder (keyed : List (String × List NodeId)) (key : String) (node : NodeId) :
    (fileUnder keyed key node).map (·.1) =
      if key ∈ keyed.map (·.1) then keyed.map (·.1) else keyed.map (·.1) ++ [key] := by
  induction keyed with
  | nil => rfl
  | cons entry rest ih =>
      obtain ⟨k, nodes⟩ := entry
      rw [fileUnder]
      by_cases hk : k = key
      · simp [hk]
      · rw [if_neg hk, List.map_cons, ih]
        split <;> simp_all [Ne.symm hk]

theorem ids_file (lib : Library) (key : String) (node : NodeId) :
    (lib.file (some key) node).ids = if key ∈ lib.ids then lib.ids else lib.ids ++ [key] :=
  map_fst_fileUnder lib.keyed key node

theorem eraseDups_concat (keys : List String) (key : String) :
    (keys ++ [key]).eraseDups =
      if key ∈ keys then keys.eraseDups else keys.eraseDups ++ [key] := by
  rw [List.eraseDups_append, List.removeAll]
  split <;> simp_all [List.eraseDups_cons]

/-- What is filed comes behind all that is in the log. -/
theorem Shows.file {log : List Entry} (h : lib.Shows log) (entry : Entry) :
    (lib.file entry.key? entry.copy).Shows (log ++ [entry]) := by
  refine .mk' (fun id => ?_) ?_ ?_
  · rw [findAll_file, h.findAll, List.filter_append, List.map_append]
    by_cases hkey : entry.key? = some id <;> simp [hkey]
  · rw [size_file, h.size, List.length_append, List.length_singleton]
  · obtain ⟨_ | key, copy⟩ := entry
    · rw [List.filterMap_append, show [Entry.mk none copy].filterMap (·.key?) = [] from rfl,
        List.append_nil]
      exact h.ids
    · rw [List.filterMap_append, show [Entry.mk (some key) copy].filterMap (·.key?) = [key] from rfl,
        eraseDups_concat, ids_file, h.ids]
      simp only [List.mem_eraseDups]

/-- Files some entries, in order. -/
def fileAll (lib : Library) (entries : List Entry) : Library :=
  entries.foldl (fun lib entry => lib.file entry.key? entry.copy) lib

theorem Shows.fileAll {log : List Entry} (h : lib.Shows log) (entries : List Entry) :
    (lib.fileAll entries).Shows (log ++ entries) := by
  induction entries generalizing lib log with
  | nil => rwa [List.append_nil]
  | cons entry entries ih =>
      rw [List.append_cons]
      exact ih (h.file entry)

/-- The entries of definitions that are copied into a forest. -/
def entries (f : Forest) (definitions : List Tree) : List Entry :=
  List.zipWith (fun t copy => ⟨t.attribute? definesAttribute, copy⟩) definitions
    (f.plantAll definitions).1

/-- An import copies all of the definitions and files their entries. -/
theorem importAll_eq (lib : Library) (f : Forest) (ts : List Tree) :
    lib.importAll f ts = (lib.fileAll (entries f ts), (f.plantAll ts).2) := by
  induction ts generalizing lib f with
  | nil => rfl
  | cons t ts ih =>
      rw [importAll]
      exact ih _ _

theorem length_entries (f : Forest) (ts : List Tree) : (entries f ts).length = ts.length := by
  induction ts generalizing f with
  | nil => rfl
  | cons t ts ih => exact congrArg (· + 1) (ih (f.plant t).2)

end Library

namespace World

/-- The definitions that a call imports into a library, as they are at that moment. A
call that is refused imports none, nor does any other call. -/
def imports (w : World) (library : Nat) : Operation → List Tree
  | .importReport target document =>
    if target = library then
      match w.libraries[library]?, w.documents[document]? with
      | some _, some report =>
        ((w.forest.children report.root).filter fun id =>
          (w.forest.get id).kind = .definition).map w.forest.tree
      | _, _ => []
    else []
  | .importText target text =>
    if target = library then
      match w.libraries[library]?, Report.parse text with
      | some _, .ok report => report.children.filter fun t => t.kind = .definition
      | _, _ => []
    else []
  | _ => []

/-- The entries that a call appends to the log of a library. -/
def appends (w : World) (library : Nat) (operation : Operation) : List Entry :=
  Library.entries w.forest (w.imports library operation)

/-- The log that a library has after some calls: what each of them has appended. -/
def log (w : World) (library : Nat) : List Operation → List Entry
  | [] => []
  | operation :: operations =>
    w.appends library operation ++ (w.perform operation).log library operations

/-- The entry is that of a copy of this tree, made between the two worlds. -/
structure Files (w after : World) (t : Tree) (entry : Entry) : Prop where
  key : entry.key? = t.attribute? definesAttribute
  isNew : ¬ w.forest.Has entry.copy ∧ after.forest.Has entry.copy
  copy : after.forest.tree entry.copy = t

/-- The libraries of a world are the logs of their imports. -/
structure AppendOnly (w : World) (logs : Nat → List Entry) : Prop where
  shows : ∀ (library : Nat) lib, w.libraries[library]? = some lib → lib.Shows (logs library)
  /-- The next call appends an entry for each definition that it imports. -/
  files : ∀ library operation,
    List.Forall₂ (w.Files (w.perform operation)) (w.imports library operation)
      (w.appends library operation)
  /-- It returns how many they are. -/
  importReport : ∀ (library document : Nat) lib report,
    w.libraries[library]? = some lib → w.documents[document]? = some report →
    (lib.importReport w.forest report).1 =
      (w.appends library (.importReport library document)).length
  importText : ∀ (library : Nat) text lib imported, w.libraries[library]? = some lib →
    lib.importText w.forest text = .ok imported →
    imported.1 = (w.appends library (.importText library text)).length
  /-- If it is refused, it changes nothing. -/
  refused : ∀ (library : Nat) text lib error, w.libraries[library]? = some lib →
    lib.importText w.forest text = .error error →
    w.perform (.importText library text) = w ∧
      w.appends library (.importText library text) = []
  /-- What is found under an id is found under it whatever is called from then on. -/
  lasting : ∀ (library : Nat) lib id found, w.libraries[library]? = some lib →
    lib.find? id = some found →
    ∀ operations, ∃ lib', (w.run operations).libraries[library]? = some lib' ∧
      lib'.find? id = some found

variable {w : World} {library : Nat} {lib : Library} {operation : Operation}

/-- The call leaves the library alone, or it is the one that makes the library. -/
def Spares (w : World) (library : Nat) (operation : Operation) : Prop :=
  (w.perform operation).libraries[library]? = w.libraries[library]? ∨
    w.libraries[library]? = none ∧
      (w.perform operation).libraries[library]? = some Library.empty

/-- The call imports into the library. -/
def Imports (w : World) (library : Nat) (operation : Operation) : Prop :=
  ∃ lib, w.libraries[library]? = some lib ∧
    w.perform operation =
      w.withLibrary library (lib.importDefinitions w.forest (w.imports library operation))

theorem perform_of_handles_eq_nil (w : World) (h : operation.handles = []) :
    w.perform operation = w.effect operation := by
  rw [perform, if_pos]
  simp [h]

theorem libraries_edited (result : Except Violation Forest) :
    (w.edited result).libraries = w.libraries := by
  cases result <;> rfl

theorem getElem?_withLibrary_of_ne {other : Nat} (h : other ≠ library)
    (imported : Nat × Library × Forest) :
    (w.withLibrary other imported).libraries[library]? = w.libraries[library]? :=
  List.getElem?_set_ne h

theorem spares_of_libraries_eq (h : (w.effect operation).libraries = w.libraries) :
    w.Spares library operation := by
  rw [Spares, perform]
  split
  · exact .inl (by rw [h])
  · exact .inl rfl

theorem importReport_imports_or_spares (w : World) (library target document : Nat) :
    w.Imports library (.importReport target document) ∨
      w.imports library (.importReport target document) = [] ∧
        w.Spares library (.importReport target document) := by
  by_cases htarget : target = library
  · subst htarget
    cases hlib : w.libraries[target]? with
    | none =>
        exact .inr ⟨by simp [imports, hlib], spares_of_libraries_eq (by rw [effect, hlib])⟩
    | some lib =>
        cases hdocument : w.documents[document]? with
        | none =>
            exact .inr ⟨by simp [imports, hlib, hdocument],
              spares_of_libraries_eq (by rw [effect, hlib, hdocument])⟩
        | some report =>
            refine .inl ⟨lib, hlib, ?_⟩
            rw [perform_of_handles_eq_nil w rfl, effect, imports, if_pos rfl, hlib, hdocument]
            rfl
  · refine .inr ⟨if_neg htarget, ?_⟩
    rw [Spares, perform_of_handles_eq_nil w rfl, effect]
    split
    · exact .inl (getElem?_withLibrary_of_ne htarget _)
    · exact .inl rfl

theorem importText_imports_or_spares (w : World) (library target : Nat) (text : String) :
    w.Imports library (.importText target text) ∨
      w.imports library (.importText target text) = [] ∧
        w.Spares library (.importText target text) := by
  by_cases htarget : target = library
  · subst htarget
    cases hlib : w.libraries[target]? with
    | none =>
        exact .inr ⟨by simp [imports, hlib], spares_of_libraries_eq (by rw [effect, hlib])⟩
    | some lib =>
        cases hreport : Report.parse text with
        | error error =>
            refine .inr ⟨by simp [imports, hlib, hreport], spares_of_libraries_eq ?_⟩
            rw [effect, hlib]
            dsimp only
            rw [Library.importText, hreport]
            rfl
        | ok report =>
            refine .inl ⟨lib, hlib, ?_⟩
            rw [perform_of_handles_eq_nil w rfl, effect, imports, if_pos rfl, hlib, hreport]
            dsimp only
            rw [Library.importText, hreport]
            rfl
  · refine .inr ⟨if_neg htarget, ?_⟩
    rw [Spares, perform_of_handles_eq_nil w rfl, effect]
    split
    · split
      · exact .inl (getElem?_withLibrary_of_ne htarget _)
      · exact .inl rfl
    · exact .inl rfl

theorem newLibrary_spares (w : World) (library : Nat) : w.Spares library .newLibrary := by
  rw [Spares, perform_of_handles_eq_nil w rfl, effect, List.getElem?_append]
  split
  · exact .inl rfl
  · next hlt =>
      have absent : w.libraries[library]? = none := List.getElem?_eq_none (not_lt.1 hlt)
      rw [absent, List.getElem?_singleton]
      split
      · exact .inr ⟨rfl, rfl⟩
      · exact .inl rfl

/-- A call either imports into a library or has no part in its log. -/
theorem imports_or_spares (w : World) (library : Nat) (operation : Operation) :
    w.Imports library operation ∨
      w.imports library operation = [] ∧ w.Spares library operation := by
  cases operation with
  | newNode kind => exact .inr ⟨rfl, spares_of_libraries_eq rfl⟩
  | newWithIdentity kind id definition akindof =>
      refine .inr ⟨rfl, spares_of_libraries_eq ?_⟩
      rw [effect]
      split <;> rfl
  | readNode element =>
      refine .inr ⟨rfl, spares_of_libraries_eq ?_⟩
      rw [effect]
      split <;> rfl
  | setAttribute node name value =>
      exact .inr ⟨rfl, spares_of_libraries_eq (libraries_edited _)⟩
  | addChild parent child => exact .inr ⟨rfl, spares_of_libraries_eq (libraries_edited _)⟩
  | setContent node content => exact .inr ⟨rfl, spares_of_libraries_eq (libraries_edited _)⟩
  | clearContent node => exact .inr ⟨rfl, spares_of_libraries_eq (libraries_edited _)⟩
  | addFragment node fragment =>
      exact .inr ⟨rfl, spares_of_libraries_eq (libraries_edited _)⟩
  | copy node => exact .inr ⟨rfl, spares_of_libraries_eq rfl⟩
  | copyAlone node => exact .inr ⟨rfl, spares_of_libraries_eq rfl⟩
  | newDocument => exact .inr ⟨rfl, spares_of_libraries_eq rfl⟩
  | readDocument element =>
      refine .inr ⟨rfl, spares_of_libraries_eq ?_⟩
      rw [effect]
      split <;> rfl
  | parseDocument text =>
      refine .inr ⟨rfl, spares_of_libraries_eq ?_⟩
      rw [effect]
      split <;> rfl
  | newLibrary => exact .inr ⟨rfl, w.newLibrary_spares library⟩
  | importReport target document => exact w.importReport_imports_or_spares library target document
  | importText target text => exact w.importText_imports_or_spares library target text
  | find target id => exact .inr ⟨rfl, spares_of_libraries_eq rfl⟩
  | buildNode target depth id =>
      refine .inr ⟨rfl, spares_of_libraries_eq ?_⟩
      rw [effect]
      split <;> rfl
  | buildReport target depth id =>
      refine .inr ⟨rfl, spares_of_libraries_eq ?_⟩
      rw [effect]
      split
      · split <;> rfl
      · rfl
  | attach target depth parent child =>
      refine .inr ⟨rfl, spares_of_libraries_eq ?_⟩
      rw [effect]
      split <;> rfl

/-! ### What a call does to the log -/

/-- The library, if it is there, shows this log. -/
def Tracks (w : World) (library : Nat) (log : List Entry) : Prop :=
  (∀ lib, w.libraries[library]? = some lib → lib.Shows log) ∧
    (w.libraries[library]? = none → log = [])

theorem tracks_perform {log : List Entry} (h : w.Tracks library log) (operation : Operation) :
    (w.perform operation).Tracks library (log ++ w.appends library operation) := by
  obtain ⟨shown, absent⟩ := h
  rcases w.imports_or_spares library operation with ⟨lib, hlib, hafter⟩ | ⟨hnone, spared⟩
  · have filed : (w.perform operation).libraries[library]? =
        some (lib.fileAll (w.appends library operation)) := by
      rw [hafter, getElem?_withLibrary hlib, Library.importDefinitions, Library.importAll_eq]
      rfl
    refine ⟨fun after hlib' => ?_, fun hno => ?_⟩
    · rw [filed] at hlib'
      obtain rfl := Option.some.inj hlib'
      exact (shown lib hlib).fileAll _
    · rw [filed] at hno
      cases hno
  · have same : w.appends library operation = [] := by
      rw [appends, hnone]
      rfl
    rw [same, List.append_nil]
    -- A library that this very call makes has had no log so far.
    rcases spared with hkept | ⟨hno, hmade⟩
    · exact ⟨fun lib hlib => shown lib (by rw [← hkept, hlib]),
        fun hno => absent (by rw [← hkept, hno])⟩
    · refine ⟨fun lib hlib => ?_, fun _ => absent hno⟩
      rw [hmade] at hlib
      obtain rfl := Option.some.inj hlib
      rw [absent hno]
      exact Library.shows_empty

theorem tracks_run {log : List Entry} (h : w.Tracks library log) (operations : List Operation) :
    (w.run operations).Tracks library (log ++ w.log library operations) := by
  induction operations generalizing w log with
  | nil => rwa [World.log, List.append_nil]
  | cons operation operations ih =>
      rw [World.log, ← List.append_assoc]
      exact ih (tracks_perform h operation)

/-- One call leaves what is found under an id. -/
theorem find?_perform {id : String} {found : NodeId} (hlib : w.libraries[library]? = some lib)
    (hfound : lib.find? id = some found) (operation : Operation) :
    ∃ lib', (w.perform operation).libraries[library]? = some lib' ∧
      lib'.find? id = some found := by
  rcases w.imports_or_spares library operation with ⟨_, hlib', hafter⟩ | ⟨-, hkept | ⟨hno, -⟩⟩
  · obtain rfl := Option.some.inj (hlib.symm.trans hlib')
    refine ⟨_, by rw [hafter, getElem?_withLibrary hlib], ?_⟩
    rw [Library.importDefinitions, Library.find?_importAll fun _ _ _ => by simp [hfound]]
    exact hfound
  · exact ⟨lib, hkept.trans hlib, hfound⟩
  · rw [hno] at hlib
    cases hlib

theorem find?_run {id : String} {found : NodeId} (hlib : w.libraries[library]? = some lib)
    (hfound : lib.find? id = some found) (operations : List Operation) :
    ∃ lib', (w.run operations).libraries[library]? = some lib' ∧ lib'.find? id = some found := by
  induction operations generalizing w lib with
  | nil => exact ⟨lib, hlib, hfound⟩
  | cons operation operations ih =>
      obtain ⟨lib', hlib', hfound'⟩ := find?_perform hlib hfound operation
      exact ih hlib' hfound'

/-! ### Worlds -/

theorem WellFormed.valid_imports (hw : w.WellFormed) (library : Nat) (operation : Operation) :
    ∀ t ∈ w.imports library operation, t.Valid ∧ t.kind = .definition := by
  have none : ∀ t ∈ ([] : List Tree), t.Valid ∧ t.kind = .definition :=
    fun _ h => absurd h List.not_mem_nil
  cases operation with
  | importReport target document =>
      rw [imports]
      split
      · split
        · exact Library.valid_definitions hw.forest _
        · exact none
      · exact none
  | importText target text =>
      rw [imports]
      split
      · split
        · next hreport => exact (Report.valid_of_parse hreport).1.definitions
        · exact none
      · exact none
  | _ => exact none

/-- The entries that a call appends are those of new copies. -/
theorem WellFormed.files (hw : w.WellFormed) (library : Nat) (operation : Operation) :
    List.Forall₂ (w.Files (w.perform operation)) (w.imports library operation)
      (w.appends library operation) := by
  have valid := hw.valid_imports library operation
  rcases w.imports_or_spares library operation with ⟨lib, -, hafter⟩ | ⟨hnone, -⟩
  · have copied := plantAll_spec (fun t ht f hf => plant_spec (valid t ht).1 hf) hw.forest
    have forest : (w.perform operation).forest =
        (w.forest.plantAll (w.imports library operation)).2 := by
      rw [hafter, Library.importDefinitions, Library.importAll_eq]
      rfl
    rw [appends, Library.entries]
    generalize w.imports library operation = ts at copied forest ⊢
    generalize w.forest.plantAll ts = made at copied forest ⊢
    rw [← copied.trees, List.zipWith_map_left, List.zipWith_self, List.forall₂_map_left_iff,
      List.forall₂_map_right_iff, List.forall₂_same]
    intro copy hcopy
    have root := copied.roots copy hcopy
    exact ⟨rfl, ⟨root.isNew, forest ▸ root.has⟩, by rw [forest]⟩
  · rw [appends, hnone]
    exact .nil

theorem WellFormed.appendOnly (hw : w.WellFormed) {logs : Nat → List Entry}
    (tracked : ∀ library, w.Tracks library (logs library)) : w.AppendOnly logs where
  shows library := (tracked library).1
  files := hw.files
  importReport library document lib report hlib hreport := by
    rw [appends, Library.length_entries, imports, if_pos rfl, hlib, hreport]
    rfl
  importText library text lib imported hlib himported := by
    obtain ⟨report, hreport, rfl⟩ := map_eq_ok.1 himported
    rw [appends, Library.length_entries, imports, if_pos rfl, hlib, mapError_eq_ok.1 hreport]
    rfl
  refused library text lib error hlib hrefused := by
    have unchanged : w.perform (.importText library text) = w := by
      rw [perform_of_handles_eq_nil w rfl, effect, hlib]
      dsimp only
      rw [hrefused]
    refine ⟨unchanged, ?_⟩
    cases hreport : Report.parse text with
    | error _ =>
        rw [appends, imports, if_pos rfl, hlib, hreport]
        rfl
    | ok report =>
        rw [Library.importText, hreport] at hrefused
        cases hrefused
  lasting library lib id found := find?_run

/-- In every world each library is the log of what was imported into it, by whatever
calls the world came about. -/
theorem run_appendOnly (operations : List Operation) :
    (run empty operations).AppendOnly fun library => empty.log library operations := by
  refine (wellFormed_run wellFormed_empty operations).appendOnly fun library => ?_
  have start : empty.Tracks library [] := ⟨fun lib hlib => by simp [empty] at hlib, fun _ => rfl⟩
  exact tracks_run start operations

end World

end IncidentReport
