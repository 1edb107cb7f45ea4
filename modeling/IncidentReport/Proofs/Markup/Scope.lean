import IncidentReport.Markup.Assembly
import IncidentReport.Proofs.Outcome

/-!
What the tags say about where one is in a text, and which tokens are out of place
there. The names of the open tags and whether there has been a tag at all are enough to
tell; the elements that are put together agree with them at every point.
-/

namespace IncidentReport.Markup

open Text
open Assembly (endName)

/-- A place in a text, as far as the tags before it tell. -/
structure Scope where
  /-- The names of the tags that are open, innermost first. -/
  names : List (List Char)
  /-- Whether there has been a start tag. -/
  begun : Bool

namespace Scope

def start : Scope :=
  ⟨[], false⟩

/-- All tags have been closed again. -/
def ended (s : Scope) : Bool :=
  s.begun && s.names.isEmpty

/-- The place behind a token. -/
def after (s : Scope) : Token → Scope
  | .startTag raw closed =>
    ⟨if closed then s.names else raw.takeWhile (!isSpace ·) :: s.names, true⟩
  | .endTag _ => { s with names := s.names.tail }
  | .text _ | .cdata _ | .comment _ | .doctype _ | .instruction _ => s

def afterAll (s : Scope) (ts : List Token) : Scope :=
  ts.foldl after s

/-- What is wrong with an end tag here. -/
def endFault? (s : Scope) (raw : List Char) : Option Fault :=
  match s.names with
  | [] => some (.unmatchedEnd (String.ofList (endName raw)))
  | name :: _ =>
    if name = endName raw then none
    else some (.mismatchedEnd (String.ofList name) (String.ofList (endName raw)))

/-- The answer of a reader that looks at end tags only. -/
def check (s : Scope) : Token → Except Fault Unit
  | .endTag raw =>
    match s.endFault? raw with
    | some fault => .error fault
    | none => .ok ()
  | _ => .ok ()

/-- What is wrong with a token that stands here, at byte `position`. -/
def offence? (s : Scope) (position : Nat) : Token → Option Error
  | .text raw =>
    match unescape raw with
    | .error fault => some (.syntaxFault position fault)
    | .ok content =>
      if s.names.isEmpty && !content.all isWhiteSpace then some (.trailingContent position)
      else none
  | .cdata _ => if s.names.isEmpty then some (.trailingContent position) else none
  | .startTag raw _ =>
    if s.ended then some (.trailingContent position)
    else
      match Element.ofStartTag raw with
      | .error fault => some (.syntaxFault position fault)
      | .ok _ => none
  | .endTag raw => (s.endFault? raw).map (.syntaxFault position)
  | .comment _ | .doctype _ | .instruction _ => none

/-- What is wrong with tokens, the first of which stands here, in order. -/
def offences (s : Scope) (position : Nat) : List Token → List Error
  | [] => []
  | t :: ts =>
    (s.offence? position t).toList ++ (s.after t).offences (position + byteCount t.spelling) ts

/-- What is wrong with a text that ends here. -/
def unfinished? (s : Scope) : Option Error :=
  if !s.names.isEmpty then some .unexpectedEnd
  else if !s.begun then some .missingRoot
  else none

end Scope

/-- The errors that the reading of a text may end with. An end tag is found out before
it meets an empty stack, characters need no decoding, and nothing is written. -/
def Error.FromText : Error → Prop
  | .syntaxFault .. | .trailingContent _ | .unexpectedEnd | .missingRoot => True
  | .unbalancedEnd _ | .invalidEncoding _ | .notWritten _ => False

theorem Scope.fromText_of_offence? {s : Scope} {position : Nat} {t : Token} :
    ∀ error ∈ s.offence? position t, error.FromText := by
  intro error h
  cases t with
  | text raw =>
      rw [offence?] at h
      cases hraw : unescape raw with
      | error fault =>
          rw [hraw] at h
          cases h
          trivial
      | ok content =>
          rw [hraw] at h
          dsimp only at h
          split at h <;> cases h
          trivial
  | cdata content =>
      rw [offence?] at h
      split at h <;> cases h
      trivial
  | comment | doctype | instruction => cases h
  | startTag raw closed =>
      rw [offence?] at h
      split at h
      · cases h
        trivial
      · split at h <;> cases h
        trivial
  | endTag raw =>
      obtain ⟨fault, -, rfl⟩ := Option.map_eq_some_iff.1 h
      trivial

theorem Scope.fromText_of_offences {s : Scope} {position : Nat} {ts : List Token} :
    ∀ error ∈ s.offences position ts, error.FromText := by
  induction ts generalizing s position with
  | nil => exact nofun
  | cons t ts ih =>
      intro error h
      rcases List.mem_append.1 h with h | h
      · exact fromText_of_offence? error (Option.mem_toList.1 h)
      · exact ih error h

/-- What is wrong with a text that falls into these tokens, in order: the tokens that
are out of place, then the fault at which reading stopped or an end that comes too soon. -/
def complaints (ts : List Token) (fault? : Option Fault) : List Error :=
  Scope.start.offences 0 ts ++
    match fault? with
    | some fault => [.syntaxFault (byteCount (ts.flatMap Token.spelling)) fault]
    | none => (Scope.start.afterAll ts).unfinished?.toList

theorem fromText_of_complaints {ts : List Token} {fault? : Option Fault} :
    ∀ error ∈ complaints ts fault?, error.FromText := by
  intro error h
  rcases List.mem_append.1 h with h | h
  · exact Scope.fromText_of_offences error h
  · cases fault? with
    | some fault =>
        rw [List.mem_singleton.1 h]
        trivial
    | none =>
        have h := Option.mem_toList.1 h
        rw [Scope.unfinished?] at h
        split at h
        · cases h
          trivial
        · split at h <;> cases h
          trivial

namespace Assembly

/-- The open elements are those of the open tags, and the root is complete when all tags
have been closed again. -/
structure Agrees (a : Assembly) (s : Scope) : Prop where
  names : s.names = a.opened.map (·.name.toList)
  begun : s.names ≠ [] → s.begun = true
  root : a.root.isSome = s.ended

variable {a b : Assembly} {s : Scope} {position : Nat} {t : Token}

theorem agrees_start : start.Agrees .start :=
  ⟨rfl, nofun, rfl⟩

/-- A complete root leaves no element open. -/
theorem Agrees.opened_eq_nil (h : a.Agrees s) (hroot : a.root.isSome) : a.opened = [] := by
  rw [h.root, Scope.ended, Bool.and_eq_true, List.isEmpty_iff, h.names] at hroot
  exact List.map_eq_nil_iff.1 hroot.2

theorem Agrees.isEmpty_names (h : a.Agrees s) : s.names.isEmpty = a.opened.isEmpty := by
  rw [h.names, List.isEmpty_map]

/-- Text, CDATA and comments change nothing but what stands in an open element. -/
theorem Agrees.push? (h : a.Agrees s) {node : Node} (hb : a.push? node = some b) :
    b.Agrees s := by
  rw [Assembly.push?] at hb
  split at hb
  · cases hb
  · next hopened =>
      cases hb
      exact ⟨by rw [h.names, hopened]; rfl, h.begun, h.root⟩

theorem push?_eq_none_iff {node : Node} : a.push? node = none ↔ a.opened = [] := by
  rw [Assembly.push?]
  cases a.opened <;> simp

/-- A complete element is the root or stands in the innermost open one. -/
theorem agrees_place (e : Element) {names : List (List Char)}
    (hnames : names = a.opened.map (·.name.toList)) (hroot : a.root = none) :
    (a.place e).Agrees ⟨names, true⟩ := by
  obtain ⟨opened, root⟩ := a
  obtain rfl : root = none := hroot
  cases opened <;> exact ⟨hnames, fun _ => rfl, by rw [Scope.ended, hnames]; rfl⟩

theorem name_of_ofStartTag {raw : List Char} {e : Element} (h : Element.ofStartTag raw = .ok e) :
    e.name.toList = raw.takeWhile (!isSpace ·) := by
  obtain ⟨attributes, -, rfl⟩ := map_eq_ok.1 h
  exact String.toList_ofList

/-! ### One step -/

/-- A token is taken if nothing is wrong with it where it stands. -/
theorem step_judged (h : a.Agrees s) (position : Nat) (t : Token) :
    Judged (a.step position t) (s.offence? position t).toList := by
  cases t with
  | text raw =>
      rw [step, Scope.offence?, h.isEmpty_names]
      obtain ⟨opened, root⟩ := a
      cases unescape raw with
      | error fault => exact .error _ []
      | ok content =>
          cases opened with
          | cons e outer => exact .ok _
          | nil =>
              show Judged (if content.all isWhiteSpace then Except.ok (Assembly.mk [] root)
                else .error (Error.trailingContent position))
                (if !content.all isWhiteSpace then some (Error.trailingContent position)
                  else none).toList
              cases content.all isWhiteSpace with
              | true => exact .ok _
              | false => exact .error _ []
  | cdata content =>
      rw [step, Scope.offence?, h.isEmpty_names, push?]
      cases a.opened with
      | cons e outer => exact .ok _
      | nil => exact .error _ []
  | comment content => exact .ok _
  | doctype raw => exact .ok _
  | instruction raw => exact .ok _
  | startTag raw closed =>
      rw [step, Scope.offence?, h.root]
      cases s.ended with
      | true => exact .error _ []
      | false =>
          cases Element.ofStartTag raw with
          | error fault => exact .error _ []
          | ok e => exact .ok _
  | endTag raw =>
      rw [step, Scope.offence?, Scope.endFault?, h.names, leave]
      cases a.opened with
      | nil => exact .error _ []
      | cons e outer =>
          by_cases hname : e.name.toList = endName raw
          · simp only [hname, if_pos, List.map_cons]
            exact .ok _
          · simp only [hname, List.map_cons, String.ofList_toList]
            exact .error _ []

/-- An end tag closes the innermost open element, so the root is not complete before. -/
theorem Agrees.leave (h : a.Agrees s) {name : List Char} (hb : a.leave name = .ok b) :
    b.Agrees { s with names := s.names.tail } := by
  rw [Assembly.leave] at hb
  split at hb
  · cases hb
  · next e outer hopened =>
      split at hb
      · cases hb
        have hnames : s.names = e.name.toList :: outer.map (·.name.toList) := by
          rw [h.names, hopened]
          rfl
        have hbegun : s.begun = true := h.begun (by rw [hnames]; exact List.cons_ne_nil _ _)
        have hended : s.ended = false := by
          rw [Scope.ended, hnames, hbegun]
          rfl
        -- A root that is complete would have left no tag open.
        have hroot : a.root = none := by
          rw [← Option.not_isSome_iff_eq_none, h.root, hended]
          decide
        rw [hnames, hbegun]
        exact agrees_place (a := { a with opened := outer }) _ rfl hroot
      · cases hb

theorem Agrees.step (h : a.Agrees s) (hb : a.step position t = .ok b) : b.Agrees (s.after t) := by
  cases t with
  | text raw =>
      obtain ⟨content, -, hb⟩ := bind_eq_ok.1 hb
      split at hb
      · next hpush =>
          cases pure_eq_ok.1 hb
          exact h.push? hpush
      · split at hb
        · cases pure_eq_ok.1 hb
          exact h
        · cases hb
  | cdata content =>
      rw [Assembly.step] at hb
      split at hb
      · next hpush =>
          cases hb
          exact h.push? hpush
      · cases hb
  | comment content =>
      cases hb
      cases hpush : a.push? (.comment (String.ofList content)) with
      | none => exact h
      | some b => exact h.push? hpush
  | doctype raw | instruction raw =>
      cases hb
      exact h
  | startTag raw closed =>
      rw [Assembly.step] at hb
      split at hb
      · cases hb
      · next hroot =>
          have hnone : a.root = none := by simpa using hroot
          obtain ⟨e, he, hb⟩ := bind_eq_ok.1 hb
          have hname := name_of_ofStartTag (mapError_eq_ok.1 he)
          cases pure_eq_ok.1 hb
          cases closed with
          | true => exact agrees_place e h.names hnone
          | false =>
              refine ⟨?_, fun _ => rfl, ?_⟩
              · simp [Scope.after, enter, hname, h.names]
              · simp [Scope.after, enter, hnone, Scope.ended]
  | endTag raw => exact h.leave (mapError_eq_ok.1 hb)

/-! ### A whole text -/

theorem run_judged (h : a.Agrees s) (position : Nat) (ts : List Token) :
    Judged (a.run position ts) (s.offences position ts) := by
  induction ts generalizing a s position with
  | nil => exact .ok _
  | cons t ts ih =>
      rw [run, Scope.offences]
      exact (step_judged h position t).bind fun b hb => ih (h.step hb) _

theorem Agrees.run (h : a.Agrees s) {ts : List Token} {position' : Nat}
    (hrun : a.run position ts = .ok (b, position')) :
    b.Agrees (s.afterAll ts) ∧ position' = position + byteCount (ts.flatMap Token.spelling) := by
  induction ts generalizing a s position with
  | nil =>
      cases hrun
      exact ⟨h, rfl⟩
  | cons t ts ih =>
      obtain ⟨c, hc, hrun⟩ := bind_eq_ok.1 hrun
      obtain ⟨hb, hposition⟩ := ih (h.step hc) hrun
      refine ⟨hb, ?_⟩
      rw [hposition, List.flatMap_cons, byteCount_append, Nat.add_assoc]

theorem finish_judged (h : a.Agrees s) : Judged a.finish s.unfinished?.toList := by
  rw [finish, Scope.unfinished?, h.isEmpty_names]
  cases hopened : a.opened with
  | cons e outer => exact .error _ []
  | nil =>
      have hroot := h.root
      rw [Scope.ended, h.names, hopened] at hroot
      cases hbegun : s.begun <;> rw [hbegun] at hroot <;> cases hr : a.root <;> rw [hr] at hroot
      · exact .error _ []
      · cases hroot
      · cases hroot
      · exact .ok _

/-! ### A reader that knows the open tags -/

/-- Takes a token with no look at the name in an end tag. -/
def trust (a : Assembly) (position : Nat) (token : Token) : Except Error Assembly :=
  match token with
  | .endTag _ =>
    match a.opened with
    | [] => .error (.unbalancedEnd position)
    | e :: outer => .ok ({ a with opened := outer }.place { e with children := e.children.reverse })
  | token => a.step position token

/-- Takes the tokens that a reader hands on. The reader knows which tags are open, and
stops at an end tag that closes none of them. -/
def runTrusting (s : Scope) (a : Assembly) (position : Nat) :
    List Token → Except Error (Assembly × Nat)
  | [] => .ok (a, position)
  | t :: ts => do
    (s.check t).mapError (.syntaxFault position)
    runTrusting (s.after t) (← a.trust position t) (position + byteCount t.spelling) ts

theorem check_trust_eq_step (h : a.Agrees s) (position : Nat) (t : Token) :
    ((s.check t).mapError (.syntaxFault position) >>= fun _ => a.trust position t) =
      a.step position t := by
  cases t with
  | endTag raw =>
      rw [step, Scope.check, Scope.endFault?, trust, leave, h.names]
      cases a.opened with
      | nil => rfl
      | cons e outer =>
          rw [List.map_cons]
          by_cases hname : e.name.toList = endName raw
          · simp only [hname, if_pos]
            rfl
          · simp only [hname, if_neg, not_false_iff, String.ofList_toList]
            rfl
  | text | cdata | comment | doctype | instruction | startTag => rfl

/-- What the reader knows makes the look at the names superfluous. -/
theorem runTrusting_eq_run (h : a.Agrees s) (position : Nat) (ts : List Token) :
    a.runTrusting s position ts = a.run position ts := by
  induction ts generalizing a s position with
  | nil => rfl
  | cons t ts ih =>
      have one := check_trust_eq_step h position t
      rw [run, runTrusting, ← one]
      cases hcheck : (s.check t).mapError (Error.syntaxFault position) with
      | error e => rfl
      | ok u =>
          cases htrust : a.trust position t with
          | error e => rfl
          | ok b =>
              rw [hcheck] at one
              exact ih (h.step (one.symm.trans htrust)) _

end Assembly

/-- A text is read up to the first thing that is wrong with it. -/
theorem ofChars_judged (cs : List Char) :
    let (ts, fault?) := Token.tokens (withoutMark cs)
    Judged (Element.ofChars cs) (complaints ts fault?) := by
  rw [Element.ofChars]
  rcases Token.tokens (withoutMark cs) with ⟨ts, fault?⟩
  refine (Assembly.run_judged Assembly.agrees_start 0 ts).bind fun ⟨a, position⟩ hrun => ?_
  obtain ⟨ha, hposition⟩ := Assembly.agrees_start.run hrun
  rw [Nat.zero_add] at hposition
  cases fault? with
  | none => exact Assembly.finish_judged ha
  | some fault =>
      rw [← hposition]
      exact .error _ []

end IncidentReport.Markup
