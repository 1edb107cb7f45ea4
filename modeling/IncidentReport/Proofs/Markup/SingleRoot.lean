import IncidentReport.Proofs.Markup.Assembly
import IncidentReport.Proofs.Markup.Scope

/-!
The token sequences that are documents. Apart from document types and instructions, a
document is the tags, texts, CDATA sections and comments of one element, with nothing
but comments and white space around them; and its root is that element.
-/

namespace IncidentReport.Markup

open Text

namespace Token

/-- The token is left out wherever it stands. -/
def isPassedOver : Token → Bool
  | .doctype _ | .instruction _ => true
  | _ => false

/-- The tokens that count. -/
def kept (ts : List Token) : List Token :=
  ts.filter (!·.isPassedOver)

/-- The token is a comment, or a text that can be read and is white space. -/
def MayStandOutside : Token → Prop
  | .comment _ => True
  | .text raw => ∃ content, unescape raw = .ok content ∧ content.all isWhiteSpace = true
  | _ => False

end Token

mutual

/-- The tokens are those of a node. A node without anything in it has one tag, which is
closed, or two; the end tag of any other element has the name of the start tag. -/
inductive Linear : Node → List Token → Prop where
  | text {raw content : List Char} (h : unescape raw = .ok content) :
      Linear (.text (String.ofList content)) [.text raw]
  | cdata (content : List Char) : Linear (.cdata (String.ofList content)) [.cdata content]
  | comment (content : List Char) : Linear (.comment (String.ofList content)) [.comment content]
  | closed {raw : List Char} {name : String} {attributes : AttributeList}
      (h : Element.ofStartTag raw = .ok ⟨name, attributes, []⟩) :
      Linear (.element name attributes []) [.startTag raw true]
  | element {raw stop : List Char} {name : String} {attributes : AttributeList}
      {children : List Node} {ts : List Token}
      (h : Element.ofStartTag raw = .ok ⟨name, attributes, []⟩) (inside : LinearAll children ts)
      (hstop : Assembly.endName stop = name.toList) :
      Linear (.element name attributes children) (.startTag raw false :: (ts ++ [.endTag stop]))

/-- The tokens are those of some nodes, one after the other. -/
inductive LinearAll : List Node → List Token → Prop where
  | nil : LinearAll [] []
  | cons {node : Node} {nodes : List Node} {ts us : List Token} (first : Linear node ts)
      (rest : LinearAll nodes us) : LinearAll (node :: nodes) (ts ++ us)

end

/-- Among the tokens are those of the element, and around them there is nothing but
comments and white space. -/
def SingleRooted (ts : List Token) (e : Element) : Prop :=
  ∃ before inside behind, ts = before ++ inside ++ behind ∧
    (∀ u ∈ before, u.MayStandOutside) ∧ Linear e.toNode inside ∧ ∀ u ∈ behind, u.MayStandOutside

theorem LinearAll.append {xs ys : List Node} {ts us : List Token} (hx : LinearAll xs ts)
    (hy : LinearAll ys us) : LinearAll (xs ++ ys) (ts ++ us) := by
  induction xs generalizing ts with
  | nil =>
      cases hx
      exact hy
  | cons x xs ih =>
      obtain ⟨⟩ | ⟨first, rest⟩ := hx
      rw [List.append_assoc]
      exact .cons first (ih rest)

theorem LinearAll.snoc {nodes : List Node} {node : Node} {ts us : List Token}
    (h : LinearAll nodes ts) (last : Linear node us) : LinearAll (nodes ++ [node]) (ts ++ us) := by
  have one := LinearAll.cons last .nil
  rw [List.append_nil] at one
  exact h.append one

namespace Assembly

variable {a b : Assembly} {ts us : List Token} {t : Token}

/-! ### The tokens of an element lead to it -/

mutual

theorem takes_of_linear : ∀ {node : Node} {ts : List Token}, Linear node ts →
    ∀ {e : Element} {outer : List Element},
      Takes ⟨e :: outer, none⟩ ts ⟨e.behind [node] :: outer, none⟩
  | _, _, .text h, e, outer => by
    refine .cons (fun position => ?_) .nil
    rw [step, h]
    rfl
  | _, _, .cdata content, e, outer => .cons (fun _ => rfl) .nil
  | _, _, .comment content, e, outer => .cons (fun _ => rfl) .nil
  | _, _, .closed h, e, outer => takes_closedTag rfl h
  | _, _, .element h inside hstop, e, outer =>
    takes_tags rfl h (fun _ => takes_of_linearAll inside) hstop

theorem takes_of_linearAll : ∀ {nodes : List Node} {ts : List Token}, LinearAll nodes ts →
    ∀ {e : Element} {outer : List Element},
      Takes ⟨e :: outer, none⟩ ts ⟨e.behind nodes :: outer, none⟩
  | _, _, .nil, e, outer => .nil
  | _, _, .cons first rest, e, outer => by
    rw [Element.behind_cons]
    exact (takes_of_linear first).append (takes_of_linearAll rest)

end

/-- The tokens of an element on its own make it the root. -/
theorem takes_of_linear_root {e : Element} (h : Linear e.toNode ts) :
    start.Takes ts ⟨[], some e⟩ := by
  obtain ⟨name, attributes, children⟩ := e
  rw [Element.toNode] at h
  cases h with
  | closed h => exact takes_closedTag rfl h
  | element h inside hstop => exact takes_tags rfl h (fun _ => takes_of_linearAll inside) hstop

/-- A token that is taken at one place is taken everywhere in the same way. -/
theorem step_of_step {position : Nat} (h : a.step position t = .ok b) (other : Nat) :
    a.step other t = .ok b := by
  cases t with
  | text raw =>
      obtain ⟨content, hcontent, h⟩ := bind_eq_ok.1 h
      refine bind_eq_ok.2 ⟨content, mapError_eq_ok.2 (mapError_eq_ok.1 hcontent), ?_⟩
      split at h
      · exact h
      · split at h
        · next hspace =>
            rw [if_pos hspace]
            exact h
        · cases h
  | cdata content =>
      rw [step] at h ⊢
      split at h
      · exact h
      · cases h
  | comment | doctype | instruction => exact h
  | startTag raw closed =>
      rw [step] at h ⊢
      split at h
      · cases h
      · next hroot =>
          rw [if_neg hroot]
          obtain ⟨e, he, h⟩ := bind_eq_ok.1 h
          exact bind_eq_ok.2 ⟨e, mapError_eq_ok.2 (mapError_eq_ok.1 he), h⟩
  | endTag raw => exact mapError_eq_ok.2 (mapError_eq_ok.1 h)

theorem takes_of_run {position position' : Nat} (h : a.run position ts = .ok (b, position')) :
    a.Takes ts b := by
  induction ts generalizing a position with
  | nil =>
      cases h
      exact .nil
  | cons t ts ih =>
      obtain ⟨c, hc, h⟩ := bind_eq_ok.1 h
      exact .cons (step_of_step hc) (ih h)

theorem takes_cons_iff : a.Takes (t :: ts) b ↔
    ∃ c, (∀ position, a.step position t = .ok c) ∧ c.Takes ts b := by
  constructor
  · intro h
    obtain ⟨position, hrun⟩ := h 0
    obtain ⟨c, hc, hrun⟩ := bind_eq_ok.1 hrun
    exact ⟨c, step_of_step hc, takes_of_run hrun⟩
  · rintro ⟨c, hstep, hc⟩
    exact .cons hstep hc

theorem step_of_isPassedOver (h : t.isPassedOver = true) (position : Nat) :
    a.step position t = .ok a := by
  cases t with
  | doctype | instruction => rfl
  | text | cdata | comment | startTag | endTag => cases h

/-- What is left out makes no difference. -/
theorem takes_kept_iff : a.Takes (Token.kept ts) b ↔ a.Takes ts b := by
  induction ts generalizing a with
  | nil => exact Iff.rfl
  | cons t ts ih =>
      rw [Token.kept, List.filter_cons]
      split
      · rw [takes_cons_iff, takes_cons_iff]
        simp only [← ih]
        exact Iff.rfl
      · next hpassed =>
          have same := step_of_isPassedOver (a := a) (t := t) (by simpa using hpassed)
          rw [takes_cons_iff]
          constructor
          · exact fun h => ⟨a, same, ih.1 h⟩
          · rintro ⟨c, hstep, h⟩
            obtain rfl : c = a := Except.ok.inj ((hstep 0).symm.trans (same 0))
            exact ih.2 h

/-! ### What has led to a state -/

/-- The tokens that have led to some open elements, with what stands in them so far. -/
inductive Opens : List Element → List Token → Prop where
  | outside {ts : List Token} (h : ∀ u ∈ ts, u.MayStandOutside) : Opens [] ts
  | inside {e : Element} {outer : List Element} {raw : List Char} {ts us : List Token}
      (around : Opens outer ts) (start : Element.ofStartTag raw = .ok ⟨e.name, e.attributes, []⟩)
      (filled : LinearAll e.children.reverse us) :
      Opens (e :: outer) (ts ++ .startTag raw false :: us)

/-- The tokens have led to the state: to elements that are open, or to a root. -/
inductive LeadTo (ts : List Token) (a : Assembly) : Prop where
  | unfinished (root : a.root = none) (opens : Opens a.opened ts)
  | complete {e : Element} (root : a.root = some e) (opened : a.opened = []) (h : SingleRooted ts e)

theorem Opens.push {e : Element} {outer : List Element} {node : Node} (h : Opens (e :: outer) ts)
    (hn : Linear node us) :
    Opens ({ e with children := node :: e.children } :: outer) (ts ++ us) := by
  obtain _ | ⟨around, start, filled⟩ := h
  rw [List.append_assoc, List.cons_append]
  refine .inside around start ?_
  rw [List.reverse_cons]
  exact filled.snoc hn

theorem Opens.place {e : Element} (hroot : a.root = none) (h : Opens a.opened ts)
    (he : Linear e.toNode us) : LeadTo (ts ++ us) (a.place e) := by
  obtain ⟨opened, root⟩ := a
  obtain rfl : root = none := hroot
  cases opened with
  | nil =>
      obtain ⟨outside⟩ := h
      exact .complete rfl rfl ⟨ts, us, [], by simp, outside, he, nofun⟩
  | cons outer opened => exact .unfinished rfl (h.push he)

/-- A node that stands in an open element has been led to by its tokens. -/
theorem LeadTo.push? {node : Node} (h : LeadTo ts a) (hn : Linear node us)
    (hb : a.push? node = some b) : LeadTo (ts ++ us) b := by
  obtain ⟨opened, root⟩ := a
  cases opened with
  | nil => cases hb
  | cons e outer =>
      cases hb
      cases h with
      | unfinished hroot opens => exact .unfinished hroot (opens.push hn)
      | complete hroot hopened _ => cases hopened

theorem LeadTo.outside (h : LeadTo ts a) (hopened : a.opened = []) (ht : t.MayStandOutside) :
    LeadTo (ts ++ [t]) a := by
  have more : ∀ {us : List Token}, (∀ u ∈ us, u.MayStandOutside) →
      ∀ u ∈ us ++ [t], u.MayStandOutside := fun hus =>
    List.forall_mem_append.2 ⟨hus, List.forall_mem_singleton.2 ht⟩
  cases h with
  | unfinished hroot opens =>
      rw [hopened] at opens
      obtain ⟨outside⟩ := opens
      exact .unfinished hroot (hopened ▸ .outside (more outside))
  | complete hroot _ h =>
      obtain ⟨before, inside, behind, rfl, hbefore, hinside, hbehind⟩ := h
      exact .complete hroot hopened
        ⟨before, inside, behind ++ [t], by simp, hbefore, hinside, more hbehind⟩

/-- An end tag completes the innermost open element. -/
theorem LeadTo.leave {raw : List Char} (h : LeadTo ts a) (hb : a.leave (endName raw) = .ok b) :
    LeadTo (ts ++ [.endTag raw]) b := by
  rw [Assembly.leave] at hb
  split at hb
  · cases hb
  · next e outer hopened =>
      split at hb
      · next hname =>
          cases hb
          cases h with
          | unfinished hroot opens =>
              rw [hopened] at opens
              obtain _ | ⟨around, start, filled⟩ := opens
              rw [List.append_assoc, List.cons_append]
              exact Opens.place (a := { a with opened := outer }) hroot around
                (.element start filled hname.symm)
          | complete _ hnone _ =>
              rw [hnone] at hopened
              cases hopened
      · cases hb

theorem LeadTo.step (h : LeadTo ts a) {position : Nat} (hb : a.step position t = .ok b) :
    LeadTo (ts ++ Token.kept [t]) b := by
  cases t with
  | text raw =>
      obtain ⟨content, hcontent, hb⟩ := bind_eq_ok.1 hb
      have hread := mapError_eq_ok.1 hcontent
      split at hb
      · next hpush =>
          cases pure_eq_ok.1 hb
          exact h.push? (.text hread) hpush
      · next hpush =>
          split at hb
          · next hspace =>
              cases pure_eq_ok.1 hb
              exact h.outside (push?_eq_none_iff.1 hpush) ⟨content, hread, hspace⟩
          · cases hb
  | cdata content =>
      rw [Assembly.step] at hb
      split at hb
      · next hpush =>
          cases hb
          exact h.push? (.cdata content) hpush
      · cases hb
  | comment content =>
      cases hb
      cases hpush : a.push? (.comment (String.ofList content)) with
      | none => exact h.outside (push?_eq_none_iff.1 hpush) trivial
      | some b => exact h.push? (.comment content) hpush
  | doctype raw | instruction raw =>
      cases hb
      rw [show Token.kept [_] = [] from rfl, List.append_nil]
      exact h
  | startTag raw closed =>
      rw [Assembly.step] at hb
      split at hb
      · cases hb
      · next hnone =>
          obtain ⟨e, he, hb⟩ := bind_eq_ok.1 hb
          have hstart := mapError_eq_ok.1 he
          obtain ⟨attributes, -, rfl⟩ := map_eq_ok.1 hstart
          cases pure_eq_ok.1 hb
          cases h with
          | unfinished hroot opens =>
              cases closed with
              | true => exact opens.place hroot (.closed hstart)
              | false => exact .unfinished hroot (.inside opens hstart .nil)
          | complete hroot _ _ => exact absurd (by rw [hroot]; rfl) hnone
  | endTag raw => exact h.leave (mapError_eq_ok.1 hb)

theorem LeadTo.run (h : LeadTo us a) {position position' : Nat}
    (hrun : a.run position ts = .ok (b, position')) : LeadTo (us ++ Token.kept ts) b := by
  induction ts generalizing a us position with
  | nil =>
      cases hrun
      rwa [Token.kept, List.filter_nil, List.append_nil]
  | cons t ts ih =>
      obtain ⟨c, hc, hrun⟩ := bind_eq_ok.1 hrun
      have hb := ih (h.step hc) hrun
      rw [List.append_assoc] at hb
      rwa [← List.singleton_append, Token.kept, List.filter_append]

theorem leadTo_start : LeadTo [] start :=
  .unfinished rfl (.outside nofun)

theorem finish_eq_ok_iff {e : Element} : a.finish = .ok e ↔ a.opened = [] ∧ a.root = some e := by
  obtain ⟨opened, root⟩ := a
  rw [finish]
  cases opened <;> cases root <;> simp

theorem takes_outside {root : Option Element} (h : ∀ u ∈ ts, u.MayStandOutside) :
    Takes ⟨[], root⟩ ts ⟨[], root⟩ := by
  induction ts with
  | nil => exact .nil
  | cons t ts ih =>
      obtain ⟨ht, hts⟩ := List.forall_mem_cons.1 h
      refine .cons (fun position => ?_) (ih hts)
      cases t with
      | comment content => rfl
      | text raw =>
          obtain ⟨content, hread, hspace⟩ := ht
          rw [step, hread]
          exact if_pos hspace
      | cdata | doctype | instruction | startTag | endTag => exact ht.elim

/-- Tokens that lead to a root are those of the root and what may stand around it. -/
theorem takes_singleRooted {e : Element} (h : SingleRooted ts e) : start.Takes ts ⟨[], some e⟩ := by
  obtain ⟨before, inside, behind, rfl, hbefore, hinside, hbehind⟩ := h
  exact ((takes_outside hbefore).append (takes_of_linear_root hinside)).append
    (takes_outside hbehind)

end Assembly

/-! ### Reading a text -/

/-- The tokens of a text, and the fault at which reading them had to stop. -/
def tokensOf (text : String) : List Token × Option Fault :=
  Token.tokens (withoutMark text.toList)

/-- How a text is read: by its tokens. -/
structure ByTokens (text : String) : Prop where
  /-- A text is read if its tokens come to an end without a fault and have one root. -/
  accepted : ∀ e, Element.parse text = .ok e ↔
    (tokensOf text).2 = none ∧ SingleRooted (Token.kept (tokensOf text).1) e
  /-- The error is the first thing that is wrong. -/
  judged : Judged (Element.parse text) (complaints (tokensOf text).1 (tokensOf text).2)
  errors : ∀ error, Element.parse text = .error error → error.FromText
  /-- At every point the open elements are those of the open tags, and none is open when
  the root is complete. -/
  invariant : ∀ ts, ts <+: (tokensOf text).1 → ∀ a position,
    Assembly.start.run 0 ts = .ok (a, position) →
      (Scope.start.afterAll ts).names = a.opened.map (·.name.toList) ∧
        (a.root.isSome → a.opened = [])
  /-- So nothing depends on who finds out that an end tag does not fit. -/
  trusting : Assembly.start.runTrusting .start 0 (tokensOf text).1 =
    Assembly.start.run 0 (tokensOf text).1

theorem parse_eq (text : String) :
    Element.parse text = (Assembly.start.run 0 (tokensOf text).1 >>= fun r =>
      match (tokensOf text).2 with
      | some fault => .error (.syntaxFault r.2 fault)
      | none => r.1.finish) := rfl

theorem parse_eq_ok_iff {text : String} {e : Element} : Element.parse text = .ok e ↔
    (tokensOf text).2 = none ∧ SingleRooted (Token.kept (tokensOf text).1) e := by
  rw [parse_eq, bind_eq_ok]
  rcases tokensOf text with ⟨ts, fault?⟩
  dsimp only
  constructor
  · rintro ⟨⟨a, position⟩, hrun, h⟩
    cases fault? with
    | some fault => cases h
    | none =>
        obtain ⟨hopened, hroot⟩ := Assembly.finish_eq_ok_iff.1 h
        refine ⟨rfl, ?_⟩
        cases Assembly.leadTo_start.run hrun with
        | unfinished hnone _ =>
            rw [hnone] at hroot
            cases hroot
        | complete hsome _ single =>
            rw [hsome] at hroot
            cases hroot
            exact single
  · rintro ⟨rfl, single⟩
    obtain ⟨position, hrun⟩ := Assembly.takes_kept_iff.1 (Assembly.takes_singleRooted single) 0
    exact ⟨_, hrun, Assembly.finish_eq_ok_iff.2 ⟨rfl, rfl⟩⟩

/-- Every text is read by its tokens: a single root is what is read, and the first token
out of place, or else the end of the text, is the error. -/
theorem parse_byTokens (text : String) : ByTokens text where
  accepted _ := parse_eq_ok_iff
  judged := ofChars_judged text.toList
  errors error h := fromText_of_complaints error ((ofChars_judged text.toList).error_mem h)
  invariant ts _ a position hrun := by
    obtain ⟨ha, -⟩ := Assembly.agrees_start.run hrun
    exact ⟨ha.names, ha.opened_eq_nil⟩
  trusting := Assembly.runTrusting_eq_run Assembly.agrees_start 0 _

end IncidentReport.Markup
