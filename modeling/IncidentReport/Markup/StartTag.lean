import IncidentReport.Markup.Escape

/-!
What stands inside a start tag: a name, then attributes. The attributes are
scanned from the left and each value is unescaped before the scan goes on, so
the leftmost fault is the one reported. Positions count from the name on.
-/

namespace IncidentReport.Markup

open Text

/-- Whether a name goes on with this character. The first character of a name is
not asked. -/
def continuesName (c : Char) : Bool :=
  c != '=' && !isSpace c

/-- An attribute as it stands in a tag, and what follows it. -/
structure AttributeScan where
  name : List Char
  /-- Where the name starts. -/
  position : Nat
  /-- The value with its escapes resolved. -/
  value : List Char
  /-- The tag after the closing quote. -/
  rest : List Char

/-- Looks for the value behind an equals sign. -/
def scanValue (width : Nat) (cs : List Char) : Except Fault (List Char × List Char) :=
  match cs.dropWhile isSpace with
  | [] => .error (.missingValue width)
  | quote :: body =>
    if quote = '"' ∨ quote = '\'' then
      match body.dropWhile (· ≠ quote) with
      | [] => .error (.unclosedValue width quote)
      | _ :: rest => (unescape (body.takeWhile (· ≠ quote))).map (·, rest)
    else
      .error (.unquotedValue (width - byteCount (quote :: body)))

/-- Looks for the next attribute; `none` at the end of the tag. `width` is the
size of the whole tag and `seen` says where the names before started. -/
def scanAttribute (width : Nat) (seen : List (List Char × Nat)) (cs : List Char) :
    Except Fault (Option AttributeScan) :=
  match cs.dropWhile isSpace with
  | [] => .ok none
  | c :: body =>
    let position := width - byteCount (c :: body)
    let name := c :: body.takeWhile continuesName
    let behind := (body.dropWhile continuesName).dropWhile isSpace
    match behind with
    | '=' :: after =>
      match seen.lookup name with
      | some earlier => .error (.repeatedAttribute position earlier)
      | none => (scanValue width after).map fun (value, rest) => some ⟨name, position, value, rest⟩
    | _ => .error (.missingEquals (width - byteCount behind))

theorem length_dropWhile_le (p : Char → Bool) (cs : List Char) :
    (cs.dropWhile p).length ≤ cs.length :=
  (List.dropWhile_sublist p).length_le

theorem length_lt_of_scanValue {width : Nat} {cs value rest : List Char}
    (h : scanValue width cs = .ok (value, rest)) : rest.length < cs.length := by
  have hs := length_dropWhile_le isSpace cs
  rw [scanValue] at h
  split at h
  · simp at h
  · next quote body hb =>
    rw [hb] at hs
    have hq := length_dropWhile_le (· ≠ quote) body
    split at h
    · split at h
      · simp at h
      · next d tail ht =>
        rw [ht] at hq
        generalize unescape _ = content at h
        cases content with
        | error fault => simp [Except.map] at h
        | ok found =>
          simp only [Except.map, Except.ok.injEq, Prod.mk.injEq] at h
          simp only [List.length_cons, h.2] at hs hq
          omega
    · simp at h

theorem length_lt_of_scanAttribute {width : Nat} {seen : List (List Char × Nat)}
    {cs : List Char} {scan : AttributeScan}
    (h : scanAttribute width seen cs = .ok (some scan)) : scan.rest.length < cs.length := by
  have hs := length_dropWhile_le isSpace cs
  rw [scanAttribute] at h
  split at h
  · simp at h
  · next c body hb =>
    rw [hb] at hs
    have hn := length_dropWhile_le continuesName body
    have hw := length_dropWhile_le isSpace (body.dropWhile continuesName)
    dsimp only at h
    split at h
    · next after ha =>
      rw [ha] at hw
      split at h
      · simp at h
      · cases hv : scanValue width after with
        | error fault => simp [hv, Except.map] at h
        | ok found =>
          obtain ⟨value, rest⟩ := found
          have hr := length_lt_of_scanValue hv
          simp only [hv, Except.map, Except.ok.injEq, Option.some.injEq] at h
          subst h
          simp only [List.length_cons] at hs hw
          dsimp only
          omega
    · simp at h

/-- Scans attributes to the end of the tag. -/
def scanAttributes (width : Nat) (seen : List (List Char × Nat)) (cs : List Char) :
    Except Fault AttributeList :=
  match _h : scanAttribute width seen cs with
  | .error fault => .error fault
  | .ok none => .ok []
  | .ok (some scan) =>
    (scanAttributes width ((scan.name, scan.position) :: seen) scan.rest).map
      ((String.ofList scan.name, String.ofList scan.value) :: ·)
termination_by cs.length
decreasing_by exact length_lt_of_scanAttribute ‹_›

/-- The element that a start tag opens, without children. `cs` is what stands
between the angle brackets, less a closing slash. -/
def Element.ofStartTag (cs : List Char) : Except Fault Element :=
  (scanAttributes (byteCount cs) [] (cs.dropWhile (!isSpace ·))).map fun attributes =>
    ⟨String.ofList (cs.takeWhile (!isSpace ·)), attributes, []⟩

end IncidentReport.Markup
