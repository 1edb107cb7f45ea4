import IncidentReport.Text.Space

/-!
Texts in JSON. Reading checks the grammar only: a number and a string keep the
characters that they were written with, and what these mean is asked for where
it matters.
-/

namespace IncidentReport.Json

open Text

/-- A value, as it was written. -/
inductive Value where
  | null
  | bool (value : Bool)
  | number (literal : List Char)
  /-- A string, given by what stands between its quotes. -/
  | string (literal : List Char)
  | array (elements : List Value)
  /-- An object, given by its members in order. A name is a string literal. -/
  | object (members : List (List Char × Value))

/-- A reader takes something off the front of a text. -/
abbrev Reader (α : Type) := List Char → Option (α × List Char)

def isDigit (c : Char) : Bool :=
  '0' ≤ c && c ≤ '9'

def hexDigit? (c : Char) : Option Nat :=
  if '0' ≤ c ∧ c ≤ '9' then some (c.toNat - '0'.toNat)
  else if 'a' ≤ c ∧ c ≤ 'f' then some (c.toNat - 'a'.toNat + 10)
  else if 'A' ≤ c ∧ c ≤ 'F' then some (c.toNat - 'A'.toNat + 10)
  else none

def hexCode? (a b c d : Char) : Option Nat := do
  return (((← hexDigit? a) * 16 + (← hexDigit? b)) * 16 + (← hexDigit? c)) * 16 + (← hexDigit? d)

def digits : Reader (List Char) := fun cs =>
  let ds := cs.takeWhile isDigit
  if ds.isEmpty then none else some (ds, cs.dropWhile isDigit)

/-- Reads digits that do not start with a zero, or a single zero. -/
def integer : Reader (List Char)
  | '0' :: cs => some (['0'], cs)
  | cs => digits cs

/-- Reads a point with digits behind it, if there is a point. -/
def fraction : Reader (List Char)
  | '.' :: cs => (digits cs).map fun (ds, rest) => ('.' :: ds, rest)
  | cs => some ([], cs)

/-- Reads an exponent, if there is one. -/
def exponent : Reader (List Char)
  | [] => some ([], [])
  | e :: cs =>
    if e = 'e' ∨ e = 'E' then
      match cs with
      | '+' :: cs => (digits cs).map fun (ds, rest) => (e :: '+' :: ds, rest)
      | '-' :: cs => (digits cs).map fun (ds, rest) => (e :: '-' :: ds, rest)
      | cs => (digits cs).map fun (ds, rest) => (e :: ds, rest)
    else
      some ([], e :: cs)

def unsigned : Reader (List Char) := fun cs => do
  let (whole, cs) ← integer cs
  let (part, cs) ← fraction cs
  let (power, cs) ← exponent cs
  return (whole ++ part ++ power, cs)

def number : Reader (List Char)
  | '-' :: cs => (unsigned cs).map fun (literal, rest) => ('-' :: literal, rest)
  | cs => unsigned cs

/-- The characters that may stand behind a backslash, `u` apart. -/
def simpleEscapes : List (Char × Char) :=
  [('"', '"'), ('\\', '\\'), ('/', '/'), ('b', '\x08'), ('f', '\x0c'), ('n', '\n'), ('r', '\r'),
    ('t', '\t')]

/-- Reads a string from behind its opening quote. -/
def string : Reader (List Char)
  | [] => none
  | '"' :: cs => some ([], cs)
  | '\\' :: 'u' :: a :: b :: c :: d :: cs =>
    if (hexCode? a b c d).isSome then
      (string cs).map fun (literal, rest) => ('\\' :: 'u' :: a :: b :: c :: d :: literal, rest)
    else
      none
  | '\\' :: e :: cs =>
    if (simpleEscapes.lookup e).isSome then
      (string cs).map fun (literal, rest) => ('\\' :: e :: literal, rest)
    else
      none
  | c :: cs =>
    if c < ' ' then none else (string cs).map fun (literal, rest) => (c :: literal, rest)

/-- The characters that a string literal stands for; `none` if half of a pair of
surrogates stands alone in it. -/
def unquote? : List Char → Option (List Char)
  | [] => some []
  | '\\' :: 'u' :: a :: b :: c :: d :: '\\' :: 'u' :: a' :: b' :: c' :: d' :: cs => do
    let code ← hexCode? a b c d
    if 0xD800 ≤ code ∧ code < 0xDC00 then
      let low ← hexCode? a' b' c' d'
      if 0xDC00 ≤ low ∧ low < 0xE000 then
        return Char.ofNat (0x10000 + (code - 0xD800) * 0x400 + (low - 0xDC00)) :: (← unquote? cs)
      else
        none
    else if 0xDC00 ≤ code ∧ code < 0xE000 then
      none
    else
      return Char.ofNat code :: (← unquote? ('\\' :: 'u' :: a' :: b' :: c' :: d' :: cs))
  | '\\' :: 'u' :: a :: b :: c :: d :: cs => do
    let code ← hexCode? a b c d
    if 0xD800 ≤ code ∧ code < 0xE000 then none else return Char.ofNat code :: (← unquote? cs)
  | '\\' :: e :: cs => do return (← simpleEscapes.lookup e) :: (← unquote? cs)
  | c :: cs => do return c :: (← unquote? cs)

mutual

/-- Reads a value with at most `depth` levels in it. Space before it is skipped. -/
def value (depth : Nat) : Reader Value := fun cs =>
  match depth, cs.dropWhile isSpace with
  | 0, _ => none
  | _ + 1, 'n' :: 'u' :: 'l' :: 'l' :: cs => some (.null, cs)
  | _ + 1, 't' :: 'r' :: 'u' :: 'e' :: cs => some (.bool true, cs)
  | _ + 1, 'f' :: 'a' :: 'l' :: 's' :: 'e' :: cs => some (.bool false, cs)
  | _ + 1, '"' :: cs => (string cs).map fun (literal, rest) => (.string literal, rest)
  | depth + 1, '[' :: cs =>
    match cs.dropWhile isSpace with
    | ']' :: cs => some (.array [], cs)
    | cs => (elements depth cs).map fun (vs, rest) => (.array vs, rest)
  | depth + 1, '\x7b' :: cs =>
    match cs.dropWhile isSpace with
    | '\x7d' :: cs => some (.object [], cs)
    | cs => (members depth cs).map fun (ms, rest) => (.object ms, rest)
  | _ + 1, cs => (number cs).map fun (literal, rest) => (.number literal, rest)

/-- Reads the elements of an array up to its closing bracket. There is one. -/
def elements (depth : Nat) : Reader (List Value) := fun cs =>
  match depth with
  | 0 => none
  | depth + 1 => do
    let (v, cs) ← value depth cs
    match cs.dropWhile isSpace with
    | ',' :: cs => (elements depth cs).map fun (vs, rest) => (v :: vs, rest)
    | ']' :: cs => some ([v], cs)
    | _ => none

/-- Reads the members of an object up to its closing brace. There is one. -/
def members (depth : Nat) : Reader (List (List Char × Value)) := fun cs =>
  match depth, cs.dropWhile isSpace with
  | depth + 1, '"' :: cs => do
    let (name, cs) ← string cs
    match cs.dropWhile isSpace with
    | ':' :: cs =>
      let (v, cs) ← value depth cs
      match cs.dropWhile isSpace with
      | ',' :: cs => (members depth cs).map fun (ms, rest) => ((name, v) :: ms, rest)
      | '\x7d' :: cs => some ([(name, v)], cs)
      | _ => none
    | _ => none
  | _, _ => none

end

/-- The value that a whole text stands for. A text has no more levels and elements
than characters. -/
def parse? (cs : List Char) : Option Value := do
  let (v, rest) ← value (2 * cs.length + 2) cs
  if rest.all isSpace then some v else none

end IncidentReport.Json
