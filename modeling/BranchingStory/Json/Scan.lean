import BranchingStory.Json
import BranchingStory.Text.Binary64
import BranchingStory.Text.Digits

/-! # Scanning JSON

A document is cut into brackets, commas, colons and plain values before its structure is looked at.
A string may name half of a surrogate pair; its text is then absent, and the string can stand only
where nobody looks at it. -/

namespace BranchingStory.Json
set_option autoImplicit false

inductive Mark where
  | sign (c : Char)
  /-- A string, by its text if it is Unicode text. -/
  | string (s : Option String)
  /-- A number, a truth value or null. -/
  | plain (j : Json)

def isSpace (c : Char) : Bool := c == ' ' || c == '\n' || c == '\t' || c == '\r'

/-! ## Strings -/

def hexValue? (c : Char) : Option Nat :=
  if c.isDigit then some (c.toNat - '0'.toNat)
  else if 'a' ≤ c ∧ c ≤ 'f' then some (c.toNat - 'a'.toNat + 10)
  else if 'A' ≤ c ∧ c ≤ 'F' then some (c.toNat - 'A'.toNat + 10)
  else none

def hexUnit? : List Char → Option Nat
  | a :: b :: c :: d :: _ => do
    return ((← hexValue? a) * 16 + (← hexValue? b)) * 256 + (← hexValue? c) * 16 + (← hexValue? d)
  | _ => none

def isHighHalf (n : Nat) : Bool := 0xD800 ≤ n && n < 0xDC00

def isLowHalf (n : Nat) : Bool := 0xDC00 ≤ n && n < 0xE000

def letterEscape? : Char → Option Char
  | '"' => some '"'
  | '\\' => some '\\'
  | '/' => some '/'
  | 'b' => some '\x08'
  | 'f' => some '\x0C'
  | 'n' => some '\n'
  | 'r' => some '\r'
  | 't' => some '\t'
  | _ => none

/-- The second half of a surrogate pair, written as an escape at the front of a text. -/
def lowHalf? : List Char → Option Nat
  | '\\' :: 'u' :: rest => (hexUnit? rest).filter isLowHalf
  | _ => none

/-- What stands behind a backslash: its character, which is absent for half a surrogate pair, and its
length. -/
def escape? : List Char → Option (Option Char × Nat)
  | 'u' :: rest => do
    let n ← hexUnit? rest
    if isHighHalf n then
      match lowHalf? (rest.drop 4) with
      | some m => return (some (Char.ofNat (0x10000 + (n - 0xD800) * 0x400 + (m - 0xDC00))), 11)
      | none => return (none, 5)
    else if isLowHalf n then return (none, 5)
    else return (some (Char.ofNat n), 5)
  | c :: _ => (letterEscape? c).map fun e => (some e, 1)
  | [] => none

/-- The text of a string behind its opening quote, and its length with the closing quote. -/
def stringBody? (text : List Char) : Option (Option (List Char) × Nat) :=
  match text with
  | [] => none
  | c :: rest =>
    if c = '"' then some (some [], 1)
    else if c.toNat < 0x20 then none
    else if c = '\\' then do
      let (e, n) ← escape? rest
      let (body, m) ← stringBody? (rest.drop n)
      return (e.bind fun e => body.map (e :: ·), n + m + 1)
    else do
      let (body, m) ← stringBody? rest
      return (body.map (c :: ·), m + 1)
termination_by text.length
decreasing_by
  all_goals
    simp only [List.length_cons, List.length_drop]
    omega

/-! ## Numbers -/

/-- The digits of a whole part: a lone zero, or digits that begin with another one. -/
def wholePart : List Char → List Char
  | '0' :: _ => ['0']
  | text => text.takeWhile Char.isDigit

/-- Digits behind one of the given marks, if that mark is next; the mark must not stand alone. -/
def partBehind? (marks : List Char) : List Char → Option (List Char)
  | c :: rest =>
    if c ∈ marks then
      let digits := rest.takeWhile Char.isDigit
      if digits = [] then none else some digits
    else some []
  | [] => some []

/-- The exponent at the front of a text: whether it is negative, its digits and its length. -/
def exponent? : List Char → Option (Bool × List Char × Nat)
  | c :: rest =>
    if c = 'e' ∨ c = 'E' then
      let signed := rest.head? == some '-' || rest.head? == some '+'
      let digits := (if signed then rest.drop 1 else rest).takeWhile Char.isDigit
      if digits = [] then none
      else some (rest.head? == some '-', digits, digits.length + if signed then 2 else 1)
    else some (false, [], 0)
  | [] => some (false, [], 0)

/-- A whole number with these digits behind it, as far as it stays below `2 ^ 64`, and how many digits
are left over. -/
def readOn (n : Nat) : List Char → Nat × Nat
  | [] => (n, 0)
  | d :: rest =>
    let more := 10 * n + (d.toNat - '0'.toNat)
    if more < Nat.pow 2 64 then readOn more rest else (n, rest.length + 1)

/-- Can a double hold the number with the digits `whole` before the point, `fraction` behind it and
this exponent? The digits and the power of ten are rounded each by itself, and their product once
more, so next to the bound the answer can differ from the one for the number itself. A digit of the
whole part that does not fit is a zero; one behind the point is left out, as are all behind it. -/
def fitsDouble (whole fraction : List Char) (exponent : Int) : Bool :=
  let (units, skipped) := readOn 0 whole
  let (digits, unread) := readOn units fraction
  let power := exponent + skipped - (fraction.length - unread)
  digits == 0 || power < 0 ||
    power ≤ 308 && Binary64.isFinite (Binary64.nearest digits * Binary64.nearest (Nat.pow 10 power.toNat))

/-- The number at the front of a text, and its length. A natural number below `2 ^ 64` is one; every
other number is foreign. -/
def number? (text : List Char) : Option (Json × Nat) := do
  let negative := text.head? == some '-'
  let signless := if negative then text.drop 1 else text
  let whole := wholePart signless
  if whole = [] then none
  let behind := signless.drop whole.length
  let fraction ← partBehind? ['.'] behind
  let point := if fraction = [] then 0 else 1
  let (down, digits, n) ← exponent? (behind.drop (fraction.length + point))
  let length := (if negative then 1 else 0) + whole.length + fraction.length + point + n
  let value := Text.naturalOf whole
  if ¬ negative ∧ point = 0 ∧ n = 0 ∧ value < Nat.pow 2 64 then return (.natural value, length)
  else
    let magnitude : Int := Text.naturalOf digits
    return (.foreign (fitsDouble whole fraction (if down then -magnitude else magnitude)), length)

/-! ## Documents -/

/-- The unit that begins with `c` and goes on in `rest`, and the number of its characters after the
first. -/
def mark? (c : Char) (rest : List Char) : Option (Mark × Nat) :=
  if c ∈ ['[', ']', '\x7b', '\x7d', ',', ':'] then some (.sign c, 0)
  else if c = '"' then (stringBody? rest).map fun (s, n) => (.string (s.map String.ofList), n)
  else if c.isDigit ∨ c = '-' then (number? (c :: rest)).map fun (j, n) => (.plain j, n - 1)
  else if "null".toList.isPrefixOf (c :: rest) then some (.plain .null, 3)
  else if "true".toList.isPrefixOf (c :: rest) then some (.plain (.bool true), 3)
  else if "false".toList.isPrefixOf (c :: rest) then some (.plain (.bool false), 4)
  else none

def marks? (text : List Char) : Option (List Mark) :=
  match text with
  | [] => some []
  | c :: rest =>
    if isSpace c then marks? rest
    else do
      let (m, n) ← mark? c rest
      return m :: (← marks? (rest.drop n))
termination_by text.length
decreasing_by
  all_goals
    simp only [List.length_cons, List.length_drop]
    omega

end BranchingStory.Json
