import BranchingStory.Document

/-! # A place in the tokens

A cursor holds the tokens that are still to be read and the end of the last token that was passed,
layout marks left out of account. It only ever moves on: `pass` drops tokens from the front, and
what a reading leaves is a suffix of what it found, which its type says. -/

namespace BranchingStory
set_option autoImplicit false

/-- A place in the tokens of a source whose length is `eof`. -/
structure Cursor where
  rest : List Lexeme
  lastEnd : Nat
  eof : Nat

namespace Cursor

/-- The end of the last proper token, once one more token is passed. -/
def endAfter (lastEnd : Nat) (t : Lexeme) : Nat := if t.node.isLayout then lastEnd else t.span.stop

def pass (n : Nat) (c : Cursor) : Cursor :=
  { c with rest := c.rest.drop n, lastEnd := (c.rest.take n).foldl endAfter c.lastEnd }

def peek? (c : Cursor) : Option Token := c.rest.head?.map (·.node)

def offset (c : Cursor) : Nat := (c.rest.head?.map (·.span.start)).getD c.eof

def lineLength (c : Cursor) : Nat := (c.rest.takeWhile (!·.node.isNewline)).length

def passIf (t : Token) (c : Cursor) : Cursor := if c.peek? = some t then c.pass 1 else c

/-- The number of blank lines ahead, if an indentation follows them. -/
def indentAhead? (c : Cursor) : Option Nat :=
  let blanks := (c.rest.takeWhile (·.node == .layout .blankLine)).length
  if (c.pass blanks).peek? = some (.layout .indent) then some blanks else none

/-- The number of tokens up to the one that closes the outermost of the open regions. -/
def regionLength (depth : Nat) : List Lexeme → Nat
  | [] => 0
  | t :: rest =>
    match t.node with
    | .layout .indent => regionLength (depth + 1) rest + 1
    | .layout .dedent => if depth ≤ 1 then 1 else regionLength (depth - 1) rest + 1
    | _ => regionLength depth rest + 1

/-- The place behind an indented region, if one is ahead. -/
def skipNested (c : Cursor) : Cursor :=
  match c.indentAhead? with
  | some blanks => c.pass (blanks + regionLength 0 (c.rest.drop blanks))
  | none => c

/-! ## What is left is a suffix -/

theorem pass_suffix (n : Nat) (c : Cursor) : (c.pass n).rest <:+ c.rest := List.drop_suffix n c.rest

theorem passIf_suffix (t : Token) (c : Cursor) : (c.passIf t).rest <:+ c.rest := by
  unfold passIf
  split
  · exact pass_suffix 1 c
  · exact List.suffix_refl _

theorem skipNested_suffix (c : Cursor) : c.skipNested.rest <:+ c.rest := by
  unfold skipNested
  split
  · exact pass_suffix _ c
  · exact List.suffix_refl _

theorem pass_one_length {c : Cursor} {t : Lexeme} {rest : List Lexeme} (h : c.rest = t :: rest) :
    (c.pass 1).rest.length < c.rest.length := by
  simp [pass, h]

theorem one_le_regionLength (depth : Nat) (t : Lexeme) (rest : List Lexeme) :
    1 ≤ regionLength depth (t :: rest) := by
  unfold regionLength
  split <;> first | omega | (split <;> omega)

/-- Skipping an indented region passes at least its opening mark. -/
theorem skipNested_length {c : Cursor} {t : Lexeme} {rest : List Lexeme} (h : c.rest = t :: rest)
    (ht : t.node = .layout .indent) : c.skipNested.rest.length < c.rest.length := by
  have hahead : c.indentAhead? = some 0 := by simp [indentAhead?, pass, peek?, h, ht]
  have hone := one_le_regionLength 0 t rest
  simp only [skipNested, hahead, pass, List.drop_zero, h, List.length_drop, List.length_cons]
  omega

end Cursor

/-- What was read from a place on, and the place behind it. -/
structure Step (c : Cursor) (α : Type) where
  value : α
  next : Cursor
  suffix : next.rest <:+ c.rest

namespace Step
variable {α β : Type}

def stay (c : Cursor) (a : α) : Step c α := ⟨a, c, List.suffix_refl _⟩

/-- The same step, seen from a place further in front. -/
def from_ {c d : Cursor} (h : d.rest <:+ c.rest) (s : Step d α) : Step c α :=
  ⟨s.value, s.next, s.suffix.trans h⟩

def map {c : Cursor} (f : α → β) (s : Step c α) : Step c β := ⟨f s.value, s.next, s.suffix⟩

theorem length_le {c : Cursor} (s : Step c α) : s.next.rest.length ≤ c.rest.length :=
  s.suffix.length_le

end Step

/-- Reads a part of a line and tells its issues. -/
def Reading (α : Type) : Type := (c : Cursor) → Step c (α × List Issue)

namespace Reading

instance : Monad Reading where
  pure a := fun c => .stay c (a, [])
  bind m f := fun c =>
    let first := m c
    let second := f first.value.1 first.next
    (second.map fun (b, issues) => (b, first.value.2 ++ issues)).from_ first.suffix

def peek? : Reading (Option Token) := fun c => .stay c (c.peek?, [])

def advance : Reading Unit := fun c => ⟨((), []), c.pass 1, c.pass_suffix 1⟩

def missing (segment : Segment) : Reading Unit := fun c =>
  .stay c ((), [.missing segment c.offset])

def identifier : Reading (Option Name) := fun c =>
  match c.rest with
  | ⟨.word name, span⟩ :: _ => ⟨(some ⟨name, span⟩, []), c.pass 1, c.pass_suffix 1⟩
  | _ => .stay c (none, [.missing .identifier c.offset])

def string : Reading (Option Name) := fun c =>
  match c.rest with
  | ⟨.string text, span⟩ :: _ => ⟨(some ⟨text, span⟩, []), c.pass 1, c.pass_suffix 1⟩
  | _ => .stay c (none, [.missing .string c.offset])

def expect (s : Symbol) (segment : Segment) : Reading Unit := fun c =>
  if c.peek? = some (.symbol s) then advance c else missing segment c

/-- Passes what is left of the line, which should be nothing, and the line's end. -/
def finishLine : Reading Unit := fun c =>
  let n := c.lineLength
  let issues := if n = 0 then [] else [Issue.unexpected ⟨c.offset, (c.pass n).lastEnd⟩]
  ⟨((), issues), (c.pass n).passIf (.layout .newline),
    ((c.pass n).passIf_suffix _).trans (c.pass_suffix n)⟩

theorem finishLine_length {c : Cursor} {t : Lexeme} {rest : List Lexeme} (h : c.rest = t :: rest)
    (ht : ¬ t.node.isLayout) : (finishLine c).next.rest.length < c.rest.length := by
  have hnode : t.node ≠ .layout .newline := fun e => ht (by simp [e, Token.isLayout])
  have hpos : 1 ≤ c.lineLength := by simp [Cursor.lineLength, h, Token.isNewline, hnode]
  have hpass : (c.pass c.lineLength).rest.length < c.rest.length := by
    simp only [Cursor.pass, List.length_drop, h, List.length_cons]
    omega
  exact Nat.lt_of_le_of_lt (Cursor.passIf_suffix _ _).length_le hpass

end Reading

end BranchingStory
