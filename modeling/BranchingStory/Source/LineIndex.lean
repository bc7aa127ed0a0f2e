import BranchingStory.Source.Position
import BranchingStory.Text.Offset

/-! # Lines of a source

`LineIndex` lists the lines of a source in order, each with the offset of its first byte and the
text from there on. A position is found by bisection over that list. -/

namespace BranchingStory
set_option autoImplicit false

/-- One line: the offset of its first byte, and the source from there to its end. -/
structure Line where
  start : Nat
  text : List Char
deriving DecidableEq, Repr

/-- The lines of a source, in order, and the length of the source in bytes. -/
structure LineIndex where
  lines : Array Line
  length : Nat

namespace LineIndex
open Text

/-- The lines that begin inside `text`, which itself starts at the offset `offset`. -/
def linesWithin (offset : Nat) : List Char → List Line
  | [] => []
  | c :: rest =>
    let next := offset + c.utf8Size
    if c = '\n' then ⟨next, rest⟩ :: linesWithin next rest else linesWithin next rest

/-- Every source has a first line; each line feed begins one more. -/
def ofSource (source : List Char) : LineIndex where
  lines := (⟨0, source⟩ :: linesWithin 0 source).toArray
  length := byteLength source

/-- Does the line with this number, counted from zero, begin at or before the offset? -/
def beginsBy (index : LineIndex) (offset number : Nat) : Bool :=
  match index.lines[number]? with
  | some line => line.start ≤ offset
  | none => false

/-- Halves the stretch of line numbers from `lo` up to `hi` until one is left. -/
def bisect (index : LineIndex) (offset lo hi : Nat) : Nat :=
  if h : lo + 1 < hi then
    let middle := (lo + hi) / 2
    if index.beginsBy offset middle then index.bisect offset middle hi
    else index.bisect offset lo middle
  else lo
termination_by hi - lo

def lineNumber (index : LineIndex) (offset : Nat) : Nat :=
  index.bisect offset 0 index.lines.size

def lineAt (index : LineIndex) (offset : Nat) : Line :=
  index.lines.getD (index.lineNumber offset) ⟨0, []⟩

/-- The characters between the line's start and the offset; where the offset stands inside a
character, the bytes between them. -/
def columnIn (line : Line) (offset : Nat) : Nat :=
  match takeBytes? (offset - line.start) line.text with
  | some before => before.length
  | none => offset - line.start

/-- The position of an offset; what lies behind the end counts as the end. -/
def position (index : LineIndex) (offset : Nat) : Position :=
  let offset := min offset index.length
  { offset
    line := index.lineNumber offset + 1
    column := columnIn (index.lineAt offset) offset + 1 }

def range (index : LineIndex) (span : Span) : Range :=
  ⟨index.position span.start, index.position span.stop⟩

def fullRange (index : LineIndex) : Range := index.range ⟨0, index.length⟩

def lineCount (index : LineIndex) : Nat := index.lines.size

@[simp] theorem offset_position (index : LineIndex) (offset : Nat) :
    (index.position offset).offset = min offset index.length := rfl

end LineIndex

end BranchingStory
