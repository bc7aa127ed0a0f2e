import BranchingStory.Diagnostic
import BranchingStory.Source
import BranchingStory.Text.Offset
import BranchingStory.Text.Width

/-! # Pictures of diagnostics

A diagnostic is shown with the lines that it is about. What lies on one line is underlined; what
spans several lines is shown by its first and its last line with an arrow in the margin. Of a place
that the source does not have, only the headline is shown. -/

namespace BranchingStory
set_option autoImplicit false

namespace Picture

/-! ## Lines as they are seen -/

def endsLine (c : Char) : Bool :=
  c == '\n' || c == '\r' || c == '\x0B' || c == '\x0C' || c == '\u0085' || c == '\u2028' ||
    c == '\u2029'

/-- The lines of a text with their ends; a carriage return and a line feed are one end. -/
def lines : List Char → List (List Char)
  | [] => []
  | '\r' :: '\n' :: rest => ['\r', '\n'] :: lines rest
  | c :: rest =>
    if endsLine c then [c] :: lines rest
    else
      match lines rest with
      | [] => [[c]]
      | line :: others => (c :: line) :: others

/-- A place in the lines: the number of the line, from zero on, the line, and the bytes of it that
stand before the place. -/
structure Spot where
  number : Nat
  line : List Char
  bytes : Nat

namespace Spot

/-- The place of an offset in lines of which the first has the given number. What lies right behind
the last line still belongs to it. -/
def find? (offset number : Nat) : List (List Char) → Option Spot
  | [] => if offset = 0 then some ⟨number, [], 0⟩ else none
  | line :: others =>
    if offset < Text.byteLength line ∨ (offset = Text.byteLength line ∧ others = []) then
      some ⟨number, line, offset⟩
    else if others = [] then none
    else find? (offset - Text.byteLength line) (number + 1) others

def column (s : Spot) : Nat := ((Text.takeBytes? s.bytes s.line).map (·.length)).getD s.bytes

end Spot

/-- Where a span begins and where it ends; an empty one ends where it begins. -/
structure Stretch where
  first : Spot
  last : Spot

/-- The stretch of a span, unless it goes beyond the text. -/
def stretch? (text : List Char) (span : Span) : Option Stretch := do
  let first ← Spot.find? span.start 0 (lines text)
  if span.stop ≤ span.start then return ⟨first, first⟩
  let last ← Spot.find? (span.stop - 1) 0 (lines text)
  return ⟨first, { last with bytes := last.bytes + 1 }⟩

/-! ## Cells

A column of the text is displayed as a cell, which can be wider than one. -/

/-- The width of a cell; a tab reaches to the next multiple of four. -/
def cellWidth (column : Nat) (c : Char) : Nat :=
  if c = '\t' then 4 - column % 4 else if Text.isBlank c then 1 else Text.charWidth .earlier c

def shown (line : List Char) : String :=
  String.ofList ((Text.trimEnd line).zipIdx.map fun (c, column) =>
    if Text.isBlank c then List.replicate (cellWidth column c) ' ' else [c]).flatten

/-- The widths of the first cells of a line; behind the line a cell is one wide. -/
def widths (line : List Char) (count : Nat) : List Nat :=
  (((Text.trimEnd line).zipIdx.map fun (c, column) => cellWidth column c) ++
    List.replicate count 1).take count

/-- A row of cells, each with a sign and, if it is wider, another one that continues it. -/
def row (widths : List Nat) (signs : Nat → Char × Char) : String :=
  String.ofList (widths.zipIdx.map fun (width, column) =>
    match width with
    | 0 => []
    | more + 1 => (signs column).1 :: List.replicate more (signs column).2).flatten

def blanks (n : Nat) : String := "".pushn ' ' n

/-! ## Drawing -/

def numberWidth (s : Stretch) : Nat := (toString (s.last.number + 1)).length

/-- The margin of a row that is no line of the source, closed by the given sign. -/
def margin (s : Stretch) (sign : String) : String := blanks (numberWidth s + 2) ++ sign

def numbered (s : Stretch) (spot : Spot) (arrow : String) : String :=
  let number := toString (spot.number + 1)
  " " ++ blanks (numberWidth s - number.length) ++ number ++ " │ " ++ arrow ++ shown spot.line

/-- One line with what is underlined in it, and the message below its middle. -/
def underlined (s : Stretch) (message : String) : List String :=
  let start := s.first.column
  let stop := s.last.column
  let middle := (start + stop) / 2
  let cells := widths s.first.line (stop + 2)
  let under := row cells fun column =>
    if column = middle then if start < stop then ('┬', '─') else ('│', ' ')
    else if start ≤ column ∧ column < stop then ('─', '─')
    else (' ', ' ')
  let pointer := row cells fun column =>
    if column < middle then (' ', ' ') else if column = middle then ('╰', '─') else ('─', '─')
  [numbered s s.first "", margin s "│ " ++ under, margin s "│ " ++ pointer ++ " " ++ message]

/-- The first and the last line, tied by an arrow, and the message below it. -/
def bracketed (s : Stretch) (message : String) : List String :=
  let cells := widths s.last.line (s.last.line.length + 2)
  let gap := if s.first.number + 1 < s.last.number then [margin s "┆ ┆   "] else []
  [numbered s s.first "╭─▶ "] ++ gap ++
    [numbered s s.last "├─▶ ", margin s "│ │   " ++ row cells fun _ => (' ', ' '),
      margin s "│ ╰───" ++ (row cells fun _ => ('─', '─')) ++ " " ++ message]

end Picture

/-! ## Diagnostics -/

def Severity.headword : Severity → String
  | .error => "Error"
  | .warning => "Warning"
  | .info => "Advice"

namespace Diagnostic
open Picture

def headline (d : Diagnostic) : String :=
  "[" ++ d.code ++ blanks (2 - d.code.length) ++ "] " ++ d.severity.headword ++ ": " ++ d.message

def view? (source : Source) (fileName : String) (d : Diagnostic) : Option (List String) :=
  (stretch? source.text d.range.span).map fun s =>
    let body :=
      if s.first.number = s.last.number then underlined s d.message else bracketed s d.message
    let place := s!"{fileName}:{s.first.number + 1}:{s.first.column + 1}"
    [margin s ("╭─[ " ++ place ++ " ]"), margin s "│"] ++ body ++
      ["".pushn '─' (numberWidth s + 2) ++ "╯"]

def picture (source : Source) (fileName : String) (d : Diagnostic) : String :=
  String.join ((d.headline :: (d.view? source fileName).getD []).map (· ++ "\n"))

def pictures (source : Source) (fileName : String) (ds : List Diagnostic) : String :=
  String.join (ds.map (·.picture source fileName))

/-- The severities whose colours appear in the pictures. Only the rows below the headline have the
colour of advice. -/
def colours (source : Source) (ds : List Diagnostic) : List Severity :=
  [.error, .warning, .info].filter fun severity =>
    ds.any fun d => d.severity == severity && (d.severity != .info || (d.view? source "").isSome)

end Diagnostic

def Severity.colourCode : Severity → Nat
  | .error => 31
  | .warning => 33
  | .info => 34

end BranchingStory
