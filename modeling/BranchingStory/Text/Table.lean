import BranchingStory.Text.LineWidth

/-! # Tables

A table as text: a header and rows, in columns as wide as their widest line, with rules between the
rows. -/

namespace BranchingStory.Text
set_option autoImplicit false

structure Table where
  header : List String
  rows : List (List String)

namespace Table

def cellLines (cell : String) : List (List Char) := cell.toList.splitOn '\n'

def cellWidth (cell : String) : Nat := ((cellLines cell).map lineWidth).foldl max 0

def columnWidths (t : Table) : List Nat :=
  t.rows.foldl (fun widths row => widths.zipWith max (row.map cellWidth)) (t.header.map cellWidth)

def run (c : Char) (n : Nat) : String := "".pushn c n

/-- A rule across the table: `ends` at both sides, `line` along the columns, `cross` between them. -/
def rule (ends line : Char) (cross : Char) (widths : List Nat) : String :=
  run ends 1 ++ (run cross 1).intercalate (widths.map fun n => run line (n + 2)) ++ run ends 1 ++ "\n"

def padded (columnWidth : Nat) (line : List Char) : String :=
  " " ++ String.ofList line ++ run ' ' (columnWidth - lineWidth line) ++ " "

/-- A row: one line for each line of its tallest cell. -/
def row (widths : List Nat) (cells : List String) : String :=
  let height := (cells.map fun cell => (cellLines cell).length).foldl max 0
  String.join ((List.range height).map fun number =>
    let line := (widths.zip cells).map fun (columnWidth, cell) =>
      padded columnWidth ((cellLines cell).getD number [])
    "|" ++ "|".intercalate line ++ "|\n")

def render (t : Table) : String :=
  let widths := t.columnWidths
  rule '+' '-' '+' widths ++ row widths t.header ++ rule '+' '=' '=' widths ++
    (rule '|' '-' '+' widths).intercalate (t.rows.map (row widths)) ++ rule '+' '-' '+' widths

end Table

end BranchingStory.Text
