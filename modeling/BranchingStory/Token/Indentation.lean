import BranchingStory.Source
import BranchingStory.Token.Scan

/-! # Indentation

The layout pass cuts the scanned tokens into lines and puts marks for the line structure between
them. The open levels are kept innermost first, the base level 0 left out. A wider line opens one
level, a narrower one closes every level wider than itself and is at fault if it then meets none.
`tokens` is the whole of lexing. -/

namespace BranchingStory.Token
set_option autoImplicit false

/-- The tokens of one line, and the span of the line feed that ends it. -/
structure TokenLine where
  content : List Lexeme
  newline : Span

/-- Cuts scanned tokens at the line feeds; a last line without one ends where the source ends. -/
def splitLines (eof : Nat) : List Lexeme → List TokenLine
  | [] => []
  | t :: rest =>
    if t.node.isNewline then ⟨[], t.span⟩ :: splitLines eof rest
    else match splitLines eof rest with
      | [] => [⟨[t], ⟨eof, eof⟩⟩]
      | line :: lines => ⟨t :: line.content, line.newline⟩ :: lines

/-- The width of leading white space: a tab goes on to the next multiple of the tab width, a
carriage return and a byte order mark have no width. -/
def indentWidth (tab : Nat) (width : Nat) : List Char → Nat
  | [] => width
  | c :: rest =>
    if c = ' ' ∨ c = '\u00A0' ∨ c = '\x0C' then indentWidth tab (width + 1) rest
    else if c = '\t' then indentWidth tab (width + (tab - width % tab)) rest
    else if c = '\r' ∨ c = '\uFEFF' then indentWidth tab width rest
    else width

def mark (m : Layout) (span : Span) : Lexeme := ⟨.layout m, span⟩

/-- The marks in front of a line of the given width whose white space and first token begin at
`start` and `first`, and the levels that are open in it. -/
def enterLine (levels : List Nat) (width start first : Nat) : List Lexeme × List Nat :=
  if levels.headD 0 < width then ([mark .indent ⟨first, first⟩], width :: levels)
  else
    let open_ := levels.dropWhile (width < ·)
    let closed := (levels.takeWhile (width < ·)).map fun _ => mark .dedent ⟨first, first⟩
    if open_.headD 0 = width then (closed, open_)
    else (closed ++ [mark .indentError ⟨start, first⟩], open_)

/-- The lines with their marks; at the end every open level is closed. -/
def layOut (index : LineIndex) (tab : Nat) (levels : List Nat) : List TokenLine → List Lexeme
  | [] => levels.map fun _ => mark .dedent ⟨index.length, index.length⟩
  | line :: lines =>
    match line.content with
    | [] => mark .blankLine line.newline :: layOut index tab levels lines
    | first :: _ =>
      let begun := index.lineAt first.span.start
      let (marks, levels) :=
        enterLine levels (indentWidth tab 0 begun.text) begun.start first.span.start
      marks ++ line.content ++ mark .newline line.newline :: layOut index tab levels lines

def defaultTabWidth : Nat := 8

/-- All tokens of a source with its line structure; a tab width of 0 counts as 1. -/
def tokens (source : Source) (tabWidth : Nat) : List Lexeme :=
  layOut source.index (max tabWidth 1) [] (splitLines source.length (lexemes 0 source.text))

end BranchingStory.Token
