import BranchingStory.Document.Fence
import BranchingStory.Document.Statements

/-! # Reading a document

The metadata fence may follow blank lines at the front of a source; all that is behind it are the
statements of the top level. -/

namespace BranchingStory.Document
set_option autoImplicit false

def front (ts : List Lexeme) (eof : Nat) : Cursor :=
  let c : Cursor := ⟨ts, 0, eof⟩
  c.pass (ts.takeWhile (·.node == .layout .blankLine)).length

/-- The document that the tokens of a source of this length spell, and where reading stops. -/
def readTo (ts : List Lexeme) (eof : Nat) : Document × Cursor :=
  let c := front ts eof
  if c.peek? = some (.symbol .fenceOpen) then
    let fence := MetadataFence.read c
    let body := Statement.read .topLevel fence.next
    (⟨some fence.value.1, body.value⟩, body.next)
  else
    let body := Statement.read .topLevel c
    (⟨none, body.value⟩, body.next)

def ofLexemes (ts : List Lexeme) (eof : Nat) : Document := (readTo ts eof).1

end BranchingStory.Document
