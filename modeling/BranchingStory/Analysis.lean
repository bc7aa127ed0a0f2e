import BranchingStory.Diagnostic.Meaning
import BranchingStory.Diagnostic.Syntax
import BranchingStory.Document.Read
import BranchingStory.Script.OfDocument
import BranchingStory.Token.Indentation

/-! # Analysis of a source

From a text to its script and the diagnostics about it: tokens, document, script, and the findings
of reading followed by those about the meaning. It has an answer for every text. -/

namespace BranchingStory
set_option autoImplicit false

/-- The script that a source stands for, as far as it could be made, and what is wrong with it. -/
structure Analysis where
  script : Script
  diagnostics : List Diagnostic

namespace Source

def document (s : Source) (tabWidth : Nat) : Document :=
  .ofLexemes (Token.tokens s tabWidth) s.length

def findings (s : Source) (d : Document) (script : Script) : List Found :=
  s.syntaxFindings d ++ s.meaningFindings d script

def analyse (s : Source) (tabWidth : Nat) : Analysis :=
  let d := s.document tabWidth
  let script := s.script d
  ⟨script, (s.findings d script).map .ofFound⟩

end Source

def Analysis.hasErrors (a : Analysis) : Bool := Diagnostic.hasErrors a.diagnostics

end BranchingStory
