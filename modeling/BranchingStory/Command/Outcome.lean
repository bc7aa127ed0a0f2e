import BranchingStory.Analysis
import BranchingStory.Diagnostic.Picture

/-! # Outcomes

What a command leaves for the user to read, and whether it failed. -/

namespace BranchingStory
set_option autoImplicit false

structure Outcome where
  /-- The text for the standard output. -/
  shown : String := ""
  /-- The pictures of diagnostics. -/
  pictures : String := ""
  /-- A summary of the diagnostics. -/
  summary : String := ""
  error : Option String := none
deriving DecidableEq, Repr

namespace Outcome

def more (o : Outcome) (text : String) : Outcome := { o with shown := o.shown ++ text }

def fail (o : Outcome) (message : String) : Outcome := { o with error := some message }

/-- The text for the error output below the pictures. -/
def remarks (o : Outcome) : String :=
  o.summary ++ ((o.error.map fun e => "error: " ++ e ++ "\n").getD "")

def code (o : Outcome) : Nat := if o.error.isSome then 1 else 0

def count (n : Nat) (thing : String) : String := toString n ++ " " ++ thing ++ if n = 1 then "" else "s"

def summarize (ds : List Diagnostic) : String :=
  let errors := (ds.filter (·.severity == .error)).length
  let warnings := (ds.filter (·.severity == .warning)).length
  if 0 < errors then "  " ++ count errors "error" ++ ", " ++ count warnings "warning" ++ "\n"
  else if 0 < warnings then "  " ++ count warnings "warning" ++ "\n"
  else ""

def ofAnalysis (source : Source) (file : String) (a : Analysis) : Outcome where
  pictures := Diagnostic.pictures source file a.diagnostics
  summary := summarize a.diagnostics

end Outcome

end BranchingStory
