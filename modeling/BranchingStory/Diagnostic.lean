import BranchingStory.Document
import BranchingStory.Script

/-! # Diagnostics

A finding is what a check has found, with all that its message needs; a diagnostic is a finding put
into words, or one that was read from elsewhere. -/

namespace BranchingStory
set_option autoImplicit false

/-- How serious a diagnostic is. Only errors keep a story from being built. -/
inductive Severity where
  | error | warning | info
deriving DecidableEq, Repr

/-- A message about a stretch of a source. -/
structure Diagnostic where
  code : String
  message : String
  severity : Severity
  range : Range
deriving DecidableEq, Repr

inductive Finding where
  | unexpected (snippet : String)
  | missing (segment : Segment)
  | inconsistentIndentation
  /-- A name that an earlier sibling has already. -/
  | duplicate (node : Node) (parent : Option Node)
  | choiceOutsideBeat
  | unknownTarget (target : String)
  | optionWithoutTarget (label : Option String)
  | noContent (node : Node)
  /-- A beat whose name was last given to a beat of another parent. -/
  | beatCollision (id : String) (earlierParent : Option Node)

structure Found where
  finding : Finding
  range : Range

def Severity.label : Severity → String
  | .error => "error"
  | .warning => "warning"
  | .info => "info"

def Node.reference (n : Node) (kind : String) : String :=
  if n.id = "" then kind else kind ++ " \"" ++ n.id ++ "\""

namespace Finding

/-- The code of a finding: below 100 for what was written, from 101 on for what it means. -/
def code : Finding → String
  | .unexpected _ => "SKR001"
  | .missing _ => "SKR002"
  | .inconsistentIndentation => "SKR003"
  | .duplicate _ _ => "SKR101"
  | .choiceOutsideBeat => "SKR102"
  | .unknownTarget _ | .optionWithoutTarget _ => "SKR103"
  | .noContent _ => "SKR104"
  | .beatCollision _ _ => "SKR105"

/-- Every finding is an error but the collision of beats. -/
def severity : Finding → Severity
  | .beatCollision _ _ => .warning
  | _ => .error

def message : Finding → String
  | .unexpected snippet =>
    if snippet = "" then "Unexpected token." else "Unexpected token near \"" ++ snippet ++ "\"."
  | .missing segment => "Missing " ++ segment.label ++ " segment."
  | .inconsistentIndentation => "Inconsistent indentation detected."
  | .duplicate node parent =>
    let within := match parent with
      | some p => " within " ++ p.reference p.kind.label
      | none => ""
    "Duplicate " ++ node.reference node.kind.label ++ within ++ "."
  | .choiceOutsideBeat => "Choice blocks must be nested inside a beat."
  | .unknownTarget target => "Target \"" ++ target ++ "\" does not match any declared node."
  | .optionWithoutTarget label =>
    let named := match label with
      | some l => " \"" ++ l ++ "\""
      | none => ""
    "Option" ++ named ++ " is missing a target or inline body."
  | .noContent node => node.reference node.kind.title ++ " has no content."
  | .beatCollision id earlierParent =>
    let location := match earlierParent with
      | some p => p.reference p.kind.label
      | none => "the top level"
    "Beat \"" ++ id ++ "\" is also declared in " ++ location ++
      "; targets resolve to the last declaration."

end Finding

namespace Diagnostic

def ofFound (f : Found) : Diagnostic :=
  ⟨f.finding.code, f.finding.message, f.finding.severity, f.range⟩

def isError (d : Diagnostic) : Bool := d.severity == .error

def display (d : Diagnostic) : String :=
  d.severity.label ++ "[" ++ d.code ++ "]: " ++ d.message

def hasErrors (ds : List Diagnostic) : Bool := ds.any (·.isError)

end Diagnostic

end BranchingStory
