import BranchingStory.Diagnostic
import BranchingStory.Json.Read
import BranchingStory.Source.PositionJson

/-! # Diagnostics in JSON -/

namespace BranchingStory
set_option autoImplicit false
open Json

def Severity.ofLabel? (label : String) : Option Severity :=
  [.error, .warning, .info].find? fun severity => severity.label == label

namespace Diagnostic

def toJson (d : Diagnostic) : Json :=
  .object [("code", .string d.code), ("message", .string d.message),
    ("severity", .string d.severity.label), ("range", d.range.toJson)]

def ofJson? : Nat → Json → Option Diagnostic
  | 0, _ => none
  | budget + 1, j => do
    let [some code, some message, some severity, some range] ←
      record? ["code", "message", "severity", "range"] j | none
    return ⟨← string? code, ← string? message, ← choice? budget Severity.ofLabel? severity,
      ← Range.ofJson? budget range⟩

def loadAll? (text : String) : Option (List Diagnostic) := do
  listOf? Json.maxDepth ofJson? (← Json.parse? text.toList)

end Diagnostic

end BranchingStory
