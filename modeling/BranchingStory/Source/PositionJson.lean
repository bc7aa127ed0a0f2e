import BranchingStory.Json.Record
import BranchingStory.Source.Position

/-! # Positions and ranges in JSON -/

namespace BranchingStory
set_option autoImplicit false
open Json

def Position.toJson (p : Position) : Json :=
  .object [("offset", .natural p.offset), ("line", .natural p.line), ("column", .natural p.column)]

def Position.ofJson? : Nat → Json → Option Position
  | 0, _ => none
  | _ + 1, j => do
    let [some offset, some line, some column] ← record? ["offset", "line", "column"] j | none
    return ⟨← natural? offset, ← natural? line, ← natural? column⟩

def Range.toJson (r : Range) : Json :=
  .object [("start", r.start.toJson), ("end", r.stop.toJson)]

def Range.ofJson? : Nat → Json → Option Range
  | 0, _ => none
  | budget + 1, j => do
    let [some start, some stop] ← record? ["start", "end"] j | none
    return ⟨← Position.ofJson? budget start, ← Position.ofJson? budget stop⟩

end BranchingStory
