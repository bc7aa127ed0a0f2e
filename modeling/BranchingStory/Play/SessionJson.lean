import BranchingStory.Play.Session
import BranchingStory.Script.Json

/-! # Sessions in JSON

The stored form of a session holds everything, inline beats included, so that play goes on where it
stopped. What is read is a session only if all places lie among the beats. -/

namespace BranchingStory
set_option autoImplicit false
open Json

namespace Beat

def toJson (b : Beat) : Json :=
  .object [("id", .string b.id), ("when", orNull b.guard),
    ("actions", .array (b.actions.map (·.toJson))), ("choices", .array (Choice.listToJson b.choices)),
    ("range", b.range.toJson), ("inline", .bool b.inline)]

def ofJson? : Nat → Json → Option Beat
  | 0, _ => none
  | budget + 1, j => do
    let [some id, guard, some actions, some choices, some range, some inline] ←
      record? ["id", "when", "actions", "choices", "range", "inline"] j | none
    return {
      id := ← string? id
      guard := ← optional? string? guard
      actions := ← listOf? budget Action.ofJson? actions
      choices := ← listOf? budget Choice.ofJson? choices
      range := ← Range.ofJson? budget range
      inline := ← bool? inline }

end Beat

namespace Session

/-- The session of these parts, unless some place lies outside the beats. -/
def ofParts (beats : List Beat) (index : Dictionary Nat) (current : Nat) (ended : Bool) :
    Except RuntimeFault Session :=
  if hcurrent : current < beats.length then
    match h : index.entries.find? fun e => ¬ e.2 < beats.length with
    | some (id, _) => .error (.entryOutside id beats.length)
    | none =>
      .ok { beats, index, current, ended, current_lt := hcurrent,
            index_lt := fun e he => by simpa using List.find?_eq_none.mp h e he }
  else .error (.currentOutside current beats.length)

def toJson (s : Session) : Json :=
  .object [("beats", .array (s.beats.map (·.toJson))),
    ("index", .object (s.index.entries.map fun (id, place) => (id, .natural place))),
    ("current", .natural s.current), ("ended", .bool s.ended)]

/-- The parts of the session that a value spells. -/
def parts? : Nat → Json → Option (List Beat × Dictionary Nat × Nat × Bool)
  | 0, _ => none
  | budget + 1, j => do
    let [some beats, some index, some current, some ended] ←
      record? ["beats", "index", "current", "ended"] j | none
    return (← listOf? budget Beat.ofJson? beats, ← dictionaryOf? budget natural? index,
      ← natural? current, ← bool? ended)

def store (s : Session) : String := String.ofList s.toJson.print

def load (text : String) : Except RuntimeFault Session :=
  match (Json.parse? text.toList).bind (parts? Json.maxDepth) with
  | some (beats, index, current, ended) => ofParts beats index current ended
  | none => .error .unreadable

end Session

end BranchingStory
