import BranchingStory.Script.Walk
import BranchingStory.Text.Table

/-! # Outlines

The tree of a script as a table, one row for each node, names indented by depth. -/

namespace BranchingStory
set_option autoImplicit false

def Visit.outlineRow (v : Visit) : List String :=
  let n := v.node
  [n.kind.label, if n.id = "" then "—" else "".pushn ' ' (2 * v.place.length) ++ n.id,
    n.guard.getD "", toString n.actions.length, toString n.choices.length,
    toString n.range.start.line]

def Script.outline (s : Script) : Text.Table where
  header := ["Kind", "Id", "When", "Actions", "Choices", "Line"]
  rows := s.walk.map (·.outlineRow)

end BranchingStory
