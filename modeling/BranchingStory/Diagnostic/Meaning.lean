import BranchingStory.Diagnostic
import BranchingStory.Script.Walk
import BranchingStory.Source

/-! # What a story means

The checks of a story as a whole: names given twice, declarations without content, beats that hide
one another, choices outside beats and targets that are not declared. The first three look at the
script, the others at the document, which still has every option. -/

namespace BranchingStory
set_option autoImplicit false

/-! ## Names and content -/

def Node.duplicateFindings (parent : Option Node) (seen : List String) (n : Node) : List Found :=
  if n.id ≠ "" ∧ n.id ∈ seen then [⟨.duplicate n parent, n.range⟩] else []

def Node.contentFindings (n : Node) : List Found :=
  if n.kind.isNarrative ∧ n.isEmpty then [⟨.noContent n, n.range⟩] else []

mutual

/-- The findings in a node whose earlier siblings have the given names. -/
def Node.findings (parent : Option Node) (seen : List String) : Node → List Found
  | ⟨id, kind, guard, body, actions, children, choices, range⟩ =>
    let n : Node := ⟨id, kind, guard, body, actions, children, choices, range⟩
    n.duplicateFindings parent seen ++ n.contentFindings ++ Node.siblingFindings (some n) [] children

def Node.siblingFindings (parent : Option Node) (seen : List String) : List Node → List Found
  | [] => []
  | n :: rest => n.findings parent seen ++ siblingFindings parent (n.id :: seen) rest

end

/-! ## Beats that hide one another -/

namespace Visit

def isNamedBeat (v : Visit) : Bool := v.node.kind == .beat && v.node.id != ""

/-- A beat whose name was last given in another place. -/
def collision (earlier : List Visit) (v : Visit) : List Found :=
  match earlier.find? (·.node.id == v.node.id) with
  | some e => if e.place = v.place then [] else [⟨.beatCollision v.node.id e.parent, v.node.range⟩]
  | none => []

/-- The collisions among named beats, given those before them, the last one first. -/
def collisions (earlier : List Visit) : List Visit → List Found
  | [] => []
  | v :: rest => v.collision earlier ++ collisions (v :: earlier) rest

end Visit

def Script.collisionFindings (s : Script) : List Found :=
  Visit.collisions [] (s.walk.filter (·.isNamedBeat))

/-! ## Choices and targets -/

def Script.targets (s : Script) : List String := (s.walk.map (·.node.id)).filter (· ≠ "")

namespace Source

def targetFindings (s : Source) (targets : List String) (target : Name) : List Found :=
  if target.node ≠ "" ∧ target.node ∉ targets then
    [⟨.unknownTarget target.node, s.range target.span⟩]
  else []

def lineFindings (s : Source) (targets : List String) : Form → List Found
  | .goto (some target) => s.targetFindings targets target
  | _ => []

/-- The findings in a header: a choice has to stand in a beat, an option needs a target or a body. -/
def headerFindings (s : Source) (targets : List String) (inBeat hasBlock : Bool) (span : Span) :
    Header → List Found
  | .choice _ => if inBeat then [] else [⟨.choiceOutsideBeat, s.range span⟩]
  | .option _ _ (some target) => s.targetFindings targets target
  | .option label _ none =>
    if hasBlock then [] else [⟨.optionWithoutTarget (label.map (·.node)), s.range span⟩]
  | _ => []

def opensBeat : Header → Bool
  | .declaration .beat _ _ => true
  | _ => false

mutual

def useFindings (s : Source) (targets : List String) (inBeat : Bool) : Statement → List Found
  | .line form _ _ => s.lineFindings targets form
  | .bare header span _ => s.headerFindings targets inBeat false span header
  | .block header _ items span _ =>
    s.headerFindings targets inBeat true span header ++
      s.usesFindings targets (inBeat || opensBeat header) items

def usesFindings (s : Source) (targets : List String) (inBeat : Bool) :
    List Statement → List Found
  | [] => []
  | item :: rest => s.useFindings targets inBeat item ++ s.usesFindings targets inBeat rest

end

def meaningFindings (s : Source) (d : Document) (script : Script) : List Found :=
  Node.siblingFindings none [] script.nodes ++ script.collisionFindings ++
    s.usesFindings script.targets false d.statements

end Source

end BranchingStory
