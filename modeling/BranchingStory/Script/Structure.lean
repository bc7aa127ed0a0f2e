import BranchingStory.Script

/-! # The structure of a script

A script is sound if its narrative nodes have names and every node and choice lies inside what it
belongs to. `Script.fault?` finds the first fault: of a node, then of its choices, then of its
children. -/

namespace BranchingStory
set_option autoImplicit false

/-- What is wrong with the structure of a script. -/
inductive StructureFault where
  | reversedScript
  | unnamed (node : Node)
  | nodeOutside (node : Node)
  | choiceOutside (label : String) (owner : Node)

/-- A node by its kind and name, or by its kind and place if it has no name. -/
def Node.describe (n : Node) : String :=
  if n.id = "" then n.kind.label ++ " at " ++ n.range.start.display
  else n.kind.label ++ " \"" ++ n.id ++ "\""

namespace StructureFault

def message : StructureFault → String
  | .reversedScript => "script range is reversed"
  | .unnamed n => n.kind.label ++ " at " ++ n.range.start.display ++ " has no id"
  | .nodeOutside n => n.describe ++ " has a range outside its parent"
  | .choiceOutside label owner =>
    "choice \"" ++ label ++ "\" in " ++ owner.describe ++ " has a range outside its parent"

/-- The fault as it is reported of a script by itself. -/
def report (f : StructureFault) : String := "malformed script: " ++ f.message

end StructureFault

/-- Does the range lie inside the other one, and is it ordered? -/
def Range.fitsIn (r parent : Range) : Bool := decide r.Ordered && decide (parent.Contains r)

mutual

/-- The first fault of a choice, which belongs to `owner` and lies in `parent`. -/
def Choice.fault? (owner : Node) (parent : Range) : Choice → Option StructureFault
  | ⟨label, _, _, _, choices, range⟩ =>
    if range.fitsIn parent then Choice.firstFault? owner range choices
    else some (.choiceOutside label owner)

def Choice.firstFault? (owner : Node) (parent : Range) : List Choice → Option StructureFault
  | [] => none
  | c :: rest => (c.fault? owner parent).or (firstFault? owner parent rest)

end

mutual

def Node.fault? (parent : Range) : Node → Option StructureFault
  | ⟨id, kind, guard, body, actions, children, choices, range⟩ =>
    let node : Node := ⟨id, kind, guard, body, actions, children, choices, range⟩
    if kind.isNarrative ∧ Text.trimString id = "" then some (.unnamed node)
    else if ¬ range.fitsIn parent then some (.nodeOutside node)
    else (Choice.firstFault? node range choices).or (Node.firstFault? range children)

def Node.firstFault? (parent : Range) : List Node → Option StructureFault
  | [] => none
  | n :: rest => (n.fault? parent).or (firstFault? parent rest)

end

def Script.fault? (s : Script) : Option StructureFault :=
  if s.range.Ordered then Node.firstFault? s.range s.nodes else some .reversedScript

end BranchingStory
