import BranchingStory.Dictionary
import BranchingStory.Source.Position
import BranchingStory.Text.Blank

/-! # Scripts

A script is the story as it is played: a tree of declarations, each with its actions and the choices
that it offers. Expressions are kept as text, since evaluating them is not the script's business. -/

namespace BranchingStory
set_option autoImplicit false

inductive NodeKind where
  | story | scene | beat
  /-- A choice block that declares beats of its own. -/
  | choice
  | config
  /-- Input that made no sense. -/
  | unknown
deriving DecidableEq, Repr

inductive Deed where
  | say (speaker text : String)
  | stage (text : String)
  | set (state value : String)
  | emit (event : String) (payload : Option String)
  | goto (target : String)
  | finish
  | giveBack
  | assignment (name value : String)
deriving DecidableEq, Repr

structure Action where
  deed : Deed
  range : Range
deriving DecidableEq, Repr

structure Choice where
  label : String
  target : Option String
  /-- The guard of the option and of the block around it, combined. -/
  guard : Option String
  /-- The actions of the option's own body. -/
  actions : List Action
  choices : List Choice
  range : Range

/-- A declaration of the script. The name is empty for declarations that have none. -/
structure Node where
  id : String
  kind : NodeKind
  guard : Option String
  body : String
  actions : List Action
  children : List Node
  /-- The options of all choice blocks that stand directly in the node. -/
  choices : List Choice
  range : Range

structure Script where
  metadata : Dictionary String
  nodes : List Node
  range : Range

namespace NodeKind

def label : NodeKind → String
  | .story => "story"
  | .scene => "scene"
  | .beat => "beat"
  | .choice => "choice"
  | .config => "config"
  | .unknown => "node"

/-- How a kind that carries the narrative is named at the start of a message. -/
def title : NodeKind → String
  | .story => "Story"
  | .scene => "Scene"
  | .beat => "Beat"
  | .choice => "Choice"
  | .config => "Config"
  | .unknown => "Node"

/-- Stories, scenes and beats carry the narrative; they have a name and are not empty. -/
def isNarrative : NodeKind → Bool
  | .story | .scene | .beat => true
  | _ => false

end NodeKind

namespace Action

def isFinish (a : Action) : Bool := a.deed == .finish

def line (a : Action) : String :=
  match a.deed with
  | .say _ text | .stage text => text
  | .set state value => "set " ++ state ++ " = " ++ value
  | .emit event (some payload) => "emit " ++ event ++ " with " ++ payload
  | .emit event none => "emit " ++ event
  | .goto target => "goto " ++ target
  | .finish => "end"
  | .giveBack => "return"
  | .assignment name value => name ++ " = " ++ value

end Action

namespace Choice

/-- The target without blanks around it, unless it is blank altogether. -/
def explicitTarget? (c : Choice) : Option String :=
  (c.target.map Text.trimString).filter (· ≠ "")

def hasBody (c : Choice) : Bool := !c.actions.isEmpty || !c.choices.isEmpty

end Choice

namespace Node

def isEmpty (n : Node) : Bool :=
  n.body.isEmpty && n.actions.isEmpty && n.children.isEmpty && n.choices.isEmpty

def hasFinish (n : Node) : Bool := n.actions.any (·.isFinish)

def childrenOf (n : Node) (kind : NodeKind) : List Node := n.children.filter (·.kind == kind)

end Node

def Script.story? (s : Script) : Option Node := s.nodes.find? (·.kind == .story)

/-! ## Equality -/

mutual

def Choice.decEq : (a b : Choice) → Decidable (a = b)
  | ⟨label, target, guard, actions, choices, range⟩,
    ⟨label', target', guard', actions', choices', range'⟩ =>
    have := Choice.decEqList choices choices'
    decidable_of_iff
      (label = label' ∧ target = target' ∧ guard = guard' ∧ actions = actions' ∧
        choices = choices' ∧ range = range') (by simp)

def Choice.decEqList : (as bs : List Choice) → Decidable (as = bs)
  | [], [] => isTrue rfl
  | [], _ :: _ => isFalse (by simp)
  | _ :: _, [] => isFalse (by simp)
  | a :: as, b :: bs =>
    have := Choice.decEq a b
    have := Choice.decEqList as bs
    decidable_of_iff (a = b ∧ as = bs) (by simp)

end

instance : DecidableEq Choice := Choice.decEq

mutual

def Node.decEq : (a b : Node) → Decidable (a = b)
  | ⟨id, kind, guard, body, actions, children, choices, range⟩,
    ⟨id', kind', guard', body', actions', children', choices', range'⟩ =>
    have := Node.decEqList children children'
    decidable_of_iff
      (id = id' ∧ kind = kind' ∧ guard = guard' ∧ body = body' ∧ actions = actions' ∧
        children = children' ∧ choices = choices' ∧ range = range') (by simp)

def Node.decEqList : (as bs : List Node) → Decidable (as = bs)
  | [], [] => isTrue rfl
  | [], _ :: _ => isFalse (by simp)
  | _ :: _, [] => isFalse (by simp)
  | a :: as, b :: bs =>
    have := Node.decEq a b
    have := Node.decEqList as bs
    decidable_of_iff (a = b ∧ as = bs) (by simp)

end

instance : DecidableEq Node := Node.decEq

deriving instance DecidableEq for Script

end BranchingStory
