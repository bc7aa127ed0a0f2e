import BranchingStory.Script

/-! # Walking a script

Every node of a script in the order of declaration, a node before its children. A visit tells where
the node's parent stands, so that two nodes with one parent can be told from two whose parents only
look alike. -/

namespace BranchingStory
set_option autoImplicit false

structure Visit where
  node : Node
  parent : Option Node
  /-- The numbers of the parent and of the nodes around it among their siblings, innermost first. -/
  place : List Nat

namespace Visit

mutual

/-- The visits of a node, which has the given number among its siblings, and of all below it. -/
def ofNode (parent : Option Node) (place : List Nat) (number : Nat) : Node → List Visit
  | ⟨id, kind, guard, body, actions, children, choices, range⟩ =>
    let node : Node := ⟨id, kind, guard, body, actions, children, choices, range⟩
    ⟨node, parent, place⟩ :: ofSiblings (some node) (number :: place) 0 children

def ofSiblings (parent : Option Node) (place : List Nat) (number : Nat) : List Node → List Visit
  | [] => []
  | n :: rest => ofNode parent place number n ++ ofSiblings parent place (number + 1) rest

end

end Visit

def Script.walk (s : Script) : List Visit := Visit.ofSiblings none [] 0 s.nodes

end BranchingStory
