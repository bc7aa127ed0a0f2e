/-! # JSON values

A value as a tree; the fields of an object keep their order and may repeat a name. `foreign` stands
for what no part of a story is made of: numbers that are not natural, and text that is no Unicode
text. -/

namespace BranchingStory
set_option autoImplicit false

inductive Json where
  | null
  | bool (b : Bool)
  | natural (n : Nat)
  /-- Some other number or text; `held` tells whether a double or a text can hold it. -/
  | foreign (held : Bool)
  | string (s : String)
  | array (items : List Json)
  | object (fields : List (String × Json))

namespace Json

mutual

def depth : Json → Nat
  | .array items => depthItems items + 1
  | .object fields => depthFields fields + 1
  | _ => 0

def depthItems : List Json → Nat
  | [] => 0
  | j :: rest => max j.depth (depthItems rest)

def depthFields : List (String × Json) → Nat
  | [] => 0
  | (_, j) :: rest => max j.depth (depthFields rest)

end

mutual

/-- Can every part of the value be held? -/
def held : Json → Bool
  | .foreign held => held
  | .array items => heldItems items
  | .object fields => heldFields fields
  | _ => true

def heldItems : List Json → Bool
  | [] => true
  | j :: rest => j.held && heldItems rest

def heldFields : List (String × Json) → Bool
  | [] => true
  | (_, j) :: rest => j.held && heldFields rest

end

/-- How deeply a document that is read may nest arrays and objects. -/
def maxDepth : Nat := 127

end Json

end BranchingStory
