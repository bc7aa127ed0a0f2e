import BranchingStory.Script

/-! # Beats

A beat is what the player sees at a time: what happens, and the options at the end of it. Most beats
are declared; the body of an option becomes an inline beat when it is entered. -/

namespace BranchingStory
set_option autoImplicit false

structure Beat where
  id : String
  guard : Option String
  actions : List Action
  choices : List Choice
  range : Range
  /-- Was the beat made from the body of an option? -/
  inline : Bool
deriving DecidableEq

/-- An option as it is offered to the player, under the name by which it is chosen. -/
structure Offer where
  id : String
  label : String
  guard : Option String
deriving DecidableEq, Repr

namespace Beat

def ofNode (n : Node) : Beat := ⟨n.id, n.guard, n.actions, n.choices, n.range, false⟩

def ofChoice (id : String) (c : Choice) : Beat := ⟨id, c.guard, c.actions, c.choices, c.range, true⟩

def hasFinish (b : Beat) : Bool := b.actions.any (·.isFinish)

/-- The story ends with a beat that says so or that offers nothing. -/
def isLast (b : Beat) : Bool := b.hasFinish || b.choices.isEmpty

/-- The name of an option: its target, or one made of the beat's name and the option's number. -/
def choiceId (b : Beat) (c : Choice) (number : Nat) : String :=
  c.explicitTarget?.getD (b.id ++ "::choice-" ++ toString number)

/-- The options with their names, in order. Several options can share a name. -/
def options (b : Beat) : List (String × Choice) :=
  b.choices.zipIdx.map fun (c, number) => (b.choiceId c number, c)

def inlineId (b : Beat) (choiceId : String) : String := b.id ++ "::inline-" ++ choiceId

def offers (b : Beat) : List Offer := b.options.map fun (id, c) => ⟨id, c.label, c.guard⟩

/-- The actions as text, one line for each that is not blank. -/
def text (b : Beat) : String :=
  "\n".intercalate ((b.actions.map (·.line)).filter fun line => Text.trimString line ≠ "")

theorem length_options (b : Beat) : b.options.length = b.choices.length := by simp [options]

end Beat

end BranchingStory
