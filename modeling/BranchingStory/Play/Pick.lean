import BranchingStory.Play.Beat
import BranchingStory.Text.Digits
import BranchingStory.Text.Lowercase
import BranchingStory.Text.Similarity

/-! # Picking an option

What the player types stands for an option by its number, by its name, by its label whatever the case,
or by a label that is similar. The first of these that applies decides; a number never stands for
anything but a place in the list. -/

namespace BranchingStory.Offer
set_option autoImplicit false

def threshold : Float := 0.8

/-- The place of the most similar label; of equally similar ones, the first. The places start with
`place`, and `best` is the best one so far with its similarity. -/
def closest? (input : List Char) (place : Nat) (best : Option (Nat × Float)) :
    List Offer → Option Nat
  | [] => best.map (·.1)
  | o :: rest =>
    let score := Text.jaroWinkler input (Text.lower o.label.toList)
    let better := score ≥ threshold && best.all fun (_, top) => score > top
    closest? input (place + 1) (if better then some (place, score) else best) rest

def place? (offers : List Offer) (input : String) : Option Nat :=
  let text := Text.trim input.toList
  if text = [] then none
  else
    match Text.number? text with
    | some number => if 0 < number ∧ number ≤ offers.length then some (number - 1) else none
    | none =>
      let lower := Text.lower text
      (offers.findIdx? (·.id.toList == text)).or
        ((offers.findIdx? (Text.lower ·.label.toList == lower)).or (closest? lower 0 none offers))

def pick? (offers : List Offer) (input : String) : Option Offer :=
  (place? offers input).bind (offers[·]?)

end BranchingStory.Offer
