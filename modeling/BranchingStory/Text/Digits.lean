/-! # Decimal digits -/

namespace BranchingStory.Text
set_option autoImplicit false

def naturalOf (digits : List Char) : Nat :=
  digits.foldl (fun n d => 10 * n + (d.toNat - '0'.toNat)) 0

/-- The number that a text spells: digits, in front of which a plus sign may stand, and less than
`2 ^ 64`. -/
def number? (text : List Char) : Option Nat :=
  let digits := if text.head? = some '+' then text.drop 1 else text
  if digits ≠ [] ∧ digits.all Char.isDigit ∧ naturalOf digits < Nat.pow 2 64 then some (naturalOf digits)
  else none

end BranchingStory.Text
