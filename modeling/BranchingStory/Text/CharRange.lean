/-! # Ranges of characters -/

namespace BranchingStory.Text
set_option autoImplicit false

/-- Does one of the ranges, each given by its first and its last code point, hold the character? -/
def inRanges (ranges : List (Nat × Nat)) (c : Char) : Bool :=
  ranges.any fun (first, last) => first ≤ c.toNat && c.toNat ≤ last

end BranchingStory.Text
