import BranchingStory.Text.CharRange
import BranchingStory.Text.WidthTable

/-! # Display width of a character

How many columns of a terminal a character takes by itself. A control character counts as one. -/

namespace BranchingStory.Text
set_option autoImplicit false

/-- The editions of the Unicode standard that widths are taken from. -/
inductive Edition
  | earlier
  | later
  deriving DecidableEq

namespace Edition

/-- The characters that take no column by this edition only. -/
def zeroWidthRanges : Edition → List (Nat × Nat)
  | earlier => earlierZeroWidthRanges
  | later => laterZeroWidthRanges

/-- The characters that take two columns by this edition only. -/
def wideRanges : Edition → List (Nat × Nat)
  | earlier => []
  | later => laterWideRanges

end Edition

def isZeroWidth (edition : Edition) (c : Char) : Bool :=
  inRanges zeroWidthRanges c || inRanges edition.zeroWidthRanges c

/-- Does the character take two columns, unless it takes none? -/
def isWide (edition : Edition) (c : Char) : Bool :=
  inRanges wideRanges c || inRanges edition.wideRanges c

def charWidth (edition : Edition) (c : Char) : Nat :=
  if c.toNat < 0x300 then if c.toNat = 0xAD then 0 else 1
  else if isZeroWidth edition c then 0
  else if isWide edition c then 2
  else 1

end BranchingStory.Text
