import BranchingStory.Text.CaseTable
import BranchingStory.Text.CharRange

/-! # Lower case

The full lower case of a text, as the Unicode standard has it: `İ` becomes two characters, and a
capital sigma becomes a final one at the end of a word. -/

namespace BranchingStory.Text
set_option autoImplicit false

def isCased (c : Char) : Bool := inRanges casedRanges c

/-- Is the character passed over when a word is looked for? -/
def isCaseIgnorable (c : Char) : Bool := inRanges caseIgnorableRanges c

def CaseRun.holds (run : CaseRun) (c : Char) : Bool :=
  run.first ≤ c.toNat && c.toNat ≤ run.last && (c.toNat - run.first) % run.step == 0

def lowerChar (c : Char) : List Char :=
  if c = 'İ' then ['i', '\u0307']
  else
    match caseRuns.find? (·.holds c) with
    | some run => [Char.ofNat (c.toNat + run.shift).toNat]
    | none => [c]

/-- Does the text begin with a letter that has case, marks in front of it aside? -/
def meetsCased (text : List Char) : Bool := (text.dropWhile isCaseIgnorable).head?.any isCased

/-- The lower case of a text; `before` is what stands in front of it, the nearest character first. -/
def lowerAfter (before : List Char) : List Char → List Char
  | [] => []
  | c :: rest =>
    let lower :=
      if c = 'Σ' then [if meetsCased before && !meetsCased rest then 'ς' else 'σ'] else lowerChar c
    lower ++ lowerAfter (c :: before) rest

def lower (text : List Char) : List Char := lowerAfter [] text

def lowerString (s : String) : String := String.ofList (lower s.toList)

end BranchingStory.Text
