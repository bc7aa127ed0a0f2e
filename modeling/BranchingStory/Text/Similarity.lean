/-! # Similarity of texts

The measures of Jaro and of Jaro and Winkler: how many characters two texts share at about the same
place, how many of those are in another order, and, for the second one, how the texts begin. -/

namespace BranchingStory.Text
set_option autoImplicit false

/-- A character and whether it has a partner already. -/
abbrev Marked := Char × Bool

/-- Marks the first character that is free, equals `c` and has a number from `low` up to `high`; the
first character of the list has the number `number`. -/
def partner? (c : Char) (low high number : Nat) : List Marked → Option (List Marked)
  | [] => none
  | (d, taken) :: rest =>
    if low ≤ number ∧ number ≤ high ∧ c = d ∧ ¬ taken then some ((d, true) :: rest)
    else (partner? c low high (number + 1) rest).map ((d, taken) :: ·)

/-- The characters that find a partner at most `reach` places away, and the others with their marks;
the first character of the list has the number `number`. -/
def partners (reach number : Nat) : List Char → List Marked → List Char × List Marked
  | [], marks => ([], marks)
  | c :: rest, marks =>
    match partner? c (number - reach) (number + reach) 0 marks with
    | some marks =>
      let (found, marks) := partners reach (number + 1) rest marks
      (c :: found, marks)
    | none => partners reach (number + 1) rest marks

/-- The measure of Jaro, from 0 to 1. -/
def jaro (a b : List Char) : Float :=
  let (found, marks) := partners (max a.length b.length / 2 - 1) 0 a (b.map (·, false))
  let other := (marks.filter (·.2)).map (·.1)
  let swapped := ((found.zip other).filter fun (c, d) => c ≠ d).length / 2
  if a = [] ∧ b = [] then 1
  else if found = [] then 0
  else
    (found.length.toFloat / a.length.toFloat + found.length.toFloat / b.length.toFloat +
      (found.length - swapped).toFloat / found.length.toFloat) / 3

def sharedStart (a b : List Char) : Nat := ((a.zip b).takeWhile fun (c, d) => c = d).length

/-- The measure of Jaro and Winkler: texts that are similar at all gain by beginning alike. -/
def jaroWinkler (a b : List Char) : Float :=
  let similarity := jaro a b
  if similarity > 0.7 then
    similarity + 0.1 * (min 4 (sharedStart a b)).toFloat * (1 - similarity)
  else similarity

end BranchingStory.Text
