/-! # Binary floating point numbers

The value of a number literal is the double nearest to it, ties going to the even neighbour. It is
kept as its 64 bits and worked out in whole numbers: a literal is a quotient, and a finite double
that is not negative is a whole multiple of `2 ^ -1074`. -/

namespace BranchingStory
set_option autoImplicit false

/-- A double, given by its bits. -/
structure Binary64 where
  bits : UInt64
deriving DecidableEq, Repr

namespace Binary64

/-- The whole number nearest to a quotient; of two equally near ones the even one. -/
def roundHalfEven (num den : Nat) : Nat :=
  let q := num / den
  let twice := 2 * (num % den)
  if twice < den then q
  else if den < twice then q + 1
  else if q % 2 = 0 then q else q + 1

def infinity : Nat := 0x7FF * Nat.pow 2 52

/-- The bits of the double nearest to `num / den`. With `unit = 2 ^ -1074`, a quotient of `k` binary
digits in units keeps its first 53 digits, and the number of dropped ones is the stored exponent. -/
def bitsOfQuotient (num den : Nat) : Nat :=
  let units := num * Nat.pow 2 1074
  let dropped := (units / den).log2 - 52
  min infinity (dropped * Nat.pow 2 52 + roundHalfEven units (den * Nat.pow 2 dropped))

def ofDecimal (digits scale : Nat) : Binary64 :=
  ⟨UInt64.ofNat (bitsOfQuotient digits (Nat.pow 10 scale))⟩

/-- The whole number nearest to `n` of those with at most 53 significant binary digits. -/
def nearest (n : Nat) : Nat :=
  let unit := Nat.pow 2 (n.log2 - 52)
  roundHalfEven n unit * unit

def isFinite (n : Nat) : Bool := nearest n < Nat.pow 2 1024

example : (ofDecimal 15 1).bits = 0x3FF8000000000000 := by decide +kernel
example : (ofDecimal 0 0).bits = 0 := by decide +kernel
example : (ofDecimal 1 1).bits = 0x3FB999999999999A := by decide +kernel
example : (ofDecimal (10 ^ 309) 0).bits = 0x7FF0000000000000 := by decide +kernel
example : nearest (2 ^ 53 + 1) = 2 ^ 53 ∧ nearest (2 ^ 53 + 3) = 2 ^ 53 + 4 := by decide +kernel

end Binary64

end BranchingStory
