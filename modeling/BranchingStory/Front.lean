/-! # The front of a list

What a reader takes from the front of a list, with what it leaves. The type says that something was
taken, so that reading in rounds comes to an end. -/

namespace BranchingStory
set_option autoImplicit false

/-- What was read from the front of a list, and what is behind it, fewer items than `bound`. -/
structure Front (τ α : Type) (bound : Nat) where
  value : α
  rest : List τ
  lt : rest.length < bound

def take? {τ α : Type} (kind : τ → Option α) : (ts : List τ) → Option (Front τ α ts.length)
  | [] => none
  | t :: rest => (kind t).map fun a => ⟨a, rest, by simp⟩

end BranchingStory
