/-! # Spans

A span is a half-open stretch of a source, given by two byte offsets; `Located` ties a value to the
stretch it was read from. -/

namespace BranchingStory
set_option autoImplicit false

/-- The bytes from `start` up to, but not with, `stop`. -/
structure Span where
  start : Nat
  stop : Nat
deriving DecidableEq, Repr

/-- A value and the stretch of the source it was read from. -/
structure Located (α : Type) where
  node : α
  span : Span
deriving DecidableEq, Repr

end BranchingStory
