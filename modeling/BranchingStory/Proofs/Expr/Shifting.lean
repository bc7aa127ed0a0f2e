import BranchingStory.Proofs.Expr.Relocation
import BranchingStory.Proofs.Token.Cutting

/-! # Expressions that are moved on

Tokens that stand so many bytes further on are read as the same expression, each part of it as many bytes
further on; and what cannot be read stays so. -/

namespace BranchingStory
set_option autoImplicit false

namespace Expr

mutual

/-- The expression so many bytes further on, with all its parts. -/
def shift (distance : Nat) : Expr → Expr
  | .binary span op lhs rhs => .binary (span.shift distance) op (lhs.shift distance) (rhs.shift distance)
  | .unary span op operand => .unary (span.shift distance) op (operand.shift distance)
  | .group span inner => .group (span.shift distance) (inner.shift distance)
  | .object span fields => .object (span.shift distance) (shiftFields distance fields)
  | .array span items => .array (span.shift distance) (shiftItems distance items)
  | .string span text => .string (span.shift distance) text
  | .number span value => .number (span.shift distance) value
  | .boolean span value => .boolean (span.shift distance) value
  | .identifier span name => .identifier (span.shift distance) name

def shiftFields (distance : Nat) : List (Name × Expr) → List (Name × Expr)
  | [] => []
  | (key, value) :: rest => (key.shift distance, value.shift distance) :: shiftFields distance rest

def shiftItems (distance : Nat) : List Expr → List Expr
  | [] => []
  | item :: rest => item.shift distance :: shiftItems distance rest

end

end Expr

/-! ## As a move -/

namespace Relocation
variable (distance : Nat)

theorem lexeme_forward (t : Lexeme) : (forward distance).lexeme t = t.shift distance :=
  congrArg (Located.mk · (t.span.shift distance)) (token_eq_self (forward distance) rfl t.node)

mutual

theorem expr_forward : ∀ e : Expr, (forward distance).expr e = e.shift distance
  | .binary _ _ lhs rhs => by
    rw [expr, expr_forward lhs, expr_forward rhs]
    rfl
  | .unary _ _ operand => congrArg (Expr.unary _ _) (expr_forward operand)
  | .group _ inner => congrArg (Expr.group _) (expr_forward inner)
  | .object _ fields => congrArg (Expr.object _) (entries_forward fields)
  | .array _ items => congrArg (Expr.array _) (exprs_forward items)
  | .string _ _ | .number _ _ | .boolean _ _ | .identifier _ _ => rfl

theorem entries_forward : ∀ fields, (forward distance).entries fields = Expr.shiftFields distance fields
  | [] => rfl
  | (_, value) :: rest => by
    rw [entries, expr_forward value, entries_forward rest]
    rfl

theorem exprs_forward : ∀ items, (forward distance).exprs items = Expr.shiftItems distance items
  | [] => rfl
  | item :: rest => congrArg₂ List.cons (expr_forward item) (exprs_forward rest)

end

end Relocation

namespace Expr
variable (distance : Nat)

theorem depth_shift (e : Expr) : (e.shift distance).depth = e.depth := by
  rw [← Relocation.expr_forward, Relocation.depth_expr]

/-- Moved tokens are an expression exactly if the tokens are, and then the moved one. -/
theorem parse?_shift (ts : List Lexeme) :
    parse? (ts.map (·.shift distance)) = (parse? ts).map (·.shift distance) := by
  have hread := (Relocation.forward distance).parse?_map ts
  rwa [funext (Relocation.lexeme_forward distance), funext (Relocation.expr_forward distance)] at hread

end Expr

end BranchingStory
