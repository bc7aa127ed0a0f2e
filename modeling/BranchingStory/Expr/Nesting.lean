import BranchingStory.Expr

/-! # Nesting of an expression

How many brackets and prefix operators are open at once, counted from the tokens alone, before any
tree is built. A prefix operator stays open until its operand ends; a bracket closes everything
that was opened inside it. -/

namespace BranchingStory.Expr
set_option autoImplicit false

/-- How far the count has come: the depth now, the depth to return to inside each open bracket
(innermost first, the outermost 0 left out), and whether an operand comes next. -/
structure Nesting where
  depth : Nat
  bases : List Nat
  operandNext : Bool
deriving DecidableEq, Repr

namespace Nesting

def start : Nesting := ⟨0, [], true⟩

def base (n : Nesting) : Nat := n.bases.headD 0

def deepen (n : Nesting) : Nesting := ⟨n.depth + 1, n.bases, true⟩

def afterOperand (n : Nesting) : Nesting := ⟨n.base, n.bases, false⟩

def beforeOperand (n : Nesting) : Nesting := ⟨n.base, n.bases, true⟩

def step (n : Nesting) : Token → Nesting
  | .symbol .openParen | .symbol .openBrace | .symbol .openBracket =>
    ⟨n.depth + 1, (n.depth + 1) :: n.bases, true⟩
  | .symbol .closeParen | .symbol .closeBrace | .symbol .closeBracket =>
    ⟨n.bases.tail.headD 0, n.bases.tail, false⟩
  | .symbol .minus | .symbol .plus => if n.operandNext then n.deepen else n.beforeOperand
  | .word name =>
    if name = "not" then n.deepen
    else if name = "and" ∨ name = "or" then n.beforeOperand
    else n.afterOperand
  | .string _ | .number _ _ => n.afterOperand
  | _ => n.beforeOperand

end Nesting

/-- The greatest depth that is reached behind some token, counting on from `n`. -/
def deepest (n : Nesting) : List Lexeme → Nat
  | [] => 0
  | t :: rest => max (n.step t.node).depth (deepest (n.step t.node) rest)

/-- How deeply the tokens nest brackets and prefix operators. -/
def nesting (ts : List Lexeme) : Nat := deepest .start ts

/-- The deepest nesting that an expression may have. -/
def maxNesting : Nat := 256

end BranchingStory.Expr
