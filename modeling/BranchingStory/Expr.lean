import BranchingStory.Token

/-! # Expressions

The conditions and values of a story, as a tree in which every node knows its stretch of the source.
Binary operators stand on six levels, from `or`, which binds loosest, to multiplication; prefix
operators bind tighter than all of them. -/

namespace BranchingStory
set_option autoImplicit false

abbrev Name := Located String

inductive BinaryOp where
  | or | and | equal | notEqual | less | lessEqual | greater | greaterEqual
  | add | subtract | multiply | divide | remainder
deriving DecidableEq, Repr

inductive UnaryOp where
  | not | negate | plus
deriving DecidableEq, Repr

inductive Expr where
  | binary (span : Span) (op : BinaryOp) (lhs rhs : Expr)
  | unary (span : Span) (op : UnaryOp) (operand : Expr)
  | group (span : Span) (inner : Expr)
  | object (span : Span) (fields : List (Name × Expr))
  | array (span : Span) (items : List Expr)
  | string (span : Span) (text : String)
  | number (span : Span) (value : Binary64)
  | boolean (span : Span) (value : Bool)
  | identifier (span : Span) (name : String)

def Expr.span : Expr → Span
  | .binary span .. | .unary span .. | .group span _ | .object span _ | .array span _
  | .string span _ | .number span _ | .boolean span _ | .identifier span _ => span

/-- The level that an operator stands on, counted from the loosest. -/
def BinaryOp.level : BinaryOp → Nat
  | .or => 0
  | .and => 1
  | .equal | .notEqual => 2
  | .less | .lessEqual | .greater | .greaterEqual => 3
  | .add | .subtract => 4
  | .multiply | .divide | .remainder => 5

def Expr.operandLevel : Nat := 6

theorem BinaryOp.level_lt (op : BinaryOp) : op.level < Expr.operandLevel := by
  cases op <;> decide

namespace Token

def binaryOp? : Token → Option BinaryOp
  | .word "or" => some .or
  | .word "and" => some .and
  | .symbol .equal => some .equal
  | .symbol .notEqual => some .notEqual
  | .symbol .less => some .less
  | .symbol .lessEqual => some .lessEqual
  | .symbol .greater => some .greater
  | .symbol .greaterEqual => some .greaterEqual
  | .symbol .plus => some .add
  | .symbol .minus => some .subtract
  | .symbol .star => some .multiply
  | .symbol .slash => some .divide
  | .symbol .percent => some .remainder
  | _ => none

def operatorAt? (level : Nat) (t : Token) : Option BinaryOp :=
  t.binaryOp?.filter (·.level == level)

def unaryOp? : Token → Option UnaryOp
  | .word "not" => some .not
  | .symbol .minus => some .negate
  | .symbol .plus => some .plus
  | _ => none

/-- The words of the expression grammar; none of them is an identifier. -/
def reservedWords : List String := ["and", "or", "not", "true", "false"]

end Token

def Expr.ofLexeme? (t : Lexeme) : Option Expr :=
  match t.node with
  | .string text => some (.string t.span text)
  | .number value _ => some (.number t.span value)
  | .word name =>
    if name = "true" then some (.boolean t.span true)
    else if name = "false" then some (.boolean t.span false)
    else if name ∈ Token.reservedWords then none
    else some (.identifier t.span name)
  | _ => none

def Expr.keyOfLexeme? (t : Lexeme) : Option Name :=
  match t.node with
  | .string text => some ⟨text, t.span⟩
  | .word name => if name ∈ Token.reservedWords then none else some ⟨name, t.span⟩
  | _ => none

end BranchingStory
