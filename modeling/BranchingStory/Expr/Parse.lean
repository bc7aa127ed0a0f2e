import BranchingStory.Expr.Nesting
import BranchingStory.Front

/-! # Reading expressions

A reader takes an expression from the front of a list of tokens and returns it with the tokens
behind it, which are fewer. `parseAt` reads an operand of one level; a level's operators join such
operands from left to right. `parse?` asks for a whole list and bounds its nesting. -/

namespace BranchingStory.Expr
set_option autoImplicit false

def expect? (s : Symbol) (ts : List Lexeme) : Option (Front Lexeme Span ts.length) :=
  take? (fun t => if t.node = .symbol s then some t.span else none) ts

mutual

/-- An operand of the given level: on the levels of binary operators a chain of operands of the next
level, behind them a prefix operator with its operand, a bracketed form or a single token. -/
def parseAt (level : Nat) (ts : List Lexeme) : Option (Front Lexeme Expr ts.length) :=
  if level < operandLevel then do
    let ⟨lhs, rest, _⟩ ← parseAt (level + 1) ts
    let ⟨e, rest, _⟩ ← parseChain level lhs rest
    return ⟨e, rest, by omega⟩
  else
    match ts with
    | [] => none
    | t :: rest =>
      match t.node.unaryOp? with
      | some op => do
        let ⟨operand, rest, _⟩ ← parseAt level rest
        return ⟨.unary ⟨t.span.start, operand.span.stop⟩ op operand, rest, by simp; omega⟩
      | none =>
        match t.node with
        | .symbol .openParen => do
          let ⟨inner, rest, _⟩ ← parseAt 0 rest
          let ⟨close, rest, _⟩ ← expect? .closeParen rest
          return ⟨.group ⟨t.span.start, close.stop⟩ inner, rest, by simp; omega⟩
        | .symbol .openBrace => do
          let ⟨(fields, close), rest, _⟩ ← parseFields rest
          return ⟨.object ⟨t.span.start, close.stop⟩ fields, rest, by simp; omega⟩
        | .symbol .openBracket => do
          let ⟨(items, close), rest, _⟩ ← parseItems rest
          return ⟨.array ⟨t.span.start, close.stop⟩ items, rest, by simp; omega⟩
        | _ => (ofLexeme? t).map fun e => ⟨e, rest, by simp⟩
termination_by 8 * ts.length + (operandLevel - level)
decreasing_by all_goals (simp [operandLevel] at * <;> omega)

/-- The operators of one level and their right operands, joined to what stands left of them. -/
def parseChain (level : Nat) (lhs : Expr) (ts : List Lexeme) :
    Option (Front Lexeme Expr (ts.length + 1)) :=
  match ts with
  | [] => some ⟨lhs, [], by simp⟩
  | t :: rest =>
    match t.node.operatorAt? level with
    | some op => do
      let ⟨rhs, rest, _⟩ ← parseAt (level + 1) rest
      let ⟨e, rest, _⟩ ← parseChain level (.binary ⟨lhs.span.start, rhs.span.stop⟩ op lhs rhs) rest
      return ⟨e, rest, by simp; omega⟩
    | none => some ⟨lhs, t :: rest, by simp⟩
termination_by 8 * ts.length
decreasing_by all_goals (simp [operandLevel] at *; omega)

/-- The fields of an object behind its opening brace or behind a comma, and its closing brace. -/
def parseFields (ts : List Lexeme) : Option (Front Lexeme (List (Name × Expr) × Span) ts.length) :=
  match expect? .closeBrace ts with
  | some ⟨close, rest, h⟩ => some ⟨([], close), rest, h⟩
  | none => do
    let ⟨key, rest, _⟩ ← take? keyOfLexeme? ts
    let ⟨_, rest, _⟩ ← expect? .colon rest
    let ⟨value, rest, _⟩ ← parseAt 0 rest
    match expect? .closeBrace rest with
    | some ⟨close, rest, _⟩ => return ⟨([(key, value)], close), rest, by omega⟩
    | none => do
      let ⟨_, rest, _⟩ ← expect? .comma rest
      let ⟨(fields, close), rest, _⟩ ← parseFields rest
      return ⟨((key, value) :: fields, close), rest, by omega⟩
termination_by 8 * ts.length + 7
decreasing_by all_goals (simp [operandLevel] at *; omega)

def parseItems (ts : List Lexeme) : Option (Front Lexeme (List Expr × Span) ts.length) :=
  match expect? .closeBracket ts with
  | some ⟨close, rest, h⟩ => some ⟨([], close), rest, h⟩
  | none => do
    let ⟨item, rest, _⟩ ← parseAt 0 ts
    match expect? .closeBracket rest with
    | some ⟨close, rest, _⟩ => return ⟨([item], close), rest, by omega⟩
    | none => do
      let ⟨_, rest, _⟩ ← expect? .comma rest
      let ⟨(items, close), rest, _⟩ ← parseItems rest
      return ⟨(item :: items, close), rest, by omega⟩
termination_by 8 * ts.length + 7
decreasing_by all_goals (simp [operandLevel] at * <;> omega)

end

def parse? (ts : List Lexeme) : Option Expr :=
  if maxNesting < nesting ts then none
  else
    match parseAt 0 ts with
    | some ⟨e, [], _⟩ => some e
    | _ => none

end BranchingStory.Expr
