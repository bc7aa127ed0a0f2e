import BranchingStory.Document.Context
import BranchingStory.Document.Cursor
import BranchingStory.Expr.Parse

/-! # First lines of statements

Each statement begins with a line of its own form. `firstLine` reads that line behind its first
word, and tells whether a block is to follow. -/

namespace BranchingStory
set_option autoImplicit false

/-- What the line of a statement is, and which block is to follow. -/
inductive FirstLine where
  | line (form : Form)
  /-- A header behind which no block can stand. -/
  | bare (header : Header)
  /-- A header behind which a block of this context may stand, or has to. -/
  | opening (header : Header) (context : Context) (required : Bool)

namespace Reading

/-- The number of tokens before the end of the line or before the first stop outside brackets, where
`depth` brackets are open already. -/
def operandLength (stop : Token → Bool) (depth : Nat) : List Lexeme → Nat
  | [] => 0
  | t :: rest =>
    if t.node.isNewline || (depth == 0 && stop t.node) then 0
    else match t.node with
      | .symbol .openParen | .symbol .openBrace | .symbol .openBracket =>
        operandLength stop (depth + 1) rest + 1
      | .symbol .closeParen | .symbol .closeBrace | .symbol .closeBracket =>
        operandLength stop (depth - 1) rest + 1
      | _ => operandLength stop depth rest + 1

def hull (first : Lexeme) (rest : List Lexeme) : Span :=
  ⟨first.span.start, ((first :: rest).getLast (by simp)).span.stop⟩

/-- The operand up to the end of the line or the first stop outside brackets. -/
def operand (stop : Token → Bool) : Reading (Option Operand) := fun c =>
  let n := operandLength stop 0 c.rest
  match c.rest.take n with
  | [] => .stay c (none, [.missing .expression c.offset])
  | first :: rest =>
    let read : Option Operand × List Issue :=
      match Expr.parse? (first :: rest) with
      | some e => (some (.parsed e), [])
      | none => (some (.malformed (hull first rest)), [.unexpected (hull first rest)])
    ⟨read, c.pass n, c.pass_suffix n⟩

def toLineEnd (_ : Token) : Bool := false

def atColon (t : Token) : Bool := t == .symbol .colon

def atColonOrGoto (t : Token) : Bool := t == .symbol .colon || t.isWord "goto"

def guardClause (stop : Token → Bool) : Reading (Option Operand) := do
  if (← peek?) = some (.word "when") then
    advance
    operand stop
  else return none

/-- The end of a header behind which a block has to stand. -/
def colonAndEnd : Reading Unit := do
  expect .colon .colon
  finishLine

def wholeLine (form : Reading Form) : Reading FirstLine := do
  let form ← form
  finishLine
  return .line form

/-- The rest of an option: a target, a colon with a block that may follow, or neither. -/
def optionLine : Reading FirstLine := do
  let label ← string
  let guard ← guardClause atColonOrGoto
  match ← peek? with
  | some (.word "goto") =>
    advance
    let target ← identifier
    finishLine
    return .bare (.option label guard target)
  | some (.symbol .colon) =>
    advance
    finishLine
    return .opening (.option label guard none) .optionBody false
  | _ =>
    finishLine
    return .bare (.option label guard none)

def payload : Reading (Option Operand) := do
  if (← peek?) = some (.word "with") then
    advance
    operand toLineEnd
  else return none

/-- The line of a statement, behind its first word. -/
def firstLine (word : Name) : Head → Reading FirstLine
  | .declaration kind => do
    let name ← identifier
    let guard ← if kind = .story then pure none else guardClause atColon
    colonAndEnd
    return .opening (.declaration kind name guard) kind.context true
  | .config => do
    colonAndEnd
    return .opening .config .config true
  | .choice => do
    let guard ← guardClause atColon
    colonAndEnd
    return .opening (.choice guard) .choice true
  | .option => optionLine
  | .goto => wholeLine (.goto <$> identifier)
  | .finish => wholeLine (pure .finish)
  | .giveBack => wholeLine (pure .giveBack)
  | .include => wholeLine (.include <$> string)
  | .guard => wholeLine (.guard <$> operand toLineEnd)
  | .say => wholeLine (return .say (← identifier) (← string))
  | .stage => wholeLine (.stage <$> string)
  | .set => wholeLine do
    let state ← identifier
    expect .assign .assign
    return .set state (← operand toLineEnd)
  | .emit => wholeLine (return .emit (← identifier) (← payload))
  | .assignment => wholeLine do
    advance
    return .assignment word (← operand toLineEnd)

end Reading

end BranchingStory
