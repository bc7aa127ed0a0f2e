import BranchingStory.Expr

/-! # The grammar of expressions

A phrase is an expression with every token that it is written with, so it is a derivation: its tokens are
the text that it derives, and its tree is what the text means. Which phrases the grammar has is a
matter of levels alone. An operand of a binary operator stands on the level of the operator if it is
the left one, and on a tighter level if it is the right one; brackets begin again at the loosest level. -/

namespace BranchingStory
set_option autoImplicit false

/-- The stretch from the start of the first token to the end of the last. -/
def spanOf (ts : List Lexeme) : Span :=
  ⟨(ts.head?.map (·.span.start)).getD 0, (ts.getLast?.map (·.span.stop)).getD 0⟩

def BinaryOp.token : BinaryOp → Token
  | .or => .word "or"
  | .and => .word "and"
  | .equal => .symbol .equal
  | .notEqual => .symbol .notEqual
  | .less => .symbol .less
  | .lessEqual => .symbol .lessEqual
  | .greater => .symbol .greater
  | .greaterEqual => .symbol .greaterEqual
  | .add => .symbol .plus
  | .subtract => .symbol .minus
  | .multiply => .symbol .star
  | .divide => .symbol .slash
  | .remainder => .symbol .percent

def UnaryOp.token : UnaryOp → Token
  | .not => .word "not"
  | .negate => .symbol .minus
  | .plus => .symbol .plus

namespace Expr

/-! ## Phrases -/

mutual

inductive Phrase where
  | string (span : Span) (text : String)
  | number (span : Span) (value : Binary64) (spelling : String)
  | boolean (span : Span) (value : Bool)
  | identifier (span : Span) (name : String)
  | unary (op : UnaryOp) (mark : Span) (operand : Phrase)
  | binary (lhs : Phrase) (op : BinaryOp) (mark : Span) (rhs : Phrase)
  | group (opening : Span) (inner : Phrase) (closing : Span)
  | object (opening : Span) (fields : Fields)
  | array (opening : Span) (items : Items)

/-- What stands in an object behind its opening brace or behind a comma. A comma may be the last token in
front of the closing brace, but only behind a field. -/
inductive Fields where
  | close (closing : Span)
  | last (quoted : Bool) (key : Name) (colon : Span) (value : Phrase) (closing : Span)
  | more (quoted : Bool) (key : Name) (colon : Span) (value : Phrase) (comma : Span) (rest : Fields)

inductive Items where
  | close (closing : Span)
  | last (item : Phrase) (closing : Span)
  | more (item : Phrase) (comma : Span) (rest : Items)

end

def keyToken (quoted : Bool) (key : Name) : Token :=
  if quoted then .string key.node else .word key.node

mutual

/-- The tokens that a phrase is written with. -/
def Phrase.tokens : Phrase → List Lexeme
  | .string span text => [⟨.string text, span⟩]
  | .number span value spelling => [⟨.number value spelling, span⟩]
  | .boolean span value => [⟨.word (if value then "true" else "false"), span⟩]
  | .identifier span name => [⟨.word name, span⟩]
  | .unary op mark operand => ⟨op.token, mark⟩ :: operand.tokens
  | .binary lhs op mark rhs => lhs.tokens ++ ⟨op.token, mark⟩ :: rhs.tokens
  | .group opening inner closing =>
    ⟨.symbol .openParen, opening⟩ :: (inner.tokens ++ [⟨.symbol .closeParen, closing⟩])
  | .object opening fields => ⟨.symbol .openBrace, opening⟩ :: fields.tokens
  | .array opening items => ⟨.symbol .openBracket, opening⟩ :: items.tokens

def Fields.tokens : Fields → List Lexeme
  | .close closing => [⟨.symbol .closeBrace, closing⟩]
  | .last quoted key colon value closing =>
    ⟨keyToken quoted key, key.span⟩ :: ⟨.symbol .colon, colon⟩ ::
      (value.tokens ++ [⟨.symbol .closeBrace, closing⟩])
  | .more quoted key colon value comma rest =>
    ⟨keyToken quoted key, key.span⟩ :: ⟨.symbol .colon, colon⟩ ::
      (value.tokens ++ ⟨.symbol .comma, comma⟩ :: rest.tokens)

def Items.tokens : Items → List Lexeme
  | .close closing => [⟨.symbol .closeBracket, closing⟩]
  | .last item closing => item.tokens ++ [⟨.symbol .closeBracket, closing⟩]
  | .more item comma rest => item.tokens ++ ⟨.symbol .comma, comma⟩ :: rest.tokens

end

mutual

/-- Is the phrase one of the given level, with all its parts on theirs? -/
def Phrase.Fits (level : Nat) : Phrase → Prop
  | .string _ _ | .number _ _ _ | .boolean _ _ => True
  | .identifier _ name => name ∉ Token.reservedWords
  | .unary _ _ operand => operand.Fits operandLevel
  | .binary lhs op _ rhs => level ≤ op.level ∧ lhs.Fits op.level ∧ rhs.Fits (op.level + 1)
  | .group _ inner _ => inner.Fits 0
  | .object _ fields => fields.Fit
  | .array _ items => items.Fit

def Fields.Fit : Fields → Prop
  | .close _ => True
  | .last quoted key _ value _ => (quoted = false → key.node ∉ Token.reservedWords) ∧ value.Fits 0
  | .more quoted key _ value _ rest =>
    (quoted = false → key.node ∉ Token.reservedWords) ∧ value.Fits 0 ∧ rest.Fit

def Items.Fit : Items → Prop
  | .close _ => True
  | .last item _ => item.Fits 0
  | .more item _ rest => item.Fits 0 ∧ rest.Fit

end

mutual

/-- The tree of a phrase; each part has the span of its own tokens. -/
def Phrase.expr : Phrase → Expr
  | .string span text => .string span text
  | .number span value _ => .number span value
  | .boolean span value => .boolean span value
  | .identifier span name => .identifier span name
  | .unary op mark operand => .unary (spanOf (Phrase.unary op mark operand).tokens) op operand.expr
  | .binary lhs op mark rhs =>
    .binary (spanOf (Phrase.binary lhs op mark rhs).tokens) op lhs.expr rhs.expr
  | .group opening inner closing =>
    .group (spanOf (Phrase.group opening inner closing).tokens) inner.expr
  | .object opening fields => .object (spanOf (Phrase.object opening fields).tokens) fields.entries
  | .array opening items => .array (spanOf (Phrase.array opening items).tokens) items.exprs

def Fields.entries : Fields → List (Name × Expr)
  | .close _ => []
  | .last _ key _ value _ => [(key, value.expr)]
  | .more _ key _ value _ rest => (key, value.expr) :: rest.entries

def Items.exprs : Items → List Expr
  | .close _ => []
  | .last item _ => [item.expr]
  | .more item _ rest => item.expr :: rest.exprs

end

/-- Does the grammar derive the tokens by this phrase? -/
def Phrase.Derives (p : Phrase) (ts : List Lexeme) : Prop := p.Fits 0 ∧ p.tokens = ts

mutual

/-- How many brackets and prefix operators stand around the innermost part. -/
def depth : Expr → Nat
  | .binary _ _ lhs rhs => max lhs.depth rhs.depth
  | .unary _ _ operand => operand.depth + 1
  | .group _ inner => inner.depth + 1
  | .object _ fields => depthOfFields fields + 1
  | .array _ items => depthOfItems items + 1
  | .string _ _ | .number _ _ | .boolean _ _ | .identifier _ _ => 0

def depthOfFields : List (Name × Expr) → Nat
  | [] => 0
  | (_, value) :: rest => max value.depth (depthOfFields rest)

def depthOfItems : List Expr → Nat
  | [] => 0
  | item :: rest => max item.depth (depthOfItems rest)

end

mutual

/-- The expression and all expressions inside it. -/
def subtrees : Expr → List Expr
  | .binary span op lhs rhs => .binary span op lhs rhs :: (lhs.subtrees ++ rhs.subtrees)
  | .unary span op operand => .unary span op operand :: operand.subtrees
  | .group span inner => .group span inner :: inner.subtrees
  | .object span fields => .object span fields :: subtreesOfFields fields
  | .array span items => .array span items :: subtreesOfItems items
  | .string span text => [.string span text]
  | .number span value => [.number span value]
  | .boolean span value => [.boolean span value]
  | .identifier span name => [.identifier span name]

def subtreesOfFields : List (Name × Expr) → List Expr
  | [] => []
  | (_, value) :: rest => value.subtrees ++ subtreesOfFields rest

def subtreesOfItems : List Expr → List Expr
  | [] => []
  | item :: rest => item.subtrees ++ subtreesOfItems rest

end

end Expr

end BranchingStory
