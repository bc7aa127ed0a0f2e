import BranchingStory.Expr

/-! # Documents

The statements of a source as a tree. Reading never fails: what is absent or does not fit is kept
as an issue of its statement, and a line that is no statement here is kept as an erroneous one, so
that messages and the script are both made from one tree. -/

namespace BranchingStory
set_option autoImplicit false

inductive Segment where
  | identifier | string | expression | block | value | colon | assign | fenceClose
deriving DecidableEq, Repr

def Segment.label : Segment → String
  | .identifier => "identifier"
  | .string => "string"
  | .expression => "expression"
  | .block => "block"
  | .value => "value"
  | .colon => ":"
  | .assign => "="
  | .fenceClose => ":::"

/-- Something that reading had to recover from. -/
inductive Issue where
  /-- A required part is absent; the offset tells where it was expected. -/
  | missing (segment : Segment) (offset : Nat)
  | unexpected (span : Span)
deriving DecidableEq, Repr

/-- What was written where an expression is wanted: an expression, or tokens that form none. -/
inductive Operand where
  | parsed (expr : Expr)
  | malformed (span : Span)

def Operand.span : Operand → Span
  | .parsed e => e.span
  | .malformed span => span

/-- The declarations that carry a name and a body of their own. -/
inductive DeclarationKind where
  | story | scene | beat
deriving DecidableEq, Repr

/-- Statements that open no block. Parts are optional where reading can find them absent. -/
inductive Form where
  | goto (target : Option Name)
  | finish
  | giveBack
  | include (path : Option Name)
  | guard (condition : Option Operand)
  | assignment (name : Name) (value : Option Operand)
  | say (speaker text : Option Name)
  | stage (text : Option Name)
  | set (state : Option Name) (value : Option Operand)
  | emit (event : Option Name) (payload : Option Operand)
  /-- A line whose indentation matches no open block. -/
  | inconsistentIndentation
  | erroneous

/-- First lines of statements that can have a block. -/
inductive Header where
  | declaration (kind : DeclarationKind) (name : Option Name) (guard : Option Operand)
  | config
  | choice (guard : Option Operand)
  | option (label : Option Name) (guard : Option Operand) (target : Option Name)

/-- A statement: its span reaches from its first token to its last one that is no layout mark, nested
blocks included; its issues are those of its own line. -/
inductive Statement where
  | line (form : Form) (span : Span) (issues : List Issue)
  | bare (header : Header) (span : Span) (issues : List Issue)
  /-- A header with a block; the extent of the block leaves out comments and blank lines behind its
  last token. -/
  | block (header : Header) (extent : Span) (items : List Statement) (span : Span)
      (issues : List Issue)

namespace Statement

def span : Statement → Span
  | .line _ span _ | .bare _ span _ | .block _ _ _ span _ => span

def issues : Statement → List Issue
  | .line _ _ issues | .bare _ _ issues | .block _ _ _ _ issues => issues

def items : Statement → List Statement
  | .block _ _ items _ _ => items
  | _ => []

end Statement

inductive MetadataValue where
  | string (text : String)
  | object
  | strong
  | emphasis
  | number
  | boolean
  | identifier
deriving DecidableEq, Repr

/-- A line of the metadata fence with a key and, if it was readable, a value. -/
structure MetadataEntry where
  key : Name
  value : Option (Located MetadataValue)

structure MetadataFence where
  entries : List MetadataEntry
  issues : List Issue
  span : Span

structure Document where
  metadata : Option MetadataFence
  statements : List Statement

end BranchingStory
