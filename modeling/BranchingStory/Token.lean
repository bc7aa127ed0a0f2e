import BranchingStory.Source.Span
import BranchingStory.Text.Binary64

/-! # Tokens

Keywords are plain words; the grammar of statements decides what they mean. Layout marks carry the
line structure of a source, all other tokens its text. -/

namespace BranchingStory
set_option autoImplicit false

/-- The marks that stand for the line structure. -/
inductive Layout where
  /-- The end of a line that holds at least one token. -/
  | newline
  /-- The next line is indented deeper than the innermost open block. -/
  | indent
  /-- An open block is closed. -/
  | dedent
  /-- A line without a token. -/
  | blankLine
  /-- The next line's indentation matches no open block. -/
  | indentError
deriving DecidableEq, Repr

inductive Symbol where
  | fenceOpen | fenceClose | colon | comma | assign
  | equal | notEqual | less | lessEqual | greater | greaterEqual
  | plus | minus | star | slash | percent
  | openParen | closeParen | openBrace | closeBrace | openBracket | closeBracket
deriving DecidableEq, Repr

inductive Token where
  | layout (mark : Layout)
  | symbol (symbol : Symbol)
  /-- A string literal, by its text with the escapes resolved. -/
  | string (text : String)
  /-- A number literal, by its value and its spelling. -/
  | number (value : Binary64) (spelling : String)
  | word (name : String)
  /-- Input that is no token. -/
  | unknown (text : String)
deriving DecidableEq, Repr

abbrev Lexeme := Located Token

def Layout.display : Layout → String
  | .newline => "newline"
  | .indent => "indent"
  | .dedent => "dedent"
  | .blankLine => "blank line"
  | .indentError => "indentation error"

def Symbol.spelling : Symbol → String
  | .fenceOpen => ":::meta"
  | .fenceClose => ":::"
  | .colon => ":"
  | .comma => ","
  | .assign => "="
  | .equal => "=="
  | .notEqual => "!="
  | .less => "<"
  | .lessEqual => "<="
  | .greater => ">"
  | .greaterEqual => ">="
  | .plus => "+"
  | .minus => "-"
  | .star => "*"
  | .slash => "/"
  | .percent => "%"
  | .openParen => "("
  | .closeParen => ")"
  | .openBrace => "\x7b"
  | .closeBrace => "\x7d"
  | .openBracket => "["
  | .closeBracket => "]"

namespace Token

/-- How a token is shown: a string literal between plain quotes, everything else as it is spelled. -/
def display : Token → String
  | .layout mark => mark.display
  | .symbol s => s.spelling
  | .string text => "\"" ++ text ++ "\""
  | .number _ spelling => spelling
  | .word name => name
  | .unknown text => text

def isLayout : Token → Bool
  | .layout _ => true
  | _ => false

def isNewline (t : Token) : Bool := t == .layout .newline

def isWord (t : Token) (name : String) : Bool := t == .word name

end Token

end BranchingStory
