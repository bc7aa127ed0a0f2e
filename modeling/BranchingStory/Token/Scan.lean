import BranchingStory.Token
import BranchingStory.Text.Digits
import BranchingStory.Text.Escape
import BranchingStory.Text.Offset

/-! # Scanning

`scan` reads what stands at the front of a text: the longest token there, or a stretch that is
passed over (blanks and comments). `lexemes` scans a whole text. The line feeds become marks that
the layout pass turns into the line structure. -/

namespace BranchingStory.Token
open Text
set_option autoImplicit false

/-! ## Character classes -/

/-- White space that separates tokens on a line: space, tab, carriage return, form feed, no-break
space and byte order mark. -/
def isSkippable (c : Char) : Bool :=
  c == ' ' || c == '\t' || c == '\r' || c == '\x0C' || c == '\u00A0' || c == '\uFEFF'

/-- Letters of the Latin alphabet without accents, and the underscore. -/
def isNameStart (c : Char) : Bool := c.isAlpha || c == '_'

def isNamePart (c : Char) : Bool := c.isAlphanum || c == '_'

/-! ## Stretches -/

/-- The length of the longest run of literal text: no quote, no line end, and each backslash with a
character of the same line behind it. -/
def literalLength : List Char → Nat
  | [] => 0
  | [c] => if c = '"' ∨ c = '\\' ∨ c = '\n' ∨ c = '\r' then 0 else 1
  | c :: d :: rest =>
    if c = '"' ∨ c = '\n' ∨ c = '\r' then 0
    else if c = '\\' then if d = '\n' ∨ d = '\r' then 0 else literalLength rest + 2
    else literalLength (d :: rest) + 1

/-- How far a block comment reaches behind its opening, its closing included. -/
def commentLength? : List Char → Option Nat
  | [] => none
  | [_] => none
  | c :: d :: rest =>
    if c = '*' ∧ d = '/' then some 2 else (commentLength? (d :: rest)).map (· + 1)

def symbol? : Char → List Char → Option (Symbol × Nat)
  | ':', ':' :: ':' :: 'm' :: 'e' :: 't' :: 'a' :: _ => some (.fenceOpen, 6)
  | ':', ':' :: ':' :: _ => some (.fenceClose, 2)
  | ':', _ => some (.colon, 0)
  | ',', _ => some (.comma, 0)
  | '=', '=' :: _ => some (.equal, 1)
  | '=', _ => some (.assign, 0)
  | '!', '=' :: _ => some (.notEqual, 1)
  | '<', '=' :: _ => some (.lessEqual, 1)
  | '<', _ => some (.less, 0)
  | '>', '=' :: _ => some (.greaterEqual, 1)
  | '>', _ => some (.greater, 0)
  | '+', _ => some (.plus, 0)
  | '-', _ => some (.minus, 0)
  | '*', _ => some (.star, 0)
  | '/', _ => some (.slash, 0)
  | '%', _ => some (.percent, 0)
  | '(', _ => some (.openParen, 0)
  | ')', _ => some (.closeParen, 0)
  | '\x7b', _ => some (.openBrace, 0)
  | '\x7d', _ => some (.closeBrace, 0)
  | '[', _ => some (.openBracket, 0)
  | ']', _ => some (.closeBracket, 0)
  | _, _ => none

def numberValue (whole fraction : List Char) : Binary64 :=
  .ofDecimal (naturalOf (whole ++ fraction)) fraction.length

def fractionOf : List Char → List Char
  | '.' :: rest => rest.takeWhile Char.isDigit
  | _ => []

/-! ## One step -/

/-- What stands at the front of a text: a token, or nothing where the stretch is passed over, and
the number of its characters after the first. -/
structure Scan where
  token? : Option Token
  more : Nat

/-- A number literal: a zero, or digits that begin with another one, and perhaps decimal places. -/
def scanNumber (c : Char) (rest : List Char) : Scan :=
  let whole := if c = '0' then [] else rest.takeWhile Char.isDigit
  let fraction := fractionOf (rest.drop whole.length)
  let more := if fraction = [] then whole.length else whole.length + 1 + fraction.length
  ⟨some (.number (numberValue (c :: whole) fraction) (String.ofList (c :: rest.take more))), more⟩

/-- A string literal, or, where no closing quote stands on the line, the text that lacks it. -/
def scanString (rest : List Char) : Scan :=
  let inner := literalLength rest
  match rest.drop inner with
  | '"' :: _ => ⟨some (.string (String.ofList (resolve (rest.take inner)))), inner + 1⟩
  | _ => ⟨some (.unknown (String.ofList ('"' :: rest.take inner))), inner⟩

/-- A comment up to the line's end, or a block comment, which is unknown text if nothing closes it;
nothing where no comment begins. -/
def scanComment? (c : Char) (rest : List Char) : Option Scan :=
  match c, rest with
  | '/', '/' :: behind => some ⟨none, 1 + (behind.takeWhile (· != '\n')).length⟩
  | '/', '*' :: behind =>
    match commentLength? behind with
    | some n => some ⟨none, 1 + n⟩
    | none => some ⟨some (.unknown (String.ofList (c :: rest))), rest.length⟩
  | _, _ => none

/-- The longest token or passed stretch that begins with `c` and goes on in `rest`. -/
def scan (c : Char) (rest : List Char) : Scan :=
  if isSkippable c then ⟨none, (rest.takeWhile isSkippable).length⟩
  else if c = '\n' then ⟨some (.layout .newline), 0⟩
  else if isNameStart c then
    let tail := rest.takeWhile isNamePart
    ⟨some (.word (String.ofList (c :: tail))), tail.length⟩
  else if c.isDigit then scanNumber c rest
  else if c = '"' then scanString rest
  else match scanComment? c rest with
    | some comment => comment
    | none =>
      match symbol? c rest with
      | some (s, more) => ⟨some (.symbol s), more⟩
      | none => ⟨some (.unknown (String.ofList [c])), 0⟩

/-! ## A whole text -/

def lexemes (offset : Nat) (text : List Char) : List Lexeme :=
  match text with
  | [] => []
  | c :: rest =>
    let s := scan c rest
    let next := offset + byteLength (c :: rest.take s.more)
    let behind := lexemes next (rest.drop s.more)
    match s.token? with
    | some token => ⟨token, ⟨offset, next⟩⟩ :: behind
    | none => behind
termination_by text.length
decreasing_by
  simp only [List.length_cons, List.length_drop]
  omega

end BranchingStory.Token
