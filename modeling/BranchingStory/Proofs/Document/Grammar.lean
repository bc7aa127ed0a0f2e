import BranchingStory.Document.Read
import BranchingStory.Proofs.Expr.Grammar
import BranchingStory.Proofs.Token.Shape

/-! # The grammar of documents

A line is one of the forms of the statement that it announces; a passage is the lines of a block with the
marks between them; a manuscript is a passage at the top level, with a metadata fence in front or none.
Each is a derivation that holds its own tokens, so the tokens it derives and the document it stands for
are computed from it. -/

namespace BranchingStory
set_option autoImplicit false

namespace Expr

/-- The tokens of a phrase in front of which none of its brackets is open. -/
def Phrase.outer : Phrase → List Lexeme
  | .string span text => [⟨.string text, span⟩]
  | .number span value spelling => [⟨.number value spelling, span⟩]
  | .boolean span value => [⟨.word (if value then "true" else "false"), span⟩]
  | .identifier span name => [⟨.word name, span⟩]
  | .unary op mark operand => ⟨op.token, mark⟩ :: operand.outer
  | .binary lhs op mark rhs => lhs.outer ++ ⟨op.token, mark⟩ :: rhs.outer
  | .group opening _ _ => [⟨.symbol .openParen, opening⟩]
  | .object opening _ => [⟨.symbol .openBrace, opening⟩]
  | .array opening _ => [⟨.symbol .openBracket, opening⟩]

/-- Do the tokens spell the expression, without a stop outside brackets and not nested too deeply? -/
def Spelled (stop : Token → Bool) (ts : List Lexeme) (e : Expr) : Prop :=
  ∃ p : Phrase, p.Derives ts ∧ p.expr = e ∧ e.depth ≤ maxNesting ∧ ∀ t ∈ p.outer, stop t.node = false

end Expr

/-- Was the statement, with all those in its block, read without an issue? -/
inductive Statement.Clean : Statement → Prop
  | line {form : Form} {span : Span} (herroneous : form ≠ .erroneous)
      (hindentation : form ≠ .inconsistentIndentation) : Clean (.line form span [])
  | bare {header : Header} {span : Span} : Clean (.bare header span [])
  | block {header : Header} {extent : Span} {items : List Statement} {span : Span}
      (h : ∀ item ∈ items, Clean item) : Clean (.block header extent items span [])

/-- Was everything read without an issue? -/
structure Document.Clean (d : Document) : Prop where
  metadata : ∀ fence ∈ d.metadata, fence.issues = []
  statements : ∀ item ∈ d.statements, item.Clean

namespace Grammar
open BranchingStory.Expr (Spelled)

/-! ## Lines -/

/-- The guard of a header, which may be absent. -/
inductive Guard (stop : Token → Bool) : List Lexeme → Option Operand → Prop
  | absent : Guard stop [] none
  | present {mark : Span} {ts : List Lexeme} {e : Expr} (h : Spelled stop ts e) :
      Guard stop (⟨.word "when", mark⟩ :: ts) (some (.parsed e))

/-- What follows the label and the guard of an option. -/
inductive OptionEnd (label : Option Name) (guard : Option Operand) : List Lexeme → FirstLine → Prop
  | goto {mark : Span} {target : Name} :
      OptionEnd label guard [⟨.word "goto", mark⟩, ⟨.word target.node, target.span⟩]
        (.bare (.option label guard (some target)))
  | body {colon : Span} :
      OptionEnd label guard [⟨.symbol .colon, colon⟩]
        (.opening (.option label guard none) .optionBody false)
  | nothing : OptionEnd label guard [] (.bare (.option label guard none))

inductive Payload : List Lexeme → Option Operand → Prop
  | absent : Payload [] none
  | present {mark : Span} {ts : List Lexeme} {e : Expr} (h : Spelled Reading.toLineEnd ts e) :
      Payload (⟨.word "with", mark⟩ :: ts) (some (.parsed e))

/-- The tokens behind the first word of a line, for each statement that the line can announce. -/
inductive LineForm (word : Name) : Head → List Lexeme → FirstLine → Prop
  | story {name : Name} {colon : Span} :
      LineForm word (.declaration .story) [⟨.word name.node, name.span⟩, ⟨.symbol .colon, colon⟩]
        (.opening (.declaration .story (some name) none) .story true)
  | part {kind : DeclarationKind} {name : Name} {ts : List Lexeme} {guard : Option Operand} {colon : Span}
      (hkind : kind ≠ .story) (hguard : Guard Reading.atColon ts guard) :
      LineForm word (.declaration kind) (⟨.word name.node, name.span⟩ :: (ts ++ [⟨.symbol .colon, colon⟩]))
        (.opening (.declaration kind (some name) guard) kind.context true)
  | config {colon : Span} : LineForm word .config [⟨.symbol .colon, colon⟩] (.opening .config .config true)
  | choice {ts : List Lexeme} {guard : Option Operand} {colon : Span}
      (hguard : Guard Reading.atColon ts guard) :
      LineForm word .choice (ts ++ [⟨.symbol .colon, colon⟩]) (.opening (.choice guard) .choice true)
  | option {label : Name} {ts us : List Lexeme} {guard : Option Operand} {first : FirstLine}
      (hguard : Guard Reading.atColonOrGoto ts guard) (hend : OptionEnd (some label) guard us first) :
      LineForm word .option (⟨.string label.node, label.span⟩ :: (ts ++ us)) first
  | goto {target : Name} :
      LineForm word .goto [⟨.word target.node, target.span⟩] (.line (.goto (some target)))
  | finish : LineForm word .finish [] (.line .finish)
  | giveBack : LineForm word .giveBack [] (.line .giveBack)
  | include {path : Name} :
      LineForm word .include [⟨.string path.node, path.span⟩] (.line (.include (some path)))
  | guard {ts : List Lexeme} {e : Expr} (h : Spelled Reading.toLineEnd ts e) :
      LineForm word .guard ts (.line (.guard (some (.parsed e))))
  | say {speaker text : Name} :
      LineForm word .say [⟨.word speaker.node, speaker.span⟩, ⟨.string text.node, text.span⟩]
        (.line (.say (some speaker) (some text)))
  | stage {text : Name} :
      LineForm word .stage [⟨.string text.node, text.span⟩] (.line (.stage (some text)))
  | set {state : Name} {assign : Span} {ts : List Lexeme} {e : Expr} (h : Spelled Reading.toLineEnd ts e) :
      LineForm word .set (⟨.word state.node, state.span⟩ :: ⟨.symbol .assign, assign⟩ :: ts)
        (.line (.set (some state) (some (.parsed e))))
  | emit {event : Name} {ts : List Lexeme} {payload : Option Operand} (h : Payload ts payload) :
      LineForm word .emit (⟨.word event.node, event.span⟩ :: ts) (.line (.emit (some event) payload))
  | assignment {assign : Span} {ts : List Lexeme} {e : Expr} (h : Spelled Reading.toLineEnd ts e) :
      LineForm word .assignment (⟨.symbol .assign, assign⟩ :: ts) (.line (.assignment word (some (.parsed e))))

/-- The lines that may stand in a block. An assignment begins with any word, all other lines with a keyword. -/
inductive LineIn (context : Context) : List Lexeme → FirstLine → Prop
  | intro {word : Name} {head : Head} {ts : List Lexeme} {first : FirstLine}
      (hhead : head = .assignment ∨ Head.ofWord? word.node = some head) (hallowed : context.allows head = true)
      (hform : LineForm word head ts first) : LineIn context (⟨.word word.node, word.span⟩ :: ts) first

/-! ## Passages -/

inductive Passage where
  | done
  /-- A blank line, or a mark that closes an indentation from inside the metadata fence. -/
  | mark (t : Lexeme) (rest : Passage)
  | line (words : List Lexeme) (stop : Span) (form : Form) (rest : Passage)
  | bare (words : List Lexeme) (stop : Span) (header : Header) (rest : Passage)
  | block (words : List Lexeme) (stop : Span) (header : Header) (inner : Context) (blanks : List Span)
      (opening : Span) (body : Passage) (closing : Span) (rest : Passage)

namespace Passage

def tokens : Passage → List Lexeme
  | .done => []
  | .mark t rest => t :: rest.tokens
  | .line words stop _ rest | .bare words stop _ rest =>
    words ++ Token.mark .newline stop :: rest.tokens
  | .block words stop _ _ blanks opening body closing rest =>
    words ++ Token.mark .newline stop :: (blanks.map (Token.mark .blankLine) ++
      Token.mark .indent opening :: (body.tokens ++ Token.mark .dedent closing :: rest.tokens))

/-- Does every part of the passage stand where it may? -/
def Fits (context : Context) : Passage → Prop
  | .done => True
  | .mark t rest =>
    (t.node = .layout .blankLine ∨ t.node = .layout .dedent ∧ context = .topLevel) ∧ rest.Fits context
  | .line words _ form rest => LineIn context words (.line form) ∧ rest.Fits context
  | .bare words _ header rest =>
    (LineIn context words (.bare header) ∨ ∃ inner, LineIn context words (.opening header inner false)) ∧
      rest.Fits context
  | .block words _ header inner _ _ body _ rest =>
    (∃ required, LineIn context words (.opening header inner required)) ∧ body.Fits inner ∧ rest.Fits context

/-- The statements of the passage, each with the span of its tokens. -/
def statements : Passage → List Statement
  | .done => []
  | .mark _ rest => rest.statements
  | .line words _ form rest => .line form (spanOf words) [] :: rest.statements
  | .bare words _ header rest => .bare header (spanOf words) [] :: rest.statements
  | .block words _ header _ _ opening body _ rest =>
    let span := spanOf (words ++ proper body.tokens)
    .block header ⟨opening.start, max span.stop opening.start⟩ body.statements span [] :: rest.statements

/-- The tokens of each statement, those of the block of a statement apart. -/
def constructs : Passage → List (List Lexeme)
  | .done => []
  | .mark _ rest => rest.constructs
  | .line words _ _ rest | .bare words _ _ rest => words :: rest.constructs
  | .block words _ _ _ _ _ body _ rest => words :: (body.constructs ++ rest.constructs)

end Passage

/-! ## The metadata fence -/

/-- The values of metadata, and the tokens that they are written with. -/
inductive Value : List Lexeme → MetadataValue → Prop
  | string {span : Span} {text : String} : Value [⟨.string text, span⟩] (.string text)
  | number {span : Span} {value : Binary64} {spelling : String} : Value [⟨.number value spelling, span⟩] .number
  | boolean {span : Span} {name : String} (h : name = "true" ∨ name = "false") :
      Value [⟨.word name, span⟩] .boolean
  | identifier {span : Span} {name : String} (h : ¬ (name = "true" ∨ name = "false")) :
      Value [⟨.word name, span⟩] .identifier
  | object {ts : List Lexeme} {span : Span} {fields : List (Name × Expr)}
      (h : Spelled Reading.toLineEnd ts (.object span fields)) : Value ts .object
  | strong {a b c d : Span} {ts : List Lexeme} (hne : ts ≠ [])
      (h : ∀ t ∈ ts, t.node.isLayout = false ∧ t.node ≠ .symbol .star) :
      Value (⟨.symbol .star, a⟩ :: ⟨.symbol .star, b⟩ ::
        (ts ++ [⟨.symbol .star, c⟩, ⟨.symbol .star, d⟩])) .strong
  | emphasis {a b : Span} {ts : List Lexeme} (hne : ts ≠ [])
      (h : ∀ t ∈ ts, t.node.isLayout = false ∧ t.node ≠ .symbol .star) :
      Value (⟨.symbol .star, a⟩ :: (ts ++ [⟨.symbol .star, b⟩])) .emphasis

/-- What stands in the fence behind its first line. -/
inductive Fence where
  | close (closing stop : Span)
  /-- A layout mark, which means nothing here. -/
  | mark (t : Lexeme) (rest : Fence)
  | entry (key : Name) (colon : Span) (words : List Lexeme) (value : MetadataValue) (stop : Span) (rest : Fence)

namespace Fence

def tokens : Fence → List Lexeme
  | .close closing stop => [⟨.symbol .fenceClose, closing⟩, Token.mark .newline stop]
  | .mark t rest => t :: rest.tokens
  | .entry key colon words _ stop rest =>
    ⟨.word key.node, key.span⟩ :: ⟨.symbol .colon, colon⟩ :: (words ++ Token.mark .newline stop :: rest.tokens)

def Fits : Fence → Prop
  | .close _ _ => True
  | .mark t rest => t.node.isLayout = true ∧ rest.Fits
  | .entry _ _ words value _ rest => Value words value ∧ rest.Fits

def entries : Fence → List MetadataEntry
  | .close _ _ => []
  | .mark _ rest => rest.entries
  | .entry key _ words value _ rest => ⟨key, some ⟨value, spanOf words⟩⟩ :: rest.entries

def closing : Fence → Span
  | .close closing _ => closing
  | .mark _ rest | .entry _ _ _ _ _ rest => rest.closing

def constructs : Fence → List (List Lexeme)
  | .close closing _ => [[⟨.symbol .fenceClose, closing⟩]]
  | .mark _ rest => rest.constructs
  | .entry key colon words _ _ rest =>
    (⟨.word key.node, key.span⟩ :: ⟨.symbol .colon, colon⟩ :: words) :: rest.constructs

end Fence

/-! ## Manuscripts -/

/-- A whole source. -/
inductive Manuscript where
  | plain (body : Passage)
  | fenced (blanks : List Span) (opening stop : Span) (fence : Fence) (body : Passage)

namespace Manuscript

def tokens : Manuscript → List Lexeme
  | .plain body => body.tokens
  | .fenced blanks opening stop fence body =>
    blanks.map (Token.mark .blankLine) ++ ⟨.symbol .fenceOpen, opening⟩ :: Token.mark .newline stop ::
      (fence.tokens ++ body.tokens)

def Fits : Manuscript → Prop
  | .plain body => body.Fits .topLevel
  | .fenced _ _ _ fence body => fence.Fits ∧ body.Fits .topLevel

/-- Does the grammar derive the tokens by this derivation? -/
def Derives (m : Manuscript) (ts : List Lexeme) : Prop := m.Fits ∧ m.tokens = ts

def document : Manuscript → Document
  | .plain body => ⟨none, body.statements⟩
  | .fenced _ opening _ fence body =>
    ⟨some ⟨fence.entries, [], ⟨opening.start, fence.closing.stop⟩⟩, body.statements⟩

def constructs : Manuscript → List (List Lexeme)
  | .plain body => body.constructs
  | .fenced _ opening _ fence body =>
    [⟨.symbol .fenceOpen, opening⟩] :: (fence.constructs ++ body.constructs)

end Manuscript

end Grammar

end BranchingStory
