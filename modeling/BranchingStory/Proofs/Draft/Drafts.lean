import BranchingStory.Proofs.Document.Grammar
import BranchingStory.Proofs.Token.Outlines
import BranchingStory.Script.OfDocument

/-! # Drafts

A draft is a story that has not been written yet: one story of scenes of beats, with the statements of each
beat and how deep each block is indented. It says how it is written, one statement in a line, and which script
the text has to be read as. -/

namespace BranchingStory
open Text Token
set_option autoImplicit false

/-! ## Words in a line -/

namespace Token

/-- Words with one blank in front of each. -/
def spaced (words : List Token) : List Cell := words.map fun t => (1, t)

def Row.sentence (first : Token) (words : List Token) : Row := ⟨first, spaced words⟩

/-- The line in front of a block. -/
def Row.heading (first : Token) (words : List Token) : Row := ⟨first, spaced words ++ [(0, .symbol .colon)]⟩

end Token

namespace Draft

/-- A name of something in the story. It may be spelled like a keyword. -/
structure Identifier where
  name : String
  valid : IsIdentifier name

/-- A text that can stand between quotes. -/
structure Literal where
  text : String
  valid : '\r' ∉ text.toList

/-- An expression of the grammar that is not nested too deeply. Where its tokens stand is not used. -/
structure Formula where
  phrase : Expr.Phrase
  fits : phrase.Fits 0
  shallow : phrase.expr.depth ≤ Expr.maxNesting
  writable : ∀ t ∈ phrase.tokens, t.node.Writable

def Identifier.token (i : Identifier) : Token := .word i.name

def Literal.token (l : Literal) : Token := .string l.text

namespace Formula

def words (f : Formula) : List Token := f.phrase.tokens.map (·.node)

/-- The expression as it is written, with one blank between two tokens. -/
def text (f : Formula) : String := String.ofList ([' '].intercalate (f.words.map spell))

/-- Does the word `goto` stand inside brackets only? -/
def GotoFree (f : Formula) : Prop := ∀ t ∈ f.phrase.outer, t.node ≠ .word "goto"

def guardWords : Option Formula → List Token
  | none => []
  | some f => .word "when" :: f.words

end Formula

/-! ## Statements -/

/-- A statement without a block. -/
inductive Act where
  | say (speaker : Identifier) (text : Literal)
  | stage (text : Literal)
  | set (state : Identifier) (value : Formula)
  | emit (event : Identifier) (payload : Option Formula)
  | goto (target : Identifier)
  | finish
  | giveBack
  | assignment (name : Identifier) (value : Formula)

namespace Act

def row : Act → Row
  | .say speaker text => .sentence (.word "say") [speaker.token, text.token]
  | .stage text => .sentence (.word "stage") [text.token]
  | .set state value => .sentence (.word "set") (state.token :: .symbol .assign :: value.words)
  | .emit event none => .sentence (.word "emit") [event.token]
  | .emit event (some payload) => .sentence (.word "emit") (event.token :: .word "with" :: payload.words)
  | .goto target => .sentence (.word "goto") [target.token]
  | .finish => .sentence (.word "end") []
  | .giveBack => .sentence (.word "return") []
  | .assignment name value => .sentence name.token (.symbol .assign :: value.words)

def deed : Act → Deed
  | .say speaker text => .say speaker.name text.text
  | .stage text => .stage text.text
  | .set state value => .set state.name value.text
  | .emit event payload => .emit event.name (payload.map (·.text))
  | .goto target => .goto target.name
  | .finish => .finish
  | .giveBack => .giveBack
  | .assignment name value => .assignment name.name value.text

/-- Does the statement lead to one of the beats, if it leads anywhere? -/
def Sound (beats : List String) : Act → Prop
  | .goto target => target.name ∈ beats
  | _ => True

end Act

mutual

/-- The statements of a beat or of an option. -/
inductive Body where
  | done
  | act (a : Act) (rest : Body)
  | choice (guard : Option Formula) (deeper : Nat) (options : Options) (rest : Body)

/-- The options of a choice block, each with a target or with statements of its own. -/
inductive Options where
  | done
  | jump (label : Literal) (guard : Option Formula) (target : Identifier) (rest : Options)
  | body (label : Literal) (guard : Option Formula) (deeper : Nat) (statements : Body) (rest : Options)

end

def choiceRow (guard : Option Formula) : Row := .heading (.word "choice") (Formula.guardWords guard)

def jumpRow (label : Literal) (guard : Option Formula) (target : Identifier) : Row :=
  .sentence (.word "option") (label.token :: (Formula.guardWords guard ++ [.word "goto", target.token]))

def bodyRow (label : Literal) (guard : Option Formula) : Row :=
  .heading (.word "option") (label.token :: Formula.guardWords guard)

mutual

def Body.outline : Body → Outline
  | .done => .done
  | .act a rest => .line a.row rest.outline
  | .choice guard deeper options rest => .block (choiceRow guard) deeper options.outline rest.outline

def Options.outline : Options → Outline
  | .done => .done
  | .jump label guard target rest => .line (jumpRow label guard target) rest.outline
  | .body label guard deeper statements rest =>
    .block (bodyRow label guard) deeper statements.outline rest.outline

end

mutual

/-- Has each block a line, and does everything lead to one of the beats? -/
def Body.Sound (beats : List String) : Body → Prop
  | .done => True
  | .act a rest => a.Sound beats ∧ rest.Sound beats
  | .choice _ _ options rest => options ≠ .done ∧ options.Sound beats ∧ rest.Sound beats

def Options.Sound (beats : List String) : Options → Prop
  | .done => True
  | .jump _ guard target rest => (∀ f ∈ guard, f.GotoFree) ∧ target.name ∈ beats ∧ rest.Sound beats
  | .body _ guard _ statements rest =>
    (∀ f ∈ guard, f.GotoFree) ∧ statements ≠ .done ∧ statements.Sound beats ∧ rest.Sound beats

end

end Draft

/-! ## Actions and choices -/

/-- The range of a text that is written at an offset, without its indentation and its last line feed. -/
def Source.written (s : Source) (offset width : Nat) (text : List Char) : Range :=
  s.range ⟨offset + width, offset + byteLength text - 1⟩

namespace Draft

/-- The actions of statements that are written from the offset on. -/
def Body.actions (s : Source) (offset width : Nat) : Body → List Action
  | .done => []
  | .act a rest =>
    ⟨a.deed, s.written offset width (a.row.line width)⟩ ::
      rest.actions s (offset + byteLength (a.row.line width)) width
  | .choice guard deeper options rest =>
    let start := offset + byteLength ((choiceRow guard).line width)
    rest.actions s (start + byteLength (options.outline.text (width + deeper + 1))) width

mutual

/-- The options of all choice blocks among the statements. -/
def Body.choices (s : Source) (offset width : Nat) : Body → List Choice
  | .done => []
  | .act a rest => rest.choices s (offset + byteLength (a.row.line width)) width
  | .choice guard deeper options rest =>
    let start := offset + byteLength ((choiceRow guard).line width)
    let inner := width + deeper + 1
    options.choices s (guard.map (·.text)) start inner ++
      rest.choices s (start + byteLength (options.outline.text inner)) width

/-- The options as choices, under the guard of their block. -/
def Options.choices (s : Source) (outer : Option String) (offset width : Nat) : Options → List Choice
  | .done => []
  | .jump label guard target rest =>
    let line := (jumpRow label guard target).line width
    ⟨label.text, some target.name, combineGuards outer (guard.map (·.text)), [], [],
      s.written offset width line⟩ :: rest.choices s outer (offset + byteLength line) width
  | .body label guard deeper statements rest =>
    let line := (bodyRow label guard).line width
    let start := offset + byteLength line
    let inner := width + deeper + 1
    let text := statements.outline.text inner
    ⟨label.text, none, combineGuards outer (guard.map (·.text)), statements.actions s start inner,
      statements.choices s start inner, s.written offset width (line ++ text)⟩ ::
      rest.choices s outer (start + byteLength text) width

end

/-! ## Declarations -/

/-- A declaration with its name and what stands in its block. -/
structure Part (α : Type) where
  name : Identifier
  deeper : Nat
  content : α

abbrev Beat := Part Body

abbrev Scene := Part (List Beat)

abbrev Story := Part (List Scene)

def keyword : DeclarationKind → String
  | .story => "story"
  | .scene => "scene"
  | .beat => "beat"

/-- What the block of a declaration holds. -/
structure Contents where
  actions : List Action := []
  children : List Node := []
  choices : List Choice := []

namespace Part
variable {α : Type}

def row (kind : DeclarationKind) (p : Part α) : Row := .heading (.word (keyword kind)) [p.name.token]

/-- How declarations are written, given how what stands in them is. -/
def outline (kind : DeclarationKind) (inside : α → Outline) : List (Part α) → Outline
  | [] => .done
  | p :: rest => .block (p.row kind) p.deeper (inside p.content) (outline kind inside rest)

/-- The nodes that declarations stand for if they are written from the offset on. -/
def nodes (s : Source) (kind : DeclarationKind) (inside : α → Outline) (contents : α → Nat → Nat → Contents)
    (offset width : Nat) : List (Part α) → List Node
  | [] => []
  | p :: rest =>
    let line := (p.row kind).line width
    let start := offset + byteLength line
    let inner := width + p.deeper + 1
    let text := (inside p.content).text inner
    let c := contents p.content start inner
    { id := p.name.name, kind := kind.nodeKind, guard := none, body := String.ofList (trim text)
      actions := c.actions, children := c.children, choices := c.choices
      range := s.written offset width (line ++ text) } ::
      nodes s kind inside contents (start + byteLength text) width rest

end Part

namespace Body

def contents (s : Source) (b : Body) (offset width : Nat) : Contents :=
  { actions := b.actions s offset width, choices := b.choices s offset width }

end Body

def beatsOutline : List Beat → Outline := Part.outline .beat Body.outline

def beatNodes (s : Source) (offset width : Nat) : List Beat → List Node :=
  Part.nodes s .beat Body.outline (Body.contents s) offset width

def scenesOutline : List Scene → Outline := Part.outline .scene beatsOutline

def sceneNodes (s : Source) (offset width : Nat) : List Scene → List Node :=
  Part.nodes s .scene beatsOutline (fun beats o w => { children := beatNodes s o w beats }) offset width

def storyOutline (story : Story) : Outline := Part.outline .story scenesOutline [story]

def storyNodes (s : Source) (offset width : Nat) (story : Story) : List Node :=
  Part.nodes s .story scenesOutline (fun scenes o w => { children := sceneNodes s o w scenes }) offset width [story]

/-- A line of the metadata fence. -/
def entryRow (pair : Identifier × Literal) : Row :=
  ⟨pair.1.token, [(0, .symbol .colon), (1, pair.2.token)]⟩

end Draft

/-- A story with its metadata, which may be absent. -/
structure Draft where
  metadata : Option (List (Draft.Identifier × Draft.Literal))
  story : Draft.Story

namespace Draft

/-- The values that are written, under their keys. -/
def pairs (d : Draft) : List (String × String) :=
  (d.metadata.getD []).map fun (key, value) => (key.name, value.text)

/-- The lines of the metadata fence. -/
def fenceRows (d : Draft) : List Row :=
  match d.metadata with
  | none => []
  | some pairs => ⟨.symbol .fenceOpen, []⟩ :: (pairs.map entryRow ++ [⟨.symbol .fenceClose, []⟩])

def outline (d : Draft) : Outline := d.fenceRows.foldr Outline.line (storyOutline d.story)

/-- The draft as it is written. -/
def source (d : Draft) : Source := { text := d.outline.text 0 }

/-- The script that the draft stands for. -/
def script (d : Draft) : Script where
  metadata := .ofList d.pairs
  nodes := storyNodes d.source (byteLength (d.fenceRows.flatMap (·.line 0))) 0 d.story
  range := d.source.index.fullRange

def scenes (d : Draft) : List Scene := d.story.content

def beats (d : Draft) : List Beat := d.scenes.flatMap (·.content)

def beatNames (d : Draft) : List String := d.beats.map (·.name.name)

/-- The names of all declarations in the order of the text. -/
def names (d : Draft) : List String :=
  d.story.name.name :: d.scenes.flatMap fun scene => scene.name.name :: scene.content.map (·.name.name)

/-- Are all names and all keys distinct, does every declaration and every choice hold something, and does
everything lead to a beat of the story? -/
structure Sound (d : Draft) : Prop where
  keys : (d.pairs.map (·.1)).Nodup
  names : d.names.Nodup
  scenes : d.scenes ≠ []
  beats : ∀ scene ∈ d.scenes, scene.content ≠ []
  bodies : ∀ beat ∈ d.beats, beat.content ≠ .done ∧ beat.content.Sound d.beatNames

end Draft

end BranchingStory
