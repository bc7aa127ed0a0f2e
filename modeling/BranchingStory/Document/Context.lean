import BranchingStory.Document

/-! # Which statement may stand where

`Head` is what the first tokens of a line announce. An assignment is known by its equals sign, even
where its name is spelled like a keyword; every other statement by its keyword. `Context.allows`
is the table of the blocks and the statements that may stand in them. -/

namespace BranchingStory
set_option autoImplicit false

/-- What the first tokens of a line announce. -/
inductive Head where
  | declaration (kind : DeclarationKind)
  | config | choice | option | goto | finish | giveBack | include | guard
  | say | stage | set | emit | assignment
deriving DecidableEq, Repr

/-- The block that a statement stands in. -/
inductive Context where
  | topLevel | story | scene | beat | config | choice | optionBody
deriving DecidableEq, Repr

def Head.ofWord? : String → Option Head
  | "story" => some (.declaration .story)
  | "scene" => some (.declaration .scene)
  | "beat" => some (.declaration .beat)
  | "config" => some .config
  | "choice" => some .choice
  | "option" => some .option
  | "goto" => some .goto
  | "end" => some .finish
  | "return" => some .giveBack
  | "include" => some .include
  | "when" => some .guard
  | "say" => some .say
  | "stage" => some .stage
  | "set" => some .set
  | "emit" => some .emit
  | _ => none

def Context.allows : Context → Head → Bool
  | .topLevel, .declaration _ | .topLevel, .config | .topLevel, .assignment | .topLevel, .choice
  | .topLevel, .goto | .topLevel, .finish | .topLevel, .giveBack | .topLevel, .include
  | .topLevel, .guard => true
  | .story, .declaration _ | .story, .config | .story, .include => true
  | .scene, .declaration .beat | .scene, .choice | .scene, .goto | .scene, .finish
  | .scene, .giveBack | .scene, .guard => true
  | .beat, head | .optionBody, head =>
    match head with
    | .say | .stage | .set | .emit | .choice | .goto | .finish | .giveBack | .guard
    | .assignment => true
    | _ => false
  | .config, .assignment => true
  | .choice, .option | .choice, .declaration .beat => true
  | _, _ => false

def DeclarationKind.context : DeclarationKind → Context
  | .story => .story
  | .scene => .scene
  | .beat => .beat

/-- What a line with these tokens announces, and the word it begins with. -/
def Head.ofLexemes? : List Lexeme → Option (Head × Name)
  | ⟨.word w, span⟩ :: rest =>
    if (rest.head?.map (·.node)) = some (.symbol .assign) then some (.assignment, ⟨w, span⟩)
    else (Head.ofWord? w).map fun head => (head, ⟨w, span⟩)
  | _ => none

end BranchingStory
