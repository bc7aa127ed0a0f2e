import BranchingStory.Document
import BranchingStory.Script
import BranchingStory.Source

/-! # From a document to a script

Making a script never fails. A line that made no sense becomes an unknown node where nodes carry the
narrative, and is left out elsewhere; an action of which a part is absent is left out. The guard of a
choice block is handed down to its options. -/

namespace BranchingStory
set_option autoImplicit false

def DeclarationKind.nodeKind : DeclarationKind → NodeKind
  | .story => .story
  | .scene => .scene
  | .beat => .beat

/-- Two guards as one: both have to hold, each in parentheses. -/
def combineGuards : Option String → Option String → Option String
  | some outer, some inner => some ("(" ++ outer ++ ") and (" ++ inner ++ ")")
  | some outer, none => some outer
  | none, inner => inner

namespace Source

def operandText (s : Source) (o : Operand) : String := s.excerpt o.span

/-- The text of a guard, unless it is blank. -/
def guardText (s : Source) (guard : Option Operand) : Option String :=
  (guard.map s.operandText).filter (· ≠ "")

/-- The deed that a statement of one line stands for, if no part of it is absent. -/
def deed? (s : Source) : Form → Option Deed
  | .say (some speaker) (some text) => some (.say speaker.node text.node)
  | .stage (some text) => some (.stage text.node)
  | .set (some state) (some value) => some (.set state.node (s.operandText value))
  | .emit (some event) payload => some (.emit event.node (payload.map s.operandText))
  | .goto (some target) => some (.goto target.node)
  | .finish => some .finish
  | .giveBack => some .giveBack
  | .assignment name (some value) => some (.assignment name.node (s.operandText value))
  | _ => none

def action? (s : Source) : Statement → Option Action
  | .line form span _ => (s.deed? form).map fun deed => ⟨deed, s.range span⟩
  | _ => none

def actions (s : Source) (items : List Statement) : List Action := items.filterMap s.action?

/-! ## Choices -/

mutual

/-- The options that a statement of a block offers, none unless it is a choice block. -/
def offered (s : Source) : Statement → List Choice
  | .block (.choice guard) _ items _ _ => s.options (s.guardText guard) items
  | _ => []

def choices (s : Source) : List Statement → List Choice
  | [] => []
  | item :: rest => s.offered item ++ s.choices rest

/-- The option that a statement of a choice block is, under the guard of that block. -/
def option (s : Source) (outer : Option String) : Statement → List Choice
  | .bare (.option (some label) guard target) span _ =>
    [⟨label.node, target.map (·.node), combineGuards outer (s.guardText guard), [], [],
      s.range span⟩]
  | .block (.option (some label) guard target) _ items span _ =>
    [⟨label.node, target.map (·.node), combineGuards outer (s.guardText guard), s.actions items,
      s.choices items, s.range span⟩]
  | _ => []

def options (s : Source) (outer : Option String) : List Statement → List Choice
  | [] => []
  | item :: rest => s.option outer item ++ s.options outer rest

end

/-! ## Nodes -/

/-- Where nodes are looked for. -/
inductive Place where
  | topLevel
  | narrative
  | config
  | choice
deriving DecidableEq

def leafNode (s : Source) (kind : NodeKind) (name : Option Name) (guard : Option Operand)
    (span : Span) : Node :=
  { id := (name.map (·.node)).getD "", kind, guard := s.guardText guard, body := "", actions := []
    children := [], choices := [], range := s.range span }

mutual

/-- The nodes that a statement becomes, at most one. -/
def nodeOf (s : Source) (place : Place) : Statement → List Node
  | .line .erroneous span _ =>
    if place = .topLevel ∨ place = .narrative then
      [{ s.leafNode .unknown none none span with body := s.excerpt span }]
    else []
  | .line _ _ _ => []
  | .bare (.declaration kind name guard) span _ =>
    if place = .choice ∧ kind ≠ .beat then [] else [s.leafNode kind.nodeKind name guard span]
  | .bare .config span _ =>
    if place = .narrative ∨ place = .config then [s.leafNode .config none none span] else []
  | .bare _ _ _ => []
  | .block (.declaration kind name guard) extent items span _ =>
    if place = .choice ∧ kind ≠ .beat then []
    else
      [{ s.leafNode kind.nodeKind name guard span with
          body := s.excerpt extent, actions := s.actions items
          children := s.nodes .narrative items, choices := s.choices items }]
  | .block .config extent items span _ =>
    if place = .narrative ∨ place = .config then
      [{ s.leafNode .config none none span with
          body := s.excerpt extent, actions := s.actions items
          children := s.nodes .config items, choices := s.choices items }]
    else []
  | .block (.choice guard) extent items span _ =>
    let beats := s.nodes .choice items
    if (place = .narrative ∨ place = .config) ∧ beats ≠ [] then
      [{ s.leafNode .choice none guard span with body := s.excerpt extent, children := beats }]
    else []
  | .block (.option _ _ _) _ _ _ _ => []

def nodes (s : Source) (place : Place) : List Statement → List Node
  | [] => []
  | item :: rest => s.nodeOf place item ++ s.nodes place rest

end

/-! ## The whole -/

/-- The text of a metadata value: of a string its text, of anything else what was written. -/
def metadataText (s : Source) : Option (Located MetadataValue) → String
  | some ⟨.string text, _⟩ => text
  | some ⟨_, span⟩ => s.excerpt span
  | none => ""

def metadata (s : Source) (fence : Option MetadataFence) : Dictionary String :=
  match fence with
  | none => .empty
  | some f => .ofList (f.entries.map fun e => (e.key.node, s.metadataText e.value))

/-- The script that a document of this source stands for. -/
def script (s : Source) (d : Document) : Script where
  metadata := s.metadata d.metadata
  nodes := s.nodes .topLevel d.statements
  range := s.index.fullRange

end Source

end BranchingStory
