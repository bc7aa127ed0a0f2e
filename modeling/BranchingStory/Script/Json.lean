import BranchingStory.Json.Print
import BranchingStory.Json.Read
import BranchingStory.Script
import BranchingStory.Source.PositionJson

/-! # Scripts in JSON

The stored form of a script. Guards, targets and payloads that are absent are left out when it is
written; when it is read, lists and bodies may be left out as well. -/

namespace BranchingStory
set_option autoImplicit false
open Json

/-! ## Actions -/

namespace Action

def parts : Deed → String × List (String × Option Json)
  | .say speaker text => ("say", [("speaker", some (.string speaker)), ("text", some (.string text))])
  | .stage text => ("stage", [("text", some (.string text))])
  | .set state value => ("set", [("state", some (.string state)), ("value", some (.string value))])
  | .emit event payload => ("emit", [("event", some (.string event)), ("payload", payload.map .string)])
  | .goto target => ("goto", [("target", some (.string target))])
  | .finish => ("end", [])
  | .giveBack => ("return", [])
  | .assignment name value =>
    ("assignment", [("name", some (.string name)), ("value", some (.string value))])

def toJson (a : Action) : Json :=
  let (tag, fields) := parts a.deed
  objectOf (("type", some (.string tag)) :: fields ++ [("range", some a.range.toJson)])

/-- The tag of an action and the value that holds its fields. An array begins with the tag. -/
def tagged? : Json → Option (String × Json)
  | .object fields => do
    let some (.string tag) ← field? fields "type" | none
    return (tag, .object fields)
  | .array (.string tag :: items) => some (tag, .array items)
  | _ => none

def deed? (tag : String) (j : Json) : Option (Deed × Json) :=
  match tag with
  | "say" => do
    let [some speaker, some text, some range] ← record? ["speaker", "text", "range"] j | none
    return (.say (← string? speaker) (← string? text), range)
  | "stage" => do
    let [some text, some range] ← record? ["text", "range"] j | none
    return (.stage (← string? text), range)
  | "set" => do
    let [some state, some value, some range] ← record? ["state", "value", "range"] j | none
    return (.set (← string? state) (← string? value), range)
  | "emit" => do
    let [some event, payload, some range] ← record? ["event", "payload", "range"] j | none
    return (.emit (← string? event) (← optional? string? payload), range)
  | "goto" => do
    let [some target, some range] ← record? ["target", "range"] j | none
    return (.goto (← string? target), range)
  | "end" => do
    let [some range] ← record? ["range"] j | none
    return (.finish, range)
  | "return" => do
    let [some range] ← record? ["range"] j | none
    return (.giveBack, range)
  | "assignment" => do
    let [some name, some value, some range] ← record? ["name", "value", "range"] j | none
    return (.assignment (← string? name) (← string? value), range)
  | _ => none

/-- The action that a value spells. All of the value has to fit the budget and to be held, fields that
are passed over included, since the tag may come last. -/
def ofJson? (budget : Nat) (j : Json) : Option Action := do
  if budget < j.depth ∨ ¬ j.held then none
  let (tag, fields) ← tagged? j
  let (deed, range) ← deed? tag fields
  return ⟨deed, ← Range.ofJson? budget range⟩

end Action

/-! ## Choices -/

namespace Choice

mutual

def toJson : Choice → Json
  | ⟨label, target, guard, actions, choices, range⟩ =>
    objectOf [("label", some (.string label)), ("target", target.map .string),
      ("when", guard.map .string), ("actions", some (.array (actions.map (·.toJson)))),
      ("choices", some (.array (listToJson choices))), ("range", some range.toJson)]

def listToJson : List Choice → List Json
  | [] => []
  | c :: rest => c.toJson :: listToJson rest

end

mutual

def ofJson? : Nat → Json → Option Choice
  | 0, _ => none
  | budget + 1, j => do
    let [some label, target, guard, actions, choices, some range] ←
      record? ["label", "target", "when", "actions", "choices", "range"] j | none
    return {
      label := ← string? label
      target := ← optional? string? target
      guard := ← optional? string? guard
      actions := ← defaulted? [] (listOf? budget Action.ofJson?) actions
      choices := ← defaulted? [] (listOfJson? budget) choices
      range := ← Range.ofJson? budget range }

def listOfJson? : Nat → Json → Option (List Choice)
  | budget + 1, .array items => items.mapM (ofJson? budget)
  | _, _ => none

end

end Choice

/-! ## Nodes -/

namespace NodeKind

def tag : NodeKind → String
  | .story => "story"
  | .scene => "scene"
  | .beat => "beat"
  | .choice => "choice"
  | .config => "config"
  | .unknown => "unknown"

def ofTag? (tag : String) : Option NodeKind :=
  [.story, .scene, .beat, .choice, .config, .unknown].find? fun kind => kind.tag == tag

end NodeKind

namespace Node

mutual

def toJson : Node → Json
  | ⟨id, kind, guard, body, actions, children, choices, range⟩ =>
    objectOf [("id", some (.string id)), ("kind", some (.string kind.tag)),
      ("when", guard.map .string), ("body", some (.string body)),
      ("actions", some (.array (actions.map (·.toJson)))),
      ("children", some (.array (listToJson children))),
      ("choices", some (.array (Choice.listToJson choices))), ("range", some range.toJson)]

def listToJson : List Node → List Json
  | [] => []
  | n :: rest => n.toJson :: listToJson rest

end

mutual

def ofJson? : Nat → Json → Option Node
  | 0, _ => none
  | budget + 1, j => do
    let [some id, some kind, guard, body, actions, children, choices, some range] ←
      record? ["id", "kind", "when", "body", "actions", "children", "choices", "range"] j | none
    return {
      id := ← string? id
      kind := ← choice? budget NodeKind.ofTag? kind
      guard := ← optional? string? guard
      body := ← defaulted? "" string? body
      actions := ← defaulted? [] (listOf? budget Action.ofJson?) actions
      children := ← defaulted? [] (listOfJson? budget) children
      choices := ← defaulted? [] (listOf? budget Choice.ofJson?) choices
      range := ← Range.ofJson? budget range }

def listOfJson? : Nat → Json → Option (List Node)
  | budget + 1, .array items => items.mapM (ofJson? budget)
  | _, _ => none

end

end Node

/-! ## Scripts -/

namespace Script

def toJson (s : Script) : Json :=
  .object [("type", .string "Script"),
    ("metadata", .object (s.metadata.entries.map fun (key, text) => (key, .string text))),
    ("nodes", .array (Node.listToJson s.nodes)), ("range", s.range.toJson)]

def ofJson? : Nat → Json → Option Script
  | 0, _ => none
  | budget + 1, j => do
    let [metadata, nodes, some range] ← record? ["metadata", "nodes", "range"] j | none
    return {
      metadata := ← defaulted? .empty (dictionaryOf? budget string?) metadata
      nodes := ← defaulted? [] (listOf? budget Node.ofJson?) nodes
      range := ← Range.ofJson? budget range }

def store (s : Script) : String := String.ofList s.toJson.print

def load? (text : String) : Option Script := do ofJson? Json.maxDepth (← Json.parse? text.toList)

end Script

end BranchingStory
