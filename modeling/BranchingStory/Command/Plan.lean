import BranchingStory.Command
import BranchingStory.Command.FileName
import BranchingStory.Command.Outcome
import BranchingStory.Play.Console
import BranchingStory.Play.Transcript
import BranchingStory.Script.Json
import BranchingStory.Script.Outline
import BranchingStory.Starter

/-! # Plans

A command looks at one file at most. From what it found there follows its plan: to stop with an
outcome, to write a file, or to talk with the player. -/

namespace BranchingStory
set_option autoImplicit false

/-- What a command does in the end. -/
inductive Plan where
  | finish (outcome : Outcome)
  /-- To write a file; if that fails, the outcome depends on what the system says about it. -/
  | write (path content : String) (written : Outcome) (failed : String → Outcome)
  /-- To show what there is so far and go on with the player. -/
  | converse (outcome : Outcome) (console : Console)

/-- The files that a command may look at. -/
structure Files where
  /-- The text of the file at a path, or what the system says about why it cannot be read. -/
  read : String → Except String String
  holds : String → Bool

/-- How a script is called: by its story, by its metadata, or by the file it came from. -/
def Script.title (s : Script) (file : String) : String :=
  ((s.story?.map (·.id)).or (s.metadata.find? "id")).getD (FileName.stem file)

def Script.countOf (s : Script) (kind : NodeKind) : Nat := (s.walk.filter (·.node.kind == kind)).length

namespace Command

def number : String := "0.1.0"

def reads? : Command → Option String
  | .check file | .build file _ | .outline file | .play file _ _ => some file
  | .new _ _ | .version _ => none

def target (id : String) (output : Option String) : String := output.getD (id ++ ".skr")

/-- The file that must not be there yet. -/
def creates? : Command → Option String
  | .new id output => some (target (Text.trimString id) output)
  | _ => none

/-- The script that a source spells, and what there is to say about it; only the latter if there are
errors. -/
def examine (file content : String) : Outcome × Option Script :=
  let source := Source.ofString content
  let a := source.analyse Token.defaultTabWidth
  let o := Outcome.ofAnalysis source file a
  if a.hasErrors then (o.fail "script has errors", none) else (o, some a.script)

/-- The script that a file holds, built or to be built. -/
def open? (file content : String) : Outcome × Option Script :=
  if FileName.isBuilt file then
    match Script.load? content with
    | some script => ({}, some script)
    | none => (({} : Outcome).fail "invalid script JSON", none)
  else examine file content

def checked (file : String) (s : Script) : String :=
  "  All checks passed for '" ++ s.title file ++ "'.\n  " ++ toString (s.countOf .story) ++
    " stories, " ++ toString (s.countOf .scene) ++ " scenes, " ++ toString (s.countOf .beat) ++
    " beats\n"

def outlined (s : Script) : String :=
  if s.nodes.isEmpty then "  No declarations found.\n"
  else s.outline.render ++ "\n  " ++ toString s.walk.length ++ " nodes\n"

def welcome (id target : String) : String :=
  "Created story '" ++ id ++ "' in " ++ target ++ "\n\nGet started:\n" ++
    "  skr check " ++ target ++ "   # Report problems\n" ++
    "  skr outline " ++ target ++ " # Show scenes and beats\n" ++
    "  skr play " ++ target ++ "    # Play it\n"

def writing (o : Outcome) (path content shown : String) : Plan :=
  .write path content (o.more shown) fun reason => o.fail ("cannot write " ++ path ++ ": " ++ reason)

def playing (painted : Bool) (o : Outcome) (s : Script) (scene : Option String) (choices : List String) :
    Plan :=
  let scene := scene.bind Opening.scene?
  match Session.start s scene with
  | .error e => .finish (o.fail e.describe)
  | .ok session =>
    if choices.isEmpty then .converse o (.ofSession s scene session)
    else
      let (text, error) := session.transcript painted choices
      let o := o.more text
      .finish ((error.map fun e => o.fail e.message).getD o)

def starting (id : String) (output : Option String) (files : Files) : Plan :=
  let id := Text.trimString id
  let path := target id output
  if id = "" then .finish (({} : Outcome).fail "story id must not be empty")
  else if files.holds path then .finish (({} : Outcome).fail ("'" ++ path ++ "' already exists"))
  else writing {} path (Starter.text id) (welcome id path)

/-- The plan that follows from the script of a file; without a script the outcome is final. -/
def onScript (files : Files) (file : String) (script? : String → Outcome × Option Script)
    (plan : Outcome → Script → Plan) : Plan :=
  match files.read file with
  | .error reason => .finish (({} : Outcome).fail ("cannot read " ++ file ++ ": " ++ reason))
  | .ok content =>
    match script? content with
    | (o, some s) => plan o s
    | (o, none) => .finish o

/-- The plan of a command; `painted` tells whether the player sees colours. -/
def plan (painted : Bool) (files : Files) : Command → Plan
  | .check file => onScript files file (examine file) fun o s => .finish (o.more (checked file s))
  | .outline file => onScript files file (examine file) fun o s => .finish (o.more (outlined s))
  | .build file none => onScript files file (examine file) fun o s => .finish (o.more (s.store ++ "\n"))
  | .build file (some path) => onScript files file (examine file) fun o s =>
    writing o path (s.store ++ "\n") ("  Built '" ++ s.title file ++ "' to " ++ path ++ "\n")
  | .play file scene choices => onScript files file (open? file) fun o s =>
    playing painted o s scene choices
  | .new id output => starting id output files
  | .version name => .finish { shown := name ++ " " ++ number ++ "\n" }

end Command

end BranchingStory
