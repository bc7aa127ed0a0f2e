import BranchingStory.Script.Structure

/-! # What can go wrong with a session

A session can fail to start, to be restored and to follow a choice. Every error is a cause; its words,
its code and the advice that goes with it are read off. -/

namespace BranchingStory
set_option autoImplicit false

/-- Why a script or a stored session cannot be played at all. -/
inductive RuntimeFault where
  | malformed (fault : StructureFault)
  /-- The first beat of the starting scene is not among the beats. -/
  | notIndexed (id : String)
  | unreadable
  | currentOutside (current count : Nat)
  | entryOutside (id : String) (count : Nat)

inductive SessionError where
  | invalidRuntime (fault : RuntimeFault)
  | missingStory
  | noScenes
  | startingSceneNotFound (id : String)
  | sceneHasNoBeats (id : String)
  | alreadyEnded
  /-- No option has this name; `available` lists those there are, each once. -/
  | unknownChoice (choice beat : String) (available : List String)
  | unknownTarget (label beat target : String)
  | missingTarget (label beat : String)

def RuntimeFault.message : RuntimeFault → String
  | .malformed fault => fault.message
  | .notIndexed id => "beat \"" ++ id ++ "\" is not indexed"
  | .unreadable => "unreadable session"
  | .currentOutside current count =>
    "current beat " ++ toString current ++ " is outside the " ++ toString count ++ " known beats"
  | .entryOutside id count =>
    "beat \"" ++ id ++ "\" points outside the " ++ toString count ++ " known beats"

namespace SessionError

def message : SessionError → String
  | .invalidRuntime fault => "Invalid runtime: " ++ fault.message ++ "."
  | .missingStory => "Runtime does not contain a story declaration."
  | .noScenes => "Story does not declare any scenes."
  | .startingSceneNotFound id => "Starting scene \"" ++ id ++ "\" does not exist."
  | .sceneHasNoBeats id => "Scene \"" ++ id ++ "\" does not contain any beats."
  | .alreadyEnded => "Cannot choose after the story has ended."
  | .unknownChoice _ beat [] => "Beat \"" ++ beat ++ "\" does not have any choices."
  | .unknownChoice choice _ available =>
    "Choice \"" ++ choice ++ "\" is not available. Expected one of: " ++
      ", ".intercalate available ++ "."
  | .unknownTarget label beat target =>
    "Choice \"" ++ label ++ "\" from beat \"" ++ beat ++ "\" targets unknown beat \"" ++ target ++ "\"."
  | .missingTarget label beat =>
    "Choice \"" ++ label ++ "\" from beat \"" ++ beat ++ "\" does not specify a target beat."

def label : SessionError → String
  | .invalidRuntime _ => "invalid_runtime"
  | .missingStory => "missing_story"
  | .noScenes => "no_scenes"
  | .startingSceneNotFound _ => "starting_scene_not_found"
  | .sceneHasNoBeats _ => "scene_has_no_beats"
  | .alreadyEnded => "already_ended"
  | .unknownChoice _ _ _ => "unknown_choice"
  | .unknownTarget _ _ _ => "unknown_target"
  | .missingTarget _ _ => "missing_target"

def code (e : SessionError) : String := "skr::session::" ++ e.label

def help? : SessionError → Option String
  | .missingStory => some "declare `story <id>:` at the top level"
  | .noScenes => some "add a `scene <id>:` block under the story"
  | .sceneHasNoBeats _ => some "add a `beat <id>:` block to the scene"
  | .missingTarget _ _ => some "add `goto <beat>` or an indented body to the option"
  | _ => none

def describe (e : SessionError) : String :=
  match e.help? with
  | some help => e.message ++ "\n  help: " ++ help
  | none => e.message

end SessionError

end BranchingStory
