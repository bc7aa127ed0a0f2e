import BranchingStory.Play.Error
import BranchingStory.Script.Walk

/-! # Where a story opens

A session opens with the first beat of a scene. Which scene that is can be asked for, or be set in a
configuration block of the story; otherwise it is the first one. -/

namespace BranchingStory
set_option autoImplicit false

namespace Opening

/-- The name of a scene that is asked for; a blank one asks for none. -/
def scene? (asked : String) : Option String :=
  let name := Text.trimString asked
  if name = "" then none else some name

def unquoted? (quote : Char) (text : List Char) : Option (List Char) := do
  [quote].isSuffixOf? (← [quote].isPrefixOf? text)

/-- The scene that a line of a configuration block sets: `starting_scene`, an equals sign, and a name
that may be quoted. -/
def lineScene? (line : List Char) : Option String := do
  let setting ← "starting_scene".toList.isPrefixOf? (Text.trim line)
  let value := Text.trim (← ['='].isPrefixOf? (Text.trim setting))
  let name := ((unquoted? '"' value).or (unquoted? '\'' value)).getD value
  scene? (String.ofList name)

def configured? (story : Node) : Option String :=
  (story.childrenOf .config).findSome? fun config =>
    (config.body.toList.splitOn '\n').findSome? lineScene?

end Opening

/-- The scene with which a story opens: the one of the wanted name, or the first one. -/
def Node.openingScene (story : Node) (asked : Option String) : Except SessionError Node :=
  match story.childrenOf .scene with
  | [] => .error .noScenes
  | first :: others =>
    match asked.or (Opening.configured? story) with
    | none => .ok first
    | some id =>
      match (first :: others).find? (·.id == id) with
      | some scene => .ok scene
      | none => .error (.startingSceneNotFound id)

end BranchingStory
