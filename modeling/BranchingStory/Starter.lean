import BranchingStory.Text.Blank

/-! # The starter

The text that a new story begins with. It is a story already: two beats of one scene, and a choice
between them. -/

namespace BranchingStory.Starter
set_option autoImplicit false

def quoted (id : String) : String :=
  String.ofList (id.toList.flatMap fun c => if c = '\\' ∨ c = '"' then ['\\', c] else [c])

/-- The identifier of a story: letters and digits stay, all else becomes an underscore, and a digit
does not come first. -/
def identifier (id : String) : String :=
  let name := id.toList.map fun c => if c.isAlphanum then c else '_'
  String.ofList (if name.head?.any Char.isDigit then '_' :: name else name)

def lines (id : String) : List String :=
  [":::meta",
    "id: \"" ++ quoted id ++ "\"",
    "locale: \"en-US\"",
    "version: 1",
    ":::",
    "",
    "story " ++ identifier id ++ ":",
    "  config:",
    "    starting_scene = opening",
    "",
    "  scene opening:",
    "    beat arrival:",
    "      say narrator \"Welcome to your new Skroll project.\"",
    "      stage \"Add beats, scenes, and choices to craft your branching narrative.\"",
    "      choice:",
    "        option \"Continue\" goto next_step",
    "",
    "    beat next_step:",
    "      say narrator \"Edit this script to begin your story.\"",
    "      end"]

def text (id : String) : String := String.join ((lines id).map (· ++ "\n"))

end BranchingStory.Starter
