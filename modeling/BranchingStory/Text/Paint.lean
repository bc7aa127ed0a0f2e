/-! # Painted text

Text for a terminal, with or without its escape codes. -/

namespace BranchingStory.Text
set_option autoImplicit false

inductive Paint where
  | bold | dimmed | yellow
deriving DecidableEq, Repr

namespace Paint

def code : Paint → String
  | .bold => "\x1b[1m"
  | .dimmed => "\x1b[2m"
  | .yellow => "\x1b[33m"

def reset : String := "\x1b[0m"

/-- The text with the code behind every place where the text itself switches the paint off. -/
def resume (code : List Char) : List Char → List Char
  | [] => []
  | '\x1b' :: '[' :: '0' :: 'm' :: rest => reset.toList ++ code ++ resume code rest
  | c :: rest => c :: resume code rest

/-- The text in a paint, if paint is wanted. -/
def apply (p : Paint) (wanted : Bool) (text : String) : String :=
  if wanted then p.code ++ String.ofList (resume p.code.toList text.toList) ++ reset else text

/-- Is paint wanted, given what the environment says and whether a terminal shows the text? A demand
for colours comes first, then a ban on them. -/
def isWanted (force ban colours : Option String) (terminal : Bool) : Bool :=
  match force with
  | some "0" | none => if ban.isSome then false else terminal && colours != some "0"
  | some _ => true

end Paint

end BranchingStory.Text
