import BranchingStory.Command.Plan

/-! # The program

Reads the command line, the file that the command looks at and the lines of the player, and writes
what comes of them. -/

namespace BranchingStory.Main
set_option autoImplicit false

/-- The system's words for a failure and its number, which some calls give as a negative one. -/
def worded (code : UInt32) (details : String) : String :=
  let number := min code.toNat (0 - code).toNat
  details.capitalize ++ " (os error " ++ toString number ++ ")"

def reason : IO.Error → String
  | .noFileOrDirectory _ code details | .resourceExhausted _ code details
  | .permissionDenied _ code details | .inappropriateType _ code details
  | .alreadyExists _ code details | .invalidArgument _ code details => worded code details
  | e => toString e

def attempt {α : Type} (action : IO α) : IO (Except String α) := do
  try return .ok (← action) catch e => return .error (reason e)

def report (o : Outcome) : IO UInt32 := do
  IO.print o.shown
  IO.eprint (o.pictures ++ o.remarks)
  return UInt32.ofNat o.code

/-- Goes on with the player until there are no more lines or the console ends. -/
partial def converse (painted : Bool) (input : IO.FS.Stream) (c : Console) : IO UInt32 := do
  IO.print Console.prompt
  (← IO.getStdout).flush
  let line ← input.getLine
  if line.isEmpty then return 0
  match c.answer painted line with
  | .quit => return 0
  | .failed e => report (({} : Outcome).fail e.describe)
  | .next text next =>
    IO.print text
    converse painted input next

def carryOut (painted : Bool) : Plan → IO UInt32
  | .finish o => report o
  | .write path content written failed => do
    match ← attempt (IO.FS.writeFile path content) with
    | .ok _ => report written
    | .error e => report (failed e)
  | .converse o c => do
    discard (report o)
    IO.print (Console.banner ++ c.session.page painted)
    converse painted (← IO.getStdin) c

def run (c : Command) : IO UInt32 := do
  let terminal ← (← IO.getStdout).isTty
  let painted := Text.Paint.isWanted (← IO.getEnv "CLICOLOR_FORCE") (← IO.getEnv "NO_COLOR")
    (← IO.getEnv "CLICOLOR") terminal
  let content ← match c.reads? with
    | some file => attempt (IO.FS.readFile file)
    | none => pure (.error "")
  let taken ← match c.creates? with
    | some file => (·.toBool) <$> attempt (IO.FS.Handle.mk file .read)
    | none => pure false
  carryOut painted (c.plan painted ⟨fun _ => content, fun _ => taken⟩)

end BranchingStory.Main

def main (arguments : List String) : IO UInt32 :=
  match BranchingStory.Command.ofArguments? arguments with
  | some c => BranchingStory.Main.run c
  | none => do
    IO.eprint BranchingStory.Command.usage
    return 2
