import BranchingStory.Play.Page
import BranchingStory.Play.Pick

/-! # The console

Play line by line. Each line is an order: an option, a step back, a fresh start or the end. A choice
that was made can be taken back, as often as there are choices; a line that leads nowhere changes
nothing. -/

namespace BranchingStory
set_option autoImplicit false
open Text (Paint)

structure Console where
  script : Script
  scene : Option String
  session : Session
  /-- The sessions before each choice that was made, the latest first. -/
  history : List Session

inductive Order where
  | nothing | quit | undo | restart
  | pick (input : String)
deriving DecidableEq, Repr

/-- What comes of a line: text and play that goes on, the end, or a story that does not start again. -/
inductive Response where
  | next (text : String) (console : Console)
  | quit
  | failed (error : SessionError)

/-- What a line asks for. The words of the console are taken in any case. -/
def Order.ofLine (line : String) : Order :=
  let input := Text.trimString line
  let word := Text.lowerString input
  if input = "" then .nothing
  else if word = "quit" ∨ word = "q" then .quit
  else if word = "undo" then .undo
  else if word = "restart" then .restart
  else .pick input

namespace Console

def banner : String :=
  "  Type a number, id or label to choose.\n  Commands: 'undo', 'restart', 'quit'.\n\n"

def prompt : String := "> "

def remark (painted : Bool) (text : String) : String := Paint.yellow.apply painted text ++ "\n\n"

def noMatch (s : Session) (input : String) : String :=
  if s.ended then "The story has ended. Try 'undo' or 'restart'."
  else "No choice matches \"" ++ input ++ "\"."

def ofSession (script : Script) (scene : Option String) (session : Session) : Console :=
  ⟨script, scene, session, []⟩

def pick (painted : Bool) (c : Console) (input : String) : Response :=
  match Offer.pick? c.session.offers input with
  | none => .next (remark painted (noMatch c.session input)) c
  | some o =>
    match c.session.choose o.id with
    | .error e => .next (remark painted e.describe) c
    | .ok session =>
      .next (session.page painted) { c with session, history := c.session :: c.history }

def obey (painted : Bool) (c : Console) : Order → Response
  | .nothing => .next "" c
  | .quit => .quit
  | .undo =>
    match c.history with
    | [] => .next (remark painted "Nothing to undo.") c
    | session :: history => .next (session.page painted) { c with session, history }
  | .restart =>
    match Session.start c.script c.scene with
    | .error e => .failed e
    | .ok session => .next (session.page painted) { c with session, history := [] }
  | .pick input => c.pick painted input

def answer (painted : Bool) (c : Console) (line : String) : Response := c.obey painted (.ofLine line)

/-- What is shown while the lines are read, and the error if the story does not start again. -/
def converse (painted : Bool) (c : Console) : List String → String × Option SessionError
  | [] => (prompt, none)
  | line :: rest =>
    match c.answer painted line with
    | .quit => (prompt, none)
    | .failed e => (prompt, some e)
    | .next text next =>
      let (later, error) := next.converse painted rest
      (prompt ++ text ++ later, error)

def run (painted : Bool) (c : Console) (lines : List String) : String × Option SessionError :=
  let (text, error) := c.converse painted lines
  (banner ++ c.session.page painted ++ text, error)

end Console

end BranchingStory
