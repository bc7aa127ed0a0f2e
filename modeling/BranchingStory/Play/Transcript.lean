import BranchingStory.Play.Page
import BranchingStory.Play.Pick

/-! # Transcripts

A session that is played by a list of choices made beforehand, up to the first that cannot be made. -/

namespace BranchingStory
set_option autoImplicit false
open Text (Paint)

/-- Why a list of choices breaks off. -/
inductive TranscriptError where
  | noMatch (input : String)
  | refused (error : SessionError)

def TranscriptError.message : TranscriptError → String
  | .noMatch input => "no choice matches \"" ++ input ++ "\""
  | .refused error => error.describe

namespace Session

/-- The pages behind the choices, and what went wrong if they break off. -/
def follows (painted : Bool) (s : Session) : List String → String × Option TranscriptError
  | [] => ("", none)
  | input :: rest =>
    match Offer.pick? s.offers input with
    | none => ("", some (.noMatch input))
    | some o =>
      let chosen := Paint.bold.apply painted ">" ++ " " ++ o.label ++ "\n\n"
      match s.choose o.id with
      | .error e => (chosen, some (.refused e))
      | .ok next =>
        let (text, error) := next.follows painted rest
        (chosen ++ next.page painted ++ text, error)

def transcript (painted : Bool) (s : Session) (inputs : List String) : String × Option TranscriptError :=
  let (text, error) := s.follows painted inputs
  (s.page painted ++ text, error)

end Session

end BranchingStory
