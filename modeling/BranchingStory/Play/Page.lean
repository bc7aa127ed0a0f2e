import BranchingStory.Play.Session
import BranchingStory.Text.Paint

/-! # Pages

What the player gets to see of a session: the name of the beat, its text, and the options below it. -/

namespace BranchingStory
set_option autoImplicit false
open Text (Paint)

def Offer.line (painted : Bool) (number : Nat) (o : Offer) : String :=
  let guard := match o.guard with
    | some text => " " ++ Paint.dimmed.apply painted ("(when " ++ text ++ ")")
    | none => ""
  "  " ++ toString number ++ ". " ++ o.label ++ guard ++ "\n"

def Session.page (painted : Bool) (s : Session) : String :=
  let title := Paint.dimmed.apply painted ("[" ++ s.beat.id ++ "]") ++ "\n"
  let body := if s.text = "" then "" else s.text ++ "\n"
  let foot :=
    if s.ended then "  " ++ Paint.bold.apply painted "The End" ++ "\n"
    else String.join ((s.offers.zipIdx 1).map fun (o, number) => o.line painted number)
  title ++ body ++ "\n" ++ foot ++ "\n"

end BranchingStory
