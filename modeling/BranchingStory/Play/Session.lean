import BranchingStory.Play.Beat
import BranchingStory.Play.Opening

/-! # Sessions

A session plays a script: it knows the beats, where the beats that can be targets stand among them,
and which beat the player is at. Following an option that has a body of its own adds that body as an
inline beat, or puts it in place of the inline beat that has its name already. A choice that fails
has no session as its result, so it leaves nothing changed. -/

namespace BranchingStory
set_option autoImplicit false

structure Session where
  /-- The declared beats in order, and behind them the inline ones. -/
  beats : List Beat
  /-- Where the beat of a name stands; of beats that share a name, the last one. -/
  index : Dictionary Nat
  current : Nat
  ended : Bool
  current_lt : current < beats.length
  index_lt : ∀ e ∈ index.entries, e.2 < beats.length
deriving DecidableEq

def Script.declaredBeats (s : Script) : List Node :=
  (s.walk.map (·.node)).filter (·.kind == .beat)

namespace Session

def beat (s : Session) : Beat := s.beats.get ⟨s.current, s.current_lt⟩

def text (s : Session) : String := s.beat.text

/-- The options that are offered; none once the story has ended. -/
def offers (s : Session) : List Offer := if s.ended then [] else s.beat.offers

/-! ## Starting -/

/-- Where the beats of these names stand; of a repeated name the last place counts. -/
def places (names : List String) : Dictionary Nat := .ofList names.zipIdx

theorem lt_of_mem_places {names : List String} {e : String × Nat} (h : e ∈ (places names).entries) :
    e.2 < names.length := by
  have hmem : (e.1, e.2) ∈ names.zipIdx := Dictionary.mem_ofList h
  have hlt := (List.mem_zipIdx hmem).2.1
  omega

/-- The session of these beats that begins with one of them, the first with the name and the range of
the given node. -/
def begin? (declared : List Node) (first : Node) : Option Session :=
  match h : declared.findIdx? fun n => n.id == first.id && n.range == first.range with
  | none => none
  | some current =>
    have hlt : current < declared.length := (List.findIdx?_eq_some_iff_getElem.mp h).1
    some {
      beats := declared.map .ofNode
      index := places (declared.map (·.id))
      current
      ended := (Beat.ofNode declared[current]).isLast
      current_lt := by simpa using hlt
      index_lt := fun e he => by simpa using lt_of_mem_places he }

def start (script : Script) (asked : Option String) : Except SessionError Session :=
  match script.fault?, script.story? with
  | some fault, _ => .error (.invalidRuntime (.malformed fault))
  | none, none => .error .missingStory
  | none, some story =>
    match story.openingScene asked with
    | .error e => .error e
    | .ok scene =>
      match (scene.childrenOf .beat).head? with
      | none => .error (.sceneHasNoBeats scene.id)
      | some first =>
        match begin? script.declaredBeats first with
        | none => .error (.invalidRuntime (.notIndexed first.id))
        | some session => .ok session

/-! ## Choosing -/

def goTo (s : Session) (place : Nat) (h : place < s.beats.length) : Session :=
  { s with current := place, ended := (s.beats.get ⟨place, h⟩).isLast, current_lt := h }

/-- The session at an inline beat, which takes the place of the inline beat with its name. -/
def enter (s : Session) (b : Beat) : Session :=
  match h : s.beats.findIdx? fun known => known.inline && known.id == b.id with
  | some place =>
    { s with
      beats := s.beats.set place b
      current := place
      ended := b.isLast
      current_lt := by simpa using (List.findIdx?_eq_some_iff_getElem.mp h).1
      index_lt := by simpa using s.index_lt }
  | none =>
    { s with
      beats := s.beats ++ [b]
      current := s.beats.length
      ended := b.isLast
      current_lt := by simp
      index_lt := fun e he => by
        have := s.index_lt e he
        simp
        omega }

def follow (s : Session) (id : String) (c : Choice) : Except SessionError Session :=
  match c.explicitTarget? with
  | some target =>
    match h : s.index.find? target with
    | some place => .ok (s.goTo place (s.index_lt _ (Dictionary.mem_of_find? h)))
    | none => .error (.unknownTarget c.label s.beat.id target)
  | none =>
    if c.hasBody then .ok (s.enter (.ofChoice (s.beat.inlineId id) c))
    else .error (.missingTarget c.label s.beat.id)

/-- The session behind the option of a name; of options that share the name, the last one. -/
def choose (s : Session) (id : String) : Except SessionError Session :=
  if s.ended then .error .alreadyEnded
  else
    match s.beat.options.reverse.find? (·.1 == id) with
    | some (id, c) => s.follow id c
    | none => .error (.unknownChoice id s.beat.id (s.beat.options.map (·.1)).eraseDups)

end Session

end BranchingStory
