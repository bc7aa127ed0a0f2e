import BranchingStory.Proofs.Play.Picking
import Mathlib.Data.List.Induction
import Mathlib.Data.List.Nodup

/-! # Playing in place

A board holds a session as a machine does: one list of beats that is written over, and places that nothing keeps
inside it. An access outside the list stops the machine, and what was written before a failure stays written. Played
on the board of a session, whether it was started or loaded, choices never reach outside, and a choice that fails has
written nothing. How a choice is answered depends on the end of the story, on the names of the options, and on the
last option of the name that is given, in this order. -/

namespace BranchingStory
set_option autoImplicit false

/-- A session as it lies in memory. -/
structure Board where
  beats : List Beat
  index : Dictionary Nat
  current : Nat
  ended : Bool
deriving DecidableEq

def Session.board (s : Session) : Board := ⟨s.beats, s.index, s.current, s.ended⟩

namespace Board

/-- Why a procedure stops before its end. -/
inductive Halt where
  /-- There is no beat at the place. -/
  | outside (place : Nat)
  | refused (e : SessionError)

/-- A procedure that works on the board. It does not take back what it has written when it stops. -/
abbrev Procedure := EStateM Halt Board

def beatAt (place : Nat) : Procedure Beat := do
  match (← get).beats[place]? with
  | some b => return b
  | none => throw (.outside place)

def write (place : Nat) (b : Beat) : Procedure Unit := do
  if place < (← get).beats.length then modify fun board => { board with beats := board.beats.set place b }
  else throw (.outside place)

/-- Puts an inline beat in place of the one with its name, or behind all others. -/
def insertInline (b : Beat) : Procedure Nat := do
  match (← get).beats.findIdx? fun known => known.inline && known.id == b.id with
  | some place =>
    write place b
    return place
  | none =>
    modify fun board => { board with beats := board.beats ++ [b] }
    return (← get).beats.length - 1

/-- Where the option of the name leads that belongs to the beat. -/
def next (b : Beat) (id : String) (c : Choice) : Procedure Nat := do
  match c.explicitTarget? with
  | some target =>
    match (← get).index.find? target with
    | some place => return place
    | none => throw (.refused (.unknownTarget c.label b.id target))
  | none =>
    if c.hasBody then insertInline (.ofChoice (b.inlineId id) c)
    else throw (.refused (.missingTarget c.label b.id))

/-- The beat that is gone to is read twice, once to tell of it and once for whether the story ends there. -/
def goTo (place : Nat) : Procedure Unit := do
  let _ ← beatAt place
  modify fun board => { board with current := place }
  let b ← beatAt (← get).current
  modify fun board => { board with ended := b.isLast }

def choose (id : String) : Procedure Unit := do
  if (← get).ended then throw (.refused .alreadyEnded)
  let b ← beatAt (← get).current
  match b.options.reverse.find? (·.1 == id) with
  | some (id, c) => goTo (← next b id c)
  | none => throw (.refused (.unknownChoice id b.id (b.options.map (·.1)).eraseDups))

/-- The board after choices that are made one after the other, those that are refused included. There is none if one
of them reaches outside. -/
def play (board : Board) : List String → Option Board
  | [] => some board
  | id :: rest =>
    match (choose id).run board with
    | .ok () after => after.play rest
    | .error (.refused _) after => after.play rest
    | .error (.outside _) _ => none

/-! ## What the procedures do -/

variable {board : Board} {b : Beat} {place : Nat}

theorem run_beatAt (h : board.beats[place]? = some b) : (beatAt place).run board = .ok b board := by
  simp only [beatAt, EStateM.run_bind, EStateM.run_get, h, EStateM.run_pure]

theorem run_write (h : place < board.beats.length) (b : Beat) :
    (write place b).run board = .ok () { board with beats := board.beats.set place b } := by
  simp only [write, EStateM.run_bind, EStateM.run_get, h, if_true, EStateM.run_modify]

theorem run_goTo (h : board.beats[place]? = some b) :
    (goTo place).run board = .ok () { board with current := place, ended := b.isLast } := by
  simp only [goTo, EStateM.run_bind, run_beatAt h, EStateM.run_modify, EStateM.run_get]
  rw [@run_beatAt { board with current := place } b place h]

end Board

namespace Session
variable {s : Session} {id : String} {c : Choice}

/-- A board is that of a session exactly if all its places lie inside. -/
theorem exists_board_eq_iff (board : Board) : (∃ s : Session, s.board = board) ↔
    board.current < board.beats.length ∧ ∀ e ∈ board.index.entries, e.2 < board.beats.length := by
  constructor
  · rintro ⟨s, rfl⟩
    exact ⟨s.current_lt, s.index_lt⟩
  · rintro ⟨hcurrent, hindex⟩
    exact ⟨⟨board.beats, board.index, board.current, board.ended, hcurrent, hindex⟩, rfl⟩

/-- What is stored is checked only for its places: any board of a session can be loaded, and no other one. -/
theorem ofParts_eq_ok_iff (board : Board) :
    ofParts board.beats board.index board.current board.ended = .ok s ↔ s.board = board := by
  constructor
  · intro h
    rw [ofParts] at h
    split at h
    · split at h
      · exact absurd h (by simp)
      · obtain rfl := Except.ok.inj h
        rfl
    · exact absurd h (by simp)
  · rintro rfl
    exact s.ofParts_self

theorem getElem?_current (s : Session) : s.board.beats[s.board.current]? = some s.beat :=
  List.getElem?_eq_getElem s.current_lt

theorem run_goTo (s : Session) {place : Nat} (h : place < s.beats.length) :
    (Board.goTo place).run s.board = .ok () (s.goTo place h).board :=
  Board.run_goTo (List.getElem?_eq_getElem h)

theorem board_enter_of_some {b : Beat} {place : Nat}
    (h : s.beats.findIdx? (fun known => known.inline && known.id == b.id) = some place) :
    (s.enter b).board = ⟨s.beats.set place b, s.index, place, b.isLast⟩ := by
  rw [enter]
  split
  · next other hother =>
    obtain rfl : place = other := Option.some.inj (h.symm.trans hother)
    rfl
  · next hnone => exact absurd (h.symm.trans hnone) (by simp)

theorem board_enter_of_none {b : Beat}
    (h : s.beats.findIdx? (fun known => known.inline && known.id == b.id) = none) :
    (s.enter b).board = ⟨s.beats ++ [b], s.index, s.beats.length, b.isLast⟩ := by
  rw [enter]
  split
  · next place hplace => exact absurd (hplace.symm.trans h) (by simp)
  · rfl

/-- An inline beat is written where the session goes when it enters the beat. -/
theorem run_insertInline (s : Session) (b : Beat) :
    (Board.insertInline b).run s.board =
      .ok (s.enter b).current { (s.enter b).board with current := s.current, ended := s.ended } := by
  change _ = EStateM.Result.ok (s.enter b).board.current _
  rw [Board.insertInline, EStateM.run_bind, EStateM.run_get]
  dsimp only
  cases hfind : s.board.beats.findIdx? fun known => known.inline && known.id == b.id with
  | some place =>
    have hlt : place < s.board.beats.length := (List.findIdx?_eq_some_iff_getElem.mp hfind).1
    rw [board_enter_of_some hfind]
    dsimp only
    rw [EStateM.run_bind, Board.run_write hlt]
    rfl
  | none =>
    rw [board_enter_of_none hfind]
    dsimp only
    rw [EStateM.run_bind, EStateM.run_modify]
    dsimp only
    rw [EStateM.run_bind, EStateM.run_get]
    simp [board]

theorem follow_of_found (id : String) {target : String} {place : Nat} (htarget : c.explicitTarget? = some target)
    (hplace : s.index.find? target = some place) : ∃ h, s.follow id c = .ok (s.goTo place h) := by
  rw [follow, htarget]
  dsimp only
  split
  · next other hother =>
    obtain rfl : place = other := Option.some.inj (hplace.symm.trans hother)
    exact ⟨s.index_lt _ (Dictionary.mem_of_find? hplace), rfl⟩
  · next hnone => exact absurd (hplace.symm.trans hnone) (by simp)

theorem follow_of_not_found {target : String} (htarget : c.explicitTarget? = some target)
    (hnone : s.index.find? target = none) : s.follow id c = .error (.unknownTarget c.label s.beat.id target) := by
  rw [follow, htarget]
  dsimp only
  split
  · next place hplace => exact absurd (hplace.symm.trans hnone) (by simp)
  · rfl

theorem follow_of_no_target (hnone : c.explicitTarget? = none) :
    s.follow id c =
      if c.hasBody then .ok (s.enter (.ofChoice (s.beat.inlineId id) c))
      else .error (.missingTarget c.label s.beat.id) := by
  rw [follow, hnone]

/-- The procedures for an option do on the board of a session what the session does when it follows the option. -/
theorem run_next_goTo (s : Session) (id : String) (c : Choice) :
    (Board.next s.beat id c >>= Board.goTo).run s.board =
      match s.follow id c with
      | .ok t => .ok () t.board
      | .error e => .error (.refused e) s.board := by
  rw [EStateM.run_bind, Board.next]
  cases htarget : c.explicitTarget? with
  | some target =>
    dsimp only
    rw [EStateM.run_bind, EStateM.run_get]
    dsimp only
    cases hfind : s.board.index.find? target with
    | some place =>
      obtain ⟨hlt, hfollow⟩ := follow_of_found id htarget hfind
      rw [hfollow]
      exact s.run_goTo hlt
    | none =>
      rw [follow_of_not_found htarget hfind]
      rfl
  | none =>
    rw [follow_of_no_target htarget]
    by_cases hbody : c.hasBody = true
    · rw [if_pos hbody, if_pos hbody, run_insertInline]
      dsimp only
      generalize hentered : Beat.ofChoice (s.beat.inlineId id) c = b
      have hbeat : (s.enter b).beats[(s.enter b).current]? = some b := by
        have hcurrent := getElem?_current (s.enter b)
        rwa [beat_enter] at hcurrent
      have hended : (s.enter b).ended = b.isLast := by
        cases hfind : s.beats.findIdx? fun known => known.inline && known.id == b.id with
        | some place => exact congrArg Board.ended (board_enter_of_some hfind)
        | none => exact congrArg Board.ended (board_enter_of_none hfind)
      rw [Board.run_goTo hbeat, ← hended]
      rfl
    · rw [if_neg hbody, if_neg hbody]
      rfl

/-- Choosing on the board of a session does what the session does, and a choice that fails leaves the board as it was.
Each place at which it reads or writes has a beat. -/
theorem run_choose (s : Session) (id : String) :
    (Board.choose id).run s.board =
      match s.choose id with
      | .ok t => .ok () t.board
      | .error e => .error (.refused e) s.board := by
  have hended : s.board.ended = s.ended := rfl
  rw [Board.choose, EStateM.run_bind, EStateM.run_get, choose]
  dsimp only
  rw [hended]
  by_cases h : s.ended = true
  · rw [if_pos h, if_pos h]
    rfl
  · rw [if_neg h, if_neg h]
    simp only [EStateM.run_bind, EStateM.run_get, Board.run_beatAt (getElem?_current s)]
    cases hfind : s.beat.options.reverse.find? (·.1 == id) with
    | some found => exact run_next_goTo s found.1 found.2
    | none => rfl

theorem play_board (s : Session) (ids : List String) : ∃ t : Session, s.board.play ids = some t.board := by
  induction ids generalizing s with
  | nil => exact ⟨s, rfl⟩
  | cons id rest ih =>
    rw [Board.play, run_choose]
    cases s.choose id with
    | ok t => exact ih t
    | error e => exact ih s

/-! ## How a choice is answered -/

/-- Are these the names that stand in the list, each once, in the order in which they first stand there? -/
structure ListsOnce (names available : List String) : Prop where
  mem_iff : ∀ name, name ∈ available ↔ name ∈ names
  ordered : available.Pairwise fun a b => names.idxOf a < names.idxOf b

theorem listsOnce_eraseDups (names : List String) : ListsOnce names names.eraseDups := by
  refine ⟨fun _ => List.mem_eraseDups, ?_⟩
  induction names using List.reverseRecOn with
  | nil => exact .nil
  | append_singleton names name ih =>
    -- A name that is put behind the others changes nothing about where they stand.
    have hsame : ∀ a ∈ names.eraseDups, (names ++ [name]).idxOf a = names.idxOf a := fun a ha =>
      List.idxOf_append_of_mem (List.mem_eraseDups.mp ha)
    have hbefore : names.eraseDups.Pairwise fun a b =>
        (names ++ [name]).idxOf a < (names ++ [name]).idxOf b := by
      refine ih.imp_of_mem fun ha hb hlt => ?_
      rwa [hsame _ ha, hsame _ hb]
    rw [List.eraseDups_append]
    by_cases hname : name ∈ names
    · simpa [List.removeAll, hname] using hbefore
    · have hnew : ([name].removeAll names).eraseDups = [name] := by
        simp [List.removeAll, hname, List.eraseDups_cons]
      rw [hnew]
      refine List.pairwise_append.mpr ⟨hbefore, List.pairwise_singleton _ _, fun a ha b hb => ?_⟩
      obtain rfl := List.mem_singleton.mp hb
      rw [hsame a ha, List.idxOf_append_of_notMem hname]
      exact Nat.lt_add_right _ (List.idxOf_lt_length_of_mem (List.mem_eraseDups.mp ha))

/-- Is this the answer to a choice that is decided by the option? -/
structure Decides (s : Session) (c : Choice) (answer : Except SessionError Session) : Prop where
  unknownTarget_iff : ∀ label beat target, answer = .error (.unknownTarget label beat target) ↔
    label = c.label ∧ beat = s.beat.id ∧ c.explicitTarget? = some target ∧ target ∉ s.index.entries.map (·.1)
  missingTarget_iff : ∀ label beat, answer = .error (.missingTarget label beat) ↔
    label = c.label ∧ beat = s.beat.id ∧ c.explicitTarget? = none ∧ c.actions = [] ∧ c.choices = []
  ok_iff : (∃ t, answer = .ok t) ↔
    (∀ label beat target, answer ≠ .error (.unknownTarget label beat target)) ∧
      ∀ label beat, answer ≠ .error (.missingTarget label beat)

theorem not_mem_keys_iff {α : Type} {d : Dictionary α} {key : String} :
    key ∉ d.entries.map (·.1) ↔ d.find? key = none := by
  rw [Option.eq_none_iff_forall_ne_some]
  simp only [ne_eq, Dictionary.find?_eq_some_iff]
  simp

theorem decides_follow (s : Session) (id : String) (c : Choice) : s.Decides c (s.follow id c) := by
  cases htarget : c.explicitTarget? with
  | some target =>
    cases hfind : s.index.find? target with
    | some place =>
      obtain ⟨hlt, hfollow⟩ := follow_of_found id htarget hfind
      have hkey : ¬ (target ∉ s.index.entries.map (·.1)) := by rw [not_mem_keys_iff, hfind]; simp
      rw [hfollow]
      refine ⟨fun label beat other => iff_of_false (by simp) ?_, by simp [htarget], by simp⟩
      rintro ⟨-, -, hother, hnot⟩
      obtain rfl : target = other := Option.some.inj (htarget.symm.trans hother)
      exact hkey hnot
    | none =>
      have hkey := not_mem_keys_iff.mpr hfind
      rw [follow_of_not_found htarget hfind]
      refine ⟨fun label beat other => ⟨?_, ?_⟩, by simp [htarget], by simp⟩
      · rintro ⟨⟩
        exact ⟨rfl, rfl, htarget, hkey⟩
      · rintro ⟨rfl, rfl, hother, -⟩
        obtain rfl : target = other := Option.some.inj (htarget.symm.trans hother)
        rfl
  | none =>
    rw [follow_of_no_target htarget]
    by_cases hbody : c.hasBody = true
    · have hfull : ¬ (c.actions = [] ∧ c.choices = []) := by
        rintro ⟨hactions, hchoices⟩
        simp [Choice.hasBody, hactions, hchoices] at hbody
      rw [if_pos hbody]
      exact ⟨by simp [htarget], fun label beat => iff_of_false (by simp) fun h => hfull h.2.2.2, by simp⟩
    · have hempty : c.actions = [] ∧ c.choices = [] := by simpa [Choice.hasBody] using hbody
      rw [if_neg hbody]
      refine ⟨by simp [htarget], fun label beat => ⟨?_, ?_⟩, by simp⟩
      · rintro ⟨⟩
        exact ⟨rfl, rfl, htarget, hempty⟩
      · rintro ⟨rfl, rfl, -⟩
        rfl

/-- How a session answers a choice. -/
structure Answers (s : Session) (id : String) : Prop where
  /-- Nothing outside the beats is read or written, and nothing at all is written if the choice fails. -/
  run_eq : (Board.choose id).run s.board =
    match s.choose id with
    | .ok t => .ok () t.board
    | .error e => .error (.refused e) s.board
  alreadyEnded_iff : s.choose id = .error .alreadyEnded ↔ s.ended = true
  unknownChoice_iff : (∃ choice beat available, s.choose id = .error (.unknownChoice choice beat available)) ↔
    s.ended = false ∧ id ∉ s.beat.options.map (·.1)
  available : ∀ choice beat available, s.choose id = .error (.unknownChoice choice beat available) →
    choice = id ∧ beat = s.beat.id ∧ ListsOnce (s.beat.options.map (·.1)) available
  decided : s.ended = false → id ∈ s.beat.options.map (·.1) → ∃ i c,
    IsLastPlace (s.beat.options.map (·.1)) id i ∧ s.beat.choices[i]? = some c ∧ s.Decides c (s.choose id)

theorem choose_of_isLastPlace {i : Nat} (hended : s.ended = false)
    (h : IsLastPlace (s.beat.options.map (·.1)) id i) :
    ∃ c, s.beat.choices[i]? = some c ∧ s.choose id = s.follow id c := by
  obtain ⟨⟨name, c⟩, hoption, hfind⟩ := find?_of_isLastPlace h
  obtain rfl : name = id := by simpa using List.find?_some hfind
  refine ⟨c, ?_, ?_⟩
  · rw [Beat.options, List.getElem?_map, List.getElem?_zipIdx, Option.map_map, Option.map_eq_some_iff] at hoption
    obtain ⟨d, hd, hsame⟩ := hoption
    obtain rfl : d = c := (Prod.mk.inj hsame).2
    exact hd
  · rw [choose, hended, hfind]
    rfl

theorem choose_of_unknown (hended : s.ended = false) (h : id ∉ s.beat.options.map (·.1)) :
    s.choose id = .error (.unknownChoice id s.beat.id (s.beat.options.map (·.1)).eraseDups) := by
  have hnone : s.beat.options.reverse.find? (·.1 == id) = none := by
    refine List.find?_eq_none.mpr fun option hoption hsame => h ?_
    exact List.mem_map.mpr ⟨option, List.mem_reverse.mp hoption, by simpa using hsame⟩
  rw [choose, hended, hnone]
  rfl

/-- An option never decides that the story has ended, or that there is no option. -/
theorem Decides.not_refused {answer : Except SessionError Session} (h : s.Decides c answer) {e : SessionError}
    (he : answer = .error e) (htarget : ∀ label beat target, e ≠ .unknownTarget label beat target)
    (hmissing : ∀ label beat, e ≠ .missingTarget label beat) : False := by
  subst he
  have hok := h.ok_iff.mpr ⟨fun _ _ _ heq => htarget _ _ _ (Except.error.inj heq),
    fun _ _ heq => hmissing _ _ (Except.error.inj heq)⟩
  exact absurd hok (by simp)

theorem answers (s : Session) (id : String) : s.Answers id := by
  have hrun := s.run_choose id
  cases hended : s.ended with
  | true =>
    have hchoose : s.choose id = .error .alreadyEnded := by rw [choose, if_pos hended]
    exact ⟨hrun, by simp [hchoose, hended], by simp [hchoose, hended], by simp [hchoose], by simp [hended]⟩
  | false =>
    by_cases hname : id ∈ s.beat.options.map (·.1)
    · obtain ⟨i, hlast⟩ := exists_isLastPlace hname
      obtain ⟨c, hc, hchoose⟩ := choose_of_isLastPlace hended hlast
      have hdecides : s.Decides c (s.choose id) := hchoose ▸ s.decides_follow id c
      have hknown : ∀ choice beat available, s.choose id ≠ .error (.unknownChoice choice beat available) :=
        fun _ _ _ he => hdecides.not_refused he (by simp) (by simp)
      refine ⟨hrun, ?_, ?_, ?_, fun _ _ => ⟨i, c, hlast, hc, hdecides⟩⟩
      · exact iff_of_false (fun he => hdecides.not_refused he (by simp) (by simp)) (by simp [hended])
      · refine iff_of_false ?_ fun h => h.2 hname
        rintro ⟨choice, beat, available, he⟩
        exact hknown choice beat available he
      · exact fun _ _ _ he => absurd he (hknown _ _ _)
    · have hchoose := choose_of_unknown hended hname
      refine ⟨hrun, by simp [hchoose, hended], ?_, ?_, fun _ hmem => absurd hmem hname⟩
      · exact iff_of_true ⟨_, _, _, hchoose⟩ ⟨hended, hname⟩
      · intro choice beat available he
        rw [hchoose] at he
        cases he
        exact ⟨rfl, rfl, listsOnce_eraseDups _⟩

/-- Whatever is chosen on the board of a session, started or loaded, one choice after the other, the machine goes on
at the board of a session; and there it answers each choice as it should. -/
theorem play_answers (s : Session) (ids : List String) :
    ∃ t : Session, s.board.play ids = some t.board ∧ ∀ id, t.Answers id := by
  obtain ⟨t, ht⟩ := play_board s ids
  exact ⟨t, ht, t.answers⟩

end Session
end BranchingStory
