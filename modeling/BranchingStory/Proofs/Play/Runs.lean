import BranchingStory.Proofs.Dictionary
import BranchingStory.Proofs.Play.Stored
import Mathlib.Data.List.Induction

/-! # Runs of a session

A run chooses, goes back to a session that was kept, and stores and loads again, in any order. Whatever
it does, the declared beats stay as they are at the front, the inline beats behind them have names of
their own, and the index leads to the last declared beat of each name. -/

namespace BranchingStory
set_option autoImplicit false

/-! ## Moves -/

/-- What can be done with a session. -/
inductive Move where
  | choose (id : String)
  /-- Goes back to a session that was played before. -/
  | revert (steps : Nat)
  /-- Stores the session and loads it again. -/
  | reload
deriving DecidableEq, Repr

/-- A session that is played, and those that were played before it, the latest first. -/
structure Track where
  now : Session
  past : List Session

namespace Track

def goOn (t : Track) (s : Session) : Track := ⟨s, t.now :: t.past⟩

/-- The track after a move; what fails changes nothing. -/
def move (t : Track) : Move → Track
  | .choose id =>
    match t.now.choose id with
    | .ok s => t.goOn s
    | .error _ => t
  | .revert steps =>
    match t.past[steps]? with
    | some s => t.goOn s
    | none => t
  | .reload =>
    match Session.load t.now.store with
    | .ok s => t.goOn s
    | .error _ => t

end Track

/-- The session after some moves. -/
def Session.after (s : Session) (moves : List Move) : Session := (moves.foldl Track.move ⟨s, []⟩).now

namespace Track

theorem move_all {P : Session → Prop} (hchoose : ∀ s t id, P s → s.choose id = .ok t → P t) (t : Track)
    (m : Move) (h : P t.now ∧ ∀ s ∈ t.past, P s) :
    P (t.move m).now ∧ ∀ s ∈ (t.move m).past, P s := by
  have hgoOn : ∀ s, P s → P (t.goOn s).now ∧ ∀ s ∈ (t.goOn s).past, P s :=
    fun s hs => ⟨hs, List.forall_mem_cons.mpr h⟩
  cases m with
  | choose id =>
    rw [move]
    split
    · next s hs => exact hgoOn s (hchoose _ _ _ h.1 hs)
    · exact h
  | revert steps =>
    rw [move]
    split
    · next s hs => exact hgoOn s (h.2 s (List.mem_of_getElem? hs))
    · exact h
  | reload =>
    rw [move, Session.load_store]
    split
    · next s hs =>
      split at hs
      · obtain rfl := Except.ok.inj hs
        exact hgoOn _ h.1
      · exact absurd hs (by simp)
    · exact h

end Track

/-- What holds at the start and is kept by choices holds after every run. -/
theorem Session.after_all {P : Session → Prop} (hchoose : ∀ s t id, P s → s.choose id = .ok t → P t)
    {s : Session} (h : P s) (moves : List Move) : P (s.after moves) := by
  suffices hrun : ∀ t : Track, (P t.now ∧ ∀ s ∈ t.past, P s) →
      P (moves.foldl Track.move t).now ∧ ∀ s ∈ (moves.foldl Track.move t).past, P s by
    exact (hrun ⟨s, []⟩ ⟨h, by simp⟩).1
  induction moves with
  | nil => exact fun t ht => ht
  | cons m rest ih => exact fun t ht => ih _ (t.move_all hchoose m ht)

/-! ## Where names lead -/

/-- The last place at which a name stands. -/
def IsLastPlace (names : List String) (id : String) (place : Nat) : Prop :=
  names[place]? = some id ∧ ∀ later, place < later → names[later]? ≠ some id

theorem isLastPlace_append (names : List String) (name id : String) (place : Nat) :
    IsLastPlace (names ++ [name]) id place ↔
      if id = name then place = names.length else IsLastPlace names id place := by
  split
  · next h =>
    subst h
    constructor
    · rintro ⟨hplace, hlater⟩
      have hle : ¬ names.length < place := fun hlt => by
        rw [List.getElem?_eq_none (by simp; omega)] at hplace
        exact absurd hplace (by simp)
      have hge : ¬ place < names.length := fun hlt => hlater _ hlt (by simp)
      omega
    · rintro rfl
      refine ⟨by simp, fun later hlt => ?_⟩
      rw [List.getElem?_eq_none (by simp; omega)]
      simp
  · next h =>
    have hget : ∀ i : Nat, (names ++ [name])[i]? = some id ↔ names[i]? = some id := by
      intro i
      rw [List.getElem?_append]
      split
      · rfl
      · next hge =>
        rw [List.getElem?_eq_none (Nat.not_lt.mp hge)]
        by_cases hi : i = names.length
        · simp [hi, Ne.symm h]
        · rw [List.getElem?_eq_none (by simp; omega)]
    simp only [IsLastPlace, hget, ne_eq]

theorem Session.find?_places (names : List String) (id : String) (place : Nat) :
    (places names).find? id = some place ↔ IsLastPlace names id place := by
  rw [places, Dictionary.find?_ofList]
  induction names using List.reverseRecOn with
  | nil => simp [IsLastPlace]
  | append_singleton names name ih =>
    rw [List.zipIdx_append, List.reverse_append, isLastPlace_append, ← ih]
    have hlast : [name].zipIdx (0 + names.length) = [(name, names.length)] := by simp
    rw [hlast, List.reverse_singleton, List.singleton_append, Dictionary.lookup_cons_eq]
    split
    · simp [eq_comm]
    · rfl

/-! ## Sessions of a script -/

namespace Session

/-- The session's beats and its index are as the script and the options that were followed make them. -/
structure Grown (script : Script) (s : Session) : Prop where
  declared : s.beats.take script.declaredBeats.length = script.declaredBeats.map .ofNode
  inline : ∀ b ∈ s.beats.drop script.declaredBeats.length, b.inline = true
  distinct : ((s.beats.drop script.declaredBeats.length).map (·.id)).Nodup
  index_eq : s.index = places (script.declaredBeats.map (·.id))
  ended_eq : s.ended = s.beat.isLast

variable {script : Script} {s t : Session}

theorem Grown.length_le (h : s.Grown script) : script.declaredBeats.length ≤ s.beats.length := by
  have hlength := congrArg List.length h.declared
  rw [List.length_take, List.length_map] at hlength
  omega

/-- How a session that has started has come to its first beat. -/
theorem exists_first {asked : Option String} (h : start script asked = .ok s) : ∃ story scene first,
    script.story? = some story ∧ story.openingScene asked = .ok scene ∧
      (scene.childrenOf .beat).head? = some first ∧ begin? script.declaredBeats first = some s := by
  rw [start] at h
  split at h
  · exact absurd h (by simp)
  · exact absurd h (by simp)
  · next story _ hstory =>
    split at h
    · exact absurd h (by simp)
    · next scene hscene =>
      split at h
      · exact absurd h (by simp)
      · next first hfirst =>
        split at h
        · exact absurd h (by simp)
        · next started hstarted =>
          obtain rfl := Except.ok.inj h
          exact ⟨story, scene, first, hstory, hscene, hfirst, hstarted⟩

theorem start_cases {asked : Option String} (h : start script asked = .ok s) :
    s.beats = script.declaredBeats.map .ofNode ∧ s.index = places (script.declaredBeats.map (·.id)) ∧
      s.ended = s.beat.isLast := by
  obtain ⟨-, -, first, -, -, -, hfirst⟩ := exists_first h
  rw [begin?] at hfirst
  split at hfirst
  · exact absurd hfirst (by simp)
  · obtain rfl := Option.some.inj hfirst
    exact ⟨rfl, rfl, by simp [beat]⟩

theorem grown_start {asked : Option String} (h : start script asked = .ok s) : s.Grown script := by
  obtain ⟨hbeats, hindex, hended⟩ := start_cases h
  have hdrop : s.beats.drop script.declaredBeats.length = [] := List.drop_of_length_le (by simp [hbeats])
  refine ⟨?_, ?_, ?_, hindex, hended⟩
  · rw [hbeats]
    exact List.take_of_length_le (by simp)
  · simp only [hdrop, List.not_mem_nil, false_implies, implies_true]
  · simp only [hdrop, List.map_nil, List.nodup_nil]

theorem Grown.goTo (h : s.Grown script) (place : Nat) (hlt : place < s.beats.length) :
    (s.goTo place hlt).Grown script :=
  ⟨h.declared, h.inline, h.distinct, h.index_eq, rfl⟩

theorem Grown.inline_eq_false (h : s.Grown script) {place : Nat} (hlt : place < s.beats.length)
    (hdeclared : place < script.declaredBeats.length) : s.beats[place].inline = false := by
  have hmem : s.beats[place] ∈ s.beats.take script.declaredBeats.length :=
    List.mem_take_iff_getElem.mpr ⟨place, by omega, rfl⟩
  rw [h.declared] at hmem
  obtain ⟨n, -, hn⟩ := List.mem_map.mp hmem
  rw [← hn]
  rfl

theorem mem_beats_enter {b known : Beat} (h : known ∈ (s.enter b).beats) : known ∈ s.beats ∨ known = b := by
  rw [Session.enter] at h
  split at h
  · exact List.mem_or_eq_of_mem_set h
  · exact (List.mem_append.mp h).imp_right List.mem_singleton.mp

/-- An inline beat takes the place of one with its name or stands behind all others; it never takes the
place of a declared beat. -/
theorem Grown.enter (h : s.Grown script) {b : Beat} (hb : b.inline = true) : (s.enter b).Grown script := by
  have hle := h.length_le
  rw [Session.enter]
  split
  · next place hplace =>
    obtain ⟨hlt, hknown, -⟩ := List.findIdx?_eq_some_iff_getElem.mp hplace
    obtain ⟨hinline, hid⟩ : s.beats[place].inline = true ∧ s.beats[place].id = b.id := by simpa using hknown
    have hbehind : script.declaredBeats.length ≤ place := by
      refine Nat.not_lt.mp fun hdeclared => ?_
      rw [h.inline_eq_false hlt hdeclared] at hinline
      exact absurd hinline (by simp)
    have hdrop : (s.beats.set place b).drop script.declaredBeats.length =
        (s.beats.drop script.declaredBeats.length).set (place - script.declaredBeats.length) b := by
      rw [List.drop_set, if_neg (by omega)]
    refine ⟨?_, ?_, ?_, h.index_eq, ?_⟩
    · exact (List.take_set_of_le hbehind).trans h.declared
    · rw [hdrop]
      intro other hother
      rcases List.mem_or_eq_of_mem_set hother with hother | rfl
      · exact h.inline other hother
      · exact hb
    · have hsame : ((s.beats.drop script.declaredBeats.length).map (·.id))[place -
          script.declaredBeats.length]? = some b.id := by
        rw [List.getElem?_map, List.getElem?_drop, Nat.add_sub_cancel' hbehind, List.getElem?_eq_getElem hlt,
          Option.map_some, hid]
      obtain ⟨hinside, hget⟩ := List.getElem?_eq_some_iff.mp hsame
      rw [hdrop, List.map_set, ← hget, List.set_getElem_self hinside]
      exact h.distinct
    · simp [beat]
  · next hnone =>
    have hother : ∀ known ∈ s.beats, known.inline = true → known.id ≠ b.id := by
      intro known hknown hinline hid
      have hfalse := List.findIdx?_eq_none_iff.mp hnone known hknown
      simp [hinline, hid] at hfalse
    have hdrop : (s.beats ++ [b]).drop script.declaredBeats.length =
        s.beats.drop script.declaredBeats.length ++ [b] := List.drop_append_of_le_length hle
    refine ⟨?_, ?_, ?_, h.index_eq, ?_⟩
    · exact (List.take_append_of_le_length hle).trans h.declared
    · rw [hdrop]
      exact List.forall_mem_append.mpr ⟨h.inline, by simpa using hb⟩
    · rw [hdrop, List.map_append, List.map_singleton]
      refine List.nodup_append.mpr ⟨h.distinct, by simp, ?_⟩
      rintro id hid other hsame rfl
      obtain ⟨known, hknown, hknownId⟩ := List.mem_map.mp hid
      exact hother known (List.mem_of_mem_drop hknown) (h.inline known hknown)
        (hknownId.trans (List.mem_singleton.mp hsame))
    · simp [beat]

theorem mem_options_iff {b : Beat} {id : String} {c : Choice} :
    (id, c) ∈ b.options ↔ ∃ i, b.choices[i]? = some c ∧ id = b.choiceId c i := by
  simp only [Beat.options, List.mem_map, Prod.mk.injEq, Prod.exists, List.mem_zipIdx_iff_getElem?]
  constructor
  · rintro ⟨c, i, hc, rfl, rfl⟩
    exact ⟨i, hc, rfl⟩
  · rintro ⟨i, hc, rfl⟩
    exact ⟨c, i, hc, rfl, rfl⟩

/-- What a choice that succeeds does: it goes to a declared beat or enters the inline one of an option without a
target that has a body. -/
theorem choose_cases {id : String} (h : s.choose id = .ok t) :
    (∃ place hlt, t = s.goTo place hlt) ∨
      ∃ i c, s.beat.choices[i]? = some c ∧ c.explicitTarget? = none ∧ c.hasBody = true ∧
        t = s.enter (.ofChoice (s.beat.inlineId (s.beat.choiceId c i)) c) := by
  rw [choose] at h
  split at h
  · exact absurd h (by simp)
  · split at h
    · next found c hfound =>
      obtain ⟨i, hc, rfl⟩ := mem_options_iff.mp (List.mem_reverse.mp (List.mem_of_find?_eq_some hfound))
      rw [follow] at h
      split at h
      · split at h
        · exact .inl ⟨_, _, (Except.ok.inj h).symm⟩
        · exact absurd h (by simp)
      · next htarget =>
        split at h
        · next hbody => exact .inr ⟨i, c, hc, htarget, hbody, (Except.ok.inj h).symm⟩
        · exact absurd h (by simp)
    · exact absurd h (by simp)

theorem Grown.choose {id : String} (h : s.Grown script) (ht : s.choose id = .ok t) : t.Grown script := by
  rcases choose_cases ht with ⟨place, hlt, rfl⟩ | ⟨i, c, -, -, -, rfl⟩
  · exact h.goTo place hlt
  · exact h.enter rfl

theorem exists_visit_of_declared {n : Node} (h : n ∈ script.declaredBeats) : ∃ v ∈ script.walk, v.node = n :=
  List.mem_map.mp (List.mem_filter.mp h).1

theorem beat_mem (s : Session) : s.beat ∈ s.beats := List.get_mem _ _

/-- What holds of the declared beats, and passes from a beat to the bodies of its options that can be entered, holds
of each beat of a session after every run. -/
theorem forall_beats_after {P : Beat → Prop} {asked : Option String}
    (hdeclared : ∀ n ∈ script.declaredBeats, P (.ofNode n))
    (hbody : ∀ b, P b → ∀ i c, b.choices[i]? = some c → c.explicitTarget? = none → c.hasBody = true →
      P (.ofChoice (b.inlineId (b.choiceId c i)) c))
    (h : start script asked = .ok s) (moves : List Move) : ∀ b ∈ (s.after moves).beats, P b := by
  have hchoose : ∀ (s t : Session) (id : String), (∀ b ∈ s.beats, P b) → s.choose id = .ok t →
      ∀ b ∈ t.beats, P b := by
    intro s t id hs ht
    rcases choose_cases ht with ⟨place, hlt, rfl⟩ | ⟨i, c, hc, htarget, hopens, rfl⟩
    · exact hs
    · intro b hb
      rcases mem_beats_enter hb with hb | rfl
      · exact hs b hb
      · exact hbody _ (hs _ s.beat_mem) i c hc htarget hopens
  refine after_all (P := fun s => ∀ b ∈ s.beats, P b) hchoose ?_ moves
  intro b hb
  rw [(start_cases h).1] at hb
  obtain ⟨n, hn, rfl⟩ := List.mem_map.mp hb
  exact hdeclared n hn

theorem grown_after {asked : Option String} (h : start script asked = .ok s) (moves : List Move) :
    (s.after moves).Grown script :=
  after_all (fun _ _ _ hs ht => Grown.choose hs ht) (grown_start h) moves

/-- What a player can rely on: declared beats stay in front as they were, inline beats have names of their
own, the index leads to the last declared beat of each name, and the story has ended exactly where
nothing more is offered. -/
structure Sound (script : Script) (s : Session) : Prop where
  declared : s.beats.take script.declaredBeats.length = script.declaredBeats.map .ofNode
  not_inline : ∀ b ∈ s.beats.take script.declaredBeats.length, b.inline = false
  inline : ∀ b ∈ s.beats.drop script.declaredBeats.length, b.inline = true
  distinct : ((s.beats.drop script.declaredBeats.length).map (·.id)).Nodup
  index_keys : ∀ id, (∃ place, (id, place) ∈ s.index.entries) ↔ ∃ n ∈ script.declaredBeats, n.id = id
  index_last : ∀ e ∈ s.index.entries, IsLastPlace (script.declaredBeats.map (·.id)) e.1 e.2
  index_not_inline : ∀ e ∈ s.index.entries, ∃ b, s.beats[e.2]? = some b ∧ b.inline = false
  current_lt : s.current < s.beats.length
  ended_iff : s.ended = true ↔ (∃ a ∈ s.beat.actions, a.deed = .finish) ∨ s.beat.choices = []
  offers_iff : s.offers = [] ↔ s.ended = true

theorem isLast_iff (b : Beat) :
    b.isLast = true ↔ (∃ a ∈ b.actions, a.deed = .finish) ∨ b.choices = [] := by
  simp [Beat.isLast, Beat.hasFinish, Action.isFinish]

theorem offers_eq_nil_iff (b : Beat) : b.offers = [] ↔ b.choices = [] := by
  rw [Beat.offers, List.map_eq_nil_iff, ← List.length_eq_zero_iff, Beat.length_options,
    List.length_eq_zero_iff]

theorem Grown.find?_index (h : s.Grown script) (id : String) (place : Nat) :
    s.index.find? id = some place ↔ IsLastPlace (script.declaredBeats.map (·.id)) id place := by
  rw [h.index_eq, find?_places]

theorem exists_isLastPlace {names : List String} {id : String} (h : id ∈ names) :
    ∃ place, IsLastPlace names id place := by
  induction names using List.reverseRecOn with
  | nil => simp at h
  | append_singleton names name ih =>
    simp only [isLastPlace_append]
    by_cases hname : id = name
    · exact ⟨names.length, by rw [if_pos hname]⟩
    · have hmem : id ∈ names := by simpa [hname] using h
      obtain ⟨place, hplace⟩ := ih hmem
      exact ⟨place, by rw [if_neg hname]; exact hplace⟩

theorem Grown.sound (h : s.Grown script) : s.Sound script where
  declared := h.declared
  not_inline := by
    rw [h.declared]
    intro b hb
    obtain ⟨n, -, rfl⟩ := List.mem_map.mp hb
    rfl
  inline := h.inline
  distinct := h.distinct
  index_keys := by
    intro id
    simp only [← Dictionary.find?_eq_some_iff, h.find?_index]
    constructor
    · rintro ⟨place, hplace, -⟩
      exact List.mem_map.mp (List.mem_of_getElem? hplace)
    · intro hid
      exact exists_isLastPlace (List.mem_map.mpr hid)
  index_last := by
    intro e he
    exact (h.find?_index e.1 e.2).mp ((Dictionary.find?_eq_some_iff _ _ _).mpr he)
  index_not_inline := by
    intro e he
    have hlast := (h.find?_index e.1 e.2).mp ((Dictionary.find?_eq_some_iff _ _ _).mpr he)
    have hdeclared : e.2 < script.declaredBeats.length := by
      simpa using (List.getElem?_eq_some_iff.mp hlast.1).1
    have hlt := s.index_lt e he
    exact ⟨_, List.getElem?_eq_getElem hlt, h.inline_eq_false hlt hdeclared⟩
  current_lt := s.current_lt
  ended_iff := by rw [h.ended_eq, isLast_iff]
  offers_iff := by
    rw [offers]
    split
    · next hended => simp [hended]
    · next hended =>
      have hchoices : s.beat.choices ≠ [] := fun hnil =>
        hended (by rw [h.ended_eq, isLast_iff]; exact .inr hnil)
      exact iff_of_false (fun hnil => hchoices ((offers_eq_nil_iff _).mp hnil)) hended

/-- Every run from the start of a script leads to a session of the script that a player can rely on. -/
theorem sound_after {asked : Option String} (h : start script asked = .ok s) (moves : List Move) :
    (s.after moves).Sound script :=
  (grown_after h moves).sound

theorem exists_of_any {started : Except SessionError Session} {p : Session → Bool}
    (h : started.toOption.any p = true) : ∃ s, started = .ok s ∧ p s = true := by
  cases started with
  | ok s => exact ⟨s, rfl, h⟩
  | error e => exact absurd h (by simp [Except.toOption])

/-- A story whose only beat offers an option with a body. -/
def cellar : Script :=
  let here : Range := ⟨.origin, .origin⟩
  let option : Choice := ⟨"Look around", none, none, [⟨.stage "It is dark.", here⟩], [], here⟩
  let beat : Node := ⟨"stairs", .beat, none, "", [], [], [option], here⟩
  let scene : Node := ⟨"cellar", .scene, none, "", [], [beat], [], here⟩
  ⟨.empty, [⟨"house", .story, none, "", [], [scene], [], here⟩], here⟩

theorem sound_after_cellar : ∃ s, start cellar none = .ok s ∧
    (s.after [.choose "stairs::choice-0", .reload, .revert 1, .choose "nothing"]).Sound cellar := by
  have hany : (start cellar none).toOption.any (fun _ => true) = true := by decide +kernel
  obtain ⟨s, hs, -⟩ := exists_of_any hany
  exact ⟨s, hs, sound_after hs _⟩

end Session

end BranchingStory
