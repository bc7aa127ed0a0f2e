import BranchingStory.Proofs.Play.InPlace
import BranchingStory.Proofs.Play.Runs

/-! # Sessions that are restored

Loading takes the flag of the end and the index as the text spells them. Choices set the flag anew and never
change whether the index is right, so a restored session is as right as the text was; and what was stored
of a run is right. -/

namespace BranchingStory
set_option autoImplicit false

namespace Session

/-- Does the text spell just the parts of this session? -/
def Spelled (text : String) (s : Session) : Prop :=
  (Json.parse? text.toList).bind (parts? Json.maxDepth) = some (s.beats, s.index, s.current, s.ended)

/-- Has the story ended exactly if its beat says so or offers nothing? -/
def Flagged (s : Session) : Prop :=
  s.ended = true ↔ (∃ a ∈ s.beat.actions, a.deed = .finish) ∨ s.beat.choices = []

/-- Does a name lead to a beat that is declared under it? -/
def Leads (beats : List Beat) (e : String × Nat) : Prop :=
  ∃ b, beats[e.2]? = some b ∧ b.inline = false ∧ b.id = e.1

/-- Does every name of the index lead to a beat that is declared under it? -/
def Indexed (s : Session) : Prop := ∀ e ∈ s.index.entries, Leads s.beats e

variable {s t : Session} {script : Script}

/-! ## Loading -/

/-- Loading checks nothing but that all places lie among the beats, which a session does by its type. -/
theorem load_eq_ok_iff {text : String} : load text = .ok s ↔ Spelled text s := by
  rw [load, Spelled]
  constructor
  · intro h
    split at h
    · next beats index current ended hparts =>
      have hboard := (ofParts_eq_ok_iff ⟨beats, index, current, ended⟩).mp h
      obtain ⟨rfl, rfl, rfl, rfl⟩ := Board.mk.inj hboard
      exact hparts
    · exact absurd h (by simp)
  · intro h
    rw [h]
    exact s.ofParts_self

/-! ## Choosing -/

/-- Wherever a choice leads, the flag is set for the beat that is there. -/
theorem flagged_choose {id : String} (h : s.choose id = .ok t) : t.Flagged := by
  suffices hended : t.ended = t.beat.isLast by rw [Flagged, hended, isLast_iff]
  rcases choose_cases h with ⟨place, hlt, rfl⟩ | ⟨i, c, -, -, -, rfl⟩
  · rfl
  · rw [Session.enter]
    split
    · simp [beat]
    · simp [beat]

/-- An inline beat is put where an inline beat stood, or behind all beats; a name that leads to a declared beat
does so after it as before, and one that does not goes on not to. -/
theorem leads_enter_iff {b : Beat} (hb : b.inline = true) {e : String × Nat} (he : e.2 < s.beats.length) :
    Leads (s.enter b).beats e ↔ Leads s.beats e := by
  rw [Session.enter]
  split
  · next place hplace =>
    obtain ⟨hlt, hknown, -⟩ := List.findIdx?_eq_some_iff_getElem.mp hplace
    obtain ⟨hinline, -⟩ : s.beats[place].inline = true ∧ s.beats[place].id = b.id := by simpa using hknown
    by_cases heq : e.2 = place
    · -- both before and after, the name leads to an inline beat
      refine iff_of_false ?_ ?_
      · rintro ⟨other, hother, hdeclared, -⟩
        rw [heq, List.getElem?_set_self hlt] at hother
        obtain rfl := Option.some.inj hother
        exact absurd (hdeclared.symm.trans hb) (by simp)
      · rintro ⟨other, hother, hdeclared, -⟩
        rw [heq, List.getElem?_eq_getElem hlt] at hother
        obtain rfl := Option.some.inj hother
        exact absurd (hdeclared.symm.trans hinline) (by simp)
    · rw [Leads, Leads, List.getElem?_set_ne (Ne.symm heq)]
  · rw [Leads, Leads, List.getElem?_append_left he]

theorem indexed_choose_iff {id : String} (h : s.choose id = .ok t) : t.Indexed ↔ s.Indexed := by
  rcases choose_cases h with ⟨place, hlt, rfl⟩ | ⟨i, c, -, -, -, rfl⟩
  · exact Iff.rfl
  · have hindex : (s.enter (.ofChoice (s.beat.inlineId (s.beat.choiceId c i)) c)).index = s.index := by
      rw [Session.enter]
      split <;> rfl
    rw [Indexed, Indexed, hindex]
    exact forall₂_congr fun e he => leads_enter_iff rfl (s.index_lt e he)

/-! ## Runs -/

/-- A run from any session leaves it as it is or comes to one with the right flag. -/
theorem after_eq_or_flagged (s : Session) (moves : List Move) : s.after moves = s ∨ (s.after moves).Flagged :=
  after_all (P := fun t => t = s ∨ t.Flagged) (fun _ _ _ _ h => .inr (flagged_choose h)) (.inl rfl) moves

/-- No run from any session mends its index or breaks it. -/
theorem indexed_after_iff (s : Session) (moves : List Move) : (s.after moves).Indexed ↔ s.Indexed :=
  after_all (P := fun t => t.Indexed ↔ s.Indexed) (fun _ _ _ hs h => (indexed_choose_iff h).trans hs) Iff.rfl
    moves

theorem Sound.flagged (h : s.Sound script) : s.Flagged := h.ended_iff

theorem Sound.indexed (h : s.Sound script) : s.Indexed := by
  intro e he
  obtain ⟨b, hb, hinline⟩ := h.index_not_inline e he
  obtain ⟨hname, -⟩ := h.index_last e he
  rw [List.getElem?_map, Option.map_eq_some_iff] at hname
  obtain ⟨n, hn, hid⟩ := hname
  have hlt : e.2 < script.declaredBeats.length := (List.getElem?_eq_some_iff.mp hn).1
  have hdeclared := congrArg (·[e.2]?) h.declared
  simp only [List.getElem?_take_of_lt hlt, List.getElem?_map, hn, hb, Option.map_some] at hdeclared
  obtain rfl := Option.some.inj hdeclared
  exact ⟨_, hb, hinline, hid⟩

/-! ## The restored session -/

/-- A text is loaded as a session exactly if it spells the parts of that session, so a restored session has
the flag and the index of its text, be they right or wrong. Wherever play goes on to from it the flag is
right, and the index is right exactly if it was. What was stored of a run from the start of a script is
restored with the right flag and the right index. -/
theorem load_restored (text : String) (s : Session) :
    (load text = .ok s ↔ Spelled text s) ∧
      (load text = .ok s →
        (∀ moves, s.after moves = s ∨ (s.after moves).Flagged) ∧
        (∀ moves, (s.after moves).Indexed ↔ s.Indexed) ∧
        ∀ (script : Script) (asked : Option String) (first : Session) (moves : List Move),
          start script asked = .ok first → (first.after moves).IsStored text → s.Flagged ∧ s.Indexed) := by
  refine ⟨load_eq_ok_iff, fun hload => ⟨s.after_eq_or_flagged, s.indexed_after_iff, ?_⟩⟩
  intro script asked first moves hfirst hstored
  have hsound := (grown_after hfirst moves).sound
  rw [load_of_isStored hstored] at hload
  split at hload
  · obtain rfl := Except.ok.inj hload
    exact ⟨hsound.flagged, hsound.indexed⟩
  · exact absurd hload (by simp)

/-- A save that was edited: its beat offers nothing, but the story is not said to have ended, and the name of the
beat leads to an inline one. -/
def edited : Session where
  beats :=
    let here : Range := ⟨.origin, .origin⟩
    [⟨"a", none, [], [], here, false⟩, ⟨"a::inline-0", none, [], [], here, true⟩]
  index := .ofList [("a", 1)]
  current := 0
  ended := false
  current_lt := by decide
  index_lt := by decide

theorem load_store_edited : load edited.store = .ok edited := by
  rw [load_store, if_pos (by decide)]

theorem not_indexed_edited : ¬ edited.Indexed := by
  intro h
  obtain ⟨b, hb, hdeclared, -⟩ := h ("a", 1) (by decide)
  obtain rfl := Option.some.inj hb
  exact absurd hdeclared (by decide)

/-- Nothing keeps a text from being loaded that spells a wrong flag and a wrong index. -/
theorem load_edited : ∃ text s, load text = .ok s ∧ ¬ s.Flagged ∧ ¬ s.Indexed :=
  ⟨edited.store, edited, load_store_edited, fun h => absurd (h.mpr (.inr rfl)) (by decide), not_indexed_edited⟩

/-- The edited save is restored as it is spelled, and its index is wrong after every run. What is saved at the
start of a story is restored with the right flag and the right index. -/
theorem load_restored_edited : Spelled edited.store edited ∧
    (∀ moves, ¬ (edited.after moves).Indexed) ∧
    ∃ first, start cellar none = .ok first ∧ load first.store = .ok first ∧ first.Flagged ∧ first.Indexed := by
  have hany : (start cellar none).toOption.any (fun s => decide (Json.Fits Json.maxDepth s.toJson)) = true := by
    decide +kernel
  obtain ⟨first, hfirst, hfits⟩ := exists_of_any hany
  have hstored : load first.store = .ok first := by rw [load_store, if_pos (of_decide_eq_true hfits)]
  refine ⟨(load_restored _ _).1.mp load_store_edited, fun moves h => ?_, first, hfirst, hstored, ?_⟩
  · exact not_indexed_edited ((((load_restored _ _).2 load_store_edited).2.1 moves).mp h)
  · exact ((load_restored _ _).2 hstored).2.2 cellar none first [] hfirst first.isStored_store

end Session

end BranchingStory
