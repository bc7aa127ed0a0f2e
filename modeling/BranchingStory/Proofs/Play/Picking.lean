import BranchingStory.Play.Pick
import BranchingStory.Proofs.Json.Scanning
import BranchingStory.Proofs.Play.Targets
import BranchingStory.Proofs.Script.Options
import Mathlib.Algebra.Group.Nat.Defs

/-! # Picking an option of a session

A player names an option by its number, a session by its name. Options of one beat that share a name share
their target too, since the names of options without a target are no words and carry the number. So the option
that is picked is the one that is followed. -/

namespace BranchingStory
open Text Token
set_option autoImplicit false

/-! ## Numbers -/

theorem Text.trim_toDigits (n : Nat) : trim (Nat.toDigits 10 n) = Nat.toDigits 10 n :=
  trim_eq_self (fun _ hc => isBlank_eq_false_of_isDigit (Json.isDigit_of_mem_toDigits (List.mem_of_mem_head? hc)))
    fun _ hc => isBlank_eq_false_of_isDigit (Json.isDigit_of_mem_toDigits (List.mem_of_mem_getLast? hc))

theorem Text.number?_toDigits {n : Nat} (h : n < 2 ^ 64) : number? (Nat.toDigits 10 n) = some n := by
  have hplus : (Nat.toDigits 10 n).head? ≠ some '+' := fun hhead =>
    absurd (Json.isDigit_of_mem_toDigits (List.mem_of_mem_head? hhead)) (by decide)
  have hdigits : (Nat.toDigits 10 n).all Char.isDigit = true :=
    List.all_eq_true.mpr fun _ hc => Json.isDigit_of_mem_toDigits hc
  rw [number?, if_neg hplus]
  simp only [ne_eq, Nat.toDigits_ne_nil, not_false_eq_true, hdigits, Json.naturalOf_toDigits, Nat.pow_eq, h,
    and_self, if_true]

/-- A number in the list stands for the option at that place, whatever the options are called. -/
theorem Offer.place?_number {offers : List Offer} {i : Nat} (h : i < offers.length)
    (hlimit : offers.length < 2 ^ 64) : place? offers (toString (i + 1)) = some i := by
  have htext : trim (toString (i + 1)).toList = Nat.toDigits 10 (i + 1) := by
    rw [show (toString (i + 1)).toList = Nat.toDigits 10 (i + 1) from Nat.toList_repr, trim_toDigits]
  rw [place?, htext]
  simp only [Nat.toDigits_ne_nil, if_false, number?_toDigits (show i + 1 < 2 ^ 64 by omega)]
  rw [if_pos (by omega), Nat.add_sub_cancel]

/-! ## Names of options -/

namespace Beat
variable {b : Beat} {c d : Choice} {i j : Nat}

theorem getElem?_offers (b : Beat) (i : Nat) :
    b.offers[i]? = (b.choices[i]?).map fun c => ⟨b.choiceId c i, c.label, c.guard⟩ := by
  simp [offers, options, Function.comp_def]

theorem choiceId_of_target {target : String} (h : c.explicitTarget? = some target) :
    b.choiceId c i = target := by
  rw [choiceId, h, Option.getD_some]

theorem choiceId_of_no_target (h : c.explicitTarget? = none) :
    b.choiceId c i = b.id ++ "::choice-" ++ toString i := by
  rw [choiceId, h, Option.getD_none]

/-- Options that share a name share their target; without one they stand at the same place. -/
theorem choiceId_eq (hc : ∀ t, c.explicitTarget? = some t → IsName t)
    (hd : ∀ t, d.explicitTarget? = some t → IsName t) (h : b.choiceId c i = b.choiceId d j) :
    c.explicitTarget? = d.explicitTarget? ∧ (c.explicitTarget? = none → i = j) := by
  cases hct : c.explicitTarget? with
  | some target =>
    have hword : IsName (b.choiceId d j) := by
      rw [← h, choiceId_of_target hct]
      exact hc target hct
    cases hdt : d.explicitTarget? with
    | some other => simpa [choiceId_of_target hct, choiceId_of_target hdt] using h
    | none => exact absurd hword (Session.not_isName_choiceId hdt j).2
  | none =>
    have hword := (Session.not_isName_choiceId (b := b) hct i).2
    cases hdt : d.explicitTarget? with
    | some other =>
      rw [h, choiceId_of_target hdt] at hword
      exact absurd (hd other hdt) hword
    | none =>
      rw [choiceId_of_no_target hct, choiceId_of_no_target hdt] at h
      refine ⟨rfl, fun _ => ?_⟩
      have hdigits : Nat.toDigits 10 i = Nat.toDigits 10 j := by
        simpa [Nat.toList_repr] using congrArg String.toList h
      rw [← Json.naturalOf_toDigits i, hdigits, Json.naturalOf_toDigits]

end Beat

/-! ## Choosing by name -/

namespace Session
variable {script : Script} {s t : Session} {c : Choice} {id : String}

/-- Whatever option of its name a session takes, it has the target of the option that was meant, and is that
option where there is no target. -/
theorem choose_choiceId {i limit : Nat} (hlisted : Choice.Listed limit s.beat.choices)
    (hended : s.ended = false) (hc : s.beat.choices[i]? = some c) :
    ∃ d, d.explicitTarget? = c.explicitTarget? ∧ (c.explicitTarget? = none → d = c) ∧
      s.choose (s.beat.choiceId c i) = s.follow (s.beat.choiceId c i) d := by
  have hmem : (s.beat.choiceId c i, c) ∈ s.beat.options.reverse :=
    List.mem_reverse.mpr (mem_options_iff.mpr ⟨i, hc, rfl⟩)
  cases hfind : s.beat.options.reverse.find? (·.1 == s.beat.choiceId c i) with
  | none => exact absurd (List.find?_eq_none.mp hfind _ hmem) (by simp)
  | some found =>
    obtain ⟨other, d⟩ := found
    obtain rfl : other = s.beat.choiceId c i := by simpa using List.find?_some hfind
    obtain ⟨j, hd, hid⟩ := mem_options_iff.mp (List.mem_reverse.mp (List.mem_of_find?_eq_some hfind))
    obtain ⟨htarget, hplace⟩ := Beat.choiceId_eq (fun _ => hlisted.isName (List.mem_of_getElem? hc))
      (fun _ => hlisted.isName (List.mem_of_getElem? hd)) hid
    refine ⟨d, htarget.symm, fun hnone => ?_, ?_⟩
    · rw [← hplace hnone, hc] at hd
      exact (Option.some.inj hd).symm
    · rw [choose, hended, hfind]
      rfl

theorem follow_ok_iff : (∃ t, s.follow id c = .ok t) ↔
    (∃ target place, c.explicitTarget? = some target ∧ s.index.find? target = some place) ∨
      c.explicitTarget? = none ∧ c.hasBody = true := by
  rw [follow]
  split
  · next target htarget =>
    split
    · next place hplace => simp [htarget, hplace]
    · next hnone => simp [htarget, hnone]
  · next hnone =>
    split
    · next hbody => simp [hnone, hbody]
    · next hbody => simp [hnone, hbody]

theorem beat_enter (s : Session) (b : Beat) : (s.enter b).beat = b := by
  rw [enter]
  split <;> simp [beat]

/-- At the last place of a name stands what is found first from behind. -/
theorem find?_of_isLastPlace {α : Type} {name : α → String} {xs : List α} {place : Nat}
    (h : IsLastPlace (xs.map name) id place) :
    ∃ x, xs[place]? = some x ∧ xs.reverse.find? (name · == id) = some x := by
  induction xs using List.reverseRecOn with
  | nil => simp [IsLastPlace] at h
  | append_singleton xs x ih =>
    rw [List.map_append, List.map_singleton, isLastPlace_append] at h
    rw [List.reverse_append, List.reverse_singleton, List.singleton_append]
    split at h
    · next hid =>
      obtain rfl : place = xs.length := by simpa using h
      exact ⟨x, by simp, List.find?_cons_of_pos (by simp [hid])⟩
    · next hid =>
      obtain ⟨y, hy, hfind⟩ := ih h
      refine ⟨y, ?_, ?_⟩
      · rw [List.getElem?_append_left (List.getElem?_eq_some_iff.mp hy).1, hy]
      · rw [List.find?_cons_of_neg (by simpa using Ne.symm hid), hfind]

/-- The index leads to the last declared beat of a name. -/
theorem Grown.getElem?_index (h : s.Grown script) {target : String} {place : Nat}
    (hplace : s.index.find? target = some place) :
    ∃ n, script.declaredBeats.reverse.find? (·.id == target) = some n ∧ s.beats[place]? = some (.ofNode n) := by
  obtain ⟨n, hn, hfind⟩ := find?_of_isLastPlace ((h.find?_index target place).mp hplace)
  have hlt := (List.getElem?_eq_some_iff.mp hn).1
  refine ⟨n, hfind, ?_⟩
  rw [← List.getElem?_take_of_lt hlt, h.declared, List.getElem?_map, hn, Option.map_some]

/-- An option with a target leads to the last declared beat of that name, one without into its own body. -/
theorem Grown.beat_of_follow (h : s.Grown script) (ht : s.follow id c = .ok t) :
    (∀ target, c.explicitTarget? = some target →
      ∃ n, script.declaredBeats.reverse.find? (·.id == target) = some n ∧ t.beat = .ofNode n) ∧
    (c.explicitTarget? = none → t.beat = .ofChoice (s.beat.inlineId id) c) := by
  rw [follow] at ht
  split at ht
  · next target htarget =>
    split at ht
    · next place hplace =>
      obtain rfl := Except.ok.inj ht
      obtain ⟨n, hn, hget⟩ := h.getElem?_index hplace
      refine ⟨fun other hother => ?_, by simp [htarget]⟩
      obtain rfl : target = other := Option.some.inj (htarget.symm.trans hother)
      exact ⟨n, hn, (List.getElem?_eq_some_iff.mp hget).2⟩
    · exact absurd ht (by simp)
  · next hnone =>
    split at ht
    · obtain rfl := Except.ok.inj ht
      exact ⟨by simp [hnone], fun _ => s.beat_enter _⟩
    · exact absurd ht (by simp)

/-! ## The option at a place -/

theorem listed_after {source : Source} {tabWidth : Nat} {asked : Option String}
    (hstart : start (source.analyse tabWidth).script asked = .ok s) (moves : List Move) :
    Choice.Listed (byteLength source.text) (s.after moves).beat.choices :=
  allOptions_after (fun _ h => h.inner) (source.listed_walk tabWidth) hstart moves _ (beat_mem _)

/-- The number of an option that is offered stands for it, and choosing it by its name leads where it leads:
to the last declared beat of the name that is its target, or into its own body, and nowhere if it has neither.
So it is even if several options share the name. -/
theorem choose_picked {source : Source} {tabWidth : Nat} (hlength : source.length < 2 ^ 63)
    {asked : Option String} (hstart : start (source.analyse tabWidth).script asked = .ok s)
    (moves : List Move) {i : Nat} {o : Offer} (ho : (s.after moves).offers[i]? = some o) :
    ∃ c, (s.after moves).beat.choices[i]? = some c ∧
      o = ⟨(s.after moves).beat.choiceId c i, c.label, c.guard⟩ ∧
      Offer.place? (s.after moves).offers (toString (i + 1)) = some i ∧
      Offer.pick? (s.after moves).offers (toString (i + 1)) = some o ∧
      ((∃ t, (s.after moves).choose o.id = .ok t) ↔
        (∃ target place, c.explicitTarget? = some target ∧ (s.after moves).index.find? target = some place) ∨
          c.explicitTarget? = none ∧ c.hasBody = true) ∧
      ∀ t, (s.after moves).choose o.id = .ok t →
        (∀ target, c.explicitTarget? = some target → ∃ n,
          (source.analyse tabWidth).script.declaredBeats.reverse.find? (·.id == target) = some n ∧
            t.beat = .ofNode n) ∧
        (c.explicitTarget? = none → t.beat = .ofChoice ((s.after moves).beat.inlineId o.id) c) := by
  have hlisted := listed_after hstart moves
  have hgrown := grown_after hstart moves
  generalize s.after moves = now at *
  have hended : now.ended = false := by
    refine eq_false_of_ne_true fun hended => ?_
    simp [offers, hended] at ho
  have hoffers : now.offers = now.beat.offers := by simp [offers, hended]
  obtain ⟨c, hc, rfl⟩ : ∃ c, now.beat.choices[i]? = some c ∧ ⟨now.beat.choiceId c i, c.label, c.guard⟩ = o := by
    rw [hoffers, Beat.getElem?_offers] at ho
    exact Option.map_eq_some_iff.mp ho
  have hplace : Offer.place? now.offers (toString (i + 1)) = some i := by
    refine Offer.place?_number (List.getElem?_eq_some_iff.mp ho).1 ?_
    have hcount := hlisted.length_le
    have hsize : byteLength source.text < 2 ^ 63 := source.length_eq ▸ hlength
    rw [hoffers, Beat.offers, List.length_map, Beat.length_options]
    omega
  obtain ⟨d, htarget, hsame, hchoose⟩ := choose_choiceId hlisted hended hc
  refine ⟨c, hc, rfl, hplace, by rw [Offer.pick?, hplace, Option.bind_some, ho], ?_, ?_⟩
  · rw [hchoose, follow_ok_iff, htarget]
    exact or_congr_right (and_congr_right fun hnone => by rw [hsame hnone])
  · intro t ht
    rw [hchoose] at ht
    obtain ⟨hdeclared, hbody⟩ := hgrown.beat_of_follow ht
    rw [htarget] at hdeclared hbody
    exact ⟨hdeclared, fun hnone => by rw [hbody hnone, hsame hnone]⟩

/-- Two options that lead to one beat, and one that has a body. -/
def lobby : Source :=
  .ofString "story s:\n scene a:\n  beat x:\n   choice:\n    option \"A\" goto x\n    option \"B\" goto x\n    option \"C\":\n     stage \"Dark.\"\n"

theorem choose_picked_lobby : lobby.length < 2 ^ 63 ∧
    ∃ started, start (lobby.analyse 8).script none = .ok started ∧
      ∃ o, (started.after [.choose "x"]).offers[2]? = some o ∧
        Offer.pick? (started.after [.choose "x"]).offers (toString (2 + 1)) = some o ∧
        ∃ c t, (started.after [.choose "x"]).beat.choices[2]? = some c ∧
          (started.after [.choose "x"]).choose o.id = .ok t ∧
          t.beat = .ofChoice ((started.after [.choose "x"]).beat.inlineId o.id) c := by
  have hall : lobby.length < 2 ^ 63 ∧ (start (lobby.analyse 8).script none).toOption.any fun s =>
      (s.after [.choose "x"]).offers[2]?.isSome &&
        (s.after [.choose "x"]).beat.choices[2]?.all fun c => c.explicitTarget?.isNone && c.hasBody := by
    decide +kernel
  obtain ⟨hlength, hruns⟩ := hall
  obtain ⟨started, hstarted, hoffers⟩ := exists_of_any hruns
  obtain ⟨hsome, hbody⟩ := Bool.and_eq_true_iff.mp hoffers
  obtain ⟨o, ho⟩ := Option.isSome_iff_exists.mp hsome
  obtain ⟨c, hc, -, -, hpick, hok, hleads⟩ := choose_picked hlength hstarted [.choose "x"] ho
  have hfree : c.explicitTarget? = none ∧ c.hasBody = true := by simpa [hc] using hbody
  obtain ⟨t, ht⟩ := hok.mpr (.inr hfree)
  exact ⟨hlength, started, hstarted, o, ho, hpick, c, t, hc, ht, (hleads t ht).2 hfree.1⟩

end Session

end BranchingStory
