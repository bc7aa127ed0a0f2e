import BranchingStory.Proofs.Play.Targets
import BranchingStory.Proofs.Script.Bodies

/-! # Options without a body at play

The checks let an option without a target through if a block stands behind it, a session only if the block
gives it an action or another option. So an option that is offered fails for want of a target exactly if it
is made from an option whose body gives it nothing. -/

namespace BranchingStory.Session
set_option autoImplicit false

variable {s : Session}

theorem follow_missingTarget_iff {id : String} {c : Choice} :
    (∃ label beat, s.follow id c = .error (.missingTarget label beat)) ↔ c.LeadsNowhere := by
  rw [follow, Choice.LeadsNowhere]
  split
  · next target htarget =>
    split
    · next place hplace => simp [htarget]
    · next hnone => simp [htarget]
  · next hnone =>
    split
    · next hbody => simp [hbody]
    · next hbody => simpa [hnone] using hbody

/-- Where no error is found, a choice anywhere in the script has neither a target nor a body exactly if it is
made from an option whose body gives it nothing. And whatever is played, following an option that is offered
fails for want of a target exactly if the choice behind it is made from such an option. -/
theorem missingTarget_iff {source : Source} {tabWidth : Nat}
    (hclean : (source.analyse tabWidth).hasErrors = false) :
    (∀ v ∈ (source.analyse tabWidth).script.walk, ∀ c ∈ v.node.choices,
        c.Every fun c => c.LeadsNowhere ↔ source.IsIdleIn (source.document tabWidth) c) ∧
      ∀ asked started moves, start (source.analyse tabWidth).script asked = .ok started →
        ∀ o ∈ (started.after moves).offers, ∃ c ∈ (started.after moves).beat.choices,
          (started.after moves).choose o.id = (started.after moves).follow o.id c ∧
            ((∃ label beat, (started.after moves).choose o.id = .error (.missingTarget label beat)) ↔
              source.IsIdleIn (source.document tabWidth) c) := by
  have hwalk := Source.every_walk hclean
  refine ⟨hwalk, ?_⟩
  intro asked started moves hstart o ho
  obtain ⟨c, hc, -, -, hchoose⟩ := choose_offer ho
  have hevery := allChoices_after (fun _ hall => hall.inner) hwalk hstart moves _ (beat_mem _) c hc
  refine ⟨c, hc, hchoose, ?_⟩
  rw [hchoose, follow_missingTarget_iff]
  exact hevery.here

/-! ## A story with an option that leads nowhere -/

/-- The only option has a body with nothing but a guard in it. -/
def porch : Source :=
  .ofString "story s:\n scene a:\n  beat x:\n   choice:\n    option \"A\":\n     when ready\n"

/-- Does the choice fail for want of a target? -/
def lacksTarget (s : Session) (id : String) : Bool :=
  match s.choose id with
  | .error (.missingTarget _ _) => true
  | _ => false

theorem exists_of_lacksTarget {id : String} (h : s.lacksTarget id = true) :
    ∃ label beat, s.choose id = .error (.missingTarget label beat) := by
  rw [lacksTarget] at h
  split at h
  · next label beat heq => exact ⟨label, beat, heq⟩
  · exact absurd h (by simp)

/-- There is nothing to say against the story, and yet its option leads nowhere. -/
theorem choose_porch : (porch.analyse 8).hasErrors = false ∧
    ∃ started, start (porch.analyse 8).script none = .ok started ∧
      ∃ o ∈ started.offers, ∃ label beat, started.choose o.id = .error (.missingTarget label beat) := by
  have hall : (porch.analyse 8).hasErrors = false ∧
      (start (porch.analyse 8).script none).toOption.any (fun s => s.offers.any (s.lacksTarget ·.id)) := by
    decide +kernel
  obtain ⟨hclean, hlacks⟩ := hall
  obtain ⟨started, hstarted, hoffers⟩ := exists_of_any hlacks
  obtain ⟨o, ho, hlack⟩ := List.any_eq_true.mp hoffers
  exact ⟨hclean, started, hstarted, o, ho, exists_of_lacksTarget hlack⟩

theorem missingTarget_iff_porch : (porch.analyse 8).hasErrors = false ∧
    ∃ started, start (porch.analyse 8).script none = .ok started ∧
      ∃ o ∈ (started.after [.choose "x"]).offers, ∃ c ∈ (started.after [.choose "x"]).beat.choices,
        (started.after [.choose "x"]).choose o.id = (started.after [.choose "x"]).follow o.id c ∧
          porch.IsIdleIn (porch.document 8) c := by
  have hall : (porch.analyse 8).hasErrors = false ∧
      (start (porch.analyse 8).script none).toOption.any fun s =>
        (s.after [.choose "x"]).offers.any ((s.after [.choose "x"]).lacksTarget ·.id) := by
    decide +kernel
  obtain ⟨hclean, hlacks⟩ := hall
  obtain ⟨started, hstarted, hoffers⟩ := exists_of_any hlacks
  obtain ⟨o, ho, hlack⟩ := List.any_eq_true.mp hoffers
  obtain ⟨c, hc, hchoose, hidle⟩ := (missingTarget_iff hclean).2 none started [.choose "x"] hstarted o ho
  exact ⟨hclean, started, hstarted, o, ho, c, hc, hchoose, hidle.mp (exists_of_lacksTarget hlack)⟩

end BranchingStory.Session
