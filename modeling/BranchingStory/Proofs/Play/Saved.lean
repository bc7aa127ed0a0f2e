import BranchingStory.Proofs.Play.Counting
import BranchingStory.Proofs.Play.Targets
import BranchingStory.Proofs.Script.Loading

/-! # Sessions that are saved

However long it is played, a session has no more beats than its script has beats and options. So all numbers of the
session can be held if those of its script can, and the session is restored wherever it is saved. -/

namespace BranchingStory
set_option autoImplicit false
open Json

/-- Can a machine that counts with 64 bits hold the script? -/
structure Script.Held (s : Script) : Prop where
  exact : s.toJson.exact
  count_lt : s.beatCount < 2 ^ 64

instance (s : Script) : Decidable s.Held :=
  decidable_of_iff (s.toJson.exact ∧ s.beatCount < 2 ^ 64) ⟨fun ⟨h, k⟩ => ⟨h, k⟩, fun ⟨h, k⟩ => ⟨h, k⟩⟩

namespace Session
variable {script : Script} {s t : Session}

theorem exact_beat_iff {b : Beat} :
    b.toJson.exact ↔
      (∀ a ∈ b.actions, a.toJson.exact) ∧ (∀ c ∈ b.choices, c.toJson.exact) ∧ b.range.toJson.exact := by
  have hguard : (orNull b.guard).exact := (Beat.fits_orNull 0 b.guard).2
  rw [Beat.toJson_eq, exact_objectOf]
  simp only [List.forall_mem_cons, Option.mem_some_iff, forall_eq', exact_array, List.forall_mem_map]
  constructor
  · rintro ⟨-, -, hactions, hchoices, hrange, -⟩
    exact ⟨hactions, hchoices, hrange⟩
  · rintro ⟨hactions, hchoices, hrange⟩
    exact ⟨rfl, hguard, hactions, hchoices, hrange, rfl, by simp⟩

theorem exact_beats_after {asked : Option String} (hexact : script.toJson.exact)
    (h : start script asked = .ok s) (moves : List Move) : ∀ b ∈ (s.after moves).beats, b.toJson.exact := by
  have hwalk : ∀ v ∈ script.walk, v.node.toJson.exact :=
    Script.forall_walk_of_hereditary (fun _ hn => (Node.exact_toJson_iff.mp hn).2.1)
      (Script.exact_toJson_iff.mp hexact).1
  refine forall_beats_after (P := fun b => b.toJson.exact) ?_ ?_ h moves
  · intro n hn
    obtain ⟨v, hv, rfl⟩ := exists_visit_of_declared hn
    obtain ⟨hactions, -, hchoices, hrange⟩ := Node.exact_toJson_iff.mp (hwalk v hv)
    exact exact_beat_iff.mpr ⟨hactions, hchoices, hrange⟩
  · intro b hb i c hc _ _
    have hchoice := (exact_beat_iff.mp hb).2.1 c (List.mem_of_getElem? hc)
    exact exact_beat_iff.mpr (Choice.exact_toJson_iff.mp hchoice)

theorem exact_toJson (hbeats : ∀ b ∈ s.beats, b.toJson.exact) (hlength : s.beats.length < 2 ^ 64) :
    s.toJson.exact := by
  have hnatural : ∀ n, n < s.beats.length → (Json.natural n).exact := by
    intro n hn
    have hlt : n < 2 ^ 64 := by omega
    simpa [Json.exact] using hlt
  have hindex : ∀ e ∈ s.index.entries, (Json.natural e.2).exact := fun e he => hnatural _ (s.index_lt e he)
  rw [toJson_eq, toJsonWith, exact_objectOf]
  simp only [List.forall_mem_cons, Option.mem_some_iff, forall_eq', exact_array, List.forall_mem_map]
  refine ⟨hbeats, ?_, hnatural _ s.current_lt, rfl, by simp⟩
  rw [Json.exact, exactFields_iff, List.forall_mem_map]
  exact hindex

/-- Wherever a session of a script is saved, it is restored as it was, inline beats and all, from every text that
can be stored for it, if its document nests no deeper than a document may that is read. -/
theorem load_saved {asked : Option String} (hheld : script.Held) (h : start script asked = .ok s)
    (moves : List Move) (hdepth : (s.after moves).toJson.depth ≤ maxDepth) :
    (s.after moves).IsStored (s.after moves).store ∧
      ∀ text, (s.after moves).IsStored text → load text = .ok (s.after moves) := by
  have hlength := length_beats_le h moves
  have hexact := exact_toJson (exact_beats_after hheld.exact h moves) (Nat.lt_of_le_of_lt hlength hheld.count_lt)
  refine ⟨isStored_store _, fun text htext => ?_⟩
  rw [load_of_isStored htext, if_pos ⟨hdepth, hexact⟩]

/-- Saved in the body of an option. -/
theorem load_saved_cellar : cellar.Held ∧ ∃ s, start cellar none = .ok s ∧
    (s.after [.choose "stairs::choice-0"]).beat.inline = true ∧
    (s.after [.choose "stairs::choice-0"]).toJson.depth ≤ maxDepth ∧
    load (s.after [.choose "stairs::choice-0"]).store = .ok (s.after [.choose "stairs::choice-0"]) := by
  have hall : cellar.Held ∧ (start cellar none).toOption.any fun s =>
      (s.after [.choose "stairs::choice-0"]).beat.inline &&
        decide ((s.after [.choose "stairs::choice-0"]).toJson.depth ≤ maxDepth) := by decide +kernel
  obtain ⟨hheld, hruns⟩ := hall
  obtain ⟨s, hs, hsaved⟩ := exists_of_any hruns
  obtain ⟨hinline, hdepth⟩ := Bool.and_eq_true_iff.mp hsaved
  obtain ⟨hstored, hload⟩ := load_saved hheld hs _ (of_decide_eq_true hdepth)
  exact ⟨hheld, s, hs, hinline, of_decide_eq_true hdepth, hload _ hstored⟩

end Session

end BranchingStory
