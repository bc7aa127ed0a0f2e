import BranchingStory.Proofs.Play.Runs
import BranchingStory.Proofs.Script.Targets

/-! # Targets at play

The checks let an option lead to any declaration, a session only to beats. So an option that is offered
cannot be followed exactly if it leads to a story or a scene whose name no beat has. -/

namespace BranchingStory
open Token
set_option autoImplicit false

namespace Session
variable {script : Script} {s t : Session} {names : List String}

/-! ## Options of a session -/

/-- What holds of the options of each node of a script, and passes to the options in the body of an option,
holds of the options of each beat of a session after every run. -/
theorem allOptions_after {Q : List Choice → Prop} {asked : Option String}
    (hinner : ∀ cs, Q cs → ∀ c ∈ cs, Q c.choices) (hwalk : ∀ v ∈ script.walk, Q v.node.choices)
    (h : start script asked = .ok s) (moves : List Move) : ∀ b ∈ (s.after moves).beats, Q b.choices := by
  refine forall_beats_after (P := fun b => Q b.choices) ?_ ?_ h moves
  · intro n hn
    obtain ⟨v, hv, rfl⟩ := exists_visit_of_declared hn
    exact hwalk v hv
  · exact fun _ hb _ c hc _ _ => hinner _ hb c (List.mem_of_getElem? hc)

theorem allChoices_after {P : Choice → Prop} {asked : Option String} (hinner : ∀ c, P c → ∀ d ∈ c.choices, P d)
    (hwalk : ∀ v ∈ script.walk, ∀ c ∈ v.node.choices, P c) (h : start script asked = .ok s) (moves : List Move) :
    ∀ b ∈ (s.after moves).beats, ∀ c ∈ b.choices, P c :=
  allOptions_after (Q := fun cs => ∀ c ∈ cs, P c) (fun _ hcs c hc => hinner c (hcs c hc)) hwalk h moves

/-- Are the targets of all options words among the names, also of those in the bodies of options? -/
def Aimed (names : List String) (s : Session) : Prop := ∀ b ∈ s.beats, ∀ c ∈ b.choices, c.Aimed names

theorem aimed_after {asked : Option String} (hwalk : ∀ v ∈ script.walk, v.node.Aimed names)
    (h : start script asked = .ok s) (moves : List Move) : (s.after moves).Aimed names :=
  allChoices_after (fun _ hc => hc.inner) (fun v hv => (hwalk v hv).choices) h moves

/-! ## Following an option -/

theorem choose_offer {o : Offer} (h : o ∈ s.offers) :
    ∃ c ∈ s.beat.choices, ∃ number, o.id = s.beat.choiceId c number ∧ s.choose o.id = s.follow o.id c := by
  rw [offers] at h
  split at h
  · simp at h
  · next hended =>
    obtain ⟨⟨id, first⟩, hfirst, rfl⟩ := List.mem_map.mp h
    dsimp only
    cases hfind : s.beat.options.reverse.find? (·.1 == id) with
    | none => exact absurd (List.find?_eq_none.mp hfind _ (List.mem_reverse.mpr hfirst)) (by simp)
    | some found =>
      obtain ⟨other, c⟩ := found
      obtain rfl : other = id := by simpa using List.find?_some hfind
      obtain ⟨i, hc, hid⟩ := mem_options_iff.mp (List.mem_reverse.mp (List.mem_of_find?_eq_some hfind))
      refine ⟨c, List.mem_of_getElem? hc, i, hid, ?_⟩
      rw [choose, if_neg hended, hfind]

theorem follow_unknownTarget_iff {id : String} {c : Choice} :
    (∃ label beat target, s.follow id c = .error (.unknownTarget label beat target)) ↔
      ∃ target, c.explicitTarget? = some target ∧ s.index.find? target = none := by
  rw [follow]
  split
  · next target htarget =>
    split
    · next place hplace => simp [htarget, hplace]
    · next hnone => simp [htarget, hnone]
  · next hnone =>
    split
    · simp [hnone]
    · simp [hnone]

/-- The name of an option without a target is no word. -/
theorem not_isName_choiceId {b : Beat} {c : Choice} (h : c.explicitTarget? = none) (number : Nat) :
    b.choiceId c number ≠ "" ∧ ¬ IsName (b.choiceId c number) := by
  have hcolon : ':' ∈ (b.choiceId c number).toList := by simp [Beat.choiceId, h]
  refine ⟨fun hempty => ?_, fun hname => hname.colon_not_mem hcolon⟩
  rw [hempty] at hcolon
  exact absurd hcolon (by simp)

/-! ## Names of a script -/

theorem mem_declaredBeats {id : String} :
    id ∈ script.declaredBeats.map (·.id) ↔ ∃ v ∈ script.walk, v.node.kind = .beat ∧ v.node.id = id := by
  rw [Script.declaredBeats]
  constructor
  · intro h
    obtain ⟨n, hn, rfl⟩ := List.mem_map.mp h
    obtain ⟨hwalk, hkind⟩ := List.mem_filter.mp hn
    obtain ⟨v, hv, rfl⟩ := List.mem_map.mp hwalk
    exact ⟨v, hv, by simpa using hkind, rfl⟩
  · rintro ⟨v, hv, hkind, rfl⟩
    exact List.mem_map_of_mem (List.mem_filter.mpr ⟨List.mem_map_of_mem hv, by simpa using hkind⟩)

theorem mem_targets {id : String} : id ∈ script.targets ↔ (∃ v ∈ script.walk, v.node.id = id) ∧ id ≠ "" := by
  simp [Script.targets]

theorem Grown.find?_eq_none_iff (h : s.Grown script) (id : String) :
    s.index.find? id = none ↔ ∀ v ∈ script.walk, v.node.kind = .beat → v.node.id ≠ id := by
  constructor
  · intro hnone v hv hkind hid
    obtain ⟨place, hplace⟩ := exists_isLastPlace (mem_declaredBeats.mpr ⟨v, hv, hkind, hid⟩)
    rw [(h.find?_index id place).mpr hplace] at hnone
    exact absurd hnone (by simp)
  · intro hall
    cases hfind : s.index.find? id with
    | none => rfl
    | some place =>
      have hmem := List.mem_of_getElem? ((h.find?_index id place).mp hfind).1
      obtain ⟨v, hv, hkind, hid⟩ := mem_declaredBeats.mp hmem
      exact absurd hid (hall v hv hkind)

/-- What an option that is offered leads to cannot be found exactly if the option has the name of a story or
a scene and no beat has it. -/
theorem unknownTarget_iff {source : Source} {tabWidth : Nat} {asked : Option String}
    (hclean : (source.analyse tabWidth).hasErrors = false)
    (hstart : start (source.analyse tabWidth).script asked = .ok s) (moves : List Move) {o : Offer}
    (ho : o ∈ (s.after moves).offers) :
    (∃ label beat target, (s.after moves).choose o.id = .error (.unknownTarget label beat target)) ↔
      (∃ v ∈ (source.analyse tabWidth).script.walk,
        v.node.id = o.id ∧ (v.node.kind = .story ∨ v.node.kind = .scene)) ∧
      ∀ v ∈ (source.analyse tabWidth).script.walk, v.node.kind = .beat → v.node.id ≠ o.id := by
  have hwalk := Source.aimed_walk hclean
  obtain ⟨c, hc, number, hid, hchoose⟩ := choose_offer ho
  have haimed := aimed_after hwalk hstart moves _ (beat_mem _) c hc
  rw [hchoose, follow_unknownTarget_iff]
  cases htarget : c.explicitTarget? with
  | none =>
    -- An option without a target has a name that no declaration has.
    obtain ⟨hempty, hname⟩ := not_isName_choiceId htarget number
    rw [← hid] at hempty hname
    refine iff_of_false (by simp) ?_
    rintro ⟨⟨v, hv, heq, -⟩, -⟩
    rcases (hwalk v hv).name with hunnamed | ⟨hnamed, -⟩
    · exact hempty (heq ▸ hunnamed)
    · exact hname (heq ▸ hnamed)
  | some target =>
    obtain rfl : o.id = target := by rw [hid, Beat.choiceId, htarget, Option.getD_some]
    have hfind := (grown_after hstart moves).find?_eq_none_iff o.id
    constructor
    · rintro ⟨_, ⟨⟩, hnone⟩
      have hbeats := hfind.mp hnone
      refine ⟨?_, hbeats⟩
      rw [explicitTarget?_of_aimed haimed] at htarget
      obtain ⟨⟨v, hv, heq⟩, hempty⟩ := mem_targets.mp (haimed.target htarget).2
      refine ⟨v, hv, heq, ?_⟩
      rcases (hwalk v hv).name with hunnamed | ⟨-, hkind⟩
      · exact absurd (heq.symm.trans hunnamed) hempty
      · have hbeat : v.node.kind ≠ .beat := fun hbeat => hbeats v hv hbeat heq
        cases hnode : v.node.kind with
        | story => exact .inl rfl
        | scene => exact .inr rfl
        | _ => simp_all [NodeKind.isNarrative]
    · rintro ⟨-, hbeats⟩
      exact ⟨_, rfl, hfind.mpr hbeats⟩

/-! ## A story with an option that leads to a scene -/

/-- The only option leads to the scene that it stands in. -/
def circle : Source :=
  .ofString "story s:\n  scene a:\n    beat x:\n      choice:\n        option \"Go\" goto a\n"

/-- Does the choice lead to a target that is not found? -/
def missesTarget (s : Session) (id : String) : Bool :=
  match s.choose id with
  | .error (.unknownTarget _ _ _) => true
  | _ => false

theorem exists_of_missesTarget {id : String} (h : s.missesTarget id = true) :
    ∃ label beat target, s.choose id = .error (.unknownTarget label beat target) := by
  rw [missesTarget] at h
  split at h
  · next label beat target heq => exact ⟨label, beat, target, heq⟩
  · exact absurd h (by simp)

/-- There is nothing to say against the story, and yet its option cannot be followed. -/
theorem choose_circle : (circle.analyse 8).hasErrors = false ∧
    ∃ started, start (circle.analyse 8).script none = .ok started ∧
      ∃ o ∈ started.offers, ∃ label beat target,
        started.choose o.id = .error (.unknownTarget label beat target) := by
  have hall : (circle.analyse 8).hasErrors = false ∧
      (start (circle.analyse 8).script none).toOption.any (fun s => s.offers.any (s.missesTarget ·.id)) := by
    decide +kernel
  obtain ⟨hclean, hmisses⟩ := hall
  obtain ⟨started, hstarted, hoffers⟩ := exists_of_any hmisses
  obtain ⟨o, ho, hmiss⟩ := List.any_eq_true.mp hoffers
  exact ⟨hclean, started, hstarted, o, ho, exists_of_missesTarget hmiss⟩

theorem unknownTarget_circle : (circle.analyse 8).hasErrors = false ∧
    ∃ started, start (circle.analyse 8).script none = .ok started ∧
      ∃ o ∈ (started.after [.choose "x"]).offers, ∃ label beat target,
        (started.after [.choose "x"]).choose o.id = .error (.unknownTarget label beat target) := by
  have hall : (circle.analyse 8).hasErrors = false ∧
      (start (circle.analyse 8).script none).toOption.any fun s =>
        (s.after [.choose "x"]).offers.any fun o =>
          (circle.analyse 8).script.walk.any (fun v => v.node.id == o.id && v.node.kind == .scene) &&
            (circle.analyse 8).script.walk.all fun v => v.node.kind != .beat || v.node.id != o.id := by
    decide +kernel
  obtain ⟨hclean, hruns⟩ := hall
  obtain ⟨started, hstarted, hoffers⟩ := exists_of_any hruns
  obtain ⟨o, ho, hnames⟩ := List.any_eq_true.mp hoffers
  obtain ⟨hscene, hbeats⟩ := Bool.and_eq_true_iff.mp hnames
  refine ⟨hclean, started, hstarted, o, ho, (unknownTarget_iff hclean hstarted _ ho).mpr ⟨?_, ?_⟩⟩
  · obtain ⟨v, hv, hnode⟩ := List.any_eq_true.mp hscene
    simp only [Bool.and_eq_true, beq_iff_eq] at hnode
    exact ⟨v, hv, hnode.1, .inr hnode.2⟩
  · intro v hv hkind
    have hnode := List.all_eq_true.mp hbeats v hv
    simpa [hkind] using hnode

end Session

end BranchingStory
