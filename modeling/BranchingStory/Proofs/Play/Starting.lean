import BranchingStory.Play.Session
import BranchingStory.Proofs.Script.Faults

/-! # Starting a session

A session finds the beat that it starts with among the beats of its script, so only a fault in the structure of
the script makes the script unplayable. A script that is made from a source has such a fault only where a
name is absent, and then reading the source has found an error. -/

namespace BranchingStory
set_option autoImplicit false

namespace Session
variable {script : Script}

/-- A beat that the walk visits is among the beats of a session. -/
theorem begin?_ne_none {n : Node} (h : n ∈ script.declaredBeats) : begin? script.declaredBeats n ≠ none := by
  rw [begin?]
  split
  · next hnone =>
    have hdiffers := List.findIdx?_eq_none_iff.mp hnone n h
    simp at hdiffers
  · simp

theorem openingScene_mem {story scene : Node} {asked : Option String}
    (h : story.openingScene asked = .ok scene) : scene ∈ story.children := by
  have hscenes : scene ∈ story.childrenOf .scene := by
    rw [Node.openingScene] at h
    split at h
    · exact absurd h (by simp)
    · next first others hscenes =>
      rw [hscenes]
      split at h
      · obtain rfl := Except.ok.inj h
        exact List.mem_cons_self
      · split at h
        · next found hfound =>
          obtain rfl := Except.ok.inj h
          exact List.mem_of_find?_eq_some hfound
        · exact absurd h (by simp)
  exact (List.mem_filter.mp hscenes).1

theorem openingScene_ne_invalidRuntime {story : Node} {asked : Option String} {fault : RuntimeFault} :
    story.openingScene asked ≠ .error (.invalidRuntime fault) := by
  rw [Node.openingScene]
  split
  · simp
  · split
    · simp
    · split <;> simp

/-- Only a fault of its structure makes a script unplayable. -/
theorem start_invalidRuntime_iff {asked : Option String} {fault : RuntimeFault} :
    start script asked = .error (.invalidRuntime fault) ↔
      ∃ found, script.fault? = some found ∧ fault = .malformed found := by
  rw [start]
  split
  · next found story hfault => simp [hfault, eq_comm]
  · next hfault _ => simp [hfault]
  · next story hfault hstory =>
    refine iff_of_false ?_ (by simp [hfault])
    split
    · next e hopening =>
      intro he
      obtain rfl := Except.error.inj he
      exact openingScene_ne_invalidRuntime hopening
    · next scene hopening =>
      split
      · simp
      · next first hfirst =>
        -- The story, the scene and its first beat are all on the walk.
        obtain ⟨hbeat, hkind⟩ := List.mem_filter.mp (List.mem_of_head? hfirst)
        obtain ⟨v, hv, rfl⟩ := Script.exists_visit (List.mem_of_find?_eq_some hstory)
        obtain ⟨v, hv, rfl⟩ := Script.exists_visit_child hv (openingScene_mem hopening)
        obtain ⟨v, hv, rfl⟩ := Script.exists_visit_child hv hbeat
        split
        · next hbegin =>
          exact absurd hbegin (begin?_ne_none (List.mem_filter.mpr ⟨List.mem_map_of_mem hv, hkind⟩))
        · simp

end Session

namespace Source

/-- The structure of a script that is made from a source is never at fault for a range. It is at fault exactly
if a story, a scene or a beat has no name, and then a missing name is among the errors. So without an error
the structure is sound, and no session ends in an invalid runtime at its start, whatever scene is asked for. -/
theorem fault?_analyse (s : Source) (tabWidth : Nat) :
    (∀ fault, (s.analyse tabWidth).script.fault? = some fault →
      ∃ v ∈ (s.analyse tabWidth).script.walk, fault = .unnamed v.node) ∧
    ((s.analyse tabWidth).script.fault? ≠ none ↔
      ∃ v ∈ (s.analyse tabWidth).script.walk, v.node.kind.isNarrative = true ∧ v.node.id = "") ∧
    ((s.analyse tabWidth).script.fault? ≠ none →
      ∃ d ∈ (s.analyse tabWidth).diagnostics,
        d.code = "SKR002" ∧ d.message = "Missing identifier segment." ∧ d.severity = .error) ∧
    ((s.analyse tabWidth).hasErrors = false →
      (s.analyse tabWidth).script.fault? = none ∧
        ∀ asked fault, Session.start (s.analyse tabWidth).script asked ≠ .error (.invalidRuntime fault)) := by
  have hunnamed := s.fault?_eq_unnamed? tabWidth
  have hiff : (s.analyse tabWidth).script.fault? ≠ none ↔
      ∃ v ∈ (s.analyse tabWidth).script.walk, v.node.kind.isNarrative = true ∧ v.node.id = "" := by
    rw [hunnamed, Visit.unnamed?_ne_none_iff]
    exact exists_congr fun v => and_congr_right fun hv => isUnnamed_walk_iff hv
  have hmissing : (s.analyse tabWidth).script.fault? ≠ none →
      ∃ d ∈ (s.analyse tabWidth).diagnostics,
        d.code = "SKR002" ∧ d.message = "Missing identifier segment." ∧ d.severity = .error := by
    intro hfault
    obtain ⟨v, hv, hnarrative, hid⟩ := hiff.mp hfault
    exact missing_of_unnamed hv hnarrative hid
  refine ⟨fun fault hfault => ?_, hiff, hmissing, fun hclean => ?_⟩
  · rw [hunnamed] at hfault
    obtain ⟨v, hv, rfl⟩ := Option.map_eq_some_iff.mp hfault
    exact ⟨v, List.mem_of_find?_eq_some hv, rfl⟩
  · have hsound : (s.analyse tabWidth).script.fault? = none := by
      by_contra hfault
      obtain ⟨d, hd, -, -, herror⟩ := hmissing hfault
      have hnone := List.any_eq_false.mp hclean d hd
      simp [Diagnostic.isError, herror] at hnone
    refine ⟨hsound, fun asked fault hstart => ?_⟩
    obtain ⟨found, hfound, -⟩ := Session.start_invalidRuntime_iff.mp hstart
    exact absurd (hsound.symm.trans hfound) (by simp)

/-- The scene of the story has no name. -/
def shed : Source := .ofString "story s:\n scene:\n  beat x:\n   end\n"

/-- The same story with a name for its scene. -/
def barn : Source := .ofString "story s:\n scene a:\n  beat x:\n   end\n"

theorem fault?_analyse_shed :
    ((shed.analyse 8).script.fault? ≠ none ∧ ∃ d ∈ (shed.analyse 8).diagnostics,
      d.code = "SKR002" ∧ d.message = "Missing identifier segment." ∧ d.severity = .error) ∧
    (barn.analyse 8).hasErrors = false ∧ (barn.analyse 8).script.fault? = none ∧
      ∀ asked fault, Session.start (barn.analyse 8).script asked ≠ .error (.invalidRuntime fault) := by
  have hshed : (shed.analyse 8).script.fault?.isSome = true := by decide +kernel
  have hbarn : (barn.analyse 8).hasErrors = false := by decide +kernel
  have hfault := Option.isSome_iff_ne_none.mp hshed
  exact ⟨⟨hfault, (fault?_analyse shed 8).2.2.1 hfault⟩, hbarn, (fault?_analyse barn 8).2.2.2 hbarn⟩

end Source

end BranchingStory
