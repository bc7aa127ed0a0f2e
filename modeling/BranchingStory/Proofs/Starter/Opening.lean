import BranchingStory.Proofs.Play.InPlace
import BranchingStory.Proofs.Starter.Story

/-! # Playing the starter

A script whose one node is the story of the starter has nothing wrong about its meaning, and it is played from its
first beat, where one choice is offered, to the second. -/

namespace BranchingStory
set_option autoImplicit false

/-- Does a session of the script start at the first beat of the starter, with one choice, to the second beat? -/
def Script.Opens (script : Script) : Prop :=
  ∃ s o t, Session.start script none = .ok s ∧ s.beat.id = "arrival" ∧ s.offers = [o] ∧ s.choose o.id = .ok t ∧
    t.beat.id = "next_step"

namespace Starter
variable {name : String} {n : Node} {script : Script}

/-! ## Meaning -/

theorem IsStory.id_eq (h : IsStory name n) : n.id = name := by
  cases h
  rfl

theorem IsStory.story?_eq (h : IsStory name n) (hscript : script.nodes = [n]) : script.story? = some n := by
  rw [Script.story?, hscript]
  cases h
  rfl

theorem IsStory.siblingFindings_eq (h : IsStory name n) : Node.siblingFindings none [] [n] = [] := by
  obtain ⟨beats, action, body, body', range, range', range'', ⟨⟩⟩ := h
  simp [Node.siblingFindings, Node.findings, Node.duplicateFindings, Node.contentFindings, Node.isEmpty]

theorem IsStory.collisionFindings_eq (h : IsStory name n) (hscript : script.nodes = [n]) :
    script.collisionFindings = [] := by
  rw [Script.collisionFindings, Script.walk, hscript]
  obtain ⟨beats, action, body, body', range, range', range'', ⟨⟩⟩ := h
  simp [Visit.ofSiblings, Visit.ofNode, Visit.isNamedBeat, Visit.collisions, Visit.collision]

theorem IsStory.mem_targets (h : IsStory name n) (hscript : script.nodes = [n]) : "next_step" ∈ script.targets := by
  rw [Script.targets, Script.walk, hscript]
  obtain ⟨beats, action, body, body', range, range', range'', ⟨⟩⟩ := h
  simp [Visit.ofSiblings, Visit.ofNode]

/-- Only the story itself could be without a name. -/
theorem IsStory.named (h : IsStory name n) (hscript : script.nodes = [n]) (hname : name ≠ "") :
    ∀ v ∈ script.walk, v.node.kind.isNarrative = true → v.node.id ≠ "" := by
  rw [Script.walk, hscript]
  obtain ⟨beats, action, body, body', range, range', range'', ⟨⟩⟩ := h
  simp [Visit.ofSiblings, Visit.ofNode, NodeKind.isNarrative, hname]

/-! ## Playing -/

/-- The beat that is first of all declared beats is found first. -/
theorem begin?_first (first : Node) (others : List Node) : ∃ s, Session.begin? (first :: others) first = some s ∧
    s.beats = (first :: others).map .ofNode ∧ s.index = Session.places ((first :: others).map (·.id)) ∧
      s.current = 0 ∧ s.ended = (Beat.ofNode first).isLast := by
  have hfound : ((first :: others).findIdx? fun n => n.id == first.id && n.range == first.range) = some 0 := by
    simp [List.findIdx?_cons]
  rw [Session.begin?]
  split
  · next hnone => exact absurd (hnone.symm.trans hfound) (by simp)
  · next current hcurrent =>
    obtain rfl : current = 0 := Option.some.inj (hcurrent.symm.trans hfound)
    exact ⟨_, rfl, rfl, rfl, rfl, rfl⟩

/-- The story opens with its scene, and the beats of the scene are all that are declared. -/
theorem IsStory.exists_beats (h : IsStory name n) (hscript : script.nodes = [n]) : ∃ scene first second option,
    n.openingScene none = .ok scene ∧ (scene.childrenOf .beat).head? = some first ∧
      script.declaredBeats = [first, second] ∧ first.id = "arrival" ∧ second.id = "next_step" ∧
      first.hasFinish = false ∧ first.choices = [⟨"Continue", some "next_step", none, [], [], option⟩] := by
  have hopening : ("starting_scene = opening".toList.splitOn '\n').findSome? Opening.lineScene? = some "opening" := by
    decide +kernel
  obtain ⟨beats, action, body, body', range, range', range'', hbeats⟩ := h
  let scene : Node := ⟨"opening", .scene, none, body', [], beats, [], range''⟩
  let config : Node := ⟨"", .config, none, "starting_scene = opening", [action], [], [], range'⟩
  let story : Node := ⟨name, .story, none, body, [], [config, scene], [], range⟩
  have hconfigured : Opening.configured? story = some "opening" := by
    show [config].findSome? (fun config => (config.body.toList.splitOn '\n').findSome? Opening.lineScene?) = _
    rw [List.findSome?_singleton]
    exact hopening
  have hscene : story.openingScene none = .ok scene := by
    rw [Node.openingScene, hconfigured]
    rfl
  rw [Script.declaredBeats, Script.walk, hscript]
  obtain ⟨⟩ := hbeats
  exact ⟨_, _, _, _, hscene, rfl, rfl, rfl, rfl, rfl, rfl⟩

theorem IsStory.opens (h : IsStory name n) (hscript : script.nodes = [n]) (hfault : script.fault? = none) :
    script.Opens := by
  obtain ⟨scene, first, second, range, hscene, hhead, hdeclared, hfirst, hsecond, hfinish, hchoices⟩ :=
    h.exists_beats hscript
  obtain ⟨s, hbegin, hbeats, hindex, hcurrent, hended⟩ := begin?_first first [second]
  have hstart : Session.start script none = .ok s := by
    rw [Session.start, hfault, h.story?_eq hscript]
    simp only [hscene, hhead, hdeclared, hbegin]
  have hbeat : s.beat = .ofNode first := by
    simp [Session.beat, hcurrent, hbeats]
  have hgoes : s.ended = false := by
    rw [hended]
    show (first.hasFinish || first.choices.isEmpty) = false
    rw [hfinish, hchoices]
    rfl
  let c : Choice := ⟨"Continue", some "next_step", none, [], [], range⟩
  have htarget : c.explicitTarget? = some "next_step" := by
    have htrim : Text.trimString "next_step" = "next_step" := by decide +kernel
    show (some (Text.trimString "next_step")).filter _ = _
    rw [htrim]
    rfl
  have hid : s.beat.choiceId c 0 = "next_step" := by
    rw [Beat.choiceId, htarget]
    rfl
  have hoptions : s.beat.options = [("next_step", c)] := by
    have hlist : s.beat.choices = [c] := by
      rw [hbeat]
      exact hchoices
    rw [Beat.options, hlist, ← hid]
    rfl
  have hplace : s.index.find? "next_step" = some 1 := by
    rw [hindex, List.map_cons, List.map_singleton, hfirst, hsecond]
    decide +kernel
  obtain ⟨hlt, hfollow⟩ := Session.follow_of_found "next_step" htarget hplace
  refine ⟨s, ⟨"next_step", "Continue", none⟩, s.goTo 1 hlt, hstart, ?_, ?_, ?_, ?_⟩
  · rw [hbeat]
    exact hfirst
  · rw [Session.offers, hgoes, Beat.offers, hoptions]
    rfl
  · rw [Session.choose, hgoes, hoptions]
    exact hfollow
  · simp [Session.beat, Session.goTo, hbeats, Beat.ofNode, hsecond]

end Starter

end BranchingStory
