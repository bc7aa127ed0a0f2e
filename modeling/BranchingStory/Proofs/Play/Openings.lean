import BranchingStory.Proofs.Play.Runs
import BranchingStory.Proofs.Play.Starting
import BranchingStory.Proofs.Script.Order
import Mathlib.Data.List.Nodup

/-! # The first beat of a session

A session begins in the scene that is asked for, with the first beat of it. It finds that beat among the beats of
all scenes by name and range. In a script that is made from a source no two beats have the same range, but in one
that is loaded they can, and then the first beat of the script with the name and the range is taken. -/

namespace BranchingStory
set_option autoImplicit false

/-- The scene with which the first story of the script opens: the one of the name that is asked for, or else the
name that the story sets, or else the first one. -/
def Script.OpensWith (script : Script) (asked : Option String) (scene : Node) : Prop :=
  ∃ story, script.story? = some story ∧
    (story.childrenOf .scene).find? (fun n => (asked.or (Opening.configured? story)).all (n.id == ·)) = some scene

namespace Session
variable {script : Script} {asked : Option String} {s : Session} {first : Node}

theorem find?_of_openingScene {story scene : Node} (h : story.openingScene asked = .ok scene) :
    (story.childrenOf .scene).find? (fun n => (asked.or (Opening.configured? story)).all (n.id == ·)) =
      some scene := by
  rw [Node.openingScene] at h
  split at h
  · exact absurd h (by simp)
  · next front others hscenes =>
    rw [hscenes]
    split at h
    · next hnone =>
      obtain rfl := Except.ok.inj h
      rw [hnone, List.find?_cons_of_pos rfl]
    · next id hid =>
      rw [hid]
      split at h
      · next found hfound =>
        obtain rfl := Except.ok.inj h
        exact hfound
      · exact absurd h (by simp)

/-- A session begins with the first of the beats that has the name and the range. -/
theorem beat_begin? {declared : List Node} (h : begin? declared first = some s) :
    ∃ n, declared.find? (fun m => m.id == first.id && m.range == first.range) = some n ∧ s.beat = .ofNode n := by
  rw [begin?] at h
  split at h
  · exact absurd h (by simp)
  · next current hcurrent =>
    obtain rfl := Option.some.inj h
    obtain ⟨hlt, hfound, hbefore⟩ := List.findIdx?_eq_some_iff_getElem.mp hcurrent
    refine ⟨declared[current], ?_, ?_⟩
    · refine List.find?_eq_some_iff_getElem.mpr ⟨hfound, current, hlt, rfl, fun j hj => ?_⟩
      exact Bool.eq_false_iff.mpr (hbefore j hj) ▸ rfl
    · rw [beat, List.get_eq_getElem, List.getElem_map]

/-- The beats of a scene with which a script opens are among those of the script. -/
theorem first_mem_declaredBeats {scene : Node} (hscene : script.OpensWith asked scene)
    (hfirst : first ∈ scene.childrenOf .beat) : first ∈ script.declaredBeats := by
  obtain ⟨story, hstory, hfound⟩ := hscene
  obtain ⟨hbeat, hkind⟩ := List.mem_filter.mp hfirst
  have hchild : scene ∈ story.children := (List.mem_filter.mp (List.mem_of_find?_eq_some hfound)).1
  obtain ⟨v, hv, rfl⟩ := Script.exists_visit (List.mem_of_find?_eq_some hstory)
  obtain ⟨v, hv, rfl⟩ := Script.exists_visit_child hv hchild
  obtain ⟨v, hv, rfl⟩ := Script.exists_visit_child hv hbeat
  exact List.mem_filter.mpr ⟨List.mem_map_of_mem hv, hkind⟩

/-- In a script that is made from a source a beat is told from all others by its range. -/
theorem eq_of_range_eq {source : Source} {tabWidth : Nat} {m n : Node}
    (hm : m ∈ (source.analyse tabWidth).script.declaredBeats)
    (hn : n ∈ (source.analyse tabWidth).script.declaredBeats) (hrange : m.range = n.range) : m = n := by
  have hdistinct : (((source.analyse tabWidth).script.walk.map (·.node)).map (·.range.start.offset)).Nodup := by
    rw [List.map_map, List.Nodup, List.pairwise_map]
    exact (source.walk_ordered tabWidth).imp Nat.ne_of_lt
  exact List.inj_on_of_nodup_map hdistinct (List.mem_of_mem_filter hm) (List.mem_of_mem_filter hn)
    (congrArg (·.start.offset) hrange)

/-- A session begins with the first beat of the scene that is asked for, if no other beat of the script has both the
name and the range of that beat, as in every script that is made from a source. Otherwise it begins with the
first beat of the script that has them. -/
theorem beat_start (h : start script asked = .ok s) : ∃ scene first n,
    script.OpensWith asked scene ∧ (scene.childrenOf .beat).head? = some first ∧
      script.declaredBeats.find? (fun m => m.id == first.id && m.range == first.range) = some n ∧
      s.beat = .ofNode n ∧ s.beat.id = first.id ∧ s.beat.range = first.range ∧
      ((∀ m ∈ script.declaredBeats, m.id = first.id → m.range = first.range → m = first) →
        s.beat = .ofNode first) ∧
      ∀ (source : Source) tabWidth, (source.analyse tabWidth).script = script → s.beat = .ofNode first := by
  obtain ⟨story, scene, first, hstory, hscene, hfirst, hbegin⟩ := exists_first h
  obtain ⟨n, hn, hbeat⟩ := beat_begin? hbegin
  have hopens : script.OpensWith asked scene := ⟨story, hstory, find?_of_openingScene hscene⟩
  have hmem := first_mem_declaredBeats hopens (List.mem_of_head? hfirst)
  obtain ⟨hid, hrange⟩ : n.id = first.id ∧ n.range = first.range := by simpa using List.find?_some hn
  have hfound := List.mem_of_find?_eq_some hn
  refine ⟨scene, first, n, hopens, hfirst, hn, hbeat, by rw [hbeat]; exact hid, by rw [hbeat]; exact hrange, ?_, ?_⟩
  · intro honly
    rw [hbeat, honly n hfound hid hrange]
  · rintro source tabWidth rfl
    rw [hbeat, eq_of_range_eq hfound hmem hrange]

theorem beat_start_cellar : ∃ s, start cellar none = .ok s ∧ ∃ scene first n,
    cellar.OpensWith none scene ∧ (scene.childrenOf .beat).head? = some first ∧
      cellar.declaredBeats.find? (fun m => m.id == first.id && m.range == first.range) = some n ∧
      s.beat = .ofNode n := by
  have hany : (start cellar none).toOption.any (fun _ => true) = true := by decide +kernel
  obtain ⟨s, hs, -⟩ := exists_of_any hany
  obtain ⟨scene, first, n, hscene, hfirst, hn, hbeat, -⟩ := beat_start hs
  exact ⟨s, hs, scene, first, n, hscene, hfirst, hn, hbeat⟩

/-- A beat whose range is not known. -/
def entrance (text : String) : Node :=
  ⟨"x", .beat, none, "", [⟨.stage text, ⟨.origin, .origin⟩⟩], [], [], ⟨.origin, .origin⟩⟩

def room (name text : String) : Node := ⟨name, .scene, none, "", [], [entrance text], [], ⟨.origin, .origin⟩⟩

/-- A story with two scenes that begin alike. -/
def rooms : Node :=
  ⟨"s", .story, none, "", [], [room "attic" "Dust.", room "cellar" "Mould."], [], ⟨.origin, .origin⟩⟩

/-- A session that is to begin in the cellar begins in the attic, since the first beats of both scenes have one name
and one range. -/
theorem start_rooms : Script.OpensWith ⟨.empty, [rooms], rooms.range⟩ (some "cellar") (room "cellar" "Mould.") ∧
    ((room "cellar" "Mould.").childrenOf .beat).head? = some (entrance "Mould.") ∧
    ∃ s, start ⟨.empty, [rooms], rooms.range⟩ (some "cellar") = .ok s ∧ s.beat = .ofNode (entrance "Dust.") ∧
      s.beat.actions ≠ (entrance "Mould.").actions := by
  have hany : (start ⟨.empty, [rooms], rooms.range⟩ (some "cellar")).toOption.any
      (fun s => s.beat = .ofNode (entrance "Dust.")) = true := by decide +kernel
  obtain ⟨s, hs, hbeat⟩ := exists_of_any hany
  have hbeat := of_decide_eq_true hbeat
  refine ⟨⟨rooms, rfl, by decide +kernel⟩, by decide +kernel, s, hs, hbeat, ?_⟩
  rw [hbeat]
  decide +kernel

end Session

end BranchingStory
