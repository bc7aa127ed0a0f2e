import BranchingStory.Proofs.Play.Runs
import Mathlib.Algebra.GroupWithZero.Nat
import Mathlib.Data.List.Perm.Subperm

/-! # How many beats a session has

A session holds a beat for every beat that the script declares. Whatever is played, an inline beat has its name from
the places of the options that lead to it, and no two inline beats share a name. So there is at most one more beat for
every option that opens a body, however deep it stands in the bodies of other options. -/

namespace BranchingStory
set_option autoImplicit false

/-! ## The options of a script -/

mutual

/-- The number of options, those in the body of the option included. -/
def Choice.count : Choice → Nat
  | ⟨_, _, _, _, choices, _⟩ => countAll choices + 1

def Choice.countAll : List Choice → Nat
  | [] => 0
  | c :: rest => c.count + countAll rest

end

/-- The number of beats that are declared and of the options in them. -/
def Script.beatCount (s : Script) : Nat :=
  s.declaredBeats.length + (s.declaredBeats.map fun n => Choice.countAll n.choices).sum

mutual

/-- The option, and behind it those in its body. -/
def Choice.within : Choice → List Choice
  | ⟨label, target, guard, actions, choices, range⟩ =>
    ⟨label, target, guard, actions, choices, range⟩ :: allWithin choices

def Choice.allWithin : List Choice → List Choice
  | [] => []
  | c :: rest => c.within ++ allWithin rest

end

/-- Does the option lead to its own body? It does if it has no target and there is something in the body. -/
def Choice.opensBody (c : Choice) : Bool := c.explicitTarget?.isNone && c.hasBody

/-- The options of the declared beats, at any depth, that lead to their own bodies. -/
def Script.openings (s : Script) : List Choice :=
  (s.declaredBeats.flatMap fun n => Choice.allWithin n.choices).filter (·.opensBody)

mutual

theorem Choice.length_within (c : Choice) : c.within.length = c.count := by
  match c with
  | ⟨_, _, _, _, choices, _⟩ => rw [within, count, List.length_cons, length_allWithin choices]

theorem Choice.length_allWithin (cs : List Choice) : (allWithin cs).length = countAll cs := by
  match cs with
  | [] => rfl
  | c :: rest => rw [allWithin, countAll, List.length_append, length_within c, length_allWithin rest]

end

theorem Script.length_openings_le (s : Script) : s.declaredBeats.length + s.openings.length ≤ s.beatCount := by
  have hall : (s.declaredBeats.flatMap fun n => Choice.allWithin n.choices).length =
      (s.declaredBeats.map fun n => Choice.countAll n.choices).sum := by
    simp only [List.length_flatMap, Choice.length_allWithin]
  rw [openings, beatCount, ← hall]
  exact Nat.add_le_add_left (List.length_filter_le _ _) _

/-! ## The names of bodies -/

/-- The name of the inline beat that an option without a target leads to. -/
def Beat.bodyId (id : String) (number : Nat) : String :=
  id ++ "::inline-" ++ (id ++ "::choice-" ++ toString number)

mutual

/-- The option and those in its body, each with the name of its body as an inline beat. The option's own body is
called `id`. -/
def Choice.bodies (id : String) : Choice → List (String × Choice)
  | ⟨label, target, guard, actions, choices, range⟩ =>
    (id, ⟨label, target, guard, actions, choices, range⟩) :: bodiesFrom id 0 choices

/-- The bodies below a beat called `id` whose options are these, counted from `number`. -/
def Choice.bodiesFrom (id : String) (number : Nat) : List Choice → List (String × Choice)
  | [] => []
  | c :: rest => c.bodies (Beat.bodyId id number) ++ bodiesFrom id (number + 1) rest

end

theorem Choice.bodies_eq (id : String) (c : Choice) : c.bodies id = (id, c) :: bodiesFrom id 0 c.choices := by
  obtain ⟨label, target, guard, actions, choices, range⟩ := c
  rw [bodies]

mutual

theorem Choice.map_snd_bodies (id : String) (c : Choice) : (c.bodies id).map (·.2) = c.within := by
  match c with
  | ⟨_, _, _, _, choices, _⟩ => rw [bodies, within, List.map_cons, map_snd_bodiesFrom id 0 choices]

theorem Choice.map_snd_bodiesFrom (id : String) (number : Nat) (cs : List Choice) :
    (bodiesFrom id number cs).map (·.2) = allWithin cs := by
  match cs with
  | [] => rfl
  | c :: rest =>
    rw [bodiesFrom, allWithin, List.map_append, map_snd_bodies _ c, map_snd_bodiesFrom id (number + 1) rest]

end

theorem Choice.bodies_subset {cs : List Choice} {i : Nat} {c : Choice} (h : cs[i]? = some c) (id : String)
    (number : Nat) : c.bodies (Beat.bodyId id (number + i)) ⊆ bodiesFrom id number cs := by
  induction cs generalizing i number with
  | nil => simp at h
  | cons d rest ih =>
    rw [bodiesFrom]
    cases i with
    | zero =>
      obtain rfl : d = c := by simpa using h
      exact List.subset_append_left _ _
    | succ i =>
      have hrest := ih (i := i) (by simpa using h) (number + 1)
      rw [Nat.add_right_comm] at hrest
      exact List.subset_append_of_subset_right _ hrest

/-- The options below the declared beats with the names of their bodies. Beats that share a name give the same names
to different bodies. -/
def Script.bodies (s : Script) : List (String × Choice) :=
  s.declaredBeats.flatMap fun n => Choice.bodiesFrom n.id 0 n.choices

/-- The names that the bodies have which can be entered. -/
def Script.openedIds (s : Script) : List String := (s.bodies.filter (·.2.opensBody)).map (·.1)

theorem Script.length_openedIds (s : Script) : s.openedIds.length = s.openings.length := by
  have hoptions : s.bodies.map (·.2) = s.declaredBeats.flatMap fun n => Choice.allWithin n.choices := by
    simp only [bodies, List.map_flatMap, Choice.map_snd_bodiesFrom]
  rw [openedIds, openings, List.length_map, ← hoptions, List.filter_map, List.length_map]
  rfl

/-! ## The beats of a session -/

namespace Session
variable {script : Script} {s : Session}

/-- Do the bodies below the beat belong to the script, and is the beat itself, if it is inline, one that can be
entered? -/
def OpenedIn (script : Script) (b : Beat) : Prop :=
  Choice.bodiesFrom b.id 0 b.choices ⊆ script.bodies ∧ (b.inline = true → b.id ∈ script.openedIds)

theorem openedIn_of_option {b : Beat} {i : Nat} {c : Choice} (h : OpenedIn script b) (hc : b.choices[i]? = some c)
    (htarget : c.explicitTarget? = none) (hbody : c.hasBody = true) :
    OpenedIn script (.ofChoice (b.inlineId (b.choiceId c i)) c) := by
  have hid : b.inlineId (b.choiceId c i) = Beat.bodyId b.id (0 + i) := by
    rw [Beat.inlineId, Beat.choiceId, htarget, Option.getD_none, Beat.bodyId, Nat.zero_add]
  have hall := List.Subset.trans (Choice.bodies_subset hc b.id 0) h.1
  rw [Choice.bodies_eq, ← hid] at hall
  obtain ⟨hown, hbelow⟩ := List.cons_subset.mp hall
  have hopens : c.opensBody = true := by rw [Choice.opensBody, htarget, hbody]; rfl
  exact ⟨hbelow, fun _ => List.mem_map.mpr ⟨_, List.mem_filter.mpr ⟨hown, hopens⟩, rfl⟩⟩

theorem openedIn_after {asked : Option String} (h : start script asked = .ok s) (moves : List Move) :
    ∀ b ∈ (s.after moves).beats, OpenedIn script b := by
  refine forall_beats_after ?_ (fun _ hb _ _ => openedIn_of_option hb) h moves
  intro n hn
  exact ⟨fun _ hbody => List.mem_flatMap.mpr ⟨n, hn, hbody⟩, by simp [Beat.ofNode]⟩

/-- There are no more inline beats than names of bodies that can be entered: each has one of these names, and no two
have the same. -/
theorem length_beats_le_openedIds {asked : Option String} (h : start script asked = .ok s) (moves : List Move) :
    (s.after moves).beats.length ≤ script.declaredBeats.length + script.openedIds.length := by
  have hgrown := grown_after h moves
  have hopened := openedIn_after h moves
  generalize s.after moves = now at *
  have hinline : (now.beats.drop script.declaredBeats.length).map (·.id) ⊆ script.openedIds := by
    intro id hid
    obtain ⟨b, hb, rfl⟩ := List.mem_map.mp hid
    exact (hopened b (List.mem_of_mem_drop hb)).2 (hgrown.inline b hb)
  have hcount := (hgrown.distinct.subperm hinline).length_le
  rw [List.length_map, List.length_drop] at hcount
  exact Nat.sub_le_iff_le_add'.mp hcount

/-- However long it is played, a session has no more beats than the script has beats and options. -/
theorem length_beats_le {asked : Option String} (h : start script asked = .ok s) (moves : List Move) :
    (s.after moves).beats.length ≤ script.beatCount :=
  calc
    (s.after moves).beats.length ≤ script.declaredBeats.length + script.openedIds.length :=
      length_beats_le_openedIds h moves
    _ = script.declaredBeats.length + script.openings.length := by rw [script.length_openedIds]
    _ ≤ script.beatCount := script.length_openings_le

/-- However long it is played, a session has no more beats than the script declares and options there lead to bodies
of their own. -/
theorem length_beats_le_openings {asked : Option String} (h : start script asked = .ok s) (moves : List Move) :
    (s.after moves).beats.length ≤ script.declaredBeats.length + script.openings.length := by
  rw [← script.length_openedIds]
  exact length_beats_le_openedIds h moves

/-- The only body of the story is entered, and there is no more to add. -/
theorem length_beats_le_openings_cellar : ∃ s, start cellar none = .ok s ∧
    (s.after [.choose "stairs::choice-0", .reload]).beats.length ≤
      cellar.declaredBeats.length + cellar.openings.length ∧
    (s.after [.choose "stairs::choice-0"]).beats.length =
      cellar.declaredBeats.length + cellar.openings.length := by
  have hruns : (start cellar none).toOption.any fun s =>
      (s.after [.choose "stairs::choice-0"]).beats.length ==
        cellar.declaredBeats.length + cellar.openings.length := by decide +kernel
  obtain ⟨s, hs, hlength⟩ := exists_of_any hruns
  exact ⟨s, hs, length_beats_le_openings hs _, by simpa using hlength⟩

end Session

end BranchingStory
