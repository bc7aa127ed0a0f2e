import BranchingStory.Proofs.Json.Bounds
import BranchingStory.Proofs.Script.Stored

/-! # Scripts that were loaded

A script may be loaded from a document in many forms, with records as arrays, fields in any order and fields
left out. It is written in one form only, which is never deeper than what was read: the range that every
record has needs the depth that the empty lists and texts need which stand for fields left out. So what was
loaded is loaded again once it is stored. -/

namespace BranchingStory
set_option autoImplicit false
open Json

namespace Json
variable {α : Type} {budget : Nat}

/-- Does what is read fit the budget when it is written, if no number needs more than 64 bits? -/
def Refits (budget : Nat) (read : Json → Option α) (write : α → Json) : Prop :=
  ∀ j x, j.Bounded → read j = some x → Fits budget (write x)

theorem refits_natural (budget : Nat) : Refits budget natural? .natural := by
  intro j n hj h
  cases j with
  | natural m =>
    obtain rfl : m = n := Option.some.inj h
    exact ⟨Nat.zero_le _, by simpa [exact] using hj.lt⟩
  | _ => simp [natural?] at h

theorem fits_array {items : List Json} : Fits (budget + 1) (.array items) ↔ ∀ j ∈ items, Fits budget j := by
  induction items with
  | nil => simp [fits_array_nil]
  | cons j rest ih => rw [fits_array_cons, ih, List.forall_mem_cons]

theorem refits_list {read : Nat → Json → Option α} {write : α → Json}
    (h : ∀ smaller < budget, Refits smaller (read smaller) write) :
    Refits budget (listOf? budget read) fun xs => .array (xs.map write) := by
  intro j xs hj hread
  cases budget with
  | zero => simp [listOf?] at hread
  | succ budget =>
    cases j with
    | array items =>
      refine fits_array.mpr fun written hwritten => ?_
      obtain ⟨x, hx, rfl⟩ := List.mem_map.mp hwritten
      obtain ⟨item, hitem, hxread⟩ := exists_of_mem_mapM hread x hx
      exact h budget (Nat.lt_succ_self _) item x (hj.part hitem) hxread
    | _ => simp [listOf?] at hread

end Json

/-! ## Positions and ranges -/

theorem Position.refits (budget : Nat) : Refits budget (ofJson? budget) toJson := by
  intro j p hj h
  cases budget with
  | zero => simp [ofJson?] at h
  | succ budget =>
    obtain ⟨values, hvalues, h⟩ := Option.bind_eq_some_iff.mp h
    have hinside := mem_inside_of_record? hvalues
    split at h
    · next offset line column =>
      obtain ⟨o, ho, h⟩ := Option.bind_eq_some_iff.mp h
      obtain ⟨l, hl, h⟩ := Option.bind_eq_some_iff.mp h
      obtain ⟨c, hc, h⟩ := Option.bind_eq_some_iff.mp h
      obtain rfl := Option.some.inj h
      simp only [List.forall_mem_cons, Option.mem_some_iff, forall_eq'] at hinside
      obtain ⟨hoffset, hline, hcolumn, -⟩ := hinside
      rw [toJson_eq, fits_objectOf]
      simp only [List.forall_mem_cons, Option.mem_some_iff, forall_eq']
      exact ⟨refits_natural _ _ _ (hj.part hoffset) ho, refits_natural _ _ _ (hj.part hline) hl,
        refits_natural _ _ _ (hj.part hcolumn) hc, by simp⟩
    · simp at h

theorem Json.depth_pos_of_record? {names : List String} {j : Json} {values : List (Option Json)}
    (h : record? names j = some values) : 0 < j.depth := by
  cases j with
  | object fields => exact Nat.succ_pos _
  | array items => exact Nat.succ_pos _
  | _ => simp [record?] at h

theorem Position.depth_pos {budget : Nat} {j : Json} {p : Position} (h : ofJson? budget j = some p) :
    0 < j.depth := by
  cases budget with
  | zero => simp [ofJson?] at h
  | succ budget =>
    obtain ⟨values, hvalues, -⟩ := Option.bind_eq_some_iff.mp h
    exact depth_pos_of_record? hvalues

theorem Range.ofJson?_cases {budget : Nat} {j : Json} {r : Range} (h : ofJson? (budget + 1) j = some r) :
    ∃ start ∈ j.inside, ∃ stop ∈ j.inside, Position.ofJson? budget start = some r.start ∧
      Position.ofJson? budget stop = some r.stop := by
  obtain ⟨values, hvalues, h⟩ := Option.bind_eq_some_iff.mp h
  have hinside := mem_inside_of_record? hvalues
  split at h
  · next start stop =>
    obtain ⟨first, hstart, h⟩ := Option.bind_eq_some_iff.mp h
    obtain ⟨last, hstop, h⟩ := Option.bind_eq_some_iff.mp h
    obtain rfl := Option.some.inj h
    exact ⟨start, hinside _ (by simp) _ rfl, stop, hinside _ (by simp) _ rfl, hstart, hstop⟩
  · simp at h

theorem Range.refits (budget : Nat) : Refits budget (ofJson? budget) toJson := by
  intro j r hj h
  cases budget with
  | zero => simp [ofJson?] at h
  | succ budget =>
    obtain ⟨start, hstart, stop, hstop, hfirst, hlast⟩ := ofJson?_cases h
    rw [toJson_eq, fits_objectOf]
    simp only [List.forall_mem_cons, Option.mem_some_iff, forall_eq']
    exact ⟨Position.refits _ _ _ (hj.part hstart) hfirst, Position.refits _ _ _ (hj.part hstop) hlast, by simp⟩

/-- A range is read from no less depth than it is written with. -/
theorem Range.depth_toJson_le {budget : Nat} {j : Json} {r : Range} (h : ofJson? budget j = some r) :
    r.toJson.depth ≤ j.depth := by
  cases budget with
  | zero => simp [ofJson?] at h
  | succ budget =>
    obtain ⟨start, hstart, -, -, hfirst, -⟩ := ofJson?_cases h
    have hpos := Position.depth_pos hfirst
    have hlt := depth_lt_of_mem_inside hstart
    show 2 ≤ j.depth
    omega

/-! ## Actions -/

namespace Action

theorem mem_inside_of_deed? {tag : String} {j range : Json} {d : Deed} (h : deed? tag j = some (d, range)) :
    range ∈ j.inside := by
  have hrecord : ∃ names values, record? names j = some values ∧ some range ∈ values := by
    unfold deed? at h
    split at h
    -- Each tag has a record of its own, and the range stands last in all of them.
    case h_9 => simp at h
    all_goals
      obtain ⟨values, hvalues, h⟩ := Option.bind_eq_some_iff.mp h
      refine ⟨_, values, hvalues, ?_⟩
      split at h
      · simp only [Option.bind_eq_bind, Option.bind_eq_some_iff, Option.pure_def, Option.some.injEq,
          Prod.mk.injEq] at h
        grind
      · simp at h
  obtain ⟨names, values, hvalues, hrange⟩ := hrecord
  exact mem_inside_of_record? hvalues _ hrange _ rfl

theorem mem_inside_of_tagged? {j fields : Json} {tag : String} (h : tagged? j = some (tag, fields)) :
    ∀ part ∈ fields.inside, part ∈ j.inside := by
  unfold tagged? at h
  split at h
  · obtain ⟨found, -, h⟩ := Option.bind_eq_some_iff.mp h
    split at h
    · obtain ⟨-, rfl⟩ := Prod.mk.inj (Option.some.inj h)
      exact fun _ hpart => hpart
    · simp at h
  · obtain ⟨-, rfl⟩ := Prod.mk.inj (Option.some.inj h)
    exact fun _ hpart => List.mem_cons_of_mem _ hpart
  · simp at h

/-- An action is written no deeper than its range and one level more, and was read from no less. -/
theorem refits (budget : Nat) : Refits budget (ofJson? budget) toJson := by
  intro j a hj h
  simp only [ofJson?, Option.bind_eq_bind, Option.bind_none] at h
  obtain ⟨hfits, h⟩ := Option.ite_none_left_eq_some.mp h
  obtain ⟨⟨tag, fields⟩, htagged, h⟩ := Option.bind_eq_some_iff.mp h
  obtain ⟨⟨deed, range⟩, hdeed, h⟩ := Option.bind_eq_some_iff.mp h
  obtain ⟨r, hrange, h⟩ := Option.bind_eq_some_iff.mp h
  obtain rfl := Option.some.inj h
  dsimp only at hrange
  have hbudget := Nat.not_lt.mp (not_or.mp hfits).1
  have hinside := mem_inside_of_tagged? htagged _ (mem_inside_of_deed? hdeed)
  have hdepth := depth_lt_of_mem_inside hinside
  have hwritten := Range.depth_toJson_le hrange
  have hrefits := Range.refits budget range r (hj.part hinside) hrange
  cases budget with
  | zero => omega
  | succ budget => exact (fits_iff _ budget).mpr ⟨by show r.toJson.depth ≤ budget; omega, hrefits.2⟩

end Action

/-! ## Lists that may be left out -/

/-- Where a range fits, so does the empty list. -/
theorem Range.fits_nil {budget : Nat} {r : Range} (h : Fits budget r.toJson) : Fits budget (.array []) :=
  ⟨Nat.le_trans (Nat.le_succ 1) h.1, rfl⟩

theorem Range.fits_list {α : Type} {budget : Nat} {r : Range} (hrange : Fits budget r.toJson)
    {read : Nat → Json → Option α} {write : α → Json} (h : ∀ smaller < budget, Refits smaller (read smaller) write)
    {j : Option Json} {xs : List α} (hj : ∀ part ∈ j, part.Bounded)
    (hread : defaulted? [] (listOf? budget read) j = some xs) : Fits budget (.array (xs.map write)) := by
  cases j with
  | none =>
    obtain rfl : [] = xs := Option.some.inj hread
    exact fits_nil hrange
  | some j => exact refits_list h j xs (hj j rfl) hread

/-! ## Choices -/

namespace Choice

theorem refits (budget : Nat) : Refits budget (ofJson? budget) toJson := by
  induction budget using Nat.strongRecOn with
  | ind budget ih =>
    intro j c hj h
    cases budget with
    | zero => simp [ofJson?] at h
    | succ budget =>
      rw [ofJson?] at h
      obtain ⟨values, hvalues, h⟩ := Option.bind_eq_some_iff.mp h
      have hinside := mem_inside_of_record? hvalues
      split at h
      · next label target guard actions choices range =>
        simp only [Option.bind_eq_bind, Option.bind_eq_some_iff, Option.pure_def, Option.some.injEq,
          listOfJson?_eq] at h
        obtain ⟨l, -, t, -, g, -, as, has, cs, hcs, r, hr, rfl⟩ := h
        have hrange := Range.refits budget range r (hj.part (hinside _ (by simp) _ rfl)) hr
        have hactions := Range.fits_list hrange (fun smaller _ => Action.refits smaller)
          (fun part hpart => hj.part (hinside _ (by simp) part hpart)) has
        have hchoices := Range.fits_list hrange (fun smaller hlt => ih smaller (Nat.lt_succ_of_lt hlt))
          (fun part hpart => hj.part (hinside _ (by simp) part hpart)) hcs
        rw [toJson_eq, fits_objectOf]
        simp only [fields, List.forall_mem_cons, Option.mem_some_iff, forall_eq']
        exact ⟨fits_string _ _, fits_optional _ _, fits_optional _ _, hactions, hchoices, hrange, by simp⟩
      · simp at h

end Choice

/-! ## Nodes -/

namespace Node

theorem refits (budget : Nat) : Refits budget (ofJson? budget) toJson := by
  induction budget using Nat.strongRecOn with
  | ind budget ih =>
    intro j n hj h
    cases budget with
    | zero => simp [ofJson?] at h
    | succ budget =>
      rw [ofJson?] at h
      obtain ⟨values, hvalues, h⟩ := Option.bind_eq_some_iff.mp h
      have hinside := mem_inside_of_record? hvalues
      split at h
      · next id kind guard body actions children choices range =>
        simp only [Option.bind_eq_bind, Option.bind_eq_some_iff, Option.pure_def, Option.some.injEq,
          listOfJson?_eq] at h
        obtain ⟨i, -, k, -, g, -, b, -, as, has, ns, hns, cs, hcs, r, hr, rfl⟩ := h
        have hrange := Range.refits budget range r (hj.part (hinside _ (by simp) _ rfl)) hr
        have hactions := Range.fits_list hrange (fun smaller _ => Action.refits smaller)
          (fun part hpart => hj.part (hinside _ (by simp) part hpart)) has
        have hchildren := Range.fits_list hrange (fun smaller hlt => ih smaller (Nat.lt_succ_of_lt hlt))
          (fun part hpart => hj.part (hinside _ (by simp) part hpart)) hns
        have hchoices := Range.fits_list hrange (fun smaller _ => Choice.refits smaller)
          (fun part hpart => hj.part (hinside _ (by simp) part hpart)) hcs
        rw [toJson_eq, fits_objectOf]
        simp only [fields, List.forall_mem_cons, Option.mem_some_iff, forall_eq']
        exact ⟨fits_string _ _, fits_string _ _, fits_optional _ _, fits_string _ _, hactions, hchildren,
          hchoices, hrange, by simp⟩
      · simp at h

end Node

/-! ## Scripts -/

namespace Script

theorem fits_metadata {budget : Nat} (h : 0 < budget) (metadata : Dictionary String) :
    Fits budget (.object (metadata.entries.map fun entry => (entry.1, .string entry.2))) := by
  obtain ⟨smaller, rfl⟩ := Nat.exists_eq_succ_of_ne_zero (Nat.ne_of_gt h)
  refine fits_object.mpr fun field hfield => ?_
  obtain ⟨entry, -, rfl⟩ := List.mem_map.mp hfield
  exact fits_string _ _

theorem refits (budget : Nat) : Refits budget (ofJson? budget) toJson := by
  intro j s hj h
  cases budget with
  | zero => simp [ofJson?] at h
  | succ budget =>
    rw [ofJson?] at h
    obtain ⟨values, hvalues, h⟩ := Option.bind_eq_some_iff.mp h
    have hinside := mem_inside_of_record? hvalues
    split at h
    · next metadata nodes range =>
      simp only [Option.bind_eq_bind, Option.bind_eq_some_iff, Option.pure_def, Option.some.injEq] at h
      obtain ⟨m, -, ns, hns, r, hr, rfl⟩ := h
      have hrange := Range.refits budget range r (hj.part (hinside _ (by simp) _ rfl)) hr
      have hnodes := Range.fits_list hrange (fun smaller _ => Node.refits smaller)
        (fun part hpart => hj.part (hinside _ (by simp) part hpart)) hns
      have hmetadata := fits_metadata (Nat.lt_of_lt_of_le (Nat.succ_pos 1) hrange.1) m
      rw [toJson_eq, fits_objectOf]
      simp only [List.forall_mem_cons, Option.mem_some_iff, forall_eq']
      exact ⟨fits_string _ _, hmetadata, hnodes, hrange, by simp⟩
    · simp at h

/-- Whatever text a script is loaded from, storing it and loading it again gives the same script. -/
theorem load?_store_of_load? {text : String} {s : Script} (h : load? text = some s) :
    load? s.store = some s := by
  obtain ⟨j, hj, hs⟩ := Option.bind_eq_some_iff.mp h
  exact (load?_store s s).mpr ⟨rfl, refits maxDepth j s (bounded_parse? hj) hs⟩

/-- A script as an array, with a node that leaves fields out and has one that is unknown. -/
def sketch : String :=
  "[\x7b\"title\":\"\\u00e9\"\x7d,[\x7b\"kind\":\x7b\"beat\":null\x7d,\"mood\":1.5,\"when\":null,\"range\":[[0,1,1],[4,1,5]],\"id\":\"x\"\x7d],[[0,1,1],[4,1,5]]]"

theorem load?_store_of_load?_sketch : ∃ s, load? sketch = some s ∧ s.nodes ≠ [] ∧ load? s.store = some s := by
  have hsome : (load? sketch).any (fun s => s.nodes ≠ []) = true := by decide +kernel
  cases hs : load? sketch with
  | none => simp [hs] at hsome
  | some s => exact ⟨s, rfl, by simpa [hs] using hsome, load?_store_of_load? hs⟩

end Script

end BranchingStory
