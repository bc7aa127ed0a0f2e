import BranchingStory.Proofs.Json.Records
import Mathlib.Logic.Basic

/-! # The numbers of a document

Whatever text is read, no natural number of the value needs more than 64 bits; and what a record is made of
lies inside the value that it is read from. -/

namespace BranchingStory
set_option autoImplicit false

theorem take?_eq_some {τ α : Type} {kind : τ → Option α} {ts : List τ} {front : Front τ α ts.length}
    (h : take? kind ts = some front) : ∃ t, ts = t :: front.rest ∧ kind t = some front.value := by
  cases ts with
  | nil => simp [take?] at h
  | cons t rest =>
    obtain ⟨a, ha, rfl⟩ := Option.map_eq_some_iff.mp h
    exact ⟨t, rfl, ha⟩

namespace Json

/-! ## Inside a value -/

/-- The values that stand directly in a value. -/
def inside : Json → List Json
  | .array items => items
  | .object fields => fields.map (·.2)
  | _ => []

theorem depthItems_le {items : List Json} {budget : Nat} :
    depthItems items ≤ budget ↔ ∀ j ∈ items, j.depth ≤ budget := by
  induction items with
  | nil => simp [depthItems]
  | cons j rest ih => simp only [depthItems, Nat.max_le, ih, List.forall_mem_cons]

theorem depth_lt_of_mem_inside {j part : Json} (h : part ∈ j.inside) : part.depth < j.depth := by
  cases j with
  | array items => exact Nat.lt_succ_of_le (depthItems_le.mp (Nat.le_refl _) part h)
  | object fields =>
    obtain ⟨field, hfield, rfl⟩ := List.mem_map.mp h
    exact Nat.lt_succ_of_le (depthFields_le.mp (Nat.le_refl _) field hfield)
  | _ => simp [inside] at h

/-- Is every natural number in the value below `2 ^ 64`? -/
inductive Bounded : Json → Prop
  | intro {j : Json} (number : ∀ n, j = .natural n → n < Nat.pow 2 64)
      (parts : ∀ part ∈ j.inside, Bounded part) : Bounded j

namespace Bounded

theorem lt {n : Nat} (h : Bounded (.natural n)) : n < Nat.pow 2 64 := by
  cases h with
  | intro number _ => exact number n rfl

theorem part {j part : Json} (h : j.Bounded) (hpart : part ∈ j.inside) : part.Bounded := by
  cases h with
  | intro _ parts => exact parts part hpart

theorem array {items : List Json} (h : ∀ j ∈ items, j.Bounded) : Bounded (.array items) :=
  .intro (by simp) h

theorem object {fields : List (String × Json)} (h : ∀ field ∈ fields, field.2.Bounded) :
    Bounded (.object fields) := by
  refine .intro (by simp) fun part hpart => ?_
  obtain ⟨field, hfield, rfl⟩ := List.mem_map.mp hpart
  exact h field hfield

theorem foreign (held : Bool) : Bounded (.foreign held) := .intro (by simp) (by simp [inside])

theorem ofText (s : Option String) : (Json.ofText s).Bounded := by
  cases s with
  | none => exact foreign false
  | some s => exact .intro (by simp [Json.ofText]) (by simp [Json.ofText, inside])

theorem ofFields {fields : List (Option String × Json)} (h : ∀ field ∈ fields, field.2.Bounded) :
    (Json.ofFields fields).Bounded := by
  rw [Json.ofFields]
  split
  · refine object fun field hfield => ?_
    obtain ⟨found, hfound, hname⟩ := List.mem_filterMap.mp hfield
    obtain ⟨name, -, rfl⟩ := Option.map_eq_some_iff.mp hname
    exact h found hfound
  · exact foreign false

end Bounded

/-! ## Scanning -/

/-- Is the unit no value, or one with bounded numbers? -/
def Mark.Bounded (m : Mark) : Prop := ∀ j, m = .plain j → j.Bounded

theorem bounded_number? {text : List Char} {j : Json} {n : Nat} (h : number? text = some (j, n)) :
    j.Bounded := by
  rw [number?] at h
  simp only [Option.bind_eq_bind, Option.bind_none] at h
  obtain ⟨-, h⟩ := Option.ite_none_left_eq_some.mp h
  obtain ⟨fraction, -, h⟩ := Option.bind_eq_some_iff.mp h
  obtain ⟨⟨down, digits, m⟩, -, h⟩ := Option.bind_eq_some_iff.mp h
  rcases ite_eq_iff.mp h with ⟨hnatural, heq⟩ | ⟨-, heq⟩
  · obtain ⟨rfl, -⟩ := Prod.mk.inj (Option.some.inj heq)
    refine .intro ?_ (by simp [inside])
    rintro _ ⟨⟩
    exact hnatural.2.2.2
  · obtain ⟨rfl, -⟩ := Prod.mk.inj (Option.some.inj heq)
    exact .foreign _

theorem bounded_mark? {c : Char} {rest : List Char} {m : Mark} {n : Nat} (h : mark? c rest = some (m, n)) :
    m.Bounded := by
  have hplain : ∀ {k : Json} {length : Nat}, (∀ n, k ≠ .natural n) → k.inside = [] →
      some (Mark.plain k, length) = some (m, n) → m.Bounded := by
    rintro k length hnumber hinside ⟨⟩ j ⟨⟩
    exact .intro (fun n hn => absurd hn (hnumber n)) (by simp [hinside])
  rw [mark?] at h
  split at h
  · obtain ⟨rfl, -⟩ := Prod.mk.inj (Option.some.inj h)
    simp [Mark.Bounded]
  split at h
  · obtain ⟨⟨text, length⟩, -, heq⟩ := Option.map_eq_some_iff.mp h
    obtain ⟨rfl, -⟩ := Prod.mk.inj heq
    simp [Mark.Bounded]
  split at h
  · obtain ⟨⟨k, length⟩, hnumber, heq⟩ := Option.map_eq_some_iff.mp h
    obtain ⟨rfl, -⟩ := Prod.mk.inj heq
    rintro _ ⟨⟩
    exact bounded_number? hnumber
  split at h
  · exact hplain (by simp) rfl h
  split at h
  · exact hplain (by simp) rfl h
  split at h
  · exact hplain (by simp) rfl h
  · exact absurd h (by simp)

theorem bounded_marks? {text : List Char} {ms : List Mark} (h : marks? text = some ms) :
    ∀ m ∈ ms, m.Bounded := by
  induction text using marks?.induct generalizing ms with
  | case1 =>
    rw [marks?] at h
    obtain rfl := Option.some.inj h
    simp
  | case2 c rest hspace ih =>
    rw [marks?, if_pos hspace] at h
    exact ih h
  | case3 c rest hspace ih =>
    rw [marks?, if_neg hspace] at h
    obtain ⟨⟨m, n⟩, hm, h⟩ := Option.bind_eq_some_iff.mp h
    obtain ⟨more, hmore, h⟩ := Option.bind_eq_some_iff.mp h
    obtain rfl := Option.some.inj h
    exact List.forall_mem_cons.mpr ⟨bounded_mark? hm, ih n hmore⟩

/-! ## Reading -/

section Behind
variable {ms : List Mark} (hms : ∀ m ∈ ms, m.Bounded)
include hms

theorem behind_take? {α : Type} {kind : Mark → Option α} {front : Front Mark α ms.length}
    (h : take? kind ms = some front) : ∀ m ∈ front.rest, m.Bounded := by
  obtain ⟨m, heq, -⟩ := take?_eq_some h
  rw [heq] at hms
  exact (List.forall_mem_cons.mp hms).2

theorem behind_key? {front : Front Mark (Option String) ms.length} (h : key? ms = some front) :
    ∀ m ∈ front.rest, m.Bounded :=
  behind_take? hms h

theorem behind_sign? {c : Char} {front : Front Mark Unit ms.length} (h : sign? c ms = some front) :
    ∀ m ∈ front.rest, m.Bounded :=
  behind_take? hms h

end Behind

mutual

theorem bounded_value? {ms : List Mark} (hms : ∀ m ∈ ms, m.Bounded) {front : Front Mark Json ms.length}
    (h : value? ms = some front) : front.value.Bounded ∧ ∀ m ∈ front.rest, m.Bounded := by
  match ms with
  | [] => simp [value?] at h
  | .plain j :: rest =>
    rw [value?] at h
    obtain rfl := Option.some.inj h
    obtain ⟨hj, hrest⟩ := List.forall_mem_cons.mp hms
    exact ⟨hj j rfl, hrest⟩
  | .string s :: rest =>
    rw [value?] at h
    obtain rfl := Option.some.inj h
    exact ⟨.ofText s, (List.forall_mem_cons.mp hms).2⟩
  | .sign c :: rest =>
    have hrest := (List.forall_mem_cons.mp hms).2
    rw [value?] at h
    split at h
    · split at h
      · next hclose =>
        obtain rfl := Option.some.inj h
        exact ⟨.array (by simp), behind_sign? hrest hclose⟩
      · obtain ⟨items, hitems, h⟩ := Option.bind_eq_some_iff.mp h
        obtain rfl := Option.some.inj h
        obtain ⟨hall, hbehind⟩ := bounded_items? hrest hitems
        exact ⟨.array hall, hbehind⟩
    · split at h
      · split at h
        · next hclose =>
          obtain rfl := Option.some.inj h
          exact ⟨.object (by simp), behind_sign? hrest hclose⟩
        · obtain ⟨fields, hfields, h⟩ := Option.bind_eq_some_iff.mp h
          obtain rfl := Option.some.inj h
          obtain ⟨hall, hbehind⟩ := bounded_fields? hrest hfields
          exact ⟨.ofFields hall, hbehind⟩
      · exact absurd h (by simp)
termination_by 2 * ms.length

theorem bounded_items? {ms : List Mark} (hms : ∀ m ∈ ms, m.Bounded) {front : Front Mark (List Json) ms.length}
    (h : items? ms = some front) : (∀ j ∈ front.value, j.Bounded) ∧ ∀ m ∈ front.rest, m.Bounded := by
  rw [items?] at h
  obtain ⟨⟨j, rest, hlt⟩, hj, h⟩ := Option.bind_eq_some_iff.mp h
  obtain ⟨hj, hrest⟩ := bounded_value? hms hj
  dsimp only at h hj hrest
  split at h
  · next hclose =>
    obtain rfl := Option.some.inj h
    exact ⟨by simpa using hj, behind_sign? hrest hclose⟩
  · obtain ⟨⟨_, behind, hlt'⟩, hcomma, h⟩ := Option.bind_eq_some_iff.mp h
    obtain ⟨items, hitems, h⟩ := Option.bind_eq_some_iff.mp h
    obtain rfl := Option.some.inj h
    obtain ⟨hall, hbehind⟩ := bounded_items? (behind_sign? hrest hcomma) hitems
    exact ⟨List.forall_mem_cons.mpr ⟨hj, hall⟩, hbehind⟩
termination_by 2 * ms.length + 1
decreasing_by all_goals omega

theorem bounded_fields? {ms : List Mark} (hms : ∀ m ∈ ms, m.Bounded)
    {front : Front Mark (List (Option String × Json)) ms.length} (h : fields? ms = some front) :
    (∀ field ∈ front.value, field.2.Bounded) ∧ ∀ m ∈ front.rest, m.Bounded := by
  rw [fields?] at h
  obtain ⟨⟨key, rest, hlt⟩, hkey, h⟩ := Option.bind_eq_some_iff.mp h
  obtain ⟨⟨_, rest, hlt⟩, hcolon, h⟩ := Option.bind_eq_some_iff.mp h
  obtain ⟨⟨j, rest, hlt⟩, hj, h⟩ := Option.bind_eq_some_iff.mp h
  obtain ⟨hj, hrest⟩ := bounded_value? (behind_sign? (behind_key? hms hkey) hcolon) hj
  dsimp only at h hj hrest
  split at h
  · next hclose =>
    obtain rfl := Option.some.inj h
    exact ⟨by simpa using hj, behind_sign? hrest hclose⟩
  · obtain ⟨⟨_, behind, hlt'⟩, hcomma, h⟩ := Option.bind_eq_some_iff.mp h
    obtain ⟨fields, hfields, h⟩ := Option.bind_eq_some_iff.mp h
    obtain rfl := Option.some.inj h
    obtain ⟨hall, hbehind⟩ := bounded_fields? (behind_sign? hrest hcomma) hfields
    exact ⟨List.forall_mem_cons.mpr ⟨hj, hall⟩, hbehind⟩
termination_by 2 * ms.length + 1
decreasing_by all_goals omega

end

/-- Whatever is read, no natural number in it needs more than 64 bits. -/
theorem bounded_parse? {text : List Char} {j : Json} (h : parse? text = some j) : j.Bounded := by
  rw [parse?] at h
  obtain ⟨ms, hms, h⟩ := Option.bind_eq_some_iff.mp h
  obtain ⟨front, hfront, h⟩ := Option.bind_eq_some_iff.mp h
  obtain ⟨-, heq⟩ := Option.ite_none_right_eq_some.mp h
  obtain rfl := Option.some.inj heq
  exact (bounded_value? (bounded_marks? hms) hfront).1

/-! ## Records -/

theorem mem_of_field? {fields : List (String × Json)} {name : String} {j : Json}
    (h : field? fields name = some (some j)) : ∃ key, (key, j) ∈ fields := by
  rw [field?] at h
  split at h
  · simp at h
  · next key found hfilter =>
    obtain rfl : found = j := by simpa using h
    exact ⟨key, (List.mem_filter.mp (hfilter ▸ List.mem_cons_self)).1⟩
  · simp at h

theorem exists_of_mem_mapM {α β : Type} {f : α → Option β} {xs : List α} {ys : List β} (h : xs.mapM f = some ys) :
    ∀ y ∈ ys, ∃ x ∈ xs, f x = some y := by
  induction xs generalizing ys with
  | nil =>
    obtain rfl : [] = ys := Option.some.inj h
    simp
  | cons x xs ih =>
    rw [List.mapM_cons] at h
    obtain ⟨y, hy, h⟩ := Option.bind_eq_some_iff.mp h
    obtain ⟨rest, hrest, h⟩ := Option.bind_eq_some_iff.mp h
    obtain rfl := Option.some.inj h
    refine List.forall_mem_cons.mpr ⟨⟨x, List.mem_cons_self, hy⟩, fun z hz => ?_⟩
    obtain ⟨w, hw, hz⟩ := ih hrest z hz
    exact ⟨w, List.mem_cons_of_mem _ hw, hz⟩

/-- What a record is made of stands in the value that it is read from. -/
theorem mem_inside_of_record? {names : List String} {j : Json} {values : List (Option Json)}
    (h : record? names j = some values) : ∀ value ∈ values, ∀ part ∈ value, part ∈ j.inside := by
  rintro value hvalue part rfl
  cases j with
  | object fields =>
    obtain ⟨name, -, hfield⟩ := exists_of_mem_mapM h _ hvalue
    obtain ⟨key, hmem⟩ := mem_of_field? hfield
    exact List.mem_map.mpr ⟨_, hmem, rfl⟩
  | array items =>
    obtain ⟨-, heq⟩ := Option.ite_none_right_eq_some.mp h
    obtain rfl := Option.some.inj heq
    obtain ⟨item, hitem, heq⟩ := List.mem_map.mp hvalue
    obtain rfl := Option.some.inj heq
    exact hitem
  | _ => simp [record?] at h

end Json

end BranchingStory
