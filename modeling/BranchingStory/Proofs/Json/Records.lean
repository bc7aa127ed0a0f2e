import BranchingStory.Json.Record
import BranchingStory.Proofs.Dictionary
import BranchingStory.Proofs.Json.RoundTrip

/-! # Reading records back

A reader is faithful to what a value was written as if it accepts the text that was printed exactly
when it fits the budget and lost nothing, and then gives the value and no other. Faithfulness passes
from the parts of a record to the record, and from the items of a list to the list. -/

namespace BranchingStory.Json
set_option autoImplicit false

/-- Does the document neither nest deeper than the budget nor hold anything that is not exact? -/
def Fits (budget : Nat) (j : Json) : Prop := j.depth ≤ budget ∧ j.exact

instance (budget : Nat) (j : Json) : Decidable (Fits budget j) := inferInstanceAs (Decidable (_ ∧ _))

/-- What is read from the printed form `j` of a value is the value, and is read only if `j` fits. -/
def ReadsBack {α : Type} (j : Json) (read : Nat → Json → Option α) (x : α) : Prop :=
  ∀ budget y, read budget j.reread = some y ↔ y = x ∧ Fits budget j

/-! ## Whole documents -/

mutual

theorem reread_of_exact (j : Json) (h : j.exact) : j.reread = j := by
  match j with
  | .null => rfl
  | .bool b => rfl
  | .string s => rfl
  | .natural n =>
    have hlt : n < Nat.pow 2 64 := by simpa [exact] using h
    rw [reread, numeral, if_pos hlt]
  | .foreign held => simp [exact] at h
  | .array items => rw [reread, rereadItems_of_exact items (by simpa [exact] using h)]
  | .object fields => rw [reread, rereadFields_of_exact fields (by simpa [exact] using h)]

theorem rereadItems_of_exact (items : List Json) (h : exactItems items) : rereadItems items = items := by
  match items with
  | [] => rfl
  | j :: rest =>
    obtain ⟨hj, hrest⟩ : j.exact ∧ exactItems rest := by simpa [exactItems] using h
    rw [rereadItems, reread_of_exact j hj, rereadItems_of_exact rest hrest]

theorem rereadFields_of_exact (fields : List (String × Json)) (h : exactFields fields) :
    rereadFields fields = fields := by
  match fields with
  | [] => rfl
  | (key, j) :: rest =>
    obtain ⟨hj, hrest⟩ : j.exact ∧ exactFields rest := by simpa [exactFields] using h
    rw [rereadFields, reread_of_exact j hj, rereadFields_of_exact rest hrest]

end

mutual

theorem depth_reread (j : Json) : j.reread.depth = j.depth := by
  match j with
  | .null | .bool _ | .string _ | .foreign _ => rfl
  | .natural n =>
    rw [reread, numeral]
    split <;> rfl
  | .array items => rw [reread, depth, depth, depth_rereadItems items]
  | .object fields => rw [reread, depth, depth, depth_rereadFields fields]

theorem depth_rereadItems (items : List Json) : depthItems (rereadItems items) = depthItems items := by
  match items with
  | [] => rfl
  | j :: rest => rw [rereadItems, depthItems, depthItems, depth_reread j, depth_rereadItems rest]

theorem depth_rereadFields (fields : List (String × Json)) :
    depthFields (rereadFields fields) = depthFields fields := by
  match fields with
  | [] => rfl
  | (key, j) :: rest =>
    rw [rereadFields, depthFields, depthFields, depth_reread j, depth_rereadFields rest]

end

mutual

theorem held_of_exact (j : Json) (h : j.exact) : j.held := by
  match j with
  | .null | .bool _ | .string _ | .natural _ => rfl
  | .foreign held => simp [exact] at h
  | .array items => exact heldItems_of_exact items (by simpa [Json.exact] using h)
  | .object fields => exact heldFields_of_exact fields (by simpa [Json.exact] using h)

theorem heldItems_of_exact (items : List Json) (h : exactItems items) : heldItems items := by
  match items with
  | [] => rfl
  | j :: rest =>
    obtain ⟨hj, hrest⟩ : j.exact ∧ exactItems rest := by simpa [exactItems] using h
    rw [heldItems, held_of_exact j hj, heldItems_of_exact rest hrest, Bool.and_true]

theorem heldFields_of_exact (fields : List (String × Json)) (h : exactFields fields) :
    heldFields fields := by
  match fields with
  | [] => rfl
  | (key, j) :: rest =>
    obtain ⟨hj, hrest⟩ : j.exact ∧ exactFields rest := by simpa [exactFields] using h
    rw [heldFields, held_of_exact j hj, heldFields_of_exact rest hrest, Bool.and_true]

end

/-! ## Fields -/

/-- The fields that an object is left with. -/
def present (fields : List (String × Option Json)) : List (String × Json) :=
  fields.filterMap fun (name, j) => j.map (name, ·)

theorem objectOf_eq (fields : List (String × Option Json)) : objectOf fields = .object (present fields) := rfl

@[simp] theorem present_nil : present [] = [] := rfl

@[simp] theorem present_none (name : String) (rest : List (String × Option Json)) :
    present ((name, none) :: rest) = present rest := rfl

@[simp] theorem present_some (name : String) (j : Json) (rest : List (String × Option Json)) :
    present ((name, some j) :: rest) = (name, j) :: present rest := rfl

theorem mem_present {fields : List (String × Option Json)} {name : String} {j : Json} :
    (name, j) ∈ present fields ↔ (name, some j) ∈ fields := by
  constructor
  · intro h
    obtain ⟨⟨other, value⟩, hmem, hvalue⟩ := List.mem_filterMap.mp h
    obtain ⟨v, rfl, heq⟩ := Option.map_eq_some_iff.mp hvalue
    obtain ⟨rfl, rfl⟩ := Prod.mk.inj heq
    exact hmem
  · intro h
    exact List.mem_filterMap.mpr ⟨_, h, rfl⟩

theorem forall_mem_present {fields : List (String × Option Json)} {P : Json → Prop} :
    (∀ field ∈ present fields, P field.2) ↔ ∀ field ∈ fields, ∀ j ∈ field.2, P j := by
  constructor
  · intro h field hmem j hj
    obtain ⟨name, value⟩ := field
    obtain rfl : value = some j := hj
    exact h (name, j) (mem_present.mpr hmem)
  · intro h field hmem
    exact h _ (mem_present.mp hmem) _ rfl

theorem reread_objectOf (fields : List (String × Option Json)) :
    (objectOf fields).reread = objectOf (fields.map fun (name, j) => (name, j.map reread)) := by
  rw [objectOf_eq, objectOf_eq, reread]
  congr 1
  induction fields with
  | nil => rfl
  | cons field rest ih =>
    obtain ⟨name, j⟩ := field
    cases j with
    | none => simpa using ih
    | some j => simp [rereadFields, ih]

theorem depthFields_le {fields : List (String × Json)} {budget : Nat} :
    depthFields fields ≤ budget ↔ ∀ field ∈ fields, field.2.depth ≤ budget := by
  induction fields with
  | nil => simp [depthFields]
  | cons field rest ih => simp only [depthFields, Nat.max_le, ih, List.forall_mem_cons]

theorem exactFields_iff {fields : List (String × Json)} :
    exactFields fields ↔ ∀ field ∈ fields, field.2.exact := by
  induction fields with
  | nil => simp [exactFields]
  | cons field rest ih => simp [exactFields, ih]

theorem fits_object {fields : List (String × Json)} {budget : Nat} :
    Fits (budget + 1) (.object fields) ↔ ∀ field ∈ fields, Fits budget field.2 := by
  simp only [Fits, depth, exact, Nat.add_le_add_iff_right, depthFields_le, exactFields_iff]
  exact ⟨fun h field hmem => ⟨h.1 field hmem, h.2 field hmem⟩,
    fun h => ⟨fun field hmem => (h field hmem).1, fun field hmem => (h field hmem).2⟩⟩

theorem exact_objectOf {fields : List (String × Option Json)} :
    (objectOf fields).exact ↔ ∀ field ∈ fields, ∀ j ∈ field.2, j.exact := by
  rw [objectOf_eq, exact, exactFields_iff]
  exact forall_mem_present (P := fun j => j.exact)

theorem exact_array {items : List Json} : (Json.array items).exact ↔ ∀ j ∈ items, j.exact := by
  rw [exact]
  induction items with
  | nil => simp [exactItems]
  | cons j rest ih => simp [exactItems, ih]

@[simp] theorem not_fits_objectOf_zero (fields : List (String × Option Json)) :
    ¬ Fits 0 (objectOf fields) := fun h => absurd h.1 (Nat.not_succ_le_zero _)

theorem fits_objectOf {fields : List (String × Option Json)} {budget : Nat} :
    Fits (budget + 1) (objectOf fields) ↔ ∀ field ∈ fields, ∀ j ∈ field.2, Fits budget j := by
  rw [objectOf_eq, fits_object]
  exact forall_mem_present

theorem filter_present {fields : List (String × Option Json)} (hnodup : (fields.map (·.1)).Nodup)
    {name : String} {j : Option Json} (hmem : (name, j) ∈ fields) :
    (present fields).filter (·.1 == name) = (j.map (name, ·)).toList := by
  induction fields with
  | nil => simp at hmem
  | cons field rest ih =>
    obtain ⟨head, value⟩ := field
    obtain ⟨hhead, hrest⟩ := List.nodup_cons.mp hnodup
    rcases List.mem_cons.mp hmem with heq | hbehind
    · obtain ⟨rfl, rfl⟩ := Prod.mk.inj heq
      have hnone : (present rest).filter (·.1 == name) = [] := by
        refine List.filter_eq_nil_iff.mpr fun found hfound hname => hhead ?_
        have hname : found.1 = name := by simpa using hname
        exact List.mem_map.mpr ⟨_, mem_present.mp hfound, hname⟩
      cases j <;> simp [hnone]
    · have hne : head ≠ name := by
        rintro rfl
        exact hhead (List.mem_map.mpr ⟨_, hbehind, rfl⟩)
      cases value <;> simp [hne, ih hrest hbehind]

theorem field?_present {fields : List (String × Option Json)} (hnodup : (fields.map (·.1)).Nodup)
    {name : String} {j : Option Json} (hmem : (name, j) ∈ fields) :
    field? (present fields) name = some j := by
  rw [field?, filter_present hnodup hmem]
  cases j <;> rfl

/-- A record is read from the object it was written as, whatever other fields stand in front. -/
theorem record?_reread (front names : List String) (fields : List (String × Option Json))
    (hnames : fields.map (·.1) = front ++ names) (hnodup : (front ++ names).Nodup) :
    record? names (objectOf fields).reread =
      some ((fields.drop front.length).map fun (_, j) => j.map reread) := by
  have hkept : (fields.map fun (name, j) => (name, j.map reread)).map (·.1) = front ++ names := by
    rw [List.map_map]
    exact hnames
  have hfield : ∀ field ∈ fields.map fun (name, j) => (name, j.map reread),
      field? (present (fields.map fun (name, j) => (name, j.map reread))) field.1 = some field.2 :=
    fun field hmem => field?_present (hkept ▸ hnodup) hmem
  have hread : ∀ fields : List (String × Option Json), ∀ all : List (String × Json),
      (∀ field ∈ fields, field? all field.1 = some field.2) →
        (fields.map (·.1)).mapM (field? all) = some (fields.map (·.2)) := by
    intro fields all h
    induction fields with
    | nil => rfl
    | cons field rest ih =>
      have hrest := ih fun other hmem => h other (List.mem_cons_of_mem _ hmem)
      simp only [List.map_cons, List.mapM_cons, h field List.mem_cons_self, hrest, Option.bind_eq_bind,
        Option.bind_some, Option.pure_def]
  have hdrop : (fields.map (·.1)).drop front.length = names := by rw [hnames, List.drop_left]
  have hsome := hread ((fields.map fun (name, j) => (name, j.map reread)).drop front.length) _
    fun field hmem => hfield field (List.mem_of_mem_drop hmem)
  rw [← List.map_drop, List.map_map, List.map_map] at hsome
  rw [reread_objectOf, objectOf_eq, record?, ← hdrop, ← List.map_drop]
  exact hsome

/-! ## Parts of a record -/

@[simp] theorem reread_string (s : String) : (Json.string s).reread = .string s := rfl

@[simp] theorem string?_string (s : String) : string? (.string s) = some s := rfl

@[simp] theorem bool?_reread (b : Bool) : bool? (Json.bool b).reread = some b := rfl

@[simp] theorem fits_string (budget : Nat) (s : String) : Fits budget (.string s) :=
  ⟨Nat.zero_le _, rfl⟩

@[simp] theorem fits_bool (budget : Nat) (b : Bool) : Fits budget (.bool b) := ⟨Nat.zero_le _, rfl⟩

@[simp] theorem optional?_string (s : Option String) :
    optional? string? ((s.map Json.string).map reread) = some s := by
  cases s <;> rfl

@[simp] theorem fits_optional (budget : Nat) (s : Option String) (j : Json)
    (h : j ∈ s.map Json.string) : Fits budget j := by
  obtain ⟨text, -, rfl⟩ := Option.map_eq_some_iff.mp h
  exact fits_string budget text

theorem readsBack_string (s : String) : ReadsBack (.string s) (fun _ => string?) s := by
  intro budget y
  simp [eq_comm]

theorem readsBack_natural (n : Nat) : ReadsBack (.natural n) (fun _ => natural?) n := by
  intro budget m
  simp only [reread, numeral, Fits, depth, exact, Nat.zero_le, true_and]
  split
  · next h => simp [natural?, h, eq_comm]
  · next h => simp [natural?, h]

/-! ## Lists and dictionaries -/

@[simp] theorem not_fits_array_zero (items : List Json) : ¬ Fits 0 (.array items) :=
  fun h => absurd h.1 (Nat.not_succ_le_zero _)

theorem fits_array_nil (budget : Nat) : Fits (budget + 1) (.array []) := ⟨by simp [depth, depthItems], rfl⟩

theorem fits_array_cons {j : Json} {rest : List Json} {budget : Nat} :
    Fits (budget + 1) (.array (j :: rest)) ↔ Fits budget j ∧ Fits (budget + 1) (.array rest) := by
  simp only [Fits, depth, depthItems, exact, exactItems, Nat.add_le_add_iff_right, Nat.max_le,
    Bool.and_eq_true]
  exact and_and_and_comm

theorem mapM_reread {α : Type} {write : α → Json} {read : Nat → Json → Option α} {xs : List α}
    (h : ∀ x ∈ xs, ReadsBack (write x) read x) (budget : Nat) (ys : List α) :
    (rereadItems (xs.map write)).mapM (read budget) = some ys ↔
      ys = xs ∧ Fits (budget + 1) (.array (xs.map write)) := by
  induction xs generalizing ys with
  | nil => simp [rereadItems, fits_array_nil, eq_comm]
  | cons x xs ih =>
    have hx := h x List.mem_cons_self budget
    have hxs := ih fun x hx => h x (List.mem_cons_of_mem _ hx)
    simp only [List.map_cons, rereadItems, List.mapM_cons, Option.bind_eq_bind, Option.bind_eq_some_iff,
      hx, hxs, Option.pure_def, Option.some.injEq, fits_array_cons]
    constructor
    · rintro ⟨_, ⟨rfl, hfits⟩, _, ⟨rfl, hrest⟩, rfl⟩
      exact ⟨rfl, hfits, hrest⟩
    · rintro ⟨rfl, hfits, hrest⟩
      exact ⟨_, ⟨rfl, hfits⟩, _, ⟨rfl, hrest⟩, rfl⟩

theorem readsBack_list {α : Type} {write : α → Json} {read : Nat → Json → Option α} {xs : List α}
    (h : ∀ x ∈ xs, ReadsBack (write x) read x) :
    ReadsBack (.array (xs.map write)) (fun budget => listOf? budget read) xs := by
  intro budget ys
  cases budget with
  | zero => simp [listOf?]
  | succ budget => exact mapM_reread h budget ys

/-- An object of values under their names is read as the dictionary of these values. -/
theorem readsBack_entries {α : Type} {write : α → Json} {read : Json → Option α}
    (h : ∀ x, ReadsBack (write x) (fun _ => read) x) (entries : List (String × α)) :
    ReadsBack (.object (entries.map fun entry => (entry.1, write entry.2)))
      (fun budget => dictionaryOf? budget read) (.ofList entries) := by
  intro budget y
  cases budget with
  | zero => simp [dictionaryOf?, Fits, depth]
  | succ budget =>
    have hentries : ∀ entries found : List (String × α),
        ((rereadFields (entries.map fun entry => (entry.1, write entry.2))).mapM
            fun field => (read field.2).map (field.1, ·)) = some found ↔
          found = entries ∧ ∀ entry ∈ entries, Fits budget (write entry.2) := by
      intro entries
      induction entries with
      | nil => simp [rereadFields, eq_comm]
      | cons entry rest ih =>
        intro found
        obtain ⟨key, x⟩ := entry
        simp only [List.map_cons, rereadFields, List.mapM_cons, Option.bind_eq_bind, Option.bind_eq_some_iff,
          Option.map_eq_some_iff, h x budget, ih, Option.pure_def, Option.some.injEq, List.forall_mem_cons]
        constructor
        · rintro ⟨_, ⟨_, ⟨rfl, hfits⟩, rfl⟩, _, ⟨rfl, hrest⟩, rfl⟩
          exact ⟨rfl, hfits, hrest⟩
        · rintro ⟨rfl, hfits, hrest⟩
          exact ⟨_, ⟨_, ⟨rfl, hfits⟩, rfl⟩, _, ⟨rfl, hrest⟩, rfl⟩
    have hread : ∀ fields, dictionaryOf? (budget + 1) read (.object fields) =
        (fields.mapM fun field => (read field.2).map (field.1, ·)).bind (some <| .ofList ·) := fun _ => rfl
    simp only [reread, hread, Option.bind_eq_some_iff, hentries, Option.some.injEq, fits_object,
      List.forall_mem_map]
    constructor
    · rintro ⟨_, ⟨rfl, hfits⟩, rfl⟩
      exact ⟨rfl, hfits⟩
    · rintro ⟨rfl, hfits⟩
      exact ⟨_, ⟨rfl, hfits⟩, rfl⟩

theorem readsBack_dictionary {α : Type} {write : α → Json} {read : Json → Option α}
    (h : ∀ x, ReadsBack (write x) (fun _ => read) x) (d : Dictionary α) :
    ReadsBack (.object (d.entries.map fun entry => (entry.1, write entry.2)))
      (fun budget => dictionaryOf? budget read) d := by
  have hentries := readsBack_entries h d.entries
  rwa [Dictionary.ofList_entries] at hentries

end BranchingStory.Json
