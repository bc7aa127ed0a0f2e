/-! # Dictionaries

Values under text keys, each key once and in the order of the code points. The order is part of the
type, so that two dictionaries with the same values are equal. -/

namespace BranchingStory
set_option autoImplicit false

/-- Values under text keys, sorted by key. -/
structure Dictionary (α : Type) where
  entries : List (String × α)
  sorted : entries.Pairwise (·.1 < ·.1)

namespace Dictionary
variable {α : Type}

instance [DecidableEq α] : DecidableEq (Dictionary α) := fun a b =>
  decidable_of_iff (a.entries = b.entries) (by cases a; cases b; simp)

def empty : Dictionary α := ⟨[], .nil⟩

/-- The entries with a value put under a key, in place of what was there. -/
def insertEntry (key : String) (value : α) : List (String × α) → List (String × α)
  | [] => [(key, value)]
  | (k, v) :: rest =>
    if key < k then (key, value) :: (k, v) :: rest
    else if key = k then (key, value) :: rest
    else (k, v) :: insertEntry key value rest

theorem mem_insertEntry {key : String} {value : α} {e : String × α} {entries : List (String × α)}
    (h : e ∈ insertEntry key value entries) : e = (key, value) ∨ e ∈ entries := by
  induction entries with
  | nil => simpa [insertEntry] using h
  | cons head rest ih =>
    obtain ⟨k, v⟩ := head
    simp only [insertEntry] at h
    split at h
    · simpa using h
    · split at h
      · simp only [List.mem_cons] at h ⊢
        exact h.imp_right .inr
      · simp only [List.mem_cons] at h ⊢
        rcases h with h | h
        · exact .inr (.inl h)
        · exact (ih h).imp_right .inr

theorem sorted_insertEntry (key : String) (value : α) {entries : List (String × α)}
    (h : entries.Pairwise (·.1 < ·.1)) : (insertEntry key value entries).Pairwise (·.1 < ·.1) := by
  induction entries with
  | nil => simp [insertEntry]
  | cons head rest ih =>
    obtain ⟨k, v⟩ := head
    obtain ⟨hk, hrest⟩ := List.pairwise_cons.mp h
    simp only [insertEntry]
    split
    · next hlt =>
      refine List.pairwise_cons.mpr ⟨fun e he => ?_, h⟩
      rcases List.mem_cons.mp he with rfl | he
      · exact hlt
      · exact String.lt_trans hlt (hk e he)
    · next hnlt =>
      split
      · next heq =>
        subst heq
        exact List.pairwise_cons.mpr ⟨hk, hrest⟩
      · next hne =>
        refine List.pairwise_cons.mpr ⟨fun e he => ?_, ih hrest⟩
        rcases mem_insertEntry he with rfl | he
        · exact Decidable.byContradiction fun hge =>
            hne (String.le_antisymm (String.not_lt.mp hge) (String.not_lt.mp hnlt))
        · exact hk e he

def insert (d : Dictionary α) (key : String) (value : α) : Dictionary α :=
  ⟨insertEntry key value d.entries, sorted_insertEntry key value d.sorted⟩

/-- The dictionary with these values; of values under one key the last one stays. -/
def ofList (entries : List (String × α)) : Dictionary α :=
  entries.foldl (fun d (key, value) => d.insert key value) empty

def find? (d : Dictionary α) (key : String) : Option α := d.entries.lookup key

theorem mem_ofList {e : String × α} {entries : List (String × α)}
    (h : e ∈ (ofList entries).entries) : e ∈ entries := by
  suffices hfold : ∀ (entries : List (String × α)) (d : Dictionary α),
      e ∈ (entries.foldl (fun d (key, value) => d.insert key value) d).entries →
        e ∈ entries ∨ e ∈ d.entries by
    rcases hfold entries empty h with h | h
    · exact h
    · simp [empty] at h
  intro entries
  induction entries with
  | nil => exact fun _ h => .inr h
  | cons head rest ih =>
    intro d h
    rcases ih (d.insert head.1 head.2) h with h | h
    · exact .inl (List.mem_cons_of_mem _ h)
    · exact (mem_insertEntry h).imp_left fun h => by simp [h]

theorem mem_of_find? {d : Dictionary α} {key : String} {value : α} (h : d.find? key = some value) :
    (key, value) ∈ d.entries := by
  obtain ⟨before, behind, heq, -⟩ := List.lookup_eq_some_iff.mp h
  simp [heq]

end Dictionary

end BranchingStory
