import BranchingStory.Dictionary

/-! # Looking things up in dictionaries

What stands under a key after an insertion, and after putting many values in: of the values under one
key the last one counts. -/

namespace BranchingStory.Dictionary
set_option autoImplicit false

variable {α : Type}

theorem ext {c d : Dictionary α} (h : c.entries = d.entries) : c = d := by
  obtain ⟨entries, sorted⟩ := c
  obtain ⟨entries', sorted'⟩ := d
  obtain rfl : entries = entries' := h
  rfl

/-- A key has one value only. -/
theorem find?_eq_some_iff (d : Dictionary α) (key : String) (value : α) :
    d.find? key = some value ↔ (key, value) ∈ d.entries := by
  refine ⟨mem_of_find?, fun hmem => ?_⟩
  refine List.lookup_eq_some_iff.mpr ?_
  obtain ⟨before, behind, heq⟩ := List.append_of_mem hmem
  refine ⟨before, behind, heq, fun e he => ?_⟩
  have hsorted := d.sorted
  rw [heq] at hsorted
  have hlt : e.1 < key := (List.pairwise_append.mp hsorted).2.2 e he _ List.mem_cons_self
  have hne : key ≠ e.1 := fun hsame => String.lt_irrefl _ (hsame ▸ hlt)
  exact bne_iff_ne.mpr hne

/-! ## One insertion -/

theorem lookup_cons_eq (key k : String) (value : α) (entries : List (String × α)) :
    ((k, value) :: entries).lookup key = if key = k then some value else entries.lookup key := by
  rw [List.lookup_cons]
  by_cases h : key = k
  · simp [h]
  · simp only [beq_eq_false_iff_ne.mpr h, if_neg h]

theorem lookup_insertEntry (key k : String) (value : α) (entries : List (String × α)) :
    (insertEntry k value entries).lookup key = if key = k then some value else entries.lookup key := by
  induction entries with
  | nil => rw [insertEntry, lookup_cons_eq]
  | cons head rest ih =>
    obtain ⟨k', v'⟩ := head
    rw [insertEntry, lookup_cons_eq key k' v']
    split
    · rw [lookup_cons_eq, lookup_cons_eq]
    · split
      · next heq =>
        subst heq
        rw [lookup_cons_eq]
        split <;> rfl
      · next hne =>
        rw [lookup_cons_eq, ih]
        by_cases h : key = k'
        · have hk : ¬ k' = k := fun hk => hne hk.symm
          simp only [h, if_true, if_neg hk]
        · simp only [if_neg h]

/-- An insertion changes what stands under its own key only. -/
theorem find?_insert (d : Dictionary α) (key k : String) (value : α) :
    (d.insert k value).find? key = if key = k then some value else d.find? key :=
  lookup_insertEntry key k value d.entries

theorem insertEntry_last {k : String} {value : α} {entries : List (String × α)}
    (h : ∀ e ∈ entries, e.1 < k) : insertEntry k value entries = entries ++ [(k, value)] := by
  induction entries with
  | nil => rfl
  | cons head rest ih =>
    obtain ⟨k', v'⟩ := head
    have hlt : k' < k := h _ List.mem_cons_self
    have hnot : ¬ k < k' := fun hgt => absurd (String.lt_trans hlt hgt) (String.lt_irrefl _)
    have hne : ¬ k = k' := fun heq => absurd (heq ▸ hlt) (String.lt_irrefl _)
    rw [insertEntry, if_neg hnot, if_neg hne, ih fun e he => h e (List.mem_cons_of_mem _ he)]
    rfl

/-! ## Many insertions -/

/-- Putting the entries of a dictionary into an empty one gives the dictionary. -/
theorem ofList_entries (d : Dictionary α) : ofList d.entries = d := by
  suffices hfold : ∀ (entries : List (String × α)) (c : Dictionary α),
      (c.entries ++ entries).Pairwise (·.1 < ·.1) →
        (entries.foldl (fun d e => d.insert e.1 e.2) c).entries = c.entries ++ entries by
    exact ext (hfold d.entries empty (by simpa [empty] using d.sorted))
  intro entries
  induction entries with
  | nil => simp
  | cons head rest ih =>
    intro c hsorted
    obtain ⟨key, value⟩ := head
    have hlast : ∀ e ∈ c.entries, e.1 < key := fun e he =>
      (List.pairwise_append.mp hsorted).2.2 e he _ List.mem_cons_self
    have hinsert : (c.insert key value).entries = c.entries ++ [(key, value)] := insertEntry_last hlast
    have hrest := ih (c.insert key value) (by simpa [hinsert] using hsorted)
    simpa [hinsert] using hrest

/-- Of the values put under one key the last one stays. -/
theorem find?_ofList (entries : List (String × α)) (key : String) :
    (ofList entries).find? key = entries.reverse.lookup key := by
  suffices hfold : ∀ (entries : List (String × α)) (d : Dictionary α),
      (entries.foldl (fun d e => d.insert e.1 e.2) d).find? key =
        (entries.reverse.lookup key).or (d.find? key) by
    show (entries.foldl (fun d e => d.insert e.1 e.2) empty).find? key = _
    rw [hfold]
    simp [empty, find?]
  intro entries
  induction entries with
  | nil => simp
  | cons head rest ih =>
    intro d
    obtain ⟨k, value⟩ := head
    rw [List.foldl_cons, ih, find?_insert, List.reverse_cons, List.lookup_append]
    rw [lookup_cons_eq]
    cases rest.reverse.lookup key with
    | some found => rfl
    | none => by_cases h : key = k <;> simp [h]

/-- Where no key is given twice, each value is found under its key. -/
theorem find?_ofList_of_nodup {entries : List (String × α)} (h : (entries.map (·.1)).Nodup)
    (key : String) (value : α) : (ofList entries).find? key = some value ↔ (key, value) ∈ entries := by
  rw [find?_ofList, List.lookup_eq_some_iff, ← List.mem_reverse]
  have hreverse : (entries.reverse.map (·.1)).Nodup := by
    rw [List.map_reverse]
    exact (List.reverse_perm _).nodup_iff.mpr h
  constructor
  · rintro ⟨before, behind, heq, -⟩
    exact heq ▸ List.mem_append_right _ List.mem_cons_self
  · intro hmem
    obtain ⟨before, behind, heq⟩ := List.append_of_mem hmem
    refine ⟨before, behind, heq, fun e he => ?_⟩
    rw [heq, List.map_append, List.map_cons] at hreverse
    have hne := (List.nodup_append.mp hreverse).2.2 _ (List.mem_map_of_mem he) _ List.mem_cons_self
    exact bne_iff_ne.mpr (Ne.symm hne)

theorem nodup_keys (d : Dictionary α) : (d.entries.map (·.1)).Nodup := by
  refine List.pairwise_map.mpr (d.sorted.imp fun hlt heq => ?_)
  rw [heq] at hlt
  exact String.lt_irrefl _ hlt

theorem nodup_entries (d : Dictionary α) : d.entries.Nodup :=
  (List.pairwise_map.mp d.nodup_keys).imp fun hne heq => hne (congrArg _ heq)

/-- The order in which the entries of a dictionary are put in does not matter. -/
theorem ofList_perm {d : Dictionary α} {entries : List (String × α)} (h : entries.Perm d.entries) :
    ofList entries = d := by
  have hkeys : (entries.map (·.1)).Nodup := (h.map (·.1)).nodup_iff.mpr d.nodup_keys
  have hmem : ∀ e, e ∈ (ofList entries).entries ↔ e ∈ d.entries := by
    intro e
    rw [← find?_eq_some_iff, find?_ofList_of_nodup hkeys, h.mem_iff]
  have hperm : (ofList entries).entries.Perm d.entries :=
    (List.perm_ext_iff_of_nodup (ofList entries).nodup_entries d.nodup_entries).mpr hmem
  refine ext (hperm.eq_of_pairwise (fun a b _ _ hab hba => ?_) (ofList entries).sorted d.sorted)
  exact absurd (String.lt_trans hab hba) (String.lt_irrefl _)

end BranchingStory.Dictionary
