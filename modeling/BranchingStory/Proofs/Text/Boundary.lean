import BranchingStory.Text.Offset

/-! # Character boundaries

A byte offset is a boundary of a text if it lies between two of its characters, or at one of its
ends. -/

namespace BranchingStory.Text
set_option autoImplicit false

/-- Does the text part into two at the offset? -/
def IsBoundary (text : List Char) (offset : Nat) : Prop :=
  ∃ before behind, text = before ++ behind ∧ byteLength before = offset

theorem isBoundary_zero (text : List Char) : IsBoundary text 0 := ⟨[], text, rfl, rfl⟩

theorem isBoundary_length (text : List Char) : IsBoundary text (byteLength text) :=
  ⟨text, [], (List.append_nil text).symm, rfl⟩

theorem isBoundary_append (before behind : List Char) : IsBoundary (before ++ behind) (byteLength before) :=
  ⟨before, behind, rfl, rfl⟩

theorem IsBoundary.le {text : List Char} {offset : Nat} (h : IsBoundary text offset) :
    offset ≤ byteLength text := by
  obtain ⟨before, behind, rfl, rfl⟩ := h
  rw [byteLength_append]
  omega

/-- A text takes at least one byte for each character. -/
theorem length_le_byteLength (text : List Char) : text.length ≤ byteLength text := by
  induction text with
  | nil => exact Nat.le_refl _
  | cons c rest ih =>
    have hpos : 0 < c.utf8Size := c.utf8Size_pos
    rw [List.length_cons, byteLength_cons]
    omega

theorem byteLength_of_takeBytes? {n : Nat} {text before : List Char} (h : takeBytes? n text = some before) :
    byteLength before = n := by
  induction text generalizing n before with
  | nil =>
    cases n with
    | zero =>
      obtain rfl := Option.some.inj h
      rfl
    | succ n => simp [takeBytes?] at h
  | cons c rest ih =>
    cases n with
    | zero =>
      obtain rfl := Option.some.inj h
      rfl
    | succ n =>
      rw [takeBytes?] at h
      split at h
      · next hle =>
        obtain ⟨front, hfront, rfl⟩ := Option.map_eq_some_iff.mp h
        rw [byteLength_cons, ih hfront]
        omega
      · exact absurd h (by simp)

end BranchingStory.Text
