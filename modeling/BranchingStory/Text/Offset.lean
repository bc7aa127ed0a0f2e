/-! # Byte offsets in a text

A text is a list of characters, and a place in it is counted in the bytes of its UTF-8 form.
`byteLength` measures, `takeBytes?` and `dropBytes?` cut at a byte offset and fail where the
offset stands inside a character or behind the end. -/

namespace BranchingStory.Text
set_option autoImplicit false

def byteLength : List Char → Nat
  | [] => 0
  | c :: rest => c.utf8Size + byteLength rest

@[simp] theorem byteLength_nil : byteLength [] = 0 := rfl

@[simp] theorem byteLength_cons (c : Char) (rest : List Char) :
    byteLength (c :: rest) = c.utf8Size + byteLength rest := rfl

@[simp] theorem byteLength_append (a b : List Char) :
    byteLength (a ++ b) = byteLength a + byteLength b := by
  induction a with
  | nil => simp
  | cons c a ih => simp [ih, Nat.add_assoc]

/-- The characters that fill the first bytes exactly. -/
def takeBytes? : Nat → List Char → Option (List Char)
  | 0, _ => some []
  | _ + 1, [] => none
  | n + 1, c :: rest =>
    if c.utf8Size ≤ n + 1 then (takeBytes? (n + 1 - c.utf8Size) rest).map (c :: ·) else none

/-- What is left behind the first bytes, if they end with a character. -/
def dropBytes? : Nat → List Char → Option (List Char)
  | 0, text => some text
  | _ + 1, [] => none
  | n + 1, c :: rest =>
    if c.utf8Size ≤ n + 1 then dropBytes? (n + 1 - c.utf8Size) rest else none

/-! ## Cutting where two texts meet -/

theorem takeBytes?_append (a b : List Char) : takeBytes? (byteLength a) (a ++ b) = some a := by
  induction a with
  | nil => cases b <;> rfl
  | cons c a ih =>
    have hpos : 0 < c.utf8Size := c.utf8Size_pos
    obtain ⟨k, hk⟩ : ∃ k, byteLength (c :: a) = k + 1 := ⟨byteLength (c :: a) - 1, by simp; omega⟩
    have hle : c.utf8Size ≤ k + 1 := by simp at hk; omega
    have hrest : k + 1 - c.utf8Size = byteLength a := by simp at hk; omega
    rw [hk, List.cons_append, takeBytes?, if_pos hle, hrest, ih]
    rfl

theorem dropBytes?_append (a b : List Char) : dropBytes? (byteLength a) (a ++ b) = some b := by
  induction a with
  | nil => cases b <;> rfl
  | cons c a ih =>
    have hpos : 0 < c.utf8Size := c.utf8Size_pos
    obtain ⟨k, hk⟩ : ∃ k, byteLength (c :: a) = k + 1 := ⟨byteLength (c :: a) - 1, by simp; omega⟩
    have hle : c.utf8Size ≤ k + 1 := by simp at hk; omega
    have hrest : k + 1 - c.utf8Size = byteLength a := by simp at hk; omega
    rw [hk, List.cons_append, dropBytes?, if_pos hle, hrest, ih]

end BranchingStory.Text
