/-! # Blank characters

The characters with Unicode's property `White_Space`, and the removal of blank characters from the
two ends of a text. -/

namespace BranchingStory.Text
set_option autoImplicit false

/-- Membership in Unicode's property `White_Space`. -/
def isBlank (c : Char) : Bool :=
  let n := c.toNat
  (0x09 ≤ n && n ≤ 0x0D) || n == 0x20 || n == 0x85 || n == 0xA0 || n == 0x1680 ||
    (0x2000 ≤ n && n ≤ 0x200A) || n == 0x2028 || n == 0x2029 || n == 0x202F || n == 0x205F ||
    n == 0x3000

def trimEnd (text : List Char) : List Char := (text.reverse.dropWhile isBlank).reverse

def trim (text : List Char) : List Char := trimEnd (text.dropWhile isBlank)

def trimString (s : String) : String := String.ofList (trim s.toList)

theorem dropWhile_eq_nil_iff (p : Char → Bool) (text : List Char) :
    text.dropWhile p = [] ↔ ∀ c ∈ text, p c := by
  induction text with
  | nil => simp
  | cons c rest ih =>
    by_cases hc : p c
    · simp [hc, ih]
    · simp [hc]

/-- Only a wholly blank text is trimmed to nothing. -/
theorem trim_eq_nil_iff {text : List Char} : trim text = [] ↔ ∀ c ∈ text, isBlank c := by
  have hback : trim text = [] ↔ ∀ c ∈ text.dropWhile isBlank, isBlank c := by
    rw [trim, trimEnd, List.reverse_eq_nil_iff, dropWhile_eq_nil_iff]
    simp
  rw [hback]
  induction text with
  | nil => simp
  | cons c rest ih =>
    by_cases hc : isBlank c
    · simpa [List.dropWhile_cons, hc] using ih (by
        rw [trim, trimEnd, List.reverse_eq_nil_iff, dropWhile_eq_nil_iff]
        simp)
    · simp [hc]

theorem dropWhile_isBlank_eq_self {text : List Char} (h : ∀ c ∈ text.head?, isBlank c = false) :
    text.dropWhile isBlank = text := by
  cases text with
  | nil => rfl
  | cons c rest => simp [h c rfl]

/-- A text that neither begins nor ends with a blank character is left as it is. -/
theorem trim_eq_self {text : List Char} (hfirst : ∀ c ∈ text.head?, isBlank c = false)
    (hlast : ∀ c ∈ text.getLast?, isBlank c = false) : trim text = text := by
  have hreverse : ∀ c ∈ text.reverse.head?, isBlank c = false := by rwa [List.head?_reverse]
  rw [trim, dropWhile_isBlank_eq_self hfirst, trimEnd, dropWhile_isBlank_eq_self hreverse, List.reverse_reverse]

end BranchingStory.Text
