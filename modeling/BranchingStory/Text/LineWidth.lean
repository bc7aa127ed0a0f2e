import BranchingStory.Text.Joining

/-! # Display width of a line

How many columns of a terminal a line takes. Characters that join take fewer than they do by themselves,
and a selector behind a character may choose a form of another width. -/

namespace BranchingStory.Text
set_option autoImplicit false

/-! ## Selectors -/

/-- The selectors, which choose how the character in front of them is displayed. -/
inductive Selector
  | emoji
  | narrow
  | wide
  deriving DecidableEq

def Selector.ofChar? (c : Char) : Option Selector :=
  if c == '\uFE0F' then some emoji
  else if c == '\uFE0E' then some narrow
  else if c == '\uFE01' then some wide
  else none

/-- A selector makes the character an emoji. -/
def hasEmojiForm (c : Char) : Bool := inRanges emojiVariationRanges c

/-- A selector makes the emoji a plain character, and a narrow one. -/
def hasNarrowForm (c : Char) : Bool := hasEmojiForm c && isEmoji c && !isBetween 0x1F200 0x1F2FF c

/-- A selector makes the quotation mark a wide one. -/
def hasWideForm (c : Char) : Bool := c == '‘' || c == '’' || c == '“' || c == '”'

/-! ## Reading a line -/

/-- What stands behind a character, and the selector between the two. -/
structure Sequel where
  behind : Behind
  selector : Option Selector
  deriving DecidableEq

def Sequel.plain : Sequel := ⟨.plain, none⟩

/-- What stands behind a character once a selector is put between: letters stay in sight, and so does an
emoji that waits to be joined to another one. -/
def Sequel.select (x : Sequel) (s : Selector) : Sequel :=
  match x.behind, s with
  | .letter .., _ | .joined .start, .emoji | .joined .key, .emoji => ⟨x.behind, some s⟩
  | _, _ => ⟨.plain, some s⟩

/-- What stands behind a character that the selector has no form for. -/
def Sequel.unselected (x : Sequel) : Behind :=
  match x.selector, x.behind with
  | none, behind => behind
  | some _, .letter l joiner => .letter l joiner
  | some _, _ => .plain

/-- The columns of a character in the form that a selector behind it chooses, and what the character
before it then has behind it. -/
def selected? (c : Char) (x : Sequel) : Option (Int × Behind) :=
  match x.selector with
  | some .emoji =>
    if hasEmojiForm c then
      some (if x.behind = .joined .start ∨ x.behind = .joined .key then 0 else 2, .emoji)
    else none
  | some .narrow => if hasNarrowForm c then some (1, .plain) else none
  | some .wide => if hasWideForm c then some (2, .plain) else none
  | none => none

/-- The columns that a character adds to a line, and what the character before it has behind it. -/
def columns (c : Char) (x : Sequel) : Int × Sequel :=
  match selected? c x with
  | some (n, behind) => (n, ⟨behind, none⟩)
  | none =>
    if c.toNat ≤ 0xA0 then (1, .plain)
    else
      match Selector.ofChar? c with
      | some s => (0, Sequel.select ⟨x.unselected, none⟩ s)
      | none =>
        let (n, behind) := (joins? c x.unselected).getD (standsAlone c)
        (n, ⟨behind, none⟩)

def readLine (line : List Char) : Int × Sequel :=
  line.foldr (fun c (total, x) =>
    let (n, before) := columns c x
    (n + total, before)) (0, .plain)

def lineWidth (line : List Char) : Nat := (readLine line).1.toNat

example : lineWidth "日本é".toList = 5 := by decide +kernel
example : lineWidth "🇩🇪".toList = 2 := by decide +kernel
example : lineWidth "👍🏽".toList = 2 := by decide +kernel
example : lineWidth "👩‍👩‍👧‍👦".toList = 2 := by decide +kernel
example : lineWidth "☀".toList = 1 ∧ lineWidth "☀️".toList = 2 := by decide +kernel
example : lineWidth "لا".toList = 1 ∧ lineWidth "ال".toList = 2 := by decide +kernel

end BranchingStory.Text
