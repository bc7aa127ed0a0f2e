import BranchingStory.Text.EmojiTable
import BranchingStory.Text.JoiningTable
import BranchingStory.Text.Width

/-! # Characters that join

Several characters may be displayed as one sign: as a flag, as an emoji with a skin tone or one made of
several, or as a letter that joins the one before it. A character joins what stands behind it, so a line
is read from its end. -/

namespace BranchingStory.Text
set_option autoImplicit false

/-! ## Characters -/

def isBetween (first last : Nat) (c : Char) : Bool := first ≤ c.toNat && c.toNat ≤ last

def isFlagHalf (c : Char) : Bool := isBetween 0x1F1E6 0x1F1FF c

def isSkinTone (c : Char) : Bool := isBetween 0x1F3FB 0x1F3FF c

def isTagLetter (c : Char) : Bool := isBetween 0xE0061 0xE007A c

def isTagDigit (c : Char) : Bool := isBetween 0xE0030 0xE0039 c

def isTagEnd (c : Char) : Bool := c.toNat == 0xE007F

/-- The flag that the name of a region stands behind. -/
def isBlackFlag (c : Char) : Bool := c.toNat == 0x1F3F4

def isEmoji (c : Char) : Bool := inRanges emojiRanges c

def isJoiner (c : Char) : Bool := c == '\u200D'

/-- The letters of several scripts join across the character. -/
def isJoinedAcross (c : Char) : Bool :=
  c == '\u034F' || c == '\u200D' || c == '\u180F' || isBetween 0x17B4 0x17B5 c ||
    isBetween 0x180B 0x180D c || isBetween 0xFE00 0xFE0F c || isBetween 0xE0100 0xE01EF c

def isArabicJoinedAcross (c : Char) : Bool :=
  isZeroWidth .later c && !inRanges separatingRanges c

/-! ## What stands behind a character -/

/-- How many halves of flags stand in front of a joiner. -/
inductive FlagHalves
  | one
  | even
  | odd
  deriving DecidableEq

/-- What has been read of an emoji that another one is joined to: nothing, the frame of a key, halves
of flags, or the end of a region's name with so many letters and digits in front of it. -/
inductive JoinedEmoji
  | start
  | key
  | flag (halves : FlagHalves)
  | tagLetters (count : Nat)
  | tagDigits (count : Nat)
  deriving DecidableEq

/-- The letters that may be displayed as one sign with what stands before them. -/
inductive JoiningLetter
  | alef
  | lamed
  | khmerLetter
  | bugineseYa
  | bugineseYaWithVowel
  | tifinaghConsonant
  | tifinaghJoinedConsonant
  | lisuTone
  | orkhonI
  deriving DecidableEq

/-- What stands behind a character, as far as its width depends on it. -/
inductive Behind
  | plain
  | skinTone
  | flagHalf
  | flagHalves
  | emoji
  | joined (emoji : JoinedEmoji)
  | letter (letter : JoiningLetter) (joiner : Bool)
  | kiratRaiE
  | kiratRaiAi
  deriving DecidableEq

/-! ## Columns of a character

With its columns a character says what the one before it has behind it. What joins a sign that was
counted by itself may give a column back. -/

/-- The columns of a character that joins an emoji, or part of one, behind it. -/
def joinsEmoji? (c : Char) : JoinedEmoji → Option (Int × Behind)
  | .start =>
    if c == '\u20E3' then some (0, .joined .key)
    else if isFlagHalf c then some (1, .joined (.flag .one))
    else if isSkinTone c then some (0, .skinTone)
    else if isTagEnd c then some (0, .joined (.tagLetters 0))
    else if isEmoji c then some (0, .emoji)
    else none
  | .key => none
  | .flag halves =>
    if isFlagHalf c then
      match halves with
      | .one | .odd => some (-1, .joined (.flag .even))
      | .even => some (3, .joined (.flag .odd))
    else if isJoiner c && halves ≠ .one then some (0, .joined .start)
    else none
  | .tagLetters count =>
    if count < 6 && isTagLetter c then some (0, .joined (.tagLetters (count + 1)))
    else if count ≤ 4 && isTagDigit c then some (0, .joined (.tagDigits 1))
    else if 3 ≤ count && isBlackFlag c then some (0, .emoji)
    else none
  | .tagDigits count =>
    if count < 3 && isTagDigit c then some (0, .joined (.tagDigits (count + 1)))
    else if count = 3 && isBlackFlag c then some (0, .emoji)
    else none

/-- The columns of a character that joins a letter behind it; some letters need a joiner for that. -/
def joinsLetter? (c : Char) (joiner : Bool) : JoiningLetter → Option (Int × Behind)
  | .alef =>
    if inRanges lamRanges c then some (0, .plain)
    else if isArabicJoinedAcross c then some (0, .letter .alef joiner)
    else none
  | .lamed => if joiner && c == '\u05D0' then some (0, .plain) else none
  | .khmerLetter => if c == '\u17D2' then some (-1, .plain) else none
  | .bugineseYa =>
    if joiner && c == '\u1A17' then some (0, .letter .bugineseYaWithVowel true) else none
  | .bugineseYaWithVowel => if c == '\u1A15' then some (0, .plain) else none
  | .tifinaghConsonant =>
    if c == '\u2D7F' then some (1, .letter .tifinaghJoinedConsonant true)
    else if joiner && inRanges tifinaghConsonantRanges c then some (0, .plain)
    else none
  | .tifinaghJoinedConsonant =>
    if inRanges tifinaghConsonantRanges c then some (-1, .plain) else none
  | .lisuTone => if isBetween 0xA4F8 0xA4FB c then some (0, .plain) else none
  | .orkhonI => if joiner && c.toNat == 0x10C32 then some (0, .plain) else none

def joins? (c : Char) : Behind → Option (Int × Behind)
  | .plain => none
  | .skinTone =>
    if isJoiner c then some (0, .joined .start)
    else if inRanges emojiModifierBaseRanges c then some (0, .emoji)
    else none
  | .flagHalf => if isFlagHalf c then some (1, .flagHalves) else none
  | .flagHalves =>
    if isJoiner c then some (0, .joined .start)
    else if isFlagHalf c then some (1, .flagHalves)
    else none
  | .emoji => if isJoiner c then some (0, .joined .start) else none
  | .joined emoji => joinsEmoji? c emoji
  | .letter l joiner =>
    if l ≠ .alef && isJoiner c then some (0, .letter l true)
    else if l ≠ .alef && isJoinedAcross c then some (0, .letter l joiner)
    else joinsLetter? c joiner l
  | .kiratRaiE =>
    if isBetween 0x16D63 0x16D63 c || isBetween 0x16D69 0x16D69 c then some (0, .plain)
    else if isBetween 0x16D67 0x16D67 c then some (0, .kiratRaiAi)
    else if isBetween 0x16D68 0x16D68 c then some (1, .kiratRaiE)
    else none
  | .kiratRaiAi => if isBetween 0x16D63 0x16D63 c then some (0, .plain) else none

def standsAlone (c : Char) : Int × Behind :=
  if c == '\u05DC' then (1, .letter .lamed false)
  else if inRanges alefRanges c then (1, .letter .alef false)
  else if inRanges khmerLetterRanges c then (1, .letter .khmerLetter false)
  else if c == '\u17D8' then (3, .plain)
  else if c == '\u1A10' then (1, .letter .bugineseYa false)
  else if inRanges tifinaghConsonantRanges c then (1, .letter .tifinaghConsonant false)
  else if c == '\uA4FC' || c == '\uA4FD' then (1, .letter .lisuTone false)
  else if c.toNat == 0x10C03 then (1, .letter .orkhonI false)
  else if c.toNat == 0x16D67 then (1, .kiratRaiE)
  else if c.toNat == 0x16D68 then (1, .kiratRaiAi)
  else if isFlagHalf c then (1, .flagHalf)
  else if isSkinTone c then (2, .skinTone)
  else if isEmoji c then (2, .emoji)
  else (charWidth .later c, .plain)

end BranchingStory.Text
