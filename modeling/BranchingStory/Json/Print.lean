import BranchingStory.Json

/-! # Printing JSON

Documents are printed with two spaces of indentation for each level, one item or field on a line, and
nothing between the brackets of an empty array or object. Text is escaped only where it has to be. -/

namespace BranchingStory.Json
set_option autoImplicit false

def hexDigit (n : Nat) : Char := if n < 10 then Char.ofNat ('0'.toNat + n) else Char.ofNat ('a'.toNat + n - 10)

def quoteChar (c : Char) : List Char :=
  if c = '"' then ['\\', '"']
  else if c = '\\' then ['\\', '\\']
  else if c = '\x08' then ['\\', 'b']
  else if c = '\x0C' then ['\\', 'f']
  else if c = '\n' then ['\\', 'n']
  else if c = '\r' then ['\\', 'r']
  else if c = '\t' then ['\\', 't']
  else if c.toNat < 0x20 then ['\\', 'u', '0', '0', hexDigit (c.toNat / 16), hexDigit (c.toNat % 16)]
  else [c]

def quote (text : List Char) : List Char := '"' :: text.flatMap quoteChar ++ ['"']

/-- A new line that begins at the given level. -/
def newLine (level : Nat) : List Char := '\n' :: List.replicate (2 * level) ' '

mutual

/-- The text of a value whose last line begins at the given level. What is foreign has no text of its
own and is printed as null. -/
def text (level : Nat) : Json → List Char
  | .null | .foreign _ => ['n', 'u', 'l', 'l']
  | .bool true => ['t', 'r', 'u', 'e']
  | .bool false => ['f', 'a', 'l', 's', 'e']
  | .natural n => Nat.toDigits 10 n
  | .string s => quote s.toList
  | .array items => '[' :: textItems level items
  | .object fields => '\x7b' :: textFields level fields

/-- The items behind the opening bracket, and the closing bracket. -/
def textItems (level : Nat) : List Json → List Char
  | [] => [']']
  | j :: rest => newLine (level + 1) ++ text (level + 1) j ++ moreItems level rest

/-- The items behind an item, and the closing bracket. -/
def moreItems (level : Nat) : List Json → List Char
  | [] => newLine level ++ [']']
  | j :: rest => ',' :: newLine (level + 1) ++ text (level + 1) j ++ moreItems level rest

def textFields (level : Nat) : List (String × Json) → List Char
  | [] => ['\x7d']
  | (key, j) :: rest =>
    newLine (level + 1) ++ quote key.toList ++ [':', ' '] ++ text (level + 1) j ++
      moreFields level rest

def moreFields (level : Nat) : List (String × Json) → List Char
  | [] => newLine level ++ ['\x7d']
  | (key, j) :: rest =>
    ',' :: newLine (level + 1) ++ quote key.toList ++ [':', ' '] ++ text (level + 1) j ++
      moreFields level rest

end

def print (j : Json) : List Char := text 0 j

end BranchingStory.Json
