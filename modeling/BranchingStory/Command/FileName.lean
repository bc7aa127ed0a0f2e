/-! # File names

The parts of a path that tell what a file is called and what it holds. -/

namespace BranchingStory.FileName
set_option autoImplicit false

/-- The last part of a path, unless it leads upwards. -/
def ofPath? (path : String) : Option (List Char) :=
  (((path.toList.splitOn '/').filter fun part => part ≠ [] ∧ part ≠ ['.']).getLast?).filter
    (· ≠ ['.', '.'])

/-- A file name in front of its last point and behind it. A point at the start divides nothing. -/
def divide (name : List Char) : List Char × Option (List Char) :=
  let behind := (name.reverse.takeWhile (· ≠ '.')).reverse
  let front := name.take (name.length - behind.length - 1)
  if behind.length = name.length ∨ front = [] then (name, none) else (front, some behind)

def stem (path : String) : String := String.ofList (((ofPath? path).map fun name => (divide name).1).getD [])

def isBuilt (path : String) : Bool :=
  ((ofPath? path).bind fun name => (divide name).2) == some "json".toList

end BranchingStory.FileName
