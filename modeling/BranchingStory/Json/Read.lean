import BranchingStory.Front
import BranchingStory.Json.Scan

/-! # Reading JSON

`parse?` reads a document of exactly one value, in the strict form of JSON. -/

namespace BranchingStory.Json
set_option autoImplicit false

def ofText : Option String → Json
  | some s => .string s
  | none => .foreign false

/-- The object with these fields; a name that is no Unicode text spoils it. -/
def ofFields (fields : List (Option String × Json)) : Json :=
  if fields.all (·.1.isSome) then .object (fields.filterMap fun (k, j) => k.map (·, j))
  else .foreign false

/-- A string at the front of the units. -/
def key? (ms : List Mark) : Option (Front Mark (Option String) ms.length) :=
  take? (fun | .string s => some s | _ => none) ms

def sign? (c : Char) (ms : List Mark) : Option (Front Mark Unit ms.length) :=
  take? (fun | .sign d => if d = c then some () else none | _ => none) ms

mutual

def value? (ms : List Mark) : Option (Front Mark Json ms.length) :=
  match ms with
  | [] => none
  | .plain j :: rest => some ⟨j, rest, by simp⟩
  | .string s :: rest => some ⟨ofText s, rest, by simp⟩
  | .sign c :: rest =>
    if c = '[' then
      match sign? ']' rest with
      | some ⟨_, rest, _⟩ => some ⟨.array [], rest, by simp; omega⟩
      | none => do
        let ⟨items, rest, _⟩ ← items? rest
        return ⟨.array items, rest, by simp; omega⟩
    else if c = '\x7b' then
      match sign? '\x7d' rest with
      | some ⟨_, rest, _⟩ => some ⟨.object [], rest, by simp; omega⟩
      | none => do
        let ⟨fields, rest, _⟩ ← fields? rest
        return ⟨ofFields fields, rest, by simp; omega⟩
    else none
termination_by 2 * ms.length
decreasing_by
  all_goals
    simp only [List.length_cons]
    omega

def items? (ms : List Mark) : Option (Front Mark (List Json) ms.length) := do
  let ⟨j, rest, _⟩ ← value? ms
  match sign? ']' rest with
  | some ⟨_, rest, _⟩ => return ⟨[j], rest, by omega⟩
  | none => do
    let ⟨_, rest, _⟩ ← sign? ',' rest
    let ⟨items, rest, _⟩ ← items? rest
    return ⟨j :: items, rest, by omega⟩
termination_by 2 * ms.length + 1
decreasing_by all_goals omega

def fields? (ms : List Mark) :
    Option (Front Mark (List (Option String × Json)) ms.length) := do
  let ⟨key, rest, _⟩ ← key? ms
  let ⟨_, rest, _⟩ ← sign? ':' rest
  let ⟨j, rest, _⟩ ← value? rest
  match sign? '\x7d' rest with
  | some ⟨_, rest, _⟩ => return ⟨[(key, j)], rest, by omega⟩
  | none => do
    let ⟨_, rest, _⟩ ← sign? ',' rest
    let ⟨fields, rest, _⟩ ← fields? rest
    return ⟨(key, j) :: fields, rest, by omega⟩
termination_by 2 * ms.length + 1
decreasing_by all_goals omega

end

def parse? (text : List Char) : Option Json := do
  let ⟨j, rest, _⟩ ← value? (← marks? text)
  if rest.isEmpty then some j else none

end BranchingStory.Json
