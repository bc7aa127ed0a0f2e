import BranchingStory.Dictionary
import BranchingStory.Json

/-! # Records in JSON

A record is read from an object, in which unknown fields are passed over and no known one may be
repeated, or from an array of all its fields in order. A budget bounds how deeply the parts that are
looked at may nest; each array, object and record costs one of it. -/

namespace BranchingStory.Json
set_option autoImplicit false

/-- The value of a field, if the object has one; a repeated field has no reading. -/
def field? (fields : List (String × Json)) (name : String) : Option (Option Json) :=
  match fields.filter (·.1 == name) with
  | [] => some none
  | [(_, j)] => some (some j)
  | _ => none

/-- The values of the named fields of a record. -/
def record? (names : List String) : Json → Option (List (Option Json))
  | .object fields => names.mapM (field? fields)
  | .array items => if items.length = names.length then some (items.map some) else none
  | _ => none

def string? : Json → Option String
  | .string s => some s
  | _ => none

def natural? : Json → Option Nat
  | .natural n => some n
  | _ => none

def bool? : Json → Option Bool
  | .bool b => some b
  | _ => none

/-- A value that may be absent or null. -/
def optional? {α : Type} (read : Json → Option α) : Option Json → Option (Option α)
  | none | some .null => some none
  | some j => (read j).map some

/-- A value that may be absent, but not null. -/
def defaulted? {α : Type} (default : α) (read : Json → Option α) : Option Json → Option α
  | none => some default
  | some j => read j

def listOf? {α : Type} (budget : Nat) (read : Nat → Json → Option α) (j : Json) : Option (List α) :=
  match budget, j with
  | budget + 1, .array items => items.mapM (read budget)
  | _, _ => none

/-- The values of an object under their names; of a repeated name the last value counts. -/
def dictionaryOf? {α : Type} (budget : Nat) (read : Json → Option α) (j : Json) :
    Option (Dictionary α) :=
  match budget, j with
  | _ + 1, .object fields => do
    let entries ← fields.mapM fun (key, j) => (read j).map (key, ·)
    return .ofList entries
  | _, _ => none

/-- One of some named values, written as its name or as an object with the name and null. -/
def choice? {α : Type} (budget : Nat) (named : String → Option α) (j : Json) : Option α :=
  match budget, j with
  | _, .string name => named name
  | _ + 1, .object [(name, .null)] => named name
  | _, _ => none

/-- The fields of an object that are not absent. -/
def objectOf (fields : List (String × Option Json)) : Json :=
  .object (fields.filterMap fun (name, j) => j.map (name, ·))

def orNull (s : Option String) : Json := (s.map Json.string).getD .null

end BranchingStory.Json
