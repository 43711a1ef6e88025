/-
  PaseoGateway/Json.lean
  ======================
  **JSON values as the message walkers see them.**

  An object is its list of entries in order.  Numbers are only ever copied.
-/
import Mathlib

namespace PaseoGateway

inductive Json where
  | null
  | bool (b : Bool)
  | num (n : Int)
  | str (s : String)
  | arr (items : List Json)
  | obj (fields : List (String × Json))

namespace Json

/-- The value of a field of an object. -/
def field? (key : String) : Json → Option Json
  | .obj fields => fields.lookup key
  | _ => none

/-- The value counts as true in a condition. -/
def truthy : Json → Bool
  | .null => false
  | .bool b => b
  | .num n => n != 0
  | .str s => s != ""
  | .arr _ => true
  | .obj _ => true

/-- `{ ...object, [key]: value }`: an existing field keeps its place. -/
def setField {α : Type} (key : String) (value : α) : List (String × α) → List (String × α)
  | [] => [(key, value)]
  | (k, v) :: rest => if k = key then (k, value) :: rest else (k, v) :: setField key value rest

theorem lookup_setField {α : Type} {key : String} {value : α} {fields : List (String × α)}
    {k : String} :
    (setField key value fields).lookup k = if k = key then some value else fields.lookup k := by
  induction fields with
  | nil =>
    by_cases h : k = key
    · simp [setField, h]
    · have hbeq : (k == key) = false := by simpa using h
      simp [setField, h, List.lookup, hbeq]
  | cons field rest ih =>
    obtain ⟨name, old⟩ := field
    by_cases hname : name = key
    · by_cases h : k = key
      · simp [setField, hname, h]
      · have hbeq : (k == key) = false := by simpa using h
        simp [setField, hname, h, List.lookup, hbeq]
    · by_cases hk : k = name
      · simp [setField, hname, hk]
      · have hbeq : (k == name) = false := by simpa using hk
        rw [setField, if_neg hname, List.lookup, hbeq, ih]
        simp [List.lookup, hbeq]

/-- The value at a position: the numbers of the entries and elements on the way to it. -/
def get : Json → List Nat → Option Json
  | value, [] => some value
  | .arr items, i :: path => items[i]?.bind fun item => item.get path
  | .obj fields, i :: path => fields[i]?.bind fun field => field.2.get path
  | _, _ :: _ => none

end Json

end PaseoGateway
