import Mathlib.Data.Int.Notation
import Mathlib.Data.List.Basic
import Mathlib.Order.Basic

/-!
# JSON values

Parsed JSON, with the accessors of a parsing library: each answers `none` on a value of another
kind.
-/

/-- **A JSON value.** `int` is a number written as an integer of 64 bits, of either sign; `float` is
any other number, as text. The keys of an object are unique. -/
inductive Json
  | null
  | bool (b : Bool)
  | int (n : ℤ)
  | float (text : String)
  | str (s : String)
  | arr (items : List Json)
  | obj (fields : List (String × Json))

namespace Json

def isNull : Json → Bool
  | null => true
  | _ => false

def asStr : Json → Option String
  | str s => some s
  | _ => none

def asArray : Json → Option (List Json)
  | arr items => some items
  | _ => none

def asI64 : Json → Option ℤ
  | int n => if -9223372036854775808 ≤ n ∧ n ≤ 9223372036854775807 then some n else none
  | _ => none

def asU64 : Json → Option ℕ
  | int n => if 0 ≤ n ∧ n ≤ 18446744073709551615 then some n.toNat else none
  | _ => none

/-- The field of an object. -/
def get (key : String) : Json → Option Json
  | obj fields => (fields.find? fun f => f.1 = key).map Prod.snd
  | _ => none

/-- The field of an object, a missing one as `null`. -/
def take (key : String) (j : Json) : Json := (j.get key).getD null

/-- Write a field among others. -/
def setField (key : String) (value : Json) : List (String × Json) → List (String × Json)
  | [] => [(key, value)]
  | f :: fields => if f.1 = key then (key, value) :: fields else f :: setField key value fields

/-- Write a field of an object; `null` becomes one. -/
def set (j : Json) (key : String) (value : Json) : Json :=
  match j with
  | obj fields => obj (setField key value fields)
  | null => obj [(key, value)]
  | j => j

/-- The text of a field, or the default. -/
def text (key default : String) (j : Json) : String := ((j.get key).bind asStr).getD default

/-- The items of an array field; none where there is no array. -/
def arrayField (key : String) (j : Json) : List Json := ((j.get key).bind asArray).getD []

/-! ## Values inside values -/

theorem sizeOf_lt_of_get {j v : Json} {key : String} (h : j.get key = some v) :
    sizeOf v < sizeOf j := by
  cases j with
  | obj fields =>
    obtain ⟨f, hfind, rfl⟩ := Option.map_eq_some_iff.mp h
    have hmem := List.sizeOf_lt_of_mem (List.mem_of_find?_eq_some hfind)
    have hfield : sizeOf f.2 < sizeOf f := by
      obtain ⟨key, value⟩ := f
      simp only [Prod.mk.sizeOf_spec]
      omega
    simp only [obj.sizeOf_spec]
    omega
  | _ => exact absurd h nofun

theorem sizeOf_lt_of_mem_asArray {j v : Json} {items : List Json} (h : j.asArray = some items)
    (hv : v ∈ items) : sizeOf v < sizeOf j := by
  cases j with
  | arr items' =>
    obtain rfl : items' = items := Option.some.inj h
    have hmem := List.sizeOf_lt_of_mem hv
    simp only [arr.sizeOf_spec]
    omega
  | _ => exact absurd h nofun

/-! ## Writing fields -/

/-- An object. -/
def IsObj (j : Json) : Prop := ∃ fields, j = obj fields

theorem IsObj.set {j : Json} (h : j.IsObj) (key : String) (value : Json) :
    (j.set key value).IsObj := by
  obtain ⟨fields, rfl⟩ := h
  exact ⟨_, rfl⟩

theorem get_set {j : Json} (h : j.IsObj) (key key' : String) (value : Json) :
    (j.set key value).get key' = if key' = key then some value else j.get key' := by
  obtain ⟨fields, rfl⟩ := h
  show ((setField key value fields).find? fun f => f.1 = key').map Prod.snd = _
  induction fields with
  | nil =>
    by_cases hkey : key' = key
    · simp [setField, hkey]
    · simp [setField, hkey, get, Ne.symm hkey]
  | cons f fields ih =>
    by_cases hf : f.1 = key
    · rw [setField, if_pos hf]
      by_cases hkey : key' = key
      · simp [hkey]
      · have hkey' : ¬key = key' := fun h => hkey h.symm
        simp [get, hkey, hkey', hf]
    · rw [setField, if_neg hf, List.find?_cons]
      by_cases hf' : f.1 = key'
      · have hkey : ¬key' = key := fun h => hf (hf'.trans h)
        simp [get, hf', hkey]
      · simp only [get, List.find?_cons, hf', decide_false] at ih ⊢
        exact ih

end Json
