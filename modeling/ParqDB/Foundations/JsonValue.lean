import Mathlib.Data.List.Basic
import Mathlib.Data.Rat.Defs

/-!
# JSON values

JSON documents as a program that loads them sees them: objects are association lists with
the operations of a dictionary.
-/

namespace ParqDB.Foundations

/-- A JSON value.  Numbers with a fraction or an exponent are kept apart from integers. -/
inductive JsonValue
  | null
  | bool (value : Bool)
  | integer (value : ℤ)
  | float (value : ℚ)
  | string (value : String)
  | array (items : List JsonValue)
  | object (members : List (String × JsonValue))

namespace JsonValue

/-- The member of an object. -/
def get? : JsonValue → String → Option JsonValue
  | .object members, key => members.lookup key
  | _, _ => none

/-- The items of an array. -/
def items : JsonValue → List JsonValue
  | .array items => items
  | _ => []

/-- The members of an object. -/
def members : JsonValue → List (String × JsonValue)
  | .object members => members
  | _ => []

/-- Replaces a member, or adds it at the end. -/
def setMember (key : String) (value : JsonValue) :
    List (String × JsonValue) → List (String × JsonValue)
  | [] => [(key, value)]
  | (other, old) :: rest =>
      if other = key then (key, value) :: rest else (other, old) :: setMember key value rest

/-- The object with one member set. -/
def set (object : JsonValue) (key : String) (value : JsonValue) : JsonValue :=
  .object (setMember key value object.members)

/-- Equality with a natural number, where booleans count as `0` and `1`. -/
def equalsNat : JsonValue → ℕ → Bool
  | .bool value, number => value.toNat = number
  | .integer value, number => value = number
  | .float value, number => value = number
  | _, _ => false

/-- Equality with a string. -/
def equalsString : JsonValue → String → Bool
  | .string value, text => value = text
  | _, _ => false

@[simp] theorem equalsString_iff {value : JsonValue} {text : String} :
    value.equalsString text = true ↔ value = .string text := by
  cases value <;> simp [equalsString]

theorem lookup_setMember (key other : String) (value : JsonValue)
    (members : List (String × JsonValue)) :
    (setMember key value members).lookup other =
      if other = key then some value else members.lookup other := by
  have hbeq : ∀ {first second : String}, first ≠ second → (first == second) = false :=
    fun hne => beq_eq_false_iff_ne.mpr hne
  induction members with
  | nil =>
      by_cases heq : other = key
      · simp [setMember, heq]
      · simp [setMember, List.lookup_cons, heq, hbeq heq]
  | cons member members ih =>
      obtain ⟨name, old⟩ := member
      by_cases hname : name = key
      · subst hname
        by_cases heq : other = name
        · simp [setMember, heq]
        · simp [setMember, List.lookup_cons, heq, hbeq heq]
      · rw [setMember, if_neg hname, List.lookup_cons, List.lookup_cons, ih]
        by_cases heq : other = name
        · subst heq
          simp [hname]
        · simp [hbeq heq]

@[simp] theorem get?_set_self (object value : JsonValue) (key : String) :
    (object.set key value).get? key = some value := by
  simp [set, get?, lookup_setMember]

theorem get?_set_ne {object value : JsonValue} {key other : String} (hne : other ≠ key) :
    (object.set key value).get? other = object.get? other := by
  rw [set, get?, lookup_setMember, if_neg hne]
  cases object <;> simp [members, get?]

end JsonValue

end ParqDB.Foundations
