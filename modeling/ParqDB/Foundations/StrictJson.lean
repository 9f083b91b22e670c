import Mathlib.Algebra.Order.Ring.Int
import Mathlib.Data.Int.Notation
import Mathlib.Data.List.Basic
import Mathlib.Data.List.Nodup

/-!
# Strict JSON texts

The JSON texts of RFC 8259 whose numbers are integers that a double represents, and whose objects
do not repeat a key.  A text is a list of UTF-16 code units, as a string of JavaScript is, and so
are the strings that it holds.

* `IsText`: the grammar, over a class of white space.
* `Json.keys`: all keys of all objects of a value.
* `Json.owned`: what is left of a value when assignments to some keys add no member.
-/

namespace ParqDB.Foundations.StrictJson

abbrev Units := List UInt16

/-- The code units of an ASCII text. -/
def units (text : String) : Units := text.toList.map fun c => UInt16.ofNat c.toNat

/-! ## Values -/

inductive Json
  | null
  | bool (value : Bool)
  | integer (value : ℤ)
  | string (text : Units)
  | array (items : List Json)
  | object (members : List (Units × Json))

mutual

/-- The keys of the objects in a value. -/
def Json.keys : Json → List Units
  | .array items => itemKeys items
  | .object members => memberKeys members
  | .null | .bool _ | .integer _ | .string _ => []

def itemKeys : List Json → List Units
  | [] => []
  | item :: items => item.keys ++ itemKeys items

def memberKeys : List (Units × Json) → List Units
  | [] => []
  | (key, value) :: members => key :: value.keys ++ memberKeys members

end

mutual

/-- The value, if assigning to a key adds a member only where `own` says so. -/
def Json.owned (own : Units → Bool) : Json → Json
  | .array items => .array (ownedItems own items)
  | .object members => .object (ownedMembers own members)
  | .null => .null
  | .bool value => .bool value
  | .integer value => .integer value
  | .string text => .string text

def ownedItems (own : Units → Bool) : List Json → List Json
  | [] => []
  | item :: items => item.owned own :: ownedItems own items

def ownedMembers (own : Units → Bool) : List (Units × Json) → List (Units × Json)
  | [] => []
  | (key, value) :: members =>
      if own key then (key, value.owned own) :: ownedMembers own members
      else ownedMembers own members

end

variable {own : Units → Bool}

theorem length_ownedMembers (own : Units → Bool) (members : List (Units × Json)) :
    (ownedMembers own members).length ≤ members.length := by
  induction members with
  | nil => exact Nat.le_refl _
  | cons member members ih =>
      obtain ⟨key, value⟩ := member
      rw [ownedMembers]
      split
      · exact Nat.succ_le_succ ih
      · exact Nat.le_succ_of_le ih

mutual

/-- Nothing is lost exactly if assigning to any of the keys adds a member. -/
theorem Json.owned_eq_self_iff : ∀ value : Json,
    value.owned own = value ↔ ∀ key ∈ value.keys, own key = true
  | .null => by simp [Json.owned, Json.keys]
  | .bool _ => by simp [Json.owned, Json.keys]
  | .integer _ => by simp [Json.owned, Json.keys]
  | .string _ => by simp [Json.owned, Json.keys]
  | .array items => by
      rw [Json.owned, Json.keys, Json.array.injEq]
      exact ownedItems_eq_self_iff items
  | .object members => by
      rw [Json.owned, Json.keys, Json.object.injEq]
      exact ownedMembers_eq_self_iff members

theorem ownedItems_eq_self_iff : ∀ items : List Json,
    ownedItems own items = items ↔ ∀ key ∈ itemKeys items, own key = true
  | [] => by simp [ownedItems, itemKeys]
  | item :: items => by
      rw [ownedItems, itemKeys, List.cons.injEq, Json.owned_eq_self_iff item,
        ownedItems_eq_self_iff items, List.forall_mem_append]

theorem ownedMembers_eq_self_iff : ∀ members : List (Units × Json),
    ownedMembers own members = members ↔ ∀ key ∈ memberKeys members, own key = true
  | [] => by simp [ownedMembers, memberKeys]
  | (key, value) :: members => by
      rw [memberKeys, List.cons_append, List.forall_mem_cons, List.forall_mem_append,
        ← Json.owned_eq_self_iff value, ← ownedMembers_eq_self_iff members, ownedMembers]
      by_cases hown : own key = true
      · simp [hown]
      · have hshorter := length_ownedMembers own members
        simp only [hown, Bool.false_eq_true, if_false, false_and, iff_false]
        intro hsame
        have hlength := congrArg List.length hsame
        rw [List.length_cons] at hlength
        omega

end

/-! ## Characters -/

def quotationMark : UInt16 := 0x22

def backslash : UInt16 := 0x5C

def comma : UInt16 := 0x2C

def colon : UInt16 := 0x3A

def minus : UInt16 := 0x2D

def zero : UInt16 := 0x30

def openBracket : UInt16 := 0x5B

def closeBracket : UInt16 := 0x5D

def openBrace : UInt16 := 0x7B

def closeBrace : UInt16 := 0x7D

def isDigit (c : UInt16) : Bool := 0x30 ≤ c && c ≤ 0x39

/-- White space of RFC 8259. -/
def isJsonSpace (c : UInt16) : Bool := [0x20, 0x09, 0x0A, 0x0D].contains c

/-! ## Strings -/

def hexValue (c : UInt16) : Option ℕ :=
  if isDigit c then some (c.toNat - 0x30)
  else if 0x41 ≤ c && c ≤ 0x46 then some (c.toNat - 0x37)
  else if 0x61 ≤ c && c ≤ 0x66 then some (c.toNat - 0x57)
  else none

/-- The code unit of an escape by four hexadecimal digits. -/
def hexUnit (c₁ c₂ c₃ c₄ : UInt16) : Option UInt16 := do
  let d₁ ← hexValue c₁
  let d₂ ← hexValue c₂
  let d₃ ← hexValue c₃
  let d₄ ← hexValue c₄
  some (UInt16.ofNat (((d₁ * 16 + d₂) * 16 + d₃) * 16 + d₄))

/-- The code unit of a short escape. -/
def shortEscape (c : UInt16) : Option UInt16 :=
  [(0x22, 0x22), (0x5C, 0x5C), (0x2F, 0x2F), (0x62, 0x08), (0x66, 0x0C), (0x6E, 0x0A), (0x72, 0x0D),
    (0x74, 0x09)].lookup c

/-- What stands between the quotation marks of a string, and the string. -/
inductive IsBody : Units → Units → Prop
  | nil : IsBody [] []
  | plain {c : UInt16} {body text : Units} : 0x20 ≤ c → c ≠ quotationMark → c ≠ backslash →
      IsBody body text → IsBody (c :: body) (c :: text)
  | short {c d : UInt16} {body text : Units} : shortEscape c = some d →
      IsBody body text → IsBody (backslash :: c :: body) (d :: text)
  | hex {c₁ c₂ c₃ c₄ d : UInt16} {body text : Units} : hexUnit c₁ c₂ c₃ c₄ = some d →
      IsBody body text → IsBody (backslash :: 0x75 :: c₁ :: c₂ :: c₃ :: c₄ :: body) (d :: text)

def IsString (literal text : Units) : Prop :=
  ∃ body, literal = quotationMark :: (body ++ [quotationMark]) ∧ IsBody body text

/-! ## Integers -/

/-- `Number.MAX_SAFE_INTEGER`. -/
def maxSafeInteger : ℕ := 2 ^ 53 - 1

def digitsValue (digits : Units) : ℕ :=
  digits.foldl (fun value digit => 10 * value + (digit.toNat - 0x30)) 0

/-- Digits without a leading zero. -/
def IsDigits (digits : Units) : Prop :=
  digits = [zero] ∨ digits ≠ [] ∧ digits.head? ≠ some zero ∧ ∀ c ∈ digits, isDigit c = true

theorem IsDigits.head {digits : Units} (hdigits : IsDigits digits) :
    ∃ c rest, digits = c :: rest ∧ isDigit c = true := by
  rcases hdigits with rfl | ⟨hne, -, hdigits⟩
  · exact ⟨zero, [], rfl, by decide⟩
  · obtain ⟨c, rest, rfl⟩ := List.exists_cons_of_ne_nil hne
    exact ⟨c, rest, rfl, hdigits c List.mem_cons_self⟩

inductive IsInteger : Units → ℤ → Prop
  | positive {digits : Units} : IsDigits digits → IsInteger digits (digitsValue digits)
  | negative {digits : Units} : IsDigits digits →
      IsInteger (minus :: digits) (-(digitsValue digits : ℤ))

theorem IsInteger.head {text : Units} {value : ℤ} (htext : IsInteger text value) :
    ∃ c rest, text = c :: rest ∧ (isDigit c || c = minus) = true := by
  cases htext with
  | positive hdigits =>
      obtain ⟨c, rest, rfl, hc⟩ := hdigits.head
      exact ⟨c, rest, rfl, by simp [hc]⟩
  | negative hdigits => exact ⟨minus, _, rfl, by simp⟩

/-! ## Texts -/

section

variable (space : UInt16 → Bool)

def IsSpace (text : Units) : Prop := ∀ c ∈ text, space c = true

mutual

inductive IsValue : Units → Json → Prop
  | null : IsValue (units "null") .null
  | false : IsValue (units "false") (.bool false)
  | true : IsValue (units "true") (.bool true)
  | integer {text : Units} {value : ℤ} : IsInteger text value → value.natAbs ≤ maxSafeInteger →
      IsValue text (.integer value)
  | string {literal text : Units} : IsString literal text → IsValue literal (.string text)
  | emptyArray {blank : Units} : IsSpace space blank →
      IsValue (openBracket :: (blank ++ [closeBracket])) (.array [])
  | array {text : Units} {items : List Json} : IsItems text items →
      IsValue (openBracket :: (text ++ [closeBracket])) (.array items)
  | emptyObject {blank : Units} : IsSpace space blank →
      IsValue (openBrace :: (blank ++ [closeBrace])) (.object [])
  | object {text : Units} {members : List (Units × Json)} : IsMembers text members →
      (members.map Prod.fst).Nodup →
      IsValue (openBrace :: (text ++ [closeBrace])) (.object members)

/-- Values with commas between them. -/
inductive IsItems : Units → List Json → Prop
  | last {before text after : Units} {item : Json} : IsSpace space before → IsValue text item →
      IsSpace space after → IsItems (before ++ (text ++ after)) [item]
  | more {before text after rest : Units} {item : Json} {items : List Json} :
      IsSpace space before → IsValue text item → IsSpace space after → IsItems rest items →
      IsItems (before ++ (text ++ (after ++ comma :: rest))) (item :: items)

/-- Keys and values with commas between them. -/
inductive IsMembers : Units → List (Units × Json) → Prop
  | last {before literal middle between text after : Units} {key : Units} {value : Json} :
      IsSpace space before → IsString literal key → IsSpace space middle → IsSpace space between →
      IsValue text value → IsSpace space after →
      IsMembers (before ++ (literal ++ (middle ++ colon :: (between ++ (text ++ after)))))
        [(key, value)]
  | more {before literal middle between text after rest : Units} {key : Units} {value : Json}
      {members : List (Units × Json)} :
      IsSpace space before → IsString literal key → IsSpace space middle → IsSpace space between →
      IsValue text value → IsSpace space after → IsMembers rest members →
      IsMembers (before ++ (literal ++ (middle ++ colon ::
        (between ++ (text ++ (after ++ comma :: rest)))))) ((key, value) :: members)

end

/-- A value with white space around it. -/
def IsText (text : Units) (value : Json) : Prop :=
  ∃ before middle after, text = before ++ (middle ++ after) ∧ IsSpace space before ∧
    IsValue space middle value ∧ IsSpace space after

variable {space}

theorem IsSpace.append {before after : Units} (hbefore : IsSpace space before)
    (hafter : IsSpace space after) : IsSpace space (before ++ after) := by
  intro c hc
  rcases List.mem_append.mp hc with hc | hc
  · exact hbefore c hc
  · exact hafter c hc

variable {blank text : Units}

theorem IsItems.space_append {items : List Json} (hblank : IsSpace space blank)
    (hitems : IsItems space text items) : IsItems space (blank ++ text) items := by
  cases hitems with
  | last hbefore hitem hafter =>
      rw [← List.append_assoc]
      exact .last (hblank.append hbefore) hitem hafter
  | more hbefore hitem hafter hrest =>
      rw [← List.append_assoc]
      exact .more (hblank.append hbefore) hitem hafter hrest

theorem IsMembers.space_append {members : List (Units × Json)} (hblank : IsSpace space blank)
    (hmembers : IsMembers space text members) : IsMembers space (blank ++ text) members := by
  cases hmembers with
  | last hbefore hkey hmiddle hbetween hvalue hafter =>
      rw [← List.append_assoc]
      exact .last (hblank.append hbefore) hkey hmiddle hbetween hvalue hafter
  | more hbefore hkey hmiddle hbetween hvalue hafter hrest =>
      rw [← List.append_assoc]
      exact .more (hblank.append hbefore) hkey hmiddle hbetween hvalue hafter hrest

end

/-! ## More white space -/

section

variable {space wider : UInt16 → Bool} (hwider : ∀ c, space c = true → wider c = true)

include hwider

variable {text : Units}

theorem IsSpace.mono (htext : IsSpace space text) : IsSpace wider text :=
  fun c hc => hwider c (htext c hc)

mutual

theorem IsValue.mono {text : Units} {value : Json} :
    IsValue space text value → IsValue wider text value
  | .null => .null
  | .false => .false
  | .true => .true
  | .integer hinteger hsafe => .integer hinteger hsafe
  | .string hstring => .string hstring
  | .emptyArray hblank => .emptyArray (hblank.mono hwider)
  | .array hitems => .array hitems.mono
  | .emptyObject hblank => .emptyObject (hblank.mono hwider)
  | .object hmembers hdistinct => .object hmembers.mono hdistinct

theorem IsItems.mono {text : Units} {items : List Json} :
    IsItems space text items → IsItems wider text items
  | .last hbefore hitem hafter => .last (hbefore.mono hwider) hitem.mono (hafter.mono hwider)
  | .more hbefore hitem hafter hrest =>
      .more (hbefore.mono hwider) hitem.mono (hafter.mono hwider) hrest.mono

theorem IsMembers.mono {text : Units} {members : List (Units × Json)} :
    IsMembers space text members → IsMembers wider text members
  | .last hbefore hkey hmiddle hbetween hvalue hafter =>
      .last (hbefore.mono hwider) hkey (hmiddle.mono hwider) (hbetween.mono hwider) hvalue.mono
        (hafter.mono hwider)
  | .more hbefore hkey hmiddle hbetween hvalue hafter hrest =>
      .more (hbefore.mono hwider) hkey (hmiddle.mono hwider) (hbetween.mono hwider) hvalue.mono
        (hafter.mono hwider) hrest.mono

end

theorem IsText.mono {value : Json} (htext : IsText space text value) : IsText wider text value := by
  obtain ⟨before, middle, after, rfl, hbefore, hvalue, hafter⟩ := htext
  exact ⟨before, middle, after, rfl, hbefore.mono hwider, hvalue.mono hwider, hafter.mono hwider⟩

end

end ParqDB.Foundations.StrictJson
