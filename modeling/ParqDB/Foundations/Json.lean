import Mathlib.Data.List.Basic
import Mathlib.Data.String.Basic

/-!
# Compact JSON text of strings and of lists of strings

`stringChars` is the text a compact JSON writer produces for one string and
`arrayText` the text of an array of strings.  Both are read back: `unescape` undoes
the escape of one character and leaves the rest of the input alone, which makes a
string's text self-delimiting and the text of an array injective.
-/

namespace ParqDB.Foundations.Json

/-- A lower-case hexadecimal digit. -/
def hexDigit (value : ℕ) : Char :=
  if value < 10 then Char.ofNat (48 + value) else Char.ofNat (87 + value)

def hexValue (digit : Char) : Option ℕ :=
  if 48 ≤ digit.toNat ∧ digit.toNat ≤ 57 then some (digit.toNat - 48)
  else if 97 ≤ digit.toNat ∧ digit.toNat ≤ 102 then some (digit.toNat - 87)
  else none

/-- Quotation mark, backslash and the control characters are escaped, the latter by
their short form where JSON has one. -/
def escapeChar (c : Char) : List Char :=
  if c = '"' then ['\\', '"']
  else if c = '\\' then ['\\', '\\']
  else if c.toNat = 8 then ['\\', 'b']
  else if c.toNat = 9 then ['\\', 't']
  else if c.toNat = 10 then ['\\', 'n']
  else if c.toNat = 12 then ['\\', 'f']
  else if c.toNat = 13 then ['\\', 'r']
  else if c.toNat < 32 then
    ['\\', 'u', '0', '0', hexDigit (c.toNat / 16), hexDigit (c.toNat % 16)]
  else [c]

/-- Reads one possibly escaped character; the closing quotation mark is none. -/
def unescape : List Char → Option (Char × List Char)
  | [] => none
  | '"' :: _ => none
  | '\\' :: '"' :: rest => some ('"', rest)
  | '\\' :: '\\' :: rest => some ('\\', rest)
  | '\\' :: 'b' :: rest => some (Char.ofNat 8, rest)
  | '\\' :: 't' :: rest => some (Char.ofNat 9, rest)
  | '\\' :: 'n' :: rest => some (Char.ofNat 10, rest)
  | '\\' :: 'f' :: rest => some (Char.ofNat 12, rest)
  | '\\' :: 'r' :: rest => some (Char.ofNat 13, rest)
  | '\\' :: 'u' :: '0' :: '0' :: high :: low :: rest =>
      match hexValue high, hexValue low with
      | some h, some l => some (Char.ofNat (16 * h + l), rest)
      | _, _ => none
  | '\\' :: _ => none
  | c :: rest => some (c, rest)

private theorem char_eq_of_toNat {c : Char} {n : ℕ} (h : c.toNat = n) : c = Char.ofNat n := by
  rw [← h, Char.ofNat_toNat]

private theorem unescape_control (code : Fin 32) (rest : List Char) :
    unescape ('\\' :: 'u' :: '0' :: '0' :: hexDigit (code.val / 16) ::
      hexDigit (code.val % 16) :: rest) = some (Char.ofNat code.val, rest) := by
  have hhex : hexValue (hexDigit (code.val / 16)) = some (code.val / 16) ∧
      hexValue (hexDigit (code.val % 16)) = some (code.val % 16) := by
    revert code
    decide
  have hcode : 16 * (code.val / 16) + code.val % 16 = code.val := Nat.div_add_mod code.val 16
  simp only [unescape, hhex.1, hhex.2, hcode]

theorem unescape_escapeChar (c : Char) (rest : List Char) :
    unescape (escapeChar c ++ rest) = some (c, rest) := by
  unfold escapeChar
  by_cases hquote : c = '"'
  · simp [hquote, unescape]
  by_cases hbackslash : c = '\\'
  · simp [hbackslash, unescape]
  rw [if_neg hquote, if_neg hbackslash]
  split_ifs with h8 h9 h10 h12 h13 hcontrol
  · simp [unescape, char_eq_of_toNat h8]
  · simp [unescape, char_eq_of_toNat h9]
  · simp [unescape, char_eq_of_toNat h10]
  · simp [unescape, char_eq_of_toNat h12]
  · simp [unescape, char_eq_of_toNat h13]
  · have hcode := unescape_control ⟨c.toNat, hcontrol⟩ rest
    rw [Char.ofNat_toNat] at hcode
    exact hcode
  · rw [List.singleton_append]
    unfold unescape
    split <;> simp_all

/-- The text of one string, quotation marks included. -/
def stringChars (text : String) : List Char :=
  '"' :: (text.toList.flatMap escapeChar ++ ['"'])

variable {restLeft restRight : List Char}

private theorem escaped_append_inj {left right : List Char}
    (h : left.flatMap escapeChar ++ '"' :: restLeft =
      right.flatMap escapeChar ++ '"' :: restRight) : left = right ∧ restLeft = restRight := by
  induction left generalizing right with
  | nil =>
      cases right with
      | nil => simpa using h
      | cons c right =>
          -- the closing quotation mark is not the start of an escaped character
          have hread := unescape_escapeChar c (right.flatMap escapeChar ++ '"' :: restRight)
          rw [← List.append_assoc, ← List.flatMap_cons, ← h] at hread
          simp [unescape] at hread
  | cons c left ih =>
      have hleft := unescape_escapeChar c (left.flatMap escapeChar ++ '"' :: restLeft)
      rw [← List.append_assoc, ← List.flatMap_cons, h] at hleft
      cases right with
      | nil => simp [unescape] at hleft
      | cons d right =>
          rw [List.flatMap_cons, List.append_assoc, unescape_escapeChar] at hleft
          obtain ⟨rfl, hrest⟩ := Prod.mk.inj (Option.some.inj hleft)
          obtain ⟨rfl, htail⟩ := ih hrest.symm
          exact ⟨rfl, htail⟩

/-- A string's text ends where it ends, whatever follows. -/
theorem stringChars_append_inj {left right : String}
    (h : stringChars left ++ restLeft = stringChars right ++ restRight) :
    left = right ∧ restLeft = restRight := by
  simp only [stringChars, List.cons_append, List.append_assoc, List.cons.injEq, true_and,
    List.nil_append] at h
  obtain ⟨htext, hrest⟩ := escaped_append_inj h
  exact ⟨String.toList_injective htext, hrest⟩

/-- What follows the first element of an array. -/
def moreChars : List String → List Char
  | [] => [']']
  | text :: texts => ',' :: (stringChars text ++ moreChars texts)

def arrayChars : List String → List Char
  | [] => ['[', ']']
  | text :: texts => '[' :: (stringChars text ++ moreChars texts)

/-- The text of an array of strings. -/
def arrayText (texts : List String) : String := String.ofList (arrayChars texts)

private theorem moreChars_injective : Function.Injective moreChars := by
  intro left
  induction left with
  | nil =>
      intro right h
      cases right with
      | nil => rfl
      | cons text texts => simp [moreChars] at h
  | cons text texts ih =>
      intro right h
      cases right with
      | nil => simp [moreChars] at h
      | cons text' texts' =>
          simp only [moreChars, List.cons.injEq, true_and] at h
          obtain ⟨rfl, hmore⟩ := stringChars_append_inj h
          rw [ih hmore]

theorem arrayChars_injective : Function.Injective arrayChars := by
  intro left right h
  cases left with
  | nil =>
      cases right with
      | nil => rfl
      | cons text texts => simp [arrayChars, stringChars] at h
  | cons text texts =>
      cases right with
      | nil => simp [arrayChars, stringChars] at h
      | cons text' texts' =>
          simp only [arrayChars, List.cons.injEq, true_and] at h
          obtain ⟨rfl, hmore⟩ := stringChars_append_inj h
          rw [moreChars_injective hmore]

/-- Different lists of strings have different texts, however the same characters are
divided among their elements. -/
theorem arrayText_injective : Function.Injective arrayText :=
  fun _ _ h => arrayChars_injective (String.ofList_injective h)

end ParqDB.Foundations.Json
