import Mathlib.Algebra.Order.Ring.Int
import Mathlib.Data.List.Basic

/-!
# Byte strings with their lengths

Byte strings are written one after the other, each behind its length in eight bytes.

**Results.**  `flatMap_framed_inj`: the strings are read back, though their number is not written.
-/

namespace ParqDB.Foundations

/-- `to_be_bytes` of an unsigned 64-bit number. -/
def beBytes (value : UInt64) : List UInt8 :=
  (List.range 8).map fun index => UInt8.ofNat (value.toNat / 256 ^ (7 - index))

/-- A byte string behind its length. -/
def framed (bytes : List UInt8) : List UInt8 := beBytes (UInt64.ofNat bytes.length) ++ bytes

theorem length_beBytes (value : UInt64) : (beBytes value).length = 8 := by
  rw [beBytes, List.length_map, List.length_range]

/-- The bytes are the digits of the number. -/
theorem beBytes_injective : Function.Injective beBytes := by
  intro first second hsame
  have hdigit : ∀ place < 8, first.toNat / 256 ^ place % 256 = second.toNat / 256 ^ place % 256 := by
    intro place hplace
    have hbyte := congrArg (·[7 - place]?) hsame
    simp only [beBytes, List.getElem?_map, List.getElem?_range (show 7 - place < 8 by omega),
      Option.map_some, Option.some.injEq] at hbyte
    rw [show 7 - (7 - place) = place by omega] at hbyte
    simpa using congrArg UInt8.toNat hbyte
  have hlow : ∀ count ≤ 8, first.toNat % 256 ^ count = second.toNat % 256 ^ count := by
    intro count hcount
    induction count with
    | zero => rw [Nat.pow_zero, Nat.mod_one, Nat.mod_one]
    | succ count ih =>
        rw [Nat.mod_pow_succ, Nat.mod_pow_succ, ih (by omega), hdigit count (by omega)]
  have hall := hlow 8 (Nat.le_refl 8)
  rw [Nat.mod_eq_of_lt (show first.toNat < 256 ^ 8 from first.toNat_lt),
    Nat.mod_eq_of_lt (show second.toNat < 256 ^ 8 from second.toNat_lt)] at hall
  exact UInt64.toNat_inj.mp hall

/-- A framed string ends where it ends, whatever follows. -/
theorem framed_append_inj {left right restLeft restRight : List UInt8}
    (hleft : left.length < 2 ^ 64) (hright : right.length < 2 ^ 64)
    (hsame : framed left ++ restLeft = framed right ++ restRight) :
    left = right ∧ restLeft = restRight := by
  rw [framed, framed, List.append_assoc, List.append_assoc] at hsame
  obtain ⟨hfront, hrest⟩ := List.append_inj hsame (by rw [length_beBytes, length_beBytes])
  have hlength : left.length = right.length := by
    have hnumbers := congrArg UInt64.toNat (beBytes_injective hfront)
    rwa [UInt64.toNat_ofNat_of_lt' hleft, UInt64.toNat_ofNat_of_lt' hright] at hnumbers
  exact List.append_inj hrest hlength

theorem framed_ne_nil (bytes : List UInt8) : framed bytes ≠ [] := by
  intro hnil
  have hlength := congrArg List.length hnil
  rw [framed, List.length_append, length_beBytes, List.length_nil] at hlength
  omega

/-- The strings are read back one by one. -/
theorem flatMap_framed_inj {left right : List (List UInt8)}
    (hleft : ∀ bytes ∈ left, bytes.length < 2 ^ 64)
    (hright : ∀ bytes ∈ right, bytes.length < 2 ^ 64)
    (hsame : left.flatMap framed = right.flatMap framed) : left = right := by
  induction left generalizing right with
  | nil =>
      cases right with
      | nil => rfl
      | cons bytes right =>
          rw [List.flatMap_nil, List.flatMap_cons] at hsame
          exact absurd (List.append_eq_nil_iff.mp hsame.symm).1 (framed_ne_nil bytes)
  | cons bytes left ih =>
      cases right with
      | nil =>
          rw [List.flatMap_nil, List.flatMap_cons] at hsame
          exact absurd (List.append_eq_nil_iff.mp hsame).1 (framed_ne_nil bytes)
      | cons bytes' right =>
          rw [List.forall_mem_cons] at hleft hright
          rw [List.flatMap_cons, List.flatMap_cons] at hsame
          obtain ⟨rfl, hrest⟩ := framed_append_inj hleft.1 hright.1 hsame
          rw [ih hleft.2 hright.2 hrest]

end ParqDB.Foundations
