import Mathlib.Data.List.Induction
import Mathlib.Data.Nat.Init
import Mathlib.Logic.Function.Basic

/-!
# Maps of words that respect exclusive or

A map of words that commutes with exclusive or is known when its values at the words with one bit
are known.

**Strategy.**  A fixed point of such a map is a fixed point of each of its powers.  A sum of an odd
number of powers therefore returns it, so that a sum that vanishes everywhere leaves only zero
(`XorMap.fixed_eq_zero`).  That it vanishes needs to be checked for the words with one bit only.
-/

namespace ParqDB.Foundations

variable {w : ℕ}

/-! ## Values at single bits -/

def XorMap (f : BitVec w → BitVec w) : Prop := ∀ x y, f (x ^^^ y) = f x ^^^ f y

variable {f : BitVec w → BitVec w}

theorem XorMap.zero (hf : XorMap f) : f 0#w = 0#w := by
  have hdouble := hf 0#w 0#w
  rwa [BitVec.xor_self, BitVec.xor_self] at hdouble

/-- A map that vanishes at the words with one bit vanishes at all words. -/
theorem XorMap.eq_zero (hf : XorMap f) (hbits : ∀ bit < w, f (BitVec.twoPow w bit) = 0#w)
    (x : BitVec w) : f x = 0#w := by
  have hlow : ∀ bound ≤ w, ∀ x : BitVec w, (∀ bit, bound ≤ bit → x.getLsbD bit = false) →
      f x = 0#w := by
    intro bound hbound
    induction bound with
    | zero =>
        intro x hx
        have hzero : x = 0#w := BitVec.eq_of_getLsbD_eq fun bit _ => by
          rw [hx bit (Nat.zero_le bit), BitVec.getLsbD_zero]
        rw [hzero, hf.zero]
    | succ bound ih =>
        intro x hx
        by_cases hbit : x.getLsbD bound = true
        · have hsplit : x = (x ^^^ BitVec.twoPow w bound) ^^^ BitVec.twoPow w bound := by
            rw [BitVec.xor_assoc, BitVec.xor_self, BitVec.xor_zero]
          rw [hsplit, hf, hbits bound (by omega), BitVec.xor_zero]
          apply ih (by omega)
          intro bit hle
          rw [BitVec.getLsbD_xor, BitVec.getLsbD_twoPow]
          by_cases hsame : bit = bound
          · subst hsame
            simp [hbit, show bit < w by omega]
          · rw [hx bit (by omega)]
            simp [Ne.symm hsame]
        · apply ih (by omega)
          intro bit hle
          by_cases hsame : bit = bound
          · rw [hsame]
            exact Bool.not_eq_true _ ▸ hbit
          · exact hx bit (by omega)
  exact hlow w (Nat.le_refl w) x fun bit hle => BitVec.getLsbD_of_ge x bit hle

/-! ## Sums of powers -/

/-- The sum of the powers of a map that the terms name, the highest one first. -/
def sumOfPowers (f : BitVec w → BitVec w) (terms : List Bool) (x : BitVec w) : BitVec w :=
  terms.foldl (fun sum term => f sum ^^^ bif term then x else 0#w) 0#w

theorem XorMap.sumOfPowers (hf : XorMap f) (terms : List Bool) : XorMap (sumOfPowers f terms) := by
  intro x y
  have hsums : ∀ left right : BitVec w,
      terms.foldl (fun sum term => f sum ^^^ bif term then x ^^^ y else 0#w) (left ^^^ right) =
        terms.foldl (fun sum term => f sum ^^^ bif term then x else 0#w) left ^^^
          terms.foldl (fun sum term => f sum ^^^ bif term then y else 0#w) right := by
    induction terms with
    | nil => exact fun _ _ => rfl
    | cons term terms ih =>
        intro left right
        rw [List.foldl_cons, List.foldl_cons, List.foldl_cons, ← ih, hf]
        congr 1
        cases term with
        | false => simp only [cond_false, BitVec.xor_zero]
        | true =>
            simp only [cond_true]
            ac_nf
  have hstart := hsums 0#w 0#w
  rwa [BitVec.xor_self] at hstart

variable {x : BitVec w} {amount : ℕ}

/-- At a fixed point the terms cancel in pairs. -/
theorem sumOfPowers_fixed (hf : XorMap f) (hfixed : f x = x) (terms : List Bool) :
    sumOfPowers f terms x = bif terms.count true % 2 == 1 then x else 0#w := by
  unfold sumOfPowers
  induction terms using List.reverseRecOn with
  | nil => rfl
  | append_singleton terms term ih =>
      rw [List.foldl_append, List.foldl_cons, List.foldl_nil, ih, List.count_append]
      have hparity : terms.count true % 2 = 0 ∨ terms.count true % 2 = 1 := by omega
      rcases hparity with heven | hodd
      · rw [heven]
        cases term <;> simp [hf.zero, heven, Nat.add_mod]
      · rw [hodd]
        cases term <;> simp [hfixed, hodd, Nat.add_mod]

/-- A map with an odd sum of powers that vanishes has no fixed point but zero. -/
theorem XorMap.fixed_eq_zero (hf : XorMap f) {terms : List Bool} (hodd : terms.count true % 2 = 1)
    (hbits : ∀ bit < w, Foundations.sumOfPowers f terms (BitVec.twoPow w bit) = 0#w)
    (hfixed : f x = x) : x = 0#w := by
  have hvanishes := (hf.sumOfPowers terms).eq_zero hbits x
  rw [sumOfPowers_fixed hf hfixed, hodd] at hvanishes
  exact hvanishes

/-! ## Shifts -/

theorem XorMap.comp {g : BitVec w → BitVec w} (hf : XorMap f) (hg : XorMap g) :
    XorMap (f ∘ g) := fun x y => by rw [Function.comp_apply, hg, hf]; rfl

def xorRight (amount : ℕ) (x : BitVec w) : BitVec w := x ^^^ (x >>> amount)

def xorLeft (amount : ℕ) (x : BitVec w) : BitVec w := x ^^^ (x <<< amount)

theorem xorMap_xorRight (amount : ℕ) : XorMap (xorRight amount : BitVec w → BitVec w) := by
  intro x y
  rw [xorRight, xorRight, xorRight, BitVec.ushiftRight_xor_distrib]
  ac_nf

theorem xorMap_xorLeft (amount : ℕ) : XorMap (xorLeft amount : BitVec w → BitVec w) := by
  intro x y
  rw [xorLeft, xorLeft, xorLeft, BitVec.shiftLeft_xor_distrib]
  ac_nf

/-- The bits are read back from the highest one down. -/
theorem injective_xorRight (hamount : 0 < amount) :
    Function.Injective (xorRight amount : BitVec w → BitVec w) := by
  intro x y hsame
  have hhigh : ∀ count bit, w ≤ bit + count → x.getLsbD bit = y.getLsbD bit := by
    intro count
    induction count with
    | zero =>
        intro bit hle
        rw [BitVec.getLsbD_of_ge x bit hle, BitVec.getLsbD_of_ge y bit hle]
    | succ count ih =>
        intro bit hle
        have hbit := congrArg (BitVec.getLsbD · bit) hsame
        simp only [xorRight, BitVec.getLsbD_xor, BitVec.getLsbD_ushiftRight] at hbit
        rw [ih (amount + bit) (by omega)] at hbit
        exact Bool.xor_left_inj.mp hbit
  exact BitVec.eq_of_getLsbD_eq fun bit _ => hhigh w bit (by omega)

/-- The bits are read back from the lowest one up. -/
theorem injective_xorLeft (hamount : 0 < amount) :
    Function.Injective (xorLeft amount : BitVec w → BitVec w) := by
  intro x y hsame
  have hlow : ∀ bit, bit < w → x.getLsbD bit = y.getLsbD bit := by
    intro bit
    induction bit using Nat.strong_induction_on with
    | _ bit ih =>
        intro hlt
        have hbit := congrArg (BitVec.getLsbD · bit) hsame
        simp only [xorLeft, BitVec.getLsbD_xor, BitVec.getLsbD_shiftLeft] at hbit
        by_cases hshort : bit < amount
        · simpa [hshort] using hbit
        · rw [ih (bit - amount) (by omega) (by omega)] at hbit
          exact Bool.xor_left_inj.mp hbit
  exact BitVec.eq_of_getLsbD_eq fun bit hlt => hlow bit hlt

end ParqDB.Foundations
