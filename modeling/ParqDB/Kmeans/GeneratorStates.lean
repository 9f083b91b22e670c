import ParqDB.Foundations.XorMaps
import ParqDB.Kmeans.Sampling

/-!
# The states of the sampling generator

`SmallRng` of the k-means crate keeps one word.  A call replaces it by three exclusive ors with its
own shifts, and returns a multiple of the new word.

**Strategy.**  The update respects exclusive or, so that what it fixes can be found from its values
at single bits: `annihilator` is a sum of powers of the update that vanishes, and has an odd number
of terms.  Each of the three steps is injective, hence zero is reached from zero only.

**Results.**  `generator_states_nonzero_iff`: no state is zero if and only if the seed is not the
constant that it is combined with; `golden_seed_stays_zero` is that seed.
-/

namespace ParqDB.Kmeans

open Foundations

namespace SmallRng

/-- The state update of `next_u64`. -/
def advance (state : UInt64) : UInt64 :=
  let value := state ^^^ (state >>> 12)
  let value := value ^^^ (value <<< 25)
  value ^^^ (value >>> 27)

/-- The output of `next_u64`, given the new state. -/
def output (state : UInt64) : UInt64 := state * 0x2545F4914F6CDD1D

theorem nextU64_eq (rng : SmallRng) :
    rng.nextU64 = (output (advance rng.state), ⟨advance rng.state⟩) := rfl

/-- The generator after some calls of `next_u64`. -/
def afterCalls : ℕ → SmallRng → SmallRng
  | 0, rng => rng
  | calls + 1, rng => afterCalls calls rng.nextU64.2

/-! ## The update on bits -/

def advanceBits : BitVec 64 → BitVec 64 := xorRight 27 ∘ xorLeft 25 ∘ xorRight 12

theorem toBitVec_advance (state : UInt64) :
    (advance state).toBitVec = advanceBits state.toBitVec := rfl

theorem xorMap_advanceBits : XorMap advanceBits :=
  (xorMap_xorRight 27).comp ((xorMap_xorLeft 25).comp (xorMap_xorRight 12))

theorem injective_advanceBits : Function.Injective advanceBits :=
  (injective_xorRight (by omega)).comp
    ((injective_xorLeft (by omega)).comp (injective_xorRight (by omega)))

/-- The terms of a sum of powers of the update that vanishes. -/
def annihilator : List Bool :=
  (List.range 65).map fun term => Nat.testBit 0x10018B73AA7CC9B71 (64 - term)

theorem annihilator_odd : annihilator.count true % 2 = 1 := by decide +kernel

theorem annihilator_vanishes :
    ∀ bit < 64, sumOfPowers advanceBits annihilator (BitVec.twoPow 64 bit) = 0#64 := by
  decide +kernel

/-! ## Injectivity and fixed points -/

theorem injective_advance : Function.Injective advance := by
  intro first second hsame
  apply UInt64.toBitVec_inj.mp
  apply injective_advanceBits
  rw [← toBitVec_advance, ← toBitVec_advance, hsame]

/-- The multiplier is odd, so that it can be undone. -/
theorem injective_output : Function.Injective output := by
  have hundo : ∀ state, output state * 0x59071D96D81ECD35 = state := by
    intro state
    rw [output, UInt64.mul_assoc, show (0x2545F4914F6CDD1D : UInt64) * 0x59071D96D81ECD35 = 1 by
      decide, UInt64.mul_one]
  intro first second hsame
  rw [← hundo first, hsame, hundo]

theorem advance_eq_self_iff {state : UInt64} : advance state = state ↔ state = 0 := by
  constructor
  · intro hfixed
    apply UInt64.toBitVec_inj.mp
    apply xorMap_advanceBits.fixed_eq_zero annihilator_odd annihilator_vanishes
    rw [← toBitVec_advance, hfixed]
  · rintro rfl
    rfl

theorem advance_eq_zero_iff {state : UInt64} : advance state = 0 ↔ state = 0 := by
  have hzero : advance 0 = 0 := rfl
  constructor
  · intro hadvance
    exact injective_advance (hadvance.trans hzero.symm)
  · rintro rfl
    exact hzero

/-! ## Runs -/

/-- No number of calls leads from one side of zero to the other. -/
theorem afterCalls_eq_zero_iff (calls : ℕ) (rng : SmallRng) :
    (afterCalls calls rng).state = 0 ↔ rng.state = 0 := by
  induction calls generalizing rng with
  | zero => exact Iff.rfl
  | succ calls ih =>
      rw [afterCalls, ih, nextU64_eq]
      exact advance_eq_zero_iff

theorem new_eq_zero_iff (seed : UInt64) :
    (SmallRng.new seed).state = 0 ↔ seed = 0x9E3779B97F4A7C15 := UInt64.xor_eq_zero_iff

/-- Update and output are injective and only zero is fixed; but the generator stays away from zero
only if the seed is not the constant of `new`. -/
theorem generator_states_nonzero_iff (seed : UInt64) :
    ((∀ calls, (afterCalls calls (SmallRng.new seed)).state ≠ 0) ↔ seed ≠ 0x9E3779B97F4A7C15) ∧
      (∀ rng : SmallRng, rng.nextU64 = (output (advance rng.state), ⟨advance rng.state⟩)) ∧
      Function.Injective advance ∧ Function.Injective output ∧
      ∀ state, advance state = state ↔ state = 0 := by
  refine ⟨?_, nextU64_eq, injective_advance, injective_output, fun _ => advance_eq_self_iff⟩
  simp only [ne_eq, afterCalls_eq_zero_iff, new_eq_zero_iff, forall_const]

/-- The seed that the constant cancels: the generator starts at zero. -/
theorem golden_seed_stays_zero :
    ¬ ∀ calls, (afterCalls calls (SmallRng.new 0x9E3779B97F4A7C15)).state ≠ 0 :=
  fun hnonzero => hnonzero 0 (by decide)

end SmallRng

end ParqDB.Kmeans
