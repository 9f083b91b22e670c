import Mathlib.Algebra.BigOperators.Group.Finset.Basic
import Mathlib.Algebra.BigOperators.Ring.Finset
import Mathlib.Algebra.Order.BigOperators.Group.Finset
import Mathlib.Algebra.Order.Field.Rat
import Mathlib.Algebra.Order.Floor.Semifield
import Mathlib.Algebra.Order.Floor.Semiring
import Mathlib.Data.Rat.Floor

/-!
# Largest-remainder apportionment

A number of seats is split among weighted parties: everyone gets its exact
proportional share `weight * seats / total` rounded down, and the seats left
over go to parties with the largest remainders of these divisions.

**Strategy.**  The remainders of all parties add up to `leftover * total`
(`sum_remainder`) while each is smaller than `total`, so at least `leftover`
of them are not zero (`leftover_le_card_positive`).  A party served in order
of the remainders therefore has a positive one (`Order.positive`): its share
is not a whole number, it is rounded up to the ceiling, and it stays within
the weight of the party as soon as there are no more seats than weight.
-/

namespace ParqDB.Foundations.Apportionment

variable {ι : Type*} (parties : Finset ι) (weight : ι → ℕ) (seats : ℕ)

/-- The weight of all parties. -/
def total : ℕ := ∑ party ∈ parties, weight party

/-- The exact proportional share of a party. -/
def share (party : ι) : ℚ := (weight party * seats : ℕ) / (total parties weight : ℕ)

/-- The share of a party, rounded down. -/
def lower (party : ι) : ℕ := weight party * seats / total parties weight

/-- What the rounding takes away, in parts of the total weight. -/
def remainder (party : ι) : ℕ := weight party * seats % total parties weight

/-- The seats that are left after every share is rounded down. -/
def leftover : ℕ := seats - ∑ party ∈ parties, lower parties weight seats party

variable {parties weight seats}

variable (parties weight seats) in
theorem sum_lower_mul_add_sum_remainder :
    (∑ party ∈ parties, lower parties weight seats party) * total parties weight +
      ∑ party ∈ parties, remainder parties weight seats party =
        total parties weight * seats := by
  calc (∑ party ∈ parties, lower parties weight seats party) * total parties weight +
        ∑ party ∈ parties, remainder parties weight seats party
      = ∑ party ∈ parties, (lower parties weight seats party * total parties weight +
          remainder parties weight seats party) := by
        rw [Finset.sum_add_distrib, Finset.sum_mul]
    _ = ∑ party ∈ parties, weight party * seats := by
        apply Finset.sum_congr rfl
        intro party _
        exact Nat.div_add_mod' (weight party * seats) (total parties weight)
    _ = total parties weight * seats := by
        rw [total, Finset.sum_mul]

/-- Rounding down never spends more seats than there are. -/
theorem sum_lower_le (htotal : 0 < total parties weight) :
    ∑ party ∈ parties, lower parties weight seats party ≤ seats := by
  have hsum := sum_lower_mul_add_sum_remainder parties weight seats
  have hmul : (∑ party ∈ parties, lower parties weight seats party) * total parties weight ≤
      seats * total parties weight := by
    rw [Nat.mul_comm seats]
    omega
  exact Nat.le_of_mul_le_mul_right hmul htotal

theorem sum_remainder :
    ∑ party ∈ parties, remainder parties weight seats party =
      leftover parties weight seats * total parties weight := by
  have hsum := sum_lower_mul_add_sum_remainder parties weight seats
  rw [leftover, Nat.sub_mul, Nat.mul_comm seats]
  omega

theorem remainder_lt (htotal : 0 < total parties weight) (party : ι) :
    remainder parties weight seats party < total parties weight :=
  Nat.mod_lt _ htotal

/-- There are at least as many inexact shares as seats left over. -/
theorem leftover_le_card_positive (htotal : 0 < total parties weight) :
    leftover parties weight seats ≤
      (parties.filter fun party => 0 < remainder parties weight seats party).card := by
  have hmul : leftover parties weight seats * total parties weight ≤
      (parties.filter fun party => 0 < remainder parties weight seats party).card *
        total parties weight := by
    calc leftover parties weight seats * total parties weight
        = ∑ party ∈ parties, remainder parties weight seats party := sum_remainder.symm
      _ = ∑ party ∈ parties with 0 < remainder parties weight seats party,
            remainder parties weight seats party := by
          rw [Finset.sum_filter]
          apply Finset.sum_congr rfl
          intro party _
          split
          · rfl
          · omega
      _ ≤ ∑ party ∈ parties with 0 < remainder parties weight seats party,
            total parties weight :=
          Finset.sum_le_sum fun party _ => (remainder_lt htotal party).le
      _ = _ := by rw [Finset.sum_const_nat fun _ _ => rfl]
  exact Nat.le_of_mul_le_mul_right hmul htotal

/-- With no more seats than weight a share rounded down is within the weight. -/
theorem lower_le (hseats : seats ≤ total parties weight) (party : ι) :
    lower parties weight seats party ≤ weight party := by
  rcases Nat.eq_zero_or_pos (total parties weight) with hzero | htotal
  · rw [lower, hzero, Nat.div_zero]
    exact Nat.zero_le _
  · exact Nat.div_le_of_le_mul (by rw [Nat.mul_comm]; exact Nat.mul_le_mul_right _ hseats)

/-- A party whose share is inexact has room for one seat more. -/
theorem lower_lt (hseats : seats ≤ total parties weight) {party : ι}
    (hremainder : 0 < remainder parties weight seats party) :
    lower parties weight seats party < weight party := by
  have hdivision : lower parties weight seats party * total parties weight +
      remainder parties weight seats party = weight party * seats :=
    Nat.div_add_mod' (weight party * seats) (total parties weight)
  have hbound : weight party * seats ≤ weight party * total parties weight :=
    Nat.mul_le_mul_left _ hseats
  apply Nat.lt_of_mul_lt_mul_right (a := total parties weight)
  omega

theorem floor_share (party : ι) :
    ⌊share parties weight seats party⌋₊ = lower parties weight seats party :=
  Nat.floor_div_eq_div _ _

theorem ceil_share {party : ι} (htotal : 0 < total parties weight)
    (hremainder : 0 < remainder parties weight seats party) :
    ⌈share parties weight seats party⌉₊ = lower parties weight seats party + 1 := by
  have hdivision : lower parties weight seats party * total parties weight +
      remainder parties weight seats party = weight party * seats :=
    Nat.div_add_mod' (weight party * seats) (total parties weight)
  have hlt : remainder parties weight seats party < total parties weight :=
    remainder_lt htotal party
  have hpositive : (0 : ℚ) < (total parties weight : ℕ) := by exact_mod_cast htotal
  rw [Nat.ceil_eq_iff (Nat.add_one_ne_zero _), Nat.add_sub_cancel_right, share, lt_div_iff₀ hpositive,
    div_le_iff₀ hpositive]
  constructor
  · have hnat : lower parties weight seats party * total parties weight < weight party * seats := by
      omega
    exact_mod_cast hnat
  · have hnat : weight party * seats ≤
        (lower parties weight seats party + 1) * total parties weight := by
      rw [Nat.add_mul]
      omega
    exact_mod_cast hnat

variable (parties weight seats)

/-- `raised` are parties with the largest remainders, one for each seat that is left over. -/
structure Largest (raised : Finset ι) : Prop where
  within : raised ⊆ parties
  card : raised.card = leftover parties weight seats
  order : ∀ party ∈ raised, ∀ other ∈ parties, other ∉ raised →
    remainder parties weight seats other ≤ remainder parties weight seats party

variable {parties weight seats} {raised : Finset ι}

namespace Largest

/-- Nobody whose share is a whole number gets a seat more. -/
theorem positive (hlargest : Largest parties weight seats raised)
    (htotal : 0 < total parties weight) {party : ι} (hparty : party ∈ raised) :
    0 < remainder parties weight seats party := by
  by_contra hzero
  have hsubset : (parties.filter fun other => 0 < remainder parties weight seats other) ⊂
      raised := by
    rw [Finset.ssubset_iff_of_subset]
    · exact ⟨party, hparty, fun hmem => hzero (Finset.mem_filter.mp hmem).2⟩
    · intro other hother
      by_contra hout
      have hle := hlargest.order party hparty other (Finset.mem_filter.mp hother).1 hout
      have hpos := (Finset.mem_filter.mp hother).2
      omega
  have hcard := Finset.card_lt_card hsubset
  have hleft : leftover parties weight seats ≤
      (parties.filter fun party => 0 < remainder parties weight seats party).card :=
    leftover_le_card_positive htotal
  rw [hlargest.card] at hcard
  omega

variable [DecidableEq ι]

section

variable (hlargest : Largest parties weight seats raised)

include hlargest

/-- The seats are spent exactly. -/
theorem sum_eq (htotal : 0 < total parties weight) :
    ∑ party ∈ parties, (lower parties weight seats party + if party ∈ raised then 1 else 0) =
      seats := by
  have hraised : ∑ party ∈ parties, (if party ∈ raised then 1 else 0) = raised.card := by
    rw [Finset.sum_ite_mem, Finset.inter_eq_right.mpr hlargest.within,
      Finset.card_eq_sum_ones]
  have hle : ∑ party ∈ parties, lower parties weight seats party ≤ seats := sum_lower_le htotal
  rw [Finset.sum_add_distrib, hraised, hlargest.card, leftover]
  omega

theorem seat_le
    (htotal : 0 < total parties weight) (hseats : seats ≤ total parties weight) (party : ι) :
    lower parties weight seats party + (if party ∈ raised then 1 else 0) ≤ weight party := by
  split
  · rename_i hparty
    exact lower_lt hseats (hlargest.positive htotal hparty)
  · exact lower_le hseats party

/-- Every party gets its share rounded down or rounded up. -/
theorem floor_or_ceil (htotal : 0 < total parties weight) (party : ι) :
    lower parties weight seats party + (if party ∈ raised then 1 else 0) =
        ⌊share parties weight seats party⌋₊ ∨
      lower parties weight seats party + (if party ∈ raised then 1 else 0) =
        ⌈share parties weight seats party⌉₊ := by
  split
  · rename_i hparty
    exact .inr (ceil_share htotal (hlargest.positive htotal hparty)).symm
  · exact .inl (floor_share party).symm

end

end Largest

end ParqDB.Foundations.Apportionment
