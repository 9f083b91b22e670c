import Mathlib.Algebra.Order.BigOperators.Group.List
import Mathlib.Algebra.Order.Group.Nat
import Mathlib.Algebra.Order.Ring.Int

/-!
# Positions in blocks of one size

A sequence is stored in blocks.  If all blocks but the last have the same size, and the last is
not larger, then division finds the block of a position and the place in it.
-/

namespace ParqDB.Foundations

/-- All blocks but the last have this size, and the last is not larger. -/
structure UniformBlocks (size : ℕ) (sizes : List ℕ) : Prop where
  full : ∀ other ∈ sizes.dropLast, other = size
  last : ∀ other ∈ sizes.getLast?, other ≤ size

namespace UniformBlocks

variable {size : ℕ} {sizes : List ℕ} (huniform : UniformBlocks size sizes)

include huniform

variable {block position : ℕ}

theorem sum_take (hblock : block < sizes.length) : (sizes.take block).sum = block * size := by
  have hfront : sizes.take block = sizes.dropLast.take block := by
    rw [List.dropLast_eq_take, List.take_take, Nat.min_eq_left (by omega)]
  have hall : ∀ other ∈ sizes.take block, other = size := by
    intro other hother
    rw [hfront] at hother
    exact huniform.full other (List.mem_of_mem_take hother)
  rw [List.eq_replicate_of_mem hall, List.sum_replicate, List.length_take,
    Nat.min_eq_left (Nat.le_of_lt hblock)]
  rfl

theorem getElem_le (hblock : block < sizes.length) : sizes[block] ≤ size := by
  rcases Nat.lt_or_ge (block + 1) sizes.length with hinner | hend
  · have hmem : sizes[block] ∈ sizes.dropLast := by
      rw [List.mem_iff_getElem]
      exact ⟨block, by rw [List.length_dropLast]; omega, by rw [List.getElem_dropLast]⟩
    exact Nat.le_of_eq (huniform.full _ hmem)
  · refine huniform.last _ ?_
    rw [List.getLast?_eq_getElem?, List.getElem?_eq_some_iff.mpr ⟨by omega, ?_⟩]
    · rfl
    · congr 1
      omega

/-- The position behind the blocks before this one. -/
theorem sum_lt (hblock : block < sizes.length) (hposition : position < sizes.sum)
    (hlast : block * size ≤ position) (hbelow : position < (block + 1) * size) :
    position - block * size < sizes[block] := by
  rcases Nat.lt_or_ge (block + 1) sizes.length with hinner | hend
  · have hmem : sizes[block] ∈ sizes.dropLast := by
      rw [List.mem_iff_getElem]
      exact ⟨block, by rw [List.length_dropLast]; omega, by rw [List.getElem_dropLast]⟩
    rw [huniform.full _ hmem]
    rw [Nat.succ_mul] at hbelow
    omega
  · have hsum : sizes.sum = (sizes.take block).sum + sizes[block] := by
      have hsplit := List.sum_take_succ sizes block hblock
      rwa [List.take_of_length_le hend] at hsplit
    rw [hsum, huniform.sum_take hblock] at hposition
    omega

/-- The block of a position, and its place there. -/
theorem locate (hsize : 0 < size) (hposition : position < sizes.sum) :
    ∃ hblock : position / size < sizes.length, position % size < sizes[position / size] ∧
      (sizes.take (position / size)).sum + position % size = position := by
  have hdivision := Nat.div_add_mod' position size
  have hbelow : position < (position / size + 1) * size := by
    rw [Nat.succ_mul]
    have := Nat.mod_lt position hsize
    omega
  have hblock : position / size < sizes.length := by
    by_contra hbeyond
    have hbound : sizes.sum ≤ sizes.length * size := by
      refine List.sum_le_card_nsmul sizes size fun other hother => ?_
      obtain ⟨block, hblock, rfl⟩ := List.mem_iff_getElem.mp hother
      exact huniform.getElem_le hblock
    have hmore : sizes.length * size ≤ position / size * size :=
      Nat.mul_le_mul_right size (Nat.le_of_not_lt hbeyond)
    omega
  have hinside := huniform.sum_lt hblock hposition (by omega) hbelow
  refine ⟨hblock, by omega, ?_⟩
  rw [huniform.sum_take hblock, hdivision]

/-- Another block has other positions. -/
theorem locate_unique {offset : ℕ} (hblock : block < sizes.length) (hoffset : offset < sizes[block]) :
    ((sizes.take block).sum + offset) / size = block ∧
      ((sizes.take block).sum + offset) % size = offset := by
  have hlt : offset < size := Nat.lt_of_lt_of_le hoffset (huniform.getElem_le hblock)
  have hpos : 0 < size := by omega
  rw [huniform.sum_take hblock, Nat.add_comm, Nat.add_mul_div_right _ _ hpos,
    Nat.div_eq_of_lt hlt, Nat.add_mul_mod_self_right, Nat.mod_eq_of_lt hlt, Nat.zero_add]
  exact ⟨rfl, rfl⟩

end UniformBlocks

end ParqDB.Foundations
