import Mathlib.Algebra.Order.Ring.Int
import Mathlib.Data.List.Basic
import Mathlib.Order.Nat

/-!
# Operations that can go wrong

Arithmetic of an unsigned machine type, given by its greatest value, and accesses to a vector or
a slice.  Where a program would overflow, wrap around or leave the slice, the result is none.
-/

namespace ParqDB.Foundations.Checked

universe u

variable {α β : Type u}

/-- The greatest value of a type of 64 bits. -/
def wordMax : ℕ := 2 ^ 64 - 1

def add (limit left right : ℕ) : Option ℕ :=
  if left + right ≤ limit then some (left + right) else none

def mul (limit left right : ℕ) : Option ℕ :=
  if left * right ≤ limit then some (left * right) else none

def sub (left right : ℕ) : Option ℕ := if right ≤ left then some (left - right) else none

/-- `items[position] = item`. -/
def set (items : List α) (position : ℕ) (item : α) : Option (List α) :=
  if position < items.length then some (items.set position item) else none

/-- `items[start..stop]`. -/
def slice (items : List α) (start stop : ℕ) : Option (List α) :=
  if start ≤ stop ∧ stop ≤ items.length then some ((items.take stop).drop start) else none

variable {limit left right position start stop : ℕ} {items part : List α} {item : α}

/-- A step that did not go wrong. -/
theorem after_some (value : α) (next : α → Option β) :
    (some value >>= next) = next value := rfl

theorem add_of_le (hle : left + right ≤ limit) : add limit left right = some (left + right) :=
  if_pos hle

theorem mul_of_le (hle : left * right ≤ limit) : mul limit left right = some (left * right) :=
  if_pos hle

theorem sub_of_le (hle : right ≤ left) : sub left right = some (left - right) := if_pos hle

theorem set_of_lt (hposition : position < items.length) :
    set items position item = some (items.set position item) := if_pos hposition

theorem slice_of_le (hstart : start ≤ stop) (hstop : stop ≤ items.length) :
    slice items start stop = some ((items.take stop).drop start) := if_pos ⟨hstart, hstop⟩

theorem slice_eq_some_iff :
    slice items start stop = some part ↔
      start ≤ stop ∧ stop ≤ items.length ∧ (items.take stop).drop start = part := by
  rw [slice]
  split
  · next hbounds => rw [Option.some.injEq, and_iff_right hbounds.1, and_iff_right hbounds.2]
  · next hbounds =>
      refine iff_of_false (fun hnone => by cases hnone) ?_
      rintro ⟨hstart, hstop, -⟩
      exact hbounds ⟨hstart, hstop⟩

theorem length_of_slice (hpart : slice items start stop = some part) :
    part.length = stop - start := by
  obtain ⟨-, hstop, rfl⟩ := slice_eq_some_iff.mp hpart
  rw [List.length_drop, List.length_take, Nat.min_eq_left hstop]

/-- A loop over a list succeeds if every round does, from what the rounds before it leave. -/
theorem exists_foldlM {items : List α} {step : β → α → Option β} (invariant : ℕ → β → Prop)
    (hstep : ∀ index (hindex : index < items.length) state, invariant index state →
      ∃ next, step state items[index] = some next ∧ invariant (index + 1) next)
    (state : β) (hstart : invariant 0 state) :
    ∃ final, items.foldlM step state = some final ∧ invariant items.length final := by
  induction items generalizing invariant state with
  | nil => exact ⟨state, rfl, hstart⟩
  | cons item items ih =>
      obtain ⟨next, hnext, hkept⟩ := hstep 0 (Nat.zero_lt_succ _) state hstart
      rw [List.getElem_cons_zero] at hnext
      rw [List.foldlM_cons, hnext, after_some]
      exact ih (fun index => invariant (index + 1)) (fun index hindex state hstate =>
        hstep (index + 1) (Nat.succ_lt_succ hindex) state hstate) next hkept

end ParqDB.Foundations.Checked
