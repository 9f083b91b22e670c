import Mathlib.Algebra.BigOperators.Fin
import Mathlib.Data.List.GetD
import Mathlib.Data.Nat.Bits

/-!
# Vector registers

A register is a function from its lanes.  A load reads consecutive items of a list, and is none
where it would leave the list.  The operations on bytes are those of registers of sixteen bytes;
a word is a pair of bytes, the low one first.

A loop that advances by whole registers leaves less than one register for a scalar tail, which
is the same loop with registers of one lane.
-/

namespace ParqDB.Foundations.Lanes

universe u

variable {α σ : Type u} {n width length : ℕ}

/-! ## Loops -/

/-- `while index + width <= length { …; index += width; }`, with the index behind the loop. -/
def whileFits (width length : ℕ) (hwidth : 0 < width) (step : ℕ → σ → Option σ) (index : ℕ)
    (state : σ) : Option (ℕ × σ) :=
  if index + width ≤ length then
    match step index state with
    | none => none
    | some next => whileFits width length hwidth step (index + width) next
  else some (index, state)
termination_by length - index

/-- What every step keeps holds behind the loop, which less than a whole step is left of. -/
theorem exists_whileFits {hwidth : 0 < width} {step : ℕ → σ → Option σ}
    (invariant : ℕ → σ → Prop)
    (hstep : ∀ index state, index + width ≤ length → invariant index state →
      ∃ next, step index state = some next ∧ invariant (index + width) next)
    {index : ℕ} {state : σ} (hindex : index ≤ length) (hinvariant : invariant index state) :
    ∃ stop final, whileFits width length hwidth step index state = some (stop, final) ∧
      invariant stop final ∧ stop ≤ length ∧ length < stop + width := by
  induction hleft : length - index using Nat.strong_induction_on generalizing index state with
  | h left ih =>
      rw [whileFits]
      by_cases hfits : index + width ≤ length
      · rw [if_pos hfits]
        obtain ⟨next, hnext, hkept⟩ := hstep index state hfits hinvariant
        rw [hnext]
        exact ih (length - (index + width)) (by omega) hfits hkept rfl
      · rw [if_neg hfits]
        exact ⟨index, state, rfl, hinvariant, hindex, by omega⟩

/-! ## Loads -/

/-- `n` items from a position on. -/
def load (n : ℕ) (items : List α) (start : ℕ) : Option (Fin n → α) :=
  if h : start + n ≤ items.length then
    some fun lane => items.get ⟨start + lane, Nat.lt_of_lt_of_le (by omega) h⟩
  else none

/-- One item. -/
def read (items : List α) (index : ℕ) : Option α := items[index]?

variable {items : List α} {index : ℕ}

theorem load_of_le {start : ℕ} (hinside : start + n ≤ items.length) (default : α) :
    load n items start = some fun lane : Fin n => items.getD (start + lane) default := by
  rw [load, dif_pos hinside]
  congr 1
  funext lane
  exact (List.getD_eq_getElem _ _ _).symm

theorem read_of_lt (hinside : index < items.length) (default : α) :
    read items index = some (items.getD index default) := by
  rw [read, List.getElem?_eq_getElem hinside, List.getD_eq_getElem _ _ hinside]

/-- The same value in every lane. -/
def splat (value : α) : Fin n → α := fun _ => value

/-! ## Sums -/

/-- The lanes, one after the other. -/
def sum [Add α] (zero : α) (lanes : Fin n → α) : α := (List.ofFn lanes).foldl (· + ·) zero

theorem sum_eq [AddCommMonoid α] (lanes : Fin n → α) : sum 0 lanes = ∑ lane, lanes lane := by
  rw [sum, ← List.sum_eq_foldl, List.sum_ofFn]

/-- A register that holds the next terms of a series extends the sum by them. -/
theorem sum_add_terms [AddCommMonoid α] {term : ℕ → α} {lanes values : Fin n → α}
    (hlanes : ∑ lane, lanes lane = ∑ position ∈ Finset.range index, term position)
    (hvalues : ∀ lane, values lane = term (index + lane)) :
    ∑ lane, (lanes lane + values lane) =
      ∑ position ∈ Finset.range (index + n), term position := by
  calc ∑ lane, (lanes lane + values lane)
      = ∑ lane, lanes lane + ∑ lane, values lane := Finset.sum_add_distrib
    _ = ∑ position ∈ Finset.range index, term position +
          ∑ lane : Fin n, term (index + lane) := by
        rw [hlanes]
        congr 1
        exact Finset.sum_congr rfl fun lane _ => hvalues lane
    _ = ∑ position ∈ Finset.range (index + n), term position := by
        rw [Finset.sum_range_add, Finset.sum_range fun position => term (index + position)]

/-! ## Bytes -/

/-- `_mm_loadl_epi64`: eight bytes, and zeros above them. -/
def loadLow (bytes : List UInt8) (start : ℕ) : Option (Fin 16 → UInt8) :=
  (load 8 bytes start).map fun low lane => if h : lane.val < 8 then low ⟨lane, h⟩ else 0

/-- `_mm_and_si128` -/
def and (left right : Fin 16 → UInt8) : Fin 16 → UInt8 := fun lane => left lane &&& right lane

/-- The bytes of the word that a lane belongs to. -/
def wordAt (bytes : Fin 16 → UInt8) (lane : Fin 16) : ℕ :=
  (bytes ⟨lane.val / 2 * 2, by omega⟩).toNat + 256 * (bytes ⟨lane.val / 2 * 2 + 1, by omega⟩).toNat

/-- `_mm_srli_epi16`: every word is shifted, and its low half takes bits of the high one. -/
def shiftRightWords (bytes : Fin 16 → UInt8) (count : ℕ) : Fin 16 → UInt8 := fun lane =>
  let word := wordAt bytes lane >>> count
  if lane.val % 2 = 0 then UInt8.ofNat word else UInt8.ofNat (word / 256)

/-- `_mm_srli_si128`: the lanes move down. -/
def shiftLanesDown (count : ℕ) (bytes : Fin 16 → UInt8) : Fin 16 → UInt8 := fun lane =>
  if h : lane.val + count < 16 then bytes ⟨lane + count, h⟩ else 0

/-- `_mm_unpacklo_epi8`: the low eight lanes of both in turn. -/
def interleaveLow (left right : Fin 16 → UInt8) : Fin 16 → UInt8 := fun lane =>
  if lane.val % 2 = 0 then left ⟨lane / 2, by omega⟩ else right ⟨lane / 2, by omega⟩

/-- `_mm256_cvtepu8_epi32` and `_mm512_cvtepu8_epi32`: the low lanes as wide ones. -/
def widen (hn : n ≤ 16) (bytes : Fin 16 → UInt8) : Fin n → ℕ := fun lane =>
  (bytes (lane.castLE hn)).toNat

theorem loadLow_of_le {bytes : List UInt8} {start : ℕ} (hinside : start + 8 ≤ bytes.length) :
    ∃ lanes, loadLow bytes start = some lanes ∧
      ∀ lane : Fin 16, lane.val < 8 → lanes lane = bytes.getD (start + lane) 0 := by
  rw [loadLow, load_of_le hinside 0]
  exact ⟨_, rfl, fun lane hlane => dif_pos hlane⟩

theorem shiftLanesDown_of_lt {count : ℕ} {bytes : Fin 16 → UInt8} {lane : Fin 16}
    (hlane : lane.val + count < 16) :
    shiftLanesDown count bytes lane = bytes ⟨lane + count, hlane⟩ := dif_pos hlane

/-- A shifted word that is masked byte by byte holds the high halves of its bytes. -/
theorem and_shiftRightWords (bytes : Fin 16 → UInt8) (lane : Fin 16) :
    and (shiftRightWords bytes 4) (splat 0x0f) lane = bytes lane >>> 4 := by
  have hlow := (bytes ⟨lane.val / 2 * 2, by omega⟩).toNat_lt
  have hbyte := (bytes lane).toNat_lt
  have hmask : ∀ byte : UInt8, (byte &&& 0x0f).toNat = byte.toNat % 16 := fun byte => by
    rw [UInt8.toNat_and]
    exact Nat.and_two_pow_sub_one_eq_mod byte.toNat 4
  have hshift : (bytes lane >>> 4).toNat = (bytes lane).toNat / 16 := by
    rw [UInt8.toNat_shiftRight]
    exact Nat.shiftRight_eq_div_pow _ 4
  have hword : wordAt bytes lane >>> 4 = wordAt bytes lane / 16 := Nat.shiftRight_eq_div_pow _ 4
  apply UInt8.toNat_inj.mp
  show (shiftRightWords bytes 4 lane &&& 0x0f).toNat = (bytes lane >>> 4).toNat
  rw [hmask, hshift, shiftRightWords, hword]
  by_cases heven : lane.val % 2 = 0
  · have hlane : (⟨lane.val / 2 * 2, by omega⟩ : Fin 16) = lane := Fin.ext (by simp only; omega)
    rw [if_pos heven, UInt8.toNat_ofNat', wordAt]
    rw [hlane]
    omega
  · have hlane : (⟨lane.val / 2 * 2 + 1, by omega⟩ : Fin 16) = lane :=
      Fin.ext (by simp only; omega)
    rw [if_neg heven, UInt8.toNat_ofNat', wordAt, hlane]
    omega

end ParqDB.Foundations.Lanes
