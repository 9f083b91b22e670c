import Mathlib.Data.List.Nodup
import ParqDB.Kmeans.Sampling

/-!
# Sampling through a map of displaced rows

`sample_without_replacement` of the k-means crate keeps no array of row ids: a hash map holds the
ids that are not at their own place any more, and forgets a place once the loop has passed it.

**Strategy.**  In every round the map and the array of a partial shuffle agree on the places that
the loop has not passed (`Mirrors`).  The two runs draw the same numbers, so each round selects
what the shuffle moves to the front, where later rounds do not touch it.

**Results.**

* `sample_eq_partialShuffle`: the sample is the front of the partial shuffle.
* `sampleWithoutReplacement_eq_sparse`: the map as a function from places to ids, which the training
  uses, gives the same sample.
-/

namespace ParqDB.Kmeans

open Foundations

/-! ## The loop over the map -/

/-- A source of draws below a bound. -/
structure Draws (State : Type) where
  genUsize : State → ℕ → ℕ × State
  lt_upper : ∀ state {upper}, 0 < upper → (genUsize state upper).1 < upper

/-- The draws of the generator. -/
def SmallRng.draws : Draws SmallRng where
  genUsize := SmallRng.genUsize
  lt_upper _ _ hupper := Nat.mod_lt _ hupper

section

variable {State : Type} (draws : Draws State) (n : ℕ)

/-- The selected row id of one round, and the map after it. -/
def sparseRound (swaps : Std.HashMap ℕ ℕ) (index swap : ℕ) : ℕ × Std.HashMap ℕ ℕ :=
  let selected := swaps.getD swap swap
  let displaced := swaps.getD index index
  (selected, (swaps.insert swap displaced).erase index)

def sparseLoop : ℕ → ℕ → Std.HashMap ℕ ℕ → State → List ℕ × State
  | 0, _, _, state => ([], state)
  | count + 1, index, swaps, state =>
      let drawn := draws.genUsize state (n - index)
      let round := sparseRound swaps index (index + drawn.1)
      let rest := sparseLoop count (index + 1) round.2 drawn.2
      (round.1 :: rest.1, rest.2)

/-- `sample_without_replacement`, with the state that it leaves the generator in. -/
def sparseSample (sampleSize : ℕ) (state : State) : Except Failure (List ℕ × State) := do
  rejectIf (n < sampleSize) .assertion
  .ok (sparseLoop draws n sampleSize 0 ∅ state)

end

/-! ## Partial shuffles -/

section

variable {State α : Type} (draws : Draws State)

/-- Exchanges the item of each round with one that is drawn from those behind it. -/
def shuffleLoop : ℕ → ℕ → Array α → State → Array α × State
  | 0, _, items, state => (items, state)
  | count + 1, index, items, state =>
      let drawn := draws.genUsize state (items.size - index)
      shuffleLoop count (index + 1) (items.swapIfInBounds index (index + drawn.1)) drawn.2

/-- The first rounds of the shuffle of Fisher and Yates. -/
def partialShuffle (items : Array α) (rounds : ℕ) (state : State) : Array α × State :=
  shuffleLoop draws rounds 0 items state

variable {draws}

theorem perm_swapIfInBounds (items : Array α) (first second : ℕ) :
    (items.swapIfInBounds first second).toList.Perm items.toList := by
  rw [Array.swapIfInBounds_def]
  split
  · split
    · exact (Array.swap_perm _ _).toList
    · rfl
  · rfl

theorem perm_shuffleLoop (count index : ℕ) (items : Array α) (state : State) :
    (shuffleLoop draws count index items state).1.toList.Perm items.toList := by
  induction count generalizing index items state with
  | zero => rfl
  | succ count ih => exact (ih _ _ _).trans (perm_swapIfInBounds items _ _)

/-- The places that the loop has passed are not touched any more. -/
theorem getElem?_shuffleLoop (count : ℕ) {index position : ℕ} (hpassed : position < index)
    (items : Array α) (state : State) :
    (shuffleLoop draws count index items state).1[position]? = items[position]? := by
  induction count generalizing index items state with
  | zero => rfl
  | succ count ih =>
      rw [shuffleLoop, ih (by omega)]
      by_cases hinside : position < items.size
      · rw [Array.getElem?_eq_getElem (by simpa using hinside), Array.getElem?_eq_getElem hinside,
          Array.getElem_swapIfInBounds_of_ne_of_ne (by omega) (by omega)]
      · rw [Array.getElem?_eq_none (by simpa using hinside),
          Array.getElem?_eq_none (by simpa using hinside)]

end

/-! ## The map stands for the array -/

/-- What the map says about the places that the loop has not passed is in the array. -/
def Mirrors (swaps : Std.HashMap ℕ ℕ) (ids : Array ℕ) (index : ℕ) : Prop :=
  ∀ position, index ≤ position → ∀ hinside : position < ids.size,
    swaps.getD position position = ids[position]

theorem Mirrors.start (n : ℕ) : Mirrors ∅ (Array.range n) 0 := by
  intro position _ hinside
  rw [Std.HashMap.getD_empty, Array.getElem_range]

section

variable {swaps : Std.HashMap ℕ ℕ} {ids : Array ℕ} {index swap : ℕ}

/-- The id that a place has after a round.  The entry of the passed place is gone, also when it is
the one that the round has written. -/
theorem getD_sparseRound (position : ℕ) :
    (sparseRound swaps index swap).2.getD position position =
      if index = position then position
      else if swap = position then swaps.getD index index else swaps.getD position position := by
  simp only [sparseRound, Std.HashMap.getD_erase, Std.HashMap.getD_insert, beq_iff_eq]

theorem Mirrors.round (hmirrors : Mirrors swaps ids index) (hswap : swap < ids.size) :
    Mirrors (sparseRound swaps index swap).2 (ids.swapIfInBounds index swap) (index + 1) := by
  intro position hposition hinside
  have hinside' : position < ids.size := by simpa using hinside
  rw [getD_sparseRound, if_neg (by omega)]
  by_cases hsame : swap = position
  · subst hsame
    rw [if_pos rfl, Array.getElem_swapIfInBounds_right (by omega)]
    exact hmirrors index le_rfl (by omega)
  · rw [if_neg hsame, Array.getElem_swapIfInBounds_of_ne_of_ne (by omega) (by omega)]
    exact hmirrors position (by omega) hinside'

end

section

variable {State : Type} {draws : Draws State}

/-- The loop selects what the shuffle leaves at the places that it passes. -/
theorem sparseLoop_eq {count index : ℕ} {swaps : Std.HashMap ℕ ℕ} {ids : Array ℕ} {state : State}
    (hfits : index + count ≤ ids.size) (hmirrors : Mirrors swaps ids index) :
    sparseLoop draws ids.size count index swaps state =
      (((shuffleLoop draws count index ids state).1.toList.drop index).take count,
        (shuffleLoop draws count index ids state).2) := by
  induction count generalizing index swaps ids state with
  | zero => rfl
  | succ count ih =>
      have hdrawn := draws.lt_upper state (show 0 < ids.size - index by omega)
      rw [sparseLoop, shuffleLoop]
      generalize draws.genUsize state (ids.size - index) = drawn at hdrawn ⊢
      have hswap : index + drawn.1 < ids.size := by omega
      have hnext := @ih (index + 1) _ (ids.swapIfInBounds index (index + drawn.1)) drawn.2
        (by rw [Array.size_swapIfInBounds]; omega) (hmirrors.round hswap)
      rw [Array.size_swapIfInBounds] at hnext
      rw [hnext]
      generalize hresult : shuffleLoop draws count (index + 1)
        (ids.swapIfInBounds index (index + drawn.1)) drawn.2 = result
      have hfront : result.1[index]? = some (swaps.getD (index + drawn.1) (index + drawn.1)) := by
        rw [← hresult, getElem?_shuffleLoop count (Nat.lt_succ_self index),
          Array.getElem?_eq_getElem (by rw [Array.size_swapIfInBounds]; omega),
          Array.getElem_swapIfInBounds_left hswap, hmirrors _ (by omega) hswap]
      obtain ⟨hinside, hvalue⟩ := Array.getElem?_eq_some_iff.mp hfront
      rw [List.drop_eq_getElem_cons (show index < result.1.toList.length from hinside),
        List.take_succ_cons, Array.getElem_toList, hvalue]
      rfl

/-- The sample is the front of the partial shuffle, so it has different rows of the matrix. -/
theorem sample_eq_partialShuffle (draws : Draws State) {n sampleSize : ℕ} (hsize : sampleSize ≤ n)
    (state : State) :
    ∃ sample, sparseSample draws n sampleSize state =
        .ok (sample, (partialShuffle draws (Array.range n) sampleSize state).2) ∧
      sample = (partialShuffle draws (Array.range n) sampleSize state).1.toList.take sampleSize ∧
      sample.length = sampleSize ∧ sample.Nodup ∧ ∀ rowId ∈ sample, rowId < n := by
  have hrange : (Array.range n).size = n := Array.size_range
  have hloop := @sparseLoop_eq State draws sampleSize 0 ∅ (Array.range n) state
    (by omega) (Mirrors.start n)
  rw [hrange, List.drop_zero] at hloop
  have hperm := @perm_shuffleLoop State ℕ draws sampleSize 0 (Array.range n) state
  rw [Array.toList_range] at hperm
  have hsub := List.take_sublist sampleSize
    (shuffleLoop draws sampleSize 0 (Array.range n) state).1.toList
  refine ⟨_, ?_, rfl, ?_, ?_, fun rowId hrow => ?_⟩
  · unfold sparseSample partialShuffle
    rw [rejectIf_bind_eq_ok, hloop]
    exact ⟨by omega, rfl⟩
  · rw [List.length_take, partialShuffle, hperm.length_eq, List.length_range]
    omega
  · exact (hperm.nodup_iff.mpr List.nodup_range).sublist hsub
  · exact List.mem_range.mp (hperm.subset (hsub.subset hrow))

/-- Two of five rows, drawn by the generator. -/
theorem two_of_five_sampled :
    ∃ sample, sparseSample SmallRng.draws 5 2 (SmallRng.new 42) =
        .ok (sample, (partialShuffle SmallRng.draws (Array.range 5) 2 (SmallRng.new 42)).2) ∧
      sample = (partialShuffle SmallRng.draws (Array.range 5) 2 (SmallRng.new 42)).1.toList.take 2 ∧
      sample.length = 2 ∧ sample.Nodup ∧ ∀ rowId ∈ sample, rowId < 5 :=
  sample_eq_partialShuffle SmallRng.draws (by decide) (SmallRng.new 42)

/-! ## The map as a function -/

theorem sampleLoop_eq_sparse (n count index : ℕ) (swaps : Std.HashMap ℕ ℕ) (rng : SmallRng) :
    sampleLoop n count index (fun position => swaps.getD position position) rng =
      (sparseLoop SmallRng.draws n count index swaps rng).1 := by
  induction count generalizing index swaps rng with
  | zero => rfl
  | succ count ih =>
      rw [sampleLoop, sparseLoop]
      congr 1
      rw [← ih]
      congr 1
      funext position
      rw [getD_sparseRound, Function.update_apply, Function.update_apply]
      by_cases hpassed : index = position
      · rw [if_pos hpassed, if_pos hpassed.symm, hpassed]
      · rw [if_neg hpassed, if_neg (Ne.symm hpassed)]
        exact if_congr eq_comm rfl rfl

theorem sampleWithoutReplacement_eq_sparse (n sampleSize : ℕ) (rng : SmallRng) :
    sampleWithoutReplacement n sampleSize rng =
      (sparseSample SmallRng.draws n sampleSize rng).map Prod.fst := by
  have hloop := sampleLoop_eq_sparse n sampleSize 0 ∅ rng
  simp only [Std.HashMap.getD_empty] at hloop
  unfold sampleWithoutReplacement sparseSample
  by_cases hsize : n < sampleSize
  · rw [rejectIf, if_pos hsize]
    rfl
  · rw [rejectIf, if_neg hsize]
    exact congrArg Except.ok hloop

end

end ParqDB.Kmeans
