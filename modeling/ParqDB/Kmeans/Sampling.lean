import Mathlib.Data.List.Basic
import Mathlib.Data.Nat.ModEq
import ParqDB.Kmeans.ChildCounts

/-!
# Dense matrices

The crates keep a matrix as the list of its values, one row after the other.  `row` and `putRow`
read and write one row of it, `gather` collects some rows, and `rowsOf` is the matrix as the list of
its rows.
-/

namespace ParqDB.Kmeans

variable {Value : Type} {values : List Value} {dimension : ℕ}

/-- One row of a matrix. -/
def row (values : List Value) (dimension rowId : ℕ) : List Value :=
  (values.drop (rowId * dimension)).take dimension

/-- The rows of a matrix. -/
def rowsOf (dimension : ℕ) (values : List Value) : List (List Value) :=
  (List.range (values.length / dimension)).map (row values dimension)

/-- Writes a row that starts at a value. -/
def putRow (values : List Value) (base : ℕ) (row : List Value) : List Value :=
  values.take base ++ row ++ values.drop (base + row.length)

/-- The matrix of some rows of another one. -/
def gather (values : List Value) (dimension : ℕ) (rowIds : List ℕ) : List Value :=
  rowIds.flatMap (row values dimension)

theorem length_rowsOf : (rowsOf dimension values).length = values.length / dimension := by
  rw [rowsOf, List.length_map, List.length_range]

theorem rowsOf_nil : rowsOf dimension ([] : List Value) = [] := by
  simp [rowsOf]

variable {rowId : ℕ} {rowIds : List ℕ} {base : ℕ} {written : List Value}

section

variable (hrow : rowId < values.length / dimension)

include hrow

/-- A row ends before the end of the matrix. -/
theorem row_end_le :
    rowId * dimension + dimension ≤ values.length := by
  calc rowId * dimension + dimension = (rowId + 1) * dimension :=
        (Nat.succ_mul rowId dimension).symm
    _ ≤ values.length / dimension * dimension := Nat.mul_le_mul_right dimension hrow
    _ ≤ values.length := Nat.div_mul_le_self _ _

theorem length_row :
    (row values dimension rowId).length = dimension := by
  have hend := row_end_le hrow
  rw [row, List.length_take, List.length_drop]
  omega

theorem getElem?_rowsOf :
    (rowsOf dimension values)[rowId]? = some (row values dimension rowId) := by
  unfold rowsOf
  rw [List.getElem?_map, List.getElem?_range hrow]
  rfl

end

/-- The rows of two matrices, one after the other. -/
theorem rowsOf_append {more : List Value} (haligned : dimension ∣ values.length) :
    rowsOf dimension (values ++ more) = rowsOf dimension values ++ rowsOf dimension more := by
  rcases Nat.eq_zero_or_pos dimension with rfl | hpositive
  · simp [rowsOf]
  obtain ⟨count, hcount⟩ := haligned
  have hrows : values.length / dimension = count := by
    rw [hcount, Nat.mul_div_cancel_left _ hpositive]
  have hboth : (values ++ more).length / dimension = count + more.length / dimension := by
    rw [List.length_append, hcount, Nat.mul_add_div hpositive]
  unfold rowsOf
  rw [hboth, hrows, List.range_add, List.map_append, List.map_map]
  congr 1
  · refine List.map_congr_left fun rowId hrow => ?_
    have hinside : rowId < values.length / dimension := hrows ▸ List.mem_range.mp hrow
    have hend := row_end_le hinside
    unfold row
    rw [List.drop_append_of_le_length (by omega), List.take_append_of_le_length]
    rw [List.length_drop]
    omega
  · refine List.map_congr_left fun rowId _ => ?_
    show row (values ++ more) dimension (count + rowId) = row more dimension rowId
    unfold row
    have hstart : (count + rowId) * dimension = values.length + rowId * dimension := by
      rw [hcount, Nat.add_mul, Nat.mul_comm count]
    rw [hstart, List.drop_append]
    rw [List.drop_eq_nil_of_le (by omega), List.nil_append, Nat.add_sub_cancel_left]

/-- A matrix of one row. -/
theorem rowsOf_singleton (hpositive : 0 < dimension) (hlength : values.length = dimension) :
    rowsOf dimension values = [values] := by
  have hone : values.length / dimension = 1 := by rw [hlength, Nat.div_self hpositive]
  unfold rowsOf
  rw [hone]
  have hrow : row values dimension 0 = values := by
    rw [row, Nat.zero_mul, List.drop_zero, List.take_of_length_le (Nat.le_of_eq hlength)]
  simp [hrow]

theorem length_gather (hrows : ∀ rowId ∈ rowIds, rowId < values.length / dimension) :
    (gather values dimension rowIds).length = rowIds.length * dimension := by
  induction rowIds with
  | nil => simp [gather]
  | cons rowId rest ih =>
      rw [List.forall_mem_cons] at hrows
      rw [gather, List.flatMap_cons, List.length_append, length_row hrows.1, List.length_cons,
        Nat.succ_mul, Nat.add_comm dimension]
      exact congrArg (· + dimension) (ih hrows.2)

theorem rowsOf_gather (hpositive : 0 < dimension)
    (hrows : ∀ rowId ∈ rowIds, rowId < values.length / dimension) :
    rowsOf dimension (gather values dimension rowIds) = rowIds.map (row values dimension) := by
  induction rowIds with
  | nil => exact rowsOf_nil
  | cons rowId rest ih =>
      rw [List.forall_mem_cons] at hrows
      have hwidth := length_row hrows.1
      rw [gather, List.flatMap_cons, rowsOf_append (Dvd.intro_left 1 (by rw [hwidth, Nat.one_mul])),
        rowsOf_singleton hpositive hwidth, List.map_cons]
      exact congrArg (row values dimension rowId :: ·) (ih hrows.2)

/-- The rows in another order. -/
theorem rowsOf_gather_perm (hpositive : 0 < dimension)
    (hperm : rowIds.Perm (List.range (values.length / dimension))) :
    (rowsOf dimension (gather values dimension rowIds)).Perm (rowsOf dimension values) := by
  rw [rowsOf_gather hpositive fun rowId hrow => List.mem_range.mp (hperm.mem_iff.mp hrow)]
  exact hperm.map _

theorem length_putRow {row : List Value} (hinside : base + row.length ≤ values.length) :
    (putRow values base row).length = values.length := by
  unfold putRow
  rw [List.length_append, List.length_append, List.length_take, List.length_drop]
  omega

/-- What stands before a written row stays. -/
theorem take_putRow (hbase : base ≤ values.length) :
    (putRow values base written).take base = values.take base := by
  unfold putRow
  rw [List.append_assoc, List.take_append_of_le_length (by rw [List.length_take]; omega),
    List.take_take, Nat.min_self]

/-- What stands behind a written row stays. -/
theorem drop_putRow (hbase : base ≤ values.length) :
    (putRow values base written).drop (base + written.length) =
      values.drop (base + written.length) := by
  unfold putRow
  have hlength : (values.take base ++ written).length = base + written.length := by
    rw [List.length_append, List.length_take]
    omega
  rw [List.drop_append_of_le_length (by omega), List.drop_eq_nil_of_le (by omega),
    List.nil_append]

section

variable (hrow : rowId < values.length / dimension)

include hrow

theorem row_putRow_same (hlength : written.length = dimension) :
    row (putRow values (rowId * dimension) written) dimension rowId = written := by
  have hend := row_end_le hrow
  have hstart : (values.take (rowId * dimension)).length = rowId * dimension := by
    rw [List.length_take]
    omega
  unfold row putRow
  rw [List.append_assoc, List.drop_append, List.drop_eq_nil_of_le (by omega), List.nil_append,
    hstart, Nat.sub_self, List.drop_zero, List.take_append_of_le_length (by omega),
    List.take_of_length_le (by omega)]

theorem row_putRow_other {other : ℕ}
    (hlength : written.length = dimension) (hne : other ≠ rowId) :
    row (putRow values (rowId * dimension) written) dimension other = row values dimension other := by
  have hend := row_end_le hrow
  have hbase : rowId * dimension ≤ values.length := by omega
  rcases Nat.lt_or_gt_of_ne hne with hbefore | hbehind
  · -- a row before the written one is part of what stands before it
    have hinside : other * dimension + dimension ≤ rowId * dimension := by
      rw [← Nat.succ_mul]
      exact Nat.mul_le_mul_right dimension hbefore
    have hread : ∀ list : List Value, row list dimension other =
        ((list.take (rowId * dimension)).drop (other * dimension)).take dimension := by
      intro list
      rw [row, List.drop_take, List.take_take]
      congr 1
      omega
    rw [hread, hread, take_putRow hbase]
  · have hinside : rowId * dimension + written.length ≤ other * dimension := by
      rw [hlength, ← Nat.succ_mul]
      exact Nat.mul_le_mul_right dimension hbehind
    have hread : ∀ list : List Value, row list dimension other =
        ((list.drop (rowId * dimension + written.length)).drop
          (other * dimension - (rowId * dimension + written.length))).take dimension := by
      intro list
      rw [row, List.drop_drop]
      congr 2
      omega
    rw [hread, hread, drop_putRow hbase]

/-- Writing a row replaces it in the list of rows. -/
theorem rowsOf_putRow (hlength : written.length = dimension) :
    rowsOf dimension (putRow values (rowId * dimension) written) =
      (rowsOf dimension values).set rowId written := by
  have hsize : (putRow values (rowId * dimension) written).length = values.length := by
    apply length_putRow
    rw [hlength]
    exact row_end_le hrow
  apply List.ext_getElem?
  intro other
  rcases Nat.lt_or_ge other (values.length / dimension) with hinside | houtside
  · rw [getElem?_rowsOf (by rw [hsize]; exact hinside)]
    by_cases hsame : other = rowId
    · subst hsame
      rw [row_putRow_same hrow hlength, List.getElem?_set_self (by rw [length_rowsOf]; exact hrow)]
    · rw [row_putRow_other hrow hlength hsame, List.getElem?_set_ne (Ne.symm hsame),
        getElem?_rowsOf hinside]
  · rw [List.getElem?_eq_none (by rw [length_rowsOf, hsize]; exact houtside),
      List.getElem?_eq_none (by rw [List.length_set, length_rowsOf]; exact houtside)]

end

/-! ## Matrices made of rows -/

section

variable {rowOf : ℕ → List Value} (hwidth : ∀ item, (rowOf item).length = dimension)
include hwidth

theorem length_flatMap_rows (items : List ℕ) :
    (items.flatMap rowOf).length = items.length * dimension := by
  induction items with
  | nil => simp
  | cons item rest ih =>
      rw [List.flatMap_cons, List.length_append, ih, hwidth, List.length_cons, Nat.succ_mul,
        Nat.add_comm]

/-- The rows before one row, that row, and those behind it. -/
theorem flatMap_range'_split {start count index : ℕ} (hindex : index < count) :
    ∃ before behind, before.length = index * dimension ∧
      before = (List.range' start index).flatMap rowOf ∧
      behind = (List.range' (start + index + 1) (count - index - 1)).flatMap rowOf ∧
      (List.range' start count).flatMap rowOf = before ++ (rowOf (start + index) ++ behind) := by
  refine ⟨_, _, ?_, rfl, rfl, ?_⟩
  · rw [length_flatMap_rows hwidth, List.length_range']
  · have hsplit : count = index + (1 + (count - index - 1)) := by omega
    rw [hsplit, ← List.range'_append, ← List.range'_append, List.flatMap_append,
      List.flatMap_append]
    simp

variable {count index : ℕ}

theorem row_flatMap {start : ℕ} (hindex : index < count) :
    row ((List.range' start count).flatMap rowOf) dimension index = rowOf (start + index) := by
  obtain ⟨before, behind, hlength, -, -, hall⟩ := @flatMap_range'_split _ _ rowOf hwidth start _ _ hindex
  unfold row
  rw [hall, ← hlength, List.drop_left, ← hwidth (start + index), List.take_left]

theorem putRow_flatMap {start : ℕ} (hindex : index < count) (hwritten : written.length = dimension) :
    putRow ((List.range' start count).flatMap rowOf) (index * dimension) written =
      (List.range' start count).flatMap (Function.update rowOf (start + index) written) := by
  have hupdated (item : ℕ) : (Function.update rowOf (start + index) written item).length =
      dimension := by
    by_cases hsame : item = start + index
    · rw [hsame, Function.update_self, hwritten]
    · rw [Function.update_of_ne hsame, hwidth]
  obtain ⟨before, behind, hlength, hbefore, hbehind, hall⟩ :=
    @flatMap_range'_split _ _ rowOf hwidth start _ _ hindex
  obtain ⟨before', behind', -, hbefore', hbehind', hall'⟩ :=
    @flatMap_range'_split _ _ _ hupdated start _ _ hindex
  have hsameBefore : before' = before := by
    rw [hbefore, hbefore']
    refine List.flatMap_congr fun item hitem => ?_
    rw [List.mem_range'_1] at hitem
    exact Function.update_of_ne (by omega) _ _
  have hsameBehind : behind' = behind := by
    rw [hbehind, hbehind']
    refine List.flatMap_congr fun item hitem => ?_
    rw [List.mem_range'_1] at hitem
    exact Function.update_of_ne (by omega) _ _
  have hend : index * dimension + written.length = (before ++ rowOf (start + index)).length := by
    rw [List.length_append, hlength, hwidth, hwritten]
  unfold putRow
  rw [hall, hall', hsameBefore, hsameBehind, Function.update_self, hend, ← List.append_assoc before,
    List.drop_left, List.append_assoc before, ← hlength, List.take_left, List.append_assoc]

end

/-!
## Random training rows

`sample_without_replacement` of the k-means crate shuffles the row ids as far as it needs them, and
keeps only those that are not at their own place any more.

**Strategy.**  What is still to be chosen from is the image of an injective function
(`Shuffled`); a round takes one value out of it.

**Results.**  `exists_sample`: the sample has different rows of the matrix.
-/

open Foundations

/-! ## The generator -/

structure SmallRng where
  state : UInt64
  deriving DecidableEq

namespace SmallRng

def new (seed : UInt64) : SmallRng := ⟨seed ^^^ 0x9E3779B97F4A7C15⟩

def nextU64 (rng : SmallRng) : UInt64 × SmallRng :=
  let value := rng.state
  let value := value ^^^ (value >>> 12)
  let value := value ^^^ (value <<< 25)
  let value := value ^^^ (value >>> 27)
  (value * 0x2545F4914F6CDD1D, ⟨value⟩)

def genUsize (rng : SmallRng) (upper : ℕ) : ℕ × SmallRng :=
  (rng.nextU64.1.toNat % upper, rng.nextU64.2)

end SmallRng

/-! ## Sampling -/

/-- The loop of `sample_without_replacement`.  A row id that the map of swaps does not hold is at
its own place. -/
def sampleLoop (n : ℕ) : ℕ → ℕ → (ℕ → ℕ) → SmallRng → List ℕ
  | 0, _, _, _ => []
  | count + 1, index, swaps, rng =>
      let drawn := rng.genUsize (n - index)
      let swap := index + drawn.1
      swaps swap :: sampleLoop n count (index + 1)
        (Function.update (Function.update swaps swap (swaps index)) index index) drawn.2

def sampleWithoutReplacement (n sampleSize : ℕ) (rng : SmallRng) : Except Failure (List ℕ) := do
  rejectIf (n < sampleSize) .assertion
  .ok (sampleLoop n sampleSize 0 id rng)

section

variable {Value : Type}

def initCentroidsRandom (vectors : List Value) (n dimension nClusters : ℕ) (rng : SmallRng) :
    Except Failure (List Value) := do
  let rowIds ← sampleWithoutReplacement n nClusters rng
  .ok (gather vectors dimension rowIds)

/-- Samples dense training rows reproducibly without replacement. -/
def sampleTrainingRows (isFinite : Value → Bool) (vectors : List Value) (dimension maxRows : ℕ)
    (seed : UInt64) : Except Failure (List Value) := do
  rejectIf (dimension = 0 ∨ maxRows = 0 ∨ vectors = [] ∨ vectors.length % dimension ≠ 0 ∨
      ∃ value ∈ vectors, isFinite value = false)
    (.invalidArgument "training sample requires a non-empty finite matrix and positive max_rows")
  let n := vectors.length / dimension
  let sampleSize := min maxRows n
  if sampleSize = n then .ok vectors
  else do
    let rowIds ← sampleWithoutReplacement n sampleSize (SmallRng.new seed)
    .ok (gather vectors dimension rowIds)

end

/-! ## Different rows -/

/-- What is left to choose from, after some rounds. -/
structure Shuffled (n index : ℕ) (swaps : ℕ → ℕ) : Prop where
  inside : ∀ position, index ≤ position → position < n → swaps position < n
  injective : ∀ first, index ≤ first → first < n → ∀ second, index ≤ second → second < n →
    swaps first = swaps second → first = second

theorem Shuffled.start (n : ℕ) : Shuffled n 0 id where
  inside _ _ hposition := hposition
  injective _ _ _ _ _ _ hsame := hsame

section

variable {n index swap : ℕ} {swaps : ℕ → ℕ}

/-- The places that the next round chooses from held other ids than the one that was taken. -/
theorem swapped_eq (hswap : index ≤ swap ∧ swap < n) {position : ℕ}
    (hposition : index + 1 ≤ position ∧ position < n) :
    ∃ source, index ≤ source ∧ source < n ∧ source ≠ swap ∧
      (position = swap ↔ source = index) ∧ (position ≠ swap → source = position) ∧
      Function.update (Function.update swaps swap (swaps index)) index index position =
        swaps source := by
  rw [Function.update_of_ne (by omega)]
  by_cases hsame : position = swap
  · refine ⟨index, le_rfl, by omega, by omega, iff_of_true hsame rfl, fun hne => absurd hsame hne, ?_⟩
    rw [hsame, Function.update_self]
  · refine ⟨position, by omega, hposition.2, hsame, iff_of_false hsame (by omega), fun _ => rfl, ?_⟩
    rw [Function.update_of_ne hsame]

theorem Shuffled.round (hshuffled : Shuffled n index swaps) (hswap : index ≤ swap ∧ swap < n) :
    Shuffled n (index + 1)
      (Function.update (Function.update swaps swap (swaps index)) index index) := by
  refine ⟨fun position hle hlt => ?_, fun first hfirst hfirstLt second hsecond hsecondLt hsame => ?_⟩
  · obtain ⟨source, hsource, hsourceLt, -, -, -, hvalue⟩ :=
      @swapped_eq n index swap swaps hswap position ⟨hle, hlt⟩
    rw [hvalue]
    exact hshuffled.inside source hsource hsourceLt
  · obtain ⟨one, hone, honeLt, -, honeSwap, honeElse, honeValue⟩ :=
      @swapped_eq n index swap swaps hswap first ⟨hfirst, hfirstLt⟩
    obtain ⟨two, htwo, htwoLt, -, htwoSwap, htwoElse, htwoValue⟩ :=
      @swapped_eq n index swap swaps hswap second ⟨hsecond, hsecondLt⟩
    rw [honeValue, htwoValue] at hsame
    have hsources := hshuffled.injective one hone honeLt two htwo htwoLt hsame
    omega

end

theorem sampleLoop_spec {n count index : ℕ} {swaps : ℕ → ℕ} {rng : SmallRng}
    (hfits : index + count ≤ n) (hshuffled : Shuffled n index swaps) :
    (sampleLoop n count index swaps rng).length = count ∧
      (sampleLoop n count index swaps rng).Nodup ∧
      ∀ rowId ∈ sampleLoop n count index swaps rng,
        ∃ position, index ≤ position ∧ position < n ∧ swaps position = rowId := by
  induction count generalizing index swaps rng with
  | zero =>
      refine ⟨rfl, List.nodup_nil, fun rowId hrow => ?_⟩
      cases hrow
  | succ count ih =>
      have hdrawn : (rng.genUsize (n - index)).1 < n - index := Nat.mod_lt _ (by omega)
      have hswap : index ≤ index + (rng.genUsize (n - index)).1 ∧
          index + (rng.genUsize (n - index)).1 < n := by omega
      obtain ⟨hlength, hnodup, hsources⟩ := @ih (index + 1) _ (rng.genUsize (n - index)).2 (by omega)
        (hshuffled.round hswap)
      rw [sampleLoop]
      refine ⟨by rw [List.length_cons, hlength], List.nodup_cons.mpr ⟨fun hagain => ?_, hnodup⟩,
        List.forall_mem_cons.mpr ⟨⟨_, hswap.1, hswap.2, rfl⟩, fun rowId hrow => ?_⟩⟩
      · -- the id that was taken is not the image of a place that is left
        obtain ⟨position, hle, hlt, hvalue⟩ := hsources _ hagain
        obtain ⟨source, hsource, hsourceLt, hne, -, -, hsourceValue⟩ :=
          @swapped_eq n index _ swaps hswap position ⟨hle, hlt⟩
        rw [hsourceValue] at hvalue
        exact hne (hshuffled.injective source hsource hsourceLt _ hswap.1 hswap.2 hvalue)
      · obtain ⟨position, hle, hlt, hvalue⟩ := hsources rowId hrow
        obtain ⟨source, hsource, hsourceLt, -, -, -, hsourceValue⟩ :=
          @swapped_eq n index _ swaps hswap position ⟨hle, hlt⟩
        rw [hsourceValue] at hvalue
        exact ⟨source, hsource, hsourceLt, hvalue⟩

/-- A sample that is not larger than the matrix has different rows of it. -/
theorem exists_sample {n sampleSize : ℕ} (hsize : sampleSize ≤ n) (rng : SmallRng) :
    ∃ rowIds, sampleWithoutReplacement n sampleSize rng = .ok rowIds ∧
      rowIds.length = sampleSize ∧ rowIds.Nodup ∧ ∀ rowId ∈ rowIds, rowId < n := by
  obtain ⟨hlength, hnodup, hsources⟩ :=
    @sampleLoop_spec n sampleSize 0 id rng (by omega) (Shuffled.start n)
  refine ⟨sampleLoop n sampleSize 0 id rng, ?_, hlength, hnodup, fun rowId hrow => ?_⟩
  · unfold sampleWithoutReplacement
    rw [rejectIf_bind_eq_ok]
    exact ⟨by omega, rfl⟩
  · obtain ⟨position, -, hlt, rfl⟩ := hsources rowId hrow
    exact hlt

section

variable {Value : Type} {isFinite : Value → Bool} {vectors : List Value} {dimension : ℕ}

theorem exists_initCentroids {n nClusters : ℕ} (hdimension : 0 < dimension)
    (hvectors : vectors.length = n * dimension) (hclusters : nClusters ≤ n) (rng : SmallRng) :
    ∃ centroids, initCentroidsRandom vectors n dimension nClusters rng = .ok centroids ∧
      centroids.length = nClusters * dimension := by
  obtain ⟨rowIds, hsample, hlength, -, hinside⟩ := exists_sample hclusters rng
  have hrows : vectors.length / dimension = n := by
    rw [hvectors, Nat.mul_div_cancel _ hdimension]
  refine ⟨gather vectors dimension rowIds, ?_, ?_⟩
  · unfold initCentroidsRandom
    rw [hsample, ok_bind]
  · rw [length_gather (by rw [hrows]; exact hinside), hlength]

theorem exists_sampleTrainingRows {n maxRows : ℕ} (hdimension : 0 < dimension)
    (hvectors : vectors.length = n * dimension) (hrows : 0 < n)
    (hfinite : ∀ value ∈ vectors, isFinite value = true) (hmax : 0 < maxRows) (seed : UInt64) :
    ∃ sample, sampleTrainingRows isFinite vectors dimension maxRows seed = .ok sample ∧
      sample.length = min maxRows n * dimension := by
  have hcount : vectors.length / dimension = n := by
    rw [hvectors, Nat.mul_div_cancel _ hdimension]
  have hpasses : ¬ (dimension = 0 ∨ maxRows = 0 ∨ vectors = [] ∨ vectors.length % dimension ≠ 0 ∨
      ∃ value ∈ vectors, isFinite value = false) := by
    rintro (hzero | hzero | rfl | hragged | ⟨value, hvalue, hinfinite⟩)
    · omega
    · omega
    · have hpositive := Nat.mul_pos hrows hdimension
      rw [← hvectors, List.length_nil] at hpositive
      omega
    · rw [hvectors, Nat.mul_mod_left] at hragged
      exact hragged rfl
    · rw [hfinite value hvalue] at hinfinite
      cases hinfinite
  unfold sampleTrainingRows
  rw [rejectIf_eq_ok.mpr hpasses, ok_bind]
  dsimp only
  rw [hcount]
  split
  · next hall => exact ⟨vectors, rfl, by rw [hall, hvectors]⟩
  · obtain ⟨rowIds, hsample, hlength, -, hinside⟩ :=
      exists_sample (Nat.min_le_right maxRows n) (SmallRng.new seed)
    refine ⟨gather vectors dimension rowIds, by rw [hsample, ok_bind], ?_⟩
    rw [length_gather (by rw [hcount]; exact hinside), hlength]

end

end ParqDB.Kmeans
