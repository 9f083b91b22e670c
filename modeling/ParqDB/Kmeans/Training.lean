import Mathlib.Analysis.Real.Sqrt
import Mathlib.Data.Nat.Sqrt
import ParqDB.Kmeans.EmptyClusters
import ParqDB.Parallite.Contexts

/-!
# The shape of a two-level index

`hierarchical_shape` of the k-means crate takes the square root of the number of leaf clusters,
rounded to an integer, as the number of roots, and shares the leaves evenly among them.  The root is
found by a binary search, and then compared with the next number.

**Strategy.**  The search keeps `lower * lower ≤ value < (upper + 1) * (upper + 1)`, so that it ends
with the integer square root (`sqrtSearch_eq`).

**Results.**  `roundedSqrt_eq`, and `nearest_roundSqrt`: no integer is as near to the square root.
-/

namespace ParqDB.Kmeans

open Foundations

/-! ## Rounded square roots -/

/-- The quotient, rounded up. -/
def divCeil (left right : ℕ) : ℕ := (left + right - 1) / right

/-- The binary search of `rounded_sqrt`. -/
def sqrtSearch (value lower upper : ℕ) : Except Failure ℕ :=
  if _hloop : lower < upper then
    let middle := lower + divCeil (upper - lower) 2
    if usizeBound ≤ middle then .error .overflow
    else if middle = 0 then .error .divisionByZero
    else if middle ≤ value / middle then sqrtSearch value middle upper
    else sqrtSearch value lower (middle - 1)
  else .ok lower
termination_by upper - lower
decreasing_by
  all_goals unfold middle divCeil at *
  all_goals omega

def roundedSqrt (value : ℕ) : Except Failure ℕ :=
  if value ≤ 1 then .ok value
  else do
    let root ← sqrtSearch value 1 value
    let next := min (root + 1) (usizeBound - 1)
    -- a square that does not fit is not compared with
    if usizeBound ≤ next * next then .ok root
    else do
      let above ← subtract (next * next) value
      let square ← checked usizeBound (root * root)
      let below ← subtract value square
      .ok (if above < below then next else root)

/-- The shares of the roots. -/
def evenCounts (nClusters rootCount : ℕ) : List ℕ :=
  (List.range rootCount).map fun root =>
    nClusters / rootCount + if root < nClusters % rootCount then 1 else 0

def hierarchicalShape (nClusters : ℕ) : Except Failure (ℕ × List ℕ) := do
  let rounded ← roundedSqrt nClusters
  let rootCount := max rounded 1
  .ok (rootCount, evenCounts nClusters rootCount)

/-! ## The search -/

/-- The loop narrows down where the square root lies. -/
theorem sqrtSearch_eq {value lower upper : ℕ} (hword : upper < usizeBound) (hpos : 0 < lower)
    (hle : lower ≤ upper) (hlower : lower * lower ≤ value)
    (hupper : value < (upper + 1) * (upper + 1)) :
    sqrtSearch value lower upper = .ok (Nat.sqrt value) := by
  fun_induction sqrtSearch value lower upper with
  | case1 lower upper hloop middle hover =>
      have hmiddle : middle ≤ upper := by
        unfold middle divCeil
        omega
      omega
  | case2 lower upper hloop middle hfits hzero =>
      have hmiddle : lower ≤ middle := Nat.le_add_right _ _
      omega
  | case3 lower upper hloop middle hfits hpositive hquotient ih =>
      have hmiddle : middle ≤ upper := by
        unfold middle divCeil
        omega
      have hsquare := (Nat.le_div_iff_mul_le (Nat.pos_of_ne_zero hpositive)).mp hquotient
      exact ih hword (Nat.pos_of_ne_zero hpositive) hmiddle hsquare hupper
  | case4 lower upper hloop middle hfits hpositive hquotient ih =>
      have hmiddle : lower < middle ∧ middle ≤ upper := by
        unfold middle divCeil
        omega
      have hsquare : value < middle * middle := by
        rw [Nat.le_div_iff_mul_le (Nat.pos_of_ne_zero hpositive)] at hquotient
        exact Nat.lt_of_not_le hquotient
      apply ih (by omega) hpos (by omega) hlower
      rwa [Nat.sub_add_cancel (Nat.pos_of_ne_zero hpositive)]
  | case5 lower upper hloop =>
      have hsame : lower = upper := by omega
      subst hsame
      rw [Nat.eq_sqrt.mpr ⟨hlower, hupper⟩]

/-- The square root, rounded to the nearest integer. -/
def roundSqrt (value : ℕ) : ℕ :=
  if Nat.sqrt value * Nat.sqrt value + Nat.sqrt value < value then Nat.sqrt value + 1
  else Nat.sqrt value

/-- Up to a quarter of the machine words, no step over- or underflows. -/
theorem roundedSqrt_eq {value : ℕ} (hvalue : 4 * value < usizeBound) :
    roundedSqrt value = .ok (roundSqrt value) := by
  have hlower := Nat.sqrt_le value
  have hupper : value < (Nat.sqrt value + 1) * (Nat.sqrt value + 1) := Nat.lt_succ_sqrt value
  unfold roundedSqrt
  split
  · next hsmall =>
      rcases Nat.le_one_iff_eq_zero_or_eq_one.mp hsmall with rfl | rfl
      · rfl
      · rfl
  · next hlarge =>
      have hsearch : sqrtSearch value 1 value = .ok (Nat.sqrt value) := by
        apply sqrtSearch_eq (by omega) Nat.one_pos (by omega) (by omega)
        calc value < value + 1 := Nat.lt_succ_self value
          _ = (value + 1) * 1 := (Nat.mul_one _).symm
          _ ≤ (value + 1) * (value + 1) := Nat.mul_le_mul_left _ (by omega)
      have hpositive : 0 < Nat.sqrt value := Nat.sqrt_pos.mpr (by omega)
      have hself : Nat.sqrt value ≤ value := Nat.sqrt_le_self value
      have hnext : min (Nat.sqrt value + 1) (usizeBound - 1) = Nat.sqrt value + 1 := by omega
      have hsquare : (Nat.sqrt value + 1) * (Nat.sqrt value + 1) =
          Nat.sqrt value * Nat.sqrt value + 2 * Nat.sqrt value + 1 := by ring
      have hroot : Nat.sqrt value ≤ Nat.sqrt value * Nat.sqrt value :=
        Nat.le_mul_of_pos_left _ hpositive
      rw [hsearch, ok_bind]
      dsimp only
      rw [hnext, hsquare, if_neg (by omega), subtract_ok (by omega), ok_bind,
        checked_ok (by omega), ok_bind, subtract_ok (by omega), ok_bind]
      -- both differences together are odd, so that they are never equal
      have hcompare : (Nat.sqrt value * Nat.sqrt value + 2 * Nat.sqrt value + 1 - value <
          value - Nat.sqrt value * Nat.sqrt value) ↔
          Nat.sqrt value * Nat.sqrt value + Nat.sqrt value < value := by omega
      unfold roundSqrt
      rw [if_congr hcompare rfl rfl]

/-! ## The nearest integer -/

/-- The integer that is nearest to a square root. -/
def NearestSqrt (value root : ℕ) : Prop :=
  ∀ other : ℤ, other ≠ root → |(root : ℝ) - √value| < |(other : ℝ) - √value|

/-- A number whose square differs from the value by less than its half is nearest to its root. -/
theorem nearestSqrt_of_bounds {value root : ℕ} (hlower : root * root < value + root ∨ root = 0)
    (hupper : value ≤ root * root + root) : NearestSqrt value root := by
  have hnonneg : (0 : ℝ) ≤ (value : ℝ) := Nat.cast_nonneg value
  have habove : √(value : ℝ) < root + 1 / 2 := by
    rw [Real.sqrt_lt' (by positivity)]
    have hcast : (value : ℝ) ≤ root * root + root := by exact_mod_cast hupper
    calc (value : ℝ) ≤ root * root + root := hcast
      _ < (root + 1 / 2) ^ 2 := by ring_nf; norm_num
  have hbelow : root - 1 / 2 < √(value : ℝ) := by
    rcases hlower with hlower | hzero
    · apply Real.lt_sqrt_of_sq_lt
      have hcast : (root * root : ℝ) + 1 ≤ value + root := by exact_mod_cast hlower
      calc ((root : ℝ) - 1 / 2) ^ 2 = root * root - root + 1 / 4 := by ring
        _ < root * root + 1 - root := by linarith
        _ ≤ value := by linarith
    · subst hzero
      have hroot := Real.sqrt_nonneg (value : ℝ)
      norm_num
      linarith
  intro other hother
  have hhalf : |(root : ℝ) - √value| < 1 / 2 := abs_lt.mpr ⟨by linarith, by linarith⟩
  have hapart : (1 : ℝ) ≤ |(other : ℝ) - root| := by
    have hint : (1 : ℤ) ≤ |other - root| := Int.one_le_abs (sub_ne_zero.mpr hother)
    exact_mod_cast hint
  have htriangle := abs_sub_le (other : ℝ) (√value) root
  rw [abs_sub_comm (√(value : ℝ)) root] at htriangle
  linarith

theorem nearest_roundSqrt (value : ℕ) : NearestSqrt value (roundSqrt value) := by
  have hlower := Nat.sqrt_le value
  have hupper : value < (Nat.sqrt value + 1) * (Nat.sqrt value + 1) := Nat.lt_succ_sqrt value
  have hsquare : (Nat.sqrt value + 1) * (Nat.sqrt value + 1) =
      Nat.sqrt value * Nat.sqrt value + 2 * Nat.sqrt value + 1 := by ring
  apply nearestSqrt_of_bounds
  · unfold roundSqrt
    split
    · left
      omega
    · omega
  · unfold roundSqrt
    split
    · omega
    · omega

theorem roundSqrt_pos {value : ℕ} (hvalue : 0 < value) : 0 < roundSqrt value := by
  have hpositive := Nat.sqrt_pos.mpr hvalue
  unfold roundSqrt
  split
  · omega
  · exact hpositive

theorem roundSqrt_le_self (value : ℕ) : roundSqrt value ≤ value := by
  have hself := Nat.sqrt_le_self value
  unfold roundSqrt
  split
  · omega
  · exact hself

/-- The square of the rounded root is hardly more than the value. -/
theorem roundSqrt_mul_self_le (value : ℕ) :
    roundSqrt value * roundSqrt value ≤ value + roundSqrt value := by
  have hlower := Nat.sqrt_le value
  have hsquare : (Nat.sqrt value + 1) * (Nat.sqrt value + 1) =
      Nat.sqrt value * Nat.sqrt value + 2 * Nat.sqrt value + 1 := by ring
  unfold roundSqrt
  split
  · omega
  · omega

/-! ## Even shares -/

theorem length_evenCounts (nClusters rootCount : ℕ) :
    (evenCounts nClusters rootCount).length = rootCount := by
  rw [evenCounts, List.length_map, List.length_range]

theorem sum_range_shares (share remainder count : ℕ) :
    ((List.range count).map fun root => share + if root < remainder then 1 else 0).sum =
      count * share + min count remainder := by
  induction count with
  | zero => simp
  | succ count ih =>
      rw [List.range_succ, List.map_append, List.sum_append, ih, List.map_singleton,
        List.sum_singleton, Nat.succ_mul]
      split
      · omega
      · omega

theorem sum_evenCounts {nClusters rootCount : ℕ} (hroots : 0 < rootCount) :
    (evenCounts nClusters rootCount).sum = nClusters := by
  have hremainder := Nat.mod_lt nClusters hroots
  calc (evenCounts nClusters rootCount).sum
      = rootCount * (nClusters / rootCount) + min rootCount (nClusters % rootCount) :=
        sum_range_shares _ _ _
    _ = rootCount * (nClusters / rootCount) + nClusters % rootCount := by
        rw [Nat.min_eq_right hremainder.le]
    _ = nClusters := Nat.div_add_mod nClusters rootCount

theorem evenCounts_pos {nClusters rootCount : ℕ} (hroots : 0 < rootCount)
    (hle : rootCount ≤ nClusters) : ∀ count ∈ evenCounts nClusters rootCount, 0 < count := by
  intro count hcount
  obtain ⟨root, -, rfl⟩ := List.mem_map.mp hcount
  exact Nat.add_pos_left (Nat.div_pos hle hroots) _

/-- The shape for every number of clusters that a training matrix has rows for. -/
theorem hierarchicalShape_eq {nClusters : ℕ} (hpositive : 0 < nClusters)
    (hfits : 4 * nClusters < usizeBound) :
    hierarchicalShape nClusters =
      .ok (roundSqrt nClusters, evenCounts nClusters (roundSqrt nClusters)) := by
  have hroots := roundSqrt_pos hpositive
  unfold hierarchicalShape
  rw [roundedSqrt_eq hfits, ok_bind]
  dsimp only
  rw [Nat.max_eq_left hroots]

example : hierarchicalShape 13 = .ok (4, [4, 3, 3, 3]) := by decide +kernel

/-!
## Flat k-means training

One round of Lloyd's algorithm assigns every row of the training matrix to its nearest centroid, and
moves the centroids to the means of their rows.  The k-means crate splits the rows among the workers
for the first half, and the centroids for the second.

**What is a parameter.**  The kernel that finds the nearest centroid of a row, the `f32` and `f64`
arithmetic, and the random numbers.  A `Value` is the bit pattern of an `f32`.
-/

open Parallite

/-! ## Options and models -/

inductive KMeansMode where
  | flat
  | hierarchical
  deriving DecidableEq

structure KMeansOptions where
  nClusters : ℕ
  maxIter : ℕ
  seed : UInt64
  mode : KMeansMode

/-- Why hierarchical training fell back to flat leaf training. -/
structure KMeansHierarchyFallback where
  root : ℕ
  availableRows : ℕ
  requiredRows : ℕ

structure KMeansHierarchy (Value : Type) where
  rootCentroids : List Value
  cidOffsets : List ℕ
  fallback : Option KMeansHierarchyFallback

structure KMeansModel (Value : Type) where
  centroids : List Value
  hierarchy : Option (KMeansHierarchy Value)
  iterations : ℕ

/-- A slice of `f32` values is at most `isize::MAX` bytes long. -/
abbrev F32Slice (Value : Type) := { values : List Value // 4 * values.length < 2 ^ 63 }

/-! ## Arithmetic -/

/-- The `f32` arithmetic of the processor. -/
structure FloatArithmetic (Value : Type) where
  isFinite : Value → Bool
  zero : Value
  one : Value
  add : Value → Value → Value
  mul : Value → Value → Value
  div : Value → Value → Value
  /-- `count as f32` -/
  ofCount : ℕ → Value

/-- Sums of finite distances, however they are bracketed. -/
inductive IsSum {Value Wide : Type} (isFinite : Value → Bool) (zero : Wide)
    (add : Wide → Wide → Wide) (widen : Value → Wide) : ℕ → Wide → Prop
  | none : IsSum isFinite zero add widen 0 zero
  | distance (value : Value) : isFinite value = true → IsSum isFinite zero add widen 1 (widen value)
  | sum {first second : ℕ} {left right : Wide} : IsSum isFinite zero add widen first left →
      IsSum isFinite zero add widen second right →
        IsSum isFinite zero add widen (first + second) (add left right)

/-- The `f64` arithmetic of inertias: a memory full of `f32` values does not overflow a sum. -/
structure WideArithmetic {Value : Type} (isFinite : Value → Bool) where
  Wide : Type
  zero : Wide
  add : Wide → Wide → Wide
  widen : Value → Wide
  finite : Wide → Bool
  finite_of_sum : ∀ count sum, count < 2 ^ 61 → IsSum isFinite zero add widen count sum →
    finite sum = true

/-- What training computes with. -/
structure FlatKernels (Value : Type) where
  float : FloatArithmetic Value
  wide : WideArithmetic float.isFinite
  /-- The nearest centroid of a row, and its squared distance. -/
  nearest : List Value → List Value → ℕ × Value
  rounding : Rounding
  draws : DrawStream
  /-- `SmallRng::new(1234)` -/
  splitRng : draws.State
  factors : SplitFactors Value

/-! ## Ranges -/

structure RowRange where
  start : ℕ
  stop : ℕ
  deriving DecidableEq

def RowRange.length (range : RowRange) : ℕ := range.stop - range.start

/-- The loop of `row_ranges`, from some start on. -/
def rangesFrom (rows rowsPerRange start : ℕ) : List RowRange :=
  if start < rows then
    ⟨start, min (start + max rowsPerRange 1) rows⟩ ::
      rangesFrom rows rowsPerRange (min (start + max rowsPerRange 1) rows)
  else []
termination_by rows - start
decreasing_by omega

def rowRanges (rows rowsPerRange : ℕ) : List RowRange := rangesFrom rows rowsPerRange 0

/-! ## Assignment -/

def partitionRowLimit : ℕ := 1024

def usesGemm (dimension nClusters : ℕ) : Bool := 8 ≤ dimension && 16 ≤ nClusters

def gemmPartitionRows (nClusters : ℕ) : ℕ :=
  min (max (4 * 1024 * 1024 / nClusters) 1) partitionRowLimit

def trainingPartitionCount (rows workers : ℕ) : ℕ := max (min (max workers 1) rows) 1

/-- The message for a distance that is not finite. -/
def distanceMessage (gemm : Bool) : String :=
  if gemm then "GEMM centroid assignment produced a non-finite distance"
  else "centroid assignment produced a non-finite distance"

/-- An error of a pipeline. -/
def ofParallite : ParalliteError Failure → Failure
  | .user failure => failure
  | .invalidParameter message => .invalidArgument s!"invalid parameter: {message}"
  | .invalidPartition partitionId numPartitions => .invalidArgument
      s!"partition function returned {partitionId} for {numPartitions} partitions"

structure TrainingPartition (Wide : Type) where
  range : RowRange
  assignmentCells : List ℕ
  inertia : Wide

structure BatchSums (Value Wide : Type) where
  sums : List Value
  counts : List ℕ
  inertia : Wide

section

variable {Value : Type} [DecidableEq Value] (kernels : FlatKernels Value)

/-- Adds the distance of one row. -/
def addDistance (gemm : Bool) (inertia : kernels.wide.Wide) (distance : Value) :
    Except Failure kernels.wide.Wide := do
  rejectIf (kernels.float.isFinite distance = false) (.invalidArgument (distanceMessage gemm))
  .ok (kernels.wide.add inertia (kernels.wide.widen distance))

section

variable (vectors : List Value) (dimension : ℕ) (centroids : List Value)

/-- The nearest centroids of the rows of a range. -/
def hits (range : RowRange) : List (ℕ × Value) :=
  (List.range' range.start range.length).map fun rowId =>
    kernels.nearest (row vectors dimension rowId) centroids

/-- The rows of a range, in one call of the kernel. -/
def assignContiguousRange (gemm : Bool) (range : RowRange) :
    Except Failure (List ℕ × kernels.wide.Wide) := do
  rejectIf (gemm = true ∧ usizeBound ≤ range.length * (centroids.length / dimension))
    (.invalidArgument "GEMM output size overflows usize")
  let found := hits kernels vectors dimension centroids range
  let inertia ← (found.map Prod.snd).foldlM (addDistance kernels gemm) kernels.wide.zero
  .ok (found.map Prod.fst, inertia)

/-- One block of a range, after those before it. -/
def assignBlock (assigned : List ℕ × kernels.wide.Wide) (block : RowRange) :
    Except Failure (List ℕ × kernels.wide.Wide) := do
  let more ← assignContiguousRange kernels vectors dimension centroids true block
  .ok (assigned.1 ++ more.1, kernels.wide.add assigned.2 more.2)

/-- The part of one worker. -/
def assignTrainingRange (gemm : Bool) (range : RowRange) :
    Except Failure (TrainingPartition kernels.wide.Wide) := do
  let assigned ←
    if gemm then
      (rangesFrom range.stop (gemmPartitionRows (centroids.length / dimension)) range.start).foldlM
        (assignBlock kernels vectors dimension centroids) ([], kernels.wide.zero)
    else assignContiguousRange kernels vectors dimension centroids false range
  .ok ⟨range, assigned.1, assigned.2⟩

end

/-! ## Reduction -/

/-- The sums and counts of a stripe of centroids. -/
structure ClusterSums (Value : Type) where
  range : RowRange
  sums : List Value
  counts : List ℕ

section

variable (vectors : List Value) (dimension : ℕ)

/-- Adds one row to its cluster, if that lies in the stripe. -/
def addRow (stripe : ClusterSums Value) (entry : ℕ × ℕ) : ClusterSums Value :=
  if entry.1 < stripe.range.start ∨ stripe.range.stop ≤ entry.1 then stripe
  else
    let localCluster := entry.1 - stripe.range.start
    { stripe with
      counts := stripe.counts.modify localCluster (· + 1)
      sums := putRow stripe.sums (localCluster * dimension)
        (List.zipWith kernels.float.add (row stripe.sums dimension localCluster)
          (row vectors dimension entry.2)) }

def sumStripe (partitions : List (TrainingPartition kernels.wide.Wide)) (range : RowRange) :
    ClusterSums Value :=
  partitions.foldl (fun stripe partition =>
    (partition.assignmentCells.zipIdx partition.range.start).foldl
      (addRow kernels vectors dimension) stripe)
    ⟨range, List.replicate (range.length * dimension) kernels.float.zero,
      List.replicate range.length 0⟩

/-- Copies the sums of a stripe to their place. -/
def mergeStripe {Wide : Type} (merged : BatchSums Value Wide) (stripe : ClusterSums Value) :
    BatchSums Value Wide :=
  { merged with
    sums := putRow merged.sums (stripe.range.start * dimension) stripe.sums
    counts := putRow merged.counts stripe.range.start stripe.counts }

def reduceTrainingAssignments (context : ParalliteContext) (nClusters : ℕ)
    (partitions : List (TrainingPartition kernels.wide.Wide)) :
    Except Failure (BatchSums Value kernels.wide.Wide) := do
  let clusterPartitions := max (min context.threadCount nClusters) 1
  let clusterRanges := rowRanges nClusters (divCeil nClusters clusterPartitions)
  let partials ← (context.mapCollect clusterRanges fun range =>
    .ok (sumStripe kernels vectors dimension partitions range)).mapError ofParallite
  .ok (partials.foldl (mergeStripe dimension)
    ⟨List.replicate (nClusters * dimension) kernels.float.zero, List.replicate nClusters 0,
      (partitions.map TrainingPartition.inertia).foldl kernels.wide.add kernels.wide.zero⟩)

end

/-! ## Rounds -/

def assignAndSumAll (context : ParalliteContext) (vectors : List Value) (n dimension : ℕ)
    (centroids : List Value) (ranges : List RowRange) :
    Except Failure (BatchSums Value kernels.wide.Wide) := do
  let nClusters := centroids.length / dimension
  rejectIf ((ranges.map RowRange.length).sum ≠ n) .assertion
  let partitions ← (context.mapCollect ranges
    (assignTrainingRange kernels vectors dimension centroids (usesGemm dimension nClusters))).mapError
      ofParallite
  reduceTrainingAssignments kernels vectors dimension context nClusters partitions

/-- Moves the centroid of one cluster to the mean of its rows. -/
def replaceCentroid (dimension : ℕ) (sums : List Value) (moved : Bool × List Value)
    (entry : ℕ × ℕ) : Bool × List Value :=
  if entry.1 = 0 then moved
  else
    let means := (row sums dimension entry.2).map fun sum =>
      kernels.float.div sum (kernels.float.ofCount entry.1)
    (moved.1 || row moved.2 dimension entry.2 != means, putRow moved.2 (entry.2 * dimension) means)

/-- Whether a centroid changed, and the centroids. -/
def replaceCentroidsWithMeans (centroids : List Value) (dimension : ℕ) (sums : List Value)
    (counts : List ℕ) : Bool × List Value :=
  counts.zipIdx.foldl (replaceCentroid kernels dimension sums) (false, centroids)

/-- One round of training: the new centroids, and whether it was the last one. -/
def trainingRound (context : ParalliteContext) (vectors : List Value) (n dimension : ℕ)
    (ranges : List RowRange) (centroids : List Value) : Except Failure (List Value × Bool) := do
  let batch ← assignAndSumAll kernels context vectors n dimension centroids ranges
  let moved := replaceCentroidsWithMeans kernels centroids dimension batch.sums batch.counts
  let hadEmptyCentroid := decide (0 ∈ batch.counts)
  let centroids ←
    if hadEmptyCentroid then
      (splitEmptyCentroids kernels.rounding kernels.draws kernels.factors moved.2 dimension
        batch.counts kernels.splitRng).map Splitting.centroids
    else .ok moved.2
  rejectIf (kernels.wide.finite batch.inertia = false)
    (.invalidArgument "K-means produced non-finite inertia")
  .ok (centroids, !moved.1 && !hadEmptyCentroid)

/-- The loop, with the rounds that are left and those that are done. -/
def trainingLoop (context : ParalliteContext) (vectors : List Value) (n dimension : ℕ)
    (ranges : List RowRange) : ℕ → ℕ → List Value → Except Failure (KMeansModel Value)
  | 0, iterations, centroids => .ok ⟨centroids, none, iterations⟩
  | remaining + 1, iterations, centroids => do
      let round ← trainingRound kernels context vectors n dimension ranges centroids
      if round.2 then .ok ⟨round.1, none, iterations + 1⟩
      else trainingLoop context vectors n dimension ranges remaining (iterations + 1) round.1

/-- `fit_flat_kmeans_from_centroids_with_progress`. -/
def fitFlatKmeansFromCentroids (context : ParalliteContext) (vectors : List Value)
    (dimension n : ℕ) (options : KMeansOptions) (centroids : List Value) :
    Except Failure (KMeansModel Value) := do
  rejectIf (centroids.length ≠ options.nClusters * dimension) .assertion
  let ranges := rowRanges n (divCeil n (trainingPartitionCount n context.threadCount))
  trainingLoop kernels context vectors n dimension ranges options.maxIter 0 centroids

/-! ## Assignment without training -/

def validateAssignmentInputs (vectors : List Value) (dimension : ℕ) (centroids : List Value) :
    Except Failure ℕ := do
  rejectIf (dimension = 0 ∨ vectors = [] ∨ vectors.length % dimension ≠ 0 ∨ centroids = [] ∨
      centroids.length % dimension ≠ 0)
    (.invalidArgument "vectors and centroids must be non-empty matrices with the same dimension")
  rejectIf (∃ value ∈ vectors ++ centroids, kernels.float.isFinite value = false)
    (.invalidArgument "vectors and centroids must contain only finite values")
  .ok (vectors.length / dimension)

/-- The ranges that rows are assigned in. -/
def assignmentRanges (n dimension nClusters : ℕ) : List RowRange :=
  rowRanges n (if usesGemm dimension nClusters then gemmPartitionRows nClusters
    else partitionRowLimit)

/-- `assign_to_centroids`, without the inertia that nobody asks for. -/
def assignToCentroids (context : ParalliteContext) (vectors : List Value) (dimension : ℕ)
    (centroids : List Value) : Except Failure (List ℕ) := do
  let n ← validateAssignmentInputs kernels vectors dimension centroids
  let nClusters := centroids.length / dimension
  let partials ← (context.mapCollect (assignmentRanges n dimension nClusters)
    (assignContiguousRange kernels vectors dimension centroids
      (usesGemm dimension nClusters))).mapError ofParallite
  .ok (partials.flatMap Prod.fst)

def assignBatchToCentroids (vectors : List Value) (dimension : ℕ) (centroids : List Value) :
    Except Failure (List ℕ) := do
  let n ← validateAssignmentInputs kernels vectors dimension centroids
  let nClusters := centroids.length / dimension
  let partials ← (assignmentRanges n dimension nClusters).mapM
    (assignContiguousRange kernels vectors dimension centroids (usesGemm dimension nClusters))
  .ok (partials.flatMap Prod.fst)

end

end ParqDB.Kmeans
