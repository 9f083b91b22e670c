import ParqDB.Ivf.Buckets
import ParqDB.Kmeans.RootRecovery
import ParqDB.Kmeans.Training

/-!
# Hierarchical training

The k-means crate trains the roots of a two-level index first, groups the training rows by them, and
trains the leaves of each root on its rows.  If a root stays without rows, it trains all leaves at
once, and sorts them by the root that is nearest to them.

**What is a parameter.**  The inner k-means: a flat training from given centroids, and the
assignment of rows to centroids.  `FlatKmeans` says what it keeps to; it may fail.
-/

namespace ParqDB.Kmeans

open Foundations

/-! ## The inner k-means -/

/-- What a flat training is called with. -/
structure Admits {Value : Type} (vectors : List Value) (dimension n nClusters : ℕ) : Prop where
  dimension_pos : 0 < dimension
  shape : vectors.length = n * dimension
  slice : 4 * vectors.length < 2 ^ 63
  clusters : nClusters ≤ n

/-- A flat training and an assignment of rows, whatever they compute. -/
structure FlatKmeans (Value : Type) where
  fitFrom : List Value → ℕ → ℕ → KMeansOptions → List Value → Except Failure (KMeansModel Value)
  assign : List Value → ℕ → List Value → Except Failure (List ℕ)
  assignBatch : List Value → ℕ → List Value → Except Failure (List ℕ)
  /-- The allocator's answer. -/
  reserve : ℕ → Except Failure Unit
  length_fitFrom : ∀ vectors dimension n options centroids model,
    Admits vectors dimension n options.nClusters →
    centroids.length = options.nClusters * dimension →
    fitFrom vectors dimension n options centroids = .ok model →
      model.centroids.length = options.nClusters * dimension
  assign_labels : ∀ vectors dimension n nClusters centroids labels,
    Admits vectors dimension n nClusters → 0 < nClusters →
    centroids.length = nClusters * dimension →
    assign vectors dimension centroids = .ok labels →
      labels.length = n ∧ ∀ label ∈ labels, label < nClusters
  assignBatch_labels : ∀ vectors dimension n nClusters centroids labels,
    Admits vectors dimension n nClusters → 0 < nClusters →
    centroids.length = nClusters * dimension →
    assignBatch vectors dimension centroids = .ok labels →
      labels.length = n ∧ ∀ label ∈ labels, label < nClusters

namespace FlatKmeans

variable {Value : Type} (kmeans : FlatKmeans Value)

/-- A failure of one of the inner calls. -/
inductive Fails (failure : Failure) : Prop
  | fitFrom (vectors : List Value) (dimension n : ℕ) (options : KMeansOptions)
      (centroids : List Value) :
      kmeans.fitFrom vectors dimension n options centroids = .error failure → Fails failure
  | assign (vectors : List Value) (dimension : ℕ) (centroids : List Value) :
      kmeans.assign vectors dimension centroids = .error failure → Fails failure
  | assignBatch (vectors : List Value) (dimension : ℕ) (centroids : List Value) :
      kmeans.assignBatch vectors dimension centroids = .error failure → Fails failure
  | reserve (values : ℕ) : kmeans.reserve values = .error failure → Fails failure

/-- `fit_flat_kmeans_with_progress`. -/
def fitFlat (vectors : List Value) (dimension n : ℕ) (options : KMeansOptions) :
    Except Failure (KMeansModel Value) := do
  let centroids ←
    initCentroidsRandom vectors n dimension options.nClusters (SmallRng.new options.seed)
  kmeans.fitFrom vectors dimension n options centroids

end FlatKmeans

/-! ## Offsets -/

/-- The offsets that the scan over the child counts yields. -/
def startOffsets : ℕ → List ℕ → List ℕ
  | _, [] => []
  | offset, count :: rest => offset :: startOffsets (offset + count) rest

def cidOffsets (childCounts : List ℕ) (total : ℕ) : List ℕ := startOffsets 0 childCounts ++ [total]

/-! ## Training -/

section

variable {Value Distance : Type} [LinearOrder Distance] (kmeans : FlatKmeans Value)
  (float : FloatArithmetic Value) (distance : List Value → List Value → Distance)

section

variable (dimension : ℕ)

/-- The order of the leaves: by their roots, and by their own ids. -/
def LeafBefore (rootLabels : List ℕ) (left right : ℕ) : Prop :=
  rootLabels.getD left 0 < rootLabels.getD right 0 ∨
    rootLabels.getD left 0 = rootLabels.getD right 0 ∧ left ≤ right

instance (rootLabels : List ℕ) (left right : ℕ) : Decidable (LeafBefore rootLabels left right) :=
  inferInstanceAs (Decidable (_ ∨ _ ∧ _))

/-- The mean of the leaves of a root. -/
def rootMean (reordered : List Value) (range : ℕ × ℕ) : List Value :=
  let inverse := float.div float.one (float.ofCount (range.2 - range.1))
  ((List.range' range.1 (range.2 - range.1)).foldl
    (fun sum leaf => List.zipWith float.add sum (row reordered dimension leaf))
    (List.replicate dimension float.zero)).map fun value => float.mul value inverse

/-- The leaves in a new order, the root centroids, and the offsets. -/
def fakeHierarchyFromFlatCentroids (centroids anchors : List Value) (childCounts : List ℕ) :
    Except Failure (List Value × List Value × List ℕ) := do
  let nlist := childCounts.sum
  let rootCount := childCounts.length
  rejectIf (centroids.length ≠ min (nlist * dimension) (usizeBound - 1) ∨
      anchors.length ≠ min (rootCount * dimension) (usizeBound - 1))
    (.invalidArgument "flat fallback centroids do not match the hierarchical shape")
  let rootLabels ← kmeans.assignBatch centroids dimension anchors
  rejectIf (rootLabels.length < nlist) .indexOutOfBounds
  let ordering := (List.range nlist).insertionSort (LeafBefore rootLabels)
  let reordered := gather centroids dimension ordering
  let offsets := cidOffsets childCounts nlist
  .ok (reordered, (windows offsets).flatMap (rootMean float dimension reordered), offsets)

def finishFlatHierarchyFallback (flat rootModel : KMeansModel Value) (childCounts : List ℕ)
    (fallback : KMeansHierarchyFallback) : Except Failure (KMeansModel Value) := do
  let fake ← fakeHierarchyFromFlatCentroids kmeans float dimension flat.centroids
    rootModel.centroids childCounts
  .ok ⟨fake.1, some ⟨fake.2.1, fake.2.2, some fallback⟩, max flat.iterations rootModel.iterations⟩

end

section

variable (vectors : List Value) (dimension n : ℕ) (options : KMeansOptions)

def fitRootKmeans (rootCount : ℕ) : Except Failure (KMeansModel Value) := do
  rejectIf (usizeBound ≤ rootCount * 512)
    (.invalidArgument "root training sample size overflows usize")
  let rootSampleRows := min n (rootCount * 512)
  let sample ← sampleTrainingRows float.isFinite vectors dimension rootSampleRows options.seed
  kmeans.fitFlat sample dimension rootSampleRows
    { options with nClusters := rootCount, mode := .flat }

structure RootPartitioning (Value : Type) where
  model : KMeansModel Value
  partition : RowPartition

/-- The first root with too few rows. -/
def deficientRootPartition (offsets childCounts : List ℕ) : Option KMeansHierarchyFallback :=
  childCounts.zipIdx.findSome? fun entry =>
    if rows offsets entry.2 < entry.1 then some ⟨entry.2, rows offsets entry.2, entry.1⟩ else none

/-- The loop of `fit_root_partitioning`, with the recoveries that are left. -/
def recoverRoots (rootCount : ℕ) (childCounts : List ℕ) :
    ℕ → KMeansModel Value → Except Failure (RootPartitioning Value)
  | recoveries, model => do
      let labels ← kmeans.assign vectors dimension model.centroids
      let partition ← partitionRows labels rootCount
      match recoveries with
      | 0 => .ok ⟨model, partition⟩
      | recoveries + 1 =>
          if (deficientRootPartition partition.offsets childCounts).isNone then
            .ok ⟨model, partition⟩
          else do
            let reseeded ← reseedDeficientRoots distance vectors dimension partition childCounts
              model.centroids
            let recovered ← kmeans.fitFrom vectors dimension n
              { options with nClusters := rootCount, maxIter := 5, mode := .flat } reseeded.centroids
            recoverRoots rootCount childCounts recoveries recovered

def fitRootPartitioning (rootCount : ℕ) (childCounts : List ℕ) :
    Except Failure (RootPartitioning Value) := do
  let model ← fitRootKmeans kmeans float vectors dimension n options rootCount
  recoverRoots kmeans distance vectors dimension n options rootCount childCounts 3 model

/-- The leaves that have been trained. -/
structure LeafTraining (Value : Type) where
  centroids : List Value
  iterations : ℕ

/-- Trains the leaves of one root. -/
def trainLeaves (partition : RowPartition) (leaves : LeafTraining Value) (entry : ℕ × ℕ) :
    Except Failure (LeafTraining Value) := do
  let rowIds := partition.rowsOf entry.2
  rejectIf (rowIds.length < entry.1) .assertion
  rejectIf (usizeBound ≤ rowIds.length * dimension)
    (.invalidArgument "child training shape overflows usize")
  kmeans.reserve (rowIds.length * dimension)
  let model ← kmeans.fitFlat (gather vectors dimension rowIds) dimension rowIds.length
    { options with
      nClusters := entry.1
      seed := options.seed + UInt64.ofNat entry.2 + 1
      mode := .flat }
  .ok ⟨leaves.centroids ++ model.centroids, max leaves.iterations model.iterations⟩

/-- What follows if every root has a row. -/
def fitLeaves (partitioning : RootPartitioning Value) : Except Failure (KMeansModel Value) := do
  let childCounts ← proportionalChildCounts partitioning.partition.offsets options.nClusters
  rejectIf (usizeBound ≤ options.nClusters * dimension)
    (.invalidArgument "centroid shape overflows usize")
  let leaves ← childCounts.zipIdx.foldlM
    (trainLeaves kmeans vectors dimension options partitioning.partition)
    ⟨[], partitioning.model.iterations⟩
  rejectIf (leaves.centroids.length ≠ options.nClusters * dimension) .assertion
  .ok ⟨leaves.centroids,
    some ⟨partitioning.model.centroids, cidOffsets childCounts options.nClusters, none⟩,
    leaves.iterations⟩

/-- `fit_hierarchical_kmeans_with_progress`. -/
def fitHierarchicalKmeans : Except Failure (KMeansModel Value) := do
  let shape ← hierarchicalShape options.nClusters
  let minimumChildCounts := List.replicate shape.1 1
  let partitioning ← fitRootPartitioning kmeans float distance vectors dimension n options shape.1
    minimumChildCounts
  match deficientRootPartition partitioning.partition.offsets minimumChildCounts with
  | some fallback => do
      let flat ← kmeans.fitFlat vectors dimension n { options with mode := .flat }
      finishFlatHierarchyFallback kmeans float dimension flat partitioning.model shape.2 fallback
  | none => fitLeaves kmeans vectors dimension options partitioning

end

def validateInputs (vectors : List Value) (dimension : ℕ) (options : KMeansOptions) :
    Except Failure ℕ := do
  rejectIf (dimension = 0) (.invalidArgument "K-means dimension must be positive")
  rejectIf (options.nClusters = 0) (.invalidArgument "nlist must be positive")
  rejectIf (options.maxIter = 0) (.invalidArgument "K-means max_iter must be positive")
  rejectIf (vectors = [] ∨ vectors.length % dimension ≠ 0)
    (.invalidArgument "K-means vectors must have shape (n, dimension) with n > 0")
  rejectIf (∃ value ∈ vectors, float.isFinite value = false)
    (.invalidArgument "K-means vectors must contain only finite values")
  .ok (vectors.length / dimension)

/-- Trains row-major dense vectors. -/
def fitLloydKmeans (vectors : List Value) (dimension : ℕ) (options : KMeansOptions) :
    Except Failure (KMeansModel Value) := do
  let n ← validateInputs float vectors dimension options
  let nlist := options.nClusters
  rejectIf (n < nlist) (.invalidArgument
    s!"number of training vectors ({n}) must be at least nlist ({nlist})")
  if n = nlist ∧ options.mode = .flat then .ok ⟨vectors, none, 0⟩
  else
    match options.mode with
    | .flat => kmeans.fitFlat vectors dimension n options
    | .hierarchical => fitHierarchicalKmeans kmeans float distance vectors dimension n options

end

/-! ## Offsets of the leaves -/

section

variable {childCounts : List ℕ}

theorem mem_startOffsets {offset start : ℕ} (hmem : offset ∈ startOffsets start childCounts) :
    start ≤ offset ∧ offset ≤ start + childCounts.sum := by
  induction childCounts generalizing start with
  | nil => cases hmem
  | cons count rest ih =>
      rw [List.sum_cons]
      rcases List.mem_cons.mp hmem with rfl | hrest
      · omega
      · have hlater := ih hrest
        omega

theorem startOffsets_increasing (start : ℕ) (hcounts : ∀ count ∈ childCounts, 0 < count) :
    (startOffsets start childCounts ++ [start + childCounts.sum]).Pairwise (· < ·) := by
  induction childCounts generalizing start with
  | nil => simp [startOffsets]
  | cons count rest ih =>
      rw [List.forall_mem_cons] at hcounts
      have hrest := ih (start + count) hcounts.2
      rw [Nat.add_assoc, ← List.sum_cons] at hrest
      refine List.pairwise_cons.mpr ⟨fun offset hoffset => ?_, hrest⟩
      rcases List.mem_append.mp hoffset with hinside | hend
      · have hlater := mem_startOffsets hinside
        omega
      · rw [List.mem_singleton.mp hend, List.sum_cons]
        omega

theorem length_startOffsets (start : ℕ) (childCounts : List ℕ) :
    (startOffsets start childCounts).length = childCounts.length := by
  induction childCounts generalizing start with
  | nil => rfl
  | cons count rest ih => rw [startOffsets, List.length_cons, List.length_cons, ih]

/-- The offsets of positive child counts cut the leaves into buckets. -/
theorem hierarchy_cidOffsets {total : ℕ} (hcounts : ∀ count ∈ childCounts, 0 < count)
    (hsum : childCounts.sum = total) (htotal : 0 < total) :
    Ivf.Hierarchy (cidOffsets childCounts total) total := by
  have hincreasing := startOffsets_increasing 0 hcounts
  rw [Nat.zero_add, hsum] at hincreasing
  refine ⟨?_, List.getLast?_concat .., hincreasing, htotal⟩
  cases childCounts with
  | nil =>
      rw [List.sum_nil] at hsum
      omega
  | cons count rest => rfl

theorem length_cidOffsets (childCounts : List ℕ) (total : ℕ) :
    (cidOffsets childCounts total).length = childCounts.length + 1 := by
  rw [cidOffsets, List.length_append, length_startOffsets, List.length_singleton]

/-- Every leaf belongs to one root. -/
theorem covers_one {offsets : List ℕ} {nlist : ℕ} (hhierarchy : Ivf.Hierarchy offsets nlist)
    {cid : ℕ} (hcid : cid < nlist) : ∃! root, Ivf.Covers offsets root cid := by
  obtain ⟨root, -, hcovers⟩ := hhierarchy.covers_cidBuckets hcid
  exact ⟨root, hcovers, fun other hother => hhierarchy.covers_unique hother hcovers⟩

end

/-! ## The grouping of the rows -/

section

variable {labels : List ℕ} {rootCount : ℕ} {partition : RowPartition}

theorem rows_rowOffsets (hgroups : Groups labels rootCount partition) {root : ℕ}
    (hroot : root < rootCount) : rows partition.offsets root = labels.count root := by
  rw [rows, hgroups.offsets, getD_rowOffsets (by omega), getD_rowOffsets (by omega),
    rowsBefore_succ, Nat.add_sub_cancel_left]

theorem deficient_none_iff {offsets childCounts : List ℕ} :
    deficientRootPartition offsets childCounts = none ↔
      ∀ entry ∈ childCounts.zipIdx, entry.1 ≤ rows offsets entry.2 := by
  unfold deficientRootPartition
  rw [List.findSome?_eq_none_iff]
  refine forall₂_congr fun entry _ => ?_
  split
  · next hfew => exact iff_of_false (fun hnone => by cases hnone) (by omega)
  · next henough => exact iff_of_true rfl (by omega)

/-- A grouping without empty roots. -/
theorem partitions_of_groups (hgroups : Groups labels rootCount partition)
    (hroots : 0 < rootCount) (hword : labels.length < usizeBound)
    (hnone : deficientRootPartition partition.offsets (List.replicate rootCount 1) = none) :
    Partitions partition.offsets := by
  have hcounts : ∀ root < rootCount, 0 < labels.count root := by
    intro root hroot
    rw [← rows_rowOffsets hgroups hroot]
    refine deficient_none_iff.mp hnone (1, root) ?_
    rw [List.mem_zipIdx_iff_getElem?]
    exact List.getElem?_replicate_of_lt hroot
  have hbefore (root : ℕ) (hroot : root < rootCount) :
      rowsBefore labels root < rowsBefore labels (root + 1) := by
    have hcount := hcounts root hroot
    rw [rowsBefore_succ]
    omega
  rw [hgroups.offsets]
  refine ⟨?_, ?_, ?_, fun offset hoffset => ?_⟩
  · unfold rowOffsets
    rw [List.head?_map, List.head?_range, if_neg (by omega)]
    simp [rowsBefore]
  · unfold rowOffsets
    rw [List.pairwise_map]
    refine List.pairwise_lt_range.imp_of_mem fun {first second} hfirst hsecond hlt => ?_
    have hend := List.mem_range.mp hsecond
    calc rowsBefore labels first < rowsBefore labels (first + 1) := hbefore first (by omega)
      _ ≤ rowsBefore labels second := rowsBefore_mono labels hlt
  · rw [Kmeans.rootCount, rowOffsets, List.length_map, List.length_range]
    omega
  · obtain ⟨root, -, rfl⟩ := List.mem_map.mp hoffset
    exact (rowsBefore_le_length labels root).trans_lt hword

end

end ParqDB.Kmeans
