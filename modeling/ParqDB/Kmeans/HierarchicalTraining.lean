import ParqDB.Kmeans.Hierarchies
import ParqDB.Kmeans.ThreadCounts

/-!
# Trained hierarchies are well formed

Whatever the inner k-means computes, hierarchical training fails only if one of its calls does.

**Strategy.**  One spec for each function of the training, in terms of `Ends`.  If no root is
deficient, the offsets of the grouped rows are partitions, so that the leaves can be shared among
them; and the leaves of a root are never more than its rows, so that they can be trained.

**Results.**  `training_wellFormed`, for any inner k-means; `lloyd` is the one of the crate.
-/

namespace ParqDB.Kmeans

open Foundations

section

variable {Value Distance : Type} [LinearOrder Distance] {kmeans : FlatKmeans Value}
  {float : FloatArithmetic Value} {distance : List Value → List Value → Distance}
  {vectors : List Value} {dimension n : ℕ} {options : KMeansOptions}

/-! ## Flat trainings -/

variable {nClusters rootCount : ℕ} {partition : RowPartition}

theorem Admits.le_length (hadmits : Admits vectors dimension n nClusters) : n ≤ vectors.length := by
  rw [hadmits.shape]
  exact Nat.le_mul_of_pos_right n hadmits.dimension_pos

/-- Rows of a matrix can be trained on. -/
theorem Admits.gather (hadmits : Admits vectors dimension n nClusters) {rowIds : List ℕ}
    (hrows : ∀ rowId ∈ rowIds, rowId < n) (hcount : rowIds.length ≤ n) {leaves : ℕ}
    (hleaves : leaves ≤ rowIds.length) :
    Admits (Kmeans.gather vectors dimension rowIds) dimension rowIds.length leaves := by
  have hlength : (Kmeans.gather vectors dimension rowIds).length = rowIds.length * dimension := by
    apply length_gather
    rw [hadmits.shape, Nat.mul_div_cancel _ hadmits.dimension_pos]
    exact hrows
  refine ⟨hadmits.dimension_pos, hlength, ?_, hleaves⟩
  have hle : rowIds.length * dimension ≤ n * dimension := Nat.mul_le_mul_right _ hcount
  have hslice := hadmits.slice
  rw [hadmits.shape] at hslice
  omega

theorem fitFlat_ends (hadmits : Admits vectors dimension n options.nClusters) :
    Ends kmeans.Fails (kmeans.fitFlat vectors dimension n options) fun model =>
      model.centroids.length = options.nClusters * dimension := by
  obtain ⟨centroids, hcentroids, hlength⟩ := exists_initCentroids hadmits.dimension_pos hadmits.shape
    hadmits.clusters (SmallRng.new options.seed)
  unfold FlatKmeans.fitFlat
  rw [hcentroids, ok_bind]
  apply Ends.intro
  · intro model hmodel
    exact kmeans.length_fitFrom _ _ _ _ _ model hadmits hlength hmodel
  · intro failure hfailure
    exact .fitFrom _ _ _ _ _ hfailure

theorem fitRootKmeans_ends (hadmits : Admits vectors dimension n rootCount) (hroots : 0 < rootCount)
    (hword : rootCount * 512 < usizeBound)
    (hfinite : ∀ value ∈ vectors, float.isFinite value = true) :
    Ends kmeans.Fails (fitRootKmeans kmeans float vectors dimension n options rootCount)
      fun model => model.centroids.length = rootCount * dimension := by
  have hclusters := hadmits.clusters
  obtain ⟨sample, hsample, hlength⟩ := exists_sampleTrainingRows hadmits.dimension_pos hadmits.shape
    (by omega) hfinite (Nat.lt_min.mpr (by omega) : 0 < min n (rootCount * 512)) options.seed
  rw [Nat.min_assoc, Nat.min_comm _ n, ← Nat.min_assoc, Nat.min_self] at hlength
  unfold fitRootKmeans
  apply Ends.rejectIf (by omega)
  dsimp only
  rw [hsample, ok_bind]
  have hsampled : Admits sample dimension (min n (rootCount * 512)) rootCount := by
    have hle : min n (rootCount * 512) * dimension ≤ n * dimension :=
      Nat.mul_le_mul_right _ (Nat.min_le_left _ _)
    have hslice := hadmits.slice
    rw [hadmits.shape] at hslice
    exact ⟨hadmits.dimension_pos, hlength, by omega, Nat.le_min.mpr ⟨hclusters, by omega⟩⟩
  exact @fitFlat_ends _ kmeans _ _ _ { options with nClusters := rootCount, mode := .flat } hsampled

/-! ## Root partitions -/

/-- The roots and the rows that belong to them. -/
structure Rooted (dimension n rootCount : ℕ) (partitioning : RootPartitioning Value) : Prop where
  centroids : partitioning.model.centroids.length = rootCount * dimension
  groups : ∃ labels, labels.length = n ∧ Groups labels rootCount partitioning.partition

/-- A root that has a row is no deficient one, so that there is a donor. -/
theorem exists_donor {labels : List ℕ} (hgroups : Groups labels rootCount partition)
    (hlabels : 0 < labels.length) :
    ∃ donor ∈ donorRoots (deficientRoots (rowCounts partition) (List.replicate rootCount 1))
      rootCount, 0 < labels.count donor := by
  obtain ⟨label, hlabel⟩ := List.exists_mem_of_length_pos hlabels
  have hinside := hgroups.labelled label hlabel
  have hcount : 0 < labels.count label := List.count_pos_iff.mpr hlabel
  refine ⟨label, mem_donorRoots.mpr ⟨hinside, ?_⟩, hcount⟩
  have hrows := getD_rowCounts hgroups hinside
  have hsize := length_rowCounts hgroups
  rw [List.getD_eq_getElem _ _ (by omega)] at hrows
  unfold isDeficient deficientRoots
  rw [List.getD_eq_getElem _ _ (by simp [hsize, hinside]), List.getElem_zipWith,
    List.getElem_replicate, hrows]
  exact decide_eq_false (by omega)

theorem recoverRoots_ends (hadmits : Admits vectors dimension n rootCount) (hroots : 0 < rootCount)
    (recoveries : ℕ) {model : KMeansModel Value}
    (hmodel : model.centroids.length = rootCount * dimension) :
    Ends kmeans.Fails (recoverRoots kmeans distance vectors dimension n options rootCount
      (List.replicate rootCount 1) recoveries model) (Rooted dimension n rootCount) := by
  have hclusters := hadmits.clusters
  induction recoveries generalizing model with
  | zero =>
      unfold recoverRoots
      refine Ends.bind (Ends.intro (fun labels hlabels => hlabels) fun failure hfailure =>
        .assign _ _ _ hfailure) fun labels hlabels => ?_
      obtain ⟨hcount, hinside⟩ :=
        kmeans.assign_labels _ _ _ _ _ labels hadmits hroots hmodel hlabels
      obtain ⟨partition, hpartition⟩ := exists_partitionRows hinside
      rw [hpartition, ok_bind]
      exact ⟨hmodel, labels, hcount, partitionRows_eq_ok hpartition⟩
  | succ recoveries ih =>
      unfold recoverRoots
      refine Ends.bind (Ends.intro (fun labels hlabels => hlabels) fun failure hfailure =>
        .assign _ _ _ hfailure) fun labels hlabels => ?_
      obtain ⟨hcount, hinside⟩ :=
        kmeans.assign_labels _ _ _ _ _ labels hadmits hroots hmodel hlabels
      obtain ⟨partition, hpartition⟩ := exists_partitionRows hinside
      have hgroups := partitionRows_eq_ok hpartition
      rw [hpartition, ok_bind]
      dsimp only
      split
      · exact ⟨hmodel, labels, hcount, hgroups⟩
      · obtain ⟨-, reseeded, hreseeded, hshape, -⟩ := @exists_reseeded _ _ _ distance _ _ _
          (List.replicate rootCount 1) _ _ _ hadmits.dimension_pos hgroups
          (by rw [hadmits.shape, hcount]) hmodel (List.length_replicate ..)
          (exists_donor hgroups (by omega))
        rw [hreseeded, ok_bind]
        refine Ends.bind (Ends.intro (fun recovered hrecovered => hrecovered) fun failure hfailure =>
          .fitFrom _ _ _ _ _ hfailure) fun recovered hrecovered => ?_
        exact ih (kmeans.length_fitFrom vectors dimension n
          { options with nClusters := rootCount, maxIter := 5, mode := .flat } _ recovered hadmits
          (by rw [hshape, hmodel]) hrecovered)

/-! ## Leaves -/

theorem trainLeaves_ends (hadmits : Admits vectors dimension n nClusters)
    {leaves : LeafTraining Value} {entry : ℕ × ℕ}
    (hrows : ∀ rowId ∈ partition.rowsOf entry.2, rowId < n)
    (hcount : (partition.rowsOf entry.2).length ≤ n)
    (henough : entry.1 ≤ (partition.rowsOf entry.2).length) :
    Ends kmeans.Fails (trainLeaves kmeans vectors dimension options partition leaves entry)
      fun trained => trained.centroids.length = leaves.centroids.length + entry.1 * dimension := by
  have hslice := hadmits.slice
  rw [hadmits.shape] at hslice
  have hword : 2 ^ 61 < usizeBound := by decide
  have hvalues : (partition.rowsOf entry.2).length * dimension ≤ n * dimension :=
    Nat.mul_le_mul_right _ hcount
  unfold trainLeaves
  apply Ends.rejectIf (by omega)
  apply Ends.rejectIf (by omega)
  refine Ends.bind (Ends.intro (fun reserved hreserved => hreserved) fun failure hfailure =>
    .reserve _ hfailure) fun _ _ => ?_
  refine Ends.bind (@fitFlat_ends _ kmeans _ _ _ { options with
    nClusters := entry.1
    seed := options.seed + UInt64.ofNat entry.2 + 1
    mode := .flat } (hadmits.gather hrows hcount henough)) fun model hmodel => ?_
  change (leaves.centroids ++ model.centroids).length = _
  rw [List.length_append, hmodel]

variable {childCounts : List ℕ}

/-- The leaves of the roots that are left. -/
theorem foldlM_trainLeaves (hadmits : Admits vectors dimension n nClusters) {root : ℕ}
    {leaves : LeafTraining Value} (hrows : ∀ entry ∈ childCounts.zipIdx root,
      (∀ rowId ∈ partition.rowsOf entry.2, rowId < n) ∧ (partition.rowsOf entry.2).length ≤ n ∧
        entry.1 ≤ (partition.rowsOf entry.2).length) :
    Ends kmeans.Fails ((childCounts.zipIdx root).foldlM
        (trainLeaves kmeans vectors dimension options partition) leaves) fun trained =>
      trained.centroids.length = leaves.centroids.length + childCounts.sum * dimension := by
  induction childCounts generalizing root leaves with
  | nil =>
      change leaves.centroids.length = _
      rw [List.sum_nil, Nat.zero_mul, Nat.add_zero]
  | cons count rest ih =>
      rw [List.zipIdx_cons, List.forall_mem_cons] at hrows
      rw [List.zipIdx_cons, List.foldlM_cons]
      refine Ends.bind (trainLeaves_ends hadmits hrows.1.1 hrows.1.2.1 hrows.1.2.2)
        fun trained htrained => ?_
      refine (ih hrows.2).mono fun result hresult => ?_
      rw [hresult, htrained, List.sum_cons, Nat.add_mul, Nat.add_assoc]

/-! ## Both paths -/

/-- What a trained hierarchy looks like. -/
structure WellFormed (kmeans : FlatKmeans Value) (vectors : List Value) (dimension n : ℕ)
    (options : KMeansOptions) (rootCount : ℕ) (model : KMeansModel Value)
    (hierarchy : KMeansHierarchy Value) : Prop where
  attached : model.hierarchy = some hierarchy
  roots : hierarchy.cidOffsets.length = rootCount + 1
  offsets : Ivf.Hierarchy hierarchy.cidOffsets options.nClusters
  leaves : ∀ cid < options.nClusters, ∃! root, Ivf.Covers hierarchy.cidOffsets root cid
  centroids : model.centroids.length = options.nClusters * dimension
  fallback : hierarchy.fallback.isSome = true →
    ∃ flat, kmeans.fitFlat vectors dimension n { options with mode := .flat } = .ok flat ∧
      (rowsOf dimension model.centroids).Perm (rowsOf dimension flat.centroids)

theorem fitLeaves_ends (hadmits : Admits vectors dimension n options.nClusters)
    (hroots : 0 < rootCount) (hfew : rootCount ≤ options.nClusters)
    {partitioning : RootPartitioning Value} (hrooted : Rooted dimension n rootCount partitioning)
    (hnone : deficientRootPartition partitioning.partition.offsets (List.replicate rootCount 1) =
      none) :
    Ends kmeans.Fails (fitLeaves kmeans vectors dimension options partitioning) fun model =>
      ∃ hierarchy, WellFormed kmeans vectors dimension n options rootCount model hierarchy := by
  obtain ⟨hcentroids, labels, hlabels, hgroups⟩ := hrooted
  have hslice := hadmits.slice
  have hword : 2 ^ 61 < usizeBound := by decide
  have hrows := hadmits.le_length
  have hpartitions := partitions_of_groups hgroups hroots (by omega) hnone
  have hcount : Kmeans.rootCount partitioning.partition.offsets = rootCount := by
    rw [Kmeans.rootCount, hgroups.offsets, rowOffsets, List.length_map, List.length_range,
      Nat.add_sub_cancel]
  have htotal : totalRows partitioning.partition.offsets = n := by
    rw [totalRows_eq, hcount, hgroups.offsets, getD_rowOffsets le_rfl,
      rowsBefore_all hgroups.labelled, hlabels]
  have hspread : Kmeans.rootCount partitioning.partition.offsets ≤ options.nClusters := by
    rw [hcount]
    exact hfew
  have hrowsLeft : options.nClusters ≤ totalRows partitioning.partition.offsets := by
    rw [htotal]
    exact hadmits.clusters
  have hchildCounts := proportionalChildCounts_eq hpartitions hspread hrowsLeft
  have hlargest := largestRemainder_allocation hpartitions hspread hrowsLeft
  generalize allocation partitioning.partition.offsets options.nClusters = childCounts at *
  have hchildren : ∀ entry ∈ childCounts.zipIdx,
      (∀ rowId ∈ partitioning.partition.rowsOf entry.2, rowId < n) ∧
        (partitioning.partition.rowsOf entry.2).length ≤ n ∧
        entry.1 ≤ (partitioning.partition.rowsOf entry.2).length := by
    intro entry hentry
    obtain ⟨hinside, hvalue⟩ :=
      List.getElem?_eq_some_iff.mp (List.mem_zipIdx_iff_getElem?.mp hentry)
    have hroot : entry.2 < rootCount := by
      rw [hlargest.length, hcount] at hinside
      exact hinside
    have hmost := hlargest.most entry.2 (by rw [hcount]; exact hroot)
    rw [List.getD_eq_getElem _ _ hinside, hvalue, rows_rowOffsets hgroups hroot] at hmost
    rw [hgroups.rows entry.2 hroot, length_clusterRows]
    refine ⟨fun rowId hrow => ?_, List.count_le_length.trans_eq hlabels, hmost⟩
    obtain ⟨hlt, -⟩ := List.getElem?_eq_some_iff.mp (mem_clusterRows.mp hrow)
    rw [hlabels] at hlt
    exact hlt
  have hpositive : ∀ count ∈ childCounts, 0 < count := by
    intro count hmem
    obtain ⟨root, hroot, rfl⟩ := List.mem_iff_getElem.mp hmem
    have hleast := hlargest.least root (by rw [← hlargest.length]; exact hroot)
    rwa [List.getD_eq_getElem _ _ hroot] at hleast
  have hvalues : options.nClusters * dimension ≤ n * dimension :=
    Nat.mul_le_mul_right _ hadmits.clusters
  rw [hadmits.shape] at hslice
  unfold fitLeaves
  rw [hchildCounts, ok_bind]
  apply Ends.rejectIf (by omega)
  refine Ends.bind (foldlM_trainLeaves hadmits hchildren) fun leaves hleaves => ?_
  rw [List.length_nil, Nat.zero_add, hlargest.sum] at hleaves
  apply Ends.rejectIf (not_not_intro hleaves)
  have hhierarchy := hierarchy_cidOffsets hpositive hlargest.sum (by omega)
  refine ⟨_, rfl, ?_, hhierarchy, fun cid hcid => covers_one hhierarchy hcid, hleaves,
    fun hfallback => by cases hfallback⟩
  rw [length_cidOffsets, hlargest.length, hcount]

/-- The leaves of a flat training, sorted by their roots. -/
theorem fakeHierarchy_ends {centroids anchors : List Value} {nlist : ℕ}
    (hadmits : Admits centroids dimension nlist childCounts.length)
    (hanchors : anchors.length = childCounts.length * dimension) (hsum : childCounts.sum = nlist)
    (hroots : 0 < childCounts.length) (hcounts : ∀ count ∈ childCounts, 0 < count) :
    Ends kmeans.Fails (fakeHierarchyFromFlatCentroids kmeans float dimension centroids anchors
      childCounts) fun fake =>
        Ivf.Hierarchy fake.2.2 nlist ∧ fake.2.2.length = childCounts.length + 1 ∧
          fake.1.length = nlist * dimension ∧
          (rowsOf dimension fake.1).Perm (rowsOf dimension centroids) := by
  have hslice := hadmits.slice
  have hclusters := hadmits.clusters
  have hle : childCounts.length * dimension ≤ nlist * dimension := Nat.mul_le_mul_right _ hclusters
  have hword : 2 ^ 61 < usizeBound := by decide
  rw [hadmits.shape] at hslice
  unfold fakeHierarchyFromFlatCentroids
  dsimp only
  rw [hsum]
  apply Ends.rejectIf
  · rw [not_or, not_not, not_not, hadmits.shape, hanchors]
    omega
  · refine Ends.bind (Ends.intro (fun labels hlabels => hlabels) fun failure hfailure =>
      .assignBatch _ _ _ hfailure) fun labels hlabels => ?_
    obtain ⟨hcount, -⟩ :=
      kmeans.assignBatch_labels _ _ _ _ _ labels hadmits hroots hanchors hlabels
    apply Ends.rejectIf (by omega)
    have hrows : centroids.length / dimension = nlist := by
      rw [hadmits.shape, Nat.mul_div_cancel _ hadmits.dimension_pos]
    have hperm : ((List.range nlist).insertionSort (LeafBefore labels)).Perm
        (List.range (centroids.length / dimension)) := by
      rw [hrows]
      exact List.perm_insertionSort _ _
    refine ⟨hierarchy_cidOffsets hcounts hsum (by omega), length_cidOffsets _ _, ?_,
      rowsOf_gather_perm hadmits.dimension_pos hperm⟩
    rw [length_gather fun rowId hrow => List.mem_range.mp (hperm.mem_iff.mp hrow), hperm.length_eq,
      List.length_range, hrows]

theorem fitHierarchicalKmeans_ends (hadmits : Admits vectors dimension n options.nClusters)
    (hclusters : 0 < options.nClusters) (hfinite : ∀ value ∈ vectors, float.isFinite value = true) :
    Ends kmeans.Fails (fitHierarchicalKmeans kmeans float distance vectors dimension n options)
      fun model => ∃ hierarchy, WellFormed kmeans vectors dimension n options
        (roundSqrt options.nClusters) model hierarchy := by
  have hslice := hadmits.slice
  have hrows := hadmits.le_length
  have hmost := hadmits.clusters
  have hword : 2 ^ 61 < usizeBound ∧ 2 ^ 63 < usizeBound := by decide
  have hroots := roundSqrt_pos hclusters
  have hfew := roundSqrt_le_self options.nClusters
  have hsquare := roundSqrt_mul_self_le options.nClusters
  have hrooted : Admits vectors dimension n (roundSqrt options.nClusters) :=
    ⟨hadmits.dimension_pos, hadmits.shape, hslice, by omega⟩
  have hsample : roundSqrt options.nClusters * 512 < usizeBound := by
    by_contra hlarge
    have hbig : 2 ^ 55 ≤ roundSqrt options.nClusters := by
      have hvalue : usizeBound = 2 ^ 55 * 512 := by decide
      omega
    have hproduct : 2 ^ 55 * roundSqrt options.nClusters ≤
        roundSqrt options.nClusters * roundSqrt options.nClusters := Nat.mul_le_mul_right _ hbig
    omega
  unfold fitHierarchicalKmeans
  rw [hierarchicalShape_eq hclusters (by omega), ok_bind]
  dsimp only
  unfold fitRootPartitioning
  refine Ends.bind (Ends.bind (fitRootKmeans_ends hrooted hroots hsample hfinite)
    fun model hmodel => recoverRoots_ends hrooted hroots 3 hmodel) fun partitioning hpartitioning => ?_
  cases hdeficient : deficientRootPartition partitioning.partition.offsets
      (List.replicate (roundSqrt options.nClusters) 1) with
  | none => exact fitLeaves_ends hadmits hroots hfew hpartitioning hdeficient
  | some fallback =>
      refine Ends.bind (Ends.intro (fun flat hflat => hflat) fun failure hfailure => ?_)
        fun flat hflat => ?_
      · have hends := @fitFlat_ends _ kmeans vectors dimension n { options with mode := .flat } hadmits
        rw [hfailure] at hends
        exact hends
      · have hends := @fitFlat_ends _ kmeans vectors dimension n { options with mode := .flat } hadmits
        rw [hflat] at hends
        have hlength : flat.centroids.length = options.nClusters * dimension := hends
        have hvalues : options.nClusters * dimension ≤ n * dimension :=
          Nat.mul_le_mul_right _ hmost
        have hleaves : Admits flat.centroids dimension options.nClusters
            (evenCounts options.nClusters (roundSqrt options.nClusters)).length := by
          rw [length_evenCounts]
          rw [hadmits.shape] at hslice
          exact ⟨hadmits.dimension_pos, hlength, by omega, hfew⟩
        unfold finishFlatHierarchyFallback
        refine Ends.bind (fakeHierarchy_ends hleaves
          (by rw [length_evenCounts]; exact hpartitioning.centroids) (sum_evenCounts hroots)
          (by rw [length_evenCounts]; exact hroots) (evenCounts_pos hroots hfew))
          fun fake hfake => ?_
        obtain ⟨hhierarchy, hoffsets, hsize, hperm⟩ := hfake
        rw [length_evenCounts] at hoffsets
        exact ⟨_, rfl, hoffsets, hhierarchy, fun cid hcid => covers_one hhierarchy hcid, hsize,
          fun _ => ⟨flat, hflat, hperm⟩⟩

end

/-- What training accepts. -/
structure Accepted {Value : Type} (float : FloatArithmetic Value) (vectors : List Value)
    (dimension : ℕ) (options : KMeansOptions) : Prop where
  dimension_pos : 0 < dimension
  clusters_pos : 0 < options.nClusters
  iterations_pos : 0 < options.maxIter
  aligned : vectors.length % dimension = 0
  finite : ∀ value ∈ vectors, float.isFinite value = true
  enough : options.nClusters ≤ vectors.length / dimension

section

variable {Value : Type} {kernels : FlatKernels Value} {vectors : List Value}
  {dimension n nClusters : ℕ} {centroids : List Value} {context : Parallite.ParalliteContext}

theorem length_of_fitFlatKmeans [DecidableEq Value] {options : KMeansOptions}
    {model : KMeansModel Value} (hadmits : Admits vectors dimension n options.nClusters)
    (hcentroids : centroids.length = options.nClusters * dimension)
    (hfit : fitFlatKmeansFromCentroids kernels context vectors dimension n options centroids =
      .ok model) : model.centroids.length = options.nClusters * dimension := by
  have hslice := hadmits.slice
  have hrows := hadmits.le_length
  have hclusters := hadmits.clusters
  have hword : 2 ^ 61 < usizeBound := by decide
  unfold fitFlatKmeansFromCentroids at hfit
  rw [rejectIf_eq_ok.mpr (not_not_intro hcentroids), ok_bind] at hfit
  exact length_of_trainingLoop hadmits.dimension_pos hadmits.shape (by omega) (by omega) hcentroids
    hfit

variable {gemm : Bool} {labels : List ℕ}

theorem fst_of_assignContiguousRange {range : RowRange} {assigned : List ℕ × kernels.wide.Wide}
    (hassigned : assignContiguousRange kernels vectors dimension centroids gemm range =
      .ok assigned) :
    assigned.1 = (List.range' range.start range.length).map
      (cellOf kernels vectors dimension centroids) := by
  unfold assignContiguousRange at hassigned
  rw [rejectIf_bind_eq_ok] at hassigned
  obtain ⟨-, hassigned⟩ := hassigned
  dsimp only at hassigned
  rw [bind_eq_ok] at hassigned
  obtain ⟨inertia, -, hassigned⟩ := hassigned
  cases hassigned
  exact map_fst_hits range

/-- Assigned ranges have the cells of all rows. -/
theorem flatMap_assigned {rowsPerRange : ℕ} {partials : List (List ℕ × kernels.wide.Wide)}
    (hpartials : (rowRanges n rowsPerRange).mapM
      (assignContiguousRange kernels vectors dimension centroids gemm) = .ok partials) :
    partials.flatMap Prod.fst = cells kernels vectors dimension n centroids := by
  have hmap : partials.map Prod.fst = (rowRanges n rowsPerRange).map fun range =>
      (List.range' range.start range.length).map (cellOf kernels vectors dimension centroids) := by
    have hall := mapM_eq_ok.mp hpartials
    clear hpartials
    generalize rowRanges n rowsPerRange = ranges at hall
    induction hall with
    | nil => rfl
    | cons hassigned _ ih =>
        rw [List.map_cons, List.map_cons, ih, fst_of_assignContiguousRange hassigned]
  calc partials.flatMap Prod.fst
      = (rowRanges n rowsPerRange).flatMap fun range =>
          (List.range' range.start range.length).flatMap fun rowId =>
            [cellOf kernels vectors dimension centroids rowId] := by
        rw [List.flatMap_def, hmap, ← List.flatMap_def]
        exact List.flatMap_congr fun range _ => List.map_eq_flatMap
    _ = (List.range' 0 (n - 0)).flatMap fun rowId =>
          [cellOf kernels vectors dimension centroids rowId] := flatMap_rangesFrom _
    _ = cells kernels vectors dimension n centroids := by
        rw [← List.map_eq_flatMap, Nat.sub_zero, cells, List.range_eq_range']

/-- The nearest centroid of a row is one of the centroids. -/
def FindsCentroids (kernels : FlatKernels Value) : Prop :=
  ∀ vectors dimension centroids rowId, 0 < centroids.length / dimension →
    cellOf kernels vectors dimension centroids rowId < centroids.length / dimension

theorem cells_labels (hfinds : FindsCentroids kernels)
    (hadmits : Admits vectors dimension n nClusters) (hclusters : 0 < nClusters)
    (hcentroids : centroids.length = nClusters * dimension) :
    (cells kernels vectors dimension n centroids).length = n ∧
      ∀ label ∈ cells kernels vectors dimension n centroids, label < nClusters := by
  have hcount : centroids.length / dimension = nClusters := by
    rw [hcentroids, Nat.mul_div_cancel _ hadmits.dimension_pos]
  refine ⟨by rw [cells, List.length_map, List.length_range], fun label hlabel => ?_⟩
  obtain ⟨rowId, -, rfl⟩ := List.mem_map.mp hlabel
  have hinside := hfinds vectors dimension centroids rowId (by rw [hcount]; exact hclusters)
  rwa [hcount] at hinside

section

variable (hadmits : Admits vectors dimension n nClusters)

include hadmits

theorem validated_rows {rowCount : ℕ}
    (hvalidated : validateAssignmentInputs kernels vectors dimension centroids = .ok rowCount) :
    rowCount = n := by
  unfold validateAssignmentInputs at hvalidated
  rw [rejectIf_bind_eq_ok, rejectIf_bind_eq_ok] at hvalidated
  rw [← Except.ok.inj hvalidated.2.2, hadmits.shape, Nat.mul_div_cancel _ hadmits.dimension_pos]

theorem assignToCentroids_eq
    (hassign : assignToCentroids kernels context vectors dimension centroids = .ok labels) :
    labels = cells kernels vectors dimension n centroids := by
  unfold assignToCentroids at hassign
  rw [bind_eq_ok] at hassign
  obtain ⟨rowCount, hvalidated, hassign⟩ := hassign
  obtain rfl := validated_rows hadmits hvalidated
  dsimp only at hassign
  rw [bind_eq_ok] at hassign
  obtain ⟨partials, hpartials, hassign⟩ := hassign
  cases hassign
  cases hcollect : context.mapCollect (assignmentRanges rowCount dimension
      (centroids.length / dimension)) (assignContiguousRange kernels vectors dimension centroids
        (usesGemm dimension (centroids.length / dimension))) with
  | error failure =>
      rw [hcollect] at hpartials
      cases hpartials
  | ok collected =>
      rw [hcollect] at hpartials
      cases hpartials
      exact flatMap_assigned (context.mapM_of_mapCollect hcollect)

theorem assignBatchToCentroids_eq
    (hassign : assignBatchToCentroids kernels vectors dimension centroids = .ok labels) :
    labels = cells kernels vectors dimension n centroids := by
  unfold assignBatchToCentroids at hassign
  rw [bind_eq_ok] at hassign
  obtain ⟨rowCount, hvalidated, hassign⟩ := hassign
  obtain rfl := validated_rows hadmits hvalidated
  dsimp only at hassign
  rw [bind_eq_ok] at hassign
  obtain ⟨partials, hpartials, hassign⟩ := hassign
  cases hassign
  exact flatMap_assigned hpartials

end

/-- Lloyd's algorithm on a context. -/
def lloyd [DecidableEq Value] (kernels : FlatKernels Value) (hfinds : FindsCentroids kernels)
    (context : Parallite.ParalliteContext) (reserve : ℕ → Except Failure Unit) :
    FlatKmeans Value where
  fitFrom := fitFlatKmeansFromCentroids kernels context
  assign := assignToCentroids kernels context
  assignBatch := assignBatchToCentroids kernels
  reserve := reserve
  length_fitFrom _ _ _ _ _ _ hadmits hcentroids hfit :=
    length_of_fitFlatKmeans hadmits hcentroids hfit
  assign_labels _ _ _ _ _ _ hadmits hclusters hcentroids hassign := by
    rw [assignToCentroids_eq hadmits hassign]
    exact cells_labels hfinds hadmits hclusters hcentroids
  assignBatch_labels _ _ _ _ _ _ hadmits hclusters hcentroids hassign := by
    rw [assignBatchToCentroids_eq hadmits hassign]
    exact cells_labels hfinds hadmits hclusters hcentroids

/-- All rows belong to the first centroid. -/
def firstCentroid : FlatKernels ℕ := { naturalKernels with nearest := fun _ _ => (0, 0) }

end

end ParqDB.Kmeans
