import ParqDB.Kmeans.RowPartitions
import ParqDB.Kmeans.Training

/-!
# Training does not depend on the number of threads

The rows are split into as many ranges as there are workers, and then the centroids are.  Both
splittings are by `row_ranges`, which cuts an interval into ranges without gaps.

**Strategy.**  The rows of all ranges, one range after the other, are the rows of the matrix in
their order (`flatMap_rangesFrom`).  So a stripe adds the rows of each of its clusters in that order
(`sumStripe_eq`), and the stripes one after the other are the sums of all clusters (`merge_eq`).
The sums of the distances do depend on the ranges; but only whether they are finite matters.

**Results.**  `assignAndSumAll_eq`, and `training_independent_of_threads`.
-/

namespace ParqDB.Kmeans

open Foundations Parallite

/-! ## Ranges without gaps -/

section

variable {rows rowsPerRange start : ℕ}

theorem mem_rangesFrom {range : RowRange} (hrange : range ∈ rangesFrom rows rowsPerRange start) :
    start ≤ range.start ∧ range.start < range.stop ∧ range.stop ≤ rows ∧
      range.length ≤ max rowsPerRange 1 := by
  fun_induction rangesFrom rows rowsPerRange start with
  | case1 start hstart ih =>
      rcases List.mem_cons.mp hrange with rfl | hrest
      · unfold RowRange.length
        dsimp only
        omega
      · have hlater := ih hrest
        omega
  | case2 => cases hrange

/-- The members of all ranges, in their order. -/
theorem flatMap_rangesFrom {α : Type} (values : ℕ → List α) :
    ((rangesFrom rows rowsPerRange start).flatMap fun range =>
      (List.range' range.start range.length).flatMap values) =
        (List.range' start (rows - start)).flatMap values := by
  fun_induction rangesFrom rows rowsPerRange start with
  | case1 start hstart ih =>
      have hsplit : rows - start = (min (start + max rowsPerRange 1) rows - start) +
          (rows - min (start + max rowsPerRange 1) rows) := by omega
      have hnext : start + 1 * (min (start + max rowsPerRange 1) rows - start) =
          min (start + max rowsPerRange 1) rows := by omega
      rw [List.flatMap_cons, ih, hsplit, ← List.range'_append, List.flatMap_append, hnext]
      rfl
  | case2 start hstart =>
      have hnone : rows - start = 0 := by omega
      rw [hnone, List.range'_zero, List.flatMap_nil]
      rfl

theorem sum_length_rangesFrom :
    ((rangesFrom rows rowsPerRange start).map RowRange.length).sum = rows - start := by
  fun_induction rangesFrom rows rowsPerRange start with
  | case1 start hstart ih =>
      rw [List.map_cons, List.sum_cons, ih]
      unfold RowRange.length
      dsimp only
      omega
  | case2 start hstart =>
      rw [List.map_nil, List.sum_nil]
      omega

theorem sum_length_rowRanges (rows rowsPerRange : ℕ) :
    ((rowRanges rows rowsPerRange).map RowRange.length).sum = rows := sum_length_rangesFrom

theorem exists_range {rowId : ℕ} (hstart : start ≤ rowId) (hrow : rowId < rows) :
    ∃ range ∈ rangesFrom rows rowsPerRange start, range.start ≤ rowId ∧ rowId < range.stop := by
  have hall := @flatMap_rangesFrom rows rowsPerRange start ℕ fun member => [member]
  have hmem : rowId ∈ (List.range' start (rows - start)).flatMap fun member => [member] := by
    rw [List.flatMap_singleton', List.mem_range'_1]
    omega
  rw [← hall] at hmem
  obtain ⟨range, hrange, hinside⟩ := List.mem_flatMap.mp hmem
  rw [List.flatMap_singleton', List.mem_range'_1] at hinside
  have hbounds := mem_rangesFrom hrange
  unfold RowRange.length at hinside
  exact ⟨range, hrange, by omega, by omega⟩

end

/-! ## Loops that fail in one way -/

theorem foldlM_eq_error {α β : Type} {failure : Failure} {step : β → α → Except Failure β}
    {items : List α} {bad : α} (hbad : bad ∈ items)
    (hfails : ∀ acc, step acc bad = .error failure)
    (hsteps : ∀ item ∈ items, ∀ acc, (∃ next, step acc item = .ok next) ∨
      step acc item = .error failure) (acc : β) :
    items.foldlM step acc = .error failure := by
  induction items generalizing acc with
  | nil => cases hbad
  | cons item rest ih =>
      rw [List.forall_mem_cons] at hsteps
      rw [List.foldlM_cons]
      rcases hsteps.1 acc with ⟨next, hnext⟩ | hfailed
      · rcases List.mem_cons.mp hbad with rfl | hrest
        · rw [hfails acc] at hnext
          cases hnext
        · rw [hnext]
          exact ih hrest hsteps.2 next
      · rw [hfailed]
        rfl

/-! ## The ranges of the workers -/

section

variable {Value : Type} {kernels : FlatKernels Value} {vectors : List Value}
  {dimension : ℕ} {centroids : List Value}

/-- The cell of a row. -/
def cellOf (kernels : FlatKernels Value) (vectors : List Value) (dimension : ℕ)
    (centroids : List Value) (rowId : ℕ) : ℕ :=
  (kernels.nearest (row vectors dimension rowId) centroids).1

/-- The distance of a row from its centroid. -/
def distanceOf (kernels : FlatKernels Value) (vectors : List Value) (dimension : ℕ)
    (centroids : List Value) (rowId : ℕ) : Value :=
  (kernels.nearest (row vectors dimension rowId) centroids).2

/-- The distance of a row is a number. -/
def FiniteRow (kernels : FlatKernels Value) (vectors : List Value) (dimension : ℕ)
    (centroids : List Value) (rowId : ℕ) : Prop :=
  kernels.float.isFinite (distanceOf kernels vectors dimension centroids rowId) = true

/-- A sum of some finite distances. -/
def Sums (kernels : FlatKernels Value) (count : ℕ) (inertia : kernels.wide.Wide) : Prop :=
  IsSum kernels.float.isFinite kernels.wide.zero kernels.wide.add kernels.wide.widen count inertia

theorem map_fst_hits (range : RowRange) :
    (hits kernels vectors dimension centroids range).map Prod.fst =
      (List.range' range.start range.length).map
        (cellOf kernels vectors dimension centroids) := by
  rw [hits, List.map_map]
  rfl

theorem map_snd_hits (range : RowRange) :
    (hits kernels vectors dimension centroids range).map Prod.snd =
      (List.range' range.start range.length).map
        (distanceOf kernels vectors dimension centroids) := by
  rw [hits, List.map_map]
  rfl

theorem foldlM_addDistance {gemm : Bool} {distances : List Value} {count : ℕ}
    {inertia : kernels.wide.Wide}
    (hfinite : ∀ distance ∈ distances, kernels.float.isFinite distance = true)
    (hsums : Sums kernels count inertia) :
    ∃ total, distances.foldlM (addDistance kernels gemm) inertia = .ok total ∧
      Sums kernels (count + distances.length) total := by
  induction distances generalizing count inertia with
  | nil => exact ⟨inertia, rfl, hsums⟩
  | cons distance rest ih =>
      rw [List.forall_mem_cons] at hfinite
      have hstep : addDistance kernels gemm inertia distance =
          .ok (kernels.wide.add inertia (kernels.wide.widen distance)) := by
        unfold addDistance
        rw [rejectIf_eq_ok.mpr (by rw [hfinite.1]; decide), ok_bind]
      obtain ⟨total, htotal, htotalSums⟩ := ih hfinite.2 (hsums.sum (.distance distance hfinite.1))
      refine ⟨total, by rw [List.foldlM_cons, hstep]; exact htotal, ?_⟩
      rw [List.length_cons, Nat.add_comm rest.length, ← Nat.add_assoc]
      exact htotalSums

theorem addDistance_cases (gemm : Bool) (inertia : kernels.wide.Wide) (distance : Value) :
    (∃ next, addDistance kernels gemm inertia distance = .ok next) ∨
      addDistance kernels gemm inertia distance =
        .error (.invalidArgument (distanceMessage gemm)) := by
  unfold addDistance rejectIf
  split
  · exact Or.inr rfl
  · exact Or.inl ⟨_, rfl⟩

theorem addDistance_infinite {gemm : Bool} {distance : Value}
    (hinfinite : ¬ kernels.float.isFinite distance = true) (inertia : kernels.wide.Wide) :
    addDistance kernels gemm inertia distance =
      .error (.invalidArgument (distanceMessage gemm)) := by
  unfold addDistance rejectIf
  rw [if_pos (by simpa using hinfinite)]
  rfl

section

variable {gemm : Bool} {range : RowRange}
  (hfits : ¬ (gemm = true ∧ usizeBound ≤ range.length * (centroids.length / dimension)))
include hfits

theorem assignContiguousRange_ok (hfinite : ∀ rowId ∈ List.range' range.start range.length,
      FiniteRow kernels vectors dimension centroids rowId) :
    ∃ inertia, assignContiguousRange kernels vectors dimension centroids gemm range =
        .ok ((List.range' range.start range.length).map
          (cellOf kernels vectors dimension centroids), inertia) ∧
      Sums kernels range.length inertia := by
  have hdistances : ∀ distance ∈ (List.range' range.start range.length).map
      (distanceOf kernels vectors dimension centroids), kernels.float.isFinite distance = true := by
    intro distance hdistance
    obtain ⟨rowId, hrow, rfl⟩ := List.mem_map.mp hdistance
    exact hfinite rowId hrow
  obtain ⟨inertia, hinertia, hsums⟩ := @foldlM_addDistance _ kernels gemm _ 0
    kernels.wide.zero hdistances .none
  rw [List.length_map, List.length_range', Nat.zero_add] at hsums
  refine ⟨inertia, ?_, hsums⟩
  unfold assignContiguousRange
  rw [rejectIf_eq_ok.mpr hfits, ok_bind]
  dsimp only
  rw [map_snd_hits, hinertia, ok_bind, map_fst_hits]

theorem assignContiguousRange_error {rowId : ℕ}
    (hrow : rowId ∈ List.range' range.start range.length)
    (hinfinite : ¬ FiniteRow kernels vectors dimension centroids rowId) :
    assignContiguousRange kernels vectors dimension centroids gemm range =
      .error (.invalidArgument (distanceMessage gemm)) := by
  have hfold := foldlM_eq_error (List.mem_map_of_mem hrow) (addDistance_infinite hinfinite)
    (fun distance _ inertia => addDistance_cases gemm inertia distance) kernels.wide.zero
  unfold assignContiguousRange
  rw [rejectIf_eq_ok.mpr hfits, ok_bind]
  dsimp only
  rw [map_snd_hits, hfold]
  rfl

theorem assignContiguousRange_cases :
    (∃ assigned, assignContiguousRange kernels vectors dimension centroids gemm range =
      .ok assigned) ∨ assignContiguousRange kernels vectors dimension centroids gemm range =
        .error (.invalidArgument (distanceMessage gemm)) := by
  by_cases hall : ∀ rowId ∈ List.range' range.start range.length,
      FiniteRow kernels vectors dimension centroids rowId
  · obtain ⟨inertia, hassigned, -⟩ := assignContiguousRange_ok hfits hall
    exact Or.inl ⟨_, hassigned⟩
  · push Not at hall
    obtain ⟨rowId, hrow, hinfinite⟩ := hall
    exact Or.inr (assignContiguousRange_error hfits hrow hinfinite)

end

/-- The products of a block fit: it has one row, or at most as many products as there are buffers. -/
theorem block_fits {block : RowRange} {nClusters : ℕ} (hclusters : nClusters < usizeBound)
    (hlength : block.length ≤ max (gemmPartitionRows nClusters) 1) :
    block.length * nClusters < usizeBound := by
  have hrows : block.length ≤ max (4 * 1024 * 1024 / nClusters) 1 := by
    unfold gemmPartitionRows at hlength
    omega
  rcases Nat.le_total (4 * 1024 * 1024 / nClusters) 1 with hsmall | hlarge
  · calc block.length * nClusters ≤ 1 * nClusters := Nat.mul_le_mul_right _ (by omega)
      _ = nClusters := Nat.one_mul _
      _ < usizeBound := hclusters
  · calc block.length * nClusters ≤ 4 * 1024 * 1024 / nClusters * nClusters :=
        Nat.mul_le_mul_right _ (by omega)
      _ ≤ 4 * 1024 * 1024 := Nat.div_mul_le_self _ _
      _ < usizeBound := by decide

/-- The blocks of a range, if all distances are finite. -/
theorem foldlM_assignBlock_ok (hclusters : centroids.length / dimension < usizeBound)
    {stop start count : ℕ} {cells : List ℕ} {inertia : kernels.wide.Wide}
    (hfinite : ∀ rowId ∈ List.range' start (stop - start),
      FiniteRow kernels vectors dimension centroids rowId)
    (hsums : Sums kernels count inertia) :
    ∃ total, (rangesFrom stop (gemmPartitionRows (centroids.length / dimension)) start).foldlM
        (assignBlock kernels vectors dimension centroids) (cells, inertia) =
      .ok (cells ++ (List.range' start (stop - start)).map
        (cellOf kernels vectors dimension centroids), total) ∧
      Sums kernels (count + (stop - start)) total := by
  fun_induction rangesFrom stop (gemmPartitionRows (centroids.length / dimension)) start
    generalizing cells inertia count with
  | case1 start hstart ih =>
      generalize hnext : min (start + max (gemmPartitionRows (centroids.length / dimension)) 1) stop =
        next at ih ⊢
      have hsplit : stop - start = (next - start) + (stop - next) := by omega
      have hlater : start + 1 * (next - start) = next := by omega
      rw [hsplit, ← List.range'_append, hlater] at hfinite ⊢
      obtain ⟨more, hmore, hmoreSums⟩ := @assignContiguousRange_ok _ kernels vectors dimension
        centroids true ⟨start, next⟩ (by
          rintro ⟨-, hover⟩
          have hfits := @block_fits ⟨start, next⟩ _ hclusters (by
            unfold RowRange.length
            dsimp only
            omega)
          omega) fun rowId hrow => hfinite rowId (List.mem_append_left _ hrow)
      obtain ⟨total, htotal, htotalSums⟩ := @ih _ _ _
        (fun rowId hrow => hfinite rowId (List.mem_append_right _ hrow)) (hsums.sum hmoreSums)
      refine ⟨total, ?_, ?_⟩
      · rw [List.foldlM_cons, assignBlock, hmore, ok_bind]
        rw [List.map_append, ← List.append_assoc]
        exact htotal
      · rw [← Nat.add_assoc]
        exact htotalSums
  | case2 start hstart =>
      have hnone : stop - start = 0 := by omega
      rw [hnone, List.range'_zero, List.map_nil, List.append_nil]
      exact ⟨inertia, rfl, hsums⟩

variable {gemm : Bool} {range : RowRange} (hclusters : centroids.length / dimension < usizeBound)
include hclusters

theorem assignTrainingRange_ok (hfinite : ∀ rowId ∈ List.range' range.start range.length,
      FiniteRow kernels vectors dimension centroids rowId) :
    ∃ inertia, assignTrainingRange kernels vectors dimension centroids gemm range =
        .ok ⟨range, (List.range' range.start range.length).map
          (cellOf kernels vectors dimension centroids), inertia⟩ ∧
      Sums kernels range.length inertia := by
  unfold assignTrainingRange
  cases gemm with
  | false =>
      obtain ⟨inertia, hinertia, hsums⟩ := @assignContiguousRange_ok _ kernels vectors dimension
        centroids false range (fun hboth => by cases hboth.1) hfinite
      refine ⟨inertia, ?_, hsums⟩
      rw [if_neg Bool.false_ne_true, hinertia, ok_bind]
  | true =>
      obtain ⟨inertia, hinertia, hsums⟩ := @foldlM_assignBlock_ok _ kernels vectors dimension
        centroids hclusters range.stop range.start 0 [] kernels.wide.zero hfinite .none
      rw [Nat.zero_add] at hsums
      refine ⟨inertia, ?_, hsums⟩
      rw [if_pos rfl, hinertia, ok_bind]
      rfl

theorem assignTrainingRange_error {rowId : ℕ}
    (hrow : rowId ∈ List.range' range.start range.length)
    (hinfinite : ¬ FiniteRow kernels vectors dimension centroids rowId) :
    assignTrainingRange kernels vectors dimension centroids gemm range =
      .error (.invalidArgument (distanceMessage gemm)) := by
  unfold assignTrainingRange
  cases gemm with
  | false =>
      have herror := @assignContiguousRange_error _ kernels vectors dimension centroids false range
        (fun hboth => by cases hboth.1) rowId hrow hinfinite
      rw [if_neg Bool.false_ne_true, herror]
      rfl
  | true =>
      rw [List.mem_range'_1] at hrow
      unfold RowRange.length at hrow
      obtain ⟨block, hblock, hstart, hstop⟩ := @exists_range range.stop
        (gemmPartitionRows (centroids.length / dimension)) range.start rowId hrow.1 (by omega)
      have hfits {block : RowRange} (hblock : block ∈ rangesFrom range.stop
          (gemmPartitionRows (centroids.length / dimension)) range.start) :
          ¬ (true = true ∧ usizeBound ≤ block.length * (centroids.length / dimension)) := by
        rintro ⟨-, hover⟩
        have hsmall := block_fits hclusters (mem_rangesFrom hblock).2.2.2
        omega
      have hinside : rowId ∈ List.range' block.start block.length := by
        rw [List.mem_range'_1]
        unfold RowRange.length
        omega
      have hfold := @foldlM_eq_error _ _ (.invalidArgument (distanceMessage true))
        (assignBlock kernels vectors dimension centroids) _ block hblock (fun assigned => by
          rw [assignBlock, assignContiguousRange_error (hfits hblock) hinside hinfinite]
          rfl) (fun other hother assigned => by
          rcases @assignContiguousRange_cases _ kernels vectors dimension centroids true other
            (hfits hother) with ⟨more, hmore⟩ | herror
          · rw [assignBlock, hmore]
            exact Or.inl ⟨_, rfl⟩
          · rw [assignBlock, herror]
            exact Or.inr rfl) ([], kernels.wide.zero)
      rw [if_pos rfl, hfold]
      rfl

theorem assignTrainingRange_cases :
    (∃ partition, assignTrainingRange kernels vectors dimension centroids gemm range =
      .ok partition) ∨ assignTrainingRange kernels vectors dimension centroids gemm range =
        .error (.invalidArgument (distanceMessage gemm)) := by
  by_cases hall : ∀ rowId ∈ List.range' range.start range.length,
      FiniteRow kernels vectors dimension centroids rowId
  · obtain ⟨inertia, hassigned, -⟩ := @assignTrainingRange_ok _ kernels vectors dimension
      centroids gemm range hclusters hall
    exact Or.inl ⟨_, hassigned⟩
  · push Not at hall
    obtain ⟨rowId, hrow, hinfinite⟩ := hall
    exact Or.inr (assignTrainingRange_error hclusters hrow hinfinite)

end

/-! ## Sums by cluster -/

section

variable {Value : Type} {kernels : FlatKernels Value} {vectors : List Value} {dimension : ℕ}

/-- The sum of some rows, in their order. -/
def sumRows (kernels : FlatKernels Value) (vectors : List Value) (dimension : ℕ)
    (rowIds : List ℕ) : List Value :=
  rowIds.foldl (fun sum rowId => List.zipWith kernels.float.add sum (row vectors dimension rowId))
    (List.replicate dimension kernels.float.zero)

/-- The rows of a cluster among some entries. -/
def entryRows (entries : List (ℕ × ℕ)) (cluster : ℕ) : List ℕ :=
  (entries.filter fun entry => entry.1 = cluster).map Prod.snd

theorem length_sumRows {rowIds : List ℕ}
    (hrows : ∀ rowId ∈ rowIds, rowId < vectors.length / dimension) :
    (sumRows kernels vectors dimension rowIds).length = dimension := by
  have hfold {sum : List Value} (hsum : sum.length = dimension) :
      (rowIds.foldl (fun sum rowId => List.zipWith kernels.float.add sum
        (row vectors dimension rowId)) sum).length = dimension := by
    induction rowIds generalizing sum with
    | nil => exact hsum
    | cons rowId rest ih =>
        rw [List.forall_mem_cons] at hrows
        apply ih hrows.2
        rw [List.length_zipWith, hsum, length_row hrows.1, Nat.min_self]
  exact hfold (List.length_replicate ..)

theorem sumRows_snoc (rowIds : List ℕ) (rowId : ℕ) :
    sumRows kernels vectors dimension (rowIds ++ [rowId]) =
      List.zipWith kernels.float.add (sumRows kernels vectors dimension rowIds)
        (row vectors dimension rowId) := by
  unfold sumRows
  rw [List.foldl_append, List.foldl_cons, List.foldl_nil]

theorem entryRows_snoc (entries : List (ℕ × ℕ)) (entry : ℕ × ℕ) (cluster : ℕ) :
    entryRows (entries ++ [entry]) cluster =
      entryRows entries cluster ++ if entry.1 = cluster then [entry.2] else [] := by
  unfold entryRows
  rw [List.filter_append, List.map_append]
  congr 1
  by_cases hsame : entry.1 = cluster
  · simp [hsame]
  · simp [hsame]

/-- What a stripe holds after some entries. -/
def stripeOf (kernels : FlatKernels Value) (vectors : List Value) (dimension : ℕ)
    (range : RowRange) (entries : List (ℕ × ℕ)) : ClusterSums Value where
  range := range
  sums := (List.range' range.start range.length).flatMap fun cluster =>
    sumRows kernels vectors dimension (entryRows entries cluster)
  counts := (List.range' range.start range.length).map fun cluster =>
    (entryRows entries cluster).length

theorem stripeOf_nil (range : RowRange) :
    stripeOf kernels vectors dimension range [] =
      ⟨range, List.replicate (range.length * dimension) kernels.float.zero,
        List.replicate range.length 0⟩ := by
  have hsums : ((List.range' range.start range.length).flatMap fun _ =>
      List.replicate dimension kernels.float.zero) =
        List.replicate (range.length * dimension) kernels.float.zero := by
    generalize range.start = start
    induction range.length generalizing start with
    | zero => simp
    | succ count ih =>
        rw [List.range'_succ, List.flatMap_cons, ih, ← List.replicate_add, Nat.succ_mul,
          Nat.add_comm dimension]
  unfold stripeOf
  congr 1
  simp [entryRows]

variable {entries : List (ℕ × ℕ)} {range : RowRange}

/-- Every entry of a cluster of the stripe is added to it. -/
theorem addRow_stripeOf {entry : ℕ × ℕ}
    (hrows : ∀ other ∈ entries ++ [entry], other.2 < vectors.length / dimension) :
    addRow kernels vectors dimension (stripeOf kernels vectors dimension range entries) entry =
      stripeOf kernels vectors dimension range (entries ++ [entry]) := by
  have hwidth (cluster : ℕ) :
      (sumRows kernels vectors dimension (entryRows entries cluster)).length = dimension := by
    apply length_sumRows
    intro rowId hrow
    obtain ⟨other, hother, rfl⟩ := List.mem_map.mp hrow
    exact hrows other (List.mem_append_left _ (List.mem_filter.mp hother).1)
  unfold addRow
  split
  · next houtside =>
      change entry.1 < range.start ∨ range.stop ≤ entry.1 at houtside
      have hsame : ∀ cluster ∈ List.range' range.start range.length,
          entryRows (entries ++ [entry]) cluster = entryRows entries cluster := by
        intro cluster hcluster
        rw [List.mem_range'_1] at hcluster
        unfold RowRange.length at hcluster
        rw [entryRows_snoc, if_neg (by omega), List.append_nil]
      unfold stripeOf
      congr 1
      · exact List.flatMap_congr fun cluster hcluster => by rw [hsame cluster hcluster]
      · exact List.map_congr_left fun cluster hcluster => by rw [hsame cluster hcluster]
  · next hinside =>
      change ¬ (entry.1 < range.start ∨ range.stop ≤ entry.1) at hinside
      have hlocal : entry.1 - range.start < range.length := by
        unfold RowRange.length
        omega
      have hplace : range.start + (entry.1 - range.start) = entry.1 := by omega
      have hlast : entry.2 < vectors.length / dimension := hrows entry (by simp)
      unfold stripeOf
      dsimp only
      rw [row_flatMap hwidth hlocal, hplace,
        putRow_flatMap hwidth hlocal (by
          rw [List.length_zipWith, hwidth, length_row hlast, Nat.min_self]), hplace]
      congr 1
      · refine List.flatMap_congr fun cluster _ => ?_
        rw [entryRows_snoc]
        by_cases hsame : cluster = entry.1
        · rw [hsame, Function.update_self, if_pos rfl, sumRows_snoc]
        · rw [Function.update_of_ne hsame, if_neg (Ne.symm hsame), List.append_nil]
      · apply List.ext_getElem
        · rw [List.length_modify, List.length_map, List.length_map]
        · intro index hindex _
          rw [List.getElem_modify, List.getElem_map, List.getElem_map, List.getElem_range',
            entryRows_snoc, List.length_append]
          by_cases hsame : entry.1 - range.start = index
          · rw [if_pos hsame, if_pos (by omega)]
            rfl
          · rw [if_neg hsame, if_neg (by omega)]
            rfl

theorem foldl_addRow {done : List (ℕ × ℕ)}
    (hrows : ∀ other ∈ done ++ entries, other.2 < vectors.length / dimension) :
    entries.foldl (addRow kernels vectors dimension)
        (stripeOf kernels vectors dimension range done) =
      stripeOf kernels vectors dimension range (done ++ entries) := by
  induction entries generalizing done with
  | nil => rw [List.append_nil]; rfl
  | cons entry rest ih =>
      have hmore : done ++ entry :: rest = (done ++ [entry]) ++ rest := by simp
      rw [hmore] at hrows ⊢
      rw [List.foldl_cons, addRow_stripeOf fun other hother =>
        hrows other (List.mem_append_left _ hother)]
      exact ih hrows

end

/-! ## Stripes one after the other -/

/-- Writing the rows of all ranges, one range after the other. -/
theorem foldl_putRow_ranges {α : Type} {rowOf : ℕ → List α} {width : ℕ}
    (hwidth : ∀ item, (rowOf item).length = width) {rows rowsPerRange start : ℕ} {merged : List α}
    (hlength : merged.length = rows * width) (hstart : start ≤ rows) :
    (rangesFrom rows rowsPerRange start).foldl (fun merged range =>
        putRow merged (range.start * width)
          ((List.range' range.start range.length).flatMap rowOf)) merged =
      merged.take (start * width) ++ (List.range' start (rows - start)).flatMap rowOf := by
  fun_induction rangesFrom rows rowsPerRange start generalizing merged with
  | case1 start hlt ih =>
      generalize hnext : min (start + max rowsPerRange 1) rows = next at ih ⊢
      have hsplit : rows - start = (next - start) + (rows - next) := by omega
      have hlater : start + 1 * (next - start) = next := by omega
      have hwritten : ((List.range' start (next - start)).flatMap rowOf).length =
          (next - start) * width := by
        rw [length_flatMap_rows hwidth, List.length_range']
      have hbase : start * width ≤ merged.length := by
        rw [hlength]
        exact Nat.mul_le_mul_right _ hstart
      have hend : start * width + (next - start) * width = next * width := by
        rw [← Nat.add_mul]
        congr 1
        omega
      have hfits : next * width ≤ merged.length := by
        rw [hlength]
        exact Nat.mul_le_mul_right _ (by omega)
      have hsize : (putRow merged (start * width)
          ((List.range' start (next - start)).flatMap rowOf)).length = rows * width := by
        rw [length_putRow (by rw [hwritten]; omega), hlength]
      have htake : (putRow merged (start * width)
          ((List.range' start (next - start)).flatMap rowOf)).take (next * width) =
            merged.take (start * width) ++ (List.range' start (next - start)).flatMap rowOf := by
        unfold putRow
        rw [List.take_append_of_le_length, List.take_of_length_le]
        · rw [List.length_append, List.length_take, hwritten]
          omega
        · rw [List.length_append, List.length_take, hwritten]
          omega
      rw [List.foldl_cons]
      change List.foldl _ (putRow merged (start * width)
        ((List.range' start (next - start)).flatMap rowOf)) _ = _
      rw [ih hsize (by omega), htake, hsplit, ← List.range'_append, hlater, List.flatMap_append,
        List.append_assoc]
  | case2 start hlt =>
      have hall : start = rows := by omega
      rw [hall, Nat.sub_self, List.range'_zero, List.flatMap_nil, List.append_nil, List.foldl_nil,
        List.take_of_length_le (Nat.le_of_eq hlength)]

section

variable {Value : Type} {kernels : FlatKernels Value} {vectors : List Value} {dimension : ℕ}
  {Wide : Type}

theorem foldl_mergeStripe (stripes : List (ClusterSums Value)) (merged : BatchSums Value Wide) :
    stripes.foldl (mergeStripe dimension) merged =
      ⟨stripes.foldl (fun sums stripe => putRow sums (stripe.range.start * dimension) stripe.sums)
          merged.sums,
        stripes.foldl (fun counts stripe => putRow counts stripe.range.start stripe.counts)
          merged.counts, merged.inertia⟩ := by
  induction stripes generalizing merged with
  | nil => rfl
  | cons stripe rest ih =>
      rw [List.foldl_cons, ih]
      rfl

/-- The sums and counts of all clusters. -/
theorem merge_eq (entries : List (ℕ × ℕ)) (nClusters clustersPerRange : ℕ) (inertia : Wide)
    (hrows : ∀ entry ∈ entries, entry.2 < vectors.length / dimension) :
    ((rowRanges nClusters clustersPerRange).map fun range =>
        stripeOf kernels vectors dimension range entries).foldl (mergeStripe dimension)
      ⟨List.replicate (nClusters * dimension) kernels.float.zero, List.replicate nClusters 0,
        inertia⟩ =
      ⟨(List.range nClusters).flatMap fun cluster =>
          sumRows kernels vectors dimension (entryRows entries cluster),
        (List.range nClusters).map fun cluster => (entryRows entries cluster).length, inertia⟩ := by
  have hwidth (cluster : ℕ) :
      (sumRows kernels vectors dimension (entryRows entries cluster)).length = dimension := by
    apply length_sumRows
    intro rowId hrow
    obtain ⟨entry, hentry, rfl⟩ := List.mem_map.mp hrow
    exact hrows entry (List.mem_filter.mp hentry).1
  rw [foldl_mergeStripe]
  congr 1
  · have hsums := @foldl_putRow_ranges _ _ _ hwidth nClusters clustersPerRange 0
      (List.replicate (nClusters * dimension) kernels.float.zero) (List.length_replicate ..)
      (Nat.zero_le _)
    rw [Nat.zero_mul, List.take_zero, List.nil_append, Nat.sub_zero] at hsums
    rw [List.foldl_map, List.range_eq_range']
    exact hsums
  · have hcounts := @foldl_putRow_ranges ℕ (fun cluster => [(entryRows entries cluster).length]) 1
      (fun _ => rfl) nClusters clustersPerRange 0 (List.replicate nClusters 0)
      (by rw [List.length_replicate, Nat.mul_one]) (Nat.zero_le _)
    rw [Nat.zero_mul, List.take_zero, List.nil_append, Nat.sub_zero, ← List.map_eq_flatMap]
      at hcounts
    rw [List.foldl_map, List.range_eq_range', ← hcounts]
    refine List.foldl_ext _ _ _ fun counts range _ => ?_
    rw [← List.map_eq_flatMap, Nat.mul_one]
    rfl

/-- The entries of the parts of the workers, one part after the other. -/
theorem sumStripe_eq {parts : List (TrainingPartition kernels.wide.Wide)}
    {entries : List (ℕ × ℕ)} (range : RowRange)
    (hparts : (parts.flatMap fun part => part.assignmentCells.zipIdx part.range.start) = entries)
    (hrows : ∀ entry ∈ entries, entry.2 < vectors.length / dimension) :
    sumStripe kernels vectors dimension parts range =
      stripeOf kernels vectors dimension range entries := by
  unfold sumStripe
  rw [← stripeOf_nil, ← List.foldl_flatMap, hparts]
  exact foldl_addRow hrows

theorem zipIdx_map_range' (cell : ℕ → ℕ) (start count : ℕ) :
    ((List.range' start count).map cell).zipIdx start =
      (List.range' start count).map fun rowId => (cell rowId, rowId) := by
  apply List.ext_getElem
  · simp
  · intro index hindex _
    simp [List.getElem_zipIdx]

end

/-! ## One round -/

section

variable {Value : Type} {kernels : FlatKernels Value} {vectors : List Value} {dimension n : ℕ}
  {centroids : List Value}

/-- The cells of all rows of the matrix. -/
def cells (kernels : FlatKernels Value) (vectors : List Value) (dimension n : ℕ)
    (centroids : List Value) : List ℕ :=
  (List.range n).map (cellOf kernels vectors dimension centroids)

theorem zipIdx_cells : (cells kernels vectors dimension n centroids).zipIdx =
    (List.range n).map fun rowId => (cellOf kernels vectors dimension centroids rowId, rowId) := by
  unfold cells
  rw [List.range_eq_range']
  exact zipIdx_map_range' _ 0 n

/-- The sums and counts of a round, computed row by row. -/
def sequentialSums (kernels : FlatKernels Value) (vectors : List Value) (dimension n : ℕ)
    (centroids : List Value) : List Value :=
  (List.range (centroids.length / dimension)).flatMap fun cluster =>
    sumRows kernels vectors dimension
      (clusterRows (cells kernels vectors dimension n centroids) cluster)

def sequentialCounts (kernels : FlatKernels Value) (vectors : List Value) (dimension n : ℕ)
    (centroids : List Value) : List ℕ :=
  (List.range (centroids.length / dimension)).map fun cluster =>
    (cells kernels vectors dimension n centroids).count cluster

theorem sums_foldl {sums : List (ℕ × kernels.wide.Wide)}
    (hsums : ∀ sum ∈ sums, Sums kernels sum.1 sum.2) {count : ℕ} {inertia : kernels.wide.Wide}
    (hinertia : Sums kernels count inertia) :
    Sums kernels (count + (sums.map Prod.fst).sum)
      ((sums.map Prod.snd).foldl kernels.wide.add inertia) := by
  induction sums generalizing count inertia with
  | nil => exact hinertia
  | cons sum rest ih =>
      rw [List.forall_mem_cons] at hsums
      rw [List.map_cons, List.map_cons, List.sum_cons, List.foldl_cons, ← Nat.add_assoc]
      exact ih hsums.2 (hinertia.sum hsums.1)

/-- The reduction, however the centroids are split. -/
theorem reduceTrainingAssignments_eq (context : ParalliteContext)
    {parts : List (TrainingPartition kernels.wide.Wide)} (nClusters : ℕ)
    (hn : n = vectors.length / dimension)
    (hparts : (parts.flatMap fun part => part.assignmentCells.zipIdx part.range.start) =
      (cells kernels vectors dimension n centroids).zipIdx) :
    reduceTrainingAssignments kernels vectors dimension context nClusters parts =
      .ok ⟨(List.range nClusters).flatMap fun cluster => sumRows kernels vectors dimension
          (clusterRows (cells kernels vectors dimension n centroids) cluster),
        (List.range nClusters).map fun cluster =>
          (cells kernels vectors dimension n centroids).count cluster,
        (parts.map TrainingPartition.inertia).foldl kernels.wide.add kernels.wide.zero⟩ := by
  have hrows : ∀ entry ∈ (cells kernels vectors dimension n centroids).zipIdx,
      entry.2 < vectors.length / dimension := by
    intro entry hentry
    rw [zipIdx_cells] at hentry
    obtain ⟨rowId, hrow, rfl⟩ := List.mem_map.mp hentry
    rw [← hn]
    exact List.mem_range.mp hrow
  unfold reduceTrainingAssignments
  dsimp only
  rw [context.mapCollect_of_ok fun range _ => congrArg Except.ok (sumStripe_eq range hparts hrows)]
  change (Except.ok _ >>= _) = _
  rw [ok_bind, merge_eq _ _ _ _ hrows]
  congr 2
  exact List.map_congr_left fun cluster _ => length_clusterRows _ cluster

variable (hclusters : centroids.length / dimension < usizeBound)
include hclusters

theorem assignAndSumAll_error (context : ParalliteContext) (rowsPerRange : ℕ) {rowId : ℕ}
    (hrow : rowId < n) (hinfinite : ¬ FiniteRow kernels vectors dimension centroids rowId) :
    assignAndSumAll kernels context vectors n dimension centroids (rowRanges n rowsPerRange) =
      .error (.invalidArgument
        (distanceMessage (usesGemm dimension (centroids.length / dimension)))) := by
  obtain ⟨range, hrange, hstart, hstop⟩ : ∃ range ∈ rowRanges n rowsPerRange,
      range.start ≤ rowId ∧ rowId < range.stop := exists_range (Nat.zero_le _) hrow
  have hinside : rowId ∈ List.range' range.start range.length := by
    rw [List.mem_range'_1]
    unfold RowRange.length
    omega
  obtain ⟨other, -, failure, hfailure, hcollect⟩ := context.mapCollect_of_error hrange
    (@assignTrainingRange_error _ kernels vectors dimension centroids
      (usesGemm dimension (centroids.length / dimension)) range hclusters rowId hinside hinfinite)
  have hsame : failure = .invalidArgument
      (distanceMessage (usesGemm dimension (centroids.length / dimension))) := by
    rcases @assignTrainingRange_cases _ kernels vectors dimension centroids
      (usesGemm dimension (centroids.length / dimension)) other hclusters with ⟨part, hpart⟩ | herror
    · rw [hpart] at hfailure
      cases hfailure
    · rw [herror] at hfailure
      exact (Except.error.inj hfailure).symm
  unfold assignAndSumAll
  dsimp only
  rw [rejectIf_eq_ok.mpr (not_not_intro (sum_length_rowRanges n rowsPerRange)), ok_bind, hcollect, hsame]
  rfl

variable (hpositive : 0 < dimension) (hvectors : vectors.length = n * dimension)
include hpositive hvectors

theorem assignAndSumAll_ok (context : ParalliteContext) (rowsPerRange : ℕ)
    (hfinite : ∀ rowId < n, FiniteRow kernels vectors dimension centroids rowId) :
    ∃ inertia, assignAndSumAll kernels context vectors n dimension centroids
        (rowRanges n rowsPerRange) =
      .ok ⟨sequentialSums kernels vectors dimension n centroids,
        sequentialCounts kernels vectors dimension n centroids, inertia⟩ ∧
      Sums kernels n inertia := by
  have hn : n = vectors.length / dimension := by
    rw [hvectors, Nat.mul_div_cancel _ hpositive]
  have hassigned : ∀ range ∈ rowRanges n rowsPerRange, ∃ inertia,
      assignTrainingRange kernels vectors dimension centroids
          (usesGemm dimension (centroids.length / dimension)) range =
        .ok ⟨range, (List.range' range.start range.length).map
          (cellOf kernels vectors dimension centroids), inertia⟩ ∧
        Sums kernels range.length inertia := by
    intro range hrange
    have hinside := mem_rangesFrom hrange
    apply assignTrainingRange_ok hclusters
    intro rowId hrow
    rw [List.mem_range'_1] at hrow
    unfold RowRange.length at hrow
    exact hfinite rowId (by omega)
  have hsome : Nonempty kernels.wide.Wide := ⟨kernels.wide.zero⟩
  choose! inertiaOf hpart hsums using hassigned
  have hcollect := context.mapCollect_of_ok hpart
  have hflat : (((rowRanges n rowsPerRange).map fun range =>
        (⟨range, (List.range' range.start range.length).map
          (cellOf kernels vectors dimension centroids), inertiaOf range⟩ :
            TrainingPartition kernels.wide.Wide)).flatMap fun part =>
          part.assignmentCells.zipIdx part.range.start) =
      (cells kernels vectors dimension n centroids).zipIdx := by
    calc _ = (rowRanges n rowsPerRange).flatMap fun range =>
          (List.range' range.start range.length).flatMap fun rowId =>
            [(cellOf kernels vectors dimension centroids rowId, rowId)] := by
          rw [List.flatMap_map]
          refine List.flatMap_congr fun range _ => ?_
          rw [← List.map_eq_flatMap]
          exact zipIdx_map_range' _ _ _
      _ = (List.range' 0 (n - 0)).flatMap fun rowId =>
            [(cellOf kernels vectors dimension centroids rowId, rowId)] := flatMap_rangesFrom _
      _ = _ := by rw [← List.map_eq_flatMap, zipIdx_cells, Nat.sub_zero, List.range_eq_range']
  have htotal := @sums_foldl _ kernels
    ((rowRanges n rowsPerRange).map fun range => (range.length, inertiaOf range)) (by
      intro sum hsum
      obtain ⟨range, hrange, rfl⟩ := List.mem_map.mp hsum
      exact hsums range hrange) 0 kernels.wide.zero .none
  rw [List.map_map, List.map_map, Nat.zero_add] at htotal
  have hcount : ((rowRanges n rowsPerRange).map
      (Prod.fst ∘ fun range => (range.length, inertiaOf range))).sum = n := sum_length_rangesFrom
  rw [hcount] at htotal
  refine ⟨_, ?_, htotal⟩
  unfold assignAndSumAll
  dsimp only
  rw [rejectIf_eq_ok.mpr (not_not_intro (sum_length_rowRanges n rowsPerRange)), ok_bind, hcollect]
  change (Except.ok _ >>= _) = _
  rw [ok_bind, reduceTrainingAssignments_eq context _ hn hflat, List.map_map]
  rfl

end

/-! ## All rounds -/

section

variable {Value : Type} [DecidableEq Value] {kernels : FlatKernels Value} {vectors : List Value}
  {dimension n nClusters : ℕ} {centroids : List Value}

/-- A round after the reduction, if the inertia is finite. -/
def nextRound (kernels : FlatKernels Value) (dimension : ℕ) (centroids sums : List Value)
    (counts : List ℕ) : Except Failure (List Value × Bool) := do
  let moved := replaceCentroidsWithMeans kernels centroids dimension sums counts
  let hadEmptyCentroid := decide (0 ∈ counts)
  let centroids ←
    if hadEmptyCentroid then
      (splitEmptyCentroids kernels.rounding kernels.draws kernels.factors moved.2 dimension
        counts kernels.splitRng).map Splitting.centroids
    else .ok moved.2
  .ok (centroids, !moved.1 && !hadEmptyCentroid)

variable {sums next : List Value} {settled : Bool}

theorem length_replaceCentroids {entries : List (ℕ × ℕ)} (hpositive : 0 < dimension)
    (hsums : sums.length = nClusters * dimension)
    (hentries : ∀ entry ∈ entries, entry.2 < nClusters) {moved : Bool × List Value}
    (hmoved : moved.2.length = nClusters * dimension) :
    (entries.foldl (replaceCentroid kernels dimension sums) moved).2.length =
      nClusters * dimension := by
  induction entries generalizing moved with
  | nil => exact hmoved
  | cons entry rest ih =>
      rw [List.forall_mem_cons] at hentries
      rw [List.foldl_cons]
      apply ih hentries.2
      unfold replaceCentroid
      split
      · exact hmoved
      · have hinside {values : List Value} (hvalues : values.length = nClusters * dimension) :
            entry.2 < values.length / dimension := by
          rw [hvalues, Nat.mul_div_cancel _ hpositive]
          exact hentries.1
        dsimp only
        rw [length_putRow, hmoved]
        rw [List.length_map, length_row (hinside hsums)]
        exact row_end_le (hinside hmoved)

omit [DecidableEq Value] in
theorem length_sequentialSums (hpositive : 0 < dimension)
    (hvectors : vectors.length = n * dimension) (hcentroids : centroids.length = nClusters * dimension) :
    (sequentialSums kernels vectors dimension n centroids).length = nClusters * dimension := by
  have hwidth (cluster : ℕ) : (sumRows kernels vectors dimension
      (clusterRows (cells kernels vectors dimension n centroids) cluster)).length = dimension := by
    apply length_sumRows
    intro rowId hrow
    obtain ⟨hinside, -⟩ := List.getElem?_eq_some_iff.mp (mem_clusterRows.mp hrow)
    rw [cells, List.length_map, List.length_range] at hinside
    rw [hvectors, Nat.mul_div_cancel _ hpositive]
    exact hinside
  unfold sequentialSums
  rw [length_flatMap_rows hwidth, List.length_range, hcentroids, Nat.mul_div_cancel _ hpositive]

/-- A round keeps the shape of the centroids. -/
theorem length_of_nextRound (hpositive : 0 < dimension) {counts : List ℕ}
    (hsums : sums.length = nClusters * dimension) (hcounts : counts.length = nClusters)
    (hcentroids : centroids.length = nClusters * dimension)
    (hround : nextRound kernels dimension centroids sums counts = .ok (next, settled)) :
    next.length = nClusters * dimension := by
  have hmoved : (replaceCentroidsWithMeans kernels centroids dimension sums counts).2.length =
      nClusters * dimension := by
    apply length_replaceCentroids hpositive hsums _ hcentroids
    intro entry hentry
    obtain ⟨hinside, -⟩ := List.getElem?_eq_some_iff.mp (List.mem_zipIdx_iff_getElem?.mp hentry)
    omega
  unfold nextRound at hround
  dsimp only at hround
  split at hround
  · obtain ⟨result, hresult, hconserves, -⟩ := @splitLoop_conserves _ kernels.rounding
      kernels.draws kernels.factors _ dimension counts (counts.sum % usizeBound) hpositive
      (hmoved.trans (by rw [hcounts])) (List.range counts.length)
      (fun cluster hcluster => List.mem_range.mp hcluster) _
      (Conserves.initial _ dimension counts kernels.splitRng)
    rw [splitEmptyCentroids, hresult] at hround
    cases hround
    rw [hconserves.shape, hmoved]
  · cases hround
    exact hmoved

variable (hpositive : 0 < dimension) (hvectors : vectors.length = n * dimension)
  (hsmall : n < 2 ^ 61) (hclusters : nClusters < usizeBound)
include hpositive hvectors hsmall hclusters

/-- What a round computes, for any context and any ranges. -/
theorem trainingRound_eq (context : ParalliteContext) (rowsPerRange : ℕ)
    (hcentroids : centroids.length = nClusters * dimension) :
    (∀ rowId < n, FiniteRow kernels vectors dimension centroids rowId) ∧
      trainingRound kernels context vectors n dimension (rowRanges n rowsPerRange) centroids =
        nextRound kernels dimension centroids (sequentialSums kernels vectors dimension n centroids)
          (sequentialCounts kernels vectors dimension n centroids) ∨
    (∃ rowId < n, ¬ FiniteRow kernels vectors dimension centroids rowId) ∧
      trainingRound kernels context vectors n dimension (rowRanges n rowsPerRange) centroids =
        .error (.invalidArgument (distanceMessage (usesGemm dimension nClusters))) := by
  have hcount : centroids.length / dimension = nClusters := by
    rw [hcentroids, Nat.mul_div_cancel _ hpositive]
  have hfits : centroids.length / dimension < usizeBound := by omega
  by_cases hall : ∀ rowId < n, FiniteRow kernels vectors dimension centroids rowId
  · obtain ⟨inertia, hbatch, hinertia⟩ :=
      assignAndSumAll_ok hfits hpositive hvectors context rowsPerRange hall
    have hfinite := kernels.wide.finite_of_sum n inertia hsmall hinertia
    refine Or.inl ⟨hall, ?_⟩
    unfold trainingRound nextRound
    rw [hbatch, ok_bind]
    dsimp only
    rw [rejectIf_eq_ok.mpr (by rw [hfinite]; decide)]
    rfl
  · push Not at hall
    obtain ⟨rowId, hrow, hinfinite⟩ := hall
    refine Or.inr ⟨⟨rowId, hrow, hinfinite⟩, ?_⟩
    unfold trainingRound
    rw [assignAndSumAll_error hfits context rowsPerRange hrow hinfinite, hcount]
    rfl

theorem trainingRound_independent (first second : ParalliteContext) (firstRows secondRows : ℕ)
    (hcentroids : centroids.length = nClusters * dimension) :
    trainingRound kernels first vectors n dimension (rowRanges n firstRows) centroids =
      trainingRound kernels second vectors n dimension (rowRanges n secondRows) centroids := by
  rcases @trainingRound_eq _ _ kernels _ _ _ _ _ hpositive hvectors hsmall hclusters first firstRows
    hcentroids with ⟨hall, hfirst⟩ | ⟨⟨rowId, hrow, hinfinite⟩, hfirst⟩
  · rcases @trainingRound_eq _ _ kernels _ _ _ _ _ hpositive hvectors hsmall hclusters second
      secondRows hcentroids with ⟨-, hsecond⟩ | ⟨⟨rowId, hrow, hinfinite⟩, -⟩
    · rw [hfirst, hsecond]
    · exact absurd (hall rowId hrow) hinfinite
  · rcases @trainingRound_eq _ _ kernels _ _ _ _ _ hpositive hvectors hsmall hclusters second
      secondRows hcentroids with ⟨hall, -⟩ | ⟨-, hsecond⟩
    · exact absurd (hall rowId hrow) hinfinite
    · rw [hfirst, hsecond]

variable {context : ParalliteContext} {rowsPerRange : ℕ}

theorem length_of_trainingRound (hcentroids : centroids.length = nClusters * dimension)
    (hround : trainingRound kernels context vectors n dimension (rowRanges n rowsPerRange) centroids =
      .ok (next, settled)) : next.length = nClusters * dimension := by
  rcases trainingRound_eq hpositive hvectors hsmall hclusters context rowsPerRange hcentroids with
    ⟨-, hnext⟩ | ⟨-, herror⟩
  · rw [hnext] at hround
    refine length_of_nextRound hpositive (length_sequentialSums hpositive hvectors hcentroids) ?_
      hcentroids hround
    rw [sequentialCounts, List.length_map, List.length_range, hcentroids,
      Nat.mul_div_cancel _ hpositive]
  · rw [herror] at hround
    cases hround

/-- The rounds that are left. -/
theorem trainingLoop_independent (first second : ParalliteContext) (firstRows secondRows : ℕ)
    (remaining iterations : ℕ) (hcentroids : centroids.length = nClusters * dimension) :
    trainingLoop kernels first vectors n dimension (rowRanges n firstRows) remaining iterations
        centroids =
      trainingLoop kernels second vectors n dimension (rowRanges n secondRows) remaining iterations
        centroids := by
  induction remaining generalizing iterations centroids with
  | zero => rfl
  | succ remaining ih =>
      have hsame := @trainingRound_independent _ _ kernels _ _ _ _ _ hpositive hvectors hsmall
        hclusters first second firstRows secondRows hcentroids
      unfold trainingLoop
      rw [← hsame]
      cases hround : trainingRound kernels first vectors n dimension (rowRanges n firstRows)
          centroids with
      | error failure => rfl
      | ok round =>
          have hlength := length_of_trainingRound hpositive hvectors hsmall hclusters hcentroids hround
          rw [ok_bind, ok_bind, ih _ hlength]

theorem length_of_trainingLoop {remaining iterations : ℕ} {model : KMeansModel Value}
    (hcentroids : centroids.length = nClusters * dimension)
    (hloop : trainingLoop kernels context vectors n dimension (rowRanges n rowsPerRange) remaining
      iterations centroids = .ok model) : model.centroids.length = nClusters * dimension := by
  induction remaining generalizing iterations centroids with
  | zero =>
      cases hloop
      exact hcentroids
  | succ remaining ih =>
      unfold trainingLoop at hloop
      obtain ⟨round, hround, hrest⟩ := bind_eq_ok.mp hloop
      have hlength := length_of_trainingRound hpositive hvectors hsmall hclusters hcentroids hround
      split at hrest
      · cases hrest
        exact hlength
      · exact ih hlength hrest

end

/-- Flat training returns the same for all contexts.  In each of its rounds the sum of a cluster is
folded over its rows in the order of the matrix, and its count is their number, however the rows and
the centroids are split. -/
theorem training_independent_of_threads {Value : Type} [DecidableEq Value]
    (kernels : FlatKernels Value) (vectors centroids : F32Slice Value) (dimension n : ℕ)
    (options : KMeansOptions) (hpositive : 0 < dimension)
    (hvectors : vectors.val.length = n * dimension) (first second : ParalliteContext) :
    fitFlatKmeansFromCentroids kernels first vectors.val dimension n options centroids.val =
      fitFlatKmeansFromCentroids kernels second vectors.val dimension n options centroids.val ∧
    ∀ (context : ParalliteContext) (current : F32Slice Value) (rowsPerRange : ℕ),
      (∀ rowId < n, FiniteRow kernels vectors.val dimension current.val rowId) →
      ∃ inertia, assignAndSumAll kernels context vectors.val n dimension current.val
          (rowRanges n rowsPerRange) =
        .ok ⟨sequentialSums kernels vectors.val dimension n current.val,
          sequentialCounts kernels vectors.val dimension n current.val, inertia⟩ := by
  have hslice := vectors.property
  have hword : 2 ^ 61 < usizeBound := by decide
  have hrows : n ≤ n * dimension := Nat.le_mul_of_pos_right n hpositive
  refine ⟨?_, fun context current rowsPerRange hfinite => ?_⟩
  · unfold fitFlatKmeansFromCentroids
    by_cases hshape : centroids.val.length = options.nClusters * dimension
    · have hcentroids := centroids.property
      have hclusters : options.nClusters ≤ options.nClusters * dimension :=
        Nat.le_mul_of_pos_right _ hpositive
      rw [rejectIf_eq_ok.mpr (not_not_intro hshape), ok_bind, ok_bind]
      exact trainingLoop_independent hpositive hvectors (by omega) (by omega) first second _ _ _ _
        hshape
    · unfold rejectIf
      rw [if_pos hshape]
      rfl
  · have hcurrent := current.property
    have hclusters : current.val.length / dimension ≤ current.val.length := Nat.div_le_self _ _
    obtain ⟨inertia, hbatch, -⟩ :=
      assignAndSumAll_ok (by omega) hpositive hvectors context rowsPerRange hfinite
    exact ⟨inertia, hbatch⟩

/-- Training on natural numbers, by the first centroid at the least distance. -/
def naturalKernels : FlatKernels ℕ where
  float := ⟨fun _ => true, 0, 1, (· + ·), (· * ·), (· / ·), id⟩
  wide := ⟨ℕ, 0, (· + ·), id, fun _ => true, fun _ _ _ _ => rfl⟩
  nearest row centroids :=
    let distance (centroid : ℕ) := (row.headD 0 - centroid) + (centroid - row.headD 0)
    let best := (centroids.zipIdx.argmin fun entry => distance entry.1).getD (0, 0)
    (best.2, distance best.1)
  rounding := ⟨id, rfl⟩
  draws := zeroDraws
  splitRng := ()
  factors := ⟨id, id⟩

/-- Four rows and two centroids, on the calling thread and on three workers. -/
theorem training_independent_of_three_threads :
    0 < 1 ∧ [0, 1, 10, 11].length = 4 * 1 ∧
    fitFlatKmeansFromCentroids naturalKernels ⟨.serial, 1, none, 4⟩ [0, 1, 10, 11] 1 4
        ⟨2, 20, 42, .flat⟩ [0, 1] =
      fitFlatKmeansFromCentroids naturalKernels ⟨.rayon 0, 3, none, 4⟩ [0, 1, 10, 11] 1 4
        ⟨2, 20, 42, .flat⟩ [0, 1] ∧
    ∀ (context : ParalliteContext) (current : F32Slice ℕ) (rowsPerRange : ℕ),
      (∀ rowId < 4, FiniteRow naturalKernels [0, 1, 10, 11] 1 current.val rowId) →
      ∃ inertia, assignAndSumAll naturalKernels context [0, 1, 10, 11] 4 1 current.val
          (rowRanges 4 rowsPerRange) =
        .ok ⟨sequentialSums naturalKernels [0, 1, 10, 11] 1 4 current.val,
          sequentialCounts naturalKernels [0, 1, 10, 11] 1 4 current.val, inertia⟩ :=
  ⟨by decide, rfl, training_independent_of_threads naturalKernels ⟨[0, 1, 10, 11], by decide⟩
    ⟨[0, 1], by decide⟩ 1 4 ⟨2, 20, 42, .flat⟩ (by decide) rfl ⟨.serial, 1, none, 4⟩
    ⟨.rayon 0, 3, none, 4⟩⟩

end ParqDB.Kmeans
