import Mathlib.Algebra.BigOperators.Group.List.Lemmas
import ParqDB.Kmeans.ChildCounts

/-!
# Grouping rows by their cluster

`partition_rows` of the k-means crate is a counting sort: it counts the labels, adds the counts up
to offsets, and places every row at the next free position of its cluster.

**Results.**

* `partitionRows_eq_ok`: between the offsets of a cluster stand the rows with its label, in their
  order.
* `partitionRows_stable_iff`: the sort is stable, and it fails only if a label is no cluster.
-/

namespace ParqDB.Kmeans

open Foundations

/-! ## The sort -/

/-- Counts one label. -/
def countLabel (clusterCount : ℕ) (offsets : List ℕ) (label : ℕ) : Except Failure (List ℕ) := do
  rejectIf (clusterCount ≤ label)
    (.invalidArgument s!"K-means label {label} exceeds cluster count {clusterCount}")
  .ok (offsets.modify (label + 1) (· + 1))

/-- The loop that adds the counts up. -/
def accumulate (offsets : List ℕ) : List ℕ :=
  (List.range (offsets.length - 1)).foldl (fun offsets index =>
    offsets.set (index + 1) (offsets.getD (index + 1) 0 + offsets.getD index 0)) offsets

/-- The rows that have been placed, and the next position of every cluster. -/
structure Placing where
  next : List ℕ
  rows : List ℕ

def Placing.place (placing : Placing) (entry : ℕ × ℕ) : Placing where
  next := placing.next.modify entry.1 (· + 1)
  rows := placing.rows.set (placing.next.getD entry.1 0) entry.2

structure RowPartition where
  offsets : List ℕ
  rows : List ℕ
  deriving DecidableEq

/-- `partition_rows`. -/
def partitionRows (labels : List ℕ) (clusterCount : ℕ) : Except Failure RowPartition := do
  let counted ← labels.foldlM (countLabel clusterCount) (List.replicate (clusterCount + 1) 0)
  let offsets := accumulate counted
  let placed := labels.zipIdx.foldl Placing.place
    ⟨offsets.take clusterCount, List.replicate labels.length 0⟩
  .ok ⟨offsets, placed.rows⟩

/-! ## What it is to produce -/

/-- The rows of a cluster. -/
def clusterRows (labels : List ℕ) (cluster : ℕ) : List ℕ :=
  (labels.zipIdx.filter fun entry => entry.1 = cluster).map Prod.snd

/-- The number of rows of the clusters before one. -/
def rowsBefore (labels : List ℕ) (cluster : ℕ) : ℕ := labels.countP (· < cluster)

theorem length_clusterRows (labels : List ℕ) (cluster : ℕ) :
    (clusterRows labels cluster).length = labels.count cluster := by
  have hfst : labels = labels.zipIdx.map Prod.fst := by simp
  unfold clusterRows
  rw [List.length_map, ← List.countP_eq_length_filter]
  conv_rhs => rw [hfst, List.count_eq_countP, List.countP_map]
  rfl

variable {labels : List ℕ}

theorem mem_clusterRows {cluster rowId : ℕ} :
    rowId ∈ clusterRows labels cluster ↔ labels[rowId]? = some cluster := by
  unfold clusterRows
  rw [List.mem_map]
  constructor
  · rintro ⟨⟨label, position⟩, hentry, rfl⟩
    obtain ⟨hmem, hlabel⟩ := List.mem_filter.mp hentry
    have hsame : label = cluster := of_decide_eq_true hlabel
    rw [← hsame]
    exact List.mk_mem_zipIdx_iff_getElem?.mp hmem
  · intro hlabel
    refine ⟨(cluster, rowId), List.mem_filter.mpr ⟨?_, by simp⟩, rfl⟩
    exact List.mk_mem_zipIdx_iff_getElem?.mpr hlabel

theorem clusterRows_append (done : List ℕ) (label cluster : ℕ) :
    clusterRows (done ++ [label]) cluster =
      clusterRows done cluster ++ if label = cluster then [done.length] else [] := by
  unfold clusterRows
  rw [List.zipIdx_append, List.filter_append, List.map_append]
  congr 1
  by_cases hsame : label = cluster
  · simp [hsame]
  · simp [hsame]

theorem rowsBefore_succ (labels : List ℕ) (cluster : ℕ) :
    rowsBefore labels (cluster + 1) = rowsBefore labels cluster + labels.count cluster := by
  unfold rowsBefore
  induction labels with
  | nil => rfl
  | cons label rest ih =>
      rw [List.countP_cons, List.countP_cons, List.count_cons, ih]
      rcases Nat.lt_trichotomy label cluster with hlt | rfl | hgt
      · have hne : ¬ (label == cluster) = true := by simp; omega
        simp only [hne, decide_eq_true_eq, hlt, Nat.lt_succ_of_lt hlt]
        simp
        omega
      · simp
        omega
      · have hne : ¬ (label == cluster) = true := by simp; omega
        have hlow : ¬ label < cluster := by omega
        have hhigh : ¬ label < cluster + 1 := by omega
        simp [hlow, hhigh, hne]

theorem rowsBefore_mono (labels : List ℕ) {first second : ℕ} (hle : first ≤ second) :
    rowsBefore labels first ≤ rowsBefore labels second := by
  apply List.countP_mono_left
  intro label _ hlabel
  have hlt : label < first := of_decide_eq_true hlabel
  exact decide_eq_true (Nat.lt_of_lt_of_le hlt hle)

theorem rowsBefore_le_length (labels : List ℕ) (cluster : ℕ) :
    rowsBefore labels cluster ≤ labels.length := List.countP_le_length

theorem rowsBefore_all {clusterCount : ℕ} (hlabels : ∀ label ∈ labels, label < clusterCount) :
    rowsBefore labels clusterCount = labels.length :=
  List.countP_eq_length.mpr fun label hlabel => decide_eq_true (hlabels label hlabel)

/-- The offsets of all clusters, and the end of the last one. -/
def rowOffsets (labels : List ℕ) (clusterCount : ℕ) : List ℕ :=
  (List.range (clusterCount + 1)).map (rowsBefore labels)

/-! ## The offsets -/

section

variable {clusterCount position : ℕ} {counted : List ℕ} {rounds : ℕ}

/-- A label that was counted is not left to be counted. -/
theorem counted_once {offsets : List ℕ} (hinside : position < offsets.length) (label : ℕ)
    (rest : List ℕ) :
    (offsets.modify (label + 1) (· + 1)).getD position 0 + rest.countP (· + 1 = position) =
      offsets.getD position 0 + (label :: rest).countP (· + 1 = position) := by
  rw [List.getD_eq_getElem?_getD, List.getD_eq_getElem?_getD, List.getElem?_modify,
    List.countP_cons, List.getElem?_eq_getElem hinside]
  by_cases hsame : label + 1 = position
  · simp [hsame]
    omega
  · simp [hsame]

/-- What the loop over the labels counts. -/
theorem countLabels_eq_ok {offsets : List ℕ} (hlength : offsets.length = clusterCount + 1) :
    labels.foldlM (countLabel clusterCount) offsets = .ok counted ↔
      (∀ label ∈ labels, label < clusterCount) ∧
        counted = (List.range (clusterCount + 1)).map fun position =>
          offsets.getD position 0 + labels.countP (· + 1 = position) := by
  induction labels generalizing offsets with
  | nil =>
      have hsame : (List.range (clusterCount + 1)).map (fun position => offsets.getD position 0) =
          offsets := by
        apply List.ext_getElem
        · rw [List.length_map, List.length_range, hlength]
        · intro position hposition hinside
          rw [List.getElem_map, List.getElem_range, List.getD_eq_getElem _ _ hinside]
      simp only [List.foldlM_nil, List.countP_nil, Nat.add_zero, hsame, List.not_mem_nil,
        false_implies, implies_true, true_and]
      exact ⟨fun heq => (Except.ok.inj heq).symm, fun heq => by rw [heq]; rfl⟩
  | cons label rest ih =>
      rw [List.foldlM_cons, bind_eq_ok, List.forall_mem_cons]
      constructor
      · rintro ⟨once, honce, hrest⟩
        unfold countLabel at honce
        rw [rejectIf_bind_eq_ok] at honce
        obtain ⟨hlabel, honce⟩ := honce
        cases honce
        obtain ⟨hall, rfl⟩ := (ih (by rw [List.length_modify, hlength])).mp hrest
        refine ⟨⟨by omega, hall⟩, List.map_congr_left fun position hposition => ?_⟩
        exact counted_once (hlength ▸ List.mem_range.mp hposition) label rest
      · rintro ⟨⟨hlabel, hall⟩, rfl⟩
        refine ⟨offsets.modify (label + 1) (· + 1), ?_, ?_⟩
        · unfold countLabel
          rw [rejectIf_bind_eq_ok]
          exact ⟨by omega, rfl⟩
        · rw [ih (by rw [List.length_modify, hlength])]
          refine ⟨hall, List.map_congr_left fun position hposition => ?_⟩
          exact (counted_once (hlength ▸ List.mem_range.mp hposition) label rest).symm

theorem countP_succ_eq (labels : List ℕ) (position : ℕ) :
    labels.countP (· + 1 = position + 1) = labels.count position := by
  rw [List.count_eq_countP]
  congr 1
  funext label
  simp [beq_eq_decide]

/-- The offsets after some rounds of the loop that adds the counts up. -/
def partlyAccumulated (labels : List ℕ) (clusterCount rounds : ℕ) : List ℕ :=
  (List.range (clusterCount + 1)).map fun position =>
    if position ≤ rounds then rowsBefore labels position
    else labels.countP (· + 1 = position)

theorem getD_partlyAccumulated (hposition : position < clusterCount + 1) :
    (partlyAccumulated labels clusterCount rounds).getD position 0 =
      if position ≤ rounds then rowsBefore labels position
      else labels.countP (· + 1 = position) :=
  getD_map_range _ hposition

theorem partlyAccumulated_succ (hrounds : rounds < clusterCount) :
    (partlyAccumulated labels clusterCount rounds).set (rounds + 1)
        ((partlyAccumulated labels clusterCount rounds).getD (rounds + 1) 0 +
          (partlyAccumulated labels clusterCount rounds).getD rounds 0) =
      partlyAccumulated labels clusterCount (rounds + 1) := by
  rw [getD_partlyAccumulated (by omega), getD_partlyAccumulated (by omega), if_neg (by omega),
    if_pos le_rfl, countP_succ_eq, Nat.add_comm (labels.count rounds), ← rowsBefore_succ]
  unfold partlyAccumulated
  apply List.ext_getElem
  · simp
  · intro position hposition _
    rw [List.getElem_set]
    simp only [List.getElem_map, List.getElem_range]
    by_cases hsame : rounds + 1 = position
    · rw [if_pos hsame, if_pos (by omega), hsame]
    · rw [if_neg hsame]
      by_cases hle : position ≤ rounds
      · rw [if_pos hle, if_pos (by omega)]
      · rw [if_neg hle, if_neg (by omega)]

theorem accumulate_partly :
    accumulate (partlyAccumulated labels clusterCount 0) = rowOffsets labels clusterCount := by
  have hrounds : ∀ rounds, rounds ≤ clusterCount →
      (List.range rounds).foldl (fun offsets index =>
        offsets.set (index + 1) (offsets.getD (index + 1) 0 + offsets.getD index 0))
        (partlyAccumulated labels clusterCount 0) =
      partlyAccumulated labels clusterCount rounds := by
    intro rounds hle
    induction rounds with
    | zero => rfl
    | succ rounds ih =>
        rw [List.range_succ, List.foldl_append, ih (by omega), List.foldl_cons, List.foldl_nil]
        exact partlyAccumulated_succ (by omega)
  have hlength : (partlyAccumulated labels clusterCount 0).length - 1 = clusterCount := by
    simp [partlyAccumulated]
  unfold accumulate
  rw [hlength, hrounds clusterCount le_rfl]
  unfold partlyAccumulated rowOffsets
  refine List.map_congr_left fun position hposition => ?_
  have hinside := List.mem_range.mp hposition
  rw [if_pos (by omega)]

/-- The counting passes yield the offsets, if all labels are clusters. -/
theorem offsets_eq_ok :
    labels.foldlM (countLabel clusterCount) (List.replicate (clusterCount + 1) 0) = .ok counted ↔
      (∀ label ∈ labels, label < clusterCount) ∧
        counted = partlyAccumulated labels clusterCount 0 := by
  rw [countLabels_eq_ok (List.length_replicate ..)]
  refine and_congr_right fun _ => ?_
  have hsame : (List.range (clusterCount + 1)).map (fun position =>
      (List.replicate (clusterCount + 1) 0).getD position 0 +
        labels.countP (· + 1 = position)) = partlyAccumulated labels clusterCount 0 := by
    unfold partlyAccumulated
    refine List.map_congr_left fun position hposition => ?_
    have hinside := List.mem_range.mp hposition
    rw [List.getD_eq_getElem _ _ (by rw [List.length_replicate]; exact hinside),
      List.getElem_replicate, Nat.zero_add]
    by_cases hzero : position ≤ 0
    · have hnone : position = 0 := by omega
      subst hnone
      simp [rowsBefore]
    · rw [if_neg hzero]
  rw [hsame]

end

/-! ## The placement -/

section

variable {clusterCount : ℕ}

/-- The rows of the labels that are done stand where they belong. -/
structure Placed (labels : List ℕ) (clusterCount : ℕ) (done : List ℕ) (placing : Placing) :
    Prop where
  size : placing.rows.length = labels.length
  clusters : placing.next.length = clusterCount
  next : ∀ cluster < clusterCount,
    placing.next.getD cluster 0 = rowsBefore labels cluster + done.count cluster
  rows : ∀ cluster < clusterCount, ∀ index rowId,
    (clusterRows done cluster)[index]? = some rowId →
      placing.rows[rowsBefore labels cluster + index]? = some rowId

/-- The positions of two clusters lie apart. -/
theorem position_ne {first second firstIndex secondIndex : ℕ} (hne : first ≠ second)
    (hfirst : firstIndex < labels.count first) (hsecond : secondIndex < labels.count second) :
    rowsBefore labels first + firstIndex ≠ rowsBefore labels second + secondIndex := by
  have hfirstEnd := rowsBefore_succ labels first
  have hsecondEnd := rowsBefore_succ labels second
  rcases Nat.lt_or_gt_of_ne hne with hlt | hgt
  · have hbefore := rowsBefore_mono labels (show first + 1 ≤ second from hlt)
    omega
  · have hbehind := rowsBefore_mono labels (show second + 1 ≤ first from hgt)
    omega

theorem Placed.place {done rest : List ℕ} {label : ℕ} {placing : Placing}
    (hlabels : labels = done ++ label :: rest) (hlabel : label < clusterCount)
    (hplaced : Placed labels clusterCount done placing) :
    Placed labels clusterCount (done ++ [label]) (placing.place (label, done.length)) := by
  obtain ⟨hsize, hclusters, hnext, hrows⟩ := hplaced
  have hcount : labels.count label = done.count label + (rest.count label + 1) := by
    rw [hlabels, List.count_append, List.count_cons_self]
  have hposition : rowsBefore labels label + done.count label < placing.rows.length := by
    have hend := rowsBefore_succ labels label
    have hall := rowsBefore_le_length labels (label + 1)
    omega
  refine ⟨?_, ?_, ?_, ?_⟩
  · unfold Placing.place
    rw [List.length_set, hsize]
  · unfold Placing.place
    rw [List.length_modify, hclusters]
  · intro cluster hcluster
    have hbefore := hnext cluster hcluster
    have hinside : cluster < placing.next.length := hclusters ▸ hcluster
    rw [List.getD_eq_getElem _ _ hinside] at hbefore
    unfold Placing.place
    rw [List.getD_eq_getElem?_getD, List.getElem?_modify, List.getElem?_eq_getElem hinside,
      List.count_append, List.count_singleton]
    by_cases hsame : label = cluster
    · simp [hsame, hbefore]
      omega
    · simp [hsame, hbefore]
  · intro cluster hcluster index rowId hrow
    unfold Placing.place
    dsimp only
    rw [hnext label hlabel]
    rw [clusterRows_append] at hrow
    rcases Nat.lt_or_ge index (clusterRows done cluster).length with hold | hnew
    · rw [List.getElem?_append_left hold] at hrow
      have hne : rowsBefore labels label + done.count label ≠
          rowsBefore labels cluster + index := by
        rw [length_clusterRows] at hold
        by_cases hsame : label = cluster
        · subst hsame
          omega
        · have hcounts : done.count cluster ≤ labels.count cluster := by
            rw [hlabels, List.count_append]
            exact Nat.le_add_right _ _
          exact position_ne hsame (by omega) (by omega)
      rw [List.getElem?_set_ne hne]
      exact hrows cluster hcluster index rowId hrow
    · rw [List.getElem?_append_right hnew] at hrow
      split at hrow
      · next hsame =>
          subst hsame
          rw [length_clusterRows] at hnew hrow
          -- the new row is the only one that comes after those that were there
          have hlast : index = done.count label := by
            by_contra hbeyond
            rw [List.getElem?_eq_none (by rw [List.length_singleton]; omega)] at hrow
            cases hrow
          subst hlast
          rw [Nat.sub_self, List.getElem?_cons_zero] at hrow
          rw [List.getElem?_set_self hposition, ← Option.some.inj hrow]
      · simp at hrow

theorem Placed.foldl {done rest : List ℕ} {placing : Placing} (hlabels : labels = done ++ rest)
    (hclusters : ∀ label ∈ rest, label < clusterCount)
    (hplaced : Placed labels clusterCount done placing) :
    Placed labels clusterCount labels
      ((rest.zipIdx done.length).foldl Placing.place placing) := by
  induction rest generalizing done placing with
  | nil =>
      rw [List.append_nil] at hlabels
      rw [hlabels] at hplaced ⊢
      exact hplaced
  | cons label rest ih =>
      rw [List.forall_mem_cons] at hclusters
      rw [List.zipIdx_cons, List.foldl_cons]
      have hnext := hplaced.place hlabels hclusters.1
      have hmore : labels = (done ++ [label]) ++ rest := by
        rw [hlabels]
        simp
      have hlast := ih hmore hclusters.2 hnext
      rwa [List.length_append, List.length_singleton] at hlast

theorem Placed.initial : Placed labels clusterCount []
    ⟨(rowOffsets labels clusterCount).take clusterCount, List.replicate labels.length 0⟩ where
  size := List.length_replicate ..
  clusters := by simp [rowOffsets]
  next := by
    intro cluster hcluster
    have hinside : cluster < ((rowOffsets labels clusterCount).take clusterCount).length := by
      simpa [rowOffsets] using hcluster
    rw [List.getD_eq_getElem _ _ hinside]
    simp [rowOffsets]
  rows := by
    intro cluster _ index rowId hrow
    simp [clusterRows] at hrow

/-- The rows between the offsets of a cluster. -/
def RowPartition.rowsOf (partition : RowPartition) (cluster : ℕ) : List ℕ :=
  (partition.rows.drop (partition.offsets.getD cluster 0)).take
    (partition.offsets.getD (cluster + 1) 0 - partition.offsets.getD cluster 0)

/-- A grouping of the rows by their labels. -/
structure Groups (labels : List ℕ) (clusterCount : ℕ) (partition : RowPartition) : Prop where
  labelled : ∀ label ∈ labels, label < clusterCount
  offsets : partition.offsets = rowOffsets labels clusterCount
  size : partition.rows.length = labels.length
  rows : ∀ cluster < clusterCount, partition.rowsOf cluster = clusterRows labels cluster

theorem getD_rowOffsets {cluster : ℕ} (hcluster : cluster ≤ clusterCount) :
    (rowOffsets labels clusterCount).getD cluster 0 = rowsBefore labels cluster :=
  getD_map_range _ (by omega)

theorem partitionRows_eq_ok {partition : RowPartition}
    (hpartition : partitionRows labels clusterCount = .ok partition) :
    Groups labels clusterCount partition := by
  unfold partitionRows at hpartition
  rw [bind_eq_ok] at hpartition
  obtain ⟨counted, hcounted, hpartition⟩ := hpartition
  obtain ⟨hlabels, rfl⟩ := offsets_eq_ok.mp hcounted
  dsimp only at hpartition
  rw [accumulate_partly] at hpartition
  have hplaced := @Placed.foldl labels clusterCount [] labels _ (List.nil_append _).symm hlabels
    Placed.initial
  rw [List.length_nil] at hplaced
  cases hpartition
  refine ⟨hlabels, rfl, hplaced.size, fun cluster hcluster => ?_⟩
  have hsucc := rowsBefore_succ labels cluster
  unfold RowPartition.rowsOf
  dsimp only
  rw [getD_rowOffsets (by omega), getD_rowOffsets (by omega), hsucc, Nat.add_sub_cancel_left]
  apply List.ext_getElem?
  intro index
  rw [List.getElem?_take]
  split
  · next hindex =>
      rw [List.getElem?_drop]
      have hinside : index < (clusterRows labels cluster).length := by
        rw [length_clusterRows]
        exact hindex
      rw [List.getElem?_eq_getElem hinside]
      exact hplaced.rows cluster hcluster index _ (List.getElem?_eq_getElem hinside)
  · next hindex =>
      rw [List.getElem?_eq_none]
      rw [length_clusterRows]
      omega

/-- The rows are grouped if all labels are clusters. -/
theorem exists_partitionRows (hlabels : ∀ label ∈ labels, label < clusterCount) :
    ∃ partition, partitionRows labels clusterCount = .ok partition := by
  unfold partitionRows
  rw [offsets_eq_ok.mpr ⟨hlabels, rfl⟩, ok_bind]
  exact ⟨_, rfl⟩

/-! ## A stable sort -/

theorem clusterRows_eq_filter (labels : List ℕ) (cluster : ℕ) :
    clusterRows labels cluster =
      (List.range labels.length).filter fun rowId => labels[rowId]? = some cluster := by
  have hrows : List.range labels.length = labels.zipIdx.map Prod.snd := by
    rw [List.zipIdx_map_snd, List.range_eq_range']
  unfold clusterRows
  rw [hrows, List.filter_map]
  congr 1
  apply List.filter_congr
  rintro ⟨label, rowId⟩ hentry
  have hlabel : labels[rowId]? = some label := List.mk_mem_zipIdx_iff_getElem?.mp hentry
  simp [hlabel]

/-- The rows are sorted by their labels, and the rows of a label stand in their order. -/
structure StableSort (labels : List ℕ) (clusterCount : ℕ) (partition : RowPartition) : Prop where
  length : partition.offsets.length = clusterCount + 1
  first : partition.offsets.head? = some 0
  last : partition.offsets.getLast? = some labels.length
  ascending : partition.offsets.Pairwise (· ≤ ·)
  rows : partition.rows.Perm (List.range labels.length)
  clusters : ∀ cluster < clusterCount, partition.rowsOf cluster =
    (List.range labels.length).filter fun rowId => labels[rowId]? = some cluster

namespace Groups

variable {partition : RowPartition}

/-- No row is missing, so none stands there twice. -/
theorem perm (hgroups : Groups labels clusterCount partition) :
    partition.rows.Perm (List.range labels.length) := by
  have hsubset : List.range labels.length ⊆ partition.rows := by
    intro rowId hrow
    have hlt := List.mem_range.mp hrow
    have hlabel := hgroups.labelled labels[rowId] (List.getElem_mem hlt)
    have hmem : rowId ∈ partition.rowsOf labels[rowId] := by
      rw [hgroups.rows _ hlabel, mem_clusterRows]
      exact List.getElem?_eq_getElem hlt
    exact List.mem_of_mem_drop (List.mem_of_mem_take hmem)
  have hsubperm : List.Subperm (List.range labels.length) partition.rows :=
    List.subperm_of_subset List.nodup_range hsubset
  refine (hsubperm.perm_of_length_le ?_).symm
  rw [hgroups.size, List.length_range]

theorem stableSort (hgroups : Groups labels clusterCount partition) :
    StableSort labels clusterCount partition where
  length := by
    rw [hgroups.offsets, rowOffsets, List.length_map, List.length_range]
  first := by
    rw [hgroups.offsets, rowOffsets, List.range_succ_eq_map]
    simp [rowsBefore]
  last := by
    rw [hgroups.offsets, rowOffsets, List.range_succ, List.map_append, List.map_singleton,
      List.getLast?_concat, rowsBefore_all hgroups.labelled]
  ascending := by
    rw [hgroups.offsets, rowOffsets, List.pairwise_map]
    exact List.pairwise_le_range.imp fun hle => rowsBefore_mono labels hle
  rows := hgroups.perm
  clusters := by
    intro cluster hcluster
    rw [hgroups.rows cluster hcluster, clusterRows_eq_filter]

end Groups

/-- The rows are sorted if all labels are clusters; otherwise the call fails. -/
theorem partitionRows_stable_iff (labels : List ℕ) (clusterCount : ℕ) :
    ((∃ partition, partitionRows labels clusterCount = .ok partition ∧
        StableSort labels clusterCount partition) ↔ ∀ label ∈ labels, label < clusterCount) ∧
      ((∃ failure, partitionRows labels clusterCount = .error failure) ↔
        ∃ label ∈ labels, clusterCount ≤ label) := by
  have hsorted : (∀ label ∈ labels, label < clusterCount) ↔
      ∃ partition, partitionRows labels clusterCount = .ok partition := by
    constructor
    · exact exists_partitionRows
    · rintro ⟨partition, hpartition⟩
      exact (partitionRows_eq_ok hpartition).labelled
  constructor
  · rw [hsorted]
    constructor
    · rintro ⟨partition, hpartition, -⟩
      exact ⟨partition, hpartition⟩
    · rintro ⟨partition, hpartition⟩
      exact ⟨partition, hpartition, (partitionRows_eq_ok hpartition).stableSort⟩
  · have houtside : (∃ label ∈ labels, clusterCount ≤ label) ↔
        ¬ ∀ label ∈ labels, label < clusterCount := by
      simp
    rw [houtside, hsorted]
    cases partitionRows labels clusterCount with
    | ok partition => simp
    | error failure => simp

end

end ParqDB.Kmeans
