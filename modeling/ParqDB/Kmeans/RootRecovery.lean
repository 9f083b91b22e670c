import ParqDB.Foundations.GreedyHalving
import ParqDB.Kmeans.RowPartitions
import ParqDB.Kmeans.Sampling

/-!
# Reseeding deficient roots

`reseed_deficient_roots` of the k-means crate gives every root partition with too few rows a new
centroid: the row of the largest other partition that is farthest from its centroid.  Half of the
count of that partition is taken away, but none of its rows, and its centroid stays.

So a partition that is chosen twice gives the same row twice.

**Strategy.**  The donors are picked by greedy halving (`reseedLoop_eq`), and different donors give
different rows (`farthest_injective`).

**Results.**  `reseed_spreads_iff`: the seeds are different rows exactly if the last donor in the
order of the row counts is before all others once these are halved; `dominant_donor_repeats`.
-/

namespace ParqDB.Kmeans

open Foundations Foundations.GreedyHalving

/-! ## The recovery -/

/-- Which roots have fewer rows than they need. -/
def deficientRoots (counts childCounts : List ℕ) : List Bool :=
  List.zipWith (fun available required => decide (available < required)) counts childCounts

def isDeficient (deficient : List Bool) (root : ℕ) : Bool := deficient.getD root false

/-- The roots that can give a row. -/
def donorRoots (deficient : List Bool) (rootCount : ℕ) : List ℕ :=
  (List.range rootCount).filter fun candidate => !isDeficient deficient candidate

/-- The roots that need one. -/
def needyRoots (deficient : List Bool) (rootCount : ℕ) : List ℕ :=
  (List.range rootCount).filter (isDeficient deficient)

/-- The state of the loop.  `copies` says which row was copied to which root; the code does not
keep it. -/
structure Reseeding (Value : Type) where
  counts : List ℕ
  centroids : List Value
  copies : List (ℕ × ℕ)
  deriving DecidableEq

section

variable {Value Distance : Type} [LinearOrder Distance] (distance : List Value → List Value → Distance)
  (vectors : List Value) (dimension : ℕ) (partition : RowPartition)

/-- The row that is farthest from a centroid, the first one among equals. -/
def farthestRow (centroid : List Value) (rows : List ℕ) : Option ℕ :=
  rows.argmax fun rowId => toLex (distance (row vectors dimension rowId) centroid,
    OrderDual.toDual rowId)

/-- One round of the loop over the roots.  No two donors and no two rows compare equal, so it does
not matter which of equal ones a maximum is. -/
def reseedRound (deficient : List Bool) (reseeding : Reseeding Value) (root : ℕ) :
    Except Failure (Reseeding Value) :=
  if !isDeficient deficient root then .ok reseeding
  else
    match (donorRoots deficient reseeding.counts.length).argmax
        (rank fun candidate => reseeding.counts.getD candidate 0) with
    | none => .error (.invalidArgument "root recovery could not find a populated donor partition")
    | some donor =>
        match farthestRow distance vectors dimension (row reseeding.centroids dimension donor)
            (partition.rowsOf donor) with
        | none => .error (.invalidArgument "root recovery donor partition is empty")
        | some farthest =>
            let split := reseeding.counts.getD donor 0 / 2
            .ok {
              counts := (reseeding.counts.set root split).modify donor (· - split)
              centroids := putRow reseeding.centroids (root * dimension)
                (row vectors dimension farthest)
              copies := reseeding.copies ++ [(root, farthest)] }

/-- The row counts of the partitions. -/
def rowCounts (partition : RowPartition) : List ℕ :=
  (windows partition.offsets).map fun range => range.2 - range.1

def reseedDeficientRoots (childCounts : List ℕ) (centroids : List Value) :
    Except Failure (Reseeding Value) :=
  let counts := rowCounts partition
  let deficient := deficientRoots counts childCounts
  if deficient.length < counts.length then .error .indexOutOfBounds
  else
    (List.range counts.length).foldlM (reseedRound distance vectors dimension partition deficient)
      ⟨counts, centroids, []⟩

end

/-- Different roots get different rows. -/
def SpreadsSeeds (copies : List (ℕ × ℕ)) : Prop :=
  ∀ first ∈ copies, ∀ second ∈ copies, first.1 ≠ second.1 → first.2 ≠ second.2

instance (copies : List (ℕ × ℕ)) : Decidable (SpreadsSeeds copies) :=
  inferInstanceAs (Decidable (∀ first ∈ copies, ∀ second ∈ copies,
    first.1 ≠ second.1 → first.2 ≠ second.2))

/-- The last donor that is needed, in the order of the row counts, is before all others once these
have given half of their rows away. -/
def DonorsSuffice (counts : List ℕ) (deficient : List Bool) : Prop :=
  needyRoots deficient counts.length = [] ∨
    Leads (donorRoots deficient counts.length) (fun root => counts.getD root 0)
      ((needyRoots deficient counts.length).length - 1)

instance (counts : List ℕ) (deficient : List Bool) : Decidable (DonorsSuffice counts deficient) :=
  inferInstanceAs (Decidable (_ ∨ _))

/-! ## Seeds of different donors -/

section

theorem spreadsSeeds_zip {roots rowIds : List ℕ} (hroots : roots.Nodup)
    (hlength : rowIds.length = roots.length) :
    SpreadsSeeds (roots.zip rowIds) ↔ rowIds.Nodup := by
  constructor
  · intro hspreads
    rw [List.Nodup, List.pairwise_iff_getElem]
    intro first second hfirst hsecond hlt
    have hzip (index : ℕ) (hindex : index < rowIds.length) (hroot : index < roots.length) :
        (roots[index], rowIds[index]) ∈ roots.zip rowIds := by
      have hinside : index < (roots.zip rowIds).length := by
        rw [List.length_zip]
        omega
      rw [← List.getElem_zip (h := hinside)]
      exact List.getElem_mem hinside
    refine hspreads _ (hzip first hfirst (by omega)) _ (hzip second hsecond (by omega))
      fun hsame => ?_
    have hindex := (List.Nodup.getElem_inj_iff hroots).mp hsame
    omega
  · intro hnodup first hfirst second hsecond hne hsame
    obtain ⟨index, hindex, rfl⟩ := List.mem_iff_getElem.mp hfirst
    obtain ⟨other, hother, rfl⟩ := List.mem_iff_getElem.mp hsecond
    rw [List.getElem_zip, List.getElem_zip] at hne hsame
    have hequal := (List.Nodup.getElem_inj_iff hnodup).mp hsame
    subst hequal
    exact hne rfl

end

section

variable {Value Distance : Type} [LinearOrder Distance] {distance : List Value → List Value → Distance}
  {vectors : List Value} {dimension : ℕ} {partition : RowPartition} {labels : List ℕ}
  {clusterCount : ℕ}

/-- The row that a donor gives. -/
def seedOf (distance : List Value → List Value → Distance) (vectors : List Value) (dimension : ℕ)
    (partition : RowPartition) (centroids : List Value) (donor : ℕ) : ℕ :=
  (farthestRow distance vectors dimension (row centroids dimension donor)
    (partition.rowsOf donor)).getD 0

section

variable (hgroups : Groups labels clusterCount partition)

include hgroups

theorem farthestRow_eq (centroids : List Value)
    {donor : ℕ} (hdonor : donor < clusterCount) (hrows : 0 < labels.count donor) :
    farthestRow distance vectors dimension (row centroids dimension donor)
        (partition.rowsOf donor) =
      some (seedOf distance vectors dimension partition centroids donor) ∧
    labels[seedOf distance vectors dimension partition centroids donor]? = some donor := by
  cases hfarthest : farthestRow distance vectors dimension (row centroids dimension donor)
      (partition.rowsOf donor) with
  | none =>
      unfold farthestRow at hfarthest
      rw [List.argmax_eq_none, hgroups.rows donor hdonor] at hfarthest
      have hlength := length_clusterRows labels donor
      rw [hfarthest, List.length_nil] at hlength
      omega
  | some rowId =>
      have hseed : seedOf distance vectors dimension partition centroids donor = rowId := by
        unfold seedOf
        rw [hfarthest, Option.getD_some]
      rw [hseed]
      refine ⟨rfl, ?_⟩
      unfold farthestRow at hfarthest
      have hmem := List.argmax_mem hfarthest
      rw [hgroups.rows donor hdonor] at hmem
      exact mem_clusterRows.mp hmem

/-- Different donors give different rows. -/
theorem seedOf_injective (centroids : List Value)
    {first second : ℕ} (hfirst : first < clusterCount) (hsecond : second < clusterCount)
    (hfirstRows : 0 < labels.count first) (hsecondRows : 0 < labels.count second)
    (hsame : seedOf distance vectors dimension partition centroids first =
      seedOf distance vectors dimension partition centroids second) : first = second := by
  have hone := (@farthestRow_eq _ _ _ distance vectors dimension _ _ _ hgroups centroids _ hfirst
    hfirstRows).2
  have htwo := (@farthestRow_eq _ _ _ distance vectors dimension _ _ _ hgroups centroids _ hsecond
    hsecondRows).2
  rw [hsame, htwo] at hone
  exact (Option.some.inj hone).symm

theorem length_rowCounts :
    (rowCounts partition).length = clusterCount := by
  unfold rowCounts
  rw [List.length_map, length_windows, rootCount, hgroups.offsets, rowOffsets, List.length_map,
    List.length_range, Nat.add_sub_cancel]

theorem getD_rowCounts {root : ℕ}
    (hroot : root < clusterCount) : (rowCounts partition).getD root 0 = labels.count root := by
  have hwindow : (windows partition.offsets)[root]? =
      some (rowsBefore labels root, rowsBefore labels (root + 1)) := by
    have hentry : ((partition.offsets.getD root 0, partition.offsets.getD (root + 1) 0), root) ∈
        (windows partition.offsets).zipIdx := by
      rw [windows_zipIdx]
      apply List.mem_map_of_mem
      rw [List.mem_range, rootCount, hgroups.offsets, rowOffsets, List.length_map,
        List.length_range]
      omega
    rw [hgroups.offsets, getD_rowOffsets (by omega), getD_rowOffsets (by omega)] at hentry
    rw [hgroups.offsets]
    exact List.mk_mem_zipIdx_iff_getElem?.mp hentry
  unfold rowCounts
  rw [List.getD_eq_getElem?_getD, List.getElem?_map, hwindow, Option.map_some, Option.getD_some,
    rowsBefore_succ, Nat.add_sub_cancel_left]

end

end

/-! ## The loop picks donors greedily -/

section

variable {Value Distance : Type} [LinearOrder Distance] {distance : List Value → List Value → Distance}
  {vectors : List Value} {dimension : ℕ} {partition : RowPartition} {labels : List ℕ}
  {clusterCount : ℕ} {deficient : List Bool} {centroids : List Value}

theorem mem_donorRoots {root : ℕ} :
    root ∈ donorRoots deficient clusterCount ↔ root < clusterCount ∧ isDeficient deficient root = false := by
  unfold donorRoots
  rw [List.mem_filter, List.mem_range, Bool.not_eq_true']

/-- The counts and the centroids of the donors, at some point of the loop. -/
structure Reseeds (labels : List ℕ) (clusterCount : ℕ) (deficient : List Bool) (dimension : ℕ)
    (centroids : List Value) (weight : ℕ → ℕ) (reseeding : Reseeding Value) : Prop where
  length : reseeding.counts.length = clusterCount
  counts : ∀ donor ∈ donorRoots deficient clusterCount, reseeding.counts.getD donor 0 = weight donor
  shape : reseeding.centroids.length = centroids.length
  centroids : ∀ donor ∈ donorRoots deficient clusterCount,
    row reseeding.centroids dimension donor = row centroids dimension donor
  bound : ∀ donor, weight donor ≤ labels.count donor
  some_rows : ∃ donor ∈ donorRoots deficient clusterCount, 0 < weight donor

theorem halve_le (weight : ℕ) : halve weight ≤ weight := Nat.sub_le _ _

theorem halve_pos {weight : ℕ} (hweight : 0 < weight) : 0 < halve weight := by
  unfold halve
  omega

theorem Reseeds.round {weight : ℕ → ℕ} {reseeding : Reseeding Value} {root rowId donor : ℕ}
    (hwidth : (row vectors dimension rowId).length = dimension)
    (hcentroids : clusterCount ≤ centroids.length / dimension)
    (hroot : root < clusterCount) (hneedy : isDeficient deficient root = true)
    (hdonor : donor ∈ donorRoots deficient clusterCount)
    (hreseeds : Reseeds labels clusterCount deficient dimension centroids weight reseeding) :
    Reseeds labels clusterCount deficient dimension centroids
      (Function.update weight donor (halve (weight donor)))
      ⟨(reseeding.counts.set root (reseeding.counts.getD donor 0 / 2)).modify donor
          (· - reseeding.counts.getD donor 0 / 2),
        putRow reseeding.centroids (root * dimension) (row vectors dimension rowId),
        reseeding.copies ++ [(root, rowId)]⟩ := by
  obtain ⟨hlength, hcounts, hshape, hrows, hbound, hsome⟩ := hreseeds
  have hinside : root < reseeding.centroids.length / dimension := by
    rw [hshape]
    omega
  have hne {other : ℕ} (hother : other ∈ donorRoots deficient clusterCount) : other ≠ root := by
    rintro rfl
    rw [(mem_donorRoots.mp hother).2] at hneedy
    cases hneedy
  refine ⟨?_, ?_, ?_, ?_, ?_, ?_⟩
  · dsimp only
    rw [List.length_modify, List.length_set, hlength]
  · intro other hother
    have hotherInside : other < reseeding.counts.length := by
      rw [hlength]
      exact (mem_donorRoots.mp hother).1
    have hold := hcounts other hother
    rw [List.getD_eq_getElem?_getD, List.getElem?_eq_getElem hotherInside, Option.getD_some] at hold
    dsimp only
    rw [hcounts donor hdonor, List.getD_eq_getElem?_getD, List.getElem?_modify,
      List.getElem?_set_ne (hne hother).symm, List.getElem?_eq_getElem hotherInside, hold]
    by_cases hsame : donor = other
    · subst hsame
      rw [Function.update_self]
      simp [halve]
    · rw [Function.update_of_ne (Ne.symm hsame)]
      simp [hsame]
  · dsimp only
    rw [length_putRow (by rw [hwidth]; exact row_end_le hinside), hshape]
  · intro other hother
    dsimp only
    rw [row_putRow_other hinside hwidth (hne hother), hrows other hother]
  · intro other
    by_cases hsame : other = donor
    · subst hsame
      rw [Function.update_self]
      exact (halve_le _).trans (hbound other)
    · rw [Function.update_of_ne hsame]
      exact hbound other
  · obtain ⟨other, hother, hpositive⟩ := hsome
    refine ⟨other, hother, ?_⟩
    by_cases hsame : other = donor
    · subst hsame
      rw [Function.update_self]
      exact halve_pos hpositive
    · rw [Function.update_of_ne hsame]
      exact hpositive

theorem argmax_congr {ι κ : Type} [LinearOrder κ] {items : List ι} {first second : ι → κ}
    (hsame : ∀ item ∈ items, first item = second item) :
    items.argmax first = items.argmax second := by
  induction items with
  | nil => rfl
  | cons item rest ih =>
      rw [List.forall_mem_cons] at hsame
      rw [List.argmax_cons, List.argmax_cons, ih hsame.2]
      cases hrest : rest.argmax second with
      | none => rfl
      | some best =>
          dsimp only
          rw [hsame.1, hsame.2 best (List.argmax_mem hrest)]

/-- The loop over some roots copies the rows of greedily picked donors. -/
theorem reseedLoop_eq (hgroups : Groups labels clusterCount partition)
    (hvectors : labels.length ≤ vectors.length / dimension)
    (hcentroids : clusterCount ≤ centroids.length / dimension)
    {roots : List ℕ} (hroots : ∀ root ∈ roots, root < clusterCount) {weight : ℕ → ℕ}
    {reseeding : Reseeding Value}
    (hreseeds : Reseeds labels clusterCount deficient dimension centroids weight reseeding) :
    (∀ donor ∈ picks (donorRoots deficient clusterCount)
        (roots.filter (isDeficient deficient)).length weight,
      donor < clusterCount ∧ 0 < labels.count donor) ∧
    ∃ result, roots.foldlM (reseedRound distance vectors dimension partition deficient) reseeding =
        .ok result ∧
      result.centroids.length = centroids.length ∧
      result.copies = reseeding.copies ++ (roots.filter (isDeficient deficient)).zip
        ((picks (donorRoots deficient clusterCount)
          (roots.filter (isDeficient deficient)).length weight).map
            (seedOf distance vectors dimension partition centroids)) := by
  induction roots generalizing weight reseeding with
  | nil =>
      refine ⟨by simp [picks], reseeding, rfl, hreseeds.shape, ?_⟩
      simp [picks]
  | cons root rest ih =>
      rw [List.forall_mem_cons] at hroots
      rw [List.foldlM_cons]
      -- a round of a deficient root is one greedy pick, any other changes nothing
      by_cases hneedy : isDeficient deficient root = true
      · have hround : reseedRound distance vectors dimension partition deficient reseeding root =
            match (donorRoots deficient reseeding.counts.length).argmax
                (rank fun candidate => reseeding.counts.getD candidate 0) with
            | none =>
                .error (.invalidArgument "root recovery could not find a populated donor partition")
            | some donor =>
                match farthestRow distance vectors dimension
                    (row reseeding.centroids dimension donor) (partition.rowsOf donor) with
                | none => .error (.invalidArgument "root recovery donor partition is empty")
                | some farthest =>
                    .ok ⟨(reseeding.counts.set root (reseeding.counts.getD donor 0 / 2)).modify donor
                        (· - reseeding.counts.getD donor 0 / 2),
                      putRow reseeding.centroids (root * dimension) (row vectors dimension farthest),
                      reseeding.copies ++ [(root, farthest)]⟩ := by
          unfold reseedRound
          rw [if_neg (by rw [hneedy]; decide)]
        have hsame : (donorRoots deficient reseeding.counts.length).argmax
            (rank fun candidate => reseeding.counts.getD candidate 0) =
              (donorRoots deficient clusterCount).argmax (rank weight) := by
          rw [hreseeds.length]
          exact argmax_congr fun candidate hcandidate =>
            rank_congr (hreseeds.counts candidate hcandidate)
        cases hpick : (donorRoots deficient clusterCount).argmax (rank weight) with
        | none =>
            obtain ⟨donor, hdonor, -⟩ := hreseeds.some_rows
            rw [List.argmax_eq_none.mp hpick] at hdonor
            cases hdonor
        | some donor =>
            have hdonor : donor ∈ donorRoots deficient clusterCount := List.argmax_mem hpick
            have hinside := (mem_donorRoots.mp hdonor).1
            have hweight : 0 < weight donor := by
              obtain ⟨other, hother, hother_pos⟩ := hreseeds.some_rows
              have hle := List.le_of_mem_argmax hother hpick
              have hfirst : weight other ≤ weight donor :=
                Prod.Lex.monotone_fst _ _ hle
              omega
            have hrows : 0 < labels.count donor :=
              Nat.lt_of_lt_of_le hweight (hreseeds.bound donor)
            obtain ⟨hfarthest, hlabel⟩ := @farthestRow_eq _ _ _ distance vectors dimension _ _ _
              hgroups centroids _ hinside hrows
            have hseed : seedOf distance vectors dimension partition centroids donor <
                vectors.length / dimension := by
              obtain ⟨hbound, -⟩ := List.getElem?_eq_some_iff.mp hlabel
              omega
            rw [hsame, hpick] at hround
            dsimp only at hround
            rw [hreseeds.centroids donor hdonor, hfarthest] at hround
            have hnext := hreseeds.round (length_row hseed) hcentroids hroots.1 hneedy hdonor
            obtain ⟨hpicks, result, hresult, hshape, hcopies⟩ := ih hroots.2 hnext
            rw [hround, List.filter_cons_of_pos hneedy, List.length_cons, picks, hpick, ok_bind]
            dsimp only
            refine ⟨List.forall_mem_cons.mpr ⟨⟨hinside, hrows⟩, hpicks⟩, result, hresult, hshape, ?_⟩
            rw [hcopies, List.map_cons, List.zip_cons_cons, List.append_assoc]
            rfl
      · have hround : reseedRound distance vectors dimension partition deficient reseeding root =
            .ok reseeding := by
          unfold reseedRound
          rw [if_pos (by simpa using hneedy)]
        rw [hround, List.filter_cons_of_neg hneedy]
        exact ih hroots.2 hreseeds

end

/-- A loop over roots that need nothing does nothing. -/
theorem reseedLoop_idle {Value Distance : Type} [LinearOrder Distance]
    {distance : List Value → List Value → Distance} {vectors : List Value} {dimension : ℕ}
    {partition : RowPartition} {deficient : List Bool} {roots : List ℕ}
    (hroots : roots.filter (isDeficient deficient) = []) (reseeding : Reseeding Value) :
    roots.foldlM (reseedRound distance vectors dimension partition deficient) reseeding =
      .ok reseeding := by
  induction roots with
  | nil => rfl
  | cons root rest ih =>
      have hfine : ¬ isDeficient deficient root = true := by
        intro hneedy
        rw [List.filter_cons_of_pos hneedy] at hroots
        cases hroots
      rw [List.filter_cons_of_neg hfine] at hroots
      have hround : reseedRound distance vectors dimension partition deficient reseeding root =
          .ok reseeding := by
        unfold reseedRound
        rw [if_pos (by simpa using hfine)]
      rw [List.foldlM_cons, hround]
      exact ih hroots

theorem length_picks {candidates : List ℕ} (hnonempty : candidates ≠ []) (count : ℕ)
    (weight : ℕ → ℕ) : (picks candidates count weight).length = count := by
  induction count generalizing weight with
  | zero => rfl
  | succ count ih =>
      cases hpick : candidates.argmax (rank weight) with
      | none => exact absurd (List.argmax_eq_none.mp hpick) hnonempty
      | some pick => rw [picks, hpick, List.length_cons, ih]

section

variable {Value Distance : Type} [LinearOrder Distance] {distance : List Value → List Value → Distance}
  {vectors : List Value} {dimension : ℕ} {labels childCounts : List ℕ} {clusterCount : ℕ}
  {partition : RowPartition} {centroids : List Value}

/-- The seeds that recovery copies, if some root that needs none has a row. -/
theorem exists_reseeded (hdimension : 0 < dimension) (hgroups : Groups labels clusterCount partition)
    (hvectors : vectors.length = labels.length * dimension)
    (hcentroids : centroids.length = clusterCount * dimension)
    (hchildren : childCounts.length = clusterCount)
    (hdonors : ∃ donor ∈ donorRoots (deficientRoots (rowCounts partition) childCounts) clusterCount,
      0 < labels.count donor) :
    (∀ donor ∈ picks (donorRoots (deficientRoots (rowCounts partition) childCounts) clusterCount)
        (needyRoots (deficientRoots (rowCounts partition) childCounts) clusterCount).length
        fun root => (rowCounts partition).getD root 0,
      donor < clusterCount ∧ 0 < labels.count donor) ∧
    ∃ result, reseedDeficientRoots distance vectors dimension partition childCounts centroids =
        .ok result ∧
      result.centroids.length = centroids.length ∧
      result.copies =
        (needyRoots (deficientRoots (rowCounts partition) childCounts) clusterCount).zip
          ((picks (donorRoots (deficientRoots (rowCounts partition) childCounts) clusterCount)
            (needyRoots (deficientRoots (rowCounts partition) childCounts) clusterCount).length
            fun root => (rowCounts partition).getD root 0).map
              (seedOf distance vectors dimension partition centroids)) := by
  have hlength := length_rowCounts hgroups
  have hindex : ¬ (deficientRoots (rowCounts partition) childCounts).length <
      (rowCounts partition).length := by
    rw [deficientRoots, List.length_zipWith, hlength, hchildren]
    omega
  unfold reseedDeficientRoots
  dsimp only
  rw [if_neg hindex, hlength]
  generalize deficientRoots (rowCounts partition) childCounts = deficient at hdonors
  have hcounts : ∀ donor ∈ donorRoots deficient clusterCount,
      (rowCounts partition).getD donor 0 = labels.count donor :=
    fun donor hdonor => getD_rowCounts hgroups (mem_donorRoots.mp hdonor).1
  have hbound (donor : ℕ) : (rowCounts partition).getD donor 0 ≤ labels.count donor := by
    rcases Nat.lt_or_ge donor clusterCount with hinside | hbeyond
    · exact (getD_rowCounts hgroups hinside).le
    · rw [List.getD_eq_default _ _ (by omega)]
      exact Nat.zero_le _
  obtain ⟨giver, hgiver, hgives⟩ := hdonors
  have hstart : Reseeds labels clusterCount deficient dimension centroids
      (fun root => (rowCounts partition).getD root 0) ⟨rowCounts partition, centroids, []⟩ :=
    ⟨hlength, fun _ _ => rfl, rfl, fun _ _ => rfl, hbound, giver, hgiver, by
      rw [hcounts giver hgiver]
      exact hgives⟩
  have hrows : labels.length ≤ vectors.length / dimension := by
    rw [hvectors, Nat.mul_div_cancel _ hdimension]
  have hfit : clusterCount ≤ centroids.length / dimension := by
    rw [hcentroids, Nat.mul_div_cancel _ hdimension]
  obtain ⟨hpicks, result, hresult, hshape, hcopies⟩ := @reseedLoop_eq _ _ _ distance _ _ _ _ _ _ _
    hgroups hrows hfit _ (fun root hroot => List.mem_range.mp hroot) _ _ hstart
  rw [List.nil_append] at hcopies
  exact ⟨hpicks, result, hresult, hshape, hcopies⟩

end

/-- Recovery copies different rows to different roots exactly if the donors suffice. -/
theorem reseed_spreads_iff {Value Distance : Type} [LinearOrder Distance]
    (distance : List Value → List Value → Distance) (vectors : List Value) (dimension : ℕ)
    (labels childCounts : List ℕ) (clusterCount : ℕ) (partition : RowPartition)
    (centroids : List Value) (hdimension : 0 < dimension)
    (hpartition : partitionRows labels clusterCount = .ok partition)
    (hvectors : vectors.length = labels.length * dimension)
    (hcentroids : centroids.length = clusterCount * dimension)
    (hchildren : childCounts.length = clusterCount)
    (henough : (needyRoots (deficientRoots (rowCounts partition) childCounts) clusterCount).length ≤
      ((donorRoots (deficientRoots (rowCounts partition) childCounts) clusterCount).map
        labels.count).sum) :
    ∃ result, reseedDeficientRoots distance vectors dimension partition childCounts centroids =
        .ok result ∧
      (SpreadsSeeds result.copies ↔
        DonorsSuffice (rowCounts partition) (deficientRoots (rowCounts partition) childCounts)) := by
  have hgroups := partitionRows_eq_ok hpartition
  have hlength := length_rowCounts hgroups
  have hindex : ¬ (deficientRoots (rowCounts partition) childCounts).length <
      (rowCounts partition).length := by
    rw [deficientRoots, List.length_zipWith, hlength, hchildren]
    omega
  by_cases hnone : needyRoots (deficientRoots (rowCounts partition) childCounts) clusterCount = []
  · unfold reseedDeficientRoots DonorsSuffice
    dsimp only
    rw [if_neg hindex, hlength]
    refine ⟨_, reseedLoop_idle hnone _, iff_of_true ?_ (Or.inl hnone)⟩
    intro first hfirst
    cases hfirst
  · have hpositive := List.length_pos_of_ne_nil hnone
    have hdonors : ∃ donor ∈ donorRoots (deficientRoots (rowCounts partition) childCounts)
        clusterCount, 0 < labels.count donor := by
      by_contra hempty
      have hzero : ((donorRoots (deficientRoots (rowCounts partition) childCounts)
          clusterCount).map labels.count).sum = 0 := by
        apply List.sum_eq_zero
        intro count hcount
        obtain ⟨donor, hdonor, rfl⟩ := List.mem_map.mp hcount
        by_contra hsome
        exact hempty ⟨donor, hdonor, Nat.pos_of_ne_zero hsome⟩
      omega
    obtain ⟨hpicks, result, hresult, -, hcopies⟩ := @exists_reseeded _ _ _ distance _ _ _ _ _ _ _
      hdimension hgroups hvectors hcentroids hchildren hdonors
    refine ⟨result, hresult, ?_⟩
    unfold DonorsSuffice
    rw [hlength]
    generalize deficientRoots (rowCounts partition) childCounts = deficient at *
    have hnonempty : donorRoots deficient clusterCount ≠ [] := by
      obtain ⟨donor, hdonor, -⟩ := hdonors
      exact List.ne_nil_of_mem hdonor
    have hpicked := length_picks hnonempty (needyRoots deficient clusterCount).length
      fun root => (rowCounts partition).getD root 0
    have hdistinct : ∀ first ∈ picks (donorRoots deficient clusterCount)
          (needyRoots deficient clusterCount).length fun root => (rowCounts partition).getD root 0,
        ∀ second ∈ picks (donorRoots deficient clusterCount)
          (needyRoots deficient clusterCount).length fun root => (rowCounts partition).getD root 0,
        seedOf distance vectors dimension partition centroids first =
          seedOf distance vectors dimension partition centroids second → first = second := by
      intro first hfirst second hsecond hsame
      have hone := hpicks first hfirst
      have htwo := hpicks second hsecond
      exact seedOf_injective hgroups centroids hone.1 htwo.1 hone.2 htwo.2 hsame
    have hempty : (needyRoots deficient clusterCount).length = 0 ↔
        needyRoots deficient clusterCount = [] := List.length_eq_zero_iff
    calc SpreadsSeeds result.copies
        ↔ ((picks (donorRoots deficient clusterCount) (needyRoots deficient clusterCount).length
            fun root => (rowCounts partition).getD root 0).map
              (seedOf distance vectors dimension partition centroids)).Nodup := by
          rw [hcopies]
          exact spreadsSeeds_zip (List.nodup_range.filter _) (by rw [List.length_map, hpicked])
      _ ↔ (picks (donorRoots deficient clusterCount) (needyRoots deficient clusterCount).length
            fun root => (rowCounts partition).getD root 0).Nodup :=
          ⟨List.Nodup.of_map _, List.Nodup.map_on hdistinct⟩
      _ ↔ _ := by
          rw [← hempty]
          exact picks_nodup_iff (List.nodup_range.filter _) hnonempty _

/-! ## One donor for many -/

/-- Eight rows of one root, which two empty roots get their centroid from. -/
theorem dominant_donor_repeats :
    ¬ ∀ (distance : List ℕ → List ℕ → ℕ) (vectors : List ℕ) (dimension : ℕ)
      (labels childCounts : List ℕ) (clusterCount : ℕ) (partition : RowPartition)
      (centroids : List ℕ) (result : Reseeding ℕ), 0 < dimension →
      partitionRows labels clusterCount = .ok partition →
      vectors.length = labels.length * dimension →
      centroids.length = clusterCount * dimension →
      childCounts.length = clusterCount →
      (needyRoots (deficientRoots (rowCounts partition) childCounts) clusterCount).length ≤
        ((donorRoots (deficientRoots (rowCounts partition) childCounts) clusterCount).map
          labels.count).sum →
      reseedDeficientRoots distance vectors dimension partition childCounts centroids = .ok result →
      SpreadsSeeds result.copies := by
  intro hall
  have hspreads := hall (fun first second => (first.headD 0 - second.headD 0) +
      (second.headD 0 - first.headD 0)) [0, 1, 2, 3, 4, 5, 6, 7] 1 [0, 0, 0, 0, 0, 0, 0, 0] [1, 1, 1]
    3 ⟨[0, 8, 8, 8], [0, 1, 2, 3, 4, 5, 6, 7]⟩ [2, 20, 30]
    ⟨[2, 4, 2], [2, 7, 7], [(1, 7), (2, 7)]⟩ (by decide) (by decide +kernel) rfl rfl rfl
    (by decide +kernel) (by decide +kernel)
  exact absurd hspreads (by decide +kernel)

/-- Roots of four and of three rows, which each give their farthest row to an empty one. -/
theorem reseed_spreads_three : ∃ result : Reseeding ℕ,
    reseedDeficientRoots (fun first second => (first.headD 0 - second.headD 0) +
        (second.headD 0 - first.headD 0)) [0, 1, 2, 3, 4, 5, 6] 1
      ⟨[0, 4, 4, 4, 7], [0, 1, 2, 3, 4, 5, 6]⟩ [1, 1, 1, 1] [2, 20, 30, 5] = .ok result ∧
    SpreadsSeeds result.copies := by
  obtain ⟨result, hresult, hspreads⟩ := reseed_spreads_iff (fun first second =>
      (first.headD 0 - second.headD 0) + (second.headD 0 - first.headD 0)) [0, 1, 2, 3, 4, 5, 6] 1
    [0, 0, 0, 0, 3, 3, 3] [1, 1, 1, 1] 4 ⟨[0, 4, 4, 4, 7], [0, 1, 2, 3, 4, 5, 6]⟩ [2, 20, 30, 5]
    (by decide) (by decide +kernel) rfl rfl rfl (by decide +kernel)
  exact ⟨result, hresult, hspreads.mpr (by decide +kernel)⟩

end ParqDB.Kmeans
