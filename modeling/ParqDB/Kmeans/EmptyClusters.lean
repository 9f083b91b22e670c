import Mathlib.Algebra.BigOperators.Group.List.Lemmas
import ParqDB.Kmeans.Sampling

/-!
# Repairing empty clusters

`split_empty_centroids` of the k-means crate gives every empty cluster half of another one: the
donor is drawn at random, in proportion to what the clusters can spare, or it is the largest one if
no draw is lucky.  The counts that decide about the next donor change with every split.

**What is a parameter.**  The random numbers in `[0, 1)`, how quotients are rounded to `f64`, and
what becomes of the two values of a split.

**Strategy.**  A step keeps the total and takes from a cluster of at least two only
(`splittableCluster_some`).  If clusters do not outnumber rows, there is such a cluster as long as
one is empty (`exists_two_le`).

**Results.**  `splitEmptyCentroids_conserves`.
-/

namespace ParqDB.Kmeans

open Foundations

/-! ## Random donors -/

/-- A random number. -/
structure Draw where
  value : ℚ
  nonneg : 0 ≤ value
  lt_one : value < 1

/-- A generator of random numbers. -/
structure DrawStream where
  State : Type
  genF64 : State → Draw × State

/-- How the processor rounds to `f64`. -/
structure Rounding where
  round : ℚ → ℚ
  round_zero : round 0 = 0

section

variable (rounding : Rounding) (draws : DrawStream) (counts : List ℕ)

/-- The number of rows of a cluster. -/
def countOf (cluster : ℕ) : ℕ := counts.getD cluster 0

/-- How often a cluster is to be drawn. -/
def probability (totalCount candidate : ℕ) : ℚ :=
  match counts[candidate]? with
  | none => 0
  | some 0 => 0
  | some (count + 1) =>
      rounding.round (rounding.round count / rounding.round (totalCount - counts.length : ℕ))

/-- The last one of the largest clusters of more than one row. -/
def largestSplittableCluster : Option ℕ :=
  ((counts.zipIdx.filter fun entry => 1 < entry.1).foldl (fun best entry =>
    match best with
    | none => some entry
    | some largest => if largest.1 ≤ entry.1 then some entry else some largest) none).map (·.2)

/-- The cyclic scan for a lucky candidate. -/
def luckyCluster (totalCount : ℕ) : ℕ → ℕ → draws.State → Option ℕ × draws.State
  | 0, _, rng => (none, rng)
  | fuel + 1, candidate, rng =>
      let drawn := draws.genF64 rng
      if drawn.1.value < probability rounding counts totalCount candidate then
        (some candidate, drawn.2)
      else luckyCluster totalCount fuel ((candidate + 1) % counts.length) drawn.2

def splittableCluster (totalCount : ℕ) (rng : draws.State) : Option ℕ × draws.State :=
  if totalCount ≤ counts.length then (largestSplittableCluster counts, rng)
  else
    match luckyCluster rounding draws counts totalCount (10 * counts.length) 0 rng with
    | (some donor, rng) => (some donor, rng)
    | (none, rng) => (largestSplittableCluster counts, rng)

end

/-! ## Two rows at once -/

section

variable {Value : Type}

/-- `two_mut_rows`: two rows of a matrix, if they lie in it and do not overlap. -/
def twoMutRows (values : List Value) (firstBase secondBase dimension : ℕ) :
    Except Failure (List Value × List Value) :=
  if firstBase = secondBase then .error .assertion
  else if firstBase < secondBase then
    if secondBase ≤ values.length ∧ firstBase + dimension ≤ secondBase ∧
        dimension ≤ values.length - secondBase then
      .ok ((values.drop firstBase).take dimension, (values.drop secondBase).take dimension)
    else .error .indexOutOfBounds
  else
    if firstBase ≤ values.length ∧ secondBase + dimension ≤ firstBase ∧
        dimension ≤ values.length - firstBase then
      .ok ((values.drop firstBase).take dimension, (values.drop secondBase).take dimension)
    else .error .indexOutOfBounds

/-- The multiplications by `1.0 + EMPTY_SPLIT_EPS` and `1.0 - EMPTY_SPLIT_EPS`. -/
structure SplitFactors (Value : Type) where
  raise : Value → Value
  lower : Value → Value

/-- The new row of the empty cluster and that of its donor, from the donor's row. -/
def splitRow (factors : SplitFactors Value) (donor : List Value) : List Value × List Value :=
  (donor.mapIdx fun dim value => if dim % 2 = 0 then factors.raise value else factors.lower value,
    donor.mapIdx fun dim value => if dim % 2 = 0 then factors.lower value else factors.raise value)

/-- The rows of two centroids are split. -/
def splitCentroid (factors : SplitFactors Value) (centroids : List Value)
    (dimension empty donor : ℕ) : Except Failure (List Value) := do
  let rows ← twoMutRows centroids (empty * dimension) (donor * dimension) dimension
  let split := splitRow factors rows.2
  .ok (putRow (putRow centroids (empty * dimension) split.1) (donor * dimension) split.2)

end

/-! ## The loop over the clusters -/

/-- One split, with the counts that it found. -/
structure Split where
  empty : ℕ
  donor : ℕ
  counts : List ℕ
  deriving DecidableEq

/-- The state of the loop.  The splits so far are a history that the code does not keep. -/
structure Splitting (Value State : Type) where
  centroids : List Value
  counts : List ℕ
  rng : State
  splits : List Split

/-- The counts before every split, and the counts at the end. -/
def Splitting.running {Value State : Type} (splitting : Splitting Value State) : List (List ℕ) :=
  splitting.splits.map Split.counts ++ [splitting.counts]

section

variable {Value : Type} (rounding : Rounding) (draws : DrawStream) (factors : SplitFactors Value)

/-- Half of the donor's count goes to the empty cluster. -/
def splitCounts (counts : List ℕ) (empty donor : ℕ) : List ℕ :=
  let half := countOf counts donor / 2
  (counts.set empty half).set donor (countOf counts donor - half)

def splitLoop (dimension totalCount : ℕ) :
    List ℕ → Splitting Value draws.State → Except Failure (Splitting Value draws.State)
  | [], splitting => .ok splitting
  | empty :: rest, splitting =>
      if countOf splitting.counts empty ≠ 0 then splitLoop dimension totalCount rest splitting
      else
        match splittableCluster rounding draws splitting.counts totalCount splitting.rng with
        | (none, rng) => .ok { splitting with rng := rng }
        | (some donor, rng) => do
            let centroids ← splitCentroid factors splitting.centroids dimension empty donor
            splitLoop dimension totalCount rest {
              centroids := centroids
              counts := splitCounts splitting.counts empty donor
              rng := rng
              splits := splitting.splits ++ [⟨empty, donor, splitting.counts⟩] }

/-- `split_empty_centroids`. -/
def splitEmptyCentroids (centroids : List Value) (dimension : ℕ) (counts : List ℕ)
    (rng : draws.State) : Except Failure (Splitting Value draws.State) :=
  splitLoop rounding draws factors dimension (counts.sum % usizeBound) (List.range counts.length)
    ⟨centroids, counts, rng, []⟩

end

/-! ## Donors have rows to spare -/

section

variable {rounding : Rounding} {draws : DrawStream} {counts : List ℕ}

theorem lt_length_of_countOf {cluster : ℕ} (hcount : 0 < countOf counts cluster) :
    cluster < counts.length := by
  by_contra hlarge
  have hnone : countOf counts cluster = 0 := List.getD_eq_default _ _ (by omega)
  omega

variable {candidate totalCount : ℕ} {later : draws.State}

theorem two_le_of_probability (hpositive : 0 < probability rounding counts totalCount candidate) :
    2 ≤ countOf counts candidate := by
  unfold probability at hpositive
  unfold countOf
  rw [List.getD_eq_getElem?_getD]
  split at hpositive
  · exact absurd hpositive (lt_irrefl 0)
  · exact absurd hpositive (lt_irrefl 0)
  · next count hcount =>
      rw [hcount, Option.getD_some]
      -- a cluster of one row is never drawn: nothing divided by anything is nothing
      by_contra hsmall
      have hzero : count = 0 := by omega
      rw [hzero, Nat.cast_zero, rounding.round_zero, zero_div, rounding.round_zero] at hpositive
      exact absurd hpositive (lt_irrefl 0)

theorem luckyCluster_some {fuel donor : ℕ} {rng : draws.State}
    (hlucky : luckyCluster rounding draws counts totalCount fuel candidate rng =
      (some donor, later)) : 2 ≤ countOf counts donor := by
  induction fuel generalizing candidate rng with
  | zero => cases hlucky
  | succ fuel ih =>
      rw [luckyCluster] at hlucky
      split at hlucky
      · next hdrawn =>
          cases hlucky
          apply two_le_of_probability
          exact lt_of_le_of_lt (draws.genF64 rng).1.nonneg hdrawn
      · exact ih hlucky

/-- The best of a list of entries is one of them, if there are any. -/
theorem foldl_largest (entries : List (ℕ × ℕ)) (best : Option (ℕ × ℕ)) :
    (∀ entry, entries.foldl (fun best entry =>
      match best with
      | none => some entry
      | some largest => if largest.1 ≤ entry.1 then some entry else some largest) best =
        some entry → entry ∈ entries ∨ best = some entry) ∧
    (entries.foldl (fun best entry =>
      match best with
      | none => some entry
      | some largest => if largest.1 ≤ entry.1 then some entry else some largest) best =
        none → entries = [] ∧ best = none) := by
  induction entries generalizing best with
  | nil => exact ⟨fun entry hbest => Or.inr hbest, fun hbest => ⟨rfl, hbest⟩⟩
  | cons first rest ih =>
      rw [List.foldl_cons]
      obtain ⟨hsome, hnone⟩ := ih (match best with
        | none => some first
        | some largest => if largest.1 ≤ first.1 then some first else some largest)
      constructor
      · intro entry hentry
        rcases hsome entry hentry with hrest | hbest
        · exact Or.inl (List.mem_cons_of_mem _ hrest)
        · split at hbest
          · exact Or.inl (List.mem_cons.mpr (Or.inl (Option.some.inj hbest).symm))
          · split at hbest
            · exact Or.inl (List.mem_cons.mpr (Or.inl (Option.some.inj hbest).symm))
            · exact Or.inr hbest
      · intro hbest
        have hlater := (hnone hbest).2
        split at hlater
        · cases hlater
        · split at hlater <;> cases hlater

theorem largestSplittableCluster_some {donor : ℕ}
    (hlargest : largestSplittableCluster counts = some donor) : 2 ≤ countOf counts donor := by
  obtain ⟨⟨count, cluster⟩, hentry, rfl⟩ := Option.map_eq_some_iff.mp hlargest
  rcases (foldl_largest _ none).1 _ hentry with hmem | hnone
  · obtain ⟨hmem, hcount⟩ := List.mem_filter.mp hmem
    have hat : counts[cluster]? = some count := List.mk_mem_zipIdx_iff_getElem?.mp hmem
    unfold countOf
    rw [List.getD_eq_getElem?_getD, hat, Option.getD_some]
    exact of_decide_eq_true hcount
  · cases hnone

theorem largestSplittableCluster_none (hlargest : largestSplittableCluster counts = none) :
    ∀ count ∈ counts, count ≤ 1 := by
  intro count hcount
  by_contra hlarge
  obtain ⟨cluster, hcluster⟩ := List.mem_iff_getElem?.mp hcount
  have hempty := ((foldl_largest _ none).2 (Option.map_eq_none_iff.mp hlargest)).1
  have hmem : (count, cluster) ∈ counts.zipIdx.filter fun entry => 1 < entry.1 := by
    apply List.mem_filter.mpr
    exact ⟨List.mk_mem_zipIdx_iff_getElem?.mpr hcluster, by simpa using hlarge⟩
  rw [hempty] at hmem
  cases hmem

/-- A donor has two rows at least. -/
theorem splittableCluster_some {donor : ℕ} {rng : draws.State}
    (hdonor : splittableCluster rounding draws counts totalCount rng = (some donor, later)) :
    2 ≤ countOf counts donor := by
  unfold splittableCluster at hdonor
  split at hdonor
  · exact largestSplittableCluster_some (Prod.mk.inj hdonor).1
  · split at hdonor
    · next found after hlucky =>
        cases hdonor
        exact luckyCluster_some hlucky
    · exact largestSplittableCluster_some (Prod.mk.inj hdonor).1

theorem splittableCluster_none {rng : draws.State}
    (hdonor : splittableCluster rounding draws counts totalCount rng = (none, later)) :
    ∀ count ∈ counts, count ≤ 1 := by
  unfold splittableCluster at hdonor
  split at hdonor
  · exact largestSplittableCluster_none (Prod.mk.inj hdonor).1
  · split at hdonor
    · cases hdonor
    · exact largestSplittableCluster_none (Prod.mk.inj hdonor).1

/-- An empty cluster leaves two rows to some other one, if clusters do not outnumber rows. -/
theorem sum_lt_length_of_zero (hsmall : ∀ count ∈ counts, count ≤ 1) (hzero : 0 ∈ counts) :
    counts.sum < counts.length := by
  have hbound : ∀ others : List ℕ, (∀ count ∈ others, count ≤ 1) → others.sum ≤ others.length := by
    intro others hothers
    induction others with
    | nil => exact le_rfl
    | cons count rest ih =>
        rw [List.forall_mem_cons] at hothers
        have hrest := ih hothers.2
        rw [List.sum_cons, List.length_cons]
        omega
  induction counts with
  | nil => cases hzero
  | cons count rest ih =>
      rw [List.forall_mem_cons] at hsmall
      rw [List.sum_cons, List.length_cons]
      rcases List.mem_cons.mp hzero with hhead | hrest
      · have hle := hbound rest hsmall.2
        omega
      · have hlt := ih hsmall.2 hrest
        omega

end

/-! ## What a split does to the counts -/

section

variable {counts : List ℕ} {empty donor : ℕ}

theorem countOf_set {cluster index value : ℕ} (hindex : index < counts.length) :
    countOf (counts.set index value) cluster =
      if cluster = index then value else countOf counts cluster := by
  unfold countOf
  rw [List.getD_eq_getElem?_getD, List.getD_eq_getElem?_getD]
  by_cases hsame : cluster = index
  · subst hsame
    rw [List.getElem?_set_self hindex, if_pos rfl, Option.getD_some]
  · rw [List.getElem?_set_ne (Ne.symm hsame), if_neg hsame]

theorem sum_set_add {index value : ℕ} (hindex : index < counts.length) :
    (counts.set index value).sum + countOf counts index = counts.sum + value := by
  induction counts generalizing index with
  | nil => cases hindex
  | cons count rest ih =>
      cases index with
      | zero =>
          rw [List.set_cons_zero, List.sum_cons, List.sum_cons]
          show value + rest.sum + count = count + rest.sum + value
          omega
      | succ index =>
          have hrest := ih (Nat.lt_of_succ_lt_succ hindex)
          rw [List.set_cons_succ, List.sum_cons, List.sum_cons]
          have hsame : countOf (count :: rest) (index + 1) = countOf rest index := rfl
          omega

theorem length_splitCounts : (splitCounts counts empty donor).length = counts.length := by
  simp [splitCounts]

/-- Where an empty cluster has a donor of two rows at least. -/
structure Splittable (counts : List ℕ) (empty donor : ℕ) : Prop where
  inside : empty < counts.length
  zero : countOf counts empty = 0
  spare : 2 ≤ countOf counts donor

namespace Splittable

section

variable (hsplit : Splittable counts empty donor)

include hsplit

theorem donor_inside : donor < counts.length :=
  lt_length_of_countOf (by have hspare := hsplit.spare; omega)

theorem donor_ne : donor ≠ empty := by
  rintro rfl
  have hzero := hsplit.zero
  have hspare := hsplit.spare
  omega

theorem countOf_splitCounts (cluster : ℕ) :
    countOf (splitCounts counts empty donor) cluster =
      if cluster = donor then countOf counts donor - countOf counts donor / 2
      else if cluster = empty then countOf counts donor / 2 else countOf counts cluster := by
  unfold splitCounts
  dsimp only
  rw [countOf_set (by rw [List.length_set]; exact hsplit.donor_inside), countOf_set hsplit.inside]

theorem sum_splitCounts :
    (splitCounts counts empty donor).sum = counts.sum := by
  have hfirst := @sum_set_add counts empty (countOf counts donor / 2) hsplit.inside
  have hinside : donor < (counts.set empty (countOf counts donor / 2)).length := by
    rw [List.length_set]
    exact hsplit.donor_inside
  have hsecond := @sum_set_add _ _ (countOf counts donor - countOf counts donor / 2) hinside
  rw [countOf_set hsplit.inside, if_neg hsplit.donor_ne] at hsecond
  rw [hsplit.zero] at hfirst
  unfold splitCounts
  dsimp only
  have hhalf : countOf counts donor / 2 ≤ countOf counts donor := Nat.div_le_self _ _
  omega

/-- A split leaves rows to its two clusters and does not touch the others. -/
theorem countOf_pos {cluster : ℕ}
    (hcluster : cluster = empty ∨ 0 < countOf counts cluster) :
    0 < countOf (splitCounts counts empty donor) cluster := by
  have hspare := hsplit.spare
  rw [hsplit.countOf_splitCounts]
  split
  · omega
  · next hdonor =>
      split
      · omega
      · next hempty => exact hcluster.resolve_left hempty

end

end Splittable

end

/-! ## What a split does to the rows -/

section

variable {Value : Type} {values : List Value} {dimension : ℕ}

theorem twoMutRows_ok {firstBase secondBase : ℕ} (hpositive : 0 < dimension)
    (hfirst : firstBase + dimension ≤ values.length)
    (hsecond : secondBase + dimension ≤ values.length)
    (hdisjoint : firstBase + dimension ≤ secondBase ∨ secondBase + dimension ≤ firstBase) :
    twoMutRows values firstBase secondBase dimension =
      .ok ((values.drop firstBase).take dimension, (values.drop secondBase).take dimension) := by
  unfold twoMutRows
  rw [if_neg (by omega)]
  rcases hdisjoint with hbefore | hbehind
  · rw [if_pos (by omega), if_pos ⟨by omega, hbefore, by omega⟩]
  · rw [if_neg (by omega), if_pos ⟨by omega, hbehind, by omega⟩]

/-- Two rows of a matrix lie in it, one after the other. -/
structure RowsApart (size dimension first second : ℕ) : Prop where
  first_inside : first * dimension + dimension ≤ size
  second_inside : second * dimension + dimension ≤ size
  disjoint : first * dimension + dimension ≤ second * dimension ∨
    second * dimension + dimension ≤ first * dimension

theorem rowsApart {size count first second : ℕ} (hsize : size = count * dimension)
    (hfirst : first < count) (hsecond : second < count) (hne : second ≠ first) :
    RowsApart size dimension first second := by
  have hrow : ∀ {row bound : ℕ}, row < bound → row * dimension + dimension ≤ bound * dimension := by
    intro row bound hrow
    calc row * dimension + dimension = (row + 1) * dimension := (Nat.succ_mul row dimension).symm
      _ ≤ bound * dimension := Nat.mul_le_mul_right dimension hrow
  refine ⟨hsize ▸ hrow hfirst, hsize ▸ hrow hsecond, ?_⟩
  rcases Nat.lt_or_gt_of_ne hne with hlt | hgt
  · exact Or.inr (hrow hlt)
  · exact Or.inl (hrow hgt)

theorem splitCentroid_ok (factors : SplitFactors Value) {dimension empty donor : ℕ}
    (hpositive : 0 < dimension) (hrows : RowsApart values.length dimension empty donor) :
    ∃ after, splitCentroid factors values dimension empty donor = .ok after ∧
      after.length = values.length := by
  have htwo := twoMutRows_ok hpositive hrows.first_inside hrows.second_inside hrows.disjoint
  refine ⟨_, by unfold splitCentroid; rw [htwo]; rfl, ?_⟩
  have hlength : ((values.drop (donor * dimension)).take dimension).length = dimension := by
    have hinside := hrows.second_inside
    rw [List.length_take, List.length_drop]
    omega
  have hfirst : (putRow values (empty * dimension)
      (splitRow factors ((values.drop (donor * dimension)).take dimension)).1).length =
        values.length := by
    apply length_putRow
    simpa [splitRow, hlength] using hrows.first_inside
  have hsecond : donor * dimension +
      (splitRow factors ((values.drop (donor * dimension)).take dimension)).2.length ≤
        (putRow values (empty * dimension)
          (splitRow factors ((values.drop (donor * dimension)).take dimension)).1).length := by
    rw [hfirst]
    simpa [splitRow, hlength] using hrows.second_inside
  exact (length_putRow hsecond).trans hfirst

end

/-! ## The whole repair -/

/-- A split takes from another cluster, which has two rows at least, and its rows lie apart. -/
structure Split.Sound (size dimension : ℕ) (split : Split) : Prop where
  splittable : Splittable split.counts split.empty split.donor
  rows : RowsApart size dimension split.empty split.donor

/-- Clusters that had rows still have some. -/
def StaysPositive (earlier later : List ℕ) : Prop :=
  ∀ cluster, 0 < countOf earlier cluster → 0 < countOf later cluster

/-- What holds of a repair at all times. -/
structure Conserves {Value State : Type} (centroids : List Value) (dimension : ℕ)
    (counts : List ℕ) (splitting : Splitting Value State) : Prop where
  shape : splitting.centroids.length = centroids.length
  sound : ∀ split ∈ splitting.splits, split.Sound centroids.length dimension
  length : splitting.counts.length = counts.length
  sums : ∀ running ∈ splitting.running, running.sum = counts.sum
  positive : splitting.running.Pairwise StaysPositive
  first : splitting.running.head? = some counts

namespace Conserves

variable {Value State : Type} {centroids : List Value} {dimension : ℕ} {counts : List ℕ}
  {splitting : Splitting Value State}

theorem sum_eq (hconserves : Conserves centroids dimension counts splitting) :
    splitting.counts.sum = counts.sum :=
  hconserves.sums _ (by simp [Splitting.running])

theorem initial (centroids : List Value) (dimension : ℕ) (counts : List ℕ) (rng : State) :
    Conserves centroids dimension counts ⟨centroids, counts, rng, []⟩ where
  shape := rfl
  sound := by simp
  length := rfl
  sums := by simp [Splitting.running]
  positive := by simp [Splitting.running]
  first := rfl

theorem of_rng {rng : State} (hconserves : Conserves centroids dimension counts splitting) :
    Conserves centroids dimension counts { splitting with rng := rng } := by
  obtain ⟨hshape, hsound, hlength, hsums, hpositive, hfirst⟩ := hconserves
  exact ⟨hshape, hsound, hlength, hsums, hpositive, hfirst⟩

/-- One split keeps all of it. -/
theorem split {empty donor : ℕ} {after : List Value} {rng : State}
    (hconserves : Conserves centroids dimension counts splitting)
    (hsplit : Splittable splitting.counts empty donor)
    (hrows : RowsApart centroids.length dimension empty donor)
    (hafter : after.length = centroids.length) :
    Conserves centroids dimension counts
      ⟨after, splitCounts splitting.counts empty donor, rng,
        splitting.splits ++ [⟨empty, donor, splitting.counts⟩]⟩ := by
  have hrunning : Splitting.running
      (⟨after, splitCounts splitting.counts empty donor, rng,
        splitting.splits ++ [⟨empty, donor, splitting.counts⟩]⟩ : Splitting Value State) =
      splitting.running ++ [splitCounts splitting.counts empty donor] := by
    simp [Splitting.running]
  have hstays : StaysPositive splitting.counts (splitCounts splitting.counts empty donor) :=
    fun cluster hcluster => hsplit.countOf_pos (Or.inr hcluster)
  refine ⟨hafter, ?_, ?_, ?_, ?_, ?_⟩
  · intro other hother
    rcases List.mem_append.mp hother with hother | hother
    · exact hconserves.sound other hother
    · rw [List.mem_singleton.mp hother]
      exact ⟨hsplit, hrows⟩
  · rw [length_splitCounts]
    exact hconserves.length
  · intro running hmem
    rw [hrunning] at hmem
    rcases List.mem_append.mp hmem with hmem | hmem
    · exact hconserves.sums running hmem
    · rw [List.mem_singleton.mp hmem, hsplit.sum_splitCounts]
      exact hconserves.sum_eq
  · rw [hrunning, List.pairwise_append]
    refine ⟨hconserves.positive, List.pairwise_singleton _ _, ?_⟩
    intro earlier hearlier later hlater cluster hcluster
    rw [List.mem_singleton.mp hlater]
    -- the counts before the split come last of the earlier ones
    have hbefore := hconserves.positive
    unfold Splitting.running at hearlier hbefore
    rcases List.mem_append.mp hearlier with hearlier | hearlier
    · exact hstays cluster ((List.pairwise_append.mp hbefore).2.2 earlier hearlier _
        (List.mem_singleton_self _) cluster hcluster)
    · rw [List.mem_singleton.mp hearlier] at hcluster
      exact hstays cluster hcluster
  · rw [hrunning, List.head?_append, hconserves.first]
    rfl

end Conserves

section

variable {Value : Type} {rounding : Rounding} {draws : DrawStream} {factors : SplitFactors Value}
  {centroids : List Value} {dimension : ℕ} {counts : List ℕ}

/-- The loop over the clusters from some point on. -/
theorem splitLoop_conserves {totalCount : ℕ} (hpositive : 0 < dimension)
    (hshape : centroids.length = counts.length * dimension) {clusters : List ℕ}
    (hclusters : ∀ cluster ∈ clusters, cluster < counts.length)
    {splitting : Splitting Value draws.State}
    (hconserves : Conserves centroids dimension counts splitting) :
    ∃ result, splitLoop rounding draws factors dimension totalCount clusters splitting =
        .ok result ∧ Conserves centroids dimension counts result ∧
      (counts.length ≤ counts.sum → ∀ cluster,
        cluster ∈ clusters ∨ 0 < countOf splitting.counts cluster →
          0 < countOf result.counts cluster) := by
  induction clusters generalizing splitting with
  | nil =>
      refine ⟨splitting, rfl, hconserves, fun _ cluster hcluster => ?_⟩
      exact hcluster.resolve_left List.not_mem_nil
  | cons empty rest ih =>
      rw [List.forall_mem_cons] at hclusters
      rw [splitLoop]
      by_cases hzero : countOf splitting.counts empty = 0
      · rw [if_neg (not_not_intro hzero)]
        cases hdonor : splittableCluster rounding draws splitting.counts totalCount splitting.rng with
        | mk found rng =>
            cases found with
            | none =>
                refine ⟨_, rfl, hconserves.of_rng, fun henough cluster _ => ?_⟩
                have hinside : empty < splitting.counts.length := by
                  rw [hconserves.length]
                  exact hclusters.1
                have hmem : 0 ∈ splitting.counts := by
                  rw [← hzero]
                  unfold countOf
                  rw [List.getD_eq_getElem _ _ hinside]
                  exact List.getElem_mem hinside
                -- nobody has two rows, and this cluster has none
                have hfew := sum_lt_length_of_zero (splittableCluster_none hdonor) hmem
                rw [hconserves.sum_eq, hconserves.length] at hfew
                omega
            | some donor =>
                have hsplit : Splittable splitting.counts empty donor :=
                  ⟨by rw [hconserves.length]; exact hclusters.1, hzero,
                    splittableCluster_some hdonor⟩
                have hdonorInside := hsplit.donor_inside
                rw [hconserves.length] at hdonorInside
                have hrows : RowsApart centroids.length dimension empty donor :=
                  rowsApart hshape hclusters.1 hdonorInside hsplit.donor_ne
                obtain ⟨after, hafter, hlength⟩ := @splitCentroid_ok Value splitting.centroids
                  factors dimension empty donor hpositive (by rw [hconserves.shape]; exact hrows)
                rw [hconserves.shape] at hlength
                obtain ⟨result, hresult, hkept, hall⟩ := @ih hclusters.2
                  _ (@Conserves.split _ _ _ _ _ _ _ _ _ rng hconserves hsplit hrows hlength)
                refine ⟨result, ?_, hkept, ?_⟩
                · dsimp only
                  rw [hafter]
                  exact hresult
                · intro henough cluster hcluster
                  apply hall henough cluster
                  rw [List.mem_cons, or_assoc] at hcluster
                  rcases hcluster with rfl | hrest | hcount
                  · exact Or.inr (hsplit.countOf_pos (Or.inl rfl))
                  · exact Or.inl hrest
                  · exact Or.inr (hsplit.countOf_pos (Or.inr hcount))
      · rw [if_pos hzero]
        obtain ⟨result, hresult, hkept, hall⟩ := ih hclusters.2 hconserves
        refine ⟨result, hresult, hkept, fun henough cluster hcluster => ?_⟩
        apply hall henough cluster
        rw [List.mem_cons, or_assoc] at hcluster
        rcases hcluster with rfl | hcluster
        · exact Or.inr (Nat.pos_of_ne_zero hzero)
        · exact hcluster

end

/-- The repair never fails.  Every split takes from another cluster of two rows at least, and works
on two rows of the matrix that do not overlap; the counts always add up to the same total, and a
cluster that has rows keeps some.  If clusters do not outnumber rows, none stays empty. -/
theorem splitEmptyCentroids_conserves {Value : Type} (rounding : Rounding) (draws : DrawStream)
    (factors : SplitFactors Value) (centroids : List Value) (dimension : ℕ) (counts : List ℕ)
    (rng : draws.State) (hpositive : 0 < dimension)
    (hshape : centroids.length = counts.length * dimension) :
    ∃ result, splitEmptyCentroids rounding draws factors centroids dimension counts rng =
        .ok result ∧ Conserves centroids dimension counts result ∧
      (counts.length ≤ counts.sum → ∀ count ∈ result.counts, count ≠ 0) := by
  obtain ⟨result, hresult, hconserves, hall⟩ := @splitLoop_conserves Value rounding draws factors
    centroids dimension counts (counts.sum % usizeBound) hpositive hshape
    (List.range counts.length) (fun cluster hcluster => List.mem_range.mp hcluster) _
    (Conserves.initial centroids dimension counts rng)
  refine ⟨result, hresult, hconserves, fun henough count hcount => ?_⟩
  obtain ⟨cluster, hcluster, rfl⟩ := List.mem_iff_getElem.mp hcount
  have hinside : cluster < counts.length := hconserves.length ▸ hcluster
  have hpos := hall henough cluster (Or.inl (List.mem_range.mpr hinside))
  unfold countOf at hpos
  rw [List.getD_eq_getElem _ _ hcluster] at hpos
  omega

/-- Draws that are always lucky. -/
def zeroDraws : DrawStream := ⟨Unit, fun _ => (⟨0, le_rfl, by norm_num⟩, ())⟩

/-- Two empty clusters and one of five rows. -/
theorem splitEmptyCentroids_conserves_five : 0 < 1 ∧ [7, 8, 9].length = [0, 5, 0].length * 1 ∧
    ∃ result, splitEmptyCentroids ⟨id, rfl⟩ zeroDraws ⟨id, id⟩ [7, 8, 9] 1 [0, 5, 0] () =
        .ok result ∧ Conserves [7, 8, 9] 1 [0, 5, 0] result ∧
      ([0, 5, 0].length ≤ [0, 5, 0].sum → ∀ count ∈ result.counts, count ≠ 0) :=
  ⟨by decide, by decide, splitEmptyCentroids_conserves ⟨id, rfl⟩ zeroDraws ⟨id, id⟩ [7, 8, 9] 1
    [0, 5, 0] () (by decide) (by decide)⟩

end ParqDB.Kmeans
