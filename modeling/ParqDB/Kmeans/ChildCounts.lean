import Mathlib.Data.List.GetD
import Mathlib.Data.List.Sort
import Mathlib.Tactic.Linarith
import ParqDB.Foundations.Apportionment
import ParqDB.Foundations.Outcome

/-!
# Leaf clusters of a hierarchical index

`proportional_child_counts` of the k-means crate shares the requested leaf
clusters among the root partitions: every root gets one, and the others are
split in proportion to the rows that the partitions have to spare, rounded
down first and repaired by the largest remainders in a single pass.

Every arithmetic step of the code that could panic (a subtraction of `usize`,
the product in `u128`, the division, the conversion back, an index) is a step
that may fail here, and so are its debug assertions.
-/

namespace ParqDB.Kmeans

open Foundations

/-- Why an allocation ends without a result: a returned error, or a panic. -/
inductive Failure where
  | invalidArgument (message : String)
  | overflow
  | divisionByZero
  | indexOutOfBounds
  | assertion
  deriving Repr, DecidableEq

/-! ## Machine arithmetic -/

/-- The values of `usize` lie below this bound. -/
abbrev usizeBound : ℕ := 2 ^ 64

/-- The values of `u128` lie below this bound. -/
abbrev u128Bound : ℕ := 2 ^ 128

/-- A result that must lie below `bound`. -/
def checked (bound value : ℕ) : Except Failure ℕ :=
  if value < bound then .ok value else .error .overflow

/-- A subtraction without wrapping. -/
def subtract (left right : ℕ) : Except Failure ℕ :=
  if right ≤ left then .ok (left - right) else .error .overflow

def divide (left right : ℕ) : Except Failure ℕ :=
  if right = 0 then .error .divisionByZero else .ok (left / right)

def modulo (left right : ℕ) : Except Failure ℕ :=
  if right = 0 then .error .divisionByZero else .ok (left % right)

theorem checked_ok {bound value : ℕ} (hvalue : value < bound) :
    checked bound value = .ok value := if_pos hvalue

variable {left right : ℕ}

theorem subtract_ok (hle : right ≤ left) :
    subtract left right = .ok (left - right) := if_pos hle

theorem divide_ok (hright : 0 < right) :
    divide left right = .ok (left / right) := if_neg hright.ne'

theorem modulo_ok (hright : 0 < right) :
    modulo left right = .ok (left % right) := if_neg hright.ne'

/-! ## The allocation -/

/-- One entry of `remainders`. -/
structure Share where
  remainder : ℕ
  root : ℕ
  availableExtra : ℕ
  deriving Repr, DecidableEq

/-- The order of the sort: larger remainders first, and earlier roots first among equals. -/
def Share.Before (left right : Share) : Prop :=
  right.remainder < left.remainder ∨
    left.remainder = right.remainder ∧ left.root ≤ right.root

instance (left right : Share) : Decidable (left.Before right) :=
  inferInstanceAs (Decidable (_ ∨ _ ∧ _))

/-- The state of the loop over the root partitions. -/
structure Allocation where
  childCounts : List ℕ
  remainders : List Share
  allocatedExtra : ℕ
  deriving Repr, DecidableEq

/-- `offsets.windows(2)` -/
def windows (offsets : List ℕ) : List (ℕ × ℕ) := offsets.zip offsets.tail

/-- One round of the loop over the root partitions. -/
def allot (remaining totalWeight : ℕ) (allocation : Allocation) (entry : (ℕ × ℕ) × ℕ) :
    Except Failure Allocation := do
  let rows ← subtract entry.1.2 entry.1.1
  let availableExtra ← subtract rows 1
  let numerator ← checked u128Bound (availableExtra * remaining)
  let quotient ← divide numerator totalWeight
  let extra ← checked usizeBound quotient
  let remainder ← modulo numerator totalWeight
  let count ← checked usizeBound (1 + extra)
  let allocatedExtra ← checked usizeBound (allocation.allocatedExtra + extra)
  .ok {
    childCounts := allocation.childCounts ++ [count]
    remainders := allocation.remainders ++ [⟨remainder, entry.2, availableExtra⟩]
    allocatedExtra := allocatedExtra }

/-- The pass over the sorted remainders that hands out what is left over. -/
def distribute (leftover : ℕ) : List Share → ℕ → List ℕ → Except Failure (List ℕ)
  | [], _, childCounts => .ok childCounts
  | share :: shares, distributed, childCounts =>
      if distributed = leftover then .ok childCounts
      else
        match childCounts[share.root]? with
        | none => .error .indexOutOfBounds
        | some count =>
            if share.availableExtra < count then distribute leftover shares distributed childCounts
            else do
              let extra ← subtract count 1
              rejectIf (¬ extra < share.availableExtra) .assertion
              let raised ← checked usizeBound (count + 1)
              distribute leftover shares (distributed + 1) (childCounts.set share.root raised)

def addCount (sum count : ℕ) : Except Failure ℕ := checked usizeBound (sum + count)

/-- What follows the checks when there are clusters beyond the first of every root. -/
def shareRemaining (offsets : List ℕ) (nClusters rootCount totalRows remaining : ℕ) :
    Except Failure (List ℕ) := do
  let totalWeight ← subtract totalRows rootCount
  let allocation ← (windows offsets).zipIdx.foldlM (allot remaining totalWeight) ⟨[], [], 0⟩
  let leftover ← subtract remaining allocation.allocatedExtra
  let childCounts ←
    distribute leftover (allocation.remainders.insertionSort Share.Before) 0 allocation.childCounts
  let sum ← childCounts.foldlM addCount 0
  rejectIf (sum ≠ nClusters)
    (.invalidArgument "proportional leaf allocation could not satisfy n_clusters")
  .ok childCounts

def proportionalChildCounts (offsets : List ℕ) (nClusters : ℕ) : Except Failure (List ℕ) := do
  rejectIf (offsets.length < 1)
    (.invalidArgument "root offsets must contain at least one partition")
  let rootCount := offsets.length - 1
  rejectIf (rootCount = 0 ∨ offsets.head? ≠ some 0 ∨ ∃ range ∈ windows offsets, range.2 ≤ range.1)
    (.invalidArgument "root offsets must define non-empty contiguous partitions")
  let totalRows := offsets.getLastD 0
  rejectIf (nClusters < rootCount ∨ totalRows < nClusters)
    (.invalidArgument
      s!"cannot allocate {nClusters} leaf centroids across {rootCount} roots and {totalRows} rows")
  let remaining ← subtract nClusters rootCount
  if remaining = 0 then .ok (List.replicate rootCount 1)
  else shareRemaining offsets nClusters rootCount totalRows remaining

/-! ## Row offsets -/

def rootCount (offsets : List ℕ) : ℕ := offsets.length - 1

def totalRows (offsets : List ℕ) : ℕ := offsets.getLastD 0

/-- The rows of the partition of a root. -/
def rows (offsets : List ℕ) (root : ℕ) : ℕ := offsets.getD (root + 1) 0 - offsets.getD root 0

/-- The rows of a partition beyond the one its first cluster needs. -/
def spare (offsets : List ℕ) (root : ℕ) : ℕ := rows offsets root - 1

/-- Row offsets of at least one partition, none of them empty: strictly increasing machine words
from zero on. -/
structure Partitions (offsets : List ℕ) : Prop where
  start : offsets.head? = some 0
  increasing : offsets.Pairwise (· < ·)
  roots : 0 < rootCount offsets
  word : ∀ offset ∈ offsets, offset < usizeBound

theorem length_windows (offsets : List ℕ) : (windows offsets).length = rootCount offsets := by
  rw [windows, List.length_zip, List.length_tail, rootCount]
  omega

theorem windows_zipIdx (offsets : List ℕ) :
    (windows offsets).zipIdx = (List.range (rootCount offsets)).map fun root =>
      ((offsets.getD root 0, offsets.getD (root + 1) 0), root) := by
  apply List.ext_getElem
  · rw [List.length_zipIdx, length_windows, List.length_map, List.length_range]
  · intro root hroot _
    rw [List.length_zipIdx, length_windows, rootCount] at hroot
    simp only [List.getElem_zipIdx, windows, List.getElem_zip, List.getElem_tail,
      List.getElem_map, List.getElem_range, Nat.zero_add]
    rw [List.getD_eq_getElem _ _ (by omega), List.getD_eq_getElem _ _ (by omega)]

theorem totalRows_eq (offsets : List ℕ) :
    totalRows offsets = offsets.getD (rootCount offsets) 0 := by
  rw [totalRows, rootCount, List.getLastD_eq_getLast?, List.getLast?_eq_getElem?,
    List.getD_eq_getElem?_getD]

namespace Partitions

variable {offsets : List ℕ} (hpartitions : Partitions offsets)
include hpartitions

theorem getD_zero : offsets.getD 0 0 = 0 := by
  have hstart := hpartitions.start
  rw [List.head?_eq_getElem?] at hstart
  rw [List.getD_eq_getElem?_getD, hstart, Option.getD_some]

theorem getD_lt {root : ℕ} (hroot : root < rootCount offsets) :
    offsets.getD root 0 < offsets.getD (root + 1) 0 := by
  rw [rootCount] at hroot
  rw [List.getD_eq_getElem _ _ (by omega), List.getD_eq_getElem _ _ (by omega)]
  exact List.pairwise_iff_getElem.mp hpartitions.increasing _ _ _ _ (Nat.lt_succ_self root)

theorem getD_lt_usizeBound (root : ℕ) : offsets.getD root 0 < usizeBound := by
  rw [List.getD_eq_getElem?_getD]
  cases hoffset : offsets[root]? with
  | none => exact Nat.two_pow_pos 64
  | some offset => exact hpartitions.word offset (List.mem_of_getElem? hoffset)

theorem rows_pos {root : ℕ} (hroot : root < rootCount offsets) : 0 < rows offsets root :=
  Nat.sub_pos_of_lt (hpartitions.getD_lt hroot)

theorem spare_add_one {root : ℕ} (hroot : root < rootCount offsets) :
    spare offsets root + 1 = rows offsets root :=
  Nat.sub_add_cancel (hpartitions.rows_pos hroot)

theorem rows_lt_usizeBound (root : ℕ) : rows offsets root < usizeBound :=
  (Nat.sub_le _ _).trans_lt (hpartitions.getD_lt_usizeBound (root + 1))

/-- The spare rows of the first partitions, and one row for each of them, end where they end. -/
theorem sum_spare_add {count : ℕ} (hcount : count ≤ rootCount offsets) :
    ∑ root ∈ Finset.range count, spare offsets root + count = offsets.getD count 0 := by
  induction count with
  | zero => rw [Finset.range_zero, Finset.sum_empty, hpartitions.getD_zero]
  | succ count ih =>
      have hprevious := ih (by omega)
      have hspare := hpartitions.spare_add_one (Nat.lt_of_succ_le hcount)
      have hlt := hpartitions.getD_lt (Nat.lt_of_succ_le hcount)
      rw [rows] at hspare
      rw [Finset.sum_range_succ]
      omega

theorem total_spare :
    Apportionment.total (Finset.range (rootCount offsets)) (spare offsets) =
      totalRows offsets - rootCount offsets := by
  have hsum := hpartitions.sum_spare_add le_rfl
  rw [totalRows_eq, Apportionment.total]
  omega

theorem rootCount_le_totalRows : rootCount offsets ≤ totalRows offsets := by
  have hsum := hpartitions.sum_spare_add le_rfl
  rw [totalRows_eq]
  omega

end Partitions

/-! ## The loop over the partitions -/

/-- The clusters of a root beyond the first, rounded down. -/
def extra (offsets : List ℕ) (remaining root : ℕ) : ℕ :=
  Apportionment.lower (Finset.range (rootCount offsets)) (spare offsets) remaining root

/-- What `remainders` holds for a root. -/
def entryOf (offsets : List ℕ) (remaining root : ℕ) : Share where
  remainder :=
    Apportionment.remainder (Finset.range (rootCount offsets)) (spare offsets) remaining root
  root := root
  availableExtra := spare offsets root

/-- The state of the loop after the first `count` partitions. -/
def allotted (offsets : List ℕ) (remaining count : ℕ) : Allocation where
  childCounts := (List.range count).map fun root => 1 + extra offsets remaining root
  remainders := (List.range count).map (entryOf offsets remaining)
  allocatedExtra := ∑ root ∈ Finset.range count, extra offsets remaining root

/-- What the loop runs on: some clusters to share, and no more of them than rows to spare. -/
structure Shareable (offsets : List ℕ) (remaining : ℕ) : Prop where
  partitions : Partitions offsets
  positive : 0 < remaining
  bounded : remaining ≤ totalRows offsets - rootCount offsets

namespace Shareable

variable {offsets : List ℕ} {remaining : ℕ} (hshareable : Shareable offsets remaining)
include hshareable

theorem totalWeight_pos : 0 < totalRows offsets - rootCount offsets :=
  hshareable.positive.trans_le hshareable.bounded

theorem total_pos :
    0 < Apportionment.total (Finset.range (rootCount offsets)) (spare offsets) := by
  rw [hshareable.partitions.total_spare]
  exact hshareable.totalWeight_pos

theorem le_total :
    remaining ≤ Apportionment.total (Finset.range (rootCount offsets)) (spare offsets) := by
  rw [hshareable.partitions.total_spare]
  exact hshareable.bounded

theorem remaining_lt : remaining < usizeBound := by
  have hlast := hshareable.partitions.getD_lt_usizeBound (rootCount offsets)
  have hbounded := hshareable.bounded
  rw [totalRows_eq] at hbounded
  omega

theorem extra_le (root : ℕ) : extra offsets remaining root ≤ spare offsets root :=
  Apportionment.lower_le hshareable.le_total root

theorem extra_eq (root : ℕ) :
    spare offsets root * remaining / (totalRows offsets - rootCount offsets) =
      extra offsets remaining root := by
  rw [extra, Apportionment.lower, hshareable.partitions.total_spare]

theorem remainder_eq (root : ℕ) :
    spare offsets root * remaining % (totalRows offsets - rootCount offsets) =
      (entryOf offsets remaining root).remainder := by
  rw [entryOf, Apportionment.remainder, hshareable.partitions.total_spare]

variable {count : ℕ}

/-- Rounding down never hands out more than there is, in no round of the loop. -/
theorem sum_extra_le (hcount : count ≤ rootCount offsets) :
    ∑ root ∈ Finset.range count, extra offsets remaining root ≤ remaining := by
  calc ∑ root ∈ Finset.range count, extra offsets remaining root
      ≤ ∑ root ∈ Finset.range (rootCount offsets), extra offsets remaining root :=
        Finset.sum_le_sum_of_subset (Finset.range_subset_range.mpr hcount)
    _ ≤ remaining := Apportionment.sum_lower_le hshareable.total_pos

/-- The product of two machine words fits `u128`. -/
theorem numerator_lt {root : ℕ} (hroot : root < rootCount offsets) :
    spare offsets root * remaining < u128Bound := by
  have hrows := hshareable.partitions.rows_lt_usizeBound root
  have hspare := hshareable.partitions.spare_add_one hroot
  calc spare offsets root * remaining
      < usizeBound * usizeBound :=
        Nat.mul_lt_mul'' (by omega) hshareable.remaining_lt
    _ = u128Bound := by norm_num

/-- One round of the loop cannot panic. -/
theorem allot_eq (hcount : count < rootCount offsets) :
    allot remaining (totalRows offsets - rootCount offsets) (allotted offsets remaining count)
        ((offsets.getD count 0, offsets.getD (count + 1) 0), count) =
      .ok (allotted offsets remaining (count + 1)) := by
  have hrows := hshareable.partitions.rows_lt_usizeBound count
  have hspare := hshareable.partitions.spare_add_one hcount
  have hextra := hshareable.extra_le count
  have hsum := hshareable.sum_extra_le (Nat.succ_le_of_lt hcount)
  have hremaining := hshareable.remaining_lt
  rw [Finset.sum_range_succ] at hsum
  rw [allot, subtract_ok (hshareable.partitions.getD_lt hcount).le, ok_bind]
  change (subtract (rows offsets count) 1 >>= _) = _
  rw [subtract_ok (hshareable.partitions.rows_pos hcount), ok_bind]
  change (checked u128Bound (spare offsets count * remaining) >>= _) = _
  rw [checked_ok (hshareable.numerator_lt hcount), ok_bind,
    divide_ok hshareable.totalWeight_pos, hshareable.extra_eq, ok_bind,
    checked_ok (by omega), ok_bind,
    modulo_ok hshareable.totalWeight_pos, hshareable.remainder_eq, ok_bind,
    checked_ok (by omega), ok_bind]
  change (checked usizeBound (∑ root ∈ Finset.range count, extra offsets remaining root +
    extra offsets remaining count) >>= _) = _
  rw [checked_ok (hsum.trans_lt hremaining), ok_bind]
  simp only [allotted, List.range_succ, List.map_append, List.map_singleton,
    Finset.sum_range_succ]
  rfl

/-- The whole loop. -/
theorem foldlM_allot :
    (windows offsets).zipIdx.foldlM
        (allot remaining (totalRows offsets - rootCount offsets)) ⟨[], [], 0⟩ =
      .ok (allotted offsets remaining (rootCount offsets)) := by
  have hrun : ∀ count ≤ rootCount offsets,
      ((List.range count).map fun root =>
          ((offsets.getD root 0, offsets.getD (root + 1) 0), root)).foldlM
            (allot remaining (totalRows offsets - rootCount offsets)) ⟨[], [], 0⟩ =
        .ok (allotted offsets remaining count) := by
    intro count
    induction count with
    | zero => exact fun _ => rfl
    | succ count ih =>
        intro hcount
        rw [List.range_succ, List.map_append, List.foldlM_append, ih (by omega)]
        change (allot _ _ _ _ >>= pure) = _
        rw [hshareable.allot_eq hcount]
        rfl
  rw [windows_zipIdx]
  exact hrun _ le_rfl

end Shareable

/-! ## The pass over the sorted remainders -/

instance : Std.Total Share.Before where
  total left right := by
    unfold Share.Before
    omega

instance : IsTrans Share Share.Before where
  trans first second third := by
    unfold Share.Before
    omega

theorem set_map_range {length root : ℕ} (count : ℕ → ℕ) (value : ℕ) :
    ((List.range length).map count).set root value =
      (List.range length).map (Function.update count root value) := by
  apply List.ext_getElem
  · rw [List.length_set, List.length_map, List.length_map]
  · intro other _ _
    rw [List.getElem_set, List.getElem_map, List.getElem_map, List.getElem_range]
    by_cases hother : root = other
    · rw [if_pos hother, hother, Function.update_self]
    · rw [if_neg hother, Function.update_of_ne (Ne.symm hother)]

/-- The pass hands one cluster to each of the first roots, as long as these have room. -/
theorem distribute_eq {leftover length : ℕ} {shares : List Share} :
    ∀ {distributed : ℕ} {count : ℕ → ℕ}, distributed ≤ leftover →
      (shares.map Share.root).Nodup →
      (∀ share ∈ shares.take (leftover - distributed), share.root < length ∧
        1 ≤ count share.root ∧ count share.root ≤ share.availableExtra ∧
          share.availableExtra + 1 < usizeBound) →
      distribute leftover shares distributed ((List.range length).map count) =
        .ok ((List.range length).map fun root => count root +
          if root ∈ (shares.take (leftover - distributed)).map Share.root then 1 else 0) := by
  induction shares with
  | nil =>
      intro distributed count _ _ _
      simp [distribute]
  | cons share shares ih =>
      intro distributed count hle hnodup hroom
      rw [distribute]
      by_cases hdone : distributed = leftover
      · rw [if_pos hdone, hdone, Nat.sub_self]
        simp
      have htake : leftover - distributed = (leftover - (distributed + 1)) + 1 := by omega
      rw [htake, List.take_succ_cons] at hroom ⊢
      rw [List.map_cons, List.nodup_cons] at hnodup
      obtain ⟨hroot, hpositive, havailable, hword⟩ := hroom share List.mem_cons_self
      have hget : ((List.range length).map count)[share.root]? = some (count share.root) := by
        rw [List.getElem?_map, List.getElem?_range hroot, Option.map_some]
      rw [if_neg hdone, hget]
      change (if share.availableExtra < count share.root then _ else _) = _
      rw [if_neg (by omega), subtract_ok hpositive, ok_bind,
        rejectIf_eq_ok.mpr (by omega), ok_bind, checked_ok (by omega), ok_bind]
      -- the roots that follow are others, so their counts are still the old ones
      have hothers : ∀ other ∈ shares.take (leftover - (distributed + 1)),
          other.root ≠ share.root := by
        intro other hother heq
        apply hnodup.1
        rw [← heq]
        exact List.mem_map_of_mem (List.mem_of_mem_take hother)
      rw [set_map_range count, ih (by omega) hnodup.2]
      · congr 1
        apply List.map_congr_left
        intro root _
        rw [List.map_cons]
        by_cases heq : root = share.root
        · have hnot : root ∉ (shares.take (leftover - (distributed + 1))).map Share.root := by
            intro hmem
            obtain ⟨other, hother, hsame⟩ := List.mem_map.mp hmem
            exact hothers other hother (hsame.trans heq)
          rw [if_neg hnot, heq, Function.update_self, if_pos List.mem_cons_self]
        · rw [Function.update_of_ne heq]
          simp only [List.mem_cons, heq, false_or]
      · intro other hother
        rw [Function.update_of_ne (hothers other hother)]
        exact hroom other (List.mem_cons_of_mem _ hother)

/-! ## The roots that are rounded up -/

section

variable (offsets : List ℕ) (remaining : ℕ)

/-- The remainders after the sort. -/
def ranked : List Share :=
  ((List.range (rootCount offsets)).map (entryOf offsets remaining)).insertionSort Share.Before

/-- The clusters that rounding down leaves over. -/
def leftover : ℕ :=
  Apportionment.leftover (Finset.range (rootCount offsets)) (spare offsets) remaining

/-- The roots that get one of them. -/
def raised : Finset ℕ :=
  (((ranked offsets remaining).take (leftover offsets remaining)).map Share.root).toFinset

variable {offsets remaining}

theorem mem_ranked {share : Share} :
    share ∈ ranked offsets remaining ↔
      share.root < rootCount offsets ∧ share = entryOf offsets remaining share.root := by
  rw [ranked, List.mem_insertionSort, List.mem_map]
  constructor
  · rintro ⟨root, hroot, rfl⟩
    exact ⟨List.mem_range.mp hroot, rfl⟩
  · rintro ⟨hroot, heq⟩
    exact ⟨share.root, List.mem_range.mpr hroot, heq.symm⟩

theorem nodup_ranked : ((ranked offsets remaining).map Share.root).Nodup := by
  have hperm : ((ranked offsets remaining).map Share.root).Perm
      (List.range (rootCount offsets)) := by
    have hmap := (List.perm_insertionSort Share.Before
      ((List.range (rootCount offsets)).map (entryOf offsets remaining))).map Share.root
    rwa [List.map_map, show Share.root ∘ entryOf offsets remaining = id from rfl,
      List.map_id] at hmap
  exact hperm.nodup_iff.mpr List.nodup_range

theorem length_ranked : (ranked offsets remaining).length = rootCount offsets := by
  rw [ranked, List.length_insertionSort, List.length_map, List.length_range]

theorem mem_raised {root : ℕ} :
    root ∈ raised offsets remaining ↔
      root ∈ ((ranked offsets remaining).take (leftover offsets remaining)).map Share.root :=
  List.mem_toFinset

/-- Whoever is rounded up comes before whoever is not. -/
theorem raised_before {root other : ℕ} (hroot : root ∈ raised offsets remaining)
    (hother : other < rootCount offsets) (hout : other ∉ raised offsets remaining) :
    (entryOf offsets remaining root).Before (entryOf offsets remaining other) := by
  have hsorted : (ranked offsets remaining).Pairwise Share.Before :=
    List.pairwise_insertionSort Share.Before _
  rw [← List.take_append_drop (leftover offsets remaining) (ranked offsets remaining),
    List.pairwise_append] at hsorted
  obtain ⟨share, hshare, rfl⟩ := List.mem_map.mp (mem_raised.mp hroot)
  have hranked : entryOf offsets remaining other ∈ ranked offsets remaining :=
    mem_ranked.mpr ⟨hother, rfl⟩
  rw [← List.take_append_drop (leftover offsets remaining) (ranked offsets remaining),
    List.mem_append] at hranked
  rw [← (mem_ranked.mp (List.mem_of_mem_take hshare)).2]
  rcases hranked with htake | hdrop
  · exact absurd (mem_raised.mpr (List.mem_map_of_mem htake)) hout
  · exact hsorted.2.2 share hshare _ hdrop

end

namespace Shareable

variable {offsets : List ℕ} {remaining : ℕ} (hshareable : Shareable offsets remaining)
include hshareable

theorem leftover_le : leftover offsets remaining ≤ rootCount offsets := by
  calc leftover offsets remaining
      ≤ ((Finset.range (rootCount offsets)).filter fun root => 0 <
          Apportionment.remainder (Finset.range (rootCount offsets)) (spare offsets) remaining
            root).card := Apportionment.leftover_le_card_positive hshareable.total_pos
    _ ≤ (Finset.range (rootCount offsets)).card := Finset.card_filter_le _ _
    _ = rootCount offsets := Finset.card_range _

/-- The pass serves roots of largest remainders. -/
theorem largest :
    Apportionment.Largest (Finset.range (rootCount offsets)) (spare offsets) remaining
      (raised offsets remaining) where
  within := by
    intro root hroot
    obtain ⟨share, hshare, rfl⟩ := List.mem_map.mp (mem_raised.mp hroot)
    exact Finset.mem_range.mpr (mem_ranked.mp (List.mem_of_mem_take hshare)).1
  card := by
    have hnodup : (((ranked offsets remaining).take (leftover offsets remaining)).map
        Share.root).Nodup := by
      rw [List.map_take]
      exact (List.take_sublist _ _).nodup nodup_ranked
    rw [raised, List.toFinset_card_of_nodup hnodup, List.length_map, List.length_take,
      length_ranked, Nat.min_eq_left hshareable.leftover_le]
    rfl
  order := by
    intro root hroot other hother hout
    have hbefore := raised_before hroot (Finset.mem_range.mp hother) hout
    rcases hbefore with hlt | ⟨heq, -⟩
    · exact hlt.le
    · exact heq.ge

/-- A root that is served still has a row to spare: no root is ever skipped. -/
theorem extra_lt_spare {root : ℕ} (hroot : root ∈ raised offsets remaining) :
    extra offsets remaining root < spare offsets root :=
  Apportionment.lower_lt hshareable.le_total
    (hshareable.largest.positive hshareable.total_pos hroot)

/-- The counts that the pass ends with. -/
theorem distribute_ranked :
    distribute (leftover offsets remaining) (ranked offsets remaining) 0
        ((List.range (rootCount offsets)).map fun root => 1 + extra offsets remaining root) =
      .ok ((List.range (rootCount offsets)).map fun root => 1 + extra offsets remaining root +
        if root ∈ raised offsets remaining then 1 else 0) := by
  rw [distribute_eq (Nat.zero_le _) nodup_ranked]
  · simp only [Nat.sub_zero, mem_raised]
  · intro share hshare
    obtain ⟨hroot, hentry⟩ := mem_ranked.mp (List.mem_of_mem_take hshare)
    have hraised : share.root ∈ raised offsets remaining :=
      mem_raised.mpr (List.mem_map_of_mem hshare)
    have hlt := hshareable.extra_lt_spare hraised
    have hrows := hshareable.partitions.rows_lt_usizeBound share.root
    have hspare := hshareable.partitions.spare_add_one hroot
    have havailable : share.availableExtra = spare offsets share.root :=
      congrArg Share.availableExtra hentry
    rw [havailable]
    exact ⟨hroot, by omega, by omega, by omega⟩

end Shareable

/-! ## Exact allocation -/

/-- The clusters beyond the first that a root is due: its part of the spare rows. -/
def exactShare (offsets : List ℕ) (nClusters root : ℕ) : ℚ :=
  (spare offsets root * (nClusters - rootCount offsets) : ℕ) /
    (totalRows offsets - rootCount offsets : ℕ)

/-- An allocation of all clusters, within the rows of every root, by largest remainders. -/
structure LargestRemainder (offsets : List ℕ) (nClusters : ℕ) (childCounts : List ℕ) : Prop where
  length : childCounts.length = rootCount offsets
  sum : childCounts.sum = nClusters
  least : ∀ root < rootCount offsets, 1 ≤ childCounts.getD root 0
  most : ∀ root < rootCount offsets, childCounts.getD root 0 ≤ rows offsets root
  rounded : ∀ root < rootCount offsets,
    childCounts.getD root 0 - 1 = ⌊exactShare offsets nClusters root⌋₊ ∨
      childCounts.getD root 0 - 1 = ⌈exactShare offsets nClusters root⌉₊
  order : ∀ root < rootCount offsets, ∀ other < rootCount offsets,
    ⌊exactShare offsets nClusters root⌋₊ < childCounts.getD root 0 - 1 →
      childCounts.getD other 0 - 1 = ⌊exactShare offsets nClusters other⌋₊ →
        (entryOf offsets (nClusters - rootCount offsets) root).Before
          (entryOf offsets (nClusters - rootCount offsets) other)

theorem foldlM_addCount {counts : List ℕ} {sum : ℕ} (hsum : sum + counts.sum < usizeBound) :
    counts.foldlM addCount sum = .ok (sum + counts.sum) := by
  induction counts generalizing sum with
  | nil => rfl
  | cons count counts ih =>
      rw [List.sum_cons, ← Nat.add_assoc] at hsum ⊢
      rw [List.foldlM_cons, addCount, checked_ok (by omega)]
      exact ih hsum

theorem getD_map_range {length root : ℕ} (count : ℕ → ℕ) (hroot : root < length) :
    ((List.range length).map count).getD root 0 = count root := by
  rw [List.getD_eq_getElem?_getD, List.getElem?_map, List.getElem?_range hroot, Option.map_some,
    Option.getD_some]

namespace Partitions

variable {offsets : List ℕ} (hpartitions : Partitions offsets)
include hpartitions

theorem exactShare_eq (nClusters root : ℕ) :
    exactShare offsets nClusters root =
      Apportionment.share (Finset.range (rootCount offsets)) (spare offsets)
        (nClusters - rootCount offsets) root := by
  rw [exactShare, Apportionment.share, hpartitions.total_spare]

/-- One cluster for every root is the whole allocation when no more are asked for. -/
theorem largestRemainder_replicate :
    LargestRemainder offsets (rootCount offsets) (List.replicate (rootCount offsets) 1) := by
  have hget : ∀ root < rootCount offsets,
      (List.replicate (rootCount offsets) 1).getD root 0 = 1 := by
    intro root hroot
    rw [List.getD_eq_getElem _ _ (by rwa [List.length_replicate]), List.getElem_replicate]
  have hshare : ∀ root, ⌊exactShare offsets (rootCount offsets) root⌋₊ = 0 := by
    intro root
    rw [exactShare, Nat.sub_self, Nat.mul_zero, Nat.cast_zero, zero_div, Nat.floor_zero]
  refine ⟨List.length_replicate, ?_, ?_, ?_, ?_, ?_⟩
  · rw [List.sum_replicate_nat, Nat.mul_one]
  · exact fun root hroot => (hget root hroot).ge
  · intro root hroot
    rw [hget root hroot]
    exact hpartitions.rows_pos hroot
  · intro root hroot
    rw [hget root hroot, hshare]
    exact .inl rfl
  · intro root hroot other _ hlt
    rw [hget root hroot, hshare] at hlt
    exact absurd hlt (lt_irrefl 0)

end Partitions

namespace Shareable

variable {offsets : List ℕ} {remaining : ℕ} (hshareable : Shareable offsets remaining)
include hshareable

theorem largestRemainder :
    LargestRemainder offsets (rootCount offsets + remaining)
      ((List.range (rootCount offsets)).map fun root => 1 + extra offsets remaining root +
        if root ∈ raised offsets remaining then 1 else 0) := by
  have hshare : ∀ root, exactShare offsets (rootCount offsets + remaining) root =
      Apportionment.share (Finset.range (rootCount offsets)) (spare offsets) remaining root := by
    intro root
    rw [hshareable.partitions.exactShare_eq, Nat.add_sub_cancel_left]
  have hfloor : ∀ root, ⌊exactShare offsets (rootCount offsets + remaining) root⌋₊ =
      extra offsets remaining root := by
    intro root
    rw [hshare, Apportionment.floor_share, extra]
  have hone : ∀ root, 1 + extra offsets remaining root +
      (if root ∈ raised offsets remaining then 1 else 0) - 1 =
        extra offsets remaining root + if root ∈ raised offsets remaining then 1 else 0 := by
    intro root
    omega
  refine ⟨by rw [List.length_map, List.length_range], ?_, ?_, ?_, ?_, ?_⟩
  · calc ((List.range (rootCount offsets)).map fun root => 1 + extra offsets remaining root +
          if root ∈ raised offsets remaining then 1 else 0).sum
        = ∑ root ∈ Finset.range (rootCount offsets), (1 + (extra offsets remaining root +
            if root ∈ raised offsets remaining then 1 else 0)) := by
          simp only [← Nat.add_assoc]
          rfl
      _ = rootCount offsets + remaining := by
          rw [Finset.sum_add_distrib, ← Finset.card_eq_sum_ones, Finset.card_range]
          exact congrArg _ (hshareable.largest.sum_eq hshareable.total_pos)
  · intro root hroot
    rw [getD_map_range _ hroot]
    omega
  · intro root hroot
    have hle := hshareable.largest.seat_le hshareable.total_pos hshareable.le_total root
    have hspare := hshareable.partitions.spare_add_one hroot
    rw [getD_map_range _ hroot, ← hspare, extra]
    omega
  · intro root hroot
    rw [getD_map_range _ hroot, hone, hshare]
    exact hshareable.largest.floor_or_ceil hshareable.total_pos root
  · intro root hroot other hother hup hdown
    rw [getD_map_range _ hroot, hone, hfloor] at hup
    rw [getD_map_range _ hother, hone, hfloor] at hdown
    rw [Nat.add_sub_cancel_left]
    apply raised_before _ hother
    · intro hmem
      rw [if_pos hmem] at hdown
      omega
    · by_contra hmem
      rw [if_neg hmem] at hup
      omega

end Shareable

/-! ## The whole function -/

variable {offsets : List ℕ} {nClusters : ℕ}

/-- The first two checks let row offsets of non-empty partitions pass. -/
theorem Partitions.not_rejected (hpartitions : Partitions offsets) :
    ¬ (offsets.length - 1 = 0 ∨ offsets.head? ≠ some 0 ∨
      ∃ range ∈ windows offsets, range.2 ≤ range.1) := by
  rintro (hzero | hstart | ⟨range, hrange, hle⟩)
  · exact hpartitions.roots.ne' hzero
  · exact hstart hpartitions.start
  · obtain ⟨root, hroot⟩ := List.mem_iff_getElem?.mp hrange
    have hentry : (range, root) ∈ (windows offsets).zipIdx :=
      List.mem_zipIdx_iff_getElem?.mpr hroot
    rw [windows_zipIdx] at hentry
    obtain ⟨other, hother, heq⟩ := List.mem_map.mp hentry
    cases heq
    exact absurd hle (not_le.mpr (hpartitions.getD_lt (List.mem_range.mp hother)))

/-- What the code does once its arguments have passed the checks. -/
theorem proportionalChildCounts_of_checked (hpartitions : Partitions offsets)
    (hroots : rootCount offsets ≤ nClusters) (hrows : nClusters ≤ totalRows offsets) :
    proportionalChildCounts offsets nClusters =
      if nClusters - rootCount offsets = 0 then .ok (List.replicate (rootCount offsets) 1)
      else shareRemaining offsets nClusters (rootCount offsets) (totalRows offsets)
        (nClusters - rootCount offsets) := by
  have hlength : ¬ offsets.length < 1 := by
    have hpositive := hpartitions.roots
    rw [rootCount] at hpositive
    omega
  have hbounds : ¬ (nClusters < offsets.length - 1 ∨ offsets.getLastD 0 < nClusters) := by
    rw [not_or, not_lt, not_lt]
    exact ⟨hroots, hrows⟩
  rw [proportionalChildCounts, rejectIf_eq_ok.mpr hlength, ok_bind]
  dsimp only
  rw [rejectIf_eq_ok.mpr hpartitions.not_rejected, ok_bind, rejectIf_eq_ok.mpr hbounds, ok_bind]
  change (subtract nClusters (rootCount offsets) >>= _) = _
  rw [subtract_ok hroots]
  rfl

/-- The allocation of the code in closed form. -/
def allocation (offsets : List ℕ) (nClusters : ℕ) : List ℕ :=
  let remaining := nClusters - rootCount offsets
  if remaining = 0 then List.replicate (rootCount offsets) 1
  else (List.range (rootCount offsets)).map fun root => 1 + extra offsets remaining root +
    if root ∈ raised offsets remaining then 1 else 0

theorem Partitions.shareable (hpartitions : Partitions offsets)
    (hrows : nClusters ≤ totalRows offsets) (hremaining : nClusters - rootCount offsets ≠ 0) :
    Shareable offsets (nClusters - rootCount offsets) where
  partitions := hpartitions
  positive := by omega
  bounded := by omega

theorem largestRemainder_allocation (hpartitions : Partitions offsets)
    (hroots : rootCount offsets ≤ nClusters) (hrows : nClusters ≤ totalRows offsets) :
    LargestRemainder offsets nClusters (allocation offsets nClusters) := by
  unfold allocation
  by_cases hremaining : nClusters - rootCount offsets = 0
  · have heq : nClusters = rootCount offsets := by omega
    rw [if_pos hremaining, heq]
    exact hpartitions.largestRemainder_replicate
  · have hresult := (hpartitions.shareable hrows hremaining).largestRemainder
    rw [Nat.add_sub_cancel' hroots] at hresult
    rwa [if_neg hremaining]

theorem proportionalChildCounts_eq (hpartitions : Partitions offsets)
    (hroots : rootCount offsets ≤ nClusters) (hrows : nClusters ≤ totalRows offsets) :
    proportionalChildCounts offsets nClusters = .ok (allocation offsets nClusters) := by
  have hsum := (largestRemainder_allocation hpartitions hroots hrows).sum
  rw [proportionalChildCounts_of_checked hpartitions hroots hrows]
  unfold allocation at hsum ⊢
  by_cases hremaining : nClusters - rootCount offsets = 0
  · rw [if_pos hremaining, if_pos hremaining]
  have hshareable := hpartitions.shareable hrows hremaining
  have hword := hpartitions.getD_lt_usizeBound (rootCount offsets)
  rw [← totalRows_eq] at hword
  rw [if_neg hremaining] at hsum
  rw [if_neg hremaining, if_neg hremaining, shareRemaining,
    subtract_ok hpartitions.rootCount_le_totalRows, ok_bind, hshareable.foldlM_allot, ok_bind]
  change (subtract _ (∑ root ∈ Finset.range (rootCount offsets), _) >>= _) = _
  rw [subtract_ok (hshareable.sum_extra_le le_rfl), ok_bind]
  change (distribute (leftover offsets _) (ranked offsets _) 0
    ((List.range (rootCount offsets)).map fun root => 1 + extra offsets _ root) >>= _) = _
  rw [hshareable.distribute_ranked, ok_bind, foldlM_addCount (by rw [hsum]; omega), ok_bind,
    hsum, Nat.zero_add, rejectIf_eq_ok.mpr (not_not.mpr rfl), ok_bind]

/-- Whatever passes the checks of the code is allocated exactly: no later step fails, and the
result spends all clusters by largest remainders within the rows of every root. -/
theorem proportionalChildCounts_exact (hpartitions : Partitions offsets)
    (hroots : rootCount offsets ≤ nClusters) (hrows : nClusters ≤ totalRows offsets) :
    ∃ childCounts, proportionalChildCounts offsets nClusters = .ok childCounts ∧
      LargestRemainder offsets nClusters childCounts :=
  ⟨_, proportionalChildCounts_eq hpartitions hroots hrows,
    largestRemainder_allocation hpartitions hroots hrows⟩

/-- One huge partition beside single rows takes all the clusters that are left. -/
theorem proportionalChildCounts_exact_skewed :
    ∃ childCounts, proportionalChildCounts [0, 1, 2, 100] 16 = .ok childCounts ∧
      LargestRemainder [0, 1, 2, 100] 16 childCounts :=
  proportionalChildCounts_exact
    { start := rfl
      increasing := by decide
      roots := by decide
      word := by decide }
    (by decide) (by decide)

example : proportionalChildCounts [0, 50, 80, 95, 100] 16 = .ok [7, 5, 3, 1] := by decide +kernel

end ParqDB.Kmeans
