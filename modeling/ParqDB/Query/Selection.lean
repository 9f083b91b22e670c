import ParqDB.Foundations.Smallest
import ParqDB.Query.Selector

/-!
# What a selector loses

A selector loses a row only when `fetch` rows that it keeps are not greater, and the limit
that it reports is one that `fetch` of its rows have.

**Results.**

* `CandidateSelector.Sound.updateBatch`: one batch, in both modes.
* `CandidateSelector.Sound.finish`: the end of the stream.
-/

namespace ParqDB.Query

open Foundations

/-! ## Heaps -/

namespace BinaryHeap

/-- The numbers of the candidates. -/
def rows (heap : BinaryHeap) : List ℤ := heap.items.map fun candidate => candidate.distance.value

theorem perm_push (heap : BinaryHeap) (candidate : Candidate) :
    (heap.push candidate).rows.Perm (candidate.distance.value :: heap.rows) :=
  (List.perm_orderedInsert _ candidate heap.items).map _

theorem length_push (heap : BinaryHeap) (candidate : Candidate) :
    (heap.push candidate).length = heap.length + 1 :=
  (List.perm_orderedInsert _ candidate heap.items).length_eq

variable {greatest : Candidate} {heap : BinaryHeap}

/-- The greatest candidate is at the front. -/
theorem rows_le_peek (hpeek : heap.peek = some greatest) {row : ℤ} (hrow : row ∈ heap.rows) :
    row ≤ greatest.distance.value := by
  obtain ⟨items, hordered⟩ := heap
  cases items with
  | nil => cases hpeek
  | cons first items =>
      cases hpeek
      obtain ⟨candidate, hcandidate, rfl⟩ := List.mem_map.mp hrow
      rcases List.mem_cons.mp hcandidate with rfl | hrest
      · exact le_refl _
      · exact ((List.pairwise_cons.mp hordered).1 candidate hrest).value_le

theorem rows_eq_cons_pop (hpeek : heap.peek = some greatest) :
    heap.rows = greatest.distance.value :: heap.pop.rows := by
  obtain ⟨items, hordered⟩ := heap
  cases items with
  | nil => cases hpeek
  | cons first items =>
      cases hpeek
      rfl

theorem exists_peek (hlength : 0 < heap.length) : ∃ greatest, heap.peek = some greatest := by
  obtain ⟨items, hordered⟩ := heap
  cases items with
  | nil => exact absurd hlength (lt_irrefl 0)
  | cons first items => exact ⟨first, rfl⟩

end BinaryHeap

namespace CandidateSelector

/-- The numbers of the rows of a batch below a limit. -/
def rowsBelow (limit : Distance) (distances : List Distance) : List ℤ :=
  (distances.filter fun distance => distance.value < limit.value).map Distance.value

theorem rowsBelow_cons (limit distance : Distance) (distances : List Distance) :
    rowsBelow limit (distance :: distances) =
      (if distance.value < limit.value then [distance.value] else []) ++
        rowsBelow limit distances := by
  by_cases hbelow : distance.value < limit.value <;> simp [rowsBelow, hbelow]

variable {heap : BinaryHeap}

/-- One row in heap mode. -/
theorem updateHeapRow_retains {fetch : ℕ} (hfetch : 0 < fetch) (limit distance : Distance)
    (sequence : ℕ) (hlength : heap.length ≤ fetch) :
    Retains fetch
        (heap.rows ++ if distance.value < limit.value then [distance.value] else [])
        (updateHeapRow fetch limit (heap, sequence) distance).1.rows ∧
      (updateHeapRow fetch limit (heap, sequence) distance).1.length ≤ fetch := by
  by_cases hbelow : distance.value < limit.value
  · rw [if_pos hbelow]
    by_cases hfull : heap.length = fetch
    · obtain ⟨greatest, hpeek⟩ := BinaryHeap.exists_peek (hfull ▸ hfetch)
      have hrowsLength : heap.rows.length = fetch := (List.length_map _).trans hfull
      by_cases hless : distance.value < greatest.distance.value
      · -- the greatest candidate makes room for the new one
        have hupdate : updateHeapRow fetch limit (heap, sequence) distance =
            (heap.pop.push ⟨distance, sequence⟩, nextOf sequence) := by
          simp [updateHeapRow, hbelow, hfull, hpeek, hless]
        rw [hupdate]
        have hpop := BinaryHeap.rows_eq_cons_pop hpeek
        have hpush := heap.pop.perm_push ⟨distance, sequence⟩
        have hpopLength : heap.pop.rows.length + 1 = fetch := by
          rw [← hrowsLength, hpop, List.length_cons]
        refine ⟨⟨[greatest.distance.value], ?_, ?_⟩, ?_⟩
        · rw [hpop]
          refine (List.perm_append_singleton _ _).trans ?_
          exact (List.Perm.swap _ _ _).trans (List.Perm.cons _ hpush.symm)
        · intro item hitem
          rw [List.mem_singleton.mp hitem]
          refine Dominated.perm (dominated_of_forall ?_ fun row hrow => ?_) hpush.symm
          · rw [List.length_cons]
            omega
          · rcases List.mem_cons.mp hrow with rfl | hrest
            · exact hless.le
            · refine BinaryHeap.rows_le_peek hpeek ?_
              rw [hpop]
              exact List.mem_cons_of_mem _ hrest
        · have hlengthPush := heap.pop.length_push ⟨distance, sequence⟩
          have hlengthPop : heap.pop.length = heap.pop.rows.length := (List.length_map _).symm
          dsimp only
          omega
      · have hupdate : updateHeapRow fetch limit (heap, sequence) distance = (heap, sequence) := by
          simp [updateHeapRow, hbelow, hfull, hpeek, not_lt.mp hless]
        rw [hupdate]
        refine ⟨⟨[distance.value], List.perm_append_comm, fun item hitem => ?_⟩, hlength⟩
        rw [List.mem_singleton.mp hitem]
        refine dominated_of_forall hrowsLength.ge fun row hrow => ?_
        exact le_trans (BinaryHeap.rows_le_peek hpeek hrow) (not_lt.mp hless)
    · have hupdate : updateHeapRow fetch limit (heap, sequence) distance =
          (heap.push ⟨distance, sequence⟩, nextOf sequence) := by
        simp [updateHeapRow, hbelow, hfull]
      rw [hupdate]
      refine ⟨Retains.of_perm ?_, ?_⟩
      · refine (List.perm_append_singleton _ _).trans ?_
        exact (heap.perm_push ⟨distance, sequence⟩).symm
      · have hlengthPush := heap.length_push ⟨distance, sequence⟩
        dsimp only
        omega
  · have hupdate : updateHeapRow fetch limit (heap, sequence) distance = (heap, sequence) := by
      simp [updateHeapRow, not_lt.mp hbelow]
    rw [hupdate, if_neg hbelow, List.append_nil]
    exact ⟨Retains.refl _, hlength⟩

/-- All rows of a batch in heap mode. -/
theorem foldl_updateHeapRow_retains {fetch : ℕ} (hfetch : 0 < fetch) (limit : Distance)
    (distances : List Distance) {state : BinaryHeap × ℕ} (hlength : state.1.length ≤ fetch) :
    Retains fetch (state.1.rows ++ rowsBelow limit distances)
        (distances.foldl (updateHeapRow fetch limit) state).1.rows ∧
      (distances.foldl (updateHeapRow fetch limit) state).1.length ≤ fetch := by
  induction distances generalizing state with
  | nil =>
      rw [rowsBelow, List.filter_nil, List.map_nil, List.append_nil]
      exact ⟨Retains.refl _, hlength⟩
  | cons distance distances ih =>
      obtain ⟨heap, sequence⟩ := state
      obtain ⟨hrow, hrowLength⟩ := updateHeapRow_retains hfetch limit distance sequence
        hlength
      obtain ⟨hrest, hrestLength⟩ := ih hrowLength
      rw [rowsBelow_cons, ← List.append_assoc, List.foldl_cons]
      exact ⟨(hrow.append_right _).trans hrest, hrestLength⟩

/-! ## The buffer -/

def rowsOf (candidates : List Candidate) : List ℤ :=
  candidates.map fun candidate => candidate.distance.value

theorem rowsOf_foldl_pushRow (limit : Distance) (distances : List Distance)
    (state : List Candidate × ℕ) :
    rowsOf (distances.foldl (pushRow limit) state).1 =
      rowsOf state.1 ++ rowsBelow limit distances := by
  induction distances generalizing state with
  | nil => simp [rowsBelow]
  | cons distance distances ih =>
      obtain ⟨candidates, sequence⟩ := state
      rw [List.foldl_cons, ih, rowsBelow_cons, ← List.append_assoc]
      refine congrArg (· ++ rowsBelow limit distances) ?_
      by_cases hbelow : distance.value < limit.value
      · rw [if_pos hbelow]
        simp [pushRow, hbelow, rowsOf]
      · rw [if_neg hbelow]
        simp [pushRow, not_lt.mp hbelow]

/-- The candidates in ascending order have ascending numbers. -/
theorem rowsOf_sorted (candidates : List Candidate) :
    (rowsOf (candidates.insertionSort Candidate.NotAfter)).Pairwise (· ≤ ·) :=
  (List.pairwise_insertionSort Candidate.NotAfter candidates).map _ fun _ _ hle => hle.value_le

theorem rowsOf_perm_sorted (candidates : List Candidate) :
    (rowsOf (candidates.insertionSort Candidate.NotAfter)).Perm (rowsOf candidates) :=
  (List.perm_insertionSort _ candidates).map _

variable {sorted : List ℤ}

/-- In an ascending list the items from a position on are dominated by those before it. -/
theorem retains_take (hsorted : sorted.Pairwise (· ≤ ·)) {k : ℕ} (hlength : k ≤ sorted.length) :
    Retains k sorted (sorted.take k) := by
  refine ⟨sorted.drop k, ?_, fun item hitem => ?_⟩
  · refine List.Perm.trans (List.Perm.of_eq (List.take_append_drop k sorted).symm) ?_
    exact List.perm_append_comm
  · refine dominated_of_forall ?_ fun row hrow => ?_
    · rw [List.length_take, Nat.min_eq_left hlength]
    · rw [← List.take_append_drop k sorted, List.pairwise_append] at hsorted
      exact hsorted.2.2 row hrow item hitem

/-- The last of the first `k` items of an ascending list is one that they have. -/
theorem dominated_take (hsorted : sorted.Pairwise (· ≤ ·)) {k : ℕ} (hk : 0 < k) {row : ℤ}
    (hrow : sorted[k - 1]? = some row) : Dominated k (sorted.take k) row := by
  obtain ⟨hposition, rfl⟩ := List.getElem?_eq_some_iff.mp hrow
  refine dominated_of_forall ?_ fun other hother => ?_
  · rw [List.length_take]
    omega
  · obtain ⟨position, hlast, rfl⟩ := List.mem_iff_getElem.mp hother
    rw [List.length_take] at hlast
    rw [List.getElem_take]
    rcases Nat.lt_or_ge position (k - 1) with hbefore | hafter
    · exact List.pairwise_iff_getElem.mp hsorted _ _ (by omega) hposition hbefore
    · have hsame : position = k - 1 := by omega
      simp only [hsame, le_refl]

/-- The greatest of exactly `k` candidates. -/
theorem dominated_greatest {k : ℕ} (hk : 0 < k) {candidates : List Candidate}
    (hlength : candidates.length = k) {greatest : Candidate}
    (hgreatest : greatest? candidates = some greatest) :
    Dominated k (rowsOf candidates) greatest.distance.value := by
  have hsortedLength : (rowsOf (candidates.insertionSort Candidate.NotAfter)).length = k := by
    rw [rowsOf, List.length_map, List.length_insertionSort, hlength]
  rw [greatest?, List.getLast?_eq_getElem?, List.length_insertionSort, hlength] at hgreatest
  have hrow : (rowsOf (candidates.insertionSort Candidate.NotAfter))[k - 1]? =
      some greatest.distance.value := by
    rw [rowsOf, List.getElem?_map, hgreatest]
    rfl
  have hdominated := dominated_take (rowsOf_sorted candidates) hk hrow
  rw [List.take_of_length_le hsortedLength.le] at hdominated
  exact hdominated.perm (rowsOf_perm_sorted candidates)

/-! ## Selectors -/

/-- The candidates that a selector keeps. -/
def retained (selector : CandidateSelector) : List Candidate :=
  match selector.heap? with
  | some heap => heap.items
  | none => selector.candidates

def rows (selector : CandidateSelector) : List ℤ := rowsOf selector.retained

/-- The heap is not overfull, and the limit is one that enough rows have. -/
structure Sound (k : ℕ) (selector : CandidateSelector) : Prop where
  fetch : selector.fetch = k
  positive : 0 < k
  heapLength : ∀ heap ∈ selector.heap?, heap.length ≤ k ∧ selector.threshold? = none
  threshold : ∀ distance ∈ selector.threshold?, Dominated k selector.rows distance.value

variable {k : ℕ} {selector : CandidateSelector}

theorem sound_new (hk : 0 < k) : Sound k (new k) where
  fetch := rfl
  positive := hk
  heapLength := by
    intro heap hheap
    rw [new] at hheap
    dsimp only at hheap
    split at hheap
    · cases hheap
      exact ⟨Nat.zero_le _, rfl⟩
    · cases hheap
  threshold := by
    intro distance hdistance
    cases hdistance

theorem rows_of_heap (hheap : selector.heap? = some heap) : selector.rows = heap.rows := by
  rw [rows, retained, hheap]
  rfl

theorem rows_of_candidates (hheap : selector.heap? = none) :
    selector.rows = rowsOf selector.candidates := by
  rw [rows, retained, hheap]

/-- The limit that a selector reports. -/
theorem Sound.dominated_threshold (hsound : Sound k selector) {distance : Distance}
    (hthreshold : selector.threshold = some distance) :
    Dominated k selector.rows distance.value := by
  cases hheap : selector.heap? with
  | none =>
      rw [CandidateSelector.threshold, hheap] at hthreshold
      exact hsound.threshold distance hthreshold
  | some heap =>
      obtain ⟨-, hnone⟩ := hsound.heapLength heap hheap
      rw [CandidateSelector.threshold, hheap, hnone, Option.or_none, Option.bind_some] at hthreshold
      split at hthreshold
      · rename_i hfull
        obtain ⟨greatest, hpeek, rfl⟩ := Option.map_eq_some_iff.mp hthreshold
        rw [rows_of_heap hheap]
        refine dominated_of_forall ?_ fun row hrow => BinaryHeap.rows_le_peek hpeek hrow
        rw [BinaryHeap.rows, List.length_map, ← hsound.fetch]
        exact hfull.ge
      · cases hthreshold

/-- Cutting the buffer. -/
theorem Sound.compact (hfetch : selector.fetch = k) (hk : 0 < k) (hheap : selector.heap? = none)
    (hlength : k ≤ selector.candidates.length) :
    Sound k selector.compact ∧ Retains k selector.rows selector.compact.rows := by
  set selected := selector.candidates.insertionSort Candidate.NotAfter with hselected
  have hsorted := rowsOf_sorted selector.candidates
  have hrows : selector.compact.rows = (rowsOf selected).take k := by
    have hcompact : selector.compact.heap? = none := hheap
    rw [rows_of_candidates hcompact, CandidateSelector.compact, hfetch]
    exact List.map_take
  have hselectedLength : k ≤ (rowsOf selected).length := by
    rw [rowsOf, List.length_map, List.length_insertionSort]
    exact hlength
  refine ⟨⟨hfetch, hk, ?_, ?_⟩, ?_⟩
  · intro heap hsome
    rw [CandidateSelector.compact, hheap] at hsome
    cases hsome
  · intro distance hdistance
    rw [hrows]
    refine dominated_take hsorted hk ?_
    rw [CandidateSelector.compact, hfetch] at hdistance
    obtain ⟨candidate, hcandidate, rfl⟩ := Option.map_eq_some_iff.mp hdistance
    rw [rowsOf, List.getElem?_map, hcandidate]
    rfl
  · rw [hrows, rows_of_candidates hheap]
    exact (Retains.of_perm (rowsOf_perm_sorted _).symm).trans (retains_take hsorted hselectedLength)

/-- One batch: what is lost is above the limit or dominated. -/
theorem Sound.updateBatch (hsound : Sound k selector) (distances : List Distance)
    (limit : Distance) :
    Sound k (selector.updateBatch distances limit) ∧
      Retains k (selector.rows ++ rowsBelow limit distances)
        (selector.updateBatch distances limit).rows := by
  have hk := hsound.positive
  cases hheap : selector.heap? with
  | some heap =>
      obtain ⟨hlength, hnone⟩ := hsound.heapLength heap hheap
      obtain ⟨hretains, hlengthAfter⟩ := foldl_updateHeapRow_retains hk limit distances
        (show (heap, selector.nextSequence).1.length ≤ k from hlength)
      set folded := distances.foldl (updateHeapRow k limit) (heap, selector.nextSequence)
        with hfolded
      have hupdate : selector.updateBatch distances limit =
          { selector with heap? := some folded.1, nextSequence := folded.2 } := by
        simp only [CandidateSelector.updateBatch, hheap, hsound.fetch, hfolded]
      have hrows : (selector.updateBatch distances limit).rows = folded.1.rows := by
        rw [hupdate]
        rfl
      refine ⟨⟨?_, hk, ?_, ?_⟩, ?_⟩
      · rw [hupdate]
        exact hsound.fetch
      · intro other hother
        rw [hupdate] at hother ⊢
        cases hother
        exact ⟨hlengthAfter, hnone⟩
      · intro distance hdistance
        rw [hupdate, hnone] at hdistance
        cases hdistance
      · rw [hrows, rows_of_heap hheap]
        exact hretains
  -- without a heap the rows are pushed, and cut if they are too many
  | none =>
      set folded := distances.foldl (pushRow limit) (selector.candidates, selector.nextSequence)
        with hfolded
      set pushed : CandidateSelector :=
        { selector with candidates := folded.1, nextSequence := folded.2 } with hpushed
      have hpushedRows : pushed.rows = selector.rows ++ rowsBelow limit distances := by
        have hnone : pushed.heap? = none := hheap
        rw [rows_of_candidates hnone, rows_of_candidates hheap]
        exact rowsOf_foldl_pushRow limit distances _
      have hupdate : selector.updateBatch distances limit =
          if selector.fetch < folded.1.length ∧
              (selector.threshold? = none ∨ selector.compactionLimit ≤ folded.1.length) then
            pushed.compact
          else if folded.1.length = selector.fetch ∧ selector.threshold? = none then
            { pushed with threshold? := (greatest? folded.1).map Candidate.distance }
          else pushed := by
        simp only [CandidateSelector.updateBatch, hheap, hfolded, hpushed]
      rw [hupdate, ← hpushedRows]
      split
      · rename_i hcut
        exact Sound.compact hsound.fetch hk hheap (hsound.fetch ▸ hcut.1.le)
      · split
        · rename_i hexact
          refine ⟨⟨hsound.fetch, hk, ?_, ?_⟩, Retains.refl _⟩
          · intro heap hsome
            rw [show ({ pushed with threshold? := (greatest? folded.1).map Candidate.distance } :
              CandidateSelector).heap? = none from hheap] at hsome
            cases hsome
          · intro distance hdistance
            obtain ⟨greatest, hgreatest, rfl⟩ := Option.map_eq_some_iff.mp hdistance
            have hnone : pushed.heap? = none := hheap
            have hlength : folded.1.length = k := hexact.1.trans hsound.fetch
            change Dominated k pushed.rows _
            rw [rows_of_candidates hnone]
            exact dominated_greatest hk hlength hgreatest
        · refine ⟨⟨hsound.fetch, hk, ?_, ?_⟩, Retains.refl _⟩
          · intro heap hsome
            rw [show pushed.heap? = none from hheap] at hsome
            cases hsome
          · intro distance hdistance
            rw [hpushedRows]
            exact (hsound.threshold distance hdistance).append _

/-- The last cut and the rows that are emitted. -/
theorem Sound.finish (hsound : Sound k selector) :
    Retains k selector.rows (selector.compactRetained.finish.map Distance.value) := by
  have hemitted : ∀ other : CandidateSelector,
      other.rows.Perm (other.finish.map Distance.value) := by
    intro other
    cases hheap : other.heap? with
    | some heap =>
        rw [rows_of_heap hheap, CandidateSelector.finish, hheap]
        dsimp only
        rw [List.map_map, List.map_reverse]
        exact (List.reverse_perm _).symm
    | none =>
        rw [rows_of_candidates hheap, CandidateSelector.finish, hheap]
        dsimp only
        rw [List.map_map]
        exact (rowsOf_perm_sorted _).symm
  rw [compactRetained]
  split
  · exact Retains.of_perm (hemitted selector)
  · rename_i hcut
    rw [not_or, not_le, hsound.fetch] at hcut
    have hheap : selector.heap? = none := by simpa using hcut.1
    exact (Sound.compact hsound.fetch hsound.positive hheap hcut.2.le).2.trans
      (Retains.of_perm (hemitted _))

end CandidateSelector

end ParqDB.Query
