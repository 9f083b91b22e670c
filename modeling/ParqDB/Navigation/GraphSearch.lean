import Mathlib.Data.List.Perm.Basic
import Mathlib.Logic.Relation
import ParqDB.Navigation.Routing

/-!
# What a query search of the graph meets

A query search that meets fewer than `resultCount ≤ ef` centroids never fills its candidate
heap, so it takes every candidate that is not at infinity; it has then met exactly what the
lists lead to through centroids at finite distances (`Met`).  Otherwise it returns
`resultCount` of them.

**Strategy.**  `Tracked` is the invariant of the main loop.  Its first part holds always;
the second, about the heap, as long as at most `ef` centroids have been met.
-/

namespace ParqDB.Navigation

open Query (Distance)

/-! ## The candidate heap -/

namespace MinimaxHeap

theorem swapIfInBounds_perm (entries : Array HeapEntry) (left right : ℕ) :
    (entries.swapIfInBounds left right).toList.Perm entries.toList := by
  unfold Array.swapIfInBounds
  split
  · split
    · exact (Array.swap_perm _ _).toList
    · exact List.Perm.refl _
  · exact List.Perm.refl _

theorem siftUp_perm (fuel : ℕ) (entries : Array HeapEntry) (position : ℕ) :
    (siftUp entries fuel position).toList.Perm entries.toList := by
  induction fuel generalizing entries position with
  | zero => exact List.Perm.refl _
  | succ fuel ih =>
      simp only [siftUp]
      split
      · exact List.Perm.refl _
      · exact (ih _ _).trans (swapIfInBounds_perm _ _ _)

variable {heap : MinimaxHeap} {entry : HeapEntry}

/-- A heap with room keeps all its entries. -/
theorem push_perm (hroom : heap.entries.size < heap.capacity) (cid : ℕ) (distance : Distance) :
    (heap.push cid distance).entries.toList.Perm (⟨some cid, distance⟩ :: heap.entries.toList) := by
  unfold push
  rw [if_neg (by omega)]
  simp only [insert]
  refine (siftUp_perm _ _ _).trans ?_
  rw [Array.toList_push]
  exact List.perm_append_singleton _ _

theorem siftDown_perm (fuel : ℕ) (entries : Array HeapEntry) (position : ℕ) :
    (siftDown entries fuel position).toList.Perm entries.toList := by
  induction fuel generalizing entries position with
  | zero => exact List.Perm.refl _
  | succ fuel ih =>
      rw [siftDown]
      split
      · exact List.Perm.refl _
      · dsimp only
        generalize (if position * 2 + 1 + 1 < entries.size ∧ distanceAt entries (position * 2 + 1) <
          distanceAt entries (position * 2 + 1 + 1) then position * 2 + 1 + 1
          else position * 2 + 1) = child
        split
        · exact List.Perm.refl _
        · exact (ih _ _).trans (swapIfInBounds_perm _ _ _)

variable {distance : Distance} {later : MinimaxHeap} {scored : Scored}

theorem mem_insert {cid : ℕ} (hentry : entry ∈ (heap.insert cid distance).entries.toList) :
    entry = ⟨some cid, distance⟩ ∨ entry ∈ heap.entries.toList := by
  have hpushed := (siftUp_perm _ _ _).mem_iff.mp hentry
  rw [Array.toList_push, List.mem_append, List.mem_singleton] at hpushed
  exact hpushed.symm

theorem mem_removeTop (hentry : entry ∈ heap.removeTop.entries.toList) :
    entry ∈ heap.entries.toList := by
  have hpopped := (siftDown_perm _ _ _).mem_iff.mp hentry
  rw [Array.toList_pop] at hpopped
  exact (swapIfInBounds_perm _ _ _).mem_iff.mp (List.dropLast_subset _ hpopped)

/-- A heap holds nothing but what was pushed. -/
theorem mem_push {cid : ℕ} (hentry : entry ∈ (heap.push cid distance).entries.toList) :
    entry = ⟨some cid, distance⟩ ∨ entry ∈ heap.entries.toList := by
  unfold push at hentry
  split at hentry
  · split at hentry
    · exact Or.inr hentry
    · rcases mem_insert hentry with hnew | hold
      · exact Or.inl hnew
      · exact Or.inr (mem_removeTop hold)
  · exact mem_insert hentry

theorem push_valid (hroom : heap.entries.size < heap.capacity) (cid : ℕ) (distance : Distance) :
    (heap.push cid distance).valid = heap.valid + 1 := by
  unfold push
  rw [if_neg (by omega)]
  rfl

theorem push_capacity (heap : MinimaxHeap) (cid : ℕ) (distance : Distance) :
    (heap.push cid distance).capacity = heap.capacity := by
  unfold push
  split
  · split <;> rfl
  · rfl

/-- The entry that is found, or why none is. -/
theorem findMinPosition_spec {entries : Array HeapEntry} {bound : ℕ}
    {found : Option ℕ × Distance} (hbound : bound ≤ entries.size)
    (hfound : ∀ position ∈ found.1, ∃ entry ∈ entries[position]?, entry.cid?.isSome ∧
      entry.distance.value < Distance.infinity.value)
    (hbest : found.2.value ≤ Distance.infinity.value) (hnone : found.1 = none →
      found.2 = Distance.infinity) :
    (∀ position ∈ findMinPosition entries bound found, ∃ entry ∈ entries[position]?,
      entry.cid?.isSome ∧ entry.distance.value < Distance.infinity.value) ∧
    (findMinPosition entries bound found = none → found.1 = none ∧
      ∀ position < bound, ∀ entry ∈ entries[position]?, entry.cid?.isSome →
        Distance.infinity.value ≤ entry.distance.value) := by
  induction bound generalizing found with
  | zero =>
      refine ⟨hfound, fun hfoundNone => ⟨hfoundNone, ?_⟩⟩
      intro position hposition
      omega
  | succ bound ih =>
      obtain ⟨entry, hentry⟩ : ∃ entry, entries[bound]? = some entry :=
        ⟨entries[bound], by simp⟩
      have hget : entries.getD bound ⟨none, Distance.infinity⟩ = entry := by
        simp [Array.getD_eq_getD_getElem?, hentry]
      simp only [findMinPosition, hget]
      split
      · next hnearer =>
          have hinner := @ih (some bound, entry.distance) (by omega) ?_ ?_ ?_
          · refine ⟨hinner.1, fun hfoundNone => ?_⟩
            cases (hinner.2 hfoundNone).1
          · intro position hposition
            cases hposition
            exact ⟨entry, hentry, hnearer.1, hnearer.2.trans_le hbest⟩
          · exact (hnearer.2.trans_le hbest).le
          · intro hfoundNone
            cases hfoundNone
      · next hfarther =>
          have hinner := ih (by omega) hfound hbest hnone
          refine ⟨hinner.1, fun hfoundNone => ?_⟩
          obtain ⟨hstart, hrest⟩ := hinner.2 hfoundNone
          refine ⟨hstart, fun position hposition other hother hsome => ?_⟩
          rcases Nat.lt_succ_iff_lt_or_eq.mp hposition with hlt | rfl
          · exact hrest position hlt other hother hsome
          · rw [hentry] at hother
            cases hother
            have hbestEq := hnone hstart
            rw [hbestEq] at hfarther
            exact not_lt.mp fun hlt => hfarther ⟨hsome, hlt⟩

theorem findMinPosition_all (entries : Array HeapEntry) :
    (∀ position ∈ findMinPosition entries entries.size (none, Distance.infinity),
      ∃ entry ∈ entries[position]?, entry.cid?.isSome ∧
        entry.distance.value < Distance.infinity.value) ∧
    (findMinPosition entries entries.size (none, Distance.infinity) = none →
      ∀ position < entries.size, ∀ entry ∈ entries[position]?, entry.cid?.isSome →
        Distance.infinity.value ≤ entry.distance.value) := by
  have hspec := @findMinPosition_spec entries entries.size (none, Distance.infinity)
    (Nat.le_refl _) (by simp) (Int.le_refl _) (fun _ => rfl)
  exact ⟨hspec.1, fun hnone => (hspec.2 hnone).2⟩

/-- The entry that is taken, and the others. -/
theorem popMin_some (hpop : heap.popMin = some (scored, later)) :
    ∃ rest, heap.entries.toList.Perm (⟨some scored.cid, scored.distance⟩ :: rest) ∧
      later.entries.toList.Perm (⟨none, scored.distance⟩ :: rest) ∧
      later.valid = heap.valid - 1 ∧ later.capacity = heap.capacity ∧
      scored.distance.value < Distance.infinity.value := by
  obtain ⟨position, hposition, hpop⟩ := Option.bind_eq_some_iff.mp hpop
  have hspec := (findMinPosition_all heap.entries).1
  obtain ⟨entry, hentry, hsome, hfinite⟩ := hspec position hposition
  obtain ⟨cid, hcid⟩ := Option.isSome_iff_exists.mp hsome
  obtain ⟨hbound, hget⟩ := Array.getElem?_eq_some_iff.mp hentry
  have hgetD : heap.entries.getD position ⟨none, Distance.infinity⟩ = entry := by
    rw [Array.getD_eq_getD_getElem?, hentry]
    rfl
  simp only [hgetD, hcid, Option.map_some, Option.some.injEq, Prod.mk.injEq] at hpop
  obtain ⟨rfl, rfl⟩ := hpop
  have hentryEq : entry = ⟨some cid, entry.distance⟩ := by
    cases entry
    simpa using hcid
  have hlist : position < heap.entries.toList.length := by simpa using hbound
  refine ⟨heap.entries.toList.eraseIdx position, ?_, ?_, rfl, rfl, hfinite⟩
  · have hperm := List.getElem_cons_eraseIdx_perm hlist
    have hitem : heap.entries.toList[position] = ⟨some cid, entry.distance⟩ := by
      rw [Array.getElem_toList, hget]
      exact hentryEq
    rw [hitem] at hperm
    exact hperm.symm
  · rw [Array.toList_setIfInBounds]
    exact List.set_perm_cons_eraseIdx hlist _

/-- What is left when nothing is taken. -/
theorem popMin_none (hpop : heap.popMin = none) :
    ∀ entry ∈ heap.entries.toList, entry.cid?.isSome →
      Distance.infinity.value ≤ entry.distance.value := by
  have hspec := findMinPosition_all heap.entries
  have hnone : findMinPosition heap.entries heap.entries.size (none, Distance.infinity) = none := by
    by_contra hfound
    obtain ⟨position, hposition⟩ := Option.ne_none_iff_exists'.mp hfound
    obtain ⟨entry, hentry, hsome, -⟩ := hspec.1 position hposition
    obtain ⟨cid, hcid⟩ := Option.isSome_iff_exists.mp hsome
    have hgetD : heap.entries.getD position ⟨none, Distance.infinity⟩ = entry := by
      rw [Array.getD_eq_getD_getElem?, hentry]
      rfl
    unfold popMin at hpop
    rw [hposition, Option.bind_some, hgetD] at hpop
    dsimp only at hpop
    rw [hcid] at hpop
    cases hpop
  intro entry hentry hsome
  obtain ⟨position, hposition⟩ := List.mem_iff_getElem?.mp hentry
  have hbound : position < heap.entries.size := by
    simpa using (List.getElem?_eq_some_iff.mp hposition).1
  exact hspec.2 hnone position hbound entry (by simpa using hposition) hsome

/-- The entry that was taken is still in the heap, and is not below itself. -/
theorem countBelow_popMin (hpop : heap.popMin = some (scored, later)) :
    later.countBelow scored.distance < later.entries.size := by
  obtain ⟨rest, -, hafter, -, -, -⟩ := popMin_some hpop
  have hsize : later.entries.size = rest.length + 1 := by
    rw [← Array.length_toList]
    exact hafter.length_eq
  rw [countBelow, hafter.countP_eq, List.countP_cons_of_neg (by simp), hsize]
  exact Nat.lt_succ_of_le List.countP_le_length

end MinimaxHeap

/-! ## The main loop -/

section

variable {adjacent : ℕ → List ℕ} {distance : ℕ → Distance} {resultCount ef count start : ℕ}

/-- A centroid at a finite distance leads to its neighbours. -/
def Leads (adjacent : ℕ → List ℕ) (distance : ℕ → Distance) (cid next : ℕ) : Prop :=
  (distance cid).value < Distance.infinity.value ∧ next ∈ adjacent cid

/-- What a search that starts at a centroid can meet. -/
def Met (adjacent : ℕ → List ℕ) (distance : ℕ → Distance) (start cid : ℕ) : Prop :=
  Relation.ReflTransGen (Leads adjacent distance) start cid

/-- What holds of the search whether or not its heap is full. -/
structure Tracked (adjacent : ℕ → List ℕ) (distance : ℕ → Distance)
    (resultCount ef count start : ℕ) (scratch : QueryScratch) : Prop where
  nodup : scratch.visited.Nodup
  met : ∀ cid ∈ scratch.visited, Met adjacent distance start cid
  bounded : ∀ cid ∈ scratch.visited, cid < count
  start_mem : start ∈ scratch.visited
  results_length : scratch.results.length = min resultCount scratch.visited.length
  results_mem : ∀ scored ∈ scratch.results, scored.cid ∈ scratch.visited
  results_nodup : (scratch.results.map Scored.cid).Nodup
  entries : ∀ entry ∈ scratch.candidates.entries.toList, ∀ cid, entry.cid? = some cid →
    cid ∈ scratch.visited ∧ entry.distance = distance cid
  capacity : scratch.candidates.capacity = ef

/-- What holds of the heap while at most `ef` centroids have been met: it holds all of them
but the ones that were taken. -/
structure Roomy (distance : ℕ → Distance) (taken : List ℕ) (scratch : QueryScratch) : Prop where
  size : scratch.candidates.entries.size = scratch.visited.length
  held : ∀ cid ∈ scratch.visited,
    ⟨some cid, distance cid⟩ ∈ scratch.candidates.entries.toList ∨ cid ∈ taken
  valid : scratch.candidates.valid =
    scratch.candidates.entries.toList.countP fun entry => entry.cid?.isSome

variable {scored : Scored} {scratch : QueryScratch} {candidate : ℕ} {taken : List ℕ}

theorem mem_results_considered {item : Scored}
    (hitem : item ∈ (considerQueryCandidate resultCount scratch scored).results) :
    item = scored ∨ item ∈ scratch.results := by
  simp only [considerQueryCandidate] at hitem
  split at hitem
  · have hinserted : item ∈ scratch.results.orderedInsert (· ≤ ·) scored := by
      split at hitem
      · exact List.dropLast_subset _ hitem
      · exact hitem
    exact (List.mem_orderedInsert _).mp hinserted
  · exact Or.inr hitem

theorem results_considered_nodup (hnodup : (scratch.results.map Scored.cid).Nodup)
    (hnew : scored.cid ∉ scratch.results.map Scored.cid) :
    ((considerQueryCandidate resultCount scratch scored).results.map Scored.cid).Nodup := by
  have hinserted : ((scratch.results.orderedInsert (· ≤ ·) scored).map Scored.cid).Nodup := by
    have hperm := (List.perm_orderedInsert (· ≤ ·) scored scratch.results).map Scored.cid
    rw [hperm.nodup_iff, List.map_cons, List.nodup_cons]
    exact ⟨hnew, hnodup⟩
  simp only [considerQueryCandidate]
  split
  · split
    · exact hinserted.sublist ((List.dropLast_sublist _).map _)
    · exact hinserted
  · exact hnodup

/-- One more centroid is among the results, as long as there is room. -/
theorem length_results_considered {visited : ℕ}
    (hlength : scratch.results.length = min resultCount visited) :
    (considerQueryCandidate resultCount scratch scored).results.length =
      min resultCount (visited + 1) := by
  simp only [considerQueryCandidate]
  split
  · split
    · next hmore =>
        rw [List.orderedInsert_length] at hmore
        rw [List.length_dropLast, List.orderedInsert_length]
        omega
    · next hroom =>
        rw [List.orderedInsert_length] at hroom ⊢
        omega
  · next hfull =>
      simp only [not_or] at hfull
      omega

theorem Tracked.visit (htracked : Tracked adjacent distance resultCount ef count start scratch)
    (hmet : Met adjacent distance start candidate) (hbound : candidate < count) :
    Tracked adjacent distance resultCount ef count start
      (visitQueryCandidate distance resultCount scratch candidate) := by
  unfold visitQueryCandidate
  split
  · exact htracked
  · next hnew =>
      exact {
        nodup := List.nodup_cons.mpr ⟨hnew, htracked.nodup⟩
        met := by
          intro cid hcid
          rcases List.mem_cons.mp hcid with rfl | hcid
          · exact hmet
          · exact htracked.met cid hcid
        bounded := by
          intro cid hcid
          rcases List.mem_cons.mp hcid with rfl | hcid
          · exact hbound
          · exact htracked.bounded cid hcid
        start_mem := List.mem_cons_of_mem _ htracked.start_mem
        results_length := length_results_considered htracked.results_length
        results_mem := by
          intro scored hscored
          rcases mem_results_considered hscored with rfl | hscored
          · exact List.mem_cons_self
          · exact List.mem_cons_of_mem _ (htracked.results_mem scored hscored)
        results_nodup := by
          refine results_considered_nodup htracked.results_nodup fun hmem => hnew ?_
          obtain ⟨scored, hscored, hcid⟩ := List.mem_map.mp hmem
          have hvisited := htracked.results_mem scored hscored
          rw [hcid] at hvisited
          exact hvisited
        entries := by
          intro entry hentry cid hcid
          rcases MinimaxHeap.mem_push hentry with rfl | hentry
          · cases hcid
            exact ⟨List.mem_cons_self, rfl⟩
          · obtain ⟨hvisited, hdistance⟩ := htracked.entries entry hentry cid hcid
            exact ⟨List.mem_cons_of_mem _ hvisited, hdistance⟩
        capacity := (MinimaxHeap.push_capacity _ _ _).trans htracked.capacity }

theorem Roomy.visit (hroomy : Roomy distance taken scratch)
    (hroom : scratch.visited.length < scratch.candidates.capacity)
    (hnew : candidate ∉ scratch.visited) :
    Roomy distance taken (visitQueryCandidate distance resultCount scratch candidate) := by
  have hsize : scratch.candidates.entries.size < scratch.candidates.capacity := by
    rw [hroomy.size]
    exact hroom
  have hperm := MinimaxHeap.push_perm hsize candidate (distance candidate)
  unfold visitQueryCandidate
  rw [if_neg hnew]
  refine ⟨?_, ?_, ?_⟩
  · have hlength := hperm.length_eq
    simp only [Array.length_toList, List.length_cons, hroomy.size] at hlength
    simpa [considerQueryCandidate] using hlength
  · intro cid hcid
    rcases List.mem_cons.mp hcid with rfl | hcid
    · left
      exact hperm.mem_iff.mpr List.mem_cons_self
    · rcases hroomy.held cid hcid with hheld | htaken
      · left
        exact hperm.mem_iff.mpr (List.mem_cons_of_mem _ hheld)
      · exact Or.inr htaken
  · have hcount := hperm.countP_eq fun entry => entry.cid?.isSome
    rw [List.countP_cons] at hcount
    simp only [considerQueryCandidate]
    rw [MinimaxHeap.push_valid hsize, hcount, hroomy.valid]
    simp

/-- What a search knows when it still has `fuel` rounds. -/
structure Searching (adjacent : ℕ → List ℕ) (distance : ℕ → Distance)
    (resultCount ef count start fuel : ℕ) (taken : List ℕ) (scratch : QueryScratch) : Prop where
  tracked : Tracked adjacent distance resultCount ef count start scratch
  roomy : scratch.visited.length ≤ ef → Roomy distance taken scratch ∧
    scratch.candidates.valid + count ≤ fuel + scratch.visited.length

variable {fuel : ℕ}

theorem Searching.visit
    (hsearching : Searching adjacent distance resultCount ef count start fuel taken scratch)
    (hmet : Met adjacent distance start candidate) (hbound : candidate < count) :
    Searching adjacent distance resultCount ef count start fuel taken
      (visitQueryCandidate distance resultCount scratch candidate) := by
  refine ⟨hsearching.tracked.visit hmet hbound, fun hfew => ?_⟩
  by_cases hnew : candidate ∈ scratch.visited
  · have hsame : visitQueryCandidate distance resultCount scratch candidate = scratch := by
      unfold visitQueryCandidate
      rw [if_pos hnew]
    rw [hsame] at hfew ⊢
    exact hsearching.roomy hfew
  · have hvisited : (visitQueryCandidate distance resultCount scratch candidate).visited =
        candidate :: scratch.visited := by
      unfold visitQueryCandidate
      rw [if_neg hnew]
      rfl
    rw [hvisited, List.length_cons] at hfew
    obtain ⟨hroomy, hfuel⟩ := hsearching.roomy (by omega)
    have hroom : scratch.visited.length < scratch.candidates.capacity := by
      rw [hsearching.tracked.capacity]
      omega
    have hvalid : (visitQueryCandidate distance resultCount scratch candidate).candidates.valid =
        scratch.candidates.valid + 1 := by
      unfold visitQueryCandidate
      rw [if_neg hnew]
      refine MinimaxHeap.push_valid ?_ _ _
      show scratch.candidates.entries.size < scratch.candidates.capacity
      rw [hroomy.size]
      exact hroom
    refine ⟨hroomy.visit hroom hnew, ?_⟩
    rw [hvalid, hvisited, List.length_cons]
    omega

theorem mem_visited_visit (distance : ℕ → Distance) (resultCount : ℕ) (scratch : QueryScratch)
    (candidate : ℕ) :
    candidate ∈ (visitQueryCandidate distance resultCount scratch candidate).visited ∧
      scratch.visited ⊆ (visitQueryCandidate distance resultCount scratch candidate).visited := by
  unfold visitQueryCandidate
  split
  · next hold => exact ⟨hold, fun _ hcid => hcid⟩
  · exact ⟨List.mem_cons_self, fun _ hcid => List.mem_cons_of_mem _ hcid⟩

/-- Visiting a list of neighbours. -/
theorem Searching.visitAll {neighbors : List ℕ} :
    ∀ {scratch : QueryScratch},
      Searching adjacent distance resultCount ef count start fuel taken scratch →
      (∀ next ∈ neighbors, Met adjacent distance start next ∧ next < count) →
      Searching adjacent distance resultCount ef count start fuel taken
        (neighbors.foldl (visitQueryCandidate distance resultCount) scratch) ∧
      scratch.visited ⊆ (neighbors.foldl (visitQueryCandidate distance resultCount)
        scratch).visited ∧
      neighbors ⊆ (neighbors.foldl (visitQueryCandidate distance resultCount) scratch).visited := by
  induction neighbors with
  | nil =>
      intro scratch hsearching _
      exact ⟨hsearching, fun _ hcid => hcid, by simp⟩
  | cons next neighbors ih =>
      intro scratch hsearching hneighbors
      obtain ⟨hmet, hbound⟩ := hneighbors next (by simp)
      obtain ⟨hafter, hgrows, hvisited⟩ := ih (hsearching.visit hmet hbound)
        fun other hother => hneighbors other (by simp [hother])
      obtain ⟨hself, hfirst⟩ := mem_visited_visit distance resultCount scratch next
      rw [List.foldl_cons]
      refine ⟨hafter, fun cid hcid => hgrows (hfirst hcid), fun cid hcid => ?_⟩
      rcases List.mem_cons.mp hcid with rfl | hcid
      · exact hgrows hself
      · exact hvisited hcid

/-- Every centroid that was met and is at a finite distance has been expanded. -/
def Exhausted (adjacent : ℕ → List ℕ) (distance : ℕ → Distance) (scratch : QueryScratch) : Prop :=
  ∀ cid ∈ scratch.visited, (distance cid).value < Distance.infinity.value →
    ∀ next ∈ adjacent cid, next ∈ scratch.visited

/-- A heap without valid entries holds no centroid. -/
theorem Roomy.taken_of_valid_zero (hroomy : Roomy distance taken scratch)
    (hvalid : scratch.candidates.valid = 0) : ∀ cid ∈ scratch.visited, cid ∈ taken := by
  intro cid hcid
  rcases hroomy.held cid hcid with hheld | htaken
  · have hcount := hroomy.valid
    rw [hvalid] at hcount
    have hnone := List.countP_eq_zero.mp hcount.symm _ hheld
    simp at hnone
  · exact htaken

/-- Taking a candidate. -/
theorem Searching.pop {current : Scored} {candidates : MinimaxHeap}
    (hsearching : Searching adjacent distance resultCount ef count start (fuel + 1) taken scratch)
    (hvalid : scratch.candidates.valid ≠ 0)
    (hpop : scratch.candidates.popMin = some (current, candidates)) :
    Searching adjacent distance resultCount ef count start fuel (current.cid :: taken)
      { scratch with candidates := candidates } := by
  obtain ⟨rest, hbefore, hafter, hlater, hcapacity, -⟩ := MinimaxHeap.popMin_some hpop
  have htracked := hsearching.tracked
  have hentries : ∀ entry ∈ candidates.entries.toList, ∀ cid, entry.cid? = some cid →
      cid ∈ scratch.visited ∧ entry.distance = distance cid := by
    intro entry hentry cid hcid
    rcases List.mem_cons.mp (hafter.mem_iff.mp hentry) with rfl | hrest
    · cases hcid
    · exact htracked.entries entry (hbefore.mem_iff.mpr (List.mem_cons_of_mem _ hrest)) cid hcid
  refine ⟨{ htracked with
    entries := hentries
    capacity := hcapacity.trans htracked.capacity }, fun hfew => ?_⟩
  obtain ⟨hroomy, hfuel⟩ := hsearching.roomy hfew
  have hcountBefore := hbefore.countP_eq fun entry => entry.cid?.isSome
  have hcountAfter := hafter.countP_eq fun entry => entry.cid?.isSome
  rw [List.countP_cons] at hcountBefore hcountAfter
  refine ⟨⟨?_, ?_, ?_⟩, ?_⟩
  · have hsize := hbefore.length_eq.trans hafter.length_eq.symm
    simp only [Array.length_toList] at hsize
    rw [← hroomy.size, hsize]
  · intro cid hcid
    rcases hroomy.held cid hcid with hheld | htaken
    · rcases List.mem_cons.mp (hbefore.mem_iff.mp hheld) with hself | hrest
      · right
        rw [HeapEntry.mk.injEq, Option.some.injEq] at hself
        rw [hself.1]
        exact List.mem_cons_self
      · left
        exact hafter.mem_iff.mpr (List.mem_cons_of_mem _ hrest)
    · exact Or.inr (List.mem_cons_of_mem _ htaken)
  · have hcount := hroomy.valid
    rw [hcountBefore] at hcount
    rw [hlater, hcountAfter, hcount]
    simp
  · rw [hlater]
    dsimp only
    omega

/-- What the main loop leaves behind. -/
theorem queryLoop_spec (hadjacent : ∀ cid < count, ∀ next ∈ adjacent cid, next < count) :
    ∀ (fuel : ℕ) (scratch : QueryScratch) (taken : List ℕ),
      Searching adjacent distance resultCount ef count start fuel taken scratch →
      (∀ cid ∈ taken, ∀ next ∈ adjacent cid, next ∈ scratch.visited) →
      Tracked adjacent distance resultCount ef count start
        (queryLoop adjacent distance resultCount ef fuel scratch) ∧
      ((queryLoop adjacent distance resultCount ef fuel scratch).visited.length ≤ ef →
        Exhausted adjacent distance (queryLoop adjacent distance resultCount ef fuel scratch)) := by
  intro fuel
  induction fuel with
  | zero =>
      intro scratch taken hsearching hexpanded
      refine ⟨hsearching.tracked, fun hfew cid hcid _ => hexpanded cid ?_⟩
      obtain ⟨hroomy, hfuel⟩ := hsearching.roomy (by simp only [queryLoop] at hfew; omega)
      have hlength : scratch.visited.length ≤ count := by
        have hsubset : scratch.visited ⊆ List.range count :=
          fun other hother => List.mem_range.mpr (hsearching.tracked.bounded other hother)
        simpa using (List.subperm_of_subset hsearching.tracked.nodup hsubset).length_le
      exact hroomy.taken_of_valid_zero (by omega) cid hcid
  | succ fuel ih =>
      intro scratch taken hsearching hexpanded
      rw [queryLoop]
      split
      · next hvalid =>
          refine ⟨hsearching.tracked, fun hfew cid hcid _ => hexpanded cid ?_⟩
          obtain ⟨hroomy, -⟩ := hsearching.roomy (by omega)
          exact hroomy.taken_of_valid_zero hvalid cid hcid
      · next hvalid =>
          split
          · next hpop =>
              refine ⟨hsearching.tracked, fun hfew cid hcid hfinite => ?_⟩
              obtain ⟨hroomy, -⟩ := hsearching.roomy (by omega)
              rcases hroomy.held cid hcid with hheld | htaken
              · have hinfinite := MinimaxHeap.popMin_none hpop _ hheld rfl
                exact absurd hfinite (not_lt.mpr hinfinite)
              · exact hexpanded cid htaken
          · next current candidates hpop =>
              have hpopped := hsearching.pop hvalid hpop
              split
              · next hbelow =>
                  refine ⟨hpopped.tracked, fun hfew => ?_⟩
                  -- at most `ef` entries, one of them not below itself
                  obtain ⟨hroomy, -⟩ := hpopped.roomy hfew
                  have hsize := hroomy.size
                  have hcount := MinimaxHeap.countBelow_popMin hpop
                  dsimp only at hsize hfew
                  omega
              · obtain ⟨rest, hbefore, -, -, -, hfinite⟩ := MinimaxHeap.popMin_some hpop
                obtain ⟨hvisited, hdistance⟩ := hsearching.tracked.entries _
                  (hbefore.mem_iff.mpr List.mem_cons_self) current.cid rfl
                dsimp only at hdistance
                rw [hdistance] at hfinite
                have hneighbors : ∀ next ∈ adjacent current.cid,
                    Met adjacent distance start next ∧ next < count := by
                  intro next hnext
                  exact ⟨(hsearching.tracked.met _ hvisited).tail ⟨hfinite, hnext⟩,
                    hadjacent _ (hsearching.tracked.bounded _ hvisited) next hnext⟩
                obtain ⟨hafter, hgrows, hmet⟩ := hpopped.visitAll hneighbors
                refine ih _ _ hafter fun cid hcid next hnext => ?_
                rcases List.mem_cons.mp hcid with rfl | hcid
                · exact hmet hnext
                · exact hgrows (hexpanded cid hcid next hnext)

/-- The start of a search. -/
theorem Searching.initial (hcount : 0 < resultCount) (hef : resultCount ≤ ef)
    (hstart : start < count) :
    Searching adjacent distance resultCount ef count start count []
      ⟨[start], (MinimaxHeap.reset ef).push start (distance start), [⟨start, distance start⟩]⟩ := by
  have hroom : (MinimaxHeap.reset ef).entries.size < (MinimaxHeap.reset ef).capacity := by
    show 0 < ef
    omega
  have hperm := MinimaxHeap.push_perm hroom start (distance start)
  have hsingle : ((MinimaxHeap.reset ef).push start (distance start)).entries.toList =
      [⟨some start, distance start⟩] := List.perm_singleton.mp hperm
  have hvalid := MinimaxHeap.push_valid hroom start (distance start)
  have hsize : ((MinimaxHeap.reset ef).push start (distance start)).entries.size = 1 := by
    rw [← Array.length_toList, hsingle]
    rfl
  refine ⟨?_, fun _ => ⟨⟨hsize, ?_, ?_⟩, ?_⟩⟩
  · exact {
      nodup := by simp
      met := by
        intro cid hcid
        rw [List.mem_singleton.mp hcid]
        exact Relation.ReflTransGen.refl
      bounded := by
        intro cid hcid
        rw [List.mem_singleton.mp hcid]
        exact hstart
      start_mem := by simp
      results_length := by
        simp only [List.length_cons, List.length_nil]
        omega
      results_mem := by simp
      results_nodup := by simp
      entries := by
        intro entry hentry cid hcid
        rw [hsingle, List.mem_singleton] at hentry
        subst hentry
        cases hcid
        exact ⟨by simp, rfl⟩
      capacity := MinimaxHeap.push_capacity _ _ _ }
  · intro cid hcid
    left
    rw [List.mem_singleton.mp hcid, hsingle]
    exact List.mem_singleton.mpr rfl
  · rw [hvalid, hsingle]
    rfl
  · rw [hvalid]
    simp only [MinimaxHeap.reset, List.length_cons, List.length_nil]
    omega

/-- The results of a query search are distinct centroids that the lists lead to, and there
are `resultCount` of them exactly when the lists lead to that many. -/
theorem searchLayerQuery_spec (hcount : 0 < resultCount) (hef : resultCount ≤ ef)
    (hadjacent : ∀ cid < count, ∀ next ∈ adjacent cid, next < count) (hstart : start < count) :
    ((searchLayerQuery adjacent distance resultCount ef count start).map Scored.cid).Nodup ∧
    (∀ scored ∈ searchLayerQuery adjacent distance resultCount ef count start,
      scored.cid < count) ∧
    (searchLayerQuery adjacent distance resultCount ef count start).length ≤ resultCount ∧
    ((searchLayerQuery adjacent distance resultCount ef count start).length = resultCount ↔
      ∃ cids : List ℕ, cids.Nodup ∧ cids.length = resultCount ∧
        ∀ cid ∈ cids, Met adjacent distance start cid) := by
  obtain ⟨htracked, hexhausted⟩ := queryLoop_spec hadjacent count _ []
    (Searching.initial hcount hef hstart) (by simp)
  unfold searchLayerQuery
  dsimp only
  generalize queryLoop adjacent distance resultCount ef count
    ⟨[start], (MinimaxHeap.reset ef).push start (distance start), [⟨start, distance start⟩]⟩ =
      final at htracked hexhausted ⊢
  have hlength := htracked.results_length
  refine ⟨htracked.results_nodup,
    fun scored hscored => htracked.bounded _ (htracked.results_mem scored hscored), by omega, ?_⟩
  constructor
  · intro hfull
    refine ⟨final.visited.take resultCount, htracked.nodup.sublist (List.take_sublist _ _), ?_, ?_⟩
    · rw [List.length_take]
      omega
    · intro cid hcid
      exact htracked.met cid (List.mem_of_mem_take hcid)
  · rintro ⟨cids, hnodup, hmany, hmet⟩
    by_contra hshort
    have hfew : final.visited.length < resultCount := by omega
    have hclosed := hexhausted (by omega)
    have hvisited : ∀ cid, Met adjacent distance start cid → cid ∈ final.visited := by
      intro cid hcid
      induction hcid with
      | refl => exact htracked.start_mem
      | tail _ hleads ih => exact hclosed _ ih hleads.1 _ hleads.2
    have hsubset : cids ⊆ final.visited := fun cid hcid => hvisited cid (hmet cid hcid)
    have hle := (List.subperm_of_subset hnodup hsubset).length_le
    omega

end

end ParqDB.Navigation
