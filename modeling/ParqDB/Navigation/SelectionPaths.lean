import ParqDB.Navigation.GraphSearch
import ParqDB.Navigation.VectorSelection

/-!
# One search on two kinds of machine

`MinimaxHeap::pop_min` and `count_below` ask the processor for AVX-512 on every call.  The query
search of `SearchScratch` is the one of a machine that does not have it; a machine that has it
takes the same candidates in every search whose heaps settle their ties when they are popped.
-/

namespace ParqDB.Navigation

open Query (Distance)

/-- A cid in the `ids` vector. -/
def idOf : Option ℕ → ℤ
  | none => emptyNeighbor
  | some cid => cid

namespace HeapBuffer

def ids (heap : HeapBuffer) : List ℤ := heap.slots.map fun entry => idOf entry.cid?

def distances (heap : HeapBuffer) : List Distance := heap.slots.map HeapEntry.distance

/-- `pop_min`, on a machine with or without AVX-512. -/
def popMinOn (avx512f : Bool) (heap : HeapBuffer) : Option (Scored × HeapBuffer) :=
  (if avx512f then findMinPositionAvx512 heap.ids heap.distances heap.length
    else findMinPositionScalar heap.ids heap.distances heap.length).bind fun position =>
      let entry := slotAt heap.slots position
      entry.cid?.map fun cid =>
        (⟨cid, entry.distance⟩, { heap with
          slots := heap.slots.set position ⟨none, entry.distance⟩
          valid := heap.valid - 1 })

/-- `count_below`. -/
def countBelowOn (avx512f : Bool) (heap : HeapBuffer) (distance : Distance) : ℕ :=
  if avx512f then countBelowAvx512 heap.distances heap.length distance
  else countBelowScalar heap.distances heap.length distance

end HeapBuffer

namespace SearchScratch

section

variable (adjacent : ℕ → List ℕ) (distance : ℕ → Distance) (resultCount ef : ℕ)

/-- The main loop; none when it is not finished after so many rounds. -/
def searchRoundsOn (avx512f : Bool) : ℕ → SearchScratch → Option SearchScratch
  | 0, scratch => if scratch.queryCandidates.valid = 0 then some scratch else none
  | rounds + 1, scratch =>
      if scratch.queryCandidates.valid = 0 then some scratch
      else
        match scratch.queryCandidates.popMinOn avx512f with
        | none => some scratch
        | some (current, candidates) =>
            let popped := { scratch with queryCandidates := candidates }
            if ef ≤ candidates.countBelowOn avx512f current.distance then some popped
            else
              searchRoundsOn avx512f rounds
                (expand distance resultCount popped (adjacent current.cid))

/-- `search_layer_query`. -/
def searchLayerQueryOn (avx512f : Bool) (rounds : ℕ) (scratch : SearchScratch) (entry : ℕ) :
    Option (List Scored × SearchScratch) :=
  (searchRoundsOn adjacent distance resultCount ef avx512f rounds
    (start distance ef scratch entry)).map fun last =>
      let ordered := (last.ordered ++ last.queryResults).insertionSort (· ≤ ·)
      (ordered, { last with ordered := ordered })

/-- Every heap that is popped in so many rounds settles its ties. -/
def TiesSettled : ℕ → SearchScratch → Prop
  | 0, _ => True
  | rounds + 1, scratch =>
      scratch.queryCandidates.valid = 0 ∨
        SettlesTies scratch.queryCandidates.ids scratch.queryCandidates.distances
          scratch.queryCandidates.length ∧
        ∀ current candidates, scratch.queryCandidates.popMin = some (current, candidates) →
          candidates.countBelow current.distance < ef →
            TiesSettled rounds (expand distance resultCount
              { scratch with queryCandidates := candidates } (adjacent current.cid))

end

end SearchScratch

/-! ## The vectors of a heap -/

namespace HeapBuffer

variable {heap : HeapBuffer} {position : ℕ}

theorem idAt_ids (heap : HeapBuffer) (position : ℕ) :
    idAt heap.ids position = idOf (slotAt heap.slots position).cid? := by
  rw [idAt, ids, slotAt]
  exact List.getD_map heap.slots emptySlot fun entry : HeapEntry => idOf entry.cid?

theorem live_ids_iff : Live heap.ids position ↔ (slotAt heap.slots position).cid?.isSome := by
  rw [Live, idAt_ids]
  cases (slotAt heap.slots position).cid? with
  | none => exact iff_of_false (fun hne => hne rfl) Bool.false_ne_true
  | some cid =>
      refine iff_of_true (fun hempty => ?_) rfl
      have hcid : (cid : ℤ) = -1 := hempty
      omega

theorem validIds (heap : HeapBuffer) : ValidIds heap.ids := by
  intro id hid
  obtain ⟨entry, -, rfl⟩ := List.mem_map.mp hid
  cases entry.cid? with
  | none => exact Or.inl rfl
  | some cid => exact Or.inr (Int.natCast_nonneg cid)

theorem slotDistance_distances (hposition : position < heap.slots.length) :
    slotDistance heap.distances position = (slotAt heap.slots position).distance := by
  have hmapped : position < heap.distances.length := by rwa [distances, List.length_map]
  rw [slotDistance, List.getD_eq_getElem _ _ hmapped, slotAt_eq_getElem hposition]
  exact List.getElem_map _

theorem scanDown_eq (hlength : heap.length ≤ heap.slots.length) {remaining : ℕ}
    (hremaining : remaining ≤ heap.length) (found : Option ℕ × Distance) :
    (scanDown heap.ids heap.distances 0 remaining found).1 =
      findMinPosition heap.slots remaining found := by
  induction remaining generalizing found with
  | zero => rfl
  | succ remaining ih =>
      rw [scanDown, findMinPosition, ih (Nat.le_of_succ_le hremaining), considerSlot, Nat.zero_add,
        slotDistance_distances (by omega)]
      simp only [live_ids_iff]

theorem popMinOn_false (hlength : heap.length ≤ heap.slots.length) :
    heap.popMinOn false = heap.popMin := by
  rw [popMinOn, popMin, if_neg Bool.false_ne_true, findMinPositionScalar,
    scanDown_eq hlength (Nat.le_refl _)]

theorem countBelowOn_eq (avx512f : Bool) (heap : HeapBuffer) (distance : Distance) :
    heap.countBelowOn avx512f distance = heap.countBelow distance := by
  have hscalar : countBelowScalar heap.distances heap.length distance =
      heap.countBelow distance := by
    rw [countBelowScalar, countBelow, distances, ← List.map_take, List.countP_map]
    rfl
  cases avx512f with
  | false => exact hscalar
  | true => exact (countBelow_agree _ _ _).trans hscalar

/-- The buffer has room, and the distances in its heap are finite. -/
structure Finite (heap : HeapBuffer) : Prop extends Sound heap where
  finite : ∀ entry ∈ heap.view.entries.toList, entry.distance.Finite

theorem finite_reset (heap : HeapBuffer) {capacity : ℕ} (hcapacity : 0 < capacity) :
    (heap.reset capacity).Finite where
  toSound := sound_reset heap hcapacity
  finite := by
    rw [view_reset]
    intro entry hentry
    exact absurd hentry List.not_mem_nil

theorem Finite.push (hheap : heap.Finite) (cid : ℕ) {distance : Distance}
    (hdistance : distance.Finite) : (heap.push cid distance).Finite where
  toSound := sound_push hheap.toSound cid distance
  finite := by
    rw [view_push hheap.toSound]
    intro entry hentry
    rcases MinimaxHeap.mem_push hentry with rfl | hold
    · exact hdistance
    · exact hheap.finite entry hold

theorem Finite.popMin (hheap : heap.Finite) {current : Scored} {later : HeapBuffer}
    (hpop : heap.popMin = some (current, later)) : later.Finite where
  toSound := sound_popMin hheap.toSound hpop
  finite := by
    have hview : heap.view.popMin = some (current, later.view) := by
      rw [popMin_view hheap.toSound, hpop, Option.map_some]
    obtain ⟨rest, hbefore, hafter, -⟩ := MinimaxHeap.popMin_some hview
    intro entry hentry
    rcases List.mem_cons.mp (hafter.mem_iff.mp hentry) with rfl | hrest
    · exact hheap.finite ⟨some current.cid, current.distance⟩
        (hbefore.mem_iff.mpr List.mem_cons_self)
    · exact hheap.finite entry (hbefore.mem_iff.mpr (List.mem_cons_of_mem _ hrest))

theorem Finite.slots (hheap : heap.Finite) : FiniteSlots heap.distances heap.length := by
  intro position hposition
  have hslots := hheap.length_le_slots
  rw [slotDistance_distances (hposition.trans_le hslots),
    slotAt_eq_getElem (hposition.trans_le hslots)]
  refine hheap.finite _ (List.mem_iff_getElem.mpr ⟨position, ?_, List.getElem_take⟩)
  change position < (heap.slots.take heap.length).length
  rwa [List.length_take, Nat.min_eq_left hslots]

/-- Both machines pop the same entry when the ties are settled. -/
theorem popMinOn_of_settled (hheap : heap.Finite)
    (hsettled : SettlesTies heap.ids heap.distances heap.length) (avx512f : Bool) :
    heap.popMinOn avx512f = heap.popMin := by
  cases avx512f with
  | false => exact popMinOn_false hheap.length_le_slots
  | true =>
      rw [← popMinOn_false hheap.length_le_slots, popMinOn, popMinOn, if_pos rfl,
        if_neg Bool.false_ne_true, (findMinPosition_agree_iff heap.validIds hheap.slots).mpr hsettled]

end HeapBuffer

/-! ## Searches -/

namespace SearchScratch

variable {adjacent : ℕ → List ℕ} {distance : ℕ → Distance} {resultCount ef : ℕ}

/-- Looking at neighbours only pushes them. -/
theorem expand_queryCandidates (property : HeapBuffer → Prop)
    (hpush : ∀ heap cid, property heap → property (heap.push cid (distance cid)))
    (scratch : SearchScratch) (hscratch : property scratch.queryCandidates) (neighbors : List ℕ) :
    property (expand distance resultCount scratch neighbors).queryCandidates := by
  have hall : ∀ (buffered : List ℕ) (state : SearchScratch), property state.queryCandidates →
      property (considerAll distance resultCount state buffered).queryCandidates := by
    intro buffered
    induction buffered with
    | nil => exact fun _ hstate => hstate
    | cons cid buffered ih => exact fun state hstate => ih _ (hpush _ cid hstate)
  have hneighbors : ∀ (neighbors : List ℕ) (state : SearchScratch × List ℕ),
      property state.1.queryCandidates →
      property (neighbors.foldl (bufferNeighbor distance resultCount) state).1.queryCandidates := by
    intro neighbors
    induction neighbors with
    | nil => exact fun _ hstate => hstate
    | cons candidate neighbors ih =>
        intro state hstate
        refine ih _ ?_
        rw [bufferNeighbor, visit]
        by_cases hmarked : state.1.marks[candidate]? = some state.1.epoch
        · rw [if_pos hmarked]
          exact hstate
        · rw [if_neg hmarked]
          dsimp only
          split
          · exact hall _ _ hstate
          · exact hstate
  exact hall _ _ (hneighbors neighbors (scratch, []) hscratch)

theorem start_queryCandidates (hdistance : ∀ cid, (distance cid).Finite) (hef : 0 < ef)
    (scratch : SearchScratch) (entry : ℕ) :
    (start distance ef scratch entry).queryCandidates.Finite := by
  have hvisited : ((scratch.resetQuery ef).visit entry).2.queryCandidates =
      (scratch.resetQuery ef).queryCandidates := by
    rw [visit]
    split <;> rfl
  change (((scratch.resetQuery ef).visit entry).2.queryCandidates.push entry
    (distance entry)).Finite
  rw [hvisited]
  exact (HeapBuffer.finite_reset _ hef).push entry (hdistance entry)

variable {scratch : SearchScratch}

theorem searchRoundsOn_of_settled {rounds : ℕ} (hdistance : ∀ cid, (distance cid).Finite)
    (hscratch : scratch.queryCandidates.Finite)
    (hsettled : TiesSettled adjacent distance resultCount ef rounds scratch) (avx512f : Bool) :
    searchRoundsOn adjacent distance resultCount ef avx512f rounds scratch =
      searchRounds adjacent distance resultCount ef rounds scratch := by
  induction rounds generalizing scratch with
  | zero => rfl
  | succ rounds ih =>
      rw [searchRoundsOn, searchRounds]
      rcases hsettled with hempty | ⟨hties, hrest⟩
      · rw [if_pos hempty, if_pos hempty]
      · rw [HeapBuffer.popMinOn_of_settled hscratch hties]
        split
        · rfl
        · cases hpop : scratch.queryCandidates.popMin with
          | none => rfl
          | some taken =>
              dsimp only
              rw [HeapBuffer.countBelowOn_eq]
              split
              · rfl
              · next hcount =>
                  refine ih (expand_queryCandidates HeapBuffer.Finite (fun heap cid hheap =>
                    hheap.push cid (hdistance cid)) _ ?_ _) (hrest taken.1 taken.2 hpop (not_le.mp hcount))
                  exact hscratch.popMin hpop

end SearchScratch

/-! ## The result -/

/-- The two paths find the same candidate exactly when ties are settled, and count the same.
So a search takes the same candidates on both kinds of machine, and gives the same results, if
every heap that it pops settles its ties. -/
theorem selection_paths_agree_iff (ids : List ℤ) (distances : List Distance) (length : ℕ)
    (hids : ValidIds ids) (hfinite : FiniteSlots distances length) :
    (findMinPositionAvx512 ids distances length = findMinPositionScalar ids distances length ↔
      SettlesTies ids distances length) ∧
    (∀ threshold, countBelowAvx512 distances length threshold =
      countBelowScalar distances length threshold) ∧
    ∀ (adjacent : ℕ → List ℕ) (distance : ℕ → Distance) (resultCount ef rounds : ℕ)
      (scratch : SearchScratch) (entry : ℕ), 0 < ef → (∀ cid, (distance cid).Finite) →
      SearchScratch.TiesSettled adjacent distance resultCount ef rounds
        (SearchScratch.start distance ef scratch entry) →
      SearchScratch.searchLayerQueryOn adjacent distance resultCount ef true rounds scratch entry =
        SearchScratch.searchLayerQueryOn adjacent distance resultCount ef false rounds scratch
          entry := by
  refine ⟨findMinPosition_agree_iff hids hfinite, countBelow_agree distances length, ?_⟩
  intro adjacent distance resultCount ef rounds scratch entry hef hdistance hsettled
  have hstart := SearchScratch.start_queryCandidates hdistance hef scratch entry
  rw [SearchScratch.searchLayerQueryOn, SearchScratch.searchLayerQueryOn,
    SearchScratch.searchRoundsOn_of_settled hdistance hstart hsettled true,
    SearchScratch.searchRoundsOn_of_settled hdistance hstart hsettled false]

/-- Two slots of a whole chunk at the least distance; the slot after the chunk is farther. -/
def chunkDistances : List Distance :=
  (List.range 17).map fun slot => ⟨false, if slot = 3 ∨ slot = 9 then 1 else 2⟩

/-- Both paths take the second of the two. -/
theorem selection_paths_agree_pair :
    findMinPositionAvx512 ((List.range 17).map (↑)) chunkDistances 17 = some 9 ∧
      SettlesTies ((List.range 17).map (↑)) chunkDistances 17 := by
  have hids : ValidIds ((List.range 17).map (↑)) := by
    unfold ValidIds
    decide
  have hfinite : FiniteSlots chunkDistances 17 := by
    unfold FiniteSlots
    decide
  have hscalar : findMinPositionScalar ((List.range 17).map (↑)) chunkDistances 17 = some 9 := by
    decide +kernel
  have hvector : findMinPositionAvx512 ((List.range 17).map (↑)) chunkDistances 17 = some 9 := by
    decide +kernel
  exact ⟨hvector, (selection_paths_agree_iff _ chunkDistances 17 hids hfinite).1.mp
    (hvector.trans hscalar.symm)⟩

/-! ## Sixteen candidates at one distance -/

/-- The entry `0` leads to sixteen centroids at one distance.  The last of them leads to
seventeen nearer ones, and the one before it to the nearest of all. -/
def tiedAdjacent (cid : ℕ) : List ℕ :=
  if cid = 0 then List.range' 1 16
  else if cid = 16 then List.range' 17 17
  else if cid = 15 then [34]
  else []

def tiedDistance (cid : ℕ) : Distance :=
  if cid = 0 then ⟨false, 3⟩ else if cid ≤ 16 then ⟨false, 2⟩
  else if cid ≤ 33 then ⟨false, 1⟩ else ⟨false, 0⟩

/-- Of seventeen slots at one distance the vector path takes the last of the first chunk, the
scalar path the last.  A search finds centroid `34` on one machine, and `17` on the other. -/
theorem tied_slots_differ :
    findMinPositionAvx512 ((List.range 17).map Int.ofNat) (List.replicate 17 ⟨false, 2⟩) 17 =
      some 15 ∧
    findMinPositionScalar ((List.range 17).map Int.ofNat) (List.replicate 17 ⟨false, 2⟩) 17 =
      some 16 ∧
    (SearchScratch.searchLayerQueryOn tiedAdjacent tiedDistance 1 17 true 35
      (SearchScratch.new 35) 0).map (fun result => result.1.map Scored.cid) = some [34] ∧
    (SearchScratch.searchLayerQueryOn tiedAdjacent tiedDistance 1 17 false 35
      (SearchScratch.new 35) 0).map (fun result => result.1.map Scored.cid) = some [17] := by
  refine ⟨?_, ?_, ?_, ?_⟩ <;> decide +kernel

end ParqDB.Navigation
