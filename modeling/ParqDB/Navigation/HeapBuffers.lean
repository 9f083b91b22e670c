import ParqDB.Navigation.SearchScratch

/-!
# What is left in the buffers of the candidate heap does not matter

`HeapBuffer.view` is the heap that a buffer holds: its first `length` slots.  Every operation
of the buffer is the operation of `MinimaxHeap` on the view, whatever is behind the length.

**Strategy.**  The operations only touch slots before the length, where setting a slot of the
buffer and of its front are the same (`List.take_set`).  The source makes room for an entry by
moving its parents down; `siftUp_view` says that this is the same as swapping the entry up.
-/

namespace ParqDB.Navigation

open Query (Distance)

/-! ## Slots -/

section

variable {slots : List HeapEntry} {length position child : ℕ} {entry : HeapEntry}

theorem slotAt_eq_getElem (hposition : position < slots.length) :
    slotAt slots position = slots[position] := by
  rw [slotAt, List.getD_eq_getElem _ _ hposition]

theorem slotAt_set_self (hposition : position < slots.length) :
    slotAt (slots.set position entry) position = entry := by
  rw [slotAt_eq_getElem (by rwa [List.length_set]), List.getElem_set_self]

theorem slotAt_set_of_ne (hne : position ≠ child) :
    slotAt (slots.set position entry) child = slotAt slots child := by
  rw [slotAt, slotAt, List.getD_eq_getElem?_getD, List.getD_eq_getElem?_getD,
    List.getElem?_set_ne hne]

theorem getD_take_toArray (fallback : HeapEntry) (hposition : position < length)
    (hlength : length ≤ slots.length) :
    (slots.take length).toArray.getD position fallback = slotAt slots position := by
  rw [slotAt_eq_getElem (hposition.trans_le hlength), Array.getD_eq_getD_getElem?,
    List.getElem?_toArray, List.getElem?_take_of_lt hposition,
    List.getElem?_eq_getElem (hposition.trans_le hlength), Option.getD_some]

theorem distanceAt_take (hposition : position < length) (hlength : length ≤ slots.length) :
    MinimaxHeap.distanceAt (slots.take length).toArray position = distanceOf slots position := by
  rw [MinimaxHeap.distanceAt, getD_take_toArray _ hposition hlength, distanceOf]

theorem size_take (hlength : length ≤ slots.length) :
    (slots.take length).toArray.size = length := by
  rw [List.size_toArray, List.length_take, Nat.min_eq_left hlength]

theorem swap_take (hposition : position < length) (hchild : child < length)
    (hlength : length ≤ slots.length) :
    (slots.take length).toArray.swapIfInBounds position child =
      (((slots.set position (slotAt slots child)).set child (slotAt slots position)).take
        length).toArray := by
  have hsize := size_take hlength
  rw [Array.swapIfInBounds, dif_pos (by omega), dif_pos (by omega)]
  apply Array.toList_inj.mp
  rw [Array.toList_swap, List.getElem_toArray, List.getElem_toArray, List.getElem_take,
    List.getElem_take, ← slotAt_eq_getElem, ← slotAt_eq_getElem, List.take_set, List.take_set]

/-! ## Moving entries up and down -/

/-- Moving parents down into the room and then filling it is swapping the entry up. -/
theorem siftUp_view (fuel : ℕ) (hposition : position < length) (hlength : length ≤ slots.length) :
    MinimaxHeap.siftUp ((slots.set position entry).take length).toArray fuel position =
      (((HeapBuffer.climb entry.distance fuel slots position).1.set
        (HeapBuffer.climb entry.distance fuel slots position).2 entry).take length).toArray := by
  induction fuel generalizing slots position with
  | zero => rfl
  | succ fuel ih =>
      have hset : length ≤ (slots.set position entry).length := by rwa [List.length_set]
      by_cases hzero : position = 0
      · simp [MinimaxHeap.siftUp, HeapBuffer.climb, hzero]
      · have hparent : (position - 1) / 2 < position := by omega
        have hself : MinimaxHeap.distanceAt ((slots.set position entry).take length).toArray
            position = entry.distance.value := by
          rw [distanceAt_take hposition hset, distanceOf,
            slotAt_set_self (hposition.trans_le hlength)]
        have habove : MinimaxHeap.distanceAt ((slots.set position entry).take length).toArray
            ((position - 1) / 2) = distanceOf slots ((position - 1) / 2) := by
          rw [distanceAt_take (hparent.trans hposition) hset, distanceOf, distanceOf,
            slotAt_set_of_ne hparent.ne']
        rw [MinimaxHeap.siftUp, HeapBuffer.climb, hself, habove]
        by_cases hstop : entry.distance.value ≤ distanceOf slots ((position - 1) / 2)
        · rw [if_pos (Or.inr hstop), if_pos (Or.inr hstop)]
        · have hmove : ¬ (position = 0 ∨
              entry.distance.value ≤ distanceOf slots ((position - 1) / 2)) := by
            rintro (hcase | hcase)
            · exact hzero hcase
            · exact hstop hcase
          rw [if_neg hmove, if_neg hmove, swap_take hposition (hparent.trans hposition) hset,
            slotAt_set_of_ne hparent.ne', slotAt_set_self (hposition.trans_le hlength),
            List.set_set]
          exact ih (hparent.trans hposition) (by rwa [List.length_set])

theorem siftDown_view (fuel : ℕ) (hposition : position < length) (hlength : length ≤ slots.length) :
    MinimaxHeap.siftDown (slots.take length).toArray fuel position =
      ((HeapBuffer.sink length fuel slots position).take length).toArray := by
  induction fuel generalizing slots position with
  | zero => rfl
  | succ fuel ih =>
      rw [MinimaxHeap.siftDown, HeapBuffer.sink, size_take hlength]
      by_cases hleaf : length ≤ position * 2 + 1
      · rw [if_pos hleaf, if_pos hleaf]
      · rw [if_neg hleaf, if_neg hleaf]
        have hleft := Nat.not_le.mp hleaf
        -- the same child is chosen
        have hright : (position * 2 + 1 + 1 < length ∧
              MinimaxHeap.distanceAt (slots.take length).toArray (position * 2 + 1) <
                MinimaxHeap.distanceAt (slots.take length).toArray (position * 2 + 1 + 1)) ↔
            (position * 2 + 1 + 1 < length ∧
              distanceOf slots (position * 2 + 1) < distanceOf slots (position * 2 + 1 + 1)) := by
          refine and_congr_right fun hbound => ?_
          rw [distanceAt_take hleft hlength, distanceAt_take hbound hlength]
        simp only [hright]
        have hchild : (if position * 2 + 1 + 1 < length ∧
            distanceOf slots (position * 2 + 1) < distanceOf slots (position * 2 + 1 + 1) then
              position * 2 + 1 + 1 else position * 2 + 1) < length := by
          split
          · next hboth => exact hboth.1
          · exact hleft
        generalize (if position * 2 + 1 + 1 < length ∧
          distanceOf slots (position * 2 + 1) < distanceOf slots (position * 2 + 1 + 1) then
            position * 2 + 1 + 1 else position * 2 + 1) = child at hchild ⊢
        rw [distanceAt_take hchild hlength, distanceAt_take hposition hlength]
        by_cases hstop : distanceOf slots child ≤ distanceOf slots position
        · rw [if_pos hstop, if_pos hstop]
        · rw [if_neg hstop, if_neg hstop, swap_take hposition hchild hlength]
          apply ih hchild
          rwa [List.length_set, List.length_set]

theorem length_climb (distance : Distance) (fuel : ℕ) :
    (HeapBuffer.climb distance fuel slots position).1.length = slots.length := by
  induction fuel generalizing slots position with
  | zero => rfl
  | succ fuel ih =>
      rw [HeapBuffer.climb]
      split
      · rfl
      · rw [ih, List.length_set]

theorem length_sink (fuel : ℕ) :
    (HeapBuffer.sink length fuel slots position).length = slots.length := by
  induction fuel generalizing slots position with
  | zero => rfl
  | succ fuel ih =>
      rw [HeapBuffer.sink]
      dsimp only
      generalize (if position * 2 + 1 + 1 < length ∧
        distanceOf slots (position * 2 + 1) < distanceOf slots (position * 2 + 1 + 1) then
          position * 2 + 1 + 1 else position * 2 + 1) = child
      split
      · rfl
      · split
        · rfl
        · rw [ih, List.length_set, List.length_set]

end

/-! ## The view -/

namespace HeapBuffer

/-- The heap in a buffer. -/
def view (heap : HeapBuffer) : MinimaxHeap :=
  ⟨(heap.slots.take heap.length).toArray, heap.valid, heap.capacity⟩

/-- The buffer has room for the capacity. -/
structure Sound (heap : HeapBuffer) : Prop where
  length_le : heap.length ≤ heap.capacity
  capacity_le : heap.capacity ≤ heap.slots.length
  capacity_pos : 0 < heap.capacity

variable {heap : HeapBuffer}

theorem Sound.length_le_slots (hsound : heap.Sound) : heap.length ≤ heap.slots.length :=
  hsound.length_le.trans hsound.capacity_le

theorem sound_reset (heap : HeapBuffer) {capacity : ℕ} (hcapacity : 0 < capacity) :
    (heap.reset capacity).Sound := by
  refine ⟨Nat.zero_le _, ?_, hcapacity⟩
  rw [reset]
  dsimp only
  split
  · rw [List.length_append, List.length_replicate]
    omega
  · omega

/-- Nothing of an earlier query is left. -/
theorem view_reset (heap : HeapBuffer) (capacity : ℕ) :
    (heap.reset capacity).view = MinimaxHeap.reset capacity := by
  simp [view, reset, MinimaxHeap.reset]

section

variable (hsound : heap.Sound)

include hsound

theorem sound_dropTop : heap.dropTop.Sound := by
  refine ⟨(Nat.sub_le _ _).trans hsound.length_le, ?_, hsound.capacity_pos⟩
  change heap.capacity ≤ heap.dropTop.slots.length
  rw [dropTop]
  dsimp only
  split
  · exact hsound.capacity_le
  · rw [length_sink, List.length_set]
    exact hsound.capacity_le

/-- The top is dropped from a heap that is not empty. -/
theorem view_dropTop (hlength : 0 < heap.length) :
    heap.dropTop.view = heap.view.removeTop := by
  have hslots := hsound.length_le_slots
  have hsize : heap.view.entries.size = heap.length := size_take hslots
  have hlast : heap.length - 1 < heap.length := by omega
  have hmoved : (heap.view.entries.swapIfInBounds 0 (heap.view.entries.size - 1)).pop =
      ((heap.slots.set 0 (slotAt heap.slots (heap.length - 1))).take (heap.length - 1)).toArray := by
    rw [hsize, view, swap_take hlength hlast hslots]
    apply Array.toList_inj.mp
    rw [Array.toList_pop, List.dropLast_eq_take, List.length_take, List.take_take, List.length_set,
      List.length_set, Nat.min_eq_left hslots, Nat.min_eq_left (by omega), List.take_set_of_le]
    exact Nat.le_refl _
  have htop : heap.view.entries.getD 0 ⟨none, Distance.infinity⟩ = slotAt heap.slots 0 :=
    getD_take_toArray _ hlength hslots
  rw [MinimaxHeap.removeTop, hmoved, htop]
  rw [MinimaxHeap.mk.injEq]
  refine ⟨?_, rfl, rfl⟩
  have hset : heap.length - 1 ≤ (heap.slots.set 0 (slotAt heap.slots (heap.length - 1))).length := by
    rw [List.length_set]
    omega
  rw [size_take hset]
  change (heap.dropTop.slots.take (heap.length - 1)).toArray = _
  rw [dropTop]
  dsimp only
  by_cases hone : heap.length - 1 = 0
  · rw [if_pos hone, hone]
    rfl
  · rw [if_neg hone, siftDown_view _ (by omega) hset]

theorem sound_place (hroom : heap.length < heap.capacity) (cid : ℕ)
    (distance : Distance) : (heap.place cid distance).Sound := by
  refine ⟨hroom, ?_, hsound.capacity_pos⟩
  change heap.capacity ≤ (heap.place cid distance).slots.length
  rw [place]
  dsimp only
  rw [List.length_set, length_climb]
  exact hsound.capacity_le

theorem view_place (hroom : heap.length < heap.capacity) (cid : ℕ)
    (distance : Distance) : (heap.place cid distance).view = heap.view.insert cid distance := by
  have hslots := hsound.length_le_slots
  have hbuffer : heap.length < heap.slots.length := hroom.trans_le hsound.capacity_le
  have hpushed : heap.view.entries.push ⟨some cid, distance⟩ =
      ((heap.slots.set heap.length ⟨some cid, distance⟩).take (heap.length + 1)).toArray := by
    apply Array.toList_inj.mp
    rw [Array.toList_push, view, List.take_add_one, List.take_set_of_le (Nat.le_refl _),
      List.getElem?_set_self hbuffer]
    rfl
  have hsize : heap.view.entries.size = heap.length := size_take hslots
  rw [MinimaxHeap.insert, hpushed, MinimaxHeap.mk.injEq]
  refine ⟨?_, rfl, rfl⟩
  have hset : heap.length + 1 ≤ (heap.slots.set heap.length ⟨some cid, distance⟩).length := by
    rwa [List.length_set]
  rw [size_take hset, hsize, siftUp_view _ (Nat.lt_succ_self _) hbuffer]
  rfl

theorem sound_push (cid : ℕ) (distance : Distance) :
    (heap.push cid distance).Sound := by
  have hpositive := hsound.capacity_pos
  rw [push]
  split
  · next hfull =>
      split
      · exact hsound
      · have hdropped : heap.dropTop.length < heap.dropTop.capacity := by
          change heap.length - 1 < heap.capacity
          omega
        exact sound_place (sound_dropTop hsound) hdropped cid distance
  · next hroom =>
      have hlength := hsound.length_le
      exact sound_place hsound (by omega) cid distance

theorem view_push (cid : ℕ) (distance : Distance) :
    (heap.push cid distance).view = heap.view.push cid distance := by
  have hpositive := hsound.capacity_pos
  have hsize : heap.view.entries.size = heap.length := size_take hsound.length_le_slots
  rw [push, MinimaxHeap.push, hsize]
  change _ = if heap.length = heap.capacity then _ else _
  by_cases hfull : heap.length = heap.capacity
  · have hlength : 0 < heap.length := by omega
    have htop : MinimaxHeap.distanceAt heap.view.entries 0 = distanceOf heap.slots 0 :=
      distanceAt_take hlength hsound.length_le_slots
    rw [if_pos hfull, if_pos hfull, htop]
    split
    · rfl
    · have hdropped : heap.dropTop.length < heap.dropTop.capacity := by
        change heap.length - 1 < heap.capacity
        omega
      rw [view_place (sound_dropTop hsound) hdropped, view_dropTop hsound hlength]
  · have hlength := hsound.length_le
    rw [if_neg hfull, if_neg hfull, view_place hsound (by omega)]

end

variable {bound length : ℕ} {slots : List HeapEntry}

theorem findMinPosition_view (hbound : bound ≤ length) (hlength : length ≤ slots.length)
    (found : Option ℕ × Distance) :
    MinimaxHeap.findMinPosition (slots.take length).toArray bound found =
      findMinPosition slots bound found := by
  induction bound generalizing found with
  | zero => rfl
  | succ bound ih =>
      rw [MinimaxHeap.findMinPosition, findMinPosition, getD_take_toArray _ hbound hlength]
      exact ih (Nat.le_of_succ_le hbound) _

/-- The position that is found is one of those that were looked at. -/
theorem findMinPosition_lt {position : ℕ} {found : Option ℕ × Distance} (hbound : bound ≤ length)
    (hfound : ∀ start, found.1 = some start → start < length)
    (hposition : findMinPosition slots bound found = some position) : position < length := by
  induction bound generalizing found with
  | zero => exact hfound position hposition
  | succ bound ih =>
      rw [findMinPosition] at hposition
      refine ih (Nat.le_of_succ_le hbound) ?_ hposition
      intro start hstart
      split at hstart
      · cases hstart
        exact hbound
      · exact hfound start hstart

/-- Taking the nearest entry is taking it from the view. -/
theorem popMin_view (hsound : heap.Sound) :
    heap.view.popMin = heap.popMin.map fun taken => (taken.1, taken.2.view) := by
  have hslots := hsound.length_le_slots
  have hsize : heap.view.entries.size = heap.length := size_take hslots
  rw [MinimaxHeap.popMin, popMin, hsize, view,
    findMinPosition_view (Nat.le_refl _) hslots (none, Distance.infinity)]
  cases hfound : findMinPosition heap.slots heap.length (none, Distance.infinity) with
  | none => rfl
  | some position =>
      have hposition : position < heap.length :=
        findMinPosition_lt (Nat.le_refl _) (fun _ hstart => by cases hstart) hfound
      simp only [Option.bind_some, getD_take_toArray _ hposition hslots, Option.map_map]
      refine Option.map_congr fun cid _ => ?_
      rw [Function.comp_apply, Prod.mk.injEq, view]
      refine ⟨rfl, ?_⟩
      rw [MinimaxHeap.mk.injEq]
      refine ⟨?_, rfl, rfl⟩
      apply Array.toList_inj.mp
      rw [Array.toList_setIfInBounds, List.take_set]

theorem sound_popMin (hsound : heap.Sound) {scored : Scored} {later : HeapBuffer}
    (hpop : heap.popMin = some (scored, later)) : later.Sound := by
  obtain ⟨position, -, hpop⟩ := Option.bind_eq_some_iff.mp hpop
  obtain ⟨cid, -, hpop⟩ := Option.map_eq_some_iff.mp hpop
  cases hpop
  exact ⟨hsound.length_le, hsound.capacity_le.trans_eq (List.length_set).symm, hsound.capacity_pos⟩

theorem countBelow_view (heap : HeapBuffer) (distance : Distance) :
    heap.view.countBelow distance = heap.countBelow distance := rfl

end HeapBuffer

end ParqDB.Navigation
