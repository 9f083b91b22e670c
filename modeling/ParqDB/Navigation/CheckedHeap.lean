import ParqDB.Foundations.Checked
import ParqDB.Navigation.SelectionPaths

/-!
# The candidate heap with every check

`HeapBuffer` computes with natural numbers, and reads slots that are not there as empty.  Here
are the same operations with everything that can go wrong in `MinimaxHeap`: an index behind the
end of a vector, a `usize` that does not fit, the `unreachable!` for a cid that is no `i32`, and
loops that do not end.  An operation that goes wrong is none.

Nothing does in a heap that counts its live entries (`pushChecked_eq`, `popMinChecked_eq`).
-/

namespace ParqDB.Navigation

open Foundations Foundations.Checked
open Query (Distance)

/-- `i32::MAX`. -/
def cidLimit : ℕ := 2 ^ 31 - 1

/-- The most items of four bytes that a vector can have. -/
def vectorLimit : ℕ := (2 ^ 63 - 1) / 4

namespace HeapBuffer

/-- A vector does not grow beyond its limit, and was not longer before. -/
def resetChecked (heap : HeapBuffer) (capacity : ℕ) : Option HeapBuffer :=
  if vectorLimit < capacity then none else some (heap.reset capacity)

def climbChecked (distance : Distance) : ℕ → List HeapEntry → ℕ → Option (List HeapEntry × ℕ)
  | 0, _, _ => none
  | fuel + 1, slots, position =>
      if position = 0 then some (slots, position)
      else do
        let before ← sub position 1
        let parent := before / 2
        let above ← slots[parent]?
        if distance.value ≤ above.distance.value then some (slots, position)
        else
          let slots ← Checked.set slots position above
          climbChecked distance fuel slots parent

/-- The child that is compared: the right one when it is there and farther. -/
def childChecked (length : ℕ) (slots : List HeapEntry) (left : ℕ) : Option ℕ := do
  let right ← add wordMax left 1
  if right < length then do
    let rightEntry ← slots[right]?
    let leftEntry ← slots[left]?
    some (if leftEntry.distance.value < rightEntry.distance.value then right else left)
  else some left

def sinkChecked (length : ℕ) : ℕ → List HeapEntry → ℕ → Option (List HeapEntry)
  | 0, _, _ => none
  | fuel + 1, slots, position => do
      let double ← mul wordMax position 2
      let left ← add wordMax double 1
      if length ≤ left then some slots
      else
        let child ← childChecked length slots left
        let entry ← slots[position]?
        let below ← slots[child]?
        if below.distance.value ≤ entry.distance.value then some slots
        else
          let slots ← Checked.set slots position below
          let slots ← Checked.set slots child entry
          sinkChecked length fuel slots child

/-- A live entry at the top is no longer counted. -/
def uncountTop (heap : HeapBuffer) (top : HeapEntry) : Option ℕ :=
  if top.cid?.isSome then sub heap.valid 1 else some heap.valid

/-- The last entry comes to the top and moves down. -/
def moveLast (slots : List HeapEntry) (length : ℕ) : Option (List HeapEntry) :=
  if length = 0 then some slots
  else do
    let last ← slots[length]?
    let slots ← Checked.set slots 0 last
    sinkChecked length length slots 0

def dropTopChecked (heap : HeapBuffer) (top : HeapEntry) : Option HeapBuffer := do
  let valid ← uncountTop heap top
  let length ← sub heap.length 1
  let slots ← moveLast heap.slots length
  some { heap with slots := slots, length := length, valid := valid }

def placeChecked (heap : HeapBuffer) (cid : ℕ) (distance : Distance) : Option HeapBuffer := do
  let length ← add wordMax heap.length 1
  let climbed ← climbChecked distance length heap.slots heap.length
  if cidLimit < cid then none
  else
    let slots ← Checked.set climbed.1 climbed.2 ⟨some cid, distance⟩
    let valid ← add wordMax heap.valid 1
    some { heap with slots := slots, length := length, valid := valid }

/-- `MinimaxHeap::push`. -/
def pushChecked (heap : HeapBuffer) (cid : ℕ) (distance : Distance) : Option HeapBuffer :=
  if heap.length = heap.capacity then do
    let top ← heap.slots[0]?
    if top.distance.value ≤ distance.value then some heap
    else
      let dropped ← heap.dropTopChecked top
      dropped.placeChecked cid distance
  else heap.placeChecked cid distance

/-- The search of a machine with or without AVX-512. -/
def findMinOn (avx512f : Bool) (heap : HeapBuffer) : Option ℕ :=
  if avx512f then findMinPositionAvx512 heap.ids heap.distances heap.length
  else findMinPositionScalar heap.ids heap.distances heap.length

/-- `MinimaxHeap::pop_min`; the search reads all slots below the length. -/
def popMinChecked (avx512f : Bool) (heap : HeapBuffer) : Option (Option (Scored × HeapBuffer)) :=
  if heap.slots.length < heap.length then none
  else
    match heap.findMinOn avx512f with
    | none => some none
    | some position => do
        let entry ← heap.slots[position]?
        match entry.cid? with
        | none => some none
        | some cid =>
            let slots ← Checked.set heap.slots position ⟨none, entry.distance⟩
            let valid ← sub heap.valid 1
            some (some (⟨cid, entry.distance⟩, { heap with slots := slots, valid := valid }))

/-! ## Moving entries -/

section

variable {slots : List HeapEntry} {length position : ℕ}

theorem getElem?_eq_slotAt (hposition : position < slots.length) :
    slots[position]? = some (slotAt slots position) := by
  rw [slotAt_eq_getElem hposition, List.getElem?_eq_getElem hposition]

/-- The loop ends before it is out of fuel. -/
theorem climbChecked_eq (distance : Distance) {fuel : ℕ} (hfuel : position < fuel)
    (hposition : position < slots.length) :
    climbChecked distance fuel slots position = some (climb distance fuel slots position) := by
  induction fuel generalizing slots position with
  | zero => exact absurd hfuel (Nat.not_lt_zero position)
  | succ fuel ih =>
      rw [climbChecked, climb]
      by_cases hzero : position = 0
      · rw [if_pos hzero, if_pos (Or.inl hzero)]
      · have hparent : (position - 1) / 2 < position := by omega
        have habove := getElem?_eq_slotAt (hparent.trans hposition)
        rw [if_neg hzero, sub_of_le (Nat.one_le_iff_ne_zero.mpr hzero), after_some]
        dsimp only
        rw [habove, after_some]
        by_cases hstop : distance.value ≤ distanceOf slots ((position - 1) / 2)
        · rw [if_pos (Or.inr hstop)]
          exact if_pos hstop
        · have hmove : ¬ (position = 0 ∨
              distance.value ≤ distanceOf slots ((position - 1) / 2)) :=
            not_or.mpr ⟨hzero, hstop⟩
          rw [if_neg hmove]
          refine (if_neg hstop).trans ?_
          rw [set_of_lt hposition, after_some]
          exact ih (by omega) (by rw [List.length_set]; omega)

theorem childChecked_eq {left : ℕ} (hlength : length ≤ slots.length) (hlimit : length ≤ vectorLimit)
    (hleft : left < length) :
    childChecked length slots left =
      some (if left + 1 < length ∧ distanceOf slots left < distanceOf slots (left + 1) then left + 1
        else left) := by
  have hword : left + 1 ≤ wordMax := by
    unfold vectorLimit at hlimit
    unfold wordMax
    omega
  rw [childChecked, add_of_le hword, after_some]
  by_cases hright : left + 1 < length
  · rw [if_pos hright, getElem?_eq_slotAt (hright.trans_le hlength), after_some,
      getElem?_eq_slotAt (hleft.trans_le hlength), after_some]
    simp only [distanceOf, hright, true_and]
  · rw [if_neg hright, if_neg fun hboth => hright hboth.1]

theorem sinkChecked_eq {fuel : ℕ} (hlength : length ≤ slots.length) (hlimit : length ≤ vectorLimit)
    (hposition : position < length) (hfuel : length ≤ position + fuel) :
    sinkChecked length fuel slots position = some (sink length fuel slots position) := by
  induction fuel generalizing slots position with
  | zero => omega
  | succ fuel ih =>
      have hword : position * 2 + 1 ≤ wordMax := by
        unfold vectorLimit at hlimit
        unfold wordMax
        omega
      rw [sinkChecked, sink, mul_of_le (by omega), after_some,
        add_of_le hword, after_some]
      by_cases hleaf : length ≤ position * 2 + 1
      · rw [if_pos hleaf, if_pos hleaf]
      · rw [if_neg hleaf, if_neg hleaf, childChecked_eq hlength hlimit (Nat.not_le.mp hleaf)]
        have hchild : (if position * 2 + 1 + 1 < length ∧
            distanceOf slots (position * 2 + 1) < distanceOf slots (position * 2 + 1 + 1) then
              position * 2 + 1 + 1 else position * 2 + 1) < length ∧
            position < (if position * 2 + 1 + 1 < length ∧
            distanceOf slots (position * 2 + 1) < distanceOf slots (position * 2 + 1 + 1) then
              position * 2 + 1 + 1 else position * 2 + 1) := by
          split <;> omega
        rw [after_some]
        dsimp only
        generalize (if position * 2 + 1 + 1 < length ∧
          distanceOf slots (position * 2 + 1) < distanceOf slots (position * 2 + 1 + 1) then
            position * 2 + 1 + 1 else position * 2 + 1) = child at hchild ⊢
        obtain ⟨hchildLength, hdown⟩ := hchild
        rw [getElem?_eq_slotAt (hposition.trans_le hlength), after_some,
          getElem?_eq_slotAt (hchildLength.trans_le hlength), after_some]
        by_cases hstop : distanceOf slots child ≤ distanceOf slots position
        · rw [if_pos hstop]
          exact if_pos hstop
        · rw [if_neg hstop]
          refine (if_neg hstop).trans ?_
          rw [set_of_lt (hposition.trans_le hlength), after_some,
            set_of_lt (by rw [List.length_set]; omega), after_some]
          exact ih (by rwa [List.length_set, List.length_set]) hchildLength (by omega)

end

/-! ## Pushing and popping -/

variable {heap : HeapBuffer} {cid : ℕ}

/-- What an operation needs so that nothing goes wrong. -/
structure Counted (heap : HeapBuffer) : Prop extends Finite heap where
  limit : heap.capacity ≤ vectorLimit
  valid : heap.valid = (heap.slots.take heap.length).countP fun entry => entry.cid?.isSome

theorem Counted.valid_le (hcounted : heap.Counted) : heap.valid ≤ heap.length := by
  rw [hcounted.valid]
  exact List.countP_le_length.trans (List.length_take_le _ _)

/-- A live entry is counted. -/
theorem Counted.valid_pos (hcounted : heap.Counted) {position : ℕ} (hposition : position < heap.length)
    (hlive : (slotAt heap.slots position).cid?.isSome) : 0 < heap.valid := by
  have hslots := hcounted.length_le_slots
  rw [hcounted.valid, List.countP_pos_iff]
  refine ⟨_, ?_, hlive⟩
  rw [slotAt_eq_getElem (hposition.trans_le hslots), List.mem_take_iff_getElem]
  exact ⟨position, by omega, rfl⟩

theorem dropTopChecked_eq (hcounted : heap.Counted) (hlength : 0 < heap.length) :
    heap.dropTopChecked (slotAt heap.slots 0) = some heap.dropTop := by
  have hslots := hcounted.length_le_slots
  have hcapacity := hcounted.length_le
  have hlimit := hcounted.limit
  have hvalid : heap.uncountTop (slotAt heap.slots 0) = some heap.dropTop.valid := by
    rw [uncountTop, dropTop]
    dsimp only
    split
    · next hlive => exact sub_of_le (hcounted.valid_pos hlength hlive)
    · rfl
  have hmoved : moveLast heap.slots (heap.length - 1) = some heap.dropTop.slots := by
    rw [moveLast, dropTop]
    dsimp only
    by_cases hone : heap.length - 1 = 0
    · rw [if_pos hone, if_pos hone]
    · rw [if_neg hone, if_neg hone, getElem?_eq_slotAt (by omega), after_some,
        set_of_lt (by omega), after_some]
      exact sinkChecked_eq (by rw [List.length_set]; omega) (by omega) (by omega) (by omega)
  rw [dropTopChecked, hvalid, after_some, sub_of_le hlength, after_some, hmoved, after_some]
  rfl

theorem climb_le (distance : Distance) (fuel : ℕ) {slots : List HeapEntry} {position : ℕ} :
    (climb distance fuel slots position).2 ≤ position := by
  induction fuel generalizing slots position with
  | zero => exact Nat.le_refl _
  | succ fuel ih =>
      rw [climb]
      split
      · exact Nat.le_refl _
      · exact ih.trans (by omega)

theorem placeChecked_eq (hsound : heap.Sound) (hroom : heap.length < heap.capacity)
    (hlimit : heap.capacity ≤ vectorLimit) (hvalid : heap.valid ≤ heap.length)
    (hcid : cid ≤ cidLimit) (distance : Distance) :
    heap.placeChecked cid distance = some (heap.place cid distance) := by
  have hslots := hsound.capacity_le
  have hword : heap.length + 1 ≤ wordMax := by
    unfold vectorLimit at hlimit
    unfold wordMax
    omega
  have hclimbed : (climb distance (heap.length + 1) heap.slots heap.length).2 ≤ heap.length :=
    climb_le distance _
  rw [placeChecked, add_of_le hword, after_some,
    climbChecked_eq distance (show heap.length < heap.length + 1 by omega)
      (hroom.trans_le hslots), after_some,
    if_neg (Nat.not_lt.mpr hcid), set_of_lt (by rw [length_climb]; omega), after_some,
    add_of_le (by omega), after_some]
  rfl

/-- Without its top, a heap has no more live entries than entries. -/
theorem Counted.valid_dropTop (hcounted : heap.Counted) (hlength : 0 < heap.length) :
    heap.dropTop.valid ≤ heap.dropTop.length := by
  have hslots := hcounted.length_le_slots
  have hvalid := hcounted.valid_le
  rw [dropTop]
  dsimp only
  split
  · omega
  · next hdead =>
      have htaken : heap.slots.take heap.length =
          slotAt heap.slots 0 :: (heap.slots.take heap.length).tail := by
        obtain ⟨top, rest, hcons⟩ := List.exists_cons_of_length_pos (hlength.trans_le hslots)
        obtain ⟨length, hsucc⟩ := Nat.exists_eq_succ_of_ne_zero hlength.ne'
        rw [hcons, hsucc]
        rfl
      have hrest : (heap.slots.take heap.length).tail.length = heap.length - 1 := by
        rw [List.length_tail, List.length_take, Nat.min_eq_left hslots]
      rw [hcounted.valid, htaken, 
        List.countP_cons_of_neg (p := fun entry : HeapEntry => entry.cid?.isSome) hdead, ← hrest]
      exact List.countP_le_length

/-- Nothing goes wrong in a push. -/
theorem pushChecked_eq (hcounted : heap.Counted) (hcid : cid ≤ cidLimit) (distance : Distance) :
    heap.pushChecked cid distance = some (heap.push cid distance) := by
  have hpositive := hcounted.capacity_pos
  have hslots := hcounted.capacity_le
  rw [pushChecked, push]
  by_cases hfull : heap.length = heap.capacity
  · have hlength : 0 < heap.length := by omega
    rw [if_pos hfull, if_pos hfull, getElem?_eq_slotAt (by omega), after_some]
    by_cases hfar : distanceOf heap.slots 0 ≤ distance.value
    · rw [if_pos hfar]
      exact if_pos hfar
    · have hdropped : heap.dropTop.length < heap.dropTop.capacity := by
        change heap.length - 1 < heap.capacity
        omega
      rw [if_neg hfar]
      refine (if_neg hfar).trans ?_
      rw [dropTopChecked_eq hcounted hlength, after_some]
      exact placeChecked_eq (sound_dropTop hcounted.toSound) hdropped hcounted.limit
        (hcounted.valid_dropTop hlength) hcid distance
  · have hroom := hcounted.length_le
    rw [if_neg hfull, if_neg hfull]
    exact placeChecked_eq hcounted.toSound (by omega) hcounted.limit hcounted.valid_le hcid distance

/-- Both searches find a nearest live slot, or there is none. -/
theorem findMinOn_cases (hheap : heap.Finite) (avx512f : Bool) :
    (heap.findMinOn avx512f = none ∧
      ∀ other < heap.length, (slotAt heap.slots other).cid? = none) ∨
    ∃ position cid, heap.findMinOn avx512f = some position ∧ position < heap.length ∧
      (slotAt heap.slots position).cid? = some cid ∧
      ∀ other < heap.length, (slotAt heap.slots other).cid?.isSome →
        distanceOf heap.slots position ≤ distanceOf heap.slots other := by
  have hslots := hheap.length_le_slots
  have hfound : (heap.findMinOn avx512f = none ∧ ∀ other < heap.length, ¬ Live heap.ids other) ∨
      ∃ position, heap.findMinOn avx512f = some position ∧
        Least heap.ids heap.distances heap.length position := by
    cases avx512f with
    | false =>
        rcases findMinPositionScalar_cases heap.ids hheap.slots with
          hnone | ⟨position, hsome, hleast, -⟩
        · exact Or.inl hnone
        · exact Or.inr ⟨position, hsome, hleast⟩
    | true =>
        rcases findMinPositionAvx512_cases heap.validIds hheap.slots with
          hnone | ⟨position, hsome, hleast, -⟩
        · exact Or.inl hnone
        · exact Or.inr ⟨position, hsome, hleast⟩
  rcases hfound with ⟨hnone, hdead⟩ | ⟨position, hsome, hleast⟩
  · refine Or.inl ⟨hnone, fun other hother => ?_⟩
    have hnot := hdead other hother
    rwa [live_ids_iff, Option.not_isSome_iff_eq_none] at hnot
  · obtain ⟨cid, hcid⟩ := Option.isSome_iff_exists.mp (live_ids_iff.mp hleast.live)
    refine Or.inr ⟨position, cid, hsome, hleast.lt, hcid, fun other hother hlive => ?_⟩
    have hle := hleast.least other hother (live_ids_iff.mpr hlive)
    rwa [slotDistance_distances (hleast.lt.trans_le hslots),
      slotDistance_distances (hother.trans_le hslots)] at hle

/-- Nothing goes wrong in a pop: it takes a nearest live entry, or there is none. -/
theorem popMinChecked_cases (hcounted : heap.Counted) (avx512f : Bool) :
    (heap.popMinChecked avx512f = some none ∧
      ∀ other < heap.length, (slotAt heap.slots other).cid? = none) ∨
    ∃ position cid, position < heap.length ∧ (slotAt heap.slots position).cid? = some cid ∧
      (∀ other < heap.length, (slotAt heap.slots other).cid?.isSome →
        distanceOf heap.slots position ≤ distanceOf heap.slots other) ∧
      heap.popMinChecked avx512f = some (some (⟨cid, (slotAt heap.slots position).distance⟩,
        { heap with
          slots := heap.slots.set position ⟨none, (slotAt heap.slots position).distance⟩
          valid := heap.valid - 1 })) := by
  have hslots := hcounted.length_le_slots
  rw [popMinChecked, if_neg (Nat.not_lt.mpr hslots)]
  rcases findMinOn_cases hcounted.toFinite avx512f with
    ⟨hnone, hdead⟩ | ⟨position, cid, hsome, hposition, hcid, hleast⟩
  · rw [hnone]
    exact Or.inl ⟨rfl, hdead⟩
  · refine Or.inr ⟨position, cid, hposition, hcid, hleast, ?_⟩
    have hpositive := hcounted.valid_pos hposition (by rw [hcid]; rfl)
    rw [hsome]
    dsimp only
    rw [getElem?_eq_slotAt (hposition.trans_le hslots), after_some, hcid]
    dsimp only
    rw [set_of_lt (hposition.trans_le hslots), after_some, sub_of_le hpositive]
    rfl

end HeapBuffer

end ParqDB.Navigation
