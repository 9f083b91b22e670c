import Mathlib.Algebra.Order.Group.Multiset
import Mathlib.Data.Multiset.Filter
import ParqDB.Foundations.HeapOrder
import ParqDB.Foundations.Smallest
import ParqDB.Navigation.CheckedHeap

/-!
# The candidate heap keeps the nearest

A heap that was reset and then used in any way holds the `capacity` smallest of the distances
that were pushed, those of taken entries included, with the greatest on top.  Taking gives a
nearest live entry with the cid it was pushed with.

**Strategy.**  The entries are moved by exchanges, which the heap order needs
(`HeapOrder.Rising`, `HeapOrder.Sinking`) and the multiset of entries does not see.  So a push
either changes nothing, or replaces the top, or adds an entry (`push_cases`), and a pop marks
one entry.  `HeapRun.Keeps` is the invariant of a run.
-/

namespace ParqDB.Navigation

open Foundations
open Query (Distance)

/-! ## Heap order -/

namespace MinimaxHeap

variable {entries : Array HeapEntry} {position : ℕ}

theorem distanceAt_swap {left right : ℕ} (hleft : left < entries.size)
    (hright : right < entries.size) :
    distanceAt (entries.swapIfInBounds left right) =
      distanceAt entries ∘ Equiv.swap left right := by
  funext position
  have hsize : (entries.swapIfInBounds left right).size = entries.size :=
    Array.size_swapIfInBounds
  simp only [distanceAt, Function.comp_apply, Array.getD_eq_getD_getElem?]
  by_cases hposition : position < entries.size
  · rw [Array.getElem?_eq_getElem (by rwa [hsize]), Array.getElem_swapIfInBounds]
    by_cases hsame : position = left
    · subst hsame
      rw [Equiv.swap_apply_left, Array.getElem?_eq_getElem hright]
      simp [hright]
    · by_cases hother : position = right
      · subst hother
        rw [Equiv.swap_apply_right, Array.getElem?_eq_getElem hleft]
        simp [hsame, hleft]
      · rw [Equiv.swap_apply_of_ne_of_ne hsame hother, Array.getElem?_eq_getElem hposition]
        simp [hsame, hother]
  · have hne : position ≠ left ∧ position ≠ right := by omega
    rw [Equiv.swap_apply_of_ne_of_ne hne.1 hne.2, Array.getElem?_eq_none (by omega),
      Array.getElem?_eq_none (by omega)]

/-- Each entry is at most as far as the one above it. -/
def Ordered (entries : Array HeapEntry) : Prop :=
  HeapOrder.Ordered (distanceAt entries) entries.size

theorem ordered_siftUp {fuel : ℕ} (hfuel : position ≤ fuel) (hposition : position < entries.size)
    (hrising : HeapOrder.Rising (distanceAt entries) entries.size position) :
    Ordered (siftUp entries fuel position) := by
  induction fuel generalizing entries position with
  | zero => exact hrising.ordered (Or.inl (Nat.le_zero.mp hfuel))
  | succ fuel ih =>
      rw [siftUp]
      by_cases hstop : position = 0 ∨
          distanceAt entries position ≤ distanceAt entries ((position - 1) / 2)
      · rw [if_pos hstop]
        exact hrising.ordered hstop
      · rw [if_neg hstop]
        obtain ⟨hzero, hfar⟩ := not_or.mp hstop
        have hup : (position - 1) / 2 < position := HeapOrder.parent_lt (Nat.pos_of_ne_zero hzero)
        have hsize : (entries.swapIfInBounds position ((position - 1) / 2)).size = entries.size :=
          Array.size_swapIfInBounds
        refine ih (by omega) (by omega) ?_
        rw [hsize, distanceAt_swap hposition (hup.trans hposition)]
        exact hrising.exchange (Nat.pos_of_ne_zero hzero) hposition (not_le.mp hfar)

/-- The child that is compared is there, and no child is farther. -/
theorem fartherChild_spec {child : ℕ} (hleft : position * 2 + 1 < entries.size)
    (hchild : (if position * 2 + 1 + 1 < entries.size ∧
      distanceAt entries (position * 2 + 1) < distanceAt entries (position * 2 + 1 + 1)
      then position * 2 + 1 + 1 else position * 2 + 1) = child) :
    child < entries.size ∧ 0 < child ∧ HeapOrder.parent child = position ∧
      ∀ other < entries.size, 0 < other → HeapOrder.parent other = position →
        distanceAt entries other ≤ distanceAt entries child := by
  subst hchild
  refine ⟨?_, ?_, ?_, fun other hother hpositive hparent => ?_⟩
  · split <;> omega
  · split <;> omega
  · unfold HeapOrder.parent
    split <;> omega
  · rcases (HeapOrder.parent_eq_iff hpositive).mp hparent with rfl | rfl
    · split
      · next hright => exact hright.2.le
      · exact le_rfl
    · split
      · exact le_rfl
      · next hnearer => exact not_lt.mp fun hless => hnearer ⟨hother, hless⟩

theorem ordered_siftDown {fuel : ℕ} (hfuel : entries.size ≤ position + fuel)
    (hsinking : HeapOrder.Sinking (distanceAt entries) entries.size position) :
    Ordered (siftDown entries fuel position) := by
  induction fuel generalizing entries position with
  | zero =>
      refine hsinking.ordered fun child hchild hpositive hparent => ?_
      have hup := HeapOrder.parent_lt hpositive
      omega
  | succ fuel ih =>
      rw [siftDown]
      by_cases hleaf : entries.size ≤ position * 2 + 1
      · rw [if_pos hleaf]
        refine hsinking.ordered fun child hchild hpositive hparent => ?_
        rcases (HeapOrder.parent_eq_iff hpositive).mp hparent with hleft | hright <;> omega
      · rw [if_neg hleaf]
        dsimp only
        generalize hchosen : (if position * 2 + 1 + 1 < entries.size ∧
          distanceAt entries (position * 2 + 1) < distanceAt entries (position * 2 + 1 + 1)
          then position * 2 + 1 + 1 else position * 2 + 1) = child
        obtain ⟨hlast, hpositive, hparent, hgreatest⟩ :=
          fartherChild_spec (Nat.not_le.mp hleaf) hchosen
        by_cases hstop : distanceAt entries child ≤ distanceAt entries position
        · rw [if_pos hstop]
          exact hsinking.ordered fun other hother hotherPositive hotherParent =>
            (hgreatest other hother hotherPositive hotherParent).trans hstop
        · rw [if_neg hstop]
          have hdown : position < child := hparent ▸ HeapOrder.parent_lt hpositive
          have hsize : (entries.swapIfInBounds position child).size = entries.size :=
            Array.size_swapIfInBounds
          refine ih (by omega) ?_
          rw [hsize, distanceAt_swap (hdown.trans hlast) hlast]
          exact hsinking.exchange hlast hpositive hparent hgreatest (not_le.mp hstop)

theorem distanceAt_push {entry : HeapEntry} (hposition : position < entries.size) :
    distanceAt (entries.push entry) position = distanceAt entries position := by
  rw [distanceAt, distanceAt, Array.getD_eq_getD_getElem?, Array.getD_eq_getD_getElem?,
    Array.getElem?_push_lt hposition, Array.getElem?_eq_getElem hposition]

theorem distanceAt_pop (hposition : position < entries.size - 1) :
    distanceAt entries.pop position = distanceAt entries position := by
  rw [distanceAt, distanceAt, Array.getD_eq_getD_getElem?, Array.getD_eq_getD_getElem?,
    Array.getElem?_pop, if_pos hposition]

variable {heap : MinimaxHeap}

theorem ordered_insert (hordered : Ordered heap.entries) (cid : ℕ)
    (distance : Distance) : Ordered (heap.insert cid distance).entries := by
  have hsize : (heap.entries.push ⟨some cid, distance⟩).size = heap.entries.size + 1 :=
    Array.size_push _
  refine ordered_siftUp (by omega) (by omega) ?_
  rw [hsize]
  exact (hordered.congr fun position hposition => distanceAt_push hposition).rising

theorem ordered_removeTop (hordered : Ordered heap.entries) :
    Ordered heap.removeTop.entries := by
  refine ordered_siftDown (by omega) ?_
  have hsize : (heap.entries.swapIfInBounds 0 (heap.entries.size - 1)).pop.size =
      heap.entries.size - 1 := by
    rw [Array.size_pop, Array.size_swapIfInBounds]
  rw [hsize]
  refine (hordered.mono (Nat.sub_le _ 1)).sinking fun child hchild hpositive => ?_
  rw [distanceAt_pop (by rwa [Array.size_swapIfInBounds]),
    distanceAt_swap (by omega) (by omega), Function.comp_apply,
    Equiv.swap_apply_of_ne_of_ne (by omega) (by omega)]

theorem ordered_push (hordered : Ordered heap.entries) (cid : ℕ)
    (distance : Distance) : Ordered (heap.push cid distance).entries := by
  unfold push
  split
  · split
    · exact hordered
    · exact ordered_insert (ordered_removeTop hordered) cid distance
  · exact ordered_insert hordered cid distance

/-- The top goes to the end, and is cut off. -/
theorem removeTop_perm (hpositive : 0 < heap.entries.size) :
    heap.entries.toList.Perm (heap.entries[0] :: heap.removeTop.entries.toList) := by
  have hsize : (heap.entries.swapIfInBounds 0 (heap.entries.size - 1)).size =
      heap.entries.size := Array.size_swapIfInBounds
  have hne : (heap.entries.swapIfInBounds 0 (heap.entries.size - 1)).toList ≠ [] := by
    rw [← List.length_pos_iff, Array.length_toList, hsize]
    exact hpositive
  have hlast : (heap.entries.swapIfInBounds 0 (heap.entries.size - 1)).toList.getLast hne =
      heap.entries[0] := by
    rw [List.getLast_eq_getElem, Array.getElem_toList, Array.getElem_swapIfInBounds]
    simp only [Array.length_toList, hsize]
    by_cases hone : heap.entries.size - 1 = 0
    · rw [dif_pos ⟨hone, by omega⟩]
      congr 1
    · rw [dif_neg fun hboth => hone hboth.1, dif_pos ⟨trivial, hpositive⟩]
  have hsplit : (heap.entries.swapIfInBounds 0 (heap.entries.size - 1)).toList =
      (heap.entries.swapIfInBounds 0 (heap.entries.size - 1)).pop.toList ++ [heap.entries[0]] := by
    rw [Array.toList_pop, ← hlast, List.dropLast_append_getLast]
  have hsifted : heap.removeTop.entries.toList.Perm
      (heap.entries.swapIfInBounds 0 (heap.entries.size - 1)).pop.toList := siftDown_perm _ _ _
  refine (swapIfInBounds_perm heap.entries 0 (heap.entries.size - 1)).symm.trans ?_
  rw [hsplit]
  exact List.perm_append_singleton _ _ |>.trans (hsifted.symm.cons _)

/-- A push leaves a full heap without farther entries as it is, replaces its top, or adds an
entry. -/
theorem push_cases (heap : MinimaxHeap) (cid : ℕ) (distance : Distance)
    (hcapacity : 0 < heap.capacity) (hsize : heap.entries.size ≤ heap.capacity) :
    (heap.entries.size = heap.capacity ∧ distanceAt heap.entries 0 ≤ distance.value ∧
      heap.push cid distance = heap) ∨
    (∃ top rest, heap.entries.size = heap.capacity ∧ top.distance.value =
        distanceAt heap.entries 0 ∧ distance.value < top.distance.value ∧
      heap.entries.toList.Perm (top :: rest) ∧
      (heap.push cid distance).entries.toList.Perm (⟨some cid, distance⟩ :: rest) ∧
      (heap.push cid distance).valid =
        (if top.cid?.isSome then heap.valid - 1 else heap.valid) + 1) ∨
    (heap.entries.size < heap.capacity ∧
      (heap.push cid distance).entries.toList.Perm (⟨some cid, distance⟩ :: heap.entries.toList) ∧
      (heap.push cid distance).valid = heap.valid + 1) := by
  by_cases hfull : heap.entries.size = heap.capacity
  · have hpositive : 0 < heap.entries.size := by omega
    have hgetD : heap.entries.getD 0 ⟨none, Distance.infinity⟩ = heap.entries[0] := by
      rw [Array.getD_eq_getD_getElem?, Array.getElem?_eq_getElem hpositive, Option.getD_some]
    have htop : distanceAt heap.entries 0 = heap.entries[0].distance.value := by
      rw [distanceAt, hgetD]
    unfold push
    rw [if_pos hfull]
    by_cases hfar : distanceAt heap.entries 0 ≤ distance.value
    · rw [if_pos hfar]
      exact Or.inl ⟨hfull, hfar, rfl⟩
    · rw [if_neg hfar]
      refine Or.inr (Or.inl ⟨heap.entries[0], heap.removeTop.entries.toList, hfull, htop.symm, ?_,
        removeTop_perm hpositive, ?_, ?_⟩)
      · rw [← htop]
        exact not_le.mp hfar
      · refine (siftUp_perm _ _ _).trans ?_
        rw [Array.toList_push]
        exact List.perm_append_singleton _ _
      · rw [insert, removeTop, hgetD]
  · exact Or.inr (Or.inr ⟨by omega, push_perm (by omega) cid distance,
      push_valid (by omega) cid distance⟩)

end MinimaxHeap

/-! ## Entries -/

/-- The candidate in an entry that is not taken. -/
def HeapEntry.candidate? (entry : HeapEntry) : Option Scored :=
  entry.cid?.map fun cid => ⟨cid, entry.distance⟩

def scoredValues (candidates : List Scored) : List ℤ :=
  candidates.map fun scored => scored.distance.value

def entryValues (entries : List HeapEntry) : List ℤ :=
  entries.map fun entry => entry.distance.value

/-- The candidates that are not taken. -/
def candidatesOf (entries : Multiset HeapEntry) : Multiset Scored :=
  entries.filterMap HeapEntry.candidate?

/-- The distances of the taken entries. -/
def takenOf (entries : Multiset HeapEntry) : Multiset Distance :=
  (entries.filter fun entry => entry.cid? = none).map HeapEntry.distance

section

variable {entries others : Multiset HeapEntry} {distance : Distance}

theorem candidatesOf_live (cid : ℕ) (distance : Distance) (entries : Multiset HeapEntry) :
    candidatesOf (⟨some cid, distance⟩ ::ₘ entries) = ⟨cid, distance⟩ ::ₘ candidatesOf entries :=
  Multiset.filterMap_cons_some _ _ _ rfl

theorem candidatesOf_taken (distance : Distance) (entries : Multiset HeapEntry) :
    candidatesOf (⟨none, distance⟩ ::ₘ entries) = candidatesOf entries :=
  Multiset.filterMap_cons_none _ _ rfl

theorem takenOf_live (cid : ℕ) (distance : Distance) (entries : Multiset HeapEntry) :
    takenOf (⟨some cid, distance⟩ ::ₘ entries) = takenOf entries := by
  rw [takenOf, Multiset.filter_cons_of_neg (p := fun entry : HeapEntry => entry.cid? = none) _
    (Option.some_ne_none cid), takenOf]

theorem takenOf_taken (distance : Distance) (entries : Multiset HeapEntry) :
    takenOf (⟨none, distance⟩ ::ₘ entries) = distance ::ₘ takenOf entries := by
  rw [takenOf, Multiset.filter_cons_of_pos (p := fun entry : HeapEntry => entry.cid? = none) _ rfl,
    Multiset.map_cons, takenOf]

theorem candidatesOf_mono (hle : entries ≤ others) : candidatesOf entries ≤ candidatesOf others :=
  Multiset.filterMap_le_filterMap _ hle

theorem takenOf_mono (hle : entries ≤ others) : takenOf entries ≤ takenOf others :=
  Multiset.map_le_map (Multiset.filter_le_filter _ hle)

end

/-! ## Runs of a heap -/

namespace HeapBuffer

/-- The entries of the heap, taken ones included. -/
def stored (heap : HeapBuffer) : List HeapEntry := heap.slots.take heap.length

variable {heap : HeapBuffer}

theorem length_stored (hsound : heap.Sound) : heap.stored.length = heap.length := by
  rw [stored, List.length_take, Nat.min_eq_left hsound.length_le_slots]

theorem ordered_view_iff (hsound : heap.Sound) :
    MinimaxHeap.Ordered heap.view.entries ↔
      HeapOrder.Ordered (distanceOf heap.slots) heap.length := by
  have hslots := hsound.length_le_slots
  have hsize : heap.view.entries.size = heap.length := size_take hslots
  rw [MinimaxHeap.Ordered, hsize]
  constructor
  · exact fun hordered => hordered.congr fun child hchild => (distanceAt_take hchild hslots).symm
  · exact fun hordered => hordered.congr fun child hchild => distanceAt_take hchild hslots

/-- No entry is farther than the top. -/
theorem le_top (hsound : heap.Sound) (hordered : HeapOrder.Ordered (distanceOf heap.slots) heap.length)
    {entry : HeapEntry} (hentry : entry ∈ heap.stored) :
    entry.distance.value ≤ distanceOf heap.slots 0 := by
  obtain ⟨position, hposition, rfl⟩ := List.mem_iff_getElem.mp hentry
  have hlength : position < heap.length := by rwa [length_stored hsound] at hposition
  have hle := hordered.le_top position hlength
  rw [distanceOf, slotAt_eq_getElem (hlength.trans_le hsound.length_le_slots)] at hle
  exact (congrArg (fun entry : HeapEntry => entry.distance.value) List.getElem_take).trans_le hle

end HeapBuffer

/-- A use of the heap. -/
inductive HeapOp
  | push (cid : ℕ) (distance : Distance)
  | popMin

/-- The distances are finite, and the cids were validated before the graph was built. -/
def HeapOp.Allowed : HeapOp → Prop
  | .push cid distance => cid ≤ cidLimit ∧ distance.Finite
  | .popMin => True

/-- A heap with what was pushed and what was taken so far. -/
structure HeapRun where
  heap : HeapBuffer
  pushed : List Scored
  popped : List Scored

namespace HeapRun

def perform (avx512f : Bool) (run : HeapRun) : HeapOp → Option HeapRun
  | .push cid distance =>
      (run.heap.pushChecked cid distance).map fun heap =>
        { run with heap := heap, pushed := run.pushed ++ [⟨cid, distance⟩] }
  | .popMin =>
      (run.heap.popMinChecked avx512f).map fun taken =>
        match taken with
        | none => run
        | some (scored, heap) => { run with heap := heap, popped := run.popped ++ [scored] }

/-- The invariant of a run. -/
structure Keeps (capacity : ℕ) (run : HeapRun) : Prop where
  counted : run.heap.Counted
  capacity_eq : run.heap.capacity = capacity
  ordered : HeapOrder.Ordered (distanceOf run.heap.slots) run.heap.length
  length_eq : run.heap.length = min capacity run.pushed.length
  retains : Retains capacity (scoredValues run.pushed) (entryValues run.heap.stored)
  candidates : candidatesOf run.heap.stored + run.popped ≤ run.pushed
  taken : takenOf run.heap.stored ≤ (run.popped.map Scored.distance : List Distance)

theorem Keeps.start (heap : HeapBuffer) {capacity : ℕ} (hcapacity : 0 < capacity)
    (hlimit : capacity ≤ vectorLimit) : Keeps capacity ⟨heap.reset capacity, [], []⟩ where
  counted := ⟨HeapBuffer.finite_reset heap hcapacity, hlimit, rfl⟩
  capacity_eq := rfl
  ordered := fun child hchild => absurd hchild (Nat.not_lt_zero child)
  length_eq := (Nat.min_zero capacity).symm
  retains := Retains.refl []
  candidates := le_rfl
  taken := le_rfl

variable {capacity : ℕ} {run : HeapRun} {cid : ℕ} {distance : Distance}

section

variable (hkeeps : Keeps capacity run)

include hkeeps

theorem Keeps.sound : run.heap.Sound :=
  hkeeps.counted.toSound

/-- A push keeps what the multiset of entries says about taken and other candidates. -/
theorem Keeps.added {stored rest : List HeapEntry}
    (hrest : (rest : Multiset HeapEntry) ≤ run.heap.stored)
    (hstored : stored.Perm (⟨some cid, distance⟩ :: rest)) :
    candidatesOf stored + run.popped ≤ (run.pushed ++ [⟨cid, distance⟩] : List Scored) ∧
      takenOf stored ≤ (run.popped.map Scored.distance : List Distance) := by
  have hentries : (stored : Multiset HeapEntry) = ⟨some cid, distance⟩ ::ₘ (rest : Multiset _) :=
    Multiset.coe_eq_coe.mpr hstored
  rw [hentries, candidatesOf_live, takenOf_live]
  constructor
  · rw [← Multiset.coe_add, Multiset.coe_singleton, add_comm (run.pushed : Multiset Scored),
      Multiset.singleton_add, Multiset.cons_add, Multiset.cons_le_cons_iff]
    calc candidatesOf rest + run.popped
        ≤ candidatesOf run.heap.stored + run.popped := by gcongr; exact candidatesOf_mono hrest
      _ ≤ run.pushed := hkeeps.candidates
  · exact (takenOf_mono hrest).trans hkeeps.taken

/-- A push that adds an entry to some of the entries. -/
theorem Keeps.place {rest : List HeapEntry}
    (hfinite : distance.Finite) (hrest : (rest : Multiset HeapEntry) ≤ run.heap.stored)
    (hstored : (run.heap.push cid distance).stored.Perm (⟨some cid, distance⟩ :: rest))
    (hvalid : (run.heap.push cid distance).valid =
      rest.countP (fun entry => entry.cid?.isSome) + 1)
    (hlength : rest.length + 1 = min capacity (run.pushed.length + 1))
    (hretains : Retains capacity (scoredValues (run.pushed ++ [⟨cid, distance⟩]))
      (distance.value :: entryValues rest)) :
    Keeps capacity ⟨run.heap.push cid distance, run.pushed ++ [⟨cid, distance⟩], run.popped⟩ := by
  have hsound := hkeeps.sound
  have hpushed := hkeeps.counted.toFinite.push cid hfinite
  have hview := HeapBuffer.view_push hsound cid distance
  have hcapacity : (run.heap.push cid distance).capacity = run.heap.capacity := by
    have hsame := MinimaxHeap.push_capacity run.heap.view cid distance
    rwa [← hview] at hsame
  have hcandidates := hkeeps.added hrest hstored
  refine ⟨⟨hpushed, ?_, ?_⟩, hcapacity.trans hkeeps.capacity_eq, ?_, ?_, ?_, hcandidates.1,
    hcandidates.2⟩
  · rw [hcapacity]
    exact hkeeps.counted.limit
  · refine hvalid.trans ?_
    change _ = (run.heap.push cid distance).stored.countP _
    rw [hstored.countP_eq, List.countP_cons_of_pos rfl]
  · rw [← HeapBuffer.ordered_view_iff hpushed.toSound, hview]
    exact MinimaxHeap.ordered_push ((HeapBuffer.ordered_view_iff hsound).mpr hkeeps.ordered) cid
      distance
  · rw [← HeapBuffer.length_stored hpushed.toSound, hstored.length_eq, List.length_cons, hlength,
      List.length_append, List.length_singleton]
  · exact hretains.trans (Retains.of_perm (hstored.map fun entry : HeapEntry =>
      entry.distance.value).symm)

/-- A full heap whose entries are all at most as far stays as it is. -/
theorem Keeps.refuse (hfull : run.heap.length = run.heap.capacity)
    (hfar : distanceOf run.heap.slots 0 ≤ distance.value) :
    Keeps capacity ⟨run.heap, run.pushed ++ [⟨cid, distance⟩], run.popped⟩ := by
  have hlength := hkeeps.length_eq
  have hcapacity := hkeeps.capacity_eq
  refine ⟨hkeeps.counted, hcapacity, hkeeps.ordered, ?_, ?_, ?_, hkeeps.taken⟩
  · rw [List.length_append, List.length_singleton]
    change run.heap.length = _
    omega
  · have hdominated : Dominated capacity (entryValues run.heap.stored) distance.value := by
      refine dominated_of_forall ?_ fun value hvalue => ?_
      · rw [entryValues, List.length_map, HeapBuffer.length_stored hkeeps.sound]
        omega
      · obtain ⟨entry, hentry, rfl⟩ := List.mem_map.mp hvalue
        exact (HeapBuffer.le_top hkeeps.sound hkeeps.ordered hentry).trans hfar
    rw [scoredValues, List.map_append]
    refine (hkeeps.retains.append_right [distance.value]).trans
      ((Retains.of_perm List.perm_append_comm).trans (Retains.drop fun value hvalue => ?_))
    rwa [List.mem_singleton.mp hvalue]
  · refine hkeeps.candidates.trans ?_
    rw [← Multiset.coe_add]
    exact Multiset.le_add_right _ _

/-- One push. -/
theorem Keeps.push (cid : ℕ) (hfinite : distance.Finite) :
    Keeps capacity ⟨run.heap.push cid distance, run.pushed ++ [⟨cid, distance⟩], run.popped⟩ := by
  have hsound := hkeeps.sound
  have hcapacity := hkeeps.capacity_eq
  have hlength := hkeeps.length_eq
  have hpositive := hsound.capacity_pos
  have hstoredLength := HeapBuffer.length_stored hsound
  have hview := HeapBuffer.view_push hsound cid distance
  have hsize : run.heap.view.entries.size = run.heap.length := size_take hsound.length_le_slots
  have hcounted : run.heap.valid = run.heap.stored.countP fun entry => entry.cid?.isSome :=
    hkeeps.counted.valid
  have htop : run.heap.length = run.heap.capacity →
      MinimaxHeap.distanceAt run.heap.view.entries 0 = distanceOf run.heap.slots 0 := by
    intro hfull
    exact distanceAt_take (by omega) hsound.length_le_slots
  -- all distances, with the new one
  have hall : Retains capacity (scoredValues (run.pushed ++ [⟨cid, distance⟩]))
      (distance.value :: entryValues run.heap.stored) := by
    rw [scoredValues, List.map_append]
    exact (hkeeps.retains.append_right [distance.value]).trans
      (Retains.of_perm (List.perm_append_singleton _ _))
  rcases MinimaxHeap.push_cases run.heap.view cid distance hsound.capacity_pos
    (hsize.trans_le hsound.length_le) with
    ⟨hfull, hfar, -⟩ | ⟨top, rest, hfull, htopValue, hnearer, hbefore, hafter, hvalid⟩ |
      ⟨hroom, hafter, hvalid⟩
  · rw [hsize] at hfull
    change run.heap.length = run.heap.capacity at hfull
    rw [htop hfull] at hfar
    have hsame : run.heap.push cid distance = run.heap := by
      rw [HeapBuffer.push, if_pos hfull, if_pos hfar]
    rw [hsame]
    exact hkeeps.refuse hfull hfar
  · rw [hsize] at hfull
    rw [htop hfull] at htopValue
    rw [← hview] at hafter hvalid
    change run.heap.stored.Perm (top :: rest) at hbefore
    have hrestLength : rest.length + 1 = run.heap.length := by
      rw [← hstoredLength, hbefore.length_eq, List.length_cons]
    refine hkeeps.place hfinite ?_ hafter ?_ ?_ ?_
    · rw [Multiset.coe_eq_coe.mpr hbefore, ← Multiset.cons_coe]
      exact Multiset.le_cons_self _ _
    · refine hvalid.trans ?_
      change (if top.cid?.isSome then run.heap.valid - 1 else run.heap.valid) + 1 = _
      rw [hcounted, hbefore.countP_eq]
      split
      · next hlive =>
          rw [List.countP_cons_of_pos (p := fun entry : HeapEntry => entry.cid?.isSome) hlive,
            Nat.add_sub_cancel]
      · next hdead =>
          rw [List.countP_cons_of_neg (p := fun entry : HeapEntry => entry.cid?.isSome) hdead]
    · rw [hrestLength]
      change run.heap.length = run.heap.capacity at hfull
      omega
    · -- the top is not nearer than all others
      have hswapped : (distance.value :: entryValues run.heap.stored).Perm
          ([top.distance.value] ++ distance.value :: entryValues rest) :=
        ((hbefore.map fun entry : HeapEntry => entry.distance.value).cons _).trans
          (List.Perm.swap _ _ _)
      refine hall.trans ((Retains.of_perm hswapped).trans (Retains.drop fun value hvalue => ?_))
      rw [List.mem_singleton.mp hvalue]
      refine dominated_of_forall ?_ fun other hother => ?_
      · rw [List.length_cons, entryValues, List.length_map, hrestLength]
        change run.heap.length = run.heap.capacity at hfull
        omega
      · rcases List.mem_cons.mp hother with rfl | hrest
        · exact hnearer.le
        · obtain ⟨entry, hentry, rfl⟩ := List.mem_map.mp hrest
          rw [htopValue]
          exact HeapBuffer.le_top hsound hkeeps.ordered
            (hbefore.mem_iff.mpr (List.mem_cons_of_mem _ hentry))
  · rw [hsize] at hroom
    rw [← hview] at hafter hvalid
    change run.heap.length < run.heap.capacity at hroom
    refine hkeeps.place hfinite le_rfl hafter ?_ ?_ hall
    · refine hvalid.trans ?_
      change run.heap.valid + 1 = _
      rw [hcounted]
    · rw [hstoredLength]
      omega

end

/-- The heap after an entry was taken. -/
def takeAt (heap : HeapBuffer) (position : ℕ) : HeapBuffer :=
  { heap with
    slots := heap.slots.set position ⟨none, (slotAt heap.slots position).distance⟩
    valid := heap.valid - 1 }

/-- Taking an entry marks it, and moves none. -/
theorem stored_takeAt {heap : HeapBuffer} (hsound : heap.Sound) {position : ℕ}
    (hposition : position < heap.length) (hcid : (slotAt heap.slots position).cid? = some cid) :
    ∃ rest, heap.stored.Perm (⟨some cid, (slotAt heap.slots position).distance⟩ :: rest) ∧
      (takeAt heap position).stored.Perm
        (⟨none, (slotAt heap.slots position).distance⟩ :: rest) := by
  have hslots := hsound.length_le_slots
  have hstored : position < heap.stored.length := by rwa [HeapBuffer.length_stored hsound]
  have hentry : heap.stored[position] =
      ⟨some cid, (slotAt heap.slots position).distance⟩ := by
    rw [← hcid, slotAt_eq_getElem (hposition.trans_le hslots)]
    exact List.getElem_take
  refine ⟨heap.stored.eraseIdx position, ?_, ?_⟩
  · rw [← hentry]
    exact (List.getElem_cons_eraseIdx_perm hstored).symm
  · have hset : (takeAt heap position).stored =
        heap.stored.set position ⟨none, (slotAt heap.slots position).distance⟩ := List.take_set
    rw [hset]
    exact List.set_perm_cons_eraseIdx hstored _

theorem distanceOf_takeAt (heap : HeapBuffer) (position : ℕ) :
    distanceOf (takeAt heap position).slots = distanceOf heap.slots := by
  funext other
  by_cases hsame : position = other
  · subst hsame
    by_cases hposition : position < heap.slots.length
    · rw [distanceOf, takeAt, slotAt_set_self hposition, distanceOf]
    · have hunset : (takeAt heap position).slots = heap.slots :=
        List.set_eq_of_length_le (Nat.not_lt.mp hposition)
      rw [hunset]
  · rw [distanceOf, takeAt, slotAt_set_of_ne hsame, distanceOf]

/-- One pop that takes an entry. -/
theorem Keeps.pop (hkeeps : Keeps capacity run) {position : ℕ} (hposition : position < run.heap.length)
    (hcid : (slotAt run.heap.slots position).cid? = some cid) :
    Keeps capacity ⟨takeAt run.heap position, run.pushed,
      run.popped ++ [⟨cid, (slotAt run.heap.slots position).distance⟩]⟩ := by
  have hsound := hkeeps.sound
  obtain ⟨rest, hbefore, hafter⟩ := stored_takeAt hsound hposition hcid
  have hentries : (run.heap.stored : Multiset HeapEntry) =
      ⟨some cid, (slotAt run.heap.slots position).distance⟩ ::ₘ (rest : Multiset _) :=
    Multiset.coe_eq_coe.mpr hbefore
  have hlater : ((takeAt run.heap position).stored : Multiset HeapEntry) =
      ⟨none, (slotAt run.heap.slots position).distance⟩ ::ₘ (rest : Multiset _) :=
    Multiset.coe_eq_coe.mpr hafter
  have hcandidates := hkeeps.candidates
  have htaken := hkeeps.taken
  have hvalid : run.heap.valid = run.heap.stored.countP fun entry => entry.cid?.isSome :=
    hkeeps.counted.valid
  rw [hentries, candidatesOf_live] at hcandidates
  rw [hentries, takenOf_live] at htaken
  refine ⟨⟨⟨⟨hsound.length_le, ?_, hsound.capacity_pos⟩, ?_⟩, hkeeps.counted.limit, ?_⟩,
    hkeeps.capacity_eq, ?_, hkeeps.length_eq, ?_, ?_, ?_⟩
  · exact hsound.capacity_le.trans_eq List.length_set.symm
  · intro entry hentry
    rcases List.mem_cons.mp (hafter.mem_iff.mp hentry) with rfl | hrest
    · exact hkeeps.counted.finite ⟨some cid, (slotAt run.heap.slots position).distance⟩
        (hbefore.mem_iff.mpr List.mem_cons_self)
    · exact hkeeps.counted.finite entry (hbefore.mem_iff.mpr (List.mem_cons_of_mem _ hrest))
  · change run.heap.valid - 1 = (takeAt run.heap position).stored.countP _
    rw [hvalid, hbefore.countP_eq, hafter.countP_eq, List.countP_cons_of_pos rfl,
      Nat.add_sub_cancel, List.countP_cons_of_neg Bool.false_ne_true]
  · change HeapOrder.Ordered (distanceOf (takeAt run.heap position).slots) run.heap.length
    rw [distanceOf_takeAt]
    exact hkeeps.ordered
  · exact hkeeps.retains.trans (Retains.of_perm
      ((hbefore.map fun entry : HeapEntry => entry.distance.value).trans
        (hafter.map fun entry : HeapEntry => entry.distance.value).symm))
  · rw [hlater, candidatesOf_taken, ← Multiset.coe_add, Multiset.coe_singleton,
      add_comm (run.popped : Multiset Scored), Multiset.singleton_add, Multiset.add_cons,
      ← Multiset.cons_add]
    exact hcandidates
  · rw [hlater, takenOf_taken, List.map_append, ← Multiset.coe_add, add_comm]
    exact Multiset.cons_le_cons _ htaken

/-- One use of the heap goes well, and keeps the invariant. -/
theorem Keeps.perform (hkeeps : Keeps capacity run) (avx512f : Bool) {op : HeapOp}
    (hop : op.Allowed) : ∃ later, run.perform avx512f op = some later ∧ Keeps capacity later := by
  cases op with
  | push cid distance =>
      refine ⟨_, ?_, hkeeps.push cid hop.2⟩
      rw [HeapRun.perform, HeapBuffer.pushChecked_eq hkeeps.counted hop.1, Option.map_some]
  | popMin =>
      rw [HeapRun.perform]
      rcases HeapBuffer.popMinChecked_cases hkeeps.counted avx512f with
        ⟨hnone, -⟩ | ⟨position, cid, hposition, hcid, -, hsome⟩
      · exact ⟨run, by rw [hnone]; rfl, hkeeps⟩
      · refine ⟨_, ?_, hkeeps.pop hposition hcid⟩
        rw [hsome]
        rfl

theorem Keeps.performAll (hkeeps : Keeps capacity run) (avx512f : Bool) {ops : List HeapOp}
    (hops : ∀ op ∈ ops, op.Allowed) :
    ∃ last, ops.foldlM (HeapRun.perform avx512f) run = some last ∧ Keeps capacity last := by
  induction ops generalizing run with
  | nil => exact ⟨run, rfl, hkeeps⟩
  | cons op ops ih =>
      obtain ⟨later, hperform, hlater⟩ := hkeeps.perform avx512f (hops op List.mem_cons_self)
      obtain ⟨last, hlast, hlastKeeps⟩ := ih hlater fun other hother =>
        hops other (List.mem_cons_of_mem _ hother)
      refine ⟨last, ?_, hlastKeeps⟩
      rw [List.foldlM_cons, hperform]
      exact hlast

/-! ## The result -/

/-- What a heap holds after some uses. -/
structure HoldsNearest (capacity : ℕ) (run : HeapRun) : Prop where
  /-- The stored distances are the smallest that were pushed. -/
  nearest : (entryValues run.heap.stored).Perm (smallest capacity (scoredValues run.pushed))
  length : run.heap.stored.length = min capacity run.pushed.length
  /-- They are in heap order. -/
  ordered : ∀ child < run.heap.length, 0 < child →
    distanceOf run.heap.slots child ≤ distanceOf run.heap.slots ((child - 1) / 2)
  valid : run.heap.valid = run.heap.stored.countP fun entry => entry.cid?.isSome
  /-- What is live or was returned are different pushes. -/
  candidates : candidatesOf run.heap.stored + run.popped ≤ run.pushed
  /-- The other entries keep the distances of returned ones. -/
  taken : takenOf run.heap.stored ≤ (run.popped.map Scored.distance : List Distance)

theorem Keeps.holdsNearest (hkeeps : Keeps capacity run) : run.HoldsNearest capacity where
  nearest := by
    rw [hkeeps.retains.smallest_eq]
    refine (smallest_perm_self ?_).symm
    rw [entryValues, List.length_map, HeapBuffer.length_stored hkeeps.sound, hkeeps.length_eq]
    exact Nat.min_le_left _ _
  length := (HeapBuffer.length_stored hkeeps.sound).trans hkeeps.length_eq
  ordered := hkeeps.ordered
  valid := hkeeps.counted.valid
  candidates := hkeeps.candidates
  taken := hkeeps.taken

/-- The next pop returns a nearest live entry, which was pushed with its cid and was not returned
before; it returns nothing exactly when no entry is counted. -/
def PopsNearest (avx512f : Bool) (run : HeapRun) : Prop :=
  ∃ result, run.heap.popMinChecked avx512f = some result ∧
    (result = none ↔ run.heap.valid = 0) ∧
    ∀ scored later, result = some (scored, later) →
      ⟨some scored.cid, scored.distance⟩ ∈ run.heap.stored ∧
      (∀ entry ∈ run.heap.stored, entry.cid?.isSome →
        scored.distance.value ≤ entry.distance.value) ∧
      scored ::ₘ (run.popped : Multiset Scored) ≤ run.pushed

theorem Keeps.popsNearest (hkeeps : Keeps capacity run) (avx512f : Bool) :
    run.PopsNearest avx512f := by
  have hsound := hkeeps.sound
  have hslots := hsound.length_le_slots
  have hmem : ∀ entry ∈ run.heap.stored, ∃ other < run.heap.length,
      entry = slotAt run.heap.slots other := by
    intro entry hentry
    obtain ⟨other, hother, rfl⟩ := List.mem_iff_getElem.mp hentry
    have hlength : other < run.heap.length := by rwa [HeapBuffer.length_stored hsound] at hother
    refine ⟨other, hlength, ?_⟩
    rw [slotAt_eq_getElem (hlength.trans_le hslots)]
    exact List.getElem_take
  rcases HeapBuffer.popMinChecked_cases hkeeps.counted avx512f with
    ⟨hnone, hdead⟩ | ⟨position, cid, hposition, hcid, hleast, hsome⟩
  · refine ⟨none, hnone, iff_of_true rfl ?_, fun scored later hresult => by cases hresult⟩
    have hvalid : run.heap.valid = run.heap.stored.countP fun entry => entry.cid?.isSome :=
      hkeeps.counted.valid
    rw [hvalid, List.countP_eq_zero]
    intro entry hentry hlive
    obtain ⟨other, hother, rfl⟩ := hmem entry hentry
    rw [hdead other hother] at hlive
    cases hlive
  · have hpositive := hkeeps.counted.valid_pos hposition (by rw [hcid]; rfl)
    refine ⟨_, hsome, iff_of_false (fun hresult => by cases hresult) hpositive.ne', ?_⟩
    rintro scored later hresult
    cases hresult
    obtain ⟨rest, hbefore, -⟩ := stored_takeAt hsound hposition hcid
    refine ⟨hbefore.mem_iff.mpr List.mem_cons_self, fun entry hentry hlive => ?_, ?_⟩
    · obtain ⟨other, hother, rfl⟩ := hmem entry hentry
      exact hleast other hother hlive
    · have hcandidates := hkeeps.candidates
      rw [Multiset.coe_eq_coe.mpr hbefore, ← Multiset.cons_coe, candidatesOf_live,
        Multiset.cons_add] at hcandidates
      exact (Multiset.cons_le_cons _ (Multiset.le_add_left _ _)).trans hcandidates

end HeapRun

/-- A heap that was reset, with any slots left over from before, goes well in any use, holds the
nearest of what was pushed, and returns them nearest first, with and without AVX-512. -/
theorem minimax_heap_keeps_nearest (avx512f : Bool) (heap start : HeapBuffer) (capacity : ℕ)
    (hcapacity : 1 ≤ capacity) (hreset : heap.resetChecked capacity = some start)
    (ops : List HeapOp) (hops : ∀ op ∈ ops, op.Allowed) :
    ∃ run, ops.foldlM (HeapRun.perform avx512f) ⟨start, [], []⟩ = some run ∧
      run.HoldsNearest capacity ∧ run.PopsNearest avx512f := by
  have hlimit : capacity ≤ vectorLimit ∧ start = heap.reset capacity := by
    rw [HeapBuffer.resetChecked] at hreset
    split at hreset
    · cases hreset
    · next hfits => exact ⟨Nat.not_lt.mp hfits, (Option.some.inj hreset).symm⟩
  obtain ⟨hfits, rfl⟩ := hlimit
  obtain ⟨run, hrun, hkeeps⟩ := (HeapRun.Keeps.start heap hcapacity hfits).performAll avx512f hops
  exact ⟨run, hrun, hkeeps.holdsNearest, hkeeps.popsNearest avx512f⟩

/-- The pushes of the source's own test, with a pop between them. -/
theorem minimax_heap_keeps_three : ∃ run,
    [HeapOp.push 0 ⟨false, 5⟩, .push 1 ⟨false, 1⟩, .popMin, .push 2 ⟨false, 3⟩, .push 3 ⟨false, 2⟩,
      .push 4 ⟨false, 8⟩].foldlM (HeapRun.perform false) ⟨HeapBuffer.empty.reset 3, [], []⟩ =
        some run ∧ run.HoldsNearest 3 ∧ run.PopsNearest false := by
  refine minimax_heap_keeps_nearest false HeapBuffer.empty _ 3 (by decide) rfl _ ?_
  intro op hop
  simp only [List.mem_cons, List.not_mem_nil, or_false] at hop
  rcases hop with rfl | rfl | rfl | rfl | rfl | rfl
  all_goals trivial

end ParqDB.Navigation
