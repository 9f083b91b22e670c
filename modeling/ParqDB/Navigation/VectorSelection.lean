import ParqDB.Navigation.HeapBuffers

/-!
# Candidate selection in vector registers

`find_min_position_scalar`, `count_below_scalar` and their AVX-512 counterparts
(`centroid_navigation/graph.rs`), over the two parallel vectors of the candidate heap.

* The scalar search goes through all slots from the last to the first.
* The vector search goes through chunks of sixteen lanes from the first to the last, takes the
  least distance of a chunk, and looks for the last lane that holds it; the slots behind the
  last whole chunk are searched as in the scalar one.

Both replace what they have found only by something nearer.  So of several slots at the least
distance the scalar search takes the last, and the vector search one in the first chunk that
has any: they agree when all of them are in one chunk (`SettlesTies`).

`_mm512_reduce_min_ps` compares the halves of a register lane by lane, and takes the lane of the
upper half unless the lower one is less, which matters for `-0.0` and `0.0` only.
-/

namespace ParqDB.Navigation

open Query (Distance)

/-- `EMPTY_NEIGHBOR`. -/
def emptyNeighbor : ℤ := -1

def idAt (ids : List ℤ) (position : ℕ) : ℤ := ids.getD position emptyNeighbor

def slotDistance (distances : List Distance) (position : ℕ) : Distance :=
  distances.getD position Distance.infinity

section

variable (ids : List ℤ) (distances : List Distance)

/-- The slot at the position holds a candidate that was not taken. -/
def Live (position : ℕ) : Prop := idAt ids position ≠ emptyNeighbor

instance : DecidablePred (Live ids) := fun _ => inferInstanceAs (Decidable (_ ≠ _))

/-! ## The scalar path -/

/-- The body of the scalar loops. -/
def considerSlot (found : Option ℕ × Distance) (candidate : ℕ) : Option ℕ × Distance :=
  if Live ids candidate ∧ (slotDistance distances candidate).value < found.2.value then
    (some candidate, slotDistance distances candidate)
  else found

/-- Goes through `remaining` slots from `offset` on, the last one first. -/
def scanDown (offset : ℕ) : ℕ → Option ℕ × Distance → Option ℕ × Distance
  | 0, found => found
  | remaining + 1, found =>
      scanDown offset remaining (considerSlot ids distances found (offset + remaining))

def findMinPositionScalar (length : ℕ) : Option ℕ :=
  (scanDown ids distances 0 length (none, Distance.infinity)).1

def countBelowScalar (length : ℕ) (threshold : Distance) : ℕ :=
  (distances.take length).countP fun candidate => candidate.value < threshold.value

/-! ## The vector path -/

/-- `MINPS`: the second operand unless the first is less. -/
def minPs (left right : Distance) : Distance := if left.value < right.value then left else right

/-- `_mm512_reduce_min_ps` for `2 ^ halvings` lanes. -/
def reduceMin : ℕ → List Distance → Distance
  | 0, lanes => lanes.headD Distance.infinity
  | halvings + 1, lanes =>
      reduceMin halvings
        (List.zipWith minPs (lanes.take (2 ^ halvings)) (lanes.drop (2 ^ halvings)))

/-- The lanes of a chunk, with infinity for those whose id is negative. -/
def maskedChunk (offset : ℕ) : List Distance :=
  (List.range 16).map fun lane =>
    if 0 ≤ idAt ids (offset + lane) then slotDistance distances (offset + lane)
    else Distance.infinity

def chunkMin (offset : ℕ) : Distance := reduceMin 4 (maskedChunk ids distances offset)

/-- Looks at the first lanes of a chunk for a distance, the last one first. -/
def pickLane (offset : ℕ) (wanted : Distance) : ℕ → Option ℕ
  | 0 => none
  | lane + 1 =>
      if Live ids (offset + lane) ∧ slotDistance distances (offset + lane) = wanted then
        some (offset + lane)
      else pickLane offset wanted lane

/-- The body of the vector loop. -/
def considerChunk (found : Option ℕ × Distance) (offset : ℕ) : Option ℕ × Distance :=
  let chunkBest := chunkMin ids distances offset
  if chunkBest.value < found.2.value then
    ((pickLane ids distances offset chunkBest 16).orElse fun _ => found.1, chunkBest)
  else found

/-- What is found in the first chunks. -/
def scanChunks : ℕ → Option ℕ × Distance
  | 0 => (none, Distance.infinity)
  | chunks + 1 => considerChunk ids distances (scanChunks chunks) (16 * chunks)

def findMinPositionAvx512 (length : ℕ) : Option ℕ :=
  let offset := 16 * (length / 16)
  (scanDown ids distances offset (length - offset) (scanChunks ids distances (length / 16))).1

/-- The lanes below the threshold in the first chunks. -/
def countChunks (threshold : Distance) : ℕ → ℕ
  | 0 => 0
  | chunks + 1 =>
      countChunks threshold chunks + ((distances.drop (16 * chunks)).take 16).countP
        fun candidate => candidate.value < threshold.value

def countBelowAvx512 (length : ℕ) (threshold : Distance) : ℕ :=
  let offset := 16 * (length / 16)
  countChunks distances threshold (length / 16) +
    countBelowScalar (distances.drop offset) (length - offset) threshold

/-! ## Slots at the least distance -/

/-- A live slot such that none of the first `length` ones is nearer. -/
structure Least (length position : ℕ) : Prop where
  lt : position < length
  live : Live ids position
  least : ∀ other < length, Live ids other →
    (slotDistance distances position).value ≤ (slotDistance distances other).value

/-- All slots at the least distance are in the chunk of the last one, and a whole chunk gives
the bits of the last one's distance as its least. -/
def SettlesTies (length : ℕ) : Prop :=
  ∀ last, Least ids distances length last →
    (∀ other, Least ids distances length other → other ≤ last) →
    (∀ other, Least ids distances length other → other / 16 = last / 16) ∧
      (last / 16 < length / 16 →
        chunkMin ids distances (16 * (last / 16)) = slotDistance distances last)

end

variable {ids : List ℤ} {distances : List Distance} {length position : ℕ}

/-! ## The least lane -/

theorem minPs_cases (left right : Distance) :
    (minPs left right = left ∨ minPs left right = right) ∧
      (minPs left right).value ≤ left.value ∧ (minPs left right).value ≤ right.value := by
  rw [minPs]
  split
  · next hless => exact ⟨Or.inl rfl, le_rfl, hless.le⟩
  · next hnot => exact ⟨Or.inr rfl, not_lt.mp hnot, le_rfl⟩

theorem reduceMin_spec {halvings : ℕ} {lanes : List Distance}
    (hlength : lanes.length = 2 ^ halvings) :
    reduceMin halvings lanes ∈ lanes ∧
      ∀ lane ∈ lanes, (reduceMin halvings lanes).value ≤ lane.value := by
  induction halvings generalizing lanes with
  | zero =>
      obtain ⟨lane, rfl⟩ := List.length_eq_one_iff.mp hlength
      simp [reduceMin]
  | succ halvings ih =>
      have hpow : 2 ^ (halvings + 1) = 2 ^ halvings + 2 ^ halvings := by
        rw [Nat.pow_succ, Nat.mul_two]
      have hlower : (lanes.take (2 ^ halvings)).length = 2 ^ halvings := by
        rw [List.length_take]
        omega
      have hupper : (lanes.drop (2 ^ halvings)).length = 2 ^ halvings := by
        rw [List.length_drop]
        omega
      have hhalves : (List.zipWith minPs (lanes.take (2 ^ halvings))
          (lanes.drop (2 ^ halvings))).length = 2 ^ halvings := by
        rw [List.length_zipWith, hlower, hupper, Nat.min_self]
      obtain ⟨hmem, hle⟩ := ih hhalves
      rw [reduceMin]
      constructor
      · obtain ⟨index, hindex, hvalue⟩ := List.mem_iff_getElem.mp hmem
        rw [List.getElem_zipWith] at hvalue
        rw [← hvalue]
        rcases (minPs_cases (lanes.take (2 ^ halvings))[index]
          (lanes.drop (2 ^ halvings))[index]).1 with hleft | hright
        · rw [hleft]
          exact List.mem_of_mem_take (List.getElem_mem _)
        · rw [hright]
          exact List.mem_of_mem_drop (List.getElem_mem _)
      · intro lane hlane
        rw [← List.take_append_drop (2 ^ halvings) lanes, List.mem_append] at hlane
        rcases hlane with hlane | hlane
        · obtain ⟨index, hindex, rfl⟩ := List.mem_iff_getElem.mp hlane
          refine (hle _ (List.getElem_mem (n := index) (by omega))).trans ?_
          rw [List.getElem_zipWith]
          exact (minPs_cases _ _).2.1
        · obtain ⟨index, hindex, rfl⟩ := List.mem_iff_getElem.mp hlane
          refine (hle _ (List.getElem_mem (n := index) (by omega))).trans ?_
          rw [List.getElem_zipWith]
          exact (minPs_cases _ _).2.2

theorem length_maskedChunk (ids : List ℤ) (distances : List Distance) (offset : ℕ) :
    (maskedChunk ids distances offset).length = 2 ^ 4 := by
  simp [maskedChunk]

/-- The ids in the source are `-1` or not negative. -/
def ValidIds (ids : List ℤ) : Prop := ∀ id ∈ ids, id = emptyNeighbor ∨ 0 ≤ id

theorem ValidIds.live_iff (hids : ValidIds ids) : Live ids position ↔ 0 ≤ idAt ids position := by
  by_cases hposition : position < ids.length
  · have hmem : idAt ids position ∈ ids := by
      rw [idAt, List.getD_eq_getElem _ _ hposition]
      exact List.getElem_mem hposition
    rcases hids _ hmem with hempty | hvalid
    · rw [Live, hempty]
      decide
    · refine iff_of_true (fun hempty => ?_) hvalid
      rw [hempty] at hvalid
      exact absurd hvalid (by decide)
  · have hempty : idAt ids position = emptyNeighbor :=
      List.getD_eq_default _ _ (Nat.not_lt.mp hposition)
    rw [Live, hempty]
    decide

/-- A live lane of a chunk is not nearer than its least, which is infinity or a live lane. -/
theorem chunkMin_spec (hids : ValidIds ids) (distances : List Distance) (offset : ℕ) :
    (∀ position, offset ≤ position → position < offset + 16 → Live ids position →
      (chunkMin ids distances offset).value ≤ (slotDistance distances position).value) ∧
    (chunkMin ids distances offset = Distance.infinity ∨
      ∃ position, offset ≤ position ∧ position < offset + 16 ∧ Live ids position ∧
        slotDistance distances position = chunkMin ids distances offset) := by
  obtain ⟨hmem, hle⟩ := reduceMin_spec (length_maskedChunk ids distances offset)
  constructor
  · intro position hfirst hlast hlive
    refine hle _ (List.mem_map.mpr ⟨position - offset, List.mem_range.mpr (by omega), ?_⟩)
    rw [Nat.add_sub_cancel' hfirst, if_pos (hids.live_iff.mp hlive)]
  · obtain ⟨lane, hlane, hvalue⟩ := List.mem_map.mp hmem
    rw [List.mem_range] at hlane
    split at hvalue
    · next hvalid =>
        exact Or.inr ⟨offset + lane, by omega, by omega, hids.live_iff.mpr hvalid, hvalue⟩
    · exact Or.inl hvalue.symm

/-! ## Going through slots -/

/-- What a search from the last slot to the first leaves: what was there, or the last of the
nearest live slots. -/
theorem scanDown_cases (ids : List ℤ) (distances : List Distance) (offset remaining : ℕ)
    (found : Option ℕ × Distance) :
    (scanDown ids distances offset remaining found = found ∧
      ∀ other, offset ≤ other → other < offset + remaining → Live ids other →
        found.2.value ≤ (slotDistance distances other).value) ∨
    ∃ position, scanDown ids distances offset remaining found =
        (some position, slotDistance distances position) ∧
      offset ≤ position ∧ position < offset + remaining ∧ Live ids position ∧
      (slotDistance distances position).value < found.2.value ∧
      ∀ other, offset ≤ other → other < offset + remaining → Live ids other →
        (slotDistance distances position).value ≤ (slotDistance distances other).value ∧
        (position < other →
          (slotDistance distances position).value < (slotDistance distances other).value) := by
  induction remaining generalizing found with
  | zero =>
      refine Or.inl ⟨rfl, fun other hfirst hlast => ?_⟩
      omega
  | succ remaining ih =>
      rw [scanDown]
      by_cases hnearer : Live ids (offset + remaining) ∧
          (slotDistance distances (offset + remaining)).value < found.2.value
      · rw [considerSlot, if_pos hnearer]
        rcases ih (some (offset + remaining), slotDistance distances (offset + remaining)) with
          ⟨hsame, hrest⟩ | ⟨position, hresult, hfirst, hlast, hlive, hless, hleast⟩
        · refine Or.inr ⟨offset + remaining, hsame, by omega, by omega, hnearer.1, hnearer.2, ?_⟩
          intro other hotherFirst hotherLast hotherLive
          refine ⟨?_, fun hafter => absurd hafter (by omega)⟩
          rcases Nat.lt_succ_iff_lt_or_eq.mp hotherLast with hlt | rfl
          · exact hrest other hotherFirst hlt hotherLive
          · exact le_rfl
        · refine Or.inr ⟨position, hresult, hfirst, by omega, hlive, hless.trans hnearer.2, ?_⟩
          intro other hotherFirst hotherLast hotherLive
          rcases Nat.lt_succ_iff_lt_or_eq.mp hotherLast with hlt | rfl
          · exact hleast other hotherFirst hlt hotherLive
          · exact ⟨hless.le, fun _ => hless⟩
      · rw [considerSlot, if_neg hnearer]
        have hhere : Live ids (offset + remaining) →
            found.2.value ≤ (slotDistance distances (offset + remaining)).value :=
          fun hlive => not_lt.mp fun hless => hnearer ⟨hlive, hless⟩
        rcases ih found with ⟨hsame, hrest⟩ | ⟨position, hresult, hfirst, hlast, hlive, hless, hleast⟩
        · refine Or.inl ⟨hsame, fun other hotherFirst hotherLast hotherLive => ?_⟩
          rcases Nat.lt_succ_iff_lt_or_eq.mp hotherLast with hlt | rfl
          · exact hrest other hotherFirst hlt hotherLive
          · exact hhere hotherLive
        · refine Or.inr ⟨position, hresult, hfirst, by omega, hlive, hless, ?_⟩
          intro other hotherFirst hotherLast hotherLive
          rcases Nat.lt_succ_iff_lt_or_eq.mp hotherLast with hlt | rfl
          · exact hleast other hotherFirst hlt hotherLive
          · have hfar := hless.trans_le (hhere hotherLive)
            exact ⟨hfar.le, fun _ => hfar⟩

theorem pickLane_cases (ids : List ℤ) (distances : List Distance) (offset : ℕ)
    (wanted : Distance) (lanes : ℕ) :
    (pickLane ids distances offset wanted lanes = none ∧
      ∀ other, offset ≤ other → other < offset + lanes → Live ids other →
        slotDistance distances other ≠ wanted) ∨
    ∃ position, pickLane ids distances offset wanted lanes = some position ∧
      offset ≤ position ∧ position < offset + lanes ∧ Live ids position ∧
      slotDistance distances position = wanted ∧
      ∀ other, offset ≤ other → other < offset + lanes → Live ids other →
        slotDistance distances other = wanted → other ≤ position := by
  induction lanes with
  | zero =>
      refine Or.inl ⟨rfl, fun other hfirst hlast => ?_⟩
      omega
  | succ lanes ih =>
      rw [pickLane]
      by_cases hhere : Live ids (offset + lanes) ∧ slotDistance distances (offset + lanes) = wanted
      · rw [if_pos hhere]
        exact Or.inr ⟨offset + lanes, rfl, by omega, by omega, hhere.1, hhere.2, by omega⟩
      · rw [if_neg hhere]
        rcases ih with ⟨hnone, hrest⟩ | ⟨position, hsome, hfirst, hlast, hlive, hwanted, hgreatest⟩
        · refine Or.inl ⟨hnone, fun other hotherFirst hotherLast hotherLive hother => ?_⟩
          rcases Nat.lt_succ_iff_lt_or_eq.mp hotherLast with hlt | rfl
          · exact hrest other hotherFirst hlt hotherLive hother
          · exact hhere ⟨hotherLive, hother⟩
        · refine Or.inr ⟨position, hsome, hfirst, by omega, hlive, hwanted, ?_⟩
          intro other hotherFirst hotherLast hotherLive hother
          rcases Nat.lt_succ_iff_lt_or_eq.mp hotherLast with hlt | rfl
          · exact hgreatest other hotherFirst hlt hotherLive hother
          · exact absurd ⟨hotherLive, hother⟩ hhere

/-- What the first chunks leave: nothing nearer than infinity, or the last of the slots that
hold the least of their chunk, in the first chunk that has a nearest slot. -/
theorem scanChunks_cases (hids : ValidIds ids) (distances : List Distance) (chunks : ℕ) :
    (scanChunks ids distances chunks = (none, Distance.infinity) ∧
      ∀ other < 16 * chunks, Live ids other →
        Distance.infinity.value ≤ (slotDistance distances other).value) ∨
    ∃ position, scanChunks ids distances chunks = (some position, slotDistance distances position) ∧
      position < 16 * chunks ∧ Live ids position ∧
      (slotDistance distances position).value < Distance.infinity.value ∧
      chunkMin ids distances (16 * (position / 16)) = slotDistance distances position ∧
      (∀ other < 16 * chunks, Live ids other →
        (slotDistance distances position).value ≤ (slotDistance distances other).value) ∧
      (∀ other < 16 * (position / 16), Live ids other →
        (slotDistance distances position).value < (slotDistance distances other).value) ∧
      ∀ other, other / 16 = position / 16 → Live ids other →
        slotDistance distances other = slotDistance distances position → other ≤ position := by
  induction chunks with
  | zero =>
      refine Or.inl ⟨rfl, fun other hother => ?_⟩
      omega
  | succ chunks ih =>
      obtain ⟨hlanes, hminimum⟩ := chunkMin_spec hids distances (16 * chunks)
      have hbest : (scanChunks ids distances chunks).2.value ≤ Distance.infinity.value := by
        rcases ih with ⟨hnone, -⟩ | ⟨position, hsome, -, -, hfinite, -⟩
        · rw [hnone]
        · rw [hsome]
          exact hfinite.le
      rw [scanChunks, considerChunk]
      by_cases hnearer : (chunkMin ids distances (16 * chunks)).value <
          (scanChunks ids distances chunks).2.value
      · -- the chunk has a nearer lane, and all earlier live slots are farther
        rw [if_pos hnearer]
        have hearlier : ∀ other < 16 * chunks, Live ids other →
            (chunkMin ids distances (16 * chunks)).value <
              (slotDistance distances other).value := by
          intro other hother hlive
          rcases ih with ⟨hnone, hrest⟩ | ⟨position, hsome, -, -, -, -, hleast, -⟩
          · rw [hnone] at hnearer
            exact hnearer.trans_le (hrest other hother hlive)
          · rw [hsome] at hnearer
            exact hnearer.trans_le (hleast other hother hlive)
        obtain ⟨lane, hlaneFirst, hlaneLast, hlaneLive, hlane⟩ := hminimum.resolve_left fun hinf => by
          rw [hinf] at hnearer
          exact absurd hnearer (not_lt.mpr hbest)
        rcases pickLane_cases ids distances (16 * chunks)
          (chunkMin ids distances (16 * chunks)) 16 with
          ⟨-, hnone⟩ | ⟨position, hsome, hfirst, hlast, hlive, hwanted, hgreatest⟩
        · exact absurd hlane (hnone lane hlaneFirst hlaneLast hlaneLive)
        · have hchunk : position / 16 = chunks := by omega
          refine Or.inr ⟨position, ?_, by omega, hlive, ?_, ?_, ?_, ?_, ?_⟩
          · rw [hsome, hwanted]
            rfl
          · rw [hwanted]
            exact hnearer.trans_le hbest
          · rw [hchunk, hwanted]
          · intro other hother hotherLive
            rw [hwanted]
            by_cases hbefore : other < 16 * chunks
            · exact (hearlier other hbefore hotherLive).le
            · exact hlanes other (by omega) (by omega) hotherLive
          · intro other hother hotherLive
            rw [hwanted]
            exact hearlier other (by omega) hotherLive
          · intro other hother hotherLive hsame
            exact hgreatest other (by omega) (by omega) hotherLive (hsame.trans hwanted)
      · rw [if_neg hnearer]
        have hchunk : ∀ other, 16 * chunks ≤ other → other < 16 * (chunks + 1) → Live ids other →
            (scanChunks ids distances chunks).2.value ≤ (slotDistance distances other).value :=
          fun other hfirst hlast hlive =>
            (not_lt.mp hnearer).trans (hlanes other hfirst (by omega) hlive)
        rcases ih with ⟨hnone, hrest⟩ |
          ⟨position, hsome, hlast, hlive, hfinite, hminimum, hleast, hearlier, hgreatest⟩
        · refine Or.inl ⟨hnone, fun other hother hotherLive => ?_⟩
          by_cases hbefore : other < 16 * chunks
          · exact hrest other hbefore hotherLive
          · have hfar := hchunk other (by omega) hother hotherLive
            rwa [hnone] at hfar
        · refine Or.inr ⟨position, hsome, by omega, hlive, hfinite, hminimum, ?_, hearlier,
            hgreatest⟩
          intro other hother hotherLive
          by_cases hbefore : other < 16 * chunks
          · exact hleast other hbefore hotherLive
          · have hfar := hchunk other (by omega) hother hotherLive
            rwa [hsome] at hfar

/-! ## What both paths find -/

/-- The distances of the slots are finite. -/
def FiniteSlots (distances : List Distance) (length : ℕ) : Prop :=
  ∀ position < length, (slotDistance distances position).Finite

theorem FiniteSlots.not_live (hfinite : FiniteSlots distances length) (hposition : position < length)
    (hfar : Live ids position → Distance.infinity.value ≤ (slotDistance distances position).value) :
    ¬ Live ids position := fun hlive =>
  absurd (hfar hlive) (not_le.mpr (Distance.value_lt_infinity (hfinite position hposition)))

theorem findMinPositionScalar_cases (ids : List ℤ) (hfinite : FiniteSlots distances length) :
    (findMinPositionScalar ids distances length = none ∧ ∀ other < length, ¬ Live ids other) ∨
    ∃ position, findMinPositionScalar ids distances length = some position ∧
      Least ids distances length position ∧
      ∀ other, Least ids distances length other → other ≤ position := by
  rw [findMinPositionScalar]
  rcases scanDown_cases ids distances 0 length (none, Distance.infinity) with
    ⟨hnone, hrest⟩ | ⟨position, hsome, -, hlast, hlive, -, hleast⟩
  · rw [hnone]
    exact Or.inl ⟨rfl, fun other hother =>
      hfinite.not_live hother (hrest other (Nat.zero_le other) (by omega))⟩
  · rw [hsome]
    refine Or.inr ⟨position, rfl, ⟨by omega, hlive, fun other hother hotherLive =>
      (hleast other (Nat.zero_le other) (by omega) hotherLive).1⟩, fun other hother => ?_⟩
    by_contra hafter
    have hfarther := (hleast other (Nat.zero_le other) (by have := hother.lt; omega) hother.live).2
      (by omega)
    exact absurd (hother.least position (by omega) hlive) (not_le.mpr hfarther)

/-- The vector path finds a nearest slot of the first chunk that has one: in a whole chunk the
last one that holds the chunk's least, behind the whole chunks the last one. -/
theorem findMinPositionAvx512_cases (hids : ValidIds ids) (hfinite : FiniteSlots distances length) :
    (findMinPositionAvx512 ids distances length = none ∧ ∀ other < length, ¬ Live ids other) ∨
    ∃ position, findMinPositionAvx512 ids distances length = some position ∧
      Least ids distances length position ∧
      (∀ other, Least ids distances length other → position / 16 ≤ other / 16) ∧
      (position / 16 = length / 16 →
        ∀ other, Least ids distances length other → other ≤ position) ∧
      (position / 16 < length / 16 →
        chunkMin ids distances (16 * (position / 16)) = slotDistance distances position ∧
        ∀ other, other / 16 = position / 16 → Live ids other →
          slotDistance distances other = slotDistance distances position → other ≤ position) := by
  have hwhole : 16 * (length / 16) ≤ length := Nat.mul_div_le length 16
  rw [findMinPositionAvx512]
  rcases scanDown_cases ids distances (16 * (length / 16))
    (length - 16 * (length / 16)) (scanChunks ids distances (length / 16)) with
    ⟨hsame, htail⟩ | ⟨position, hsome, hfirst, hlast, hlive, hnearer, hleast⟩
  · -- nothing nearer behind the whole chunks
    rw [hsame]
    rcases scanChunks_cases hids distances (length / 16) with
      ⟨hnone, hrest⟩ | ⟨position, hsome, hlast, hlive, -, hminimum, hleast, hearlier, hgreatest⟩
    · rw [hnone] at htail ⊢
      refine Or.inl ⟨rfl, fun other hother => hfinite.not_live hother fun hotherLive => ?_⟩
      by_cases hchunk : other < 16 * (length / 16)
      · exact hrest other hchunk hotherLive
      · exact htail other (by omega) (by omega) hotherLive
    · rw [hsome] at htail ⊢
      have hpositionLeast : Least ids distances length position := by
        refine ⟨by omega, hlive, fun other hother hotherLive => ?_⟩
        by_cases hchunk : other < 16 * (length / 16)
        · exact hleast other hchunk hotherLive
        · exact htail other (by omega) (by omega) hotherLive
      refine Or.inr ⟨position, rfl, hpositionLeast, fun other hother => ?_, fun hbehind => ?_,
        fun _ => ⟨hminimum, hgreatest⟩⟩
      · by_contra hbefore
        exact absurd (hother.least position hpositionLeast.lt hlive)
          (not_le.mpr (hearlier other (by omega) hother.live))
      · omega
  · -- the slots behind the whole chunks are nearer than all in them
    rw [hsome]
    have hchunks : ∀ other < 16 * (length / 16), Live ids other →
        (slotDistance distances position).value < (slotDistance distances other).value := by
      intro other hother hotherLive
      rcases scanChunks_cases hids distances (length / 16) with
        ⟨hnone, hrest⟩ | ⟨found, hfound, -, -, -, -, hfoundLeast, -⟩
      · rw [hnone] at hnearer
        exact hnearer.trans_le (hrest other hother hotherLive)
      · rw [hfound] at hnearer
        exact hnearer.trans_le (hfoundLeast other hother hotherLive)
    have hpositionLeast : Least ids distances length position := by
      refine ⟨by omega, hlive, fun other hother hotherLive => ?_⟩
      by_cases hchunk : other < 16 * (length / 16)
      · exact (hchunks other hchunk hotherLive).le
      · exact (hleast other (by omega) (by omega) hotherLive).1
    have hbehind : ∀ other, Least ids distances length other → 16 * (length / 16) ≤ other := by
      intro other hother
      by_contra hchunk
      exact absurd (hother.least position hpositionLeast.lt hlive)
        (not_le.mpr (hchunks other (by omega) hother.live))
    have htail : position / 16 = length / 16 := by omega
    refine Or.inr ⟨position, rfl, hpositionLeast, fun other hother => ?_, fun _ other hother => ?_,
      fun hchunk => absurd htail hchunk.ne⟩
    · have hother := hbehind other hother
      omega
    · by_contra hafter
      have hotherLast := hother.lt
      have hfarther := (hleast other (hbehind other hother) (by omega) hother.live).2 (by omega)
      exact absurd (hother.least position hpositionLeast.lt hlive) (not_le.mpr hfarther)

theorem findMinPosition_agree_iff (hids : ValidIds ids) (hfinite : FiniteSlots distances length) :
    findMinPositionAvx512 ids distances length = findMinPositionScalar ids distances length ↔
      SettlesTies ids distances length := by
  constructor
  · intro hagree last hlast hgreatest
    have hscalar : findMinPositionScalar ids distances length = some last := by
      rcases findMinPositionScalar_cases ids hfinite with
        ⟨-, hnone⟩ | ⟨position, hsome, hleast, hmost⟩
      · exact absurd hlast.live (hnone last hlast.lt)
      · rw [hsome, Nat.le_antisymm (hgreatest position hleast) (hmost last hlast)]
    rcases findMinPositionAvx512_cases hids hfinite with
      ⟨-, hnone⟩ | ⟨position, hsome, hleast, hfirst, -, hchunk⟩
    · exact absurd hlast.live (hnone last hlast.lt)
    · obtain rfl : position = last := by
        rw [hagree, hscalar] at hsome
        exact (Option.some.inj hsome).symm
      refine ⟨fun other hother => ?_, fun hwhole => (hchunk hwhole).1⟩
      have hbefore := hgreatest other hother
      have hafter := hfirst other hother
      omega
  · intro hsettles
    rcases findMinPositionScalar_cases ids hfinite with
      ⟨hnone, hdead⟩ | ⟨last, hlast, hleast, hgreatest⟩
    · rcases findMinPositionAvx512_cases hids hfinite with
        ⟨hvector, -⟩ | ⟨position, -, hposition, -⟩
      · rw [hvector, hnone]
      · exact absurd hposition.live (hdead position hposition.lt)
    · obtain ⟨hblock, hwhole⟩ := hsettles last hleast hgreatest
      rcases findMinPositionAvx512_cases hids hfinite with
        ⟨-, hdead⟩ | ⟨position, hposition, hpositionLeast, -, htail, hchunk⟩
      · exact absurd hleast.live (hdead last hleast.lt)
      · have hsame := hblock position hpositionLeast
        have hbefore := hgreatest position hpositionLeast
        rw [hlast, hposition]
        rcases Nat.lt_or_eq_of_le (Nat.div_le_div_right (c := 16) hpositionLeast.lt.le) with
          hlt | heq
        · obtain ⟨hminimum, hmost⟩ := hchunk hlt
          rw [hsame, hwhole (by omega)] at hminimum
          rw [Nat.le_antisymm hbefore (hmost last hsame.symm hleast.live hminimum)]
        · rw [Nat.le_antisymm hbefore (htail heq last hleast)]

/-! ## Counting -/

theorem countChunks_eq (threshold : Distance) (chunks : ℕ) :
    countChunks distances threshold chunks =
      (distances.take (16 * chunks)).countP fun candidate => candidate.value < threshold.value := by
  induction chunks with
  | zero => rfl
  | succ chunks ih =>
      rw [countChunks, ih, Nat.mul_succ, List.take_add, List.countP_append]

theorem countBelow_agree (distances : List Distance) (length : ℕ) (threshold : Distance) :
    countBelowAvx512 distances length threshold = countBelowScalar distances length threshold := by
  have hwhole : 16 * (length / 16) ≤ length := Nat.mul_div_le length 16
  rw [countBelowAvx512, countChunks_eq, countBelowScalar, countBelowScalar, ← List.countP_append,
    ← List.take_add, Nat.add_sub_cancel' hwhole]

end ParqDB.Navigation
