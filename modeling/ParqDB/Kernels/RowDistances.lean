import ParqDB.Kernels.ScalarRows

/-!
# The kernels agree

Without rounding, every kernel returns the sum of the squared differences over the dimensions,
and reads no byte outside the codes of the row and no value outside the query.

* `sum_whileFits`: a register loop adds the terms of the dimensions that it passes.
* `scorer_eq`: one row of one kernel.
* `row_kernels_sum_squares`: all rows of a validated view.
-/

namespace ParqDB.Kernels

open Foundations

variable {bits : LvqBits} {dimension : ℕ} {rowCodes : List UInt8} {rowOffset rowScale : ℚ}
  {query : List ℚ}

/-- What one dimension adds to the distance. -/
def squaredDelta (bits : LvqBits) (rowCodes : List UInt8) (rowOffset rowScale : ℚ)
    (query : List ℚ) (dimension : ℕ) : ℚ :=
  (query.getD dimension 0 -
    decodeCode rowOffset rowScale (codeAt bits rowCodes dimension).toNat) ^ 2

/-- The distance of the dimensions below one. -/
def partialDistance (bits : LvqBits) (rowCodes : List UInt8) (rowOffset rowScale : ℚ)
    (query : List ℚ) (stop : ℕ) : ℚ :=
  ∑ position ∈ Finset.range stop, squaredDelta bits rowCodes rowOffset rowScale query position

/-! ## Scalar loops -/

variable {index : ℕ}

section

variable (hcodes : rowCodes.length = bits.codeSize dimension)

include hcodes

/-- The byte of a dimension is one of the row's. -/
theorem codeAtPtr_eq (hindex : index < dimension) :
    codeAtPtr bits rowCodes index = some (codeAt bits rowCodes index) := by
  cases bits with
  | four =>
      have hbyte : index / 2 < rowCodes.length := by
        rw [hcodes]
        show index / 2 < (dimension + 1) / 2
        omega
      rw [codeAtPtr, Lanes.read_of_lt hbyte 0]
      rfl
  | eight => exact Lanes.read_of_lt (hcodes ▸ hindex) 0

theorem addDelta_eq (hquery : query.length = dimension) (hindex : index < dimension) (sum : ℚ) :
    addDelta bits rowCodes rowOffset rowScale query index sum =
      some (sum + squaredDelta bits rowCodes rowOffset rowScale query index) := by
  rw [addDelta, Lanes.read_of_lt (hquery ▸ hindex) 0, Checked.after_some,
    codeAtPtr_eq hcodes hindex, Checked.after_some, squaredDelta, pow_two]
  rfl

/-- The scalar loop completes the distance. -/
theorem addTail_eq (hquery : query.length = dimension) {start : ℕ} (hstart : start ≤ dimension) :
    addTail bits rowCodes rowOffset rowScale query start
        (partialDistance bits rowCodes rowOffset rowScale query start) =
      some (partialDistance bits rowCodes rowOffset rowScale query dimension) := by
  obtain ⟨stop, final, hloop, hfinal, hstop, hend⟩ := @Lanes.exists_whileFits _ 1 query.length
    Nat.one_pos (addDelta bits rowCodes rowOffset rowScale query)
    (fun index sum => sum = partialDistance bits rowCodes rowOffset rowScale query index)
    (fun index sum hfits hsum => by
      refine ⟨_, addDelta_eq hcodes hquery (by omega) sum, ?_⟩
      rw [hsum, partialDistance, partialDistance, Finset.sum_range_succ])
    start _ (hquery ▸ hstart) rfl
  have hall : stop = dimension := by omega
  rw [addTail, hloop, ← hall, ← hfinal]
  rfl

end

/-! ## Registers -/

/-- A register that holds the codes and the query values of the next dimensions. -/
theorem sum_addDeltas {n index : ℕ} {codes : Fin n → ℕ} {queryValues accumulated : Fin n → ℚ}
    (hcodes : ∀ lane : Fin n, codes lane = (codeAt bits rowCodes (index + lane)).toNat)
    (hquery : ∀ lane : Fin n, queryValues lane = query.getD (index + lane) 0)
    (haccumulated : ∑ lane, accumulated lane =
      partialDistance bits rowCodes rowOffset rowScale query index) :
    ∑ lane, addDeltas (Lanes.splat rowOffset) (Lanes.splat rowScale) codes queryValues
        accumulated lane =
      partialDistance bits rowCodes rowOffset rowScale query (index + n) := by
  have hlane : ∀ lane : Fin n, addDeltas (Lanes.splat rowOffset) (Lanes.splat rowScale) codes
      queryValues accumulated lane =
        accumulated lane + squaredDelta bits rowCodes rowOffset rowScale query (index + lane) := by
    intro lane
    have hdelta : queryValues lane - (rowScale * (codes lane : ℚ) + rowOffset) =
        query.getD (index + lane) 0 -
          decodeCode rowOffset rowScale (codeAt bits rowCodes (index + lane)).toNat := by
      rw [hquery, hcodes, add_comm (rowScale * _)]
      rfl
    rw [squaredDelta, ← hdelta, pow_two]
    rfl
  rw [Finset.sum_congr rfl fun lane _ => hlane lane]
  exact Lanes.sum_add_terms haccumulated fun _ => rfl

/-- Eight bytes unpack to the codes of sixteen dimensions, in order. -/
theorem unpackNibbles_eq {bytes : Fin 16 → UInt8} {index : ℕ} (heven : index % 2 = 0)
    (hbytes : ∀ lane : Fin 16, lane.val < 8 → bytes lane = rowCodes.getD (index / 2 + lane) 0)
    (lane : Fin 16) : unpackNibbles bytes lane = codeAt .four rowCodes (index + lane) := by
  have hbyte : bytes ⟨lane / 2, by omega⟩ = rowCodes.getD ((index + lane) / 2) 0 := by
    rw [hbytes _ (by simp only; omega)]
    congr 1
    simp only
    omega
  show (if lane.val % 2 = 0 then _ else _) = _
  rw [codeAt, ← hbyte]
  by_cases hlow : lane.val % 2 = 0
  · rw [if_pos hlow, if_pos (by omega)]
    rfl
  · rw [if_neg hlow, if_neg (by omega), Lanes.and_shiftRightWords]

/-- A loop over registers of `width` dimensions has added the dimensions that it passed. -/
theorem sum_whileFits {n width : ℕ} {hwidth : 0 < width}
    {step : ℕ → (Fin n → ℚ) → Option (Fin n → ℚ)} (heven : width % 2 = 0)
    (hstep : ∀ index accumulated, index + width ≤ dimension → index % 2 = 0 →
      ∑ lane, accumulated lane = partialDistance bits rowCodes rowOffset rowScale query index →
      ∃ next, step index accumulated = some next ∧ ∑ lane, next lane =
        partialDistance bits rowCodes rowOffset rowScale query (index + width)) :
    ∃ stop final, Lanes.whileFits width dimension hwidth step 0
        (Lanes.splat (Numbers.ofCode 0)) = some (stop, final) ∧ stop ≤ dimension ∧
      Lanes.sum (Numbers.ofCode 0) final =
        partialDistance bits rowCodes rowOffset rowScale query stop := by
  obtain ⟨stop, final, hloop, ⟨-, hsum⟩, hstop, -⟩ := @Lanes.exists_whileFits _ width dimension
    hwidth step
    (fun index accumulated => index % 2 = 0 ∧ ∑ lane, accumulated lane =
      partialDistance bits rowCodes rowOffset rowScale query index)
    (fun index accumulated hfits hkept => by
      obtain ⟨next, hnext, hsum⟩ := hstep index accumulated hfits hkept.1 hkept.2
      exact ⟨next, hnext, by omega, hsum⟩)
    0 (Lanes.splat (Numbers.ofCode 0)) (Nat.zero_le _)
    ⟨rfl, by
      have hzero : ∀ lane : Fin n, (Lanes.splat (Numbers.ofCode 0) : Fin n → ℚ) lane = 0 :=
        fun _ => Nat.cast_zero
      rw [Finset.sum_congr rfl fun lane _ => hzero lane, Finset.sum_const_zero, partialDistance,
        Finset.sum_range_zero]⟩
  refine ⟨stop, final, hloop, hstop, ?_⟩
  have hzero : (Numbers.ofCode 0 : ℚ) = 0 := Nat.cast_zero
  rw [← hsum, hzero]
  exact Lanes.sum_eq final

/-! ## One row -/

variable {accumulated : Fin 8 → ℚ}

theorem avx2StepEight_eq (hcodes : rowCodes.length = LvqBits.eight.codeSize dimension)
    (hquery : query.length = dimension) (hfits : index + 8 ≤ dimension)
    (haccumulated : ∑ lane, accumulated lane =
      partialDistance .eight rowCodes rowOffset rowScale query index) :
    ∃ next, avx2StepEight rowCodes (Lanes.splat rowOffset) (Lanes.splat rowScale) query index
        accumulated = some next ∧ ∑ lane, next lane =
      partialDistance .eight rowCodes rowOffset rowScale query (index + 8) := by
  have hlength : rowCodes.length = dimension := hcodes
  obtain ⟨bytes, hload, hbytes⟩ := @Lanes.loadLow_of_le rowCodes index (by omega)
  rw [avx2StepEight, hload, Checked.after_some, Lanes.load_of_le (by omega) 0, Checked.after_some]
  refine ⟨_, rfl, sum_addDeltas (fun lane => ?_) (fun _ => rfl) haccumulated⟩
  show (bytes (lane.castLE _)).toNat = _
  rw [hbytes _ lane.isLt]
  rfl

theorem avx2StepFour_eq (hcodes : rowCodes.length = LvqBits.four.codeSize dimension)
    (hquery : query.length = dimension) (hfits : index + 16 ≤ dimension) (heven : index % 2 = 0)
    (haccumulated : ∑ lane, accumulated lane =
      partialDistance .four rowCodes rowOffset rowScale query index) :
    ∃ next, avx2StepFour rowCodes (Lanes.splat rowOffset) (Lanes.splat rowScale) query index
        accumulated = some next ∧ ∑ lane, next lane =
      partialDistance .four rowCodes rowOffset rowScale query (index + 16) := by
  have hlength : rowCodes.length = (dimension + 1) / 2 := hcodes
  obtain ⟨bytes, hload, hbytes⟩ := @Lanes.loadLow_of_le rowCodes (index / 2) (by omega)
  have hcode := @unpackNibbles_eq rowCodes bytes index heven hbytes
  rw [avx2StepFour, hload, Checked.after_some]
  dsimp only
  rw [List.foldlM_cons, avx2HalfFour, Lanes.load_of_le (by omega) 0, Checked.after_some,
    Checked.after_some, List.foldlM_cons, avx2HalfFour, Lanes.load_of_le (by omega) 0,
    Checked.after_some, Checked.after_some]
  refine ⟨_, rfl, ?_⟩
  -- the second half starts eight dimensions behind the first
  have hfirst := @sum_addDeltas .four rowCodes rowOffset rowScale query 8 index
    (Lanes.widen (by decide) (unpackNibbles bytes))
    (fun lane => query.getD (index + 0 + lane) 0) accumulated
    (fun lane => congrArg UInt8.toNat (hcode (lane.castLE (by decide)))) (fun _ => rfl) haccumulated
  refine @sum_addDeltas .four rowCodes rowOffset rowScale query 8 (index + 8) _ _ _
    (fun lane => ?_) (fun _ => rfl) hfirst
  have hlane : lane.val + 8 < 16 := by omega
  show (Lanes.shiftLanesDown 8 (unpackNibbles bytes) (lane.castLE _)).toNat = _
  rw [Lanes.shiftLanesDown_of_lt hlane, hcode]
  show (codeAt .four rowCodes (index + (lane + 8))).toNat = _
  rw [Nat.add_comm lane.val 8, Nat.add_assoc]

theorem avx512Step_eq (hcodes : rowCodes.length = bits.codeSize dimension)
    (hquery : query.length = dimension) {accumulated : Fin 16 → ℚ} (hfits : index + 16 ≤ dimension)
    (heven : index % 2 = 0) (haccumulated : ∑ lane, accumulated lane =
      partialDistance bits rowCodes rowOffset rowScale query index) :
    ∃ next, avx512Step bits rowCodes (Lanes.splat rowOffset) (Lanes.splat rowScale) query index
        accumulated = some next ∧ ∑ lane, next lane =
      partialDistance bits rowCodes rowOffset rowScale query (index + 16) := by
  have hunpacked : ∃ unpacked, avx512Codes bits rowCodes index = some unpacked ∧
      ∀ lane : Fin 16, unpacked lane = (codeAt bits rowCodes (index + lane)).toNat := by
    cases bits with
    | eight =>
        have hlength : rowCodes.length = dimension := hcodes
        rw [avx512Codes, Lanes.load_of_le (by omega) 0]
        exact ⟨_, rfl, fun _ => rfl⟩
    | four =>
        have hlength : rowCodes.length = (dimension + 1) / 2 := hcodes
        obtain ⟨bytes, hload, hbytes⟩ := @Lanes.loadLow_of_le rowCodes (index / 2) (by omega)
        rw [avx512Codes, hload]
        exact ⟨_, rfl, fun lane => congrArg UInt8.toNat (unpackNibbles_eq heven hbytes lane)⟩
  obtain ⟨unpacked, hload, hcode⟩ := hunpacked
  rw [avx512Step, hload, Checked.after_some, Lanes.load_of_le (by omega) 0, Checked.after_some]
  exact ⟨_, rfl, sum_addDeltas hcode (fun _ => rfl) haccumulated⟩

theorem avx2Accumulate_eq (hcodes : rowCodes.length = bits.codeSize dimension)
    (hquery : query.length = dimension) :
    ∃ stop final, avx2Accumulate bits dimension rowCodes rowOffset rowScale query =
        some (stop, final) ∧ stop ≤ dimension ∧ Lanes.sum (Numbers.ofCode 0) final =
      partialDistance bits rowCodes rowOffset rowScale query stop := by
  cases bits with
  | eight => exact sum_whileFits (by decide) fun index accumulated hfits _ haccumulated =>
      avx2StepEight_eq hcodes hquery hfits haccumulated
  | four => exact sum_whileFits (by decide) fun index accumulated hfits heven haccumulated =>
      avx2StepFour_eq hcodes hquery hfits heven haccumulated

/-- Every kernel computes the distance, without leaving the row or the query. -/
theorem scorer_eq (backend : RowBackend) (hcodes : rowCodes.length = bits.codeSize dimension)
    (hquery : query.length = dimension) :
    backend.scorer bits dimension rowCodes rowOffset rowScale query =
      some (partialDistance bits rowCodes rowOffset rowScale query dimension) := by
  cases backend with
  | scalar =>
      have hzero : (Numbers.ofCode 0 : ℚ) =
          partialDistance bits rowCodes rowOffset rowScale query 0 := Nat.cast_zero
      show addTail bits rowCodes rowOffset rowScale query 0 (Numbers.ofCode 0) = _
      rw [hzero]
      exact addTail_eq hcodes hquery (Nat.zero_le _)
  | avx2 =>
      obtain ⟨stop, final, hloop, hstop, hsum⟩ :=
        @avx2Accumulate_eq bits dimension rowCodes rowOffset rowScale query hcodes hquery
      show lvqSquaredL2RowAvx2 bits dimension rowCodes rowOffset rowScale query = _
      rw [lvqSquaredL2RowAvx2, hloop, Checked.after_some]
      dsimp only
      rw [hsum]
      exact addTail_eq hcodes hquery hstop
  | avx512 =>
      obtain ⟨stop, final, hloop, hstop, hsum⟩ := @sum_whileFits bits dimension rowCodes rowOffset
        rowScale query 16 16 (by decide)
        (avx512Step bits rowCodes (Lanes.splat rowOffset) (Lanes.splat rowScale) query) (by decide)
        fun index accumulated hfits heven haccumulated =>
          avx512Step_eq hcodes hquery hfits heven haccumulated
      show lvqSquaredL2RowAvx512 bits dimension rowCodes rowOffset rowScale query = _
      rw [lvqSquaredL2RowAvx512, hloop, Checked.after_some]
      dsimp only
      rw [hsum]
      exact addTail_eq hcodes hquery hstop

/-! ## Views -/

/-- The squared distance of two vectors. -/
def squaredDistance (dimension : ℕ) (left right : List ℚ) : ℚ :=
  ∑ position ∈ Finset.range dimension, (left.getD position 0 - right.getD position 0) ^ 2

theorem getD_map_range {value : ℕ → ℚ} {count position : ℕ} (hposition : position < count) :
    ((List.range count).map value).getD position 0 = value position := by
  rw [List.getD_eq_getElem?_getD, List.getElem?_map, List.getElem?_range hposition]
  rfl

/-- What validation and the construction of its code rows say about a view. -/
structure LvqBatchView.Sound (view : LvqBatchView ℚ) : Prop where
  codes : view.codes.Filled
  count : view.codes.visited.length = view.rowCount
  size : view.codes.codeSize = view.bits.codeSize view.dimension

theorem sound_of_tryNewRows {codes : LvqCodeRows} {offsets scales : List ℚ}
    {view : LvqBatchView ℚ} (hcodes : codes.Pushed)
    (hview : LvqBatchView.tryNewRows bits dimension codes offsets scales = .ok view) :
    view.Sound ∧ view.bits = bits ∧ view.dimension = dimension := by
  unfold LvqBatchView.tryNewRows at hview
  split at hview
  · cases hview
  · split at hview
    · split at hview
      · cases hview
      · next hcount =>
          split at hview
          · cases hview
          · next hsize =>
              split at hview
              · cases hview
              · cases hview
                refine ⟨⟨hcodes.filled, ?_, not_not.mp hsize⟩, rfl, rfl⟩
                rw [← hcodes.filled.count]
                exact not_not.mp hcount
    · cases hview

namespace LvqBatchView.Sound

variable {view : LvqBatchView ℚ} {row : ℕ}

theorem row_lt (hview : view.Sound) (hrow : row < view.rowCount) :
    row < view.codes.visited.length := by
  rw [hview.count]
  exact hrow

theorem length_row (hview : view.Sound) (hrow : row < view.codes.visited.length) :
    view.codes.visited[row].length = view.bits.codeSize view.dimension := by
  rw [← hview.size]
  exact hview.codes.uniform _ (List.getElem_mem hrow)

/-- The row that is decoded is the row that is visited. -/
theorem row_eq (hview : view.Sound) (hrow : row < view.codes.visited.length) :
    view.codes.row row = view.codes.visited[row] :=
  (holds_of_visited hview.codes.count rfl rfl).row row hrow

/-- What the kernels sum up is the distance to the decoded row. -/
theorem exists_decodeRow (hview : view.Sound) (hrow : row < view.rowCount)
    (hvisited : row < view.codes.visited.length) :
    ∃ decoded, view.decodeRow row view.dimension = .ok decoded ∧
      decoded.length = view.dimension ∧
      partialDistance view.bits view.codes.visited[row]
        (view.offsets.getD row 0) (view.scales.getD row 0) query view.dimension =
          squaredDistance view.dimension query decoded := by
  have hoffset : view.offsets.getD row 0 = view.offsets.get ⟨row, hrow⟩ :=
    List.getD_eq_getElem _ _ hrow
  have hscale : view.scales.getD row 0 = view.scales.get ⟨row, view.lengths ▸ hrow⟩ :=
    List.getD_eq_getElem _ _ _
  unfold LvqBatchView.decodeRow
  rw [dif_pos hrow, if_neg (not_not.mpr rfl)]
  refine ⟨_, rfl, by rw [List.length_map, List.length_range], ?_⟩
  rw [← hview.row_eq hvisited, hoffset, hscale]
  refine Finset.sum_congr rfl fun position hposition => ?_
  rw [squaredDelta, getD_map_range (Finset.mem_range.mp hposition)]

variable {output : List ℚ}

/-- One visited row. -/
theorem scoreRow_eq (hview : view.Sound) (backend : RowBackend)
    (hquery : query.length = view.dimension) (hrow : row < view.codes.visited.length)
    (houtput : output.length = view.rowCount) :
    view.scoreRow backend query row view.codes.visited[row] output =
      some (output.set row (partialDistance view.bits view.codes.visited[row]
        (view.offsets.getD row 0) (view.scales.getD row 0) query view.dimension)) := by
  have hoffset : row < view.offsets.length := hrow.trans_eq hview.count
  rw [scoreRow, Lanes.read_of_lt hoffset 0, Checked.after_some,
    Lanes.read_of_lt (view.lengths ▸ hoffset) 0, Checked.after_some,
    scorer_eq backend (hview.length_row hrow) hquery, Checked.after_some,
    Checked.set_of_lt (by rw [houtput, ← hview.count]; exact hrow)]

/-- All rows, each of which is written once. -/
theorem exists_rowsWith (hview : view.Sound) (backend : RowBackend)
    (hquery : query.length = view.dimension) (houtput : output.length = view.rowCount) :
    ∃ distances, view.lvqSquaredL2RowsWith backend query output = some distances ∧
      distances.length = view.rowCount ∧
      ∀ row (hrow : row < view.codes.visited.length), distances[row]? =
        some (partialDistance view.bits view.codes.visited[row] (view.offsets.getD row 0)
          (view.scales.getD row 0) query view.dimension) := by
  obtain ⟨distances, hdistances, hlength, hwritten⟩ := hview.codes.exists_forEachRow
    (fun row output => output.length = view.rowCount ∧
      ∀ earlier (hearlier : earlier < view.codes.visited.length), earlier < row →
        output[earlier]? = some (partialDistance view.bits view.codes.visited[earlier]
          (view.offsets.getD earlier 0) (view.scales.getD earlier 0) query view.dimension))
    (fun row hrow state hstate => by
      refine ⟨_, hview.scoreRow_eq backend hquery hrow hstate.1, ?_, fun earlier hearlier hlt => ?_⟩
      · rw [List.length_set]
        exact hstate.1
      · by_cases hsame : earlier = row
        · subst hsame
          rw [List.getElem?_set_self (by rw [hstate.1, ← hview.count]; exact hearlier)]
        · rw [List.getElem?_set_ne (Ne.symm hsame)]
          exact hstate.2 earlier hearlier (by omega))
    output ⟨houtput, fun earlier _ hlt => absurd hlt (Nat.not_lt_zero _)⟩
  exact ⟨distances, hdistances, hlength, fun row hrow => hwritten row hrow hrow⟩

end LvqBatchView.Sound

/-! ## Encoded batches -/

/-- What the encoder says about its batch. -/
structure LvqEncodedBatch.Sound (batch : LvqEncodedBatch ℚ) : Prop where
  positive : 0 < batch.dimension
  lengths : batch.offsets.length = batch.scales.length
  codes : batch.codes.length =
    batch.offsets.length * batch.bits.codeSize batch.dimension

theorem sound_of_encodeLvqRows {values : List ℚ} {batch : LvqEncodedBatch ℚ}
    (hbatch : encodeLvqRows values dimension bits = .ok batch) :
    batch.Sound ∧ batch.bits = bits ∧ batch.dimension = dimension := by
  by_cases hdimension : dimension = 0
  · unfold encodeLvqRows at hbatch
    rw [if_pos hdimension] at hbatch
    cases hbatch
  · by_cases hcomplete : values.length % dimension = 0
    · obtain ⟨rows, huniform, rfl⟩ := exists_flatten (Nat.dvd_of_mod_eq_zero hcomplete)
      obtain ⟨-, encoded, hencoded, rfl⟩ :=
        (encodeLvqRows_flatten (Nat.pos_of_ne_zero hdimension) huniform).mp hbatch
      refine ⟨⟨Nat.pos_of_ne_zero hdimension, ?_, ?_⟩, rfl, rfl⟩
      · simp only [LvqEncodedBatch.ofRows, List.length_map]
      · have hsizes : Uniform (bits.codeSize dimension) (encoded.map EncodedRow.codes) := by
          intro codes hcodes
          obtain ⟨item, hitem, rfl⟩ := List.mem_map.mp hcodes
          obtain ⟨index, hindex, rfl⟩ := List.getElem_of_mem hitem
          have hlength := hencoded.rows.length_eq
          exact length_encodeRow (hencoded.rows.get (by omega) hindex)
        show (encoded.map EncodedRow.codes).flatten.length =
          (encoded.map EncodedRow.offset).length * bits.codeSize dimension
        rw [length_flatten hsizes, List.length_map, List.length_map]
    · unfold encodeLvqRows at hbatch
      rw [if_neg hdimension, if_pos hcomplete] at hbatch
      cases hbatch

namespace LvqEncodedBatch.Sound

variable {batch : LvqEncodedBatch ℚ} {row : ℕ}

theorem rows_eq (hbatch : batch.Sound) :
    batch.codes.length / batch.bits.codeSize batch.dimension = batch.offsets.length := by
  rw [hbatch.codes, Nat.mul_div_cancel _ (batch.bits.codeSize_pos hbatch.positive)]

/-- The view of a batch is as good as a validated one. -/
theorem asView (hbatch : batch.Sound) : (batch.asView hbatch.lengths).Sound := by
  have hsize := batch.bits.codeSize_pos hbatch.positive
  have hcodes : (batch.asView hbatch.lengths).codes =
      ⟨if batch.offsets.length = 0 then [] else
        [⟨batch.codes, batch.offsets.length, batch.bits.codeSize batch.dimension⟩],
        batch.offsets.length, batch.bits.codeSize batch.dimension⟩ := by
    simp only [LvqEncodedBatch.asView, LvqCodeRows.fromEncoded, hbatch.rows_eq]
  have hcount : (batch.asView hbatch.lengths).codes.visited.length = batch.offsets.length := by
    rw [hcodes]
    by_cases hempty : batch.offsets.length = 0
    · simp only [hempty, if_true, LvqCodeRows.visited, List.flatMap_nil, List.length_nil]
    · simp only [hempty, if_false, LvqCodeRows.visited, List.flatMap_singleton, List.length_map,
        List.length_range]
  refine ⟨⟨?_, fun span hspan => ?_, ?_⟩, hcount, ?_⟩
  · rw [hcodes]
    exact hsize
  · rw [hcodes] at hspan ⊢
    dsimp only at hspan ⊢
    split at hspan
    · cases hspan
    · next hrows =>
        rw [List.mem_singleton.mp hspan]
        refine ⟨Nat.pos_of_ne_zero hrows, Nat.le_refl _, ?_⟩
        dsimp only
        rw [hbatch.codes, ← Nat.succ_mul, Nat.succ_eq_add_one,
          Nat.sub_add_cancel (Nat.pos_of_ne_zero hrows)]
  · rw [hcount, hcodes]
  · rw [hcodes]
    rfl

/-- The bytes of a row are those that the view visits. -/
theorem encodedRowCodes_eq (hbatch : batch.Sound) (hrow : row < batch.offsets.length) :
    ∃ hvisited : row < (batch.asView hbatch.lengths).codes.visited.length,
      batch.encodedRowCodes row = some (batch.asView hbatch.lengths).codes.visited[row] := by
  have hvisited : row < (batch.asView hbatch.lengths).codes.visited.length :=
    hbatch.asView.row_lt hrow
  have hend : (row + 1) * batch.bits.codeSize batch.dimension ≤ batch.codes.length := by
    rw [hbatch.codes]
    exact Nat.mul_le_mul_right _ hrow
  refine ⟨hvisited, ?_⟩
  have hspan : (batch.asView hbatch.lengths).codes.visited =
      spanSlices (batch.bits.codeSize batch.dimension)
        ⟨batch.codes, batch.offsets.length, batch.bits.codeSize batch.dimension⟩ := by
    simp only [LvqEncodedBatch.asView, LvqCodeRows.fromEncoded, hbatch.rows_eq,
      LvqCodeRows.visited, if_neg (Nat.ne_of_gt (Nat.lt_of_le_of_lt (Nat.zero_le _) hrow)),
      List.flatMap_singleton, spanSlices]
  simp only [hspan, spanSlices, List.getElem_map, List.getElem_range]
  rw [LvqEncodedBatch.encodedRowCodes,
    Checked.slice_of_le (Nat.mul_le_mul_right _ (Nat.le_succ row)) hend, List.drop_take,
    Nat.succ_mul, Nat.add_sub_cancel_left]

theorem scoreRow_eq (hbatch : batch.Sound) (backend : RowBackend)
    (hquery : query.length = batch.dimension) (hrow : row < batch.offsets.length) :
    ∃ decoded, (batch.asView hbatch.lengths).decodeRow row batch.dimension = .ok decoded ∧
      decoded.length = batch.dimension ∧
      batch.scoreRow backend query row = some (squaredDistance batch.dimension query decoded) := by
  obtain ⟨hvisited, hcodes⟩ := hbatch.encodedRowCodes_eq hrow
  obtain ⟨decoded, hdecoded, hlength, hsum⟩ :=
    @LvqBatchView.Sound.exists_decodeRow query _ row hbatch.asView hrow hvisited
  refine ⟨decoded, hdecoded, hlength, ?_⟩
  rw [LvqEncodedBatch.scoreRow, hcodes, Checked.after_some, Lanes.read_of_lt hrow 0,
    Checked.after_some, Lanes.read_of_lt (hbatch.lengths ▸ hrow) 0, Checked.after_some]
  exact (scorer_eq backend (hbatch.asView.length_row hvisited) hquery).trans (congrArg some hsum)

end LvqEncodedBatch.Sound

/-! ## The kernels -/

theorem all_isFinite (values : List ℚ) : values.all Numbers.isFinite = true :=
  List.all_eq_true.mpr fun _ _ => rfl

/-- Every kernel returns, for every row of a validated view and for every row of an encoded batch,
the squared distance of the query and the decoded row.  No load leaves the row or the query. -/
theorem row_kernels_decode (backend : RowBackend) :
    (∀ {bits : LvqBits} {dimension : ℕ} {codes : LvqCodeRows} {offsets scales : List ℚ}
        {view : LvqBatchView ℚ} {query output : List ℚ}, codes.Pushed →
      LvqBatchView.tryNewRows bits dimension codes offsets scales = .ok view →
      query.length = dimension → output.length = view.rowCount →
      ∃ distances, view.lvqSquaredL2Rows backend query output = .ok (some distances) ∧
        distances.length = view.rowCount ∧
        ∀ row < view.rowCount, ∃ decoded, view.decodeRow row dimension = .ok decoded ∧
          decoded.length = dimension ∧
          distances[row]? = some (squaredDistance dimension query decoded)) ∧
    (∀ {bits : LvqBits} {dimension : ℕ} {values : List ℚ} {batch : LvqEncodedBatch ℚ}
        {query : List ℚ}, encodeLvqRows values dimension bits = .ok batch →
      query.length = dimension →
      ∃ lengths : batch.offsets.length = batch.scales.length,
        ∀ row < batch.offsets.length, ∃ decoded,
          (batch.asView lengths).decodeRow row dimension = .ok decoded ∧
          decoded.length = dimension ∧
          batch.squaredL2 backend query row =
            .ok (some (squaredDistance dimension query decoded))) := by
  constructor
  · intro bits dimension codes offsets scales view query output hcodes hview hquery houtput
    obtain ⟨hsound, -, rfl⟩ := sound_of_tryNewRows hcodes hview
    obtain ⟨distances, hdistances, hlength, hrows⟩ :=
      hsound.exists_rowsWith backend hquery houtput
    refine ⟨distances, ?_, hlength, fun row hrow => ?_⟩
    · unfold LvqBatchView.lvqSquaredL2Rows
      rw [if_neg (not_not.mpr hquery), all_isFinite, Bool.not_true, if_neg Bool.false_ne_true,
        if_neg (not_not.mpr houtput), hdistances]
    · obtain ⟨decoded, hdecoded, hdimension, hsum⟩ :=
        @LvqBatchView.Sound.exists_decodeRow query _ row hsound hrow
          (hsound.row_lt hrow)
      refine ⟨decoded, hdecoded, hdimension, ?_⟩
      rw [hrows row (hsound.row_lt hrow), hsum]
  · intro bits dimension values batch query hbatch hquery
    obtain ⟨hsound, -, rfl⟩ := sound_of_encodeLvqRows hbatch
    refine ⟨hsound.lengths, fun row hrow => ?_⟩
    obtain ⟨decoded, hdecoded, hdimension, hscore⟩ := hsound.scoreRow_eq backend hquery hrow
    refine ⟨decoded, hdecoded, hdimension, ?_⟩
    unfold LvqEncodedBatch.squaredL2
    rw [if_neg (not_not.mpr hquery), all_isFinite, Bool.not_true, if_neg Bool.false_ne_true,
      if_neg (Nat.not_le.mpr hrow), hscore]

/-- One LVQ4 row of seventeen dimensions, with the codes from 0 to 15 and then 1. -/
def countingRow : LvqCodeRows :=
  ⟨[⟨[0x10, 0x32, 0x54, 0x76, 0x98, 0xba, 0xdc, 0xfe, 0x01], 1, 9⟩], 1, 9⟩

/-- A register of sixteen dimensions and a tail of one. -/
theorem row_kernels_decode_counting :
    (∃ view distances, LvqBatchView.tryNewRows .four 17 countingRow [(0 : ℚ)] [1] = .ok view ∧
      view.lvqSquaredL2Rows .avx2 (List.replicate 17 0) [0] = .ok (some distances) ∧
      distances[0]? = some 1241) ∧
    ∃ batch, encodeLvqRows [(5 : ℚ), 5] 2 .eight = .ok batch ∧
      batch.squaredL2 .avx512 [3, 2] 0 = .ok (some 13) := by
  constructor
  · have hpushed : LvqCodeRows.pushSpan ⟨[], 0, 9⟩
        [0x10, 0x32, 0x54, 0x76, 0x98, 0xba, 0xdc, 0xfe, 0x01] 1 9 = .ok countingRow := rfl
    have hcodes : countingRow.Pushed := .push (@LvqCodeRows.Pushed.new 9 ⟨[], 0, 9⟩ rfl) hpushed
    have hview : LvqBatchView.tryNewRows .four 17 countingRow [(0 : ℚ)] [1] =
        .ok ⟨.four, 17, countingRow, [0], [1], rfl⟩ := rfl
    have hquery : (List.replicate 17 (0 : ℚ)).length = 17 := List.length_replicate
    have houtput : [(0 : ℚ)].length = LvqBatchView.rowCount
      (⟨.four, 17, countingRow, [0], [1], rfl⟩ : LvqBatchView ℚ) := rfl
    obtain ⟨distances, hdistances, -, hrows⟩ :=
      (row_kernels_decode .avx2).1 hcodes hview hquery houtput
    obtain ⟨decoded, hdecoded, -, hdistance⟩ := hrows 0 (by decide)
    refine ⟨_, distances, hview, hdistances, ?_⟩
    rw [hdistance]
    cases hdecoded
    decide +kernel
  · have hbatch : encodeLvqRows [(5 : ℚ), 5] 2 .eight = .ok ⟨.eight, 2, [0, 0], [5], [0]⟩ := by
      decide +kernel
    have hquery : [(3 : ℚ), 2].length = 2 := rfl
    obtain ⟨lengths, hrows⟩ := (row_kernels_decode .avx512).2 hbatch hquery
    obtain ⟨decoded, hdecoded, -, hdistance⟩ := hrows 0 (by decide)
    have hrow : (LvqEncodedBatch.asView ⟨.eight, 2, [0, 0], [(5 : ℚ)], [0]⟩ rfl).decodeRow 0 2 =
        .ok [5, 5] := by decide +kernel
    cases hdecoded.symm.trans hrow
    refine ⟨_, hbatch, ?_⟩
    rw [hdistance]
    decide +kernel

end ParqDB.Kernels
