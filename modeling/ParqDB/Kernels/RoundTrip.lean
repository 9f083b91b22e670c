import ParqDB.Kernels.Buffers

/-!
# Encoding and decoding a matrix of rationals

Every matrix encodes to buffers that the view accepts.  Decoding reproduces the smallest
and the greatest value of a row, is within half a step of all others and keeps their order;
encoding what was decoded gives the same buffers.

**Strategy.**  `encodeRow_eq_ok` says what an encoded row is; `decodedRow` is what the
decoder makes of it.  The rest lifts both from rows to flat buffers.
-/

namespace ParqDB.Kernels

open Foundations

variable {bits : LvqBits} {dimension : ℕ}

theorem LvqBits.levels_pos (bits : LvqBits) : 0 < bits.levels := by
  cases bits <;> decide

theorem LvqBits.levels_le (bits : LvqBits) : bits.levels ≤ 255 := by
  cases bits <;> decide

/-! ## Rows -/

section

variable {vector : List ℚ} {encoded : EncodedRow ℚ}

/-- What an encoded row holds. -/
theorem exists_of_encodeRow {codeSize : ℕ}
    (hencoded : encodeRow bits codeSize vector = .ok encoded) :
    ∃ upper, vector.min? = some encoded.offset ∧ vector.max? = some upper ∧
      encoded.scale = (upper - encoded.offset) / bits.levels ∧
      encoded.codes = if encoded.scale = 0 then List.replicate codeSize 0
        else packCodes bits codeSize (vector.map fun value =>
          quantizeValue value encoded.offset (upper - encoded.offset) bits.levels) := by
  obtain ⟨upper, hlower, hupper, -, hscale, hcodes⟩ := encodeRow_eq_ok.mp hencoded
  refine ⟨upper, hlower, hupper, hscale, ?_⟩
  rw [hcodes]
  exact if_congr decide_eq_true_iff rfl rfl

theorem exists_encodeRow (codeSize : ℕ) (hvector : vector ≠ []) :
    ∃ encoded, encodeRow bits codeSize vector = .ok encoded := by
  obtain ⟨offset, hlower⟩ := Option.ne_none_iff_exists'.mp
    (fun hnone => hvector (List.min?_eq_none_iff.mp hnone))
  obtain ⟨upper, hupper⟩ := Option.ne_none_iff_exists'.mp
    (fun hnone => hvector (List.max?_eq_none_iff.mp hnone))
  unfold encodeRow
  rw [hlower, hupper]
  exact ⟨_, rfl⟩

variable {offset upper value range : ℚ}

/-- The values between the smallest and the greatest one. -/
theorem inRange_of_mem (hlower : vector.min? = some offset) (hupper : vector.max? = some upper)
    (hvalue : value ∈ vector) : InRange offset (upper - offset) value := by
  have hleast := (List.min?_eq_some_iff.mp hlower).2 value hvalue
  have hgreatest := (List.max?_eq_some_iff.mp hupper).2 value hvalue
  exact ⟨hleast, by linarith⟩

/-- The codes of a row: all zero if the row is constant. -/
def rowCodes (bits : LvqBits) (offset range : ℚ) (vector : List ℚ) : List UInt8 :=
  vector.map fun value => if range = 0 then 0 else quantizeValue value offset range bits.levels

theorem scale_eq_zero_iff : range / (bits.levels : ℚ) = 0 ↔ range = 0 := by
  have hlevels : (bits.levels : ℚ) ≠ 0 := by exact_mod_cast bits.levels_pos.ne'
  rw [div_eq_zero_iff]
  exact or_iff_left hlevels

/-- The codes are where `code_at` looks for them. -/
theorem packed_encodeRow (hencoded : encodeRow bits (bits.codeSize dimension) vector = .ok encoded)
    (hlength : vector.length = dimension) (hlower : vector.min? = some encoded.offset)
    (hupper : vector.max? = some upper) :
    Packed bits (bits.codeSize dimension) (rowCodes bits encoded.offset (upper - encoded.offset)
      vector) encoded.codes := by
  obtain ⟨other, -, hother, hscale, hcodes⟩ := exists_of_encodeRow hencoded
  rw [hupper, Option.some.injEq] at hother
  subst hother
  rw [hcodes]
  by_cases hconstant : upper - encoded.offset = 0
  · rw [if_pos (by rw [hscale, hconstant, zero_div])]
    have hzeroed := Packed.zeroed bits (bits.codeSize dimension)
    refine ⟨hzeroed.length, fun position => ?_⟩
    rw [hzeroed.codes position, rowCodes, hconstant]
    simp only [if_true, List.map_const', getD_zeroed, List.getD_nil]
  · rw [if_neg (by rw [hscale, scale_eq_zero_iff]; exact hconstant)]
    have hpositive : 0 < upper - encoded.offset := by
      have hmem := (List.max?_eq_some_iff.mp hupper).1
      have hle := (List.min?_eq_some_iff.mp hlower).2 upper hmem
      exact lt_of_le_of_ne (sub_nonneg.mpr hle) (Ne.symm hconstant)
    have hsame : (vector.map fun value => quantizeValue value encoded.offset
        (upper - encoded.offset) bits.levels) =
          rowCodes bits encoded.offset (upper - encoded.offset) vector := by
      simp only [rowCodes, if_neg hconstant]
    rw [hsame]
    apply packed_packCodes
    · rw [rowCodes, List.length_map, hlength]
    · intro code hcode
      obtain ⟨value, hvalue, rfl⟩ := List.mem_map.mp hcode
      rw [if_neg hconstant]
      exact toNat_quantizeValue_le hpositive bits.levels_le (inRange_of_mem hlower hupper hvalue)

/-- The decoded value of a source value. -/
def decodedValue (bits : LvqBits) (offset range value : ℚ) : ℚ :=
  if range = 0 then offset
  else dequantize offset range bits.levels (quantizeValue value offset range bits.levels)

theorem decodedRow_eq_map (hencoded : encodeRow bits (bits.codeSize dimension) vector = .ok encoded)
    (hlength : vector.length = dimension) (hlower : vector.min? = some encoded.offset)
    (hupper : vector.max? = some upper) :
    decodedRow bits dimension encoded =
      vector.map (decodedValue bits encoded.offset (upper - encoded.offset)) := by
  have hpacked := packed_encodeRow hencoded hlength hlower hupper
  obtain ⟨other, -, hother, hscale, -⟩ := exists_of_encodeRow hencoded
  rw [hupper, Option.some.injEq] at hother
  subst hother
  apply List.ext_getElem
  · simp [decodedRow, hlength]
  · intro position hposition hvalue
    have hbound : position < vector.length := by simpa using hvalue
    have hcode : (rowCodes bits encoded.offset (upper - encoded.offset) vector).getD position 0 =
        if upper - encoded.offset = 0 then 0
        else quantizeValue vector[position] encoded.offset (upper - encoded.offset) bits.levels := by
      rw [List.getD_eq_getElem _ _ (by simpa [rowCodes] using hbound)]
      simp [rowCodes]
    simp only [decodedRow, List.getElem_map, List.getElem_range]
    rw [hpacked.codes position, hcode, hscale, decodedValue]
    split
    · next hconstant =>
        rw [hconstant, zero_div]
        show encoded.offset + 0 * (((0 : UInt8).toNat : ℕ) : ℚ) = encoded.offset
        rw [zero_mul, add_zero]
    · rfl

/-- The decoded values lie in the range, and the ends of the range are exact. -/
theorem decodedValue_spec (hrange : 0 ≤ range) (hvalue : InRange offset range value) :
    InRange offset range (decodedValue bits offset range value) ∧
      |decodedValue bits offset range value - value| ≤ range / bits.levels / 2 := by
  unfold decodedValue
  split
  · next hconstant =>
      have hsame : value = offset := by linarith [hvalue.lower, hvalue.upper]
      rw [hconstant, hsame, sub_self, abs_zero, zero_div, zero_div]
      exact ⟨⟨le_refl _, (add_zero offset).ge⟩, le_refl _⟩
  · next hvaried =>
      have hpositive : 0 < range := lt_of_le_of_ne hrange (Ne.symm hvaried)
      exact ⟨(quantizeValue_dequantize hpositive bits.levels_pos bits.levels_le
          (toNat_quantizeValue_le hpositive bits.levels_le hvalue)).1,
        abs_dequantize_sub_le hpositive bits.levels_pos bits.levels_le hvalue⟩

theorem decodedValue_offset (bits : LvqBits) (hrange : 0 ≤ range) :
    decodedValue bits offset range offset = offset := by
  unfold decodedValue
  split
  · rfl
  · next hvaried =>
      exact dequantize_quantize_offset (lt_of_le_of_ne hrange (Ne.symm hvaried)) bits.levels_le

theorem decodedValue_upper (bits : LvqBits) (hrange : 0 ≤ range) :
    decodedValue bits offset range (offset + range) = offset + range := by
  unfold decodedValue
  split
  · next hconstant => rw [hconstant, add_zero]
  · next hvaried =>
      exact dequantize_quantize_upper (lt_of_le_of_ne hrange (Ne.symm hvaried)) bits.levels_pos
        bits.levels_le

theorem decodedValue_mono {other : ℚ} (hrange : 0 ≤ range) (hvalue : InRange offset range value)
    (hother : InRange offset range other) (hle : value ≤ other) :
    decodedValue bits offset range value ≤ decodedValue bits offset range other := by
  unfold decodedValue
  split
  · exact le_refl _
  · next hvaried =>
      exact dequantize_mono (lt_of_le_of_ne hrange (Ne.symm hvaried)) bits.levels_le hvalue hother
        hle

/-- Encoding a decoded row gives the encoded row back. -/
theorem encodeRow_decodedRow
    (hencoded : encodeRow bits (bits.codeSize dimension) vector = .ok encoded)
    (hlength : vector.length = dimension) :
    encodeRow bits (bits.codeSize dimension) (decodedRow bits dimension encoded) =
      .ok encoded := by
  obtain ⟨upper, hlower, hupper, hscale, hcodes⟩ := exists_of_encodeRow hencoded
  obtain ⟨hoffsetMem, hleast⟩ := List.min?_eq_some_iff.mp hlower
  obtain ⟨hupperMem, hgreatest⟩ := List.max?_eq_some_iff.mp hupper
  have hrange : 0 ≤ upper - encoded.offset := sub_nonneg.mpr (hleast upper hupperMem)
  have hdecoded := decodedRow_eq_map hencoded hlength hlower hupper
  have hinRange : ∀ value ∈ decodedRow bits dimension encoded,
      InRange encoded.offset (upper - encoded.offset) value := by
    intro value hvalue
    rw [hdecoded] at hvalue
    obtain ⟨source, hsource, rfl⟩ := List.mem_map.mp hvalue
    exact (decodedValue_spec hrange (inRange_of_mem hlower hupper hsource)).1
  have hlowerDecoded : (decodedRow bits dimension encoded).min? = some encoded.offset := by
    apply List.min?_eq_some_iff.mpr
    refine ⟨?_, fun value hvalue => (hinRange value hvalue).lower⟩
    rw [hdecoded]
    exact List.mem_map.mpr ⟨encoded.offset, hoffsetMem, decodedValue_offset bits hrange⟩
  have hupperDecoded : (decodedRow bits dimension encoded).max? = some upper := by
    apply List.max?_eq_some_iff.mpr
    refine ⟨?_, fun value hvalue => by linarith [(hinRange value hvalue).upper]⟩
    rw [hdecoded]
    refine List.mem_map.mpr ⟨upper, hupperMem, ?_⟩
    have hexact : decodedValue bits encoded.offset (upper - encoded.offset)
        (encoded.offset + (upper - encoded.offset)) = _ := decodedValue_upper bits hrange
    rwa [add_sub_cancel] at hexact
  refine encodeRow_eq_ok.mpr ⟨upper, hlowerDecoded, hupperDecoded, rfl, hscale, ?_⟩
  have hcodesDecoded : encoded.codes = if encoded.scale = 0
      then List.replicate (bits.codeSize dimension) 0
      else packCodes bits (bits.codeSize dimension) ((decodedRow bits dimension encoded).map
        fun value => quantizeValue value encoded.offset (upper - encoded.offset) bits.levels) := by
    by_cases hconstant : encoded.scale = 0
    · rw [hcodes, if_pos hconstant, if_pos hconstant]
    · rw [hcodes, if_neg hconstant, if_neg hconstant, hdecoded, List.map_map]
      have hvaried : upper - encoded.offset ≠ 0 := by
        rw [hscale, scale_eq_zero_iff] at hconstant
        exact hconstant
      have hpositive := lt_of_le_of_ne hrange (Ne.symm hvaried)
      congr 1
      apply List.map_congr_left
      intro value hvalue
      have hbound := toNat_quantizeValue_le hpositive bits.levels_le
        (inRange_of_mem hlower hupper hvalue)
      rw [Function.comp_apply, decodedValue, if_neg hvaried]
      exact (quantizeValue_dequantize hpositive bits.levels_pos bits.levels_le hbound).2.symm
  rw [hcodesDecoded]
  exact (if_congr decide_eq_true_iff rfl rfl).symm

end

/-! ## Buffers -/

variable {encoded : List (EncodedRow ℚ)} {rows : List (List ℚ)}

/-- Every encoded row comes from a source row. -/
theorem EncodedRows.exists_source (hrows : EncodedRows bits dimension rows encoded) :
    ∀ item ∈ encoded, ∃ row, row.length = dimension ∧
      encodeRow bits (bits.codeSize dimension) row = .ok item := by
  intro item hitem
  obtain ⟨index, hindex, rfl⟩ := List.mem_iff_getElem.mp hitem
  have hsource : index < rows.length := by
    rw [hrows.rows.length_eq]
    exact hindex
  exact ⟨rows[index], hrows.uniform _ (List.getElem_mem hsource), hrows.rows.get hsource hindex⟩

/-- The checks of a row pass. -/
theorem rowError_eq_none {row : List ℚ} {item : EncodedRow ℚ}
    (hrow : encodeRow bits (bits.codeSize dimension) row = .ok item)
    (hlength : row.length = dimension) :
    LvqBatchView.rowError bits dimension (item.codes, item.offset, item.scale) = none := by
  obtain ⟨upper, hlower, hupper, hscale, hcodes⟩ := exists_of_encodeRow hrow
  have hpacked := packed_encodeRow hrow hlength hlower hupper
  have hnonneg : 0 ≤ item.scale := by
    have hmem := (List.max?_eq_some_iff.mp hupper).1
    have hle := (List.min?_eq_some_iff.mp hlower).2 upper hmem
    rw [hscale]
    exact div_nonneg (sub_nonneg.mpr hle) (Nat.cast_nonneg _)
  have hfinite : LvqBatchView.definesFinite bits item.offset item.scale = true := by
    have hnegative : Numbers.isNegative item.scale = false := decide_eq_false (not_lt.mpr hnonneg)
    rw [LvqBatchView.definesFinite, hnegative]
    rfl
  unfold LvqBatchView.rowError
  dsimp only
  rw [hfinite, if_neg (by decide), if_neg, if_neg]
  · rintro ⟨rfl, hodd, last, hlast, hused⟩
    exact hused (hpacked.unused_nibble (by rw [rowCodes, List.length_map, hlength]) hodd hlast)
  · rintro ⟨hconstant, code, hcode, hnonzero⟩
    rw [hcodes, if_pos (of_decide_eq_true hconstant)] at hcode
    exact hnonzero (List.eq_of_mem_replicate hcode)

/-! ## The round trip -/

/-- What decoding the stored form of a row gives. -/
structure RowRoundTrip (bits : LvqBits) (source : List ℚ) (stored : List UInt8) (scale : ℚ)
    (decoded : List ℚ) : Prop where
  codes : ∃ lower upper, source.min? = some lower ∧ source.max? = some upper ∧
    ∀ position (hposition : position < source.length), codeAt bits stored position =
      if upper - lower = 0 then 0
      else quantizeValue source[position] lower (upper - lower) bits.levels
  length : decoded.length = source.length
  ends : ∀ pair ∈ source.zip decoded,
    (∀ value ∈ source, pair.1 ≤ value) ∨ (∀ value ∈ source, value ≤ pair.1) → pair.2 = pair.1
  near : ∀ pair ∈ source.zip decoded, |pair.2 - pair.1| ≤ scale / 2
  monotone : ∀ left ∈ source.zip decoded, ∀ right ∈ source.zip decoded, left.1 ≤ right.1 →
    left.2 ≤ right.2

theorem rowRoundTrip_of_encodeRow {source : List ℚ} {encoded : EncodedRow ℚ}
    (hencoded : encodeRow bits (bits.codeSize dimension) source = .ok encoded)
    (hlength : source.length = dimension) :
    RowRoundTrip bits source encoded.codes encoded.scale (decodedRow bits dimension encoded) := by
  obtain ⟨upper, hlower, hupper, hscale, -⟩ := exists_of_encodeRow hencoded
  obtain ⟨hoffsetMem, hleast⟩ := List.min?_eq_some_iff.mp hlower
  obtain ⟨hupperMem, hgreatest⟩ := List.max?_eq_some_iff.mp hupper
  have hrange : 0 ≤ upper - encoded.offset := sub_nonneg.mpr (hleast upper hupperMem)
  have hdecoded := decodedRow_eq_map hencoded hlength hlower hupper
  have hpacked := packed_encodeRow hencoded hlength hlower hupper
  have hpair : ∀ pair ∈ source.zip (decodedRow bits dimension encoded), pair.1 ∈ source ∧
      pair.2 = decodedValue bits encoded.offset (upper - encoded.offset) pair.1 := by
    intro pair hpair
    rw [hdecoded, ← List.map_prod_left_eq_zip] at hpair
    obtain ⟨value, hvalue, rfl⟩ := List.mem_map.mp hpair
    exact ⟨hvalue, rfl⟩
  refine ⟨⟨encoded.offset, upper, hlower, hupper, fun position hposition => ?_⟩, ?_, ?_, ?_, ?_⟩
  · rw [hpacked.codes position, List.getD_eq_getElem _ _ (by simpa [rowCodes] using hposition)]
    simp [rowCodes]
  · rw [hdecoded, List.length_map]
  · intro pair hmem hend
    obtain ⟨hsource, hvalue⟩ := hpair pair hmem
    rcases hend with hsmallest | hgreatestOf
    · have heq : pair.1 = encoded.offset :=
        le_antisymm (hsmallest _ hoffsetMem) (hleast _ hsource)
      rw [hvalue, heq]
      exact decodedValue_offset bits hrange
    · have heq : pair.1 = encoded.offset + (upper - encoded.offset) := by
        rw [add_sub_cancel]
        exact le_antisymm (hgreatest _ hsource) (hgreatestOf _ hupperMem)
      rw [hvalue, heq]
      exact decodedValue_upper bits hrange
  · intro pair hmem
    obtain ⟨hsource, hvalue⟩ := hpair pair hmem
    rw [hvalue, hscale]
    exact (decodedValue_spec hrange (inRange_of_mem hlower hupper hsource)).2
  · intro left hleft right hright hle
    obtain ⟨hleftSource, hleftValue⟩ := hpair left hleft
    obtain ⟨hrightSource, hrightValue⟩ := hpair right hright
    rw [hleftValue, hrightValue]
    exact decodedValue_mono hrange (inRange_of_mem hlower hupper hleftSource)
      (inRange_of_mem hlower hupper hrightSource) hle

/-- The rows of a matrix encode. -/
theorem exists_encodedRows (bits : LvqBits) (hdimension : 0 < dimension)
    (huniform : Uniform dimension rows) : ∃ encoded, EncodedRows bits dimension rows encoded := by
  suffices hexists : ∃ encoded, List.Forall₂
      (fun row item => encodeRow bits (bits.codeSize dimension) row = .ok item) rows encoded by
    obtain ⟨encoded, hencoded⟩ := hexists
    exact ⟨encoded, huniform, hencoded⟩
  induction rows with
  | nil => exact ⟨[], List.Forall₂.nil⟩
  | cons row rows ih =>
      obtain ⟨hlength, hrest⟩ := huniform.of_cons
      have hnonempty : row ≠ [] := List.ne_nil_of_length_pos (by omega)
      obtain ⟨item, hitem⟩ := @exists_encodeRow bits row (bits.codeSize dimension) hnonempty
      obtain ⟨encoded, hencoded⟩ := ih hrest
      exact ⟨item :: encoded, List.Forall₂.cons hitem hencoded⟩

/-- Decoding all rows, and encoding the result. -/
theorem EncodedRows.decoded (hrows : EncodedRows bits dimension rows encoded) :
    EncodedRows bits dimension (encoded.map (decodedRow bits dimension)) encoded := by
  refine ⟨?_, ?_⟩
  · intro row hrow
    obtain ⟨item, -, rfl⟩ := List.mem_map.mp hrow
    simp [decodedRow]
  · rw [List.forall₂_map_left_iff, List.forall₂_same]
    intro item hitem
    obtain ⟨source, hlength, hsource⟩ := hrows.exists_source item hitem
    exact encodeRow_decodedRow hsource hlength

/-- The view of an encoded matrix, and what it decodes. -/
theorem EncodedRows.exists_view (hrows : EncodedRows bits dimension rows encoded)
    (hdimension : 0 < dimension) :
    ∃ codes, codes.Holds (bits.codeSize dimension) (encoded.map EncodedRow.codes) ∧
      LvqBatchView.tryNew bits dimension (encoded.map EncodedRow.codes).flatten
        (encoded.map EncodedRow.offset) (encoded.map EncodedRow.scale) =
          .ok (viewOf bits dimension codes encoded) ∧
      (viewOf bits dimension codes encoded).decodeRows =
        .ok (encoded.map (decodedRow bits dimension)).flatten := by
  have huniform : Uniform (bits.codeSize dimension) (encoded.map EncodedRow.codes) := by
    intro codes hcodes
    obtain ⟨item, hitem, rfl⟩ := List.mem_map.mp hcodes
    obtain ⟨row, -, hrow⟩ := hrows.exists_source item hitem
    exact length_encodeRow hrow
  obtain ⟨codes, hpacked, hholds⟩ :=
    tryFromPacked_flatten (bits.codeSize_pos hdimension) huniform
  refine ⟨codes, hholds, ?_, ?_⟩
  · unfold LvqBatchView.tryNew
    rw [if_neg hdimension.ne', if_neg (by simp),
      if_neg (by rw [length_flatten huniform]; simp), hpacked]
    refine (tryNewRows_iff hdimension hholds).mpr ⟨fun item hitem => ?_, rfl⟩
    obtain ⟨row, hlength, hrow⟩ := hrows.exists_source item hitem
    exact rowError_eq_none hrow hlength
  · have hdecoded : List.Forall₂ (fun row item => (viewOf bits dimension codes encoded).decodeRow
        row dimension = .ok item) (List.range encoded.length)
        (encoded.map (decodedRow bits dimension)) := by
      rw [List.forall₂_iff_get]
      refine ⟨by simp, fun index hindex hitem => ?_⟩
      have hbound : index < encoded.length := by simpa using hindex
      simpa using decodeRow_viewOf hholds hbound
    have hcount : (viewOf bits dimension codes encoded).rowCount = encoded.length :=
      List.length_map _
    rw [LvqBatchView.decodeRows, hcount]
    show (List.mapM (fun row => (viewOf bits dimension codes encoded).decodeRow row dimension)
      (List.range encoded.length) >>= _) = _
    rw [mapM_eq_ok.mpr hdecoded]
    rfl

/-- Encoding a matrix, and decoding what was stored. -/
theorem encode_round_trips (bits : LvqBits) (dimension : ℕ) (values : List ℚ)
    (hdimension : 0 < dimension) (hmatrix : dimension ∣ values.length) :
    ∃ batch view decoded,
      encodeLvqRows values dimension bits = .ok batch ∧
      LvqBatchView.tryNew bits dimension batch.codes batch.offsets batch.scales = .ok view ∧
      view.decodeRows = .ok decoded ∧
      (∀ row < values.length / dimension, ∃ decodedRow,
        view.decodeRow row dimension = .ok decodedRow ∧
        RowRoundTrip bits (chunkAt dimension values row) (view.codes.row row)
          (view.scales.getD row 0) decodedRow) ∧
      encodeLvqRows decoded dimension bits = .ok batch := by
  obtain ⟨rows, huniform, rfl⟩ := exists_flatten hmatrix
  obtain ⟨encoded, hrows⟩ := exists_encodedRows bits hdimension huniform
  obtain ⟨codes, hholds, hview, hdecoded⟩ := hrows.exists_view hdimension
  refine ⟨LvqEncodedBatch.ofRows bits dimension encoded, viewOf bits dimension codes encoded,
    (encoded.map (decodedRow bits dimension)).flatten, ?_, hview, hdecoded, ?_, ?_⟩
  · exact (encodeLvqRows_flatten hdimension huniform).mpr ⟨fun _ _ => rfl, encoded, hrows, rfl⟩
  · intro row hrow
    rw [length_flatten huniform, Nat.mul_div_cancel _ hdimension] at hrow
    have hbound : row < encoded.length := by
      rw [← hrows.rows.length_eq]
      exact hrow
    refine ⟨_, decodeRow_viewOf hholds hbound, ?_⟩
    have hcodes := hholds.row row (by rw [List.length_map]; exact hbound)
    rw [List.getElem_map] at hcodes
    have hscale : (encoded.map EncodedRow.scale).getD row 0 = encoded[row].scale := by
      rw [List.getD_eq_getElem _ _ (by simpa using hbound), List.getElem_map]
    show RowRoundTrip bits _ (codes.row row) ((encoded.map EncodedRow.scale).getD row 0) _
    rw [chunkAt_flatten huniform hrow, hcodes, hscale]
    exact rowRoundTrip_of_encodeRow (hrows.rows.get hrow hbound)
      (huniform _ (List.getElem_mem hrow))
  · exact (encodeLvqRows_flatten hdimension hrows.decoded.uniform).mpr
      ⟨fun _ _ => rfl, encoded, hrows.decoded, rfl⟩

example : (encodeLvqRows ([0, 3, 15, 7, 7, 7] : List ℚ) 3 .four).toOption =
    some ⟨.four, 3, [0x30, 0x0f, 0, 0], [0, 7], [1, 0]⟩ := by decide +kernel

/-- A row that varies and a constant one, with a nibble to spare. -/
theorem odd_matrix_round_trips : ∃ batch view decoded,
    encodeLvqRows ([0, 4, 15, 7, 7, 7] : List ℚ) 3 .four = .ok batch ∧
    LvqBatchView.tryNew .four 3 batch.codes batch.offsets batch.scales = .ok view ∧
    view.decodeRows = .ok decoded ∧ encodeLvqRows decoded 3 .four = .ok batch := by
  obtain ⟨batch, view, decoded, hbatch, hview, hdecoded, -, hagain⟩ :=
    encode_round_trips .four 3 [0, 4, 15, 7, 7, 7] (by decide) (by decide)
  exact ⟨batch, view, decoded, hbatch, hview, hdecoded, hagain⟩

end ParqDB.Kernels
