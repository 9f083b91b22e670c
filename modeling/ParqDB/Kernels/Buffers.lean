import ParqDB.Foundations.Outcome
import ParqDB.Kernels.Lvq

/-!
# Encoded rows in flat buffers

What the encoder writes and the view finds, for any arithmetic: the rows of a batch stand
one after the other, and the view accepts them if it accepts each row.
-/

namespace ParqDB.Kernels

open Foundations

variable {F : Type} [Numbers F] {bits : LvqBits} {dimension : ℕ}

theorem LvqBits.codeSize_pos (bits : LvqBits) (hdimension : 0 < dimension) :
    0 < bits.codeSize dimension := by
  cases bits with
  | four =>
      show 0 < (dimension + 1) / 2
      omega
  | eight => exact hdimension

/-! ## Rows -/

variable {codeSize : ℕ} {encoded : EncodedRow F} {vector : List F}

/-- What an encoded row holds. -/
theorem encodeRow_eq_ok :
    encodeRow bits codeSize vector = .ok encoded ↔
    ∃ upper, vector.min? = some encoded.offset ∧ vector.max? = some upper ∧
      Numbers.isFinite (upper - encoded.offset) = true ∧
      encoded.scale = (upper - encoded.offset) / Numbers.ofCode bits.levels ∧
      encoded.codes = if Numbers.isZero encoded.scale then List.replicate codeSize 0
        else packCodes bits codeSize (vector.map fun value =>
          Numbers.quantizeValue value encoded.offset (upper - encoded.offset) bits.levels) := by
  obtain ⟨codes, offset, scale⟩ := encoded
  unfold encodeRow
  constructor
  · intro hencoded
    split at hencoded
    · next lower upper hlower hupper =>
        dsimp only at hencoded
        split at hencoded
        · next hfinite =>
            cases hencoded
            exact ⟨upper, hlower, hupper, hfinite, rfl, rfl⟩
        · cases hencoded
    · cases hencoded
  · rintro ⟨upper, hlower, hupper, hfinite, hscale, hcodes⟩
    dsimp only at hlower hfinite hscale hcodes
    rw [hlower, hupper]
    dsimp only
    rw [if_pos hfinite, ← hscale, ← hcodes]

theorem length_writeCode (rowCodes : List UInt8) (position : ℕ) (code : UInt8) :
    (writeCode bits rowCodes position code).length = rowCodes.length := by
  unfold writeCode
  split
  · split <;> exact List.length_set
  · exact List.length_set

theorem length_packCodes (codeSize : ℕ) (codes : List UInt8) :
    (packCodes bits codeSize codes).length = codeSize := by
  have hloop : ∀ (items : List (UInt8 × ℕ)) (rowCodes : List UInt8),
      (items.foldl (fun rowCodes code => writeCode bits rowCodes code.2 code.1) rowCodes).length =
        rowCodes.length := by
    intro items
    induction items with
    | nil =>
        intro rowCodes
        rfl
    | cons item items ih =>
        intro rowCodes
        rw [List.foldl_cons, ih, length_writeCode]
  rw [packCodes, hloop, List.length_replicate]

theorem length_encodeRow (hencoded : encodeRow bits codeSize vector = .ok encoded) :
    encoded.codes.length = codeSize := by
  obtain ⟨upper, -, -, -, -, hcodes⟩ := encodeRow_eq_ok.mp hencoded
  rw [hcodes]
  split
  · exact List.length_replicate
  · exact length_packCodes _ _

/-! ## Buffers -/

/-- The code rows are the given ones. -/
structure LvqCodeRows.Holds (codes : LvqCodeRows) (codeSize : ℕ)
    (rows : List (List UInt8)) : Prop where
  count : codes.rowCount = rows.length
  size : codes.codeSize = codeSize
  visited : codes.visited = rows
  row : ∀ index (hindex : index < rows.length), codes.row index = rows[index]

/-- Rows that are stored one after the other. -/
theorem tryFromPacked_flatten {size : ℕ} {rows : List (List UInt8)} (hsize : 0 < size)
    (huniform : Uniform size rows) :
    ∃ codes, LvqCodeRows.tryFromPacked rows.flatten size = .ok codes ∧ codes.Holds size rows := by
  have hlength := length_flatten huniform
  have hcount : rows.flatten.length / size = rows.length := by
    rw [hlength, Nat.mul_div_cancel _ hsize]
  have hcomplete : rows.flatten.length % size = 0 := by
    rw [hlength, Nat.mul_mod_left]
  unfold LvqCodeRows.tryFromPacked LvqCodeRows.tryNew
  rw [if_neg hsize.ne']
  simp only [Except.bind, bind, hcomplete, hcount, ne_eq, not_true_eq_false, if_false]
  by_cases hempty : rows.length = 0
  · rw [if_pos hempty]
    rw [List.length_eq_zero_iff] at hempty
    subst hempty
    exact ⟨_, rfl, rfl, rfl, rfl, fun index hindex => absurd hindex (Nat.not_lt_zero _)⟩
  · rw [if_neg hempty]
    have hshape : rows.flatten.length = (rows.length - 1) * size + size := by
      rw [hlength, ← Nat.succ_mul, Nat.succ_eq_add_one, Nat.sub_add_cancel (by omega)]
    unfold LvqCodeRows.pushSpan
    rw [if_neg hempty, if_neg (Nat.lt_irrefl _), if_neg (not_not.mpr hshape)]
    refine ⟨_, rfl, Nat.zero_add _, rfl, ?_, fun index hindex => ?_⟩
    · have hchunks := chunks_flatten hsize huniform
      rw [chunks, hcount] at hchunks
      simp only [LvqCodeRows.visited, List.nil_append, List.flatMap_cons, List.flatMap_nil,
        List.append_nil]
      exact hchunks
    · show LvqCodeRows.rowIn size [_] index = _
      rw [LvqCodeRows.rowIn, if_pos hindex]
      exact chunkAt_flatten huniform hindex

/-- The buffers of encoded rows. -/
structure EncodedRows (bits : LvqBits) (dimension : ℕ) (rows : List (List F))
    (encoded : List (EncodedRow F)) : Prop where
  uniform : Uniform dimension rows
  rows : List.Forall₂ (fun row item => encodeRow bits (bits.codeSize dimension) row = .ok item)
    rows encoded

/-- What the encoder returns for a matrix. -/
theorem encodeLvqRows_flatten {rows : List (List F)} {batch : LvqEncodedBatch F}
    (hdimension : 0 < dimension) (huniform : Uniform dimension rows) :
    encodeLvqRows rows.flatten dimension bits = .ok batch ↔
      (∀ value ∈ rows.flatten, Numbers.isFinite value = true) ∧
      ∃ encoded, EncodedRows bits dimension rows encoded ∧
        batch = LvqEncodedBatch.ofRows bits dimension encoded := by
  unfold encodeLvqRows
  rw [if_neg hdimension.ne', if_neg (by rw [length_flatten huniform]; simp),
    chunks_flatten hdimension huniform]
  split
  · next hinfinite =>
      rw [Bool.not_eq_true', List.all_eq_false] at hinfinite
      obtain ⟨value, hvalue, hnot⟩ := hinfinite
      refine iff_of_false (fun hbatch => by cases hbatch) ?_
      rintro ⟨hfinite, -⟩
      exact hnot (hfinite value hvalue)
  · next hfinite =>
      rw [Bool.not_eq_true', Bool.not_eq_false, List.all_eq_true] at hfinite
      rw [bind_eq_ok]
      constructor
      · rintro ⟨encoded, hencoded, hbatch⟩
        cases hbatch
        exact ⟨hfinite, encoded, ⟨huniform, mapM_eq_ok.mp hencoded⟩, rfl⟩
      · rintro ⟨-, encoded, hencoded, rfl⟩
        exact ⟨encoded, mapM_eq_ok.mpr hencoded.rows, rfl⟩

/-- The view of encoded rows. -/
def viewOf (bits : LvqBits) (dimension : ℕ) (codes : LvqCodeRows) (encoded : List (EncodedRow F)) :
    LvqBatchView F where
  bits := bits
  dimension := dimension
  codes := codes
  offsets := encoded.map EncodedRow.offset
  scales := encoded.map EncodedRow.scale
  lengths := by rw [List.length_map, List.length_map]

variable {codes : LvqCodeRows}

/-- The view accepts encoded rows exactly if it accepts each of them. -/
theorem tryNewRows_iff {encoded : List (EncodedRow F)} {view : LvqBatchView F}
    (hdimension : 0 < dimension)
    (hcodes : codes.Holds (bits.codeSize dimension) (encoded.map EncodedRow.codes)) :
    LvqBatchView.tryNewRows bits dimension codes (encoded.map EncodedRow.offset)
      (encoded.map EncodedRow.scale) = .ok view ↔
      (∀ item ∈ encoded, LvqBatchView.rowError bits dimension
        (item.codes, item.offset, item.scale) = none) ∧
      view = viewOf bits dimension codes encoded := by
  have hcount : codes.rowCount = encoded.length := by
    rw [hcodes.count, List.length_map]
  unfold LvqBatchView.tryNewRows
  rw [if_neg hdimension.ne', dif_pos (by rw [List.length_map, List.length_map]),
    if_neg (by rw [hcount, List.length_map]; exact not_not.mpr rfl),
    if_neg (not_not.mpr hcodes.size), hcodes.visited, List.zip_map', List.zip_map']
  have hnone : (encoded.map fun item => (item.codes, item.offset, item.scale)).findSome?
      (LvqBatchView.rowError bits dimension) = none ↔
      ∀ item ∈ encoded, LvqBatchView.rowError bits dimension
        (item.codes, item.offset, item.scale) = none := by
    rw [List.findSome?_eq_none_iff]
    constructor
    · intro hall item hitem
      exact hall _ (List.mem_map_of_mem hitem)
    · intro hall pair hpair
      obtain ⟨item, hitem, rfl⟩ := List.mem_map.mp hpair
      exact hall item hitem
  rw [← hnone]
  split
  · next message hmessage =>
      rw [hmessage]
      exact iff_of_false (fun hok => by cases hok) (fun hok => by cases hok.1)
  · next hok =>
      rw [hok]
      constructor
      · intro hview
        cases hview
        exact ⟨rfl, rfl⟩
      · rintro ⟨-, rfl⟩
        rfl

/-- What the decoder makes of an encoded row. -/
def decodedRow (bits : LvqBits) (dimension : ℕ) (encoded : EncodedRow F) : List F :=
  (List.range dimension).map fun position =>
    decodeCode encoded.offset encoded.scale (codeAt bits encoded.codes position).toNat

theorem decodeRow_viewOf {encoded : List (EncodedRow F)}
    (hcodes : codes.Holds (bits.codeSize dimension) (encoded.map EncodedRow.codes)) {index : ℕ}
    (hindex : index < encoded.length) :
    (viewOf bits dimension codes encoded).decodeRow index dimension =
      .ok (decodedRow bits dimension encoded[index]) := by
  have hrow := hcodes.row index (by rw [List.length_map]; exact hindex)
  rw [List.getElem_map] at hrow
  have hbound : index < (viewOf bits dimension codes encoded).rowCount := by
    show index < (encoded.map EncodedRow.offset).length
    rw [List.length_map]
    exact hindex
  unfold LvqBatchView.decodeRow
  rw [dif_pos hbound, if_neg (fun hdifferent => hdifferent rfl)]
  simp only [viewOf, hrow, List.get_eq_getElem, List.getElem_map]
  rfl

end ParqDB.Kernels
