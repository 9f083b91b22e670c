import ParqDB.Foundations.Lanes
import ParqDB.Kernels.CodeRows

/-!
# Distances of encoded rows

The kernels of `parqdb-kernels/src/lvq.rs` that compare a query with LVQ rows: the scalar one,
and those for AVX2 and AVX-512.  A load that would leave the code bytes of a row or the query
makes the result none.

**LVQ4.**  Eight bytes hold sixteen codes.  The low and the high halves of the bytes are split
by a mask and a shift, and interleaved again in the order of their dimensions.

**Tails.**  AVX2 takes eight dimensions at a time of LVQ8 and sixteen of LVQ4, AVX-512 always
sixteen; the scalar loop takes what is left.
-/

namespace ParqDB.Kernels

open Foundations

variable {F : Type} [Numbers F]

/-! ## One row -/

/-- `code_at`, which panics outside the bytes, and `code_at_ptr`, which reads there. -/
def codeAtPtr (bits : LvqBits) (codes : List UInt8) (dimension : ℕ) : Option UInt8 :=
  match bits with
  | .four =>
      (Lanes.read codes (dimension / 2)).map fun packed =>
        if dimension % 2 = 0 then packed &&& 0x0f else packed >>> 4
  | .eight => Lanes.read codes dimension

/-- One dimension of a scalar loop. -/
def addDelta (bits : LvqBits) (rowCodes : List UInt8) (rowOffset rowScale : F) (query : List F)
    (index : ℕ) (sum : F) : Option F := do
  let queryValue ← Lanes.read query index
  let code ← codeAtPtr bits rowCodes index
  let decoded := rowOffset + rowScale * Numbers.ofCode code.toNat
  let delta := queryValue - decoded
  some (sum + delta * delta)

/-- The dimensions from one on, one after the other. -/
def addTail (bits : LvqBits) (rowCodes : List UInt8) (rowOffset rowScale : F) (query : List F)
    (dimension : ℕ) (sum : F) : Option F :=
  (Lanes.whileFits 1 query.length Nat.one_pos
    (addDelta bits rowCodes rowOffset rowScale query) dimension sum).map Prod.snd

/-- One register of dimensions. -/
def addDeltas {n : ℕ} (offset scale : Fin n → F) (codes : Fin n → ℕ)
    (queryValues accumulated : Fin n → F) : Fin n → F :=
  let codeValues : Fin n → F := fun lane => Numbers.ofCode (codes lane)
  let decoded := scale * codeValues + offset
  let delta := queryValues - decoded
  accumulated + delta * delta

/-- The sixteen codes of the low eight bytes. -/
def unpackNibbles (bytes : Fin 16 → UInt8) : Fin 16 → UInt8 :=
  let mask : Fin 16 → UInt8 := Lanes.splat 0x0f
  let low := Lanes.and bytes mask
  let high := Lanes.and (Lanes.shiftRightWords bytes 4) mask
  Lanes.interleaveLow low high

/-- The kernel behind `lvq_squared_l2_row_scalar_dispatch` and `lvq_squared_l2_rows_scalar`. -/
def lvqSquaredL2RowScalar (bits : LvqBits) (_vectorDimension : ℕ) (rowCodes : List UInt8)
    (rowOffset rowScale : F) (query : List F) : Option F :=
  addTail bits rowCodes rowOffset rowScale query 0 (Numbers.ofCode 0)

/-- Eight dimensions of LVQ8. -/
def avx2StepEight (rowCodes : List UInt8) (offset scale : Fin 8 → F) (query : List F)
    (dimension : ℕ) (accumulated : Fin 8 → F) : Option (Fin 8 → F) := do
  let bytes ← Lanes.loadLow rowCodes dimension
  let queryValues ← Lanes.load 8 query dimension
  some (addDeltas offset scale (Lanes.widen (by decide) bytes) queryValues accumulated)

/-- Eight of the sixteen unpacked codes. -/
def avx2HalfFour (offset scale : Fin 8 → F) (query : List F) (dimension : ℕ)
    (accumulated : Fin 8 → F) (half : ℕ × (Fin 16 → UInt8)) : Option (Fin 8 → F) := do
  let queryValues ← Lanes.load 8 query (dimension + half.1)
  some (addDeltas offset scale (Lanes.widen (by decide) half.2) queryValues accumulated)

/-- Sixteen dimensions of LVQ4. -/
def avx2StepFour (rowCodes : List UInt8) (offset scale : Fin 8 → F) (query : List F)
    (dimension : ℕ) (accumulated : Fin 8 → F) : Option (Fin 8 → F) := do
  let bytes ← Lanes.loadLow rowCodes (dimension / 2)
  let interleaved := unpackNibbles bytes
  [(0, interleaved), (8, Lanes.shiftLanesDown 8 interleaved)].foldlM
    (avx2HalfFour offset scale query dimension) accumulated

/-- The register loop of AVX2, with the dimension behind it. -/
def avx2Accumulate (bits : LvqBits) (vectorDimension : ℕ) (rowCodes : List UInt8)
    (rowOffset rowScale : F) (query : List F) : Option (ℕ × (Fin 8 → F)) :=
  let offset : Fin 8 → F := Lanes.splat rowOffset
  let scale : Fin 8 → F := Lanes.splat rowScale
  match bits with
  | .eight => Lanes.whileFits 8 vectorDimension (by decide)
      (avx2StepEight rowCodes offset scale query) 0 (Lanes.splat (Numbers.ofCode 0))
  | .four => Lanes.whileFits 16 vectorDimension (by decide)
      (avx2StepFour rowCodes offset scale query) 0 (Lanes.splat (Numbers.ofCode 0))

def lvqSquaredL2RowAvx2 (bits : LvqBits) (vectorDimension : ℕ) (rowCodes : List UInt8)
    (rowOffset rowScale : F) (query : List F) : Option F := do
  let (dimension, accumulated) ←
    avx2Accumulate bits vectorDimension rowCodes rowOffset rowScale query
  addTail bits rowCodes rowOffset rowScale query dimension
    (Lanes.sum (Numbers.ofCode 0) accumulated)

/-- The sixteen codes from a dimension on. -/
def avx512Codes (bits : LvqBits) (rowCodes : List UInt8) (dimension : ℕ) :
    Option (Fin 16 → ℕ) :=
  match bits with
  | .eight => (Lanes.load 16 rowCodes dimension).map (Lanes.widen (by decide))
  | .four => (Lanes.loadLow rowCodes (dimension / 2)).map fun bytes =>
      Lanes.widen (by decide) (unpackNibbles bytes)

/-- Sixteen dimensions. -/
def avx512Step (bits : LvqBits) (rowCodes : List UInt8) (offset scale : Fin 16 → F)
    (query : List F) (dimension : ℕ) (accumulated : Fin 16 → F) : Option (Fin 16 → F) := do
  let unpacked ← avx512Codes bits rowCodes dimension
  let queryValues ← Lanes.load 16 query dimension
  some (addDeltas offset scale unpacked queryValues accumulated)

def lvqSquaredL2RowAvx512 (bits : LvqBits) (vectorDimension : ℕ) (rowCodes : List UInt8)
    (rowOffset rowScale : F) (query : List F) : Option F := do
  let (dimension, accumulated) ← Lanes.whileFits 16 vectorDimension (by decide)
    (avx512Step bits rowCodes (Lanes.splat rowOffset) (Lanes.splat rowScale) query) 0
    (Lanes.splat (Numbers.ofCode 0))
  addTail bits rowCodes rowOffset rowScale query dimension
    (Lanes.sum (Numbers.ofCode 0) accumulated)

/-! ## All rows -/

/-- What a processor is found to support. -/
inductive RowBackend
  | scalar
  | avx2
  /-- AVX2, with AVX-512F and AVX-512BW -/
  | avx512
deriving DecidableEq

/-- The kernel for one row. -/
def RowBackend.scorer : RowBackend → LvqBits → ℕ → List UInt8 → F → F → List F → Option F
  | .scalar => lvqSquaredL2RowScalar
  | .avx2 => lvqSquaredL2RowAvx2
  | .avx512 => lvqSquaredL2RowAvx512

namespace LvqBatchView

/-- Writes the distance of one row. -/
def scoreRow (backend : RowBackend) (view : LvqBatchView F) (query : List F) (row : ℕ)
    (rowCodes : List UInt8) (output : List F) : Option (List F) := do
  let rowOffset ← Lanes.read view.offsets row
  let rowScale ← Lanes.read view.scales row
  let distance ← backend.scorer view.bits view.dimension rowCodes rowOffset rowScale query
  Checked.set output row distance

/-- `lvq_squared_l2_rows_scalar`, `lvq_squared_l2_rows_avx2` and `lvq_squared_l2_rows_avx512` -/
def lvqSquaredL2RowsWith (backend : RowBackend) (view : LvqBatchView F) (query output : List F) :
    Option (List F) :=
  view.codes.forEachRow (view.scoreRow backend query) output

/-- `DistanceKernel::lvq_squared_l2_rows` -/
def lvqSquaredL2Rows (backend : RowBackend) (view : LvqBatchView F) (query output : List F) :
    Except String (Option (List F)) :=
  if query.length ≠ view.dimension then .error "query vector has the wrong dimension"
  else if !query.all Numbers.isFinite then
    .error "query vector must contain only finite values"
  else if output.length ≠ view.rowCount then
    .error "distance output does not match the LVQ row count"
  else .ok (lvqSquaredL2RowsWith backend view query output)

end LvqBatchView

/-- The code rows of an encoded batch, which are not validated again. -/
def LvqCodeRows.fromEncoded (values : List UInt8) (codeSize : ℕ) : LvqCodeRows :=
  let rowCount := values.length / codeSize
  { spans := if rowCount = 0 then [] else [⟨values, rowCount, codeSize⟩]
    rowCount := rowCount
    codeSize := codeSize }

namespace LvqEncodedBatch

def asView {F : Type} (batch : LvqEncodedBatch F)
    (lengths : batch.offsets.length = batch.scales.length) : LvqBatchView F where
  bits := batch.bits
  dimension := batch.dimension
  codes := LvqCodeRows.fromEncoded batch.codes (batch.bits.codeSize batch.dimension)
  offsets := batch.offsets
  scales := batch.scales
  lengths := lengths

def encodedRowCodes {F : Type} (batch : LvqEncodedBatch F) (row : ℕ) : Option (List UInt8) :=
  let codeSize := batch.bits.codeSize batch.dimension
  Checked.slice batch.codes (row * codeSize) ((row + 1) * codeSize)

/-- The scorer of a prepared query. -/
def scoreRow (backend : RowBackend) (batch : LvqEncodedBatch F) (query : List F) (row : ℕ) :
    Option F := do
  let rowCodes ← batch.encodedRowCodes row
  let rowOffset ← Lanes.read batch.offsets row
  let rowScale ← Lanes.read batch.scales row
  backend.scorer batch.bits batch.dimension rowCodes rowOffset rowScale query

/-- `prepare_query` and `LvqRowQuery::squared_l2` -/
def squaredL2 (backend : RowBackend) (batch : LvqEncodedBatch F) (query : List F) (row : ℕ) :
    Except String (Option F) :=
  if query.length ≠ batch.dimension then .error "query vector has the wrong dimension"
  else if !query.all Numbers.isFinite then
    .error "query vector must contain only finite values"
  else if batch.offsets.length ≤ row then .error "LVQ row is out of bounds"
  else .ok (batch.scoreRow backend query row)

end LvqEncodedBatch

/-!
## The scalar kernel on encoded rows

For any arithmetic, the distances of rows that are stored one after the other are the distances of
the rows one by one: a distance is a function of its row and the query.

* `exists_rowScalar`: the loop over one row succeeds, and keeps what its additions keep.
* `scoreRows_eq`: all rows of a validated batch.
-/

variable {F : Type} [Numbers F] {bits : LvqBits} {dimension : ℕ} {query : List F}

/-- The distance of a row from the query. -/
def rowDistance (bits : LvqBits) (dimension : ℕ) (query : List F) (item : EncodedRow F) : F :=
  (lvqSquaredL2RowScalar bits dimension item.codes item.offset item.scale query).getD
    (Numbers.ofCode 0)

/-- A row has a code for every dimension, and the view accepts it. -/
structure ValidRow (bits : LvqBits) (dimension : ℕ) (item : EncodedRow F) : Prop where
  codes : item.codes.length = bits.codeSize dimension
  accepted : LvqBatchView.rowError bits dimension (item.codes, item.offset, item.scale) = none

/-- The scalar loop does not leave the row, and keeps what each addition of a square keeps. -/
theorem exists_rowScalar {item : EncodedRow F} (hcodes : item.codes.length = bits.codeSize dimension)
    (hquery : query.length = dimension) (kept : F → Prop) (hzero : kept (Numbers.ofCode 0))
    (hadd : ∀ sum delta, kept sum → kept (sum + delta * delta)) :
    ∃ distance, lvqSquaredL2RowScalar bits dimension item.codes item.offset item.scale query =
      some distance ∧ kept distance := by
  have hbyte : ∀ index, index < dimension →
      ∃ code, codeAtPtr bits item.codes index = some code := by
    intro index hindex
    cases bits with
    | four =>
        have hinside : index / 2 < item.codes.length := by
          rw [hcodes]
          show index / 2 < (dimension + 1) / 2
          omega
        rw [codeAtPtr, Lanes.read_of_lt hinside 0]
        exact ⟨_, rfl⟩
    | eight =>
        have hinside : index < item.codes.length := by
          rw [hcodes]
          exact hindex
        exact ⟨_, Lanes.read_of_lt hinside 0⟩
  obtain ⟨stop, final, hloop, hkept, -, -⟩ := @Lanes.exists_whileFits F 1 query.length Nat.one_pos
    (addDelta bits item.codes item.offset item.scale query) (fun _ sum => kept sum)
    (fun index sum hfits hsum => by
      have hindex : index < query.length := by omega
      obtain ⟨code, hcode⟩ := hbyte index (hquery ▸ hindex)
      rw [addDelta, Lanes.read_of_lt hindex (Numbers.ofCode 0), Checked.after_some, hcode,
        Checked.after_some]
      exact ⟨_, rfl, hadd _ _ hsum⟩)
    0 (Numbers.ofCode 0) (Nat.zero_le _) hzero
  refine ⟨final, ?_, hkept⟩
  rw [lvqSquaredL2RowScalar, addTail, hloop]
  rfl

variable {encoded : List (EncodedRow F)}

/-- A view of valid rows. -/
theorem exists_view (hdimension : 0 < dimension)
    (hvalid : ∀ item ∈ encoded, ValidRow bits dimension item) :
    ∃ codes, LvqBatchView.tryNew bits dimension (encoded.map EncodedRow.codes).flatten
        (encoded.map EncodedRow.offset) (encoded.map EncodedRow.scale) =
          .ok (viewOf bits dimension codes encoded) ∧
      codes.Holds (bits.codeSize dimension) (encoded.map EncodedRow.codes) ∧ codes.Filled := by
  have hsize := bits.codeSize_pos hdimension
  have huniform : Uniform (bits.codeSize dimension) (encoded.map EncodedRow.codes) := by
    intro row hrow
    obtain ⟨item, hitem, rfl⟩ := List.mem_map.mp hrow
    exact (hvalid item hitem).codes
  obtain ⟨codes, hpacked, hholds⟩ := tryFromPacked_flatten hsize huniform
  refine ⟨codes, ?_, hholds, (pushed_of_tryFromPacked hpacked).filled⟩
  have hlength : (encoded.map EncodedRow.codes).flatten.length =
      (encoded.map EncodedRow.offset).length * bits.codeSize dimension := by
    rw [length_flatten huniform, List.length_map, List.length_map]
  unfold LvqBatchView.tryNew
  rw [if_neg hdimension.ne', if_neg (by rw [List.length_map, List.length_map]; exact not_not.mpr rfl),
    if_neg (not_not.mpr hlength), hpacked, ok_bind, tryNewRows_iff hdimension hholds]
  exact ⟨fun item hitem => (hvalid item hitem).accepted, rfl⟩

/-- The distances of a batch are those of its rows. -/
theorem scoreRows_eq (hdimension : 0 < dimension)
    (hvalid : ∀ item ∈ encoded, ValidRow bits dimension item) (hquery : query.length = dimension)
    (hfinite : query.all Numbers.isFinite = true) {output : List F}
    (houtput : output.length = encoded.length) :
    ∃ view, LvqBatchView.tryNew bits dimension (encoded.map EncodedRow.codes).flatten
        (encoded.map EncodedRow.offset) (encoded.map EncodedRow.scale) = .ok view ∧
      view.lvqSquaredL2Rows .scalar query output =
        .ok (some (encoded.map (rowDistance bits dimension query))) := by
  obtain ⟨codes, hview, hholds, hfilled⟩ := exists_view hdimension hvalid
  refine ⟨_, hview, ?_⟩
  have hvisited : codes.visited.length = encoded.length := by
    rw [hholds.visited, List.length_map]
  obtain ⟨distances, hdistances, hlength, hwritten⟩ := @LvqCodeRows.Filled.exists_forEachRow (List F)
    ((viewOf bits dimension codes encoded).scoreRow .scalar query)
    (fun row output => output.length = encoded.length ∧
      ∀ earlier (hearlier : earlier < encoded.length), earlier < row →
        output[earlier]? = some (rowDistance bits dimension query encoded[earlier]))
    codes hfilled
    (fun row hrow state hstate => by
      have hbound : row < encoded.length := hvisited ▸ hrow
      have hcodes : codes.visited[row] = encoded[row].codes := by
        have hsame : codes.visited[row]? = (encoded.map EncodedRow.codes)[row]? := by
          rw [hholds.visited]
        rw [List.getElem?_eq_getElem hrow, List.getElem?_map, List.getElem?_eq_getElem hbound,
          Option.map_some, Option.some.injEq] at hsame
        exact hsame
      obtain ⟨distance, hdistance, -⟩ := @exists_rowScalar F _ bits dimension query encoded[row]
        (hvalid _ (List.getElem_mem hbound)).codes hquery (fun _ => True) trivial
        fun _ _ _ => trivial
      have hrowDistance : rowDistance bits dimension query encoded[row] = distance := by
        rw [rowDistance, hdistance]
        rfl
      have hoffset : Lanes.read (encoded.map EncodedRow.offset) row = some encoded[row].offset := by
        rw [Lanes.read_of_lt (by rw [List.length_map]; exact hbound) (Numbers.ofCode 0),
          List.getD_eq_getElem?_getD, List.getElem?_map, List.getElem?_eq_getElem hbound]
        rfl
      have hscale : Lanes.read (encoded.map EncodedRow.scale) row = some encoded[row].scale := by
        rw [Lanes.read_of_lt (by rw [List.length_map]; exact hbound) (Numbers.ofCode 0),
          List.getD_eq_getElem?_getD, List.getElem?_map, List.getElem?_eq_getElem hbound]
        rfl
      refine ⟨state.set row distance, ?_, ?_, fun earlier hearlier hlt => ?_⟩
      · unfold LvqBatchView.scoreRow
        rw [hcodes]
        show (Lanes.read (encoded.map EncodedRow.offset) row >>= _) = _
        rw [hoffset, Checked.after_some]
        show (Lanes.read (encoded.map EncodedRow.scale) row >>= _) = _
        rw [hscale, Checked.after_some]
        show (lvqSquaredL2RowScalar bits dimension encoded[row].codes encoded[row].offset
          encoded[row].scale query >>= _) = _
        rw [hdistance, Checked.after_some, Checked.set_of_lt (hstate.1 ▸ hbound)]
      · rw [List.length_set]
        exact hstate.1
      · by_cases hsame : earlier = row
        · subst hsame
          rw [List.getElem?_set_self (hstate.1 ▸ hbound), hrowDistance]
        · rw [List.getElem?_set_ne (Ne.symm hsame)]
          exact hstate.2 earlier hearlier (by omega))
    output ⟨houtput, fun earlier _ hlt => absurd hlt (Nat.not_lt_zero _)⟩
  have hall : distances = encoded.map (rowDistance bits dimension query) := by
    apply List.ext_getElem?
    intro position
    rcases Nat.lt_or_ge position encoded.length with hlt | hge
    · rw [hwritten position hlt (hvisited ▸ hlt), List.getElem?_map, List.getElem?_eq_getElem hlt,
        Option.map_some]
    · rw [List.getElem?_eq_none (hlength ▸ hge),
        List.getElem?_eq_none (by rwa [List.length_map])]
  have hshape : ¬ query.length ≠ (viewOf bits dimension codes encoded).dimension :=
    not_not.mpr hquery
  have hrows : ¬ output.length ≠ (viewOf bits dimension codes encoded).rowCount := by
    rw [houtput]
    exact not_not.mpr (List.length_map _).symm
  unfold LvqBatchView.lvqSquaredL2Rows
  rw [if_neg hshape, if_neg (by simpa using hfinite), if_neg hrows, ← hall]
  exact congrArg Except.ok hdistances

end ParqDB.Kernels
