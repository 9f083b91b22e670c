import Mathlib.Algebra.Order.Round
import Mathlib.Data.List.GetD
import Mathlib.Data.List.MinMax
import Mathlib.Data.Rat.Floor
import Mathlib.Tactic.FieldSimp
import Mathlib.Tactic.Linarith
import ParqDB.Foundations.Chunks

/-!
# Locally adaptive quantization

`parqdb-kernels/src/lvq.rs`: the encoder, the checked view of stored buffers and the
decoder.  A row is stored as its minimum, the distance between two levels and one code per
dimension; LVQ4 packs two codes into a byte, the even dimension into the low half.

**Arithmetic.**  The functions are the same over any `Numbers`: the `Float32` that the code
uses, and the rationals, for which nothing is rounded and everything is finite.

The overflows of buffer shapes, which no allocated buffer can have, are left out.
-/

namespace ParqDB.Kernels

open Foundations

/-! ## Widths -/

inductive LvqBits
  /-- Two dimensions packed into each byte. -/
  | four
  /-- One dimension stored in each byte. -/
  | eight
deriving DecidableEq

namespace LvqBits

def levels : LvqBits → ℕ
  | .four => 15
  | .eight => 255

/-- The number of code bytes of one vector. -/
def codeSize : LvqBits → ℕ → ℕ
  | .four, dimension => (dimension + 1) / 2
  | .eight, dimension => dimension

end LvqBits

/-! ## Arithmetic -/

/-- What the encoder and the decoder compute with. -/
class Numbers (F : Type) extends Add F, Sub F, Mul F, Div F, Min F, Max F where
  ofCode : ℕ → F
  isFinite : F → Bool
  isNegative : F → Bool
  isZero : F → Bool
  /-- `quantize_value`, which the code computes in `f64`. -/
  quantizeValue : F → F → F → ℕ → UInt8

/-- `f64::round`: halves go away from zero. -/
def roundHalfAway (value : ℚ) : ℤ :=
  if 0 ≤ value then ⌊value + 1 / 2⌋ else -⌊-value + 1 / 2⌋

/-- `quantize_value` without rounding errors. -/
def quantizeValue (value offset range : ℚ) (levels : ℕ) : UInt8 :=
  UInt8.ofNat (max 0 (min (roundHalfAway ((value - offset) * levels / range)) levels)).toNat

instance : Numbers ℚ where
  ofCode code := code
  isFinite _ := true
  isNegative value := decide (value < 0)
  isZero value := decide (value = 0)
  quantizeValue := quantizeValue

variable {F : Type} [Numbers F]

/-! ## Encoding -/

/-- Writes the code of one dimension into the bytes of its row. -/
def writeCode (bits : LvqBits) (rowCodes : List UInt8) (dimension : ℕ) (code : UInt8) :
    List UInt8 :=
  match bits with
  | .four =>
      if dimension % 2 = 0 then rowCodes.set (dimension / 2) code
      else rowCodes.set (dimension / 2) (rowCodes.getD (dimension / 2) 0 ||| code <<< 4)
  | .eight => rowCodes.set dimension code

/-- Writes the codes of a vector into zeroed bytes, one dimension after the other. -/
def packCodes (bits : LvqBits) (codeSize : ℕ) (codes : List UInt8) : List UInt8 :=
  codes.zipIdx.foldl (fun rowCodes code => writeCode bits rowCodes code.2 code.1)
    (List.replicate codeSize 0)

structure EncodedRow (F : Type) where
  codes : List UInt8
  offset : F
  scale : F
deriving DecidableEq

/-- Encodes one vector; the range of an empty one is not finite. -/
def encodeRow (bits : LvqBits) (codeSize : ℕ) (vector : List F) : Except String (EncodedRow F) :=
  match vector.min?, vector.max? with
  | some offset, some upper =>
      let range := upper - offset
      if Numbers.isFinite range then
        let scale := range / Numbers.ofCode bits.levels
        -- the zeroed bytes of a constant row stay as they are
        let codes := if Numbers.isZero scale then List.replicate codeSize 0
          else packCodes bits codeSize
            (vector.map fun value => Numbers.quantizeValue value offset range bits.levels)
        .ok ⟨codes, offset, scale⟩
      else .error "source vector range is not finite"
  | _, _ => .error "source vector range is not finite"

structure LvqEncodedBatch (F : Type) where
  bits : LvqBits
  dimension : ℕ
  codes : List UInt8
  offsets : List F
  scales : List F
deriving DecidableEq

/-- The rows of a batch, one after the other. -/
def LvqEncodedBatch.ofRows {F : Type} (bits : LvqBits) (dimension : ℕ)
    (rows : List (EncodedRow F)) : LvqEncodedBatch F where
  bits := bits
  dimension := dimension
  codes := (rows.map EncodedRow.codes).flatten
  offsets := rows.map EncodedRow.offset
  scales := rows.map EncodedRow.scale

def encodeLvqRows (values : List F) (dimension : ℕ) (bits : LvqBits) :
    Except String (LvqEncodedBatch F) := do
  if dimension = 0 then .error "vector dimension must be positive"
  else if values.length % dimension ≠ 0 then
    .error "source vector matrix does not match its declared dimension"
  else if !values.all Numbers.isFinite then
    .error "source vectors must contain only finite values"
  else
    let rows ← (chunks dimension values).mapM (encodeRow bits (bits.codeSize dimension))
    .ok (LvqEncodedBatch.ofRows bits dimension rows)

/-! ## Stored buffers -/

/-- Code rows at equal distances in a buffer. -/
structure LvqCodeSpan where
  values : List UInt8
  rows : ℕ
  stride : ℕ

structure LvqCodeRows where
  spans : List LvqCodeSpan
  rowCount : ℕ
  codeSize : ℕ

namespace LvqCodeRows

def tryNew (codeSize : ℕ) : Except String LvqCodeRows :=
  if codeSize = 0 then .error "LVQ code size must be positive"
  else .ok ⟨[], 0, codeSize⟩

def pushSpan (codes : LvqCodeRows) (values : List UInt8) (rows stride : ℕ) :
    Except String LvqCodeRows :=
  if rows = 0 then .error "LVQ code spans must contain at least one row"
  else if stride < codes.codeSize then
    .error "LVQ code span stride is smaller than one code row"
  else if values.length ≠ (rows - 1) * stride + codes.codeSize then
    .error "LVQ code span does not match its declared shape"
  else .ok { codes with
    spans := codes.spans ++ [⟨values, rows, stride⟩]
    rowCount := codes.rowCount + rows }

def tryFromPacked (values : List UInt8) (codeSize : ℕ) : Except String LvqCodeRows := do
  let codes ← tryNew codeSize
  if values.length % codeSize ≠ 0 then
    .error "LVQ code buffer does not contain complete rows"
  else
    let rows := values.length / codeSize
    if rows = 0 then .ok codes else codes.pushSpan values rows codeSize

/-- The bytes of one row. -/
def rowIn (codeSize : ℕ) : List LvqCodeSpan → ℕ → List UInt8
  | [], _ => []
  | span :: spans, row =>
      if row < span.rows then (span.values.drop (row * span.stride)).take codeSize
      else rowIn codeSize spans (row - span.rows)

def row (codes : LvqCodeRows) (row : ℕ) : List UInt8 := rowIn codes.codeSize codes.spans row

/-- The rows that `for_each_row` visits. -/
def visited (codes : LvqCodeRows) : List (List UInt8) :=
  codes.spans.flatMap fun span =>
    (List.range span.rows).map fun index =>
      (span.values.drop (index * span.stride)).take codes.codeSize

end LvqCodeRows

/-- The code of one dimension in the bytes of its row. -/
def codeAt (bits : LvqBits) (codes : List UInt8) (dimension : ℕ) : UInt8 :=
  match bits with
  | .four =>
      let packed := codes.getD (dimension / 2) 0
      if dimension % 2 = 0 then packed &&& 0x0f else packed >>> 4
  | .eight => codes.getD dimension 0

/-- Validated LVQ buffers. -/
structure LvqBatchView (F : Type) where
  bits : LvqBits
  dimension : ℕ
  codes : LvqCodeRows
  offsets : List F
  scales : List F
  lengths : offsets.length = scales.length

/-- The value of a code. -/
def decodeCode (offset scale : F) (code : ℕ) : F := offset + scale * Numbers.ofCode code

namespace LvqBatchView

/-- The offset and the scale of a row define finite values. -/
def definesFinite (bits : LvqBits) (offset scale : F) : Bool :=
  Numbers.isFinite offset && Numbers.isFinite scale && !Numbers.isNegative scale &&
    Numbers.isFinite (decodeCode offset scale bits.levels)

/-- What is wrong with a row. -/
def rowError (bits : LvqBits) (dimension : ℕ) (row : List UInt8 × F × F) : Option String :=
  if !definesFinite bits row.2.1 row.2.2 then
    some "LVQ offsets and scales must define finite values"
  else if Numbers.isZero row.2.2 ∧ ∃ code ∈ row.1, code ≠ 0 then
    some "constant LVQ rows must contain only zero codes"
  else if bits = .four ∧ dimension % 2 ≠ 0 ∧ ∃ code ∈ row.1.getLast?, code &&& 0xf0 ≠ 0 then
    some "the unused LVQ4 high nibble must be zero"
  else none

def tryNewRows (bits : LvqBits) (dimension : ℕ) (codes : LvqCodeRows) (offsets scales : List F) :
    Except String (LvqBatchView F) :=
  if dimension = 0 then .error "vector dimension must be positive"
  else if hlengths : offsets.length = scales.length then
    if codes.rowCount ≠ offsets.length then
      .error "LVQ code, offset, and scale row counts differ"
    else if codes.codeSize ≠ bits.codeSize dimension then
      .error "LVQ code rows do not match the declared dimension"
    else
      match (codes.visited.zip (offsets.zip scales)).findSome? (rowError bits dimension) with
      | some message => .error message
      | none => .ok ⟨bits, dimension, codes, offsets, scales, hlengths⟩
  else .error "LVQ offset and scale row counts differ"

def tryNew (bits : LvqBits) (dimension : ℕ) (codes : List UInt8) (offsets scales : List F) :
    Except String (LvqBatchView F) := do
  if dimension = 0 then .error "vector dimension must be positive"
  else if offsets.length ≠ scales.length then .error "LVQ offset and scale row counts differ"
  else if codes.length ≠ offsets.length * bits.codeSize dimension then
    .error "LVQ code buffer does not match its declared shape"
  else
    let rows ← LvqCodeRows.tryFromPacked codes (bits.codeSize dimension)
    tryNewRows bits dimension rows offsets scales

variable (view : LvqBatchView F)

def rowCount {F : Type} (view : LvqBatchView F) : ℕ := view.offsets.length

def decodeRow (row outputLength : ℕ) : Except String (List F) :=
  if hrow : row < view.rowCount then
    if outputLength ≠ view.dimension then .error "LVQ decode output has the wrong dimension"
    else
      let rowCodes := view.codes.row row
      .ok ((List.range outputLength).map fun dimension =>
        decodeCode (view.offsets.get ⟨row, hrow⟩) (view.scales.get ⟨row, view.lengths ▸ hrow⟩)
          (codeAt view.bits rowCodes dimension).toNat)
  else .error "LVQ row is out of bounds"

/-- `decode_centroids`: all rows, one after the other. -/
def decodeRows : Except String (List F) := do
  let rows ← (List.range view.rowCount).mapM fun row => view.decodeRow row view.dimension
  .ok rows.flatten

end LvqBatchView

/-!
## Quantizing values and packing codes

The two halves of the encoder on their own: a quantized value is within half a step of its
source, and `code_at` finds every code where the encoder wrote it.
-/

/-! ## Rounding -/

theorem roundHalfAway_of_nonneg {value : ℚ} (hvalue : 0 ≤ value) :
    roundHalfAway value = round value := by
  rw [roundHalfAway, if_pos hvalue, round_eq]

theorem round_mono {left right : ℚ} (hle : left ≤ right) : round left ≤ round right := by
  rw [round_eq, round_eq]
  exact Int.floor_le_floor (by linarith)

/-! ## Quantized values -/

section

variable {value other offset range : ℚ} {levels : ℕ}

/-- The value lies in the range of its row. -/
structure InRange (offset range value : ℚ) : Prop where
  lower : offset ≤ value
  upper : value ≤ offset + range

theorem InRange.level_nonneg (levels : ℕ) (hrange : 0 < range)
    (hvalue : InRange offset range value) :
    0 ≤ (value - offset) * levels / range := by
  have hlower : 0 ≤ value - offset := sub_nonneg.mpr hvalue.lower
  positivity

theorem InRange.level_le (levels : ℕ) (hrange : 0 < range)
    (hvalue : InRange offset range value) :
    (value - offset) * levels / range ≤ levels := by
  rw [div_le_iff₀ hrange, mul_comm (levels : ℚ)]
  have hupper : value - offset ≤ range := by linarith [hvalue.upper]
  exact mul_le_mul_of_nonneg_right hupper (Nat.cast_nonneg _)

/-- The code of a value in range is its rounded level: nothing is clamped. -/
theorem toNat_quantizeValue (hrange : 0 < range) (hlevels : levels ≤ 255)
    (hvalue : InRange offset range value) :
    ((quantizeValue value offset range levels).toNat : ℤ) =
      round ((value - offset) * levels / range) := by
  have hnonneg : 0 ≤ round ((value - offset) * levels / range) := by
    have hmono := round_mono (hvalue.level_nonneg levels hrange)
    rwa [round_zero] at hmono
  have hle : round ((value - offset) * levels / range) ≤ levels := by
    have hmono := round_mono (hvalue.level_le levels hrange)
    rwa [round_natCast] at hmono
  rw [quantizeValue, roundHalfAway_of_nonneg (hvalue.level_nonneg levels hrange), min_eq_left hle,
    max_eq_right hnonneg, UInt8.toNat_ofNat']
  omega

/-- What the decoder reads back. -/
def dequantize (offset range : ℚ) (levels : ℕ) (code : UInt8) : ℚ :=
  offset + range / levels * (code.toNat : ℚ)

section

variable (hrange : 0 < range)

include hrange

theorem toNat_quantizeValue_le (hlevels : levels ≤ 255)
    (hvalue : InRange offset range value) :
    (quantizeValue value offset range levels).toNat ≤ levels := by
  have hcode := toNat_quantizeValue hrange hlevels hvalue
  have hmono := round_mono (hvalue.level_le levels hrange)
  rw [round_natCast, ← hcode] at hmono
  exact_mod_cast hmono

/-- A decoded value is within half a step of its source. -/
theorem abs_dequantize_sub_le (hpos : 0 < levels) (hlevels : levels ≤ 255)
    (hvalue : InRange offset range value) :
    |dequantize offset range levels (quantizeValue value offset range levels) - value| ≤
      range / levels / 2 := by
  have hcode := toNat_quantizeValue hrange hlevels hvalue
  have hcast : ((quantizeValue value offset range levels).toNat : ℚ) =
      round ((value - offset) * levels / range) := by exact_mod_cast hcode
  have hlevelsPos : (0 : ℚ) < levels := by exact_mod_cast hpos
  set level := (value - offset) * levels / range with hlevel
  have hsource : range / levels * level = value - offset := by
    rw [hlevel]
    field_simp
  have hdifference : dequantize offset range levels (quantizeValue value offset range levels) -
      value = -(range / levels * (level - round level)) := by
    rw [dequantize, hcast, mul_sub, hsource]
    ring
  have hstep : 0 ≤ range / levels := by positivity
  rw [hdifference, abs_neg, abs_mul, abs_of_nonneg hstep]
  calc range / levels * |level - round level|
      ≤ range / levels * (1 / 2) := mul_le_mul_of_nonneg_left (abs_sub_round level) hstep
    _ = range / levels / 2 := by ring

theorem dequantize_mono (hlevels : levels ≤ 255)
    (hvalue : InRange offset range value) (hother : InRange offset range other)
    (hle : value ≤ other) :
    dequantize offset range levels (quantizeValue value offset range levels) ≤
      dequantize offset range levels (quantizeValue other offset range levels) := by
  have hlevel : (value - offset) * levels / range ≤ (other - offset) * levels / range := by
    have hsub : value - offset ≤ other - offset := by linarith
    have hscaled := mul_le_mul_of_nonneg_right hsub (Nat.cast_nonneg levels : (0 : ℚ) ≤ levels)
    exact div_le_div_of_nonneg_right hscaled hrange.le
  have hrounded := round_mono hlevel
  rw [← toNat_quantizeValue hrange hlevels hvalue, ← toNat_quantizeValue hrange hlevels hother]
    at hrounded
  have hcodes : ((quantizeValue value offset range levels).toNat : ℚ) ≤
      (quantizeValue other offset range levels).toNat := by exact_mod_cast hrounded
  have hstep : 0 ≤ range / levels := by positivity
  unfold dequantize
  linarith [mul_le_mul_of_nonneg_left hcodes hstep]

/-- Decoding a code and quantizing the result gives the code back. -/
theorem quantizeValue_dequantize (hpos : 0 < levels) (hlevels : levels ≤ 255)
    {code : UInt8} (hcode : code.toNat ≤ levels) :
    InRange offset range (dequantize offset range levels code) ∧
      quantizeValue (dequantize offset range levels code) offset range levels = code := by
  have hlevelsPos : (0 : ℚ) < levels := by exact_mod_cast hpos
  have hcodeLe : (code.toNat : ℚ) ≤ levels := by exact_mod_cast hcode
  have hinRange : InRange offset range (dequantize offset range levels code) := by
    have hstep : 0 ≤ range / levels := by positivity
    refine ⟨?_, ?_⟩
    · have hnonneg : 0 ≤ range / levels * (code.toNat : ℚ) := by positivity
      unfold dequantize
      linarith
    · have hbound : range / levels * (code.toNat : ℚ) ≤ range / levels * levels :=
        mul_le_mul_of_nonneg_left hcodeLe hstep
      rw [div_mul_cancel₀ _ hlevelsPos.ne'] at hbound
      unfold dequantize
      linarith
  refine ⟨hinRange, ?_⟩
  have hlevel : (dequantize offset range levels code - offset) * levels / range = code.toNat := by
    unfold dequantize
    field_simp
    ring
  have hquantized := toNat_quantizeValue hrange hlevels hinRange
  rw [hlevel, round_natCast] at hquantized
  exact UInt8.toNat_inj.mp (by exact_mod_cast hquantized)

theorem dequantize_quantize_offset (hlevels : levels ≤ 255) :
    dequantize offset range levels (quantizeValue offset offset range levels) = offset := by
  have hcode := toNat_quantizeValue hrange hlevels
    (⟨le_refl offset, by linarith⟩ : InRange offset range offset)
  rw [sub_self, zero_mul, zero_div, round_zero] at hcode
  have hzero : (quantizeValue offset offset range levels).toNat = 0 := by exact_mod_cast hcode
  rw [dequantize, hzero, Nat.cast_zero, mul_zero, add_zero]

theorem dequantize_quantize_upper (hpos : 0 < levels)
    (hlevels : levels ≤ 255) :
    dequantize offset range levels (quantizeValue (offset + range) offset range levels) =
      offset + range := by
  have hlevelsPos : (0 : ℚ) < levels := by exact_mod_cast hpos
  have hcode := toNat_quantizeValue hrange hlevels
    (⟨by linarith, le_refl _⟩ : InRange offset range (offset + range))
  rw [add_sub_cancel_left, mul_div_cancel_left₀ _ hrange.ne', round_natCast] at hcode
  have hall : (quantizeValue (offset + range) offset range levels).toNat = levels := by
    exact_mod_cast hcode
  rw [dequantize, hall, div_mul_cancel₀ _ hlevelsPos.ne']

end

end

/-! ## Packed codes -/

section

variable {bits : LvqBits} {dimension : ℕ} {low : UInt8} {rowCodes : List UInt8}

/-- A byte of two codes. -/
theorem packed_nibbles {high : UInt8} (hlow : low.toNat < 16) (hhigh : high.toNat < 16) :
    (low ||| high <<< 4) &&& 0x0f = low ∧ (low ||| high <<< 4) >>> 4 = high := by
  have hall : ∀ low high : Fin 16,
      (UInt8.ofNat low ||| UInt8.ofNat high <<< 4) &&& 0x0f = UInt8.ofNat low ∧
        (UInt8.ofNat low ||| UInt8.ofNat high <<< 4) >>> 4 = UInt8.ofNat high := by
    decide +kernel
  have hboth := hall ⟨low.toNat, hlow⟩ ⟨high.toNat, hhigh⟩
  simpa only [UInt8.ofNat_toNat] using hboth

theorem single_nibble (hlow : low.toNat < 16) : low &&& 0x0f = low ∧ low >>> 4 = 0 := by
  have hboth := packed_nibbles hlow (by decide : (0 : UInt8).toNat < 16)
  simpa using hboth

/-- The bytes after the first codes have been written. -/
structure Packed (bits : LvqBits) (codeSize : ℕ) (codes : List UInt8) (rowCodes : List UInt8) :
    Prop where
  length : rowCodes.length = codeSize
  /-- The dimensions without a code yet read as zero. -/
  codes : ∀ dimension, codeAt bits rowCodes dimension = codes.getD dimension 0

theorem getD_zeroed (codeSize position : ℕ) :
    (List.replicate codeSize (0 : UInt8)).getD position 0 = 0 := by
  rw [List.getD_eq_getElem?_getD, List.getElem?_replicate]
  split <;> rfl

theorem Packed.zeroed (bits : LvqBits) (codeSize : ℕ) :
    Packed bits codeSize [] (List.replicate codeSize 0) where
  length := List.length_replicate
  codes dimension := by
    cases bits with
    | four =>
        simp only [codeAt, getD_zeroed]
        split <;> rfl
    | eight => exact getD_zeroed codeSize dimension

theorem getD_append_singleton (codes : List UInt8) (code : UInt8) (dimension : ℕ) :
    (codes ++ [code]).getD dimension 0 =
      if dimension = codes.length then code else codes.getD dimension 0 := by
  rcases Nat.lt_trichotomy dimension codes.length with hlt | heq | hgt
  · rw [if_neg hlt.ne, List.getD_append _ _ _ _ hlt]
  · rw [if_pos heq, heq, List.getD_append_right _ _ _ _ (Nat.le_refl _), Nat.sub_self]
    rfl
  · rw [if_neg hgt.ne', List.getD_eq_default _ _ hgt.le, List.getD_eq_default]
    rw [List.length_append]
    exact hgt

theorem getD_set {position other : ℕ} (hposition : position < rowCodes.length) (code : UInt8) :
    (rowCodes.set position code).getD other 0 =
      if other = position then code else rowCodes.getD other 0 := by
  rw [List.getD_eq_getElem?_getD, List.getElem?_set, List.getD_eq_getElem?_getD]
  by_cases heq : position = other
  · rw [if_pos heq, if_pos hposition, if_pos heq.symm]
    rfl
  · rw [if_neg heq, if_neg (Ne.symm heq)]

/-- Writing the next code. -/
theorem Packed.write {codes : List UInt8} {code : UInt8}
    (hpacked : Packed bits (bits.codeSize dimension) codes rowCodes)
    (hroom : codes.length < dimension) (hcode : code.toNat ≤ bits.levels) :
    Packed bits (bits.codeSize dimension) (codes ++ [code])
      (writeCode bits rowCodes codes.length code) := by
  have hlength := hpacked.length
  cases bits with
  | eight =>
      have hposition : codes.length < rowCodes.length := by
        rw [hlength]
        exact hroom
      refine ⟨by simpa [writeCode] using hlength, fun position => ?_⟩
      show (rowCodes.set codes.length code).getD position 0 = _
      rw [getD_set hposition, getD_append_singleton]
      split
      · rfl
      · exact hpacked.codes position
  | four =>
      have hsmall : code.toNat < 16 := Nat.lt_succ_of_le hcode
      have hposition : codes.length / 2 < rowCodes.length := by
        rw [hlength, LvqBits.codeSize]
        omega
      have hold : ∀ position, codes.length ≤ position →
          codeAt .four rowCodes position = 0 := by
        intro position hlate
        rw [hpacked.codes position, List.getD_eq_default _ _ hlate]
      -- the byte of the code, before and after
      have hbyte : ∀ byte : UInt8,
          (byte &&& 0x0f = codeAt .four rowCodes (codes.length / 2 * 2) ∨ codes.length % 2 = 0) →
          (if codes.length % 2 = 0 then byte &&& 0x0f else byte >>> 4) = code →
          (codes.length % 2 = 0 → byte >>> 4 = 0) →
          ∀ position, codeAt .four (rowCodes.set (codes.length / 2) byte) position =
            (codes ++ [code]).getD position 0 := by
        intro byte hlow hself hhigh position
        rw [getD_append_singleton]
        simp only [codeAt, getD_set hposition]
        by_cases hhere : position / 2 = codes.length / 2
        · rw [if_pos hhere]
          by_cases heq : position = codes.length
          · rw [if_pos heq, heq]
            exact hself
          · rw [if_neg heq]
            by_cases heven : codes.length % 2 = 0
            · rw [if_neg (by omega), hhigh heven, List.getD_eq_default _ _ (by omega)]
            · rw [if_pos (by omega), hlow.resolve_right heven,
                show codes.length / 2 * 2 = position by omega]
              exact hpacked.codes position
        · have hother : position ≠ codes.length := fun heq => hhere (by rw [heq])
          rw [if_neg hhere, if_neg hother]
          exact hpacked.codes position
      unfold writeCode
      dsimp only
      split
      · next heven =>
          obtain ⟨hlow, hhigh⟩ := single_nibble hsmall
          refine ⟨by simpa using hlength, hbyte code (Or.inr heven) ?_ fun _ => hhigh⟩
          rw [if_pos heven]
          exact hlow
      · next hodd =>
          have hhighOld : rowCodes.getD (codes.length / 2) 0 >>> 4 = 0 := by
            have hzero := hold codes.length (Nat.le_refl _)
            rwa [codeAt, if_neg hodd] at hzero
          have hlowOld : (rowCodes.getD (codes.length / 2) 0).toNat < 16 := by
            have hshift := congrArg UInt8.toNat hhighOld
            rw [UInt8.toNat_shiftRight] at hshift
            simp only [UInt8.reduceToNat, Nat.reduceMod, Nat.shiftRight_eq_div_pow] at hshift
            omega
          obtain ⟨hlow, hhigh⟩ := packed_nibbles hlowOld hsmall
          refine ⟨by simpa using hlength, hbyte _ (Or.inl ?_) ?_ fun heven => absurd heven hodd⟩
          · rw [hlow]
            simp only [codeAt]
            rw [if_pos (by omega), Nat.mul_div_cancel _ (by decide : 0 < 2)]
            exact (single_nibble hlowOld).1.symm
          · rw [if_neg hodd]
            exact hhigh

/-- `code_at` recovers every code from the packed bytes. -/
theorem packed_packCodes {codes : List UInt8} (hlength : codes.length = dimension)
    (hcodes : ∀ code ∈ codes, code.toNat ≤ bits.levels) :
    Packed bits (bits.codeSize dimension) codes (packCodes bits (bits.codeSize dimension) codes) := by
  have hloop : ∀ (rest written rowCodes : List UInt8), written ++ rest = codes →
      Packed bits (bits.codeSize dimension) written rowCodes →
      Packed bits (bits.codeSize dimension) codes
        ((rest.zipIdx written.length).foldl
          (fun rowCodes code => writeCode bits rowCodes code.2 code.1) rowCodes) := by
    intro rest
    induction rest with
    | nil =>
        intro written rowCodes hwritten hpacked
        rw [List.append_nil] at hwritten
        exact hwritten ▸ hpacked
    | cons code rest ih =>
        intro written rowCodes hwritten hpacked
        have hroom : written.length < dimension := by
          rw [← hlength, ← hwritten, List.length_append, List.length_cons]
          omega
        have hcode := hcodes code (by rw [← hwritten]; simp)
        have hnext := ih (written ++ [code]) _ (by simpa using hwritten) (hpacked.write hroom hcode)
        rw [List.length_append] at hnext
        exact hnext
  exact hloop codes [] _ rfl (Packed.zeroed bits _)

/-- The high half of an odd row's last byte is unused. -/
theorem Packed.unused_nibble {codes : List UInt8}
    (hpacked : Packed .four (LvqBits.codeSize .four dimension) codes rowCodes)
    (hlength : codes.length = dimension) (hodd : dimension % 2 ≠ 0) {last : UInt8}
    (hlast : last ∈ rowCodes.getLast?) : last &&& 0xf0 = 0 := by
  have hsize : rowCodes.length = (dimension + 1) / 2 := hpacked.length
  have hget : rowCodes.getD (dimension / 2) 0 = last := by
    rw [Option.mem_def, List.getLast?_eq_getElem?] at hlast
    rw [List.getD_eq_getElem?_getD, show dimension / 2 = rowCodes.length - 1 by omega, hlast]
    rfl
  have hhigh := hpacked.codes dimension
  rw [codeAt, if_neg hodd, hget, List.getD_eq_default _ _ hlength.le] at hhigh
  have hall : ∀ byte : Fin 256, UInt8.ofNat byte >>> 4 = 0 → UInt8.ofNat byte &&& 0xf0 = 0 := by
    decide +kernel
  have hbyte := hall ⟨last.toNat, last.toNat_lt⟩
  rw [UInt8.ofNat_toNat] at hbyte
  exact hbyte hhigh

end

end ParqDB.Kernels
