import ParqDB.Kernels.CodeRows

/-!
# Borrowed code rows

`parqdb-local/src/query/lvq_codes.rs`: the code column of a record batch as rows for the
kernels.  The rows of a `BinaryView` array are collected in spans at equal distances, which are
guessed from the first two views and extended as far as the views go on like that.

The arithmetic is that of a 64-bit `usize`.  A panic and an error are different faults.
-/

namespace ParqDB.Query.LvqCodes

open Foundations Kernels

/-! ## Outcomes -/

inductive Fault
  | panic
  /-- `DataFusionError::Execution` -/
  | execution (message : String)
deriving DecidableEq

section

variable {α : Type}

def orPanic : Option α → Except Fault α
  | some value => .ok value
  | none => .error .panic

def orElse (fault : Fault) : Option α → Except Fault α
  | some value => .ok value
  | none => .error fault

def lvqCodesError : Except String α → Except Fault α
  | .ok value => .ok value
  | .error message => .error (.execution ("invalid kernel argument: " ++ message))

end

def spanOverflow : Fault := .execution "LVQ code span overflows usize"

def wrongLength : Fault := .execution "LVQ code row has the wrong length"

/-! ## Arrays -/

/-- `MAX_INLINE_VIEW_LEN` -/
def maxInlineViewLen : ℕ := 12

/-- The 128 bits of a view. -/
abbrev RawView := BitVec 128

namespace RawView

/-- The fields that `ByteView::from` takes from the bits. -/
def length (raw : RawView) : ℕ := raw.toNat % 2 ^ 32

def bufferIndex (raw : RawView) : ℕ := raw.toNat / 2 ^ 64 % 2 ^ 32

def offset (raw : RawView) : ℕ := raw.toNat / 2 ^ 96 % 2 ^ 32

/-- The bytes behind the length. -/
def inlineValue (raw : RawView) : List UInt8 :=
  (List.range raw.length).map fun index => UInt8.ofNat (raw.toNat / 2 ^ (32 + 8 * index))

end RawView

/-- A `BinaryView` array.  Arrow checks that long views lie in their buffers. -/
structure BinaryViewArray where
  views : List RawView
  buffers : List (List UInt8)
  fits : views.length ≤ Checked.wordMax
  valid : ∀ raw ∈ views, maxInlineViewLen < raw.length →
    ∃ buffer, buffers[raw.bufferIndex]? = some buffer ∧ raw.offset + raw.length ≤ buffer.length

/-- A `Binary` array, whose offsets are 32-bit numbers. -/
structure BinaryArray where
  offsets : List ℕ
  data : List UInt8
  nonempty : offsets ≠ []
  sorted : offsets.Pairwise (· ≤ ·)
  bounded : ∀ offset ∈ offsets, offset ≤ data.length
  fits : ∀ offset ∈ offsets, offset < 2 ^ 31

namespace BinaryViewArray

/-- `value`: a short view holds its bytes. -/
def value (array : BinaryViewArray) (row : ℕ) : Option (List UInt8) :=
  array.views[row]?.bind fun raw =>
    if raw.length ≤ maxInlineViewLen then some raw.inlineValue
    else array.buffers[raw.bufferIndex]?.bind fun buffer =>
      Checked.slice buffer raw.offset (raw.offset + raw.length)

end BinaryViewArray

/-- The number of values. -/
def BinaryArray.len (array : BinaryArray) : ℕ := array.offsets.length - 1

def BinaryArray.value (array : BinaryArray) (row : ℕ) : Option (List UInt8) :=
  array.offsets[row]?.bind fun start =>
    array.offsets[row + 1]?.bind fun stop => Checked.slice array.data start stop

/-! ## Binary arrays -/

def binaryLvqCodes (array : BinaryArray) (codeSize : ℕ) : Except Fault LvqCodeRows :=
  if ∃ pair ∈ array.offsets.zip array.offsets.tail, pair.2 - pair.1 ≠ codeSize then
    .error wrongLength
  else do
    let start ← orPanic array.offsets[0]?
    let stop ← orPanic array.offsets[array.len]?
    let values ← orPanic (Checked.slice array.data start stop)
    lvqCodesError (LvqCodeRows.checkedFromPacked values codeSize)

/-! ## View arrays -/

section

variable (array : BinaryViewArray) (codeSize : ℕ)

def requireCodeSize (view : RawView) : Except Fault Unit :=
  if view.length ≠ codeSize then .error wrongLength else .ok ()

/-- A view that has the length of a code row. -/
def viewAt (row : ℕ) : Except Fault RawView := do
  let view ← orPanic array.views[row]?
  requireCodeSize codeSize view
  .ok view

/-- The distance to the next view, if a span can have it. -/
def candidateStride (first candidate : RawView) : ℕ :=
  match Checked.sub candidate.offset first.offset with
  | some stride =>
      if candidate.bufferIndex = first.bufferIndex ∧ codeSize ≤ stride then stride else codeSize
  | none => codeSize

def spanStride (row : ℕ) (first : RawView) : Except Fault ℕ :=
  if row + 1 < array.views.length then do
    let candidate ← viewAt array codeSize (row + 1)
    .ok (candidateStride codeSize first candidate)
  else .ok codeSize

/-- Whether the next view goes on at the same distance. -/
def continues (first : RawView) (stride row rows : ℕ) : Except Fault Bool := do
  let candidate ← viewAt array codeSize (row + rows)
  let distance ← orElse spanOverflow (Checked.mul Checked.wordMax rows stride)
  let expectedOffset ← orElse spanOverflow (Checked.add Checked.wordMax first.offset distance)
  .ok (candidate.bufferIndex == first.bufferIndex && candidate.offset == expectedOffset)

/-- The number of rows of a span, from a number that has been found. -/
def spanRows (first : RawView) (stride row rows : ℕ) : Except Fault ℕ :=
  if row + rows < array.views.length then
    match continues array codeSize first stride row rows with
    | .error fault => .error fault
    | .ok false => .ok rows
    | .ok true => spanRows first stride row (rows + 1)
  else .ok rows
termination_by array.views.length - (row + rows)

/-- Pushes the longest span that starts with a row. -/
def pushLongest (row : ℕ) (first : RawView) (codes : LvqCodeRows) :
    Except Fault (ℕ × LvqCodeRows) := do
  let stride ← spanStride array codeSize row first
  let rows ← spanRows array codeSize first stride row 1
  let buffer ← orPanic array.buffers[first.bufferIndex]?
  let spanBytes ← orElse spanOverflow ((Checked.mul Checked.wordMax (rows - 1) stride).bind
    fun bytes => Checked.add Checked.wordMax bytes codeSize)
  let stop ← orElse spanOverflow (Checked.add Checked.wordMax first.offset spanBytes)
  let values ← orPanic (Checked.slice buffer first.offset stop)
  let next ← lvqCodesError (codes.checkedPushSpan values rows stride)
  .ok (rows, next)

/-- Pushes a row that its view holds. -/
def pushInline (row : ℕ) (codes : LvqCodeRows) : Except Fault (ℕ × LvqCodeRows) := do
  let value ← orPanic (array.value row)
  let next ← lvqCodesError (codes.checkedPushSpan value 1 codeSize)
  .ok (1, next)

/-- One round, with the number of rows that it takes. -/
def pushSpanAt (row : ℕ) (codes : LvqCodeRows) : Except Fault (ℕ × LvqCodeRows) := do
  let first ← viewAt array codeSize row
  if first.length ≤ maxInlineViewLen then pushInline array codeSize row codes
  else pushLongest array codeSize row first codes

variable {array codeSize}

theorem le_spanRows {first : RawView} {stride row rows found : ℕ}
    (hfound : spanRows array codeSize first stride row rows = .ok found) : rows ≤ found := by
  fun_induction spanRows array codeSize first stride row rows with
  | case1 => cases hfound
  | case2 =>
      cases hfound
      exact Nat.le_refl _
  | case3 _ _ _ ih => exact (Nat.le_succ _).trans (ih hfound)
  | case4 =>
      cases hfound
      exact Nat.le_refl _

/-- Every round takes a row. -/
theorem pushSpanAt_pos {row rows : ℕ} {codes next : LvqCodeRows}
    (hround : pushSpanAt array codeSize row codes = .ok (rows, next)) : 0 < rows := by
  obtain ⟨first, -, hround⟩ := bind_eq_ok.mp hround
  split at hround
  · obtain ⟨value, -, hround⟩ := bind_eq_ok.mp hround
    obtain ⟨pushed, -, hround⟩ := bind_eq_ok.mp hround
    cases hround
    exact Nat.one_pos
  · obtain ⟨stride, -, hround⟩ := bind_eq_ok.mp hround
    obtain ⟨found, hfound, hround⟩ := bind_eq_ok.mp hround
    obtain ⟨buffer, -, hround⟩ := bind_eq_ok.mp hround
    obtain ⟨bytes, -, hround⟩ := bind_eq_ok.mp hround
    obtain ⟨stop, -, hround⟩ := bind_eq_ok.mp hround
    obtain ⟨values, -, hround⟩ := bind_eq_ok.mp hround
    obtain ⟨pushed, -, hround⟩ := bind_eq_ok.mp hround
    cases hround
    exact le_spanRows hfound

variable (array codeSize)

/-- The spans from a row on. -/
def spansFrom (row : ℕ) (codes : LvqCodeRows) : Except Fault LvqCodeRows :=
  if row < array.views.length then
    match _hround : pushSpanAt array codeSize row codes with
    | .error fault => .error fault
    | .ok (rows, next) => spansFrom (row + rows) next
  else .ok codes
termination_by array.views.length - row
decreasing_by
  have hrows := pushSpanAt_pos ‹_›
  omega

def binaryViewLvqSpans : Except Fault LvqCodeRows := do
  let codes ← lvqCodesError (LvqCodeRows.tryNew codeSize)
  spansFrom array codeSize 0 codes

end

/-!
## The borrowed rows are the stored rows

Whatever spans the search guesses, a span covers views of the right length at the offsets that it
computes, so that its rows are their values.

* `Run`: the views that a span has covered so far.
* `Taken`: the rows that have been pushed; every round keeps it.
* `code_rows_are_stored_rows`: how the search ends, and what it returns.
-/

variable {array : BinaryViewArray} {codeSize row : ℕ}

/-! ## Values -/

namespace BinaryViewArray

/-- The bytes of a view. -/
def bytes (array : BinaryViewArray) (raw : RawView) : List UInt8 :=
  if raw.length ≤ maxInlineViewLen then raw.inlineValue
  else ((array.buffers.getD raw.bufferIndex []).drop raw.offset).take raw.length

def values (array : BinaryViewArray) : List (List UInt8) := array.views.map array.bytes

/-- The values of an array that Arrow has checked. -/
theorem value_eq (array : BinaryViewArray) (row : ℕ) : array.value row = array.values[row]? := by
  rw [value, values, List.getElem?_map]
  cases hraw : array.views[row]? with
  | none => rfl
  | some raw =>
      rw [Option.bind_some, Option.map_some, bytes]
      by_cases hshort : raw.length ≤ maxInlineViewLen
      · rw [if_pos hshort, if_pos hshort]
      · obtain ⟨buffer, hbuffer, hinside⟩ :=
          array.valid raw (List.mem_of_getElem? hraw) (Nat.lt_of_not_le hshort)
        rw [if_neg hshort, if_neg hshort, hbuffer, Option.bind_some,
          Checked.slice_of_le (Nat.le_add_right _ _) hinside, List.getD_eq_getElem?_getD, hbuffer,
          Option.getD_some, List.drop_take, Nat.add_sub_cancel_left]

theorem length_bytes {raw : RawView} (hraw : raw ∈ array.views) :
    (array.bytes raw).length = raw.length := by
  rw [bytes]
  by_cases hshort : raw.length ≤ maxInlineViewLen
  · rw [if_pos hshort, RawView.inlineValue, List.length_map, List.length_range]
  · obtain ⟨buffer, hbuffer, hinside⟩ := array.valid raw hraw (Nat.lt_of_not_le hshort)
    rw [if_neg hshort, List.getD_eq_getElem?_getD, hbuffer, Option.getD_some, List.length_take,
      List.length_drop]
    omega

/-- Some value does not have the length of a code row. -/
def Uneven (array : BinaryViewArray) (codeSize : ℕ) : Prop :=
  ∃ raw ∈ array.views, raw.length ≠ codeSize

end BinaryViewArray

theorem RawView.length_lt (raw : RawView) : raw.length < 2 ^ 32 := Nat.mod_lt _ (by decide)

theorem RawView.offset_lt (raw : RawView) : raw.offset < 2 ^ 32 := Nat.mod_lt _ (by decide)

/-! ## Steps -/

/-- The search fails with an error, and only for a value of another length. -/
def Rejects (array : BinaryViewArray) (codeSize : ℕ) (fault : Fault) : Prop :=
  (∃ message, fault = .execution message) ∧ array.Uneven codeSize

section

variable {admitted : Fault → Prop}

theorem ends_orPanic {α : Type} {value : α} {found : Option α} (hfound : found = some value) :
    Ends admitted (orPanic found) fun result => result = value := by
  rw [hfound]
  exact rfl

theorem ends_orElse {α : Type} {admitted : Fault → Prop} {value : α} {fault : Fault}
    {found : Option α} (hfound : found = some value) :
    Ends admitted (orElse fault found) fun result => result = value := by
  rw [hfound]
  exact rfl

theorem ends_lvqCodesError {α : Type} {value : α} {outcome : Except String α}
    (houtcome : outcome = .ok value) :
    Ends admitted (lvqCodesError outcome) fun result => result = value := by
  rw [houtcome]
  exact rfl

/-- A view that is looked at has the right length. -/
theorem ends_viewAt (hrow : row < array.views.length) :
    Ends (Rejects array codeSize) (viewAt array codeSize row) fun raw =>
      array.views[row]? = some raw ∧ raw.length = codeSize := by
  have hview : array.views[row]? = some array.views[row] := List.getElem?_eq_getElem hrow
  refine (ends_orPanic hview).bind ?_
  rintro _ rfl
  rw [requireCodeSize]
  by_cases hlength : array.views[row].length = codeSize
  · rw [if_neg (not_not.mpr hlength)]
    exact ⟨hview, hlength⟩
  · rw [if_pos hlength]
    exact ⟨⟨_, rfl⟩, _, List.getElem_mem hrow, hlength⟩

/-- A stride is at least one code row, and no longer than an offset. -/
theorem ends_spanStride {first : RawView} (hfirst : first.length = codeSize) :
    Ends (Rejects array codeSize) (spanStride array codeSize row first) fun stride =>
      codeSize ≤ stride ∧ stride < 2 ^ 32 := by
  have hsize : codeSize ≤ codeSize ∧ codeSize < 2 ^ 32 :=
    ⟨Nat.le_refl _, hfirst ▸ first.length_lt⟩
  rw [spanStride]
  by_cases hnext : row + 1 < array.views.length
  · rw [if_pos hnext]
    refine (ends_viewAt hnext).bind fun candidate _ => ?_
    show codeSize ≤ candidateStride codeSize first candidate ∧ _
    rw [candidateStride]
    by_cases hforward : first.offset ≤ candidate.offset
    · rw [Checked.sub_of_le hforward]
      dsimp only
      split
      · next hstride =>
          have hoffset := candidate.offset_lt
          exact ⟨hstride.2, by omega⟩
      · exact hsize
    · rw [show Checked.sub candidate.offset first.offset = none from if_neg hforward]
      exact hsize
  · rw [if_neg hnext]
    exact hsize

/-- The views that a span covers. -/
structure Run (array : BinaryViewArray) (codeSize : ℕ) (first : RawView)
    (stride row rows : ℕ) : Prop where
  positive : 0 < rows
  inside : row + rows ≤ array.views.length
  views : ∀ index < rows, ∃ raw, array.views[row + index]? = some raw ∧ raw.length = codeSize ∧
    raw.bufferIndex = first.bufferIndex ∧ raw.offset = first.offset + index * stride

variable {first : RawView} {stride rows : ℕ}

section

variable (hrun : Run array codeSize first stride row rows)

include hrun

/-- The last view of a run has an offset, which bounds the run. -/
theorem Run.offset_lt :
    first.offset + (rows - 1) * stride < 2 ^ 32 := by
  obtain ⟨raw, -, -, -, hoffset⟩ := hrun.views (rows - 1) (by have := hrun.positive; omega)
  rw [← hoffset]
  exact raw.offset_lt

theorem ends_continues (hstride : stride < 2 ^ 32) (hnext : row + rows < array.views.length) :
    Ends (Rejects array codeSize) (continues array codeSize first stride row rows) fun found =>
      found = true → Run array codeSize first stride row (rows + 1) := by
  have hoffset := hrun.offset_lt
  have hdistance : rows * stride = (rows - 1) * stride + stride := by
    rw [← Nat.succ_mul, Nat.succ_eq_add_one, Nat.sub_add_cancel hrun.positive]
  refine (ends_viewAt hnext).bind fun candidate hcandidate => ?_
  refine (ends_orElse (Checked.mul_of_le (show rows * stride ≤ Checked.wordMax by
    rw [Checked.wordMax]; omega))).bind ?_
  rintro _ rfl
  refine (ends_orElse (Checked.add_of_le (show first.offset + rows * stride ≤ Checked.wordMax by
    rw [Checked.wordMax]; omega))).bind ?_
  rintro _ rfl
  intro hsame
  rw [Bool.and_eq_true, beq_iff_eq, beq_iff_eq] at hsame
  refine ⟨Nat.succ_pos _, hnext, fun index hindex => ?_⟩
  by_cases hlast : index = rows
  · subst hlast
    exact ⟨candidate, hcandidate.1, hcandidate.2, hsame.1, hsame.2⟩
  · exact hrun.views index (by omega)

theorem ends_spanRows (hstride : stride < 2 ^ 32) :
    Ends (Rejects array codeSize) (spanRows array codeSize first stride row rows) fun found =>
      Run array codeSize first stride row found := by
  fun_induction spanRows array codeSize first stride row rows with
  | case1 rows hnext fault hfault =>
      have hends := ends_continues hrun hstride hnext
      rw [hfault] at hends
      exact hends
  | case2 => exact hrun
  | case3 rows hnext hfound ih =>
      have hends := ends_continues hrun hstride hnext
      rw [hfound] at hends
      exact ih (hends rfl)
  | case4 => exact hrun

end

end

/-! ## Rounds -/

/-- The rows before one have been pushed. -/
structure Taken (array : BinaryViewArray) (codeSize stop : ℕ) (codes : LvqCodeRows) : Prop where
  inside : stop ≤ array.views.length
  even : ∀ index < stop, ∃ raw, array.views[index]? = some raw ∧ raw.length = codeSize
  holds : codes.Holds codeSize (array.values.take stop)
  pushed : codes.Pushed

variable {codes : LvqCodeRows}

theorem Taken.size (htaken : Taken array codeSize row codes) : codes.codeSize = codeSize :=
  htaken.holds.size

theorem Taken.count (htaken : Taken array codeSize row codes) : codes.rowCount = row := by
  rw [htaken.holds.count, List.length_take, BinaryViewArray.values, List.length_map]
  exact Nat.min_eq_left htaken.inside

/-- A span whose rows are the next values. -/
theorem Taken.push {rows stride : ℕ} {values : List UInt8}
    (htaken : Taken array codeSize row codes) (hrows : 0 < rows)
    (hinside : row + rows ≤ array.views.length) (hstride : codeSize ≤ stride)
    (hvalues : values.length = (rows - 1) * stride + codeSize)
    (hbytes : (rows - 1) * stride + codeSize ≤ Checked.wordMax)
    (heven : ∀ index < rows, ∃ raw, array.views[row + index]? = some raw ∧ raw.length = codeSize)
    (hslices : spanSlices codeSize ⟨values, rows, stride⟩ = (array.values.drop row).take rows) :
    ∃ next, codes.checkedPushSpan values rows stride = .ok next ∧
      Taken array codeSize (row + rows) next := by
  have hfits := array.fits
  obtain ⟨next, hnext⟩ := exists_pushSpan hrows (htaken.size.le.trans hstride)
    (by rw [hvalues, htaken.size])
  refine ⟨next, ?_, hinside, fun index hindex => ?_, ?_, .push htaken.pushed hnext⟩
  · rw [checkedPushSpan_eq (by rw [htaken.size]; exact hbytes) (by rw [htaken.count]; omega), hnext]
  · by_cases hbefore : index < row
    · exact htaken.even index hbefore
    · obtain ⟨raw, hraw, hlength⟩ := heven (index - row) (by omega)
      rw [Nat.add_sub_cancel' (Nat.le_of_not_lt hbefore)] at hraw
      exact ⟨raw, hraw, hlength⟩
  · have hholds := holds_pushSpan htaken.holds hnext
    rw [hslices, ← List.take_add] at hholds
    exact hholds

variable {first : RawView}

theorem ends_pushInline (htaken : Taken array codeSize row codes)
    (hfirst : array.views[row]? = some first) (hlength : first.length = codeSize) :
    Ends (Rejects array codeSize) (pushInline array codeSize row codes) fun round =>
      Taken array codeSize (row + round.1) round.2 := by
  have hrow := (List.getElem?_eq_some_iff.mp hfirst).1
  have hvalue : array.values[row]? = some (array.bytes first) := by
    rw [BinaryViewArray.values, List.getElem?_map, hfirst, Option.map_some]
  have hsize : (array.bytes first).length = codeSize := by
    rw [BinaryViewArray.length_bytes (List.mem_of_getElem? hfirst), hlength]
  obtain ⟨next, hnext, hkept⟩ := @Taken.push array codeSize row codes 1 codeSize
    (array.bytes first) htaken Nat.one_pos hrow (Nat.le_refl _) (by rw [hsize]; omega)
    (by
      have hbound := first.length_lt
      rw [Checked.wordMax]
      omega)
    (fun index hindex => by
      obtain rfl : index = 0 := by omega
      exact ⟨first, hfirst, hlength⟩)
    (by
      have hdrop : array.values.drop row = array.bytes first :: array.values.drop (row + 1) := by
        obtain ⟨hlt, hget⟩ := List.getElem?_eq_some_iff.mp hvalue
        rw [← hget, List.drop_eq_getElem_cons hlt]
      rw [hdrop]
      simp [spanSlices, ← hsize])
  refine (ends_orPanic ((array.value_eq row).trans hvalue)).bind ?_
  rintro _ rfl
  refine (ends_lvqCodesError hnext).bind ?_
  rintro _ rfl
  exact hkept

/-- The rows of the bytes that a run covers are the values of its views. -/
theorem Run.slices {stride rows : ℕ} {buffer : List UInt8}
    (hrun : Run array codeSize first stride row rows) (hlong : maxInlineViewLen < codeSize)
    (hbuffer : array.buffers[first.bufferIndex]? = some buffer) :
    spanSlices codeSize ⟨(buffer.take (first.offset + ((rows - 1) * stride + codeSize))).drop
      first.offset, rows, stride⟩ = (array.values.drop row).take rows := by
  apply List.ext_getElem?
  intro index
  rw [spanSlices, List.getElem?_map, List.getElem?_take]
  dsimp only
  by_cases hindex : index < rows
  · obtain ⟨raw, hraw, hlength, hsame, hoffset⟩ := hrun.views index hindex
    have hbound : index * stride ≤ (rows - 1) * stride := Nat.mul_le_mul_right _ (by omega)
    rw [if_pos hindex, List.getElem?_range hindex, Option.map_some, List.getElem?_drop,
      BinaryViewArray.values, List.getElem?_map, hraw, Option.map_some, BinaryViewArray.bytes,
      if_neg (by omega), hsame, List.getD_eq_getElem?_getD, hbuffer, Option.getD_some, hoffset,
      hlength]
    rw [List.drop_drop, List.drop_take, List.take_take]
    congr 2
    omega
  · rw [if_neg hindex, List.getElem?_eq_none (by rw [List.length_range]; omega)]
    rfl

section

variable (htaken : Taken array codeSize row codes)

include htaken

theorem ends_pushLongest
    (hfirst : array.views[row]? = some first) (hlength : first.length = codeSize)
    (hlong : maxInlineViewLen < first.length) :
    Ends (Rejects array codeSize) (pushLongest array codeSize row first codes) fun round =>
      Taken array codeSize (row + round.1) round.2 := by
  have hrow := (List.getElem?_eq_some_iff.mp hfirst).1
  have hsize := first.length_lt
  have hsingle : ∀ stride, Run array codeSize first stride row 1 := fun stride =>
    ⟨Nat.one_pos, hrow, fun index hindex => by
      obtain rfl : index = 0 := by omega
      exact ⟨first, hfirst, hlength, rfl, by rw [Nat.zero_mul, Nat.add_zero]⟩⟩
  refine (ends_spanStride hlength).bind fun stride hstride => ?_
  refine (ends_spanRows (hsingle stride) hstride.2).bind fun rows hrun => ?_
  -- the last view of the span lies in its buffer, so the whole span does
  obtain ⟨last, hlast, hlastLength, hlastBuffer, hlastOffset⟩ :=
    hrun.views (rows - 1) (by have := hrun.positive; omega)
  obtain ⟨buffer, hbuffer, hinside⟩ :=
    array.valid last (List.mem_of_getElem? hlast) (by omega)
  rw [hlastBuffer] at hbuffer
  rw [hlastOffset, hlastLength, Nat.add_assoc] at hinside
  have hoffset := hrun.offset_lt
  refine (ends_orPanic hbuffer).bind ?_
  rintro _ rfl
  refine (@ends_orElse _ _ ((rows - 1) * stride + codeSize) _ _ (by
    rw [Checked.mul_of_le (by rw [Checked.wordMax]; omega), Option.bind_some,
      Checked.add_of_le (by rw [Checked.wordMax]; omega)])).bind ?_
  rintro _ rfl
  refine (ends_orElse (Checked.add_of_le (by rw [Checked.wordMax]; omega))).bind ?_
  rintro _ rfl
  refine (ends_orPanic (Checked.slice_of_le (Nat.le_add_right _ _) hinside)).bind ?_
  rintro _ rfl
  obtain ⟨next, hnext, hkept⟩ := htaken.push hrun.positive hrun.inside hstride.1
    (by
      rw [List.length_drop, List.length_take]
      omega)
    (by rw [Checked.wordMax]; omega)
    (fun index hindex => by
      obtain ⟨raw, hraw, hrawLength, -⟩ := hrun.views index hindex
      exact ⟨raw, hraw, hrawLength⟩)
    (hrun.slices (hlength ▸ hlong) hbuffer)
  refine (ends_lvqCodesError hnext).bind ?_
  rintro _ rfl
  exact hkept

/-- One round. -/
theorem ends_pushSpanAt (hrow : row < array.views.length) :
    Ends (Rejects array codeSize) (pushSpanAt array codeSize row codes) fun round =>
      Taken array codeSize (row + round.1) round.2 := by
  refine (ends_viewAt hrow).bind fun first hfirst => ?_
  by_cases hshort : first.length ≤ maxInlineViewLen
  · rw [if_pos hshort]
    exact ends_pushInline htaken hfirst.1 hfirst.2
  · rw [if_neg hshort]
    exact ends_pushLongest htaken hfirst.1 hfirst.2 (Nat.lt_of_not_le hshort)

/-- All rounds. -/
theorem ends_spansFrom :
    Ends (Rejects array codeSize) (spansFrom array codeSize row codes)
      (Taken array codeSize array.views.length) := by
  fun_induction spansFrom array codeSize row codes with
  | case1 row codes hrow fault hfault =>
      have hends := ends_pushSpanAt htaken hrow
      rw [hfault] at hends
      exact hends
  | case2 row codes hrow rows next hround ih =>
      have hends := ends_pushSpanAt htaken hrow
      rw [hround] at hends
      exact ih hends
  | case3 row codes hdone =>
      have hall : row = array.views.length := Nat.le_antisymm htaken.inside (Nat.le_of_not_lt hdone)
      subst hall
      exact htaken

end

/-! ## Binary arrays -/

namespace BinaryArray

variable {binary : BinaryArray}

theorem length_offsets (binary : BinaryArray) : binary.offsets.length = binary.len + 1 := by
  have hlength := List.length_pos_of_ne_nil binary.nonempty
  rw [len]
  omega

/-- Some value does not have the length of a code row. -/
def Uneven (binary : BinaryArray) (codeSize : ℕ) : Prop :=
  ∃ row < binary.len, binary.offsets.getD (row + 1) 0 - binary.offsets.getD row 0 ≠ codeSize

theorem offset_eq (hrow : row ≤ binary.len) :
    binary.offsets[row]? = some (binary.offsets.getD row 0) := by
  have hlength := binary.length_offsets
  rw [List.getElem?_eq_getElem (by omega), List.getD_eq_getElem _ _ (by omega)]

theorem offset_mem {row : ℕ} (hrow : row ≤ binary.len) :
    binary.offsets.getD row 0 ∈ binary.offsets := List.mem_of_getElem? (offset_eq hrow)

theorem offset_le (hrow : row < binary.len) :
    binary.offsets.getD row 0 ≤ binary.offsets.getD (row + 1) 0 := by
  have hlength := binary.length_offsets
  rw [List.getD_eq_getElem _ _ (by omega), List.getD_eq_getElem _ _ (by omega)]
  exact List.pairwise_iff_getElem.mp binary.sorted _ _ _ _ (Nat.lt_succ_self _)

/-- A value lies between two offsets. -/
theorem value_eq (hrow : row < binary.len) :
    binary.value row = some ((binary.data.drop (binary.offsets.getD row 0)).take
      (binary.offsets.getD (row + 1) 0 - binary.offsets.getD row 0)) := by
  rw [value, offset_eq hrow.le, Option.bind_some, offset_eq hrow, Option.bind_some,
    Checked.slice_of_le (offset_le hrow) (binary.bounded _ (offset_mem hrow)), List.drop_take]

/-- The windows that are looked at are those of the values. -/
theorem exists_window : (∃ pair ∈ binary.offsets.zip binary.offsets.tail,
    pair.2 - pair.1 ≠ codeSize) ↔ binary.Uneven codeSize := by
  have hlength := binary.length_offsets
  constructor
  · rintro ⟨pair, hpair, hdifferent⟩
    obtain ⟨row, hpair⟩ := List.mem_iff_getElem?.mp hpair
    rw [List.getElem?_zip_eq_some, List.getElem?_tail] at hpair
    have hrow : row + 1 < binary.offsets.length := (List.getElem?_eq_some_iff.mp hpair.2).1
    refine ⟨row, by omega, ?_⟩
    rw [List.getD_eq_getElem?_getD, List.getD_eq_getElem?_getD, hpair.1, hpair.2]
    exact hdifferent
  · rintro ⟨row, hrow, hdifferent⟩
    refine ⟨(binary.offsets.getD row 0, binary.offsets.getD (row + 1) 0),
      List.mem_iff_getElem?.mpr ⟨row, ?_⟩, hdifferent⟩
    rw [List.getElem?_zip_eq_some, List.getElem?_tail]
    exact ⟨offset_eq hrow.le, offset_eq hrow⟩

/-- Values of one length lie at equal distances. -/
theorem offset_eq_of_even (heven : ¬ binary.Uneven codeSize) (hrow : row ≤ binary.len) :
    binary.offsets.getD row 0 = binary.offsets.getD 0 0 + row * codeSize := by
  induction row with
  | zero => rw [Nat.zero_mul, Nat.add_zero]
  | succ row ih =>
      have hle : binary.offsets.getD row 0 ≤ binary.offsets.getD (row + 1) 0 := offset_le hrow
      have hwidth : binary.offsets.getD (row + 1) 0 - binary.offsets.getD row 0 = codeSize :=
        not_not.mp fun hdifferent => heven ⟨row, hrow, hdifferent⟩
      have hbefore := ih (Nat.le_of_succ_le hrow)
      rw [Nat.succ_mul]
      omega

/-- The stored bytes of the rows. -/
def values (binary : BinaryArray) (codeSize : ℕ) : List (List UInt8) :=
  (List.range binary.len).map
    (chunkAt codeSize (binary.data.drop (binary.offsets.getD 0 0)))

theorem value_eq_of_even (heven : ¬ binary.Uneven codeSize) (hrow : row < binary.len) :
    binary.value row = (binary.values codeSize)[row]? := by
  rw [value_eq hrow, offset_eq_of_even heven hrow.le,
    offset_eq_of_even heven (Nat.succ_le_of_lt hrow), Nat.succ_mul, ← Nat.add_assoc,
    Nat.add_sub_cancel_left, values, List.getElem?_map, List.getElem?_range hrow, Option.map_some,
    chunkAt, List.drop_drop]

theorem uniform_values (heven : ¬ binary.Uneven codeSize) :
    Uniform codeSize (binary.values codeSize) := by
  have hinside := binary.bounded _ (offset_mem (Nat.le_refl binary.len))
  rw [offset_eq_of_even heven (Nat.le_refl binary.len)] at hinside
  intro bytes hbytes
  obtain ⟨row, hrow, rfl⟩ := List.mem_map.mp hbytes
  have hend : (row + 1) * codeSize ≤ binary.len * codeSize :=
    Nat.mul_le_mul_right _ (List.mem_range.mp hrow)
  rw [Nat.succ_mul] at hend
  rw [chunkAt, List.length_take, List.length_drop, List.length_drop]
  omega

/-- The bytes between the first and the last offset. -/
theorem slice_eq (heven : ¬ binary.Uneven codeSize) :
    Checked.slice binary.data (binary.offsets.getD 0 0) (binary.offsets.getD binary.len 0) =
      some (binary.values codeSize).flatten := by
  have hinside := binary.bounded _ (offset_mem (Nat.le_refl binary.len))
  rw [offset_eq_of_even heven (Nat.le_refl binary.len)] at hinside ⊢
  rw [Checked.slice_of_le (Nat.le_add_right _ _) hinside, List.drop_take, Nat.add_sub_cancel_left,
    values, flatten_chunkAt_range]

end BinaryArray

/-! ## What is returned -/

/-- The code rows are the values of an array, in both ways of reading them. -/
structure Presents (codes : LvqCodeRows) (len : ℕ) (value : ℕ → Option (List UInt8)) :
    Prop where
  count : codes.rowCount = len
  rows : ∀ row < len, ∃ bytes, value row = some bytes ∧ codes.checkedRow row = some bytes
  visits : ∃ visits,
    codes.forEachRow (fun row bytes visits => some (visits ++ [(row, bytes)])) [] = some visits ∧
    visits.length = len ∧
    ∀ row < len, ∃ bytes, value row = some bytes ∧ visits[row]? = some (row, bytes)

/-- Code rows that hold the values of an array. -/
theorem presents_of_holds {values : List (List UInt8)} {value : ℕ → Option (List UInt8)}
    (hpushed : codes.Pushed) (hholds : codes.Holds codeSize values)
    (hvalue : ∀ row < values.length, value row = values[row]?) :
    Presents codes values.length value := by
  have hrow : ∀ row < values.length, ∃ bytes, value row = some bytes ∧
      values[row]? = some bytes := by
    intro row hrow
    have hget := List.getElem?_eq_getElem hrow
    exact ⟨values[row], (hvalue row hrow).trans hget, hget⟩
  refine ⟨hholds.count, fun row hlt => ?_, ?_⟩
  · obtain ⟨bytes, hbytes, hget⟩ := hrow row hlt
    refine ⟨bytes, hbytes, ?_⟩
    rw [hpushed.filled.checkedRow, hholds.visited]
    exact hget
  · obtain ⟨visits, hvisits, hlength, hseen⟩ := @LvqCodeRows.Filled.exists_forEachRow _
      (fun row bytes visits => some (visits ++ [(row, bytes)]))
      (fun row visits => visits.length = row ∧
        ∀ earlier < row, visits[earlier]? = codes.visited[earlier]?.map (earlier, ·))
      _ hpushed.filled (fun row hlt visits hkept => by
        refine ⟨_, rfl, by rw [List.length_append, hkept.1]; rfl, fun earlier hearlier => ?_⟩
        by_cases hlast : earlier = row
        · subst hlast
          rw [List.getElem?_append_right hkept.1.le, hkept.1, Nat.sub_self,
            List.getElem?_eq_getElem hlt]
          rfl
        · rw [List.getElem?_append_left (by omega)]
          exact hkept.2 earlier (by omega))
      [] ⟨rfl, fun earlier hearlier => absurd hearlier (Nat.not_lt_zero _)⟩
    rw [hholds.visited] at hlength hseen
    refine ⟨visits, hvisits, hlength, fun row hlt => ?_⟩
    obtain ⟨bytes, hbytes, hget⟩ := hrow row hlt
    refine ⟨bytes, hbytes, ?_⟩
    rw [hseen row hlt, hget]
    rfl

/-- How reading the values of an array as code rows has to end: with an error exactly for an empty
row or for a value of another length, and with the values otherwise. -/
structure Presented (outcome : Except Fault LvqCodeRows) (codeSize len : ℕ)
    (value : ℕ → Option (List UInt8)) : Prop where
  fails : (∃ message, outcome = .error (.execution message)) ↔
    codeSize = 0 ∨ ∃ row < len, ∃ bytes, value row = some bytes ∧ bytes.length ≠ codeSize
  inside : outcome ≠ .error .panic
  presents : ∀ codes, outcome = .ok codes → Presents codes len value

theorem tryNew_pos (hsize : 0 < codeSize) : LvqCodeRows.tryNew codeSize = .ok ⟨[], 0, codeSize⟩ :=
  if_neg hsize.ne'

theorem exists_uneven_value :
    (∃ row < array.views.length, ∃ bytes, array.value row = some bytes ∧ bytes.length ≠ codeSize) ↔
      array.Uneven codeSize := by
  constructor
  · rintro ⟨row, hrow, bytes, hbytes, hdifferent⟩
    rw [array.value_eq, BinaryViewArray.values, List.getElem?_map,
      List.getElem?_eq_getElem hrow] at hbytes
    cases hbytes
    refine ⟨array.views[row], List.getElem_mem hrow, ?_⟩
    rwa [BinaryViewArray.length_bytes (List.getElem_mem hrow)] at hdifferent
  · rintro ⟨raw, hraw, hdifferent⟩
    obtain ⟨row, hrow, rfl⟩ := List.getElem_of_mem hraw
    refine ⟨row, hrow, array.bytes array.views[row], ?_, ?_⟩
    · rw [array.value_eq, BinaryViewArray.values, List.getElem?_map,
        List.getElem?_eq_getElem hrow, Option.map_some]
    · rwa [BinaryViewArray.length_bytes hraw]

/-- How the search ends for a code size that a row can have. -/
theorem ends_binaryViewLvqSpans (array : BinaryViewArray) (hsize : 0 < codeSize) :
    Ends (Rejects array codeSize) (binaryViewLvqSpans array codeSize)
      (Taken array codeSize array.views.length) := by
  have hstart : Taken array codeSize 0 ⟨[], 0, codeSize⟩ :=
    ⟨Nat.zero_le _, fun index hindex => absurd hindex (Nat.not_lt_zero _),
      holds_tryNew (tryNew_pos hsize), .new (tryNew_pos hsize)⟩
  refine (ends_lvqCodesError (tryNew_pos hsize)).bind ?_
  rintro _ rfl
  exact ends_spansFrom hstart

theorem Taken.holds_values (htaken : Taken array codeSize array.views.length codes) :
    codes.Holds codeSize array.values := by
  have hall : array.values.take array.views.length = array.values :=
    List.take_of_length_le (by rw [BinaryViewArray.values, List.length_map])
  have hholds := htaken.holds
  rwa [hall] at hholds

theorem Taken.not_uneven (htaken : Taken array codeSize array.views.length codes) :
    ¬ array.Uneven codeSize := by
  rintro ⟨raw, hraw, hdifferent⟩
  obtain ⟨row, hrow, rfl⟩ := List.getElem_of_mem hraw
  obtain ⟨found, hfound, hlength⟩ := htaken.even row hrow
  rw [List.getElem?_eq_getElem hrow] at hfound
  cases hfound
  exact hdifferent hlength

theorem binaryViewLvqSpans_presented (array : BinaryViewArray) (codeSize : ℕ) :
    Presented (binaryViewLvqSpans array codeSize) codeSize array.views.length array.value := by
  rcases Nat.eq_zero_or_pos codeSize with rfl | hsize
  · exact ⟨iff_of_true ⟨_, rfl⟩ (.inl rfl), (fun hpanic => by cases hpanic),
      fun codes hcodes => by cases hcodes⟩
  · have hends := ends_binaryViewLvqSpans array hsize
    cases houtcome : binaryViewLvqSpans array codeSize with
    | error fault =>
        rw [houtcome] at hends
        obtain ⟨⟨message, rfl⟩, huneven⟩ := hends
        exact ⟨iff_of_true ⟨message, rfl⟩ (.inr (exists_uneven_value.mpr huneven)),
          (fun hpanic => by cases hpanic), fun codes hcodes => by cases hcodes⟩
    | ok codes =>
        rw [houtcome] at hends
        have htaken : Taken array codeSize array.views.length codes := hends
        refine ⟨iff_of_false (by rintro ⟨message, hmessage⟩; cases hmessage) ?_,
          (fun hpanic => by cases hpanic), fun final hfinal => ?_⟩
        · rintro (hzero | hvalue)
          · exact hsize.ne' hzero
          · exact htaken.not_uneven (exists_uneven_value.mp hvalue)
        · cases hfinal
          have hcount : array.values.length = array.views.length := by
            rw [BinaryViewArray.values, List.length_map]
          rw [← hcount]
          exact presents_of_holds htaken.pushed htaken.holds_values fun row _ => array.value_eq row

/-! ## Both kinds -/

theorem exists_uneven_binary_value (binary : BinaryArray) :
    (∃ row < binary.len, ∃ bytes, binary.value row = some bytes ∧ bytes.length ≠ codeSize) ↔
      binary.Uneven codeSize := by
  refine exists_congr fun row => and_congr_right fun hrow => ?_
  have hinside := binary.bounded _ (@BinaryArray.offset_mem binary (row + 1) hrow)
  have hlength : ((binary.data.drop (binary.offsets.getD row 0)).take
      (binary.offsets.getD (row + 1) 0 - binary.offsets.getD row 0)).length =
        binary.offsets.getD (row + 1) 0 - binary.offsets.getD row 0 := by
    rw [List.length_take, List.length_drop]
    omega
  rw [BinaryArray.value_eq hrow]
  constructor
  · rintro ⟨bytes, hbytes, hdifferent⟩
    cases hbytes
    rwa [hlength] at hdifferent
  · intro hdifferent
    exact ⟨_, rfl, by rwa [hlength]⟩

theorem binaryLvqCodes_presented (binary : BinaryArray) (codeSize : ℕ) :
    Presented (binaryLvqCodes binary codeSize) codeSize binary.len binary.value := by
  by_cases huneven : binary.Uneven codeSize
  · rw [binaryLvqCodes, if_pos (BinaryArray.exists_window.mpr huneven)]
    exact ⟨iff_of_true ⟨_, rfl⟩ (.inr ((exists_uneven_binary_value binary).mpr huneven)),
      (fun hpanic => by cases hpanic), fun codes hcodes => by cases hcodes⟩
  · have huniform := BinaryArray.uniform_values huneven
    have hfits : (binary.values codeSize).flatten.length ≤ Checked.wordMax := by
      have hslice := Checked.length_of_slice (BinaryArray.slice_eq huneven)
      have hlast := binary.fits _ (BinaryArray.offset_mem (Nat.le_refl binary.len))
      rw [hslice, Checked.wordMax]
      omega
    have hrun : binaryLvqCodes binary codeSize =
        lvqCodesError (LvqCodeRows.tryFromPacked (binary.values codeSize).flatten codeSize) := by
      rw [binaryLvqCodes, if_neg fun hwindow => huneven (BinaryArray.exists_window.mp hwindow),
        BinaryArray.offset_eq (Nat.zero_le _), BinaryArray.offset_eq (Nat.le_refl _)]
      show (orPanic (Checked.slice binary.data (binary.offsets.getD 0 0)
        (binary.offsets.getD binary.len 0)) >>= _) = _
      rw [BinaryArray.slice_eq huneven, ← checkedFromPacked_eq hfits]
      rfl
    rw [hrun]
    rcases Nat.eq_zero_or_pos codeSize with rfl | hsize
    · exact ⟨iff_of_true ⟨_, rfl⟩ (.inl rfl), (fun hpanic => by cases hpanic),
        fun codes hcodes => by cases hcodes⟩
    · obtain ⟨codes, hcodes, hholds⟩ := tryFromPacked_flatten hsize huniform
      rw [hcodes]
      refine ⟨iff_of_false (by rintro ⟨message, hmessage⟩; cases hmessage) ?_,
        (fun hpanic => by cases hpanic), fun final hfinal => ?_⟩
      · rintro (hzero | hvalue)
        · exact hsize.ne' hzero
        · exact huneven ((exists_uneven_binary_value binary).mp hvalue)
      · cases hfinal
        have hcount : (binary.values codeSize).length = binary.len := by
          rw [BinaryArray.values, List.length_map, List.length_range]
        rw [← hcount]
        exact presents_of_holds (pushed_of_tryFromPacked hcodes) hholds fun row hrow =>
          BinaryArray.value_eq_of_even huneven (hcount ▸ hrow)

/-- Reading a code column of either kind, with whatever offsets and buffers. -/
theorem code_rows_are_stored_rows (codeSize : ℕ) :
    (∀ array : BinaryViewArray,
      Presented (binaryViewLvqSpans array codeSize) codeSize array.views.length array.value) ∧
    ∀ binary : BinaryArray,
      Presented (binaryLvqCodes binary codeSize) codeSize binary.len binary.value :=
  ⟨fun array => binaryViewLvqSpans_presented array codeSize,
    fun binary => binaryLvqCodes_presented binary codeSize⟩

/-- A view of thirteen bytes of a buffer, and one that holds its two bytes. -/
def sampleViews : BinaryViewArray where
  views := [0x100000000000000000000000d, 0x60500000002]
  buffers := [List.replicate 14 7]
  fits := by decide
  valid := by
    rw [List.forall_mem_cons, List.forall_mem_singleton]
    refine ⟨fun _ => ⟨List.replicate 14 7, ?_, ?_⟩, fun hlong => absurd hlong ?_⟩ <;>
      decide +kernel

example : (List.range 2).map sampleViews.value = [some (List.replicate 13 7), some [5, 6]] := by
  decide +kernel

/-- Two values behind a byte that belongs to none. -/
def sampleBinary : BinaryArray :=
  ⟨[1, 3, 5], [9, 1, 2, 3, 4], by decide, by decide, by decide, by decide⟩

example : (List.range 2).map sampleBinary.value = [some [1, 2], some [3, 4]] := by decide

end ParqDB.Query.LvqCodes
