import ParqDB.Ivf.SourceColumns

/-!
# The vector transform

`TransformVector` of `parqdb-local/src/vector.rs` on the arrays of a batch, with the checks of
`borrow_vectors_allow_nullable_elements` (`ivf/mod.rs`).

An array is its child and the bounds of its rows there; what the child has outside the bounds is
hidden.  Arrow's cast keeps the bounds and the hidden elements, and refuses to make elements
required while the child has a null.

**Strategy.**  An array with rows is transformed if and only if its rows are those of a matrix of
finite numbers and its child passes the last cast (`exists_invoke`, `matrix_of_invoke`).

**Results.**  `transform_rowWise_iff`: the transform is row-wise and well typed but for batches
without rows, whose elements stay nullable, and for nulls that the rows do not show.
-/

namespace ParqDB.Ivf

open Foundations Meta Parquet

/-! ## Arrays -/

/-- A list array.  Row `i` has the elements of the child from bound `i` to bound `i + 1`; in a
fixed-size array the bounds are multiples of the size, from that of the offset on.  The child lies
in memory, so that no bound overflows. -/
structure VectorArray (Value : Type) where
  layout : ListLayout
  item : String
  element : DataType
  nullable : Bool
  offset : ℕ
  offsets : List ℕ
  valid : List Bool
  values : List (Option Value)
  float : element = float32 ∨ element = float64
  length_offsets : offsets.length = valid.length + 1
  ordered : offsets.Pairwise (· ≤ ·)
  inside : ∀ bound ∈ offsets, bound ≤ values.length
  addressable : values.length < 2 ^ 63
  fixed : ∀ size, layout = .fixedSizeList size →
    offsets = (List.range (valid.length + 1)).map fun row => (offset + row) * size.toNat

namespace VectorArray

variable {Value : Type} (array : VectorArray Value)

def type : ColumnType := .vector array.layout array.item array.element array.nullable

def len : ℕ := array.valid.length

def nullCount : ℕ := array.valid.count false

/-- A bound of a row. -/
def bound (index : ℕ) : ℕ := array.offsets.getD index 0

/-- The elements of a row, or a null. -/
def row (index : ℕ) : Option (List (Option Value)) :=
  if array.valid.getD index false then
    some ((array.values.drop (array.bound index)).take
      (array.bound (index + 1) - array.bound index))
  else none

def rows : List (Option (List (Option Value))) := (List.range array.len).map array.row

def hasNull : Bool := array.values.any Option.isNone

/-- The cast to lists of `f32`. -/
def cast {Result : Type} (convert : Value → Result) (nullable : Bool) :
    Except String (VectorArray Result) :=
  if nullable = false ∧ array.hasNull = true then
    .error "Non-nullable field cannot contain nulls"
  else .ok {
    array with
    element := float32
    nullable
    values := array.values.map (Option.map convert)
    float := .inl rfl
    inside := by simpa using array.inside
    addressable := by simpa using array.addressable }

end VectorArray

/-! ## Numbers -/

/-- What the transform does with numbers: the cast of an element to `f32`, and the norm in `f64`.
The squares of finite numbers do not add up to an infinity in a vector that fits into memory. -/
structure VectorNumbers (Element Value Norm : Type) where
  toF32 : Element → Value
  isFinite : Value → Bool
  squaredNorm : List Value → Norm
  normIsFinite : Norm → Bool
  normIsZero : Norm → Bool
  normalizedValue : Norm → Value → Value
  finite_norm : ∀ vector, vector.length < 2 ^ 63 → (∀ value ∈ vector, isFinite value = true) →
    normIsFinite (squaredNorm vector) = true

inductive TransformError
  | source (message : String)
  | execution (message : String)
  | panic
deriving DecidableEq

def notFinite : TransformError :=
  .source "every vector must contain finite, non-null float values"

variable {Element Value Norm : Type} (numbers : VectorNumbers Element Value Norm)

/-! ## Borrowed vectors -/

def borrowFloatValues (values : List (Option Value)) (offset len : ℕ) :
    Except TransformError (List Value) := do
  rejectIf (values.length < offset + len) (.source "vector list offsets exceed the child array")
  let visible := (values.drop offset).take len
  rejectIf (visible.any Option.isNone = true ∨
      (visible.filterMap id).any (!numbers.isFinite ·) = true)
    notFinite
  .ok (visible.filterMap id)

/-- The loop over the bounds. -/
def sameDimension (dimension : ℕ) : ℕ → List ℕ → Bool
  | _, [] => true
  | previous, current :: rest =>
      previous ≤ current && current - previous = dimension && sameDimension dimension current rest

/-- `borrow_contiguous_list_vectors`. -/
def borrowContiguousListVectors (array : VectorArray Value) :
    Except TransformError (List Value × ℕ) := do
  rejectIf (array.len = 0 ∨ array.offsets.length ≠ array.len + 1)
    (.source "source table must contain at least one vector")
  rejectIf (array.nullCount ≠ 0) (.source "vector column must not contain nulls")
  rejectIf (array.bound 1 < array.bound 0) (.source "vector list offsets must be ordered")
  let dimension := array.bound 1 - array.bound 0
  rejectIf (dimension = 0 ∨ sameDimension dimension (array.bound 0) array.offsets.tail = false)
    (.source "all vectors must have the same positive dimension")
  let vectors ← borrowFloatValues numbers array.values (array.bound 0) (array.len * dimension)
  .ok (vectors, dimension)

/-- `borrow_fixed_list_vectors`. -/
def borrowFixedListVectors (array : VectorArray Value) (size : ℤ) :
    Except TransformError (List Value × ℕ) := do
  rejectIf (size < 0) (.source "invalid fixed-size vector dimension")
  let dimension := size.toNat
  rejectIf (array.len = 0 ∨ dimension = 0) (.source "vector dimension must be positive")
  rejectIf (array.nullCount ≠ 0) (.source "vector column must not contain nulls")
  let vectors ← borrowFloatValues numbers array.values (array.offset * dimension)
    (array.len * dimension)
  .ok (vectors, dimension)

/-- `borrow_vectors_allow_nullable_elements`, on lists of `f32`. -/
def borrowVectors (array : VectorArray Value) : Except TransformError (List Value × ℕ) :=
  match array.layout with
  | .fixedSizeList size => borrowFixedListVectors numbers array size
  | .list | .largeList => borrowContiguousListVectors numbers array

/-! ## The transform -/

def normalizeRows (values : List Value) (dimension : ℕ) : Except TransformError (List Value) := do
  rejectIf (dimension = 0 ∨ values.length % dimension ≠ 0)
    (.source "all vectors must have the same positive dimension")
  let rows ← (chunks dimension values).mapM fun vector => do
    let squaredNorm := numbers.squaredNorm vector
    rejectIf (numbers.normIsFinite squaredNorm = false ∨ numbers.normIsZero squaredNorm = true)
      (.source "cosine vectors must have a finite, non-zero norm")
    .ok (vector.map (numbers.normalizedValue squaredNorm))
  .ok rows.flatten

/-- Whether lists of a layout may have so many elements. -/
def ListLayout.fits : ListLayout → ℕ → Bool
  | .fixedSizeList size, dimension => size.toNat = dimension
  | _, _ => true

/-- The array of normalized rows, of the canonical type. -/
def rebuildVectorArray (array : VectorArray Value) (dimension : ℕ) (values : List Value) :
    Except TransformError (VectorArray Value) :=
  if hfits : array.layout.fits dimension = true then
    -- the constructors of Arrow panic on bounds outside of the child
    if hlength : values.length = array.len * dimension ∧ values.length < 2 ^ 63 then
      .ok {
        array with
        element := float32
        nullable := false
        offset := 0
        offsets := (List.range (array.len + 1)).map (· * dimension)
        valid := List.replicate array.len true
        values := values.map some
        float := .inl rfl
        length_offsets := by simp
        ordered := by
          rw [List.pairwise_map]
          exact List.pairwise_lt_range.imp fun hlt => Nat.mul_le_mul_right _ hlt.le
        inside := by
          simp only [List.mem_map, List.mem_range, List.length_map, hlength.1]
          rintro _ ⟨row, hrow, rfl⟩
          exact Nat.mul_le_mul_right _ (Nat.le_of_lt_succ hrow)
        addressable := by simpa using hlength.2
        fixed := by
          intro size hsize
          have hdimension : size.toNat = dimension := by simpa [ListLayout.fits, hsize] using hfits
          simp [hdimension] }
    else .error .panic
  else .error (.execution "fixed-size vector dimension changed during normalization")

/-- `invoke_with_args`, on an array. -/
def invoke (metric : DistanceMetric) (array : VectorArray Element) :
    Except TransformError (VectorArray Value) :=
  if canonicalVectorType array.type = none then
    .error (.execution "requires a list<float> or list<double> argument")
  else do
    let canonical ← (array.cast numbers.toF32 true).mapError .source
    if canonical.len = 0 then .ok canonical
    else do
      let (values, dimension) ← borrowVectors numbers canonical
      match metric with
      | .l2Squared => (canonical.cast id false).mapError (fun _ => notFinite)
      | .cosine => do
          let normalized ← normalizeRows numbers values dimension
          rebuildVectorArray canonical dimension normalized

/-- Arrow's `concat`: the type, and the rows of all arrays. -/
def concat (arrays : List (VectorArray Value)) :
    Except TransformError (ColumnType × List (Option (List (Option Value)))) :=
  match arrays with
  | [] => .error (.execution "concat requires input of at least one array")
  | first :: rest =>
      if rest.all (·.type = first.type) then .ok (first.type, (first :: rest).flatMap (·.rows))
      else .error (.execution "It is not possible to concatenate arrays of different data types")

/-- The transform of an array in batches. -/
def invokeBatches (metric : DistanceMetric) (batches : List (VectorArray Element)) :
    Except TransformError (ColumnType × List (Option (List (Option Value)))) := do
  concat (← batches.mapM (invoke numbers metric))

/-! ## Arrays with steps of one length -/

theorem map_some_injective : Function.Injective (List.map (some : Value → Option Value)) :=
  List.map_injective_iff.mpr (Option.some_injective Value)

theorem filterMap_map_some (items : List Value) : (items.map some).filterMap id = items := by
  rw [List.filterMap_map]
  exact List.filterMap_some

theorem map_some_filterMap {cells : List (Option Value)}
    (hcells : cells.any Option.isNone = false) : (cells.filterMap id).map some = cells := by
  induction cells with
  | nil => rfl
  | cons cell cells ih =>
      rw [List.any_cons, Bool.or_eq_false_iff] at hcells
      cases cell with
      | none => cases hcells.1
      | some value => rw [List.filterMap_cons, id, List.map_cons, ih hcells.2]

namespace VectorArray

variable {array : VectorArray Value} {dimension index : ℕ}

theorem bound_le (hindex : index ≤ array.len) : array.bound index ≤ array.values.length := by
  have hlength := array.length_offsets
  have hinside : index < array.offsets.length := by
    rw [hlength]
    exact Nat.lt_succ_of_le hindex
  rw [bound, List.getD_eq_getElem _ _ hinside]
  exact array.inside _ (List.getElem_mem hinside)

theorem bound_mono {first second : ℕ} (hle : first ≤ second) (hsecond : second ≤ array.len) :
    array.bound first ≤ array.bound second := by
  have hlength := array.length_offsets
  have hinside : second < array.offsets.length := by
    rw [hlength]
    exact Nat.lt_succ_of_le hsecond
  rw [bound, bound, List.getD_eq_getElem _ _ hinside,
    List.getD_eq_getElem _ _ (hle.trans_lt hinside)]
  rcases hle.eq_or_lt with rfl | hlt
  · exact le_rfl
  · exact List.pairwise_iff_getElem.mp array.ordered _ _ _ _ hlt

theorem row_of_valid (hvalid : array.nullCount = 0) (hindex : index < array.len) :
    array.row index = some ((array.values.drop (array.bound index)).take
      (array.bound (index + 1) - array.bound index)) := by
  have hnone : false ∉ array.valid := List.count_eq_zero.mp hvalid
  have hsome : array.valid.getD index false = true := by
    rw [List.getD_eq_getElem _ _ hindex]
    by_contra hnot
    exact hnone ((Bool.not_eq_true _).mp hnot ▸ List.getElem_mem hindex)
  rw [row, if_pos hsome]

variable (array dimension) in
/-- The bounds are steps of one length. -/
def Steps : Prop := ∀ index ≤ array.len, array.bound index = array.bound 0 + index * dimension

variable (array dimension) in
/-- The elements between the bounds. -/
def window : List (Option Value) :=
  (array.values.drop (array.bound 0)).take (array.len * dimension)

theorem Steps.end_le (hsteps : array.Steps dimension) :
    array.bound 0 + array.len * dimension ≤ array.values.length := by
  rw [← hsteps _ le_rfl]
  exact array.bound_le le_rfl

theorem Steps.length_window (hsteps : array.Steps dimension) :
    (array.window dimension).length = array.len * dimension := by
  have hend := hsteps.end_le
  rw [window, List.length_take, List.length_drop]
  omega

/-- The rows of an array with steps of one length stand one after the other in the child. -/
theorem rows_of_steps (hpositive : 0 < dimension) (hvalid : array.nullCount = 0)
    (hsteps : array.Steps dimension) :
    array.rows = (chunks dimension (array.window dimension)).map some := by
  rw [rows, chunks, hsteps.length_window, Nat.mul_div_cancel _ hpositive, List.map_map]
  refine List.map_congr_left fun index hindex => ?_
  have hrow := List.mem_range.mp hindex
  have hspace : dimension ≤ array.len * dimension - index * dimension := by
    rw [← Nat.sub_mul]
    exact Nat.le_mul_of_pos_left _ (Nat.sub_pos_of_lt hrow)
  rw [row_of_valid hvalid hrow, hsteps _ hrow.le, hsteps _ hrow, Function.comp_apply, chunkAt,
    window, List.drop_take, List.drop_drop, List.take_take, Nat.min_eq_left hspace]
  congr 2
  rw [Nat.succ_mul]
  omega

/-- Rows of one length come from steps of that length. -/
theorem steps_of_rows {vectors : List (List Value)}
    (hrows : array.rows = vectors.map fun vector => some (vector.map some))
    (huniform : Uniform dimension vectors) :
    array.nullCount = 0 ∧ array.Steps dimension := by
  have hrow : ∀ index < array.len, ∃ vector ∈ vectors,
      array.row index = some (vector.map some) := by
    intro index hindex
    have hmem : array.row index ∈ array.rows := List.mem_map_of_mem (List.mem_range.mpr hindex)
    rw [hrows] at hmem
    obtain ⟨vector, hvector, heq⟩ := List.mem_map.mp hmem
    exact ⟨vector, hvector, heq.symm⟩
  have hvalid : array.nullCount = 0 := by
    apply List.count_eq_zero.mpr
    intro hnull
    obtain ⟨index, hindex, hfalse⟩ := List.mem_iff_getElem.mp hnull
    obtain ⟨vector, -, hsome⟩ := hrow index hindex
    rw [row, List.getD_eq_getElem _ _ hindex, hfalse] at hsome
    cases hsome
  refine ⟨hvalid, fun index hindex => ?_⟩
  induction index with
  | zero => rw [Nat.zero_mul, Nat.add_zero]
  | succ index ih =>
      obtain ⟨vector, hvector, hsome⟩ := hrow index hindex
      rw [row_of_valid hvalid hindex] at hsome
      have hcount := congrArg List.length (Option.some.inj hsome)
      have hend := array.bound_le hindex
      have hmono := array.bound_mono (Nat.le_add_right index 1) hindex
      rw [List.length_take, List.length_drop, List.length_map, huniform vector hvector,
        Nat.min_eq_left (by omega)] at hcount
      rw [Nat.succ_mul, ← Nat.add_assoc, ← ih (by omega)]
      omega

end VectorArray

variable {array : VectorArray Value} {dimension : ℕ}

theorem VectorArray.bound_fixed {size : ℤ} (hlayout : array.layout = .fixedSizeList size)
    {index : ℕ} (hindex : index ≤ array.len) :
    array.bound index = (array.offset + index) * size.toNat := by
  rw [bound, array.fixed size hlayout, List.getD_eq_getElem _ _ (by
    rw [List.length_map, List.length_range]
    exact Nat.lt_succ_of_le hindex), List.getElem_map, List.getElem_range]

/-- The size of a fixed-size array is the length of its steps. -/
theorem VectorArray.size_of_steps {size : ℤ} (hlayout : array.layout = .fixedSizeList size)
    (hrows : array.len ≠ 0) (hsteps : array.Steps dimension) : size.toNat = dimension := by
  have hone := Nat.one_le_iff_ne_zero.mpr hrows
  have hfirst := hsteps 1 hone
  rw [bound_fixed hlayout hone, bound_fixed hlayout (Nat.zero_le _), Nat.add_zero,
    Nat.add_mul, Nat.one_mul, Nat.one_mul] at hfirst
  exact Nat.add_left_cancel hfirst

/-! ## What is borrowed -/

theorem sameDimension_iff {previous : ℕ} {bounds : List ℕ} :
    sameDimension dimension previous bounds = true ↔
      ∀ index ≤ bounds.length,
        (previous :: bounds).getD index 0 = previous + index * dimension := by
  induction bounds generalizing previous with
  | nil => simp [sameDimension]
  | cons current rest ih =>
      rw [sameDimension, Bool.and_eq_true, Bool.and_eq_true, decide_eq_true_iff,
        decide_eq_true_iff, ih]
      constructor
      · rintro ⟨⟨hle, hstep⟩, hrest⟩ index hindex
        cases index with
        | zero => simp
        | succ index =>
            rw [List.getD_cons_succ, hrest index (by simpa using hindex), Nat.succ_mul]
            omega
      · intro hall
        have hfirst : current = previous + dimension := by simpa using hall 1 (by simp)
        refine ⟨⟨by omega, by omega⟩, fun index hindex => ?_⟩
        have hnext := hall (index + 1) (by simpa using hindex)
        rw [List.getD_cons_succ, Nat.succ_mul] at hnext
        omega

theorem borrowFloatValues_eq_ok {values : List (Option Value)} {offset len : ℕ}
    {vectors : List Value} :
    borrowFloatValues numbers values offset len = .ok vectors ↔
      offset + len ≤ values.length ∧ (values.drop offset).take len = vectors.map some ∧
        ∀ value ∈ vectors, numbers.isFinite value = true := by
  unfold borrowFloatValues
  rw [rejectIf_bind_eq_ok, rejectIf_bind_eq_ok, not_lt, not_or, Bool.not_eq_true]
  refine and_congr_right fun _ => ?_
  constructor
  · rintro ⟨⟨hnull, hfinite⟩, hvectors⟩
    cases hvectors
    refine ⟨(map_some_filterMap hnull).symm, fun value hvalue => ?_⟩
    by_contra hnot
    exact hfinite (List.any_eq_true.mpr ⟨value, hvalue, by simpa using hnot⟩)
  · rintro ⟨hvisible, hfinite⟩
    rw [hvisible, filterMap_map_some]
    exact ⟨⟨by simp, by simpa using hfinite⟩, rfl⟩

variable {values : List Value}

/-- Both layouts ask for steps of one positive length, and for finite elements. -/
theorem borrowVectors_eq_ok :
    borrowVectors numbers array = .ok (values, dimension) ↔
      array.len ≠ 0 ∧ array.nullCount = 0 ∧ 0 < dimension ∧ array.Steps dimension ∧
        borrowFloatValues numbers array.values (array.bound 0) (array.len * dimension) =
          .ok values := by
  have hcontiguous : borrowContiguousListVectors numbers array = .ok (values, dimension) ↔
      array.len ≠ 0 ∧ array.nullCount = 0 ∧ 0 < dimension ∧ array.Steps dimension ∧
        borrowFloatValues numbers array.values (array.bound 0) (array.len * dimension) =
          .ok values := by
    have htail : array.offsets = array.bound 0 :: array.offsets.tail := by
      have hlength := array.length_offsets
      cases hoffsets : array.offsets with
      | nil => simp [hoffsets] at hlength
      | cons first rest => simp [VectorArray.bound, hoffsets]
    have hcount : array.offsets.tail.length = array.len := by
      rw [List.length_tail, array.length_offsets]
      rfl
    have hsteps : ∀ size, sameDimension size (array.bound 0) array.offsets.tail = true ↔
        array.Steps size := by
      intro size
      rw [sameDimension_iff, hcount, ← htail]
      rfl
    unfold borrowContiguousListVectors
    rw [rejectIf_bind_eq_ok, rejectIf_bind_eq_ok, rejectIf_bind_eq_ok, rejectIf_bind_eq_ok,
      bind_eq_ok]
    simp only [not_or, not_not, not_lt, Bool.not_eq_false, Except.ok.injEq, Prod.mk.injEq]
    constructor
    · rintro ⟨⟨hrows, -⟩, hvalid, -, ⟨hpositive, hsame⟩, vectors, hborrowed, rfl, rfl⟩
      exact ⟨hrows, hvalid, Nat.pos_of_ne_zero hpositive, (hsteps _).mp hsame, hborrowed⟩
    · rintro ⟨hrows, hvalid, hpositive, hall, hborrowed⟩
      have hfirst := hall 1 (Nat.one_le_iff_ne_zero.mpr hrows)
      have hdimension : array.bound 1 - array.bound 0 = dimension := by omega
      rw [hdimension]
      exact ⟨⟨hrows, array.length_offsets⟩, hvalid, by omega,
        ⟨hpositive.ne', (hsteps _).mpr hall⟩, values, hborrowed, rfl, rfl⟩
  unfold borrowVectors
  split
  · next size hlayout =>
      have hzero := VectorArray.bound_fixed hlayout (Nat.zero_le _)
      rw [Nat.add_zero] at hzero
      unfold borrowFixedListVectors
      rw [rejectIf_bind_eq_ok, rejectIf_bind_eq_ok, rejectIf_bind_eq_ok, bind_eq_ok, ← hzero]
      simp only [not_or, not_not, not_lt, Except.ok.injEq, Prod.mk.injEq]
      constructor
      · rintro ⟨-, ⟨hrows, hpositive⟩, hvalid, vectors, hborrowed, rfl, rfl⟩
        refine ⟨hrows, hvalid, Nat.pos_of_ne_zero hpositive, fun index hindex => ?_, hborrowed⟩
        rw [VectorArray.bound_fixed hlayout hindex, hzero, Nat.add_mul]
      · rintro ⟨hrows, hvalid, hpositive, hall, hborrowed⟩
        have hdimension := VectorArray.size_of_steps hlayout hrows hall
        rw [hdimension]
        exact ⟨by omega, ⟨hrows, hpositive.ne'⟩, hvalid, values, hborrowed, rfl, rfl⟩
  · exact hcontiguous
  · exact hcontiguous

/-! ## Casts -/

theorem canonicalVectorType_eq (array : VectorArray Value) :
    canonicalVectorType array.type = none ∨
      canonicalVectorType array.type = some (.vector array.layout array.item float32 false) := by
  unfold canonicalVectorType canonicalVectorTypeWithNullability VectorArray.type
  cases array.layout with
  | fixedSizeList size =>
      by_cases hsize : 0 < size
      · exact .inr (if_pos ⟨hsize, array.float⟩)
      · exact .inl (if_neg fun hboth => hsize hboth.1)
  | list => exact .inr (if_pos array.float)
  | largeList => exact .inr (if_pos array.float)

theorem canonicalVectorType_eq_none (hnone : canonicalVectorType array.type = none) :
    ∃ size, array.layout = .fixedSizeList size ∧ size.toNat = 0 := by
  unfold canonicalVectorType canonicalVectorTypeWithNullability VectorArray.type at hnone
  cases hlayout : array.layout with
  | fixedSizeList size =>
      rw [hlayout] at hnone
      by_cases hsize : 0 < size
      · simp [hsize, array.float] at hnone
      · exact ⟨size, rfl, by omega⟩
  | list => simp [hlayout, array.float] at hnone
  | largeList => simp [hlayout, array.float] at hnone

theorem any_isNone_map {Result : Type} (convert : Value → Result) (cells : List (Option Value)) :
    (cells.map (Option.map convert)).any Option.isNone = cells.any Option.isNone := by
  rw [List.any_map]
  congr 1
  funext cell
  cases cell <;> rfl

/-- What a cast changes. -/
structure IsCast {Result : Type} (convert : Value → Result) (nullable : Bool)
    (array : VectorArray Value) (result : VectorArray Result) : Prop where
  layout : result.layout = array.layout
  item : result.item = array.item
  type : result.type = .vector array.layout array.item float32 nullable
  valid : result.valid = array.valid
  offsets : result.offsets = array.offsets
  values : result.values = array.values.map (Option.map convert)

namespace VectorArray

variable {Result : Type} {convert : Value → Result} {nullable : Bool} {result : VectorArray Result}

theorem cast_eq_ok (hcast : array.cast convert nullable = .ok result) :
    IsCast convert nullable array result ∧ (nullable = false → array.hasNull = false) := by
  unfold cast at hcast
  split at hcast
  · cases hcast
  · next hpasses =>
      cases hcast
      exact ⟨⟨rfl, rfl, rfl, rfl, rfl, rfl⟩, fun hrequired => by simpa [hrequired] using hpasses⟩

variable (array) in
theorem exists_cast (convert : Value → Result) (nullable : Bool)
    (hpasses : nullable = false → array.hasNull = false) :
    ∃ result, array.cast convert nullable = .ok result := by
  unfold cast
  rw [if_neg (by rintro ⟨hrequired, hnull⟩; simp [hpasses hrequired] at hnull)]
  exact ⟨_, rfl⟩

end VectorArray

namespace IsCast

variable {Result : Type} {convert : Value → Result} {nullable : Bool} {result : VectorArray Result}

section

variable (hcast : IsCast convert nullable array result)

include hcast

theorem len : result.len = array.len := by
  rw [VectorArray.len, hcast.valid, VectorArray.len]

theorem bound (index : ℕ) :
    result.bound index = array.bound index := by
  rw [VectorArray.bound, hcast.offsets, VectorArray.bound]

theorem hasNull :
    result.hasNull = array.hasNull := by
  rw [VectorArray.hasNull, hcast.values, any_isNone_map, VectorArray.hasNull]

theorem rows :
    result.rows = array.rows.map (Option.map (List.map (Option.map convert))) := by
  rw [VectorArray.rows, hcast.len, VectorArray.rows, List.map_map]
  refine List.map_congr_left fun index _ => ?_
  rw [Function.comp_apply, VectorArray.row, VectorArray.row, hcast.valid, hcast.bound, hcast.bound,
    hcast.values]
  split
  · rw [Option.map_some, List.map_take, List.map_drop]
  · rfl

end

end IsCast

/-! ## Matrices -/

/-- The rows of a matrix of numbers that the transform takes. -/
structure IsMatrix (metric : DistanceMetric) (rows : List (Option (List (Option Element))))
    (dimension : ℕ) (vectors : List (List Element)) : Prop where
  rows : rows = vectors.map fun vector => some (vector.map some)
  positive : 0 < dimension
  uniform : Uniform dimension vectors
  finite : ∀ vector ∈ vectors, ∀ element ∈ vector,
    numbers.isFinite (numbers.toF32 element) = true
  norm : metric = .cosine → ∀ vector ∈ vectors,
    numbers.normIsZero (numbers.squaredNorm (vector.map numbers.toF32)) = false

theorem borrowVectors_cast {array : VectorArray Element} {canonical : VectorArray Value}
    (hcast : IsCast numbers.toF32 true array canonical) :
    borrowVectors numbers canonical = .ok (values, dimension) ↔
      array.len ≠ 0 ∧ ∃ vectors : List (List Element),
        array.rows = (vectors.map fun vector => some (vector.map some)) ∧ 0 < dimension ∧
          Uniform dimension vectors ∧ (∀ vector ∈ vectors, ∀ element ∈ vector,
            numbers.isFinite (numbers.toF32 element) = true) ∧
          values = vectors.flatten.map numbers.toF32 := by
  have hnulls : canonical.nullCount = array.nullCount := by
    rw [VectorArray.nullCount, hcast.valid, VectorArray.nullCount]
  have hsame : canonical.Steps dimension ↔ array.Steps dimension := by
    simp only [VectorArray.Steps, hcast.len, hcast.bound]
  rw [borrowVectors_eq_ok, borrowFloatValues_eq_ok, hcast.len, hnulls, hcast.values,
    List.length_map, hcast.bound, hsame, ← List.map_drop, ← List.map_take,
    ← VectorArray.window]
  refine and_congr_right fun hrows => ?_
  constructor
  · rintro ⟨hvalid, hpositive, hsteps, hinside, hvisible, hfinite⟩
    have hlength := hsteps.length_window
    have hcells : (array.window dimension).any Option.isNone = false := by
      rw [← any_isNone_map numbers.toF32, hvisible]
      simp
    have hall := map_some_filterMap hcells
    generalize (array.window dimension).filterMap id = items at hall
    have hwindow := VectorArray.rows_of_steps hpositive hvalid hsteps
    rw [← hall] at hlength hvisible hwindow
    have hvalues : items.map numbers.toF32 = values :=
      map_some_injective (by rw [← hvisible, List.map_map, List.map_map]; rfl)
    rw [List.length_map] at hlength
    have hflatten := flatten_chunks hpositive hlength
    refine ⟨chunks dimension items, ?_, hpositive, uniform_chunks _ _, ?_,
      by rw [hflatten, hvalues]⟩
    · rw [hwindow, chunks_map, List.map_map]
      rfl
    · intro vector hvector element helement
      exact hfinite _ (hvalues ▸ List.mem_map_of_mem (mem_of_mem_chunks hvector helement))
  · rintro ⟨vectors, hvectors, hpositive, huniform, hfinite, rfl⟩
    obtain ⟨hvalid, hsteps⟩ := VectorArray.steps_of_rows hvectors huniform
    have hchunks : chunks dimension (array.window dimension) = vectors.map (List.map some) := by
      apply List.map_injective_iff.mpr (Option.some_injective _)
      rw [← VectorArray.rows_of_steps hpositive hvalid hsteps, hvectors, List.map_map]
      rfl
    have hflatten := flatten_chunks hpositive hsteps.length_window
    rw [hchunks, ← List.map_flatten] at hflatten
    refine ⟨hvalid, hpositive, hsteps, hsteps.end_le, ?_, ?_⟩
    · rw [← hflatten, List.map_map, List.map_map]
      rfl
    · intro value hvalue
      obtain ⟨element, helement, rfl⟩ := List.mem_map.mp hvalue
      obtain ⟨vector, hvector, hmem⟩ := List.mem_flatten.mp helement
      exact hfinite vector hvector element hmem

/-! ## Normalized rows -/

/-- The canonical transform of one vector. -/
def VectorNumbers.canonical (metric : DistanceMetric) (vector : List Value) : List Value :=
  match metric with
  | .l2Squared => vector
  | .cosine => vector.map (numbers.normalizedValue (numbers.squaredNorm vector))

variable {vectors : List (List Value)}

theorem normalizeRows_eq (hpositive : 0 < dimension) (huniform : Uniform dimension vectors)
    (hnorm : ∀ vector ∈ vectors,
      numbers.normIsFinite (numbers.squaredNorm vector) = true ∧
        numbers.normIsZero (numbers.squaredNorm vector) = false) :
    normalizeRows numbers vectors.flatten dimension =
      .ok (vectors.map (numbers.canonical .cosine)).flatten := by
  unfold normalizeRows
  rw [rejectIf_bind_eq_ok, length_flatten huniform, Nat.mul_mod_left,
    chunks_flatten hpositive huniform, mapM_of_forall_eq_ok fun vector hvector => ?_]
  · exact ⟨by simp [hpositive.ne'], rfl⟩
  · rw [rejectIf_bind_eq_ok]
    exact ⟨by simp [hnorm vector hvector], rfl⟩

theorem norm_of_normalizeRows (hpositive : 0 < dimension)
    (huniform : Uniform dimension vectors)
    (hok : normalizeRows numbers vectors.flatten dimension = .ok values) :
    ∀ vector ∈ vectors, numbers.normIsZero (numbers.squaredNorm vector) = false := by
  intro vector hvector
  unfold normalizeRows at hok
  rw [rejectIf_bind_eq_ok, chunks_flatten hpositive huniform, bind_eq_ok] at hok
  obtain ⟨-, rows, hrows, -⟩ := hok
  obtain ⟨row, -, hrow⟩ := exists_result_of_mapM hrows hvector
  rw [rejectIf_bind_eq_ok, not_or] at hrow
  exact (Bool.not_eq_true _).mp hrow.1.2

theorem exists_rebuilt (hfits : array.layout.fits dimension = true) (hpositive : 0 < dimension)
    (huniform : Uniform dimension vectors) (hcount : vectors.length = array.len)
    (hsmall : array.len * dimension < 2 ^ 63) :
    ∃ result, rebuildVectorArray array dimension vectors.flatten = .ok result ∧
      result.type = .vector array.layout array.item float32 false ∧
      result.rows = vectors.map fun vector => some (vector.map some) := by
  have hlength : vectors.flatten.length = array.len * dimension := by
    rw [length_flatten huniform, hcount]
  unfold rebuildVectorArray
  rw [dif_pos hfits, dif_pos ⟨hlength, hlength ▸ hsmall⟩]
  refine ⟨_, rfl, rfl, ?_⟩
  have hbound : ∀ position ≤ array.len,
      ((List.range (array.len + 1)).map (· * dimension)).getD position 0 =
        position * dimension := by
    intro position hposition
    rw [List.getD_eq_getElem _ _ (by simp; omega), List.getElem_map, List.getElem_range]
  have hzero := hbound 0 (Nat.zero_le _)
  rw [VectorArray.rows_of_steps hpositive (by simp [VectorArray.nullCount, List.count_replicate])]
  · dsimp only [VectorArray.window, VectorArray.bound]
    rw [hzero, Nat.zero_mul, List.drop_zero, VectorArray.len, List.length_replicate,
      List.take_of_length_le (by rw [List.length_map, hlength]), chunks_map,
      chunks_flatten hpositive huniform, List.map_map]
    rfl
  · intro index hindex
    rw [VectorArray.len, List.length_replicate] at hindex
    dsimp only [VectorArray.bound]
    rw [hbound index hindex, hzero, Nat.zero_mul, Nat.zero_add]

/-! ## The outcome -/

/-- The transform of a row by itself. -/
def VectorNumbers.canonicalRow (metric : DistanceMetric) (row : Option (List (Option Element))) :
    Option (List (Option Value)) :=
  row.map fun cells =>
    (numbers.canonical metric (cells.filterMap (Option.map numbers.toF32))).map some

section

variable {numbers} {metric : DistanceMetric} {array : VectorArray Element}
  {result : VectorArray Value} {vectors : List (List Element)}

theorem filterMap_cells (vector : List Element) :
    (vector.map some).filterMap (Option.map numbers.toF32) = vector.map numbers.toF32 := by
  rw [List.filterMap_map]
  exact congrFun List.filterMap_eq_map' vector

theorem exists_invoke (hrows : array.len ≠ 0)
    (hmatrix : IsMatrix numbers metric array.rows dimension vectors)
    (hclean : metric = .l2Squared → array.hasNull = false) :
    ∃ result, invoke numbers metric array = .ok result ∧
      canonicalVectorType array.type = some result.type ∧
      result.rows = array.rows.map (numbers.canonicalRow metric) := by
  obtain ⟨-, hsteps⟩ := VectorArray.steps_of_rows hmatrix.rows hmatrix.uniform
  have htype := (canonicalVectorType_eq array).resolve_left fun hnone => by
    obtain ⟨size, hlayout, hsize⟩ := canonicalVectorType_eq_none hnone
    have hsame := VectorArray.size_of_steps hlayout hrows hsteps
    exact hmatrix.positive.ne' (hsame.symm.trans hsize)
  obtain ⟨canonical, hok⟩ := array.exists_cast numbers.toF32 true (by simp)
  obtain ⟨hcast, -⟩ := VectorArray.cast_eq_ok hok
  have hborrowed := (borrowVectors_cast numbers hcast).mpr ⟨hrows, vectors, hmatrix.rows,
    hmatrix.positive, hmatrix.uniform, hmatrix.finite, rfl⟩
  have hexpected : array.rows.map (numbers.canonicalRow metric) =
      (vectors.map fun vector => numbers.canonical metric (vector.map numbers.toF32)).map
        fun vector => some (vector.map some) := by
    rw [hmatrix.rows, List.map_map, List.map_map]
    refine List.map_congr_left fun vector _ => ?_
    simp only [Function.comp_apply, VectorNumbers.canonicalRow, Option.map_some, filterMap_cells]
  rw [hexpected, htype]
  unfold invoke
  rw [if_neg (by rw [htype]; exact Option.some_ne_none _), hok]
  show ∃ result, (if canonical.len = 0 then _ else _) = _ ∧ _
  rw [if_neg (hcast.len ▸ hrows), hborrowed, ok_bind]
  cases metric with
  | l2Squared =>
      obtain ⟨result, hlast⟩ := canonical.exists_cast id false fun _ =>
        hcast.hasNull.trans (hclean rfl)
      obtain ⟨hsame, -⟩ := VectorArray.cast_eq_ok hlast
      refine ⟨result, by rw [hlast]; rfl, by rw [hsame.type, hcast.layout, hcast.item], ?_⟩
      rw [hsame.rows, hcast.rows, hmatrix.rows, List.map_map, List.map_map, List.map_map]
      refine List.map_congr_left fun vector _ => ?_
      simp [VectorNumbers.canonical]
  | cosine =>
      have huniform : Uniform dimension (vectors.map (List.map numbers.toF32)) :=
        hmatrix.uniform.map fun _ => List.length_map _
      have hcount : vectors.length = array.len := by
        have hlength := congrArg List.length hmatrix.rows
        simpa [VectorArray.rows] using hlength.symm
      have hend := hsteps.end_le
      have haddressable := array.addressable
      have hvector_le : ∀ vector ∈ vectors, vector.length < 2 ^ 63 := by
        intro vector hvector
        have hle := Nat.le_mul_of_pos_left dimension (Nat.pos_of_ne_zero hrows)
        have hlength := hmatrix.uniform vector hvector
        omega
      have hnormalized := normalizeRows_eq numbers hmatrix.positive huniform (by
        intro row hrow
        obtain ⟨vector, hvector, rfl⟩ := List.mem_map.mp hrow
        refine ⟨numbers.finite_norm _ (by simpa using hvector_le vector hvector) ?_,
          hmatrix.norm rfl vector hvector⟩
        simpa using hmatrix.finite vector hvector)
      have hfits : canonical.layout.fits dimension = true := by
        rw [hcast.layout]
        cases hlayout : array.layout with
        | fixedSizeList size =>
            exact decide_eq_true (VectorArray.size_of_steps hlayout hrows hsteps)
        | list => rfl
        | largeList => rfl
      obtain ⟨result, hrebuilt, hresult, hrowsResult⟩ := exists_rebuilt hfits hmatrix.positive
        (huniform.map fun _ => List.length_map _) (by simp [hcount, hcast.len])
        (by rw [hcast.len]; omega)
      refine ⟨result, ?_, by rw [hresult, hcast.layout, hcast.item], ?_⟩
      · rw [List.map_flatten]
        dsimp only
        rw [hnormalized]
        exact hrebuilt
      · rw [hrowsResult, List.map_map, List.map_map, List.map_map]
        rfl

theorem matrix_of_invoke (hrows : array.len ≠ 0) (hok : invoke numbers metric array = .ok result) :
    (∃ dimension vectors, IsMatrix numbers metric array.rows dimension vectors) ∧
      (metric = .l2Squared → array.hasNull = false) := by
  unfold invoke at hok
  split at hok
  · cases hok
  · rw [bind_eq_ok] at hok
    obtain ⟨canonical, hcanonical, hok⟩ := hok
    cases hcast' : array.cast numbers.toF32 true with
    | error message =>
        rw [hcast'] at hcanonical
        cases hcanonical
    | ok other =>
        rw [hcast'] at hcanonical
        cases hcanonical
        obtain ⟨hcast, -⟩ := VectorArray.cast_eq_ok hcast'
        rw [if_neg (hcast.len ▸ hrows), bind_eq_ok] at hok
        obtain ⟨⟨values, dimension⟩, hborrowed, hok⟩ := hok
        obtain ⟨-, vectors, hvectors, hpositive, huniform, hfinite, rfl⟩ :=
          (borrowVectors_cast numbers hcast).mp hborrowed
        cases metric with
        | l2Squared =>
            refine ⟨⟨dimension, vectors, hvectors, hpositive, huniform, hfinite,
              fun hcosine => by cases hcosine⟩, fun _ => ?_⟩
            cases hlast : canonical.cast id false with
            | error message =>
                simp only [hlast] at hok
                cases hok
            | ok other => exact hcast.hasNull ▸ (VectorArray.cast_eq_ok hlast).2 rfl
        | cosine =>
            refine ⟨⟨dimension, vectors, hvectors, hpositive, huniform, hfinite, fun _ => ?_⟩,
              fun hl2 => by cases hl2⟩
            obtain ⟨normalized, hnormalized, -⟩ := bind_eq_ok.mp hok
            rw [List.map_flatten] at hnormalized
            intro vector hvector
            exact norm_of_normalizeRows numbers hpositive
              (huniform.map fun _ => List.length_map _) hnormalized _ (List.mem_map_of_mem hvector)

variable (numbers metric) in
theorem exists_invoke_empty (htype : canonicalVectorType array.type ≠ none)
    (hempty : array.len = 0) :
    ∃ result, invoke numbers metric array = .ok result ∧
      result.type = .vector array.layout array.item float32 true := by
  obtain ⟨canonical, hok⟩ := array.exists_cast numbers.toF32 true (by simp)
  obtain ⟨hcast, -⟩ := VectorArray.cast_eq_ok hok
  refine ⟨canonical, ?_, hcast.type⟩
  unfold invoke
  rw [if_neg htype, hok]
  exact if_pos (hcast.len.trans hempty)

end

/-! ## Batches -/

/-- What the transform does not take. -/
def Rejects (metric : DistanceMetric) (rows : List (Option (List (Option Element)))) : Prop :=
  none ∈ rows ∨
    (∃ cells, some cells ∈ rows ∧ (none ∈ cells ∨
      ∃ element, some element ∈ cells ∧ numbers.isFinite (numbers.toF32 element) = false)) ∨
    (¬ ∃ dimension, 0 < dimension ∧ ∀ cells, some cells ∈ rows → cells.length = dimension) ∨
    (metric = .cosine ∧ ∃ cells, some cells ∈ rows ∧ numbers.normIsZero
      (numbers.squaredNorm (cells.filterMap (Option.map numbers.toF32))) = true)

/-- Batches of one type with the rows of an array. -/
structure Splits (array : VectorArray Element) (batches : List (VectorArray Element)) : Prop where
  type : ∀ batch ∈ batches, batch.type = array.type
  rows : batches.flatMap (·.rows) = array.rows

/-- The transform gives what it declares, row by row and however the array is split. -/
structure IsRowWise (metric : DistanceMetric) (array : VectorArray Element)
    (batches : List (VectorArray Element)) : Prop where
  typed : ∀ result, invoke numbers metric array = .ok result →
    canonicalVectorType array.type = some result.type ∧
      result.rows = array.rows.map (numbers.canonicalRow metric)
  fails : array.len ≠ 0 →
    ((∃ error, invoke numbers metric array = .error error) ↔ Rejects numbers metric array.rows)
  batches : ∀ result, invoke numbers metric array = .ok result →
    invokeBatches numbers metric batches = .ok (result.type, result.rows)

section

variable {numbers} {metric : DistanceMetric} {array : VectorArray Element}
  {batches : List (VectorArray Element)}

variable {rows : List (Option (List (Option Element)))}

theorem not_rejects_of_isMatrix
    {vectors : List (List Element)} (hmatrix : IsMatrix numbers metric rows dimension vectors) :
    ¬ Rejects numbers metric rows := by
  have hcells : ∀ cells, some cells ∈ rows → ∃ vector ∈ vectors, cells = vector.map some := by
    intro cells hmem
    rw [hmatrix.rows] at hmem
    obtain ⟨vector, hvector, heq⟩ := List.mem_map.mp hmem
    exact ⟨vector, hvector, (Option.some.inj heq).symm⟩
  rintro (hnull | ⟨cells, hmem, hcell⟩ | hdimension | ⟨hcosine, cells, hmem, hzero⟩)
  · rw [hmatrix.rows] at hnull
    simp at hnull
  · obtain ⟨vector, hvector, rfl⟩ := hcells cells hmem
    rcases hcell with hnull | ⟨element, helement, hinfinite⟩
    · simp at hnull
    · rw [hmatrix.finite vector hvector element (by simpa using helement)] at hinfinite
      cases hinfinite
  · refine hdimension ⟨dimension, hmatrix.positive, fun cells hmem => ?_⟩
    obtain ⟨vector, hvector, rfl⟩ := hcells cells hmem
    rw [List.length_map, hmatrix.uniform vector hvector]
  · obtain ⟨vector, hvector, rfl⟩ := hcells cells hmem
    rw [filterMap_cells, hmatrix.norm hcosine vector hvector] at hzero
    cases hzero

theorem isMatrix_of_not_rejects (htaken : ¬ Rejects numbers metric rows) :
    ∃ dimension vectors, IsMatrix numbers metric rows dimension vectors := by
  rw [Rejects, not_or, not_or, not_or, not_not] at htaken
  obtain ⟨hvalid, hcells, ⟨dimension, hpositive, hsame⟩, hnorm⟩ := htaken
  have hrow : ∀ row ∈ rows, ∃ vector : List Element, row = some (vector.map some) := by
    intro row hmem
    cases row with
    | none => exact absurd hmem hvalid
    | some cells =>
        refine ⟨cells.filterMap id, congrArg some (map_some_filterMap ?_).symm⟩
        by_contra hnull
        obtain ⟨cell, hcell, hnone⟩ := List.any_eq_true.mp ((Bool.not_eq_false _).mp hnull)
        exact hcells ⟨cells, hmem, .inl (Option.isNone_iff_eq_none.mp hnone ▸ hcell)⟩
  have hvectors : rows = (rows.map fun row => (row.getD []).filterMap id).map
      fun vector => some (vector.map some) := by
    rw [List.map_map]
    refine (List.map_id rows).symm.trans (List.map_congr_left fun row hmem => ?_)
    obtain ⟨vector, rfl⟩ := hrow row hmem
    simp
  generalize rows.map (fun row => (row.getD []).filterMap id) = vectors at hvectors
  have hmem : ∀ vector ∈ vectors, some (vector.map some) ∈ rows := by
    intro vector hvector
    rw [hvectors]
    exact List.mem_map_of_mem hvector
  refine ⟨dimension, vectors, hvectors, hpositive, fun vector hvector => ?_,
    fun vector hvector element helement => ?_, fun hcosine vector hvector => ?_⟩
  · simpa using hsame _ (hmem vector hvector)
  · by_contra hinfinite
    exact hcells ⟨_, hmem vector hvector,
      .inr ⟨element, List.mem_map_of_mem helement, (Bool.not_eq_true _).mp hinfinite⟩⟩
  · by_contra hzero
    exact hnorm ⟨hcosine, _, hmem vector hvector,
      by simpa [filterMap_cells] using hzero⟩

theorem Rejects.mono {rows others : List (Option (List (Option Element)))}
    (hrejects : Rejects numbers metric rows) (hsubset : rows ⊆ others) :
    Rejects numbers metric others := by
  rcases hrejects with hnull | ⟨cells, hmem, hcell⟩ | hdimension | ⟨hcosine, cells, hmem, hzero⟩
  · exact .inl (hsubset hnull)
  · exact .inr (.inl ⟨cells, hsubset hmem, hcell⟩)
  · refine .inr (.inr (.inl ?_))
    rintro ⟨dimension, hpositive, hsame⟩
    exact hdimension ⟨dimension, hpositive, fun cells hmem => hsame cells (hsubset hmem)⟩
  · exact .inr (.inr (.inr ⟨hcosine, cells, hsubset hmem, hzero⟩))

/-- When a nonempty array is transformed. -/
theorem invoke_isOk_iff (hrows : array.len ≠ 0) :
    (∃ result, invoke numbers metric array = .ok result) ↔
      ¬ Rejects numbers metric array.rows ∧ (metric = .l2Squared → array.hasNull = false) := by
  constructor
  · rintro ⟨result, hok⟩
    obtain ⟨⟨dimension, vectors, hmatrix⟩, hclean⟩ := matrix_of_invoke hrows hok
    exact ⟨not_rejects_of_isMatrix hmatrix, hclean⟩
  · rintro ⟨htaken, hclean⟩
    obtain ⟨dimension, vectors, hmatrix⟩ := isMatrix_of_not_rejects htaken
    obtain ⟨result, hok, -⟩ := exists_invoke hrows hmatrix hclean
    exact ⟨result, hok⟩

variable {result : VectorArray Value}

theorem invoke_typed (hrows : array.len ≠ 0) (hok : invoke numbers metric array = .ok result) :
    canonicalVectorType array.type = some result.type ∧
      result.rows = array.rows.map (numbers.canonicalRow metric) := by
  obtain ⟨⟨dimension, vectors, hmatrix⟩, hclean⟩ := matrix_of_invoke hrows hok
  obtain ⟨other, hother, htyped⟩ := exists_invoke hrows hmatrix hclean
  rw [hok] at hother
  cases hother
  exact htyped

theorem concat_eq_ok {arrays : List (VectorArray Value)} {type : ColumnType}
    {rows : List (Option (List (Option Value)))} :
    concat arrays = .ok (type, rows) ↔ arrays ≠ [] ∧ (∀ array ∈ arrays, array.type = type) ∧
      rows = arrays.flatMap (·.rows) := by
  cases arrays with
  | nil => simp [concat]
  | cons first rest =>
      have hsame : rest.all (·.type = first.type) = true ↔
          ∀ array ∈ rest, array.type = first.type := by
        simp
      rw [List.forall_mem_cons, concat]
      constructor
      · intro hok
        split at hok
        · next hall =>
            cases hok
            exact ⟨List.cons_ne_nil _ _, ⟨rfl, hsame.mp hall⟩, rfl⟩
        · cases hok
      · rintro ⟨-, ⟨rfl, hall⟩, rfl⟩
        rw [if_pos (hsame.mpr hall)]

/-- The transform of batches is that of the array if and only if each has rows and passes. -/
theorem invokeBatches_eq_ok (hsplits : Splits array batches) (hrows : array.len ≠ 0)
    (hok : invoke numbers metric array = .ok result) :
    invokeBatches numbers metric batches = .ok (result.type, result.rows) ↔
      ∀ batch ∈ batches, batch.len ≠ 0 ∧ (metric = .l2Squared → batch.hasNull = false) := by
  obtain ⟨htype, hresult⟩ := invoke_typed hrows hok
  have hsupported : ∀ batch ∈ batches, canonicalVectorType batch.type = some result.type :=
    fun batch hbatch => hsplits.type batch hbatch ▸ htype
  unfold invokeBatches
  rw [bind_eq_ok]
  constructor
  · rintro ⟨results, hresults, hconcat⟩ batch hbatch
    obtain ⟨part, hpart, hinvoke⟩ := exists_result_of_mapM hresults hbatch
    have hsame := (concat_eq_ok.mp hconcat).2.1 part hpart
    have hnonempty : batch.len ≠ 0 := by
      intro hempty
      obtain ⟨other, hother, hnullable⟩ := exists_invoke_empty numbers metric
        (by rw [hsupported batch hbatch]; exact Option.some_ne_none _) hempty
      rw [hinvoke] at hother
      cases hother
      have hrequired := (canonicalVectorType_eq batch).resolve_left
        (by rw [hsupported batch hbatch]; exact Option.some_ne_none _)
      rw [hsupported batch hbatch, ← hsame, hnullable] at hrequired
      simp at hrequired
    exact ⟨hnonempty, ((invoke_isOk_iff hnonempty).mp ⟨part, hinvoke⟩).2⟩
  · intro hall
    have htaken := ((invoke_isOk_iff hrows).mp ⟨result, hok⟩).1
    have hinvokes : ∀ batch ∈ batches, ∃ part, invoke numbers metric batch = .ok part := by
      intro batch hbatch
      refine (invoke_isOk_iff (hall batch hbatch).1).mpr
        ⟨fun hrejects => htaken (hrejects.mono fun row hrow => ?_), (hall batch hbatch).2⟩
      rw [← hsplits.rows]
      exact List.mem_flatMap.mpr ⟨batch, hbatch, hrow⟩
    obtain ⟨results, hresults⟩ := exists_mapM hinvokes
    have htyped : ∀ batch ∈ batches, ∀ part, invoke numbers metric batch = .ok part →
        part.type = result.type ∧ part.rows = batch.rows.map (numbers.canonicalRow metric) := by
      intro batch hbatch part hinvoke
      obtain ⟨hpart, hpartRows⟩ := invoke_typed (hall batch hbatch).1 hinvoke
      rw [hsupported batch hbatch] at hpart
      exact ⟨(Option.some.inj hpart).symm, hpartRows⟩
    refine ⟨results, hresults, concat_eq_ok.mpr ⟨?_, fun part hpart => ?_, ?_⟩⟩
    · rintro rfl
      cases mapM_eq_ok.mp hresults
      have hnone := hsplits.rows
      exact hrows (by simpa [VectorArray.rows] using hnone.symm)
    · obtain ⟨batch, hbatch, hinvoke⟩ := exists_of_mem_mapM hresults hpart
      exact (htyped batch hbatch part hinvoke).1
    · have hparts := map_eq_map_of_mapM hresults fun batch hbatch part hinvoke =>
        (htyped batch hbatch part hinvoke).2
      rw [hresult, ← hsplits.rows, List.map_flatMap, List.flatMap_def, List.flatMap_def, hparts]

/-- The transform is row-wise exactly on arrays with rows whose batches have rows and, with
squared distances, no nulls in the child. -/
theorem transform_rowWise_iff (numbers : VectorNumbers Element Value Norm)
    (metric : DistanceMetric) (hsplits : Splits array batches) :
    IsRowWise numbers metric array batches ↔
      canonicalVectorType array.type = none ∨
        (array.len ≠ 0 ∧ (¬ Rejects numbers metric array.rows → ∀ part ∈ array :: batches,
          part.len ≠ 0 ∧ (metric = .l2Squared → part.hasNull = false))) := by
  have hfails : (∃ error, invoke numbers metric array = .error error) ↔
      ¬ ∃ result, invoke numbers metric array = .ok result := by
    cases invoke numbers metric array with
    | error error => simp
    | ok result => simp
  by_cases htype : canonicalVectorType array.type = none
  · refine ⟨fun _ => .inl htype, fun _ => ?_⟩
    have herror : ¬ ∃ result, invoke numbers metric array = .ok result := by
      rintro ⟨result, hok⟩
      unfold invoke at hok
      rw [if_pos htype] at hok
      cases hok
    refine ⟨fun result hok => absurd ⟨result, hok⟩ herror, fun hrows => ?_,
      fun result hok => absurd ⟨result, hok⟩ herror⟩
    refine iff_of_true (hfails.mpr herror) ?_
    by_contra htaken
    obtain ⟨dimension, vectors, hmatrix⟩ := isMatrix_of_not_rejects htaken
    obtain ⟨size, hlayout, hsize⟩ := canonicalVectorType_eq_none htype
    obtain ⟨-, hsteps⟩ := VectorArray.steps_of_rows hmatrix.rows hmatrix.uniform
    exact hmatrix.positive.ne' ((VectorArray.size_of_steps hlayout hrows hsteps).symm.trans hsize)
  · rw [or_iff_right htype]
    constructor
    · intro hrowWise
      have hrows : array.len ≠ 0 := by
        intro hempty
        obtain ⟨result, hok, hnullable⟩ := exists_invoke_empty numbers metric htype hempty
        have htyped := (hrowWise.typed result hok).1
        rw [(canonicalVectorType_eq array).resolve_left htype, hnullable] at htyped
        simp at htyped
      refine ⟨hrows, fun htaken => ?_⟩
      have hpasses : ∃ result, invoke numbers metric array = .ok result := by
        by_contra herror
        exact htaken ((hrowWise.fails hrows).mp (hfails.mpr herror))
      obtain ⟨result, hok⟩ := hpasses
      rw [List.forall_mem_cons]
      exact ⟨⟨hrows, ((invoke_isOk_iff hrows).mp ⟨result, hok⟩).2⟩,
        (invokeBatches_eq_ok hsplits hrows hok).mp (hrowWise.batches result hok)⟩
    · rintro ⟨hrows, hparts⟩
      refine ⟨fun result hok => invoke_typed hrows hok, fun _ => ?_, fun result hok => ?_⟩
      · rw [hfails, invoke_isOk_iff hrows, not_and_or, not_not]
        refine or_iff_left_of_imp fun hnull => ?_
        by_contra htaken
        exact hnull (hparts htaken array List.mem_cons_self).2
      · have htaken := ((invoke_isOk_iff hrows).mp ⟨result, hok⟩).1
        exact (invokeBatches_eq_ok hsplits hrows hok).mpr fun batch hbatch =>
          hparts htaken batch (List.mem_cons_of_mem _ hbatch)

end

/-! ## Unit vectors -/

/-- Whole numbers, all of them finite. -/
def wholeNumbers : VectorNumbers ℤ ℤ ℕ where
  toF32 := id
  isFinite _ := true
  squaredNorm vector := (vector.map fun value => value.natAbs ^ 2).sum
  normIsFinite _ := true
  normIsZero norm := norm = 0
  normalizedValue norm value := value / norm.sqrt
  finite_norm _ _ _ := rfl

/-- Rows of two elements, behind hidden nulls. -/
def unitRows (hidden rows : Fin 4) : VectorArray ℤ where
  layout := .list
  item := "item"
  element := float64
  nullable := true
  offset := 0
  offsets := (List.range (rows + 1)).map fun row => hidden + row * 2
  valid := List.replicate rows true
  values := List.replicate hidden none ++ (List.replicate rows [some 0, some 1]).flatten
  float := .inr rfl
  length_offsets := by simp
  ordered := by
    rw [List.pairwise_map]
    exact List.pairwise_lt_range.imp fun hlt => by omega
  inside := by
    simp only [List.mem_map, List.mem_range]
    rintro _ ⟨row, hrow, rfl⟩
    simp
    omega
  addressable := by
    simp
    omega
  fixed := by
    intro size hsize
    cases hsize

theorem transform_rowWise_cosine :
    IsRowWise wholeNumbers .cosine (unitRows 1 2) [unitRows 1 1, unitRows 3 1] :=
  (transform_rowWise_iff wholeNumbers .cosine ⟨by decide, by decide⟩).mpr
    (.inr ⟨by decide, fun _ => by decide⟩)

/-- A batch without rows keeps nullable elements, and a hidden null is refused. -/
theorem not_rowWise_l2Squared :
    ¬ IsRowWise wholeNumbers .l2Squared (unitRows 0 0) [unitRows 0 0] ∧
      ¬ IsRowWise wholeNumbers .l2Squared (unitRows 1 1) [unitRows 1 1] := by
  constructor
  · intro hrowWise
    exact absurd (hrowWise.typed _ rfl).1 (by decide)
  · intro hrowWise
    have hrejects := (hrowWise.fails (by decide)).mp ⟨_, rfl⟩
    have hmatrix : IsMatrix wholeNumbers .l2Squared (unitRows 1 1).rows 2 [[0, 1]] :=
      ⟨by decide, by decide, by simp [Uniform], by simp [wholeNumbers], by simp⟩
    exact not_rejects_of_isMatrix hmatrix hrejects

end ParqDB.Ivf
