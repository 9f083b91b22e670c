import ParqDB.Foundations.Blocks
import ParqDB.Publish.Writers

/-!
# Rows of a published source table

The keys of a source table are numbered from zero, so that a reader of the manifest can find the
row of a key by division: `row-group-rows` is the size of the row groups.

**Results.**  `addressable_iff`: of the row groups that `_source_descriptor` accepts, the first may
be empty and the last may be larger than the others; the rows are found if and only if neither is
the case (`larger_last_group`).
-/

namespace ParqDB.Publish

open Foundations

variable {library : Library} {files : Files}

/-- The column has one value for each row. -/
def ParquetFile.Complete (parquet : ParquetFile) (column : String) : Prop :=
  (parquet.values column).length = parquet.rowGroups.sum

/-- The value in a row of a row group. -/
def ParquetFile.valueAt (parquet : ParquetFile) (column : String) (group row : ℕ) : Option ℤ :=
  if row < parquet.rowGroups.getD group 0 then
    (parquet.values column)[(parquet.rowGroups.take group).sum + row]?
  else none

/-- The descriptor tells where the row of each key is. -/
def Addressable (descriptor : JsonValue) (parquet : ParquetFile) (sourceKey : String) : Prop :=
  ∃ size : ℕ, descriptor.get? "row-group-rows" = some (.integer size) ∧ 0 < size ∧
    UniformBlocks size parquet.rowGroups ∧
    ∀ key < parquet.rowGroups.sum, ∀ group row,
      parquet.valueAt sourceKey group row = some (key : ℤ) ↔ group = key / size ∧ row = key % size

/-! ## What is accepted -/

/-- The keys are their positions. -/
theorem getElem?_of_validateSourceKey {values : List ℤ} {expected : ℕ}
    (hvalid : validateSourceKey expected values = .ok ()) {position : ℕ}
    (hposition : position < values.length) :
    values[position]? = some ((expected + position : ℕ) : ℤ) := by
  induction values generalizing expected position with
  | nil => cases hposition
  | cons value values ih =>
      rw [validateSourceKey] at hvalid
      split at hvalid
      · next hvalue =>
          cases position with
          | zero => rw [List.getElem?_cons_zero, hvalue, Nat.add_zero]
          | succ position =>
              rw [List.getElem?_cons_succ, ih hvalid (Nat.lt_of_succ_lt_succ hposition)]
              congr 2
              omega
      · cases hvalid

variable {parquet : ParquetFile}

/-- What `_source_descriptor` has checked of the row groups and the keys. -/
theorem sourceDescriptor_eq_ok {source : Path} {sourceKey : String}
    {manifest descriptor : JsonValue} {bytes : Bytes} (hbytes : files source = some bytes)
    (hparquet : library.parquetFile bytes = some parquet)
    (hsource : sourceDescriptor library files source sourceKey manifest = .ok descriptor) :
    parquet.rowGroups.sum ≠ 0 ∧ validateSourceKey 0 (parquet.values sourceKey) = .ok () ∧
      (∀ rows ∈ parquet.rowGroups.dropLast, rows = parquet.rowGroups.headD 0) ∧
      descriptor.get? "row-group-rows" = some (.integer (parquet.rowGroups.headD 0)) := by
  unfold sourceDescriptor at hsource
  rw [hbytes] at hsource
  dsimp only at hsource
  rw [hparquet] at hsource
  dsimp only at hsource
  split at hsource
  · cases hsource
  · simp only [seq_eq_ok, rejectIf_eq_ok] at hsource
    obtain ⟨-, -, hrows, hkeys, -, -, huniform, hdescriptor⟩ := hsource
    cases hdescriptor
    refine ⟨hrows, hkeys, fun rows hmember => ?_, rfl⟩
    by_contra hother
    exact huniform ⟨rows, hmember, hother⟩

/-! ## Where the keys are -/

variable {column : String} {block : ℕ} {sizes : List ℕ}

/-- Where a value is, if the values are their positions. -/
theorem valueAt_eq_some (hcomplete : parquet.Complete column)
    (hvalid : validateSourceKey 0 (parquet.values column) = .ok ()) {group row key : ℕ} :
    parquet.valueAt column group row = some (key : ℤ) ↔
      row < parquet.rowGroups.getD group 0 ∧ (parquet.rowGroups.take group).sum + row = key ∧
        key < parquet.rowGroups.sum := by
  have hvalue (position : ℕ) : (parquet.values column)[position]? = some (key : ℤ) ↔
      position = key ∧ key < parquet.rowGroups.sum := by
    rcases Nat.lt_or_ge position (parquet.values column).length with hinside | houtside
    · rw [getElem?_of_validateSourceKey hvalid hinside, Option.some.injEq, Nat.zero_add,
        Int.ofNat_inj, ← hcomplete]
      constructor
      · rintro rfl
        exact ⟨rfl, hinside⟩
      · exact fun hkey => hkey.1
    · rw [List.getElem?_eq_none houtside, ← hcomplete]
      constructor
      · intro hnone
        cases hnone
      · rintro ⟨rfl, hkey⟩
        omega
  unfold ParquetFile.valueAt
  split
  · next hrow =>
      rw [hvalue]
      exact (and_iff_right hrow).symm
  · next hrow =>
      constructor
      · intro hnone
        cases hnone
      · exact fun hkey => absurd hkey.1 hrow

theorem getD_eq_getElem (hblock : block < sizes.length) : sizes.getD block 0 = sizes[block] := by
  rw [List.getD_eq_getElem?_getD, List.getElem?_eq_getElem hblock, Option.getD_some]

theorem lt_length_of_getD {row : ℕ} (hrow : row < sizes.getD block 0) : block < sizes.length := by
  by_contra hbeyond
  rw [List.getD_eq_getElem?_getD, List.getElem?_eq_none (Nat.le_of_not_lt hbeyond)] at hrow
  exact absurd hrow (Nat.not_lt_zero row)

theorem valueAt_iff {size : ℕ} (hsize : 0 < size) (huniform : UniformBlocks size parquet.rowGroups)
    (hcomplete : parquet.Complete column)
    (hvalid : validateSourceKey 0 (parquet.values column) = .ok ()) {key : ℕ}
    (hkey : key < parquet.rowGroups.sum) (group row : ℕ) :
    parquet.valueAt column group row = some (key : ℤ) ↔ group = key / size ∧ row = key % size := by
  rw [valueAt_eq_some hcomplete hvalid]
  constructor
  · rintro ⟨hrow, rfl, -⟩
    have hgroup := lt_length_of_getD hrow
    rw [getD_eq_getElem hgroup] at hrow
    obtain ⟨hdiv, hmod⟩ := huniform.locate_unique hgroup hrow
    exact ⟨hdiv.symm, hmod.symm⟩
  · rintro ⟨rfl, rfl⟩
    obtain ⟨hgroup, hrow, hsame⟩ := huniform.locate hsize hkey
    rw [getD_eq_getElem hgroup]
    exact ⟨hrow, hsame, hkey⟩

/-- An accepted source is found by its keys if and only if its first row group is not empty and its
last one is not larger than the first. -/
theorem addressable_iff {source : Path} {sourceKey : String} {manifest descriptor : JsonValue}
    {bytes : Bytes} {parquet : ParquetFile} (hbytes : files source = some bytes)
    (hparquet : library.parquetFile bytes = some parquet)
    (hcomplete : parquet.Complete sourceKey)
    (hsource : sourceDescriptor library files source sourceKey manifest = .ok descriptor) :
    Addressable descriptor parquet sourceKey ↔
      0 < parquet.rowGroups.headD 0 ∧
        parquet.rowGroups.getLastD 0 ≤ parquet.rowGroups.headD 0 := by
  obtain ⟨-, hvalid, hfull, hdescriptor⟩ := sourceDescriptor_eq_ok hbytes hparquet hsource
  constructor
  · rintro ⟨size, hsize, hpos, huniform, -⟩
    rw [hdescriptor] at hsize
    obtain rfl : parquet.rowGroups.headD 0 = size :=
      Int.ofNat_inj.mp (JsonValue.integer.inj (Option.some.inj hsize))
    refine ⟨hpos, ?_⟩
    cases hlast : parquet.rowGroups.getLast? with
    | none =>
        rw [List.getLastD_eq_getLast?, hlast]
        exact Nat.zero_le _
    | some last =>
        rw [List.getLastD_eq_getLast?, hlast]
        exact huniform.last last hlast
  · rintro ⟨hpos, hlast⟩
    have huniform : UniformBlocks (parquet.rowGroups.headD 0) parquet.rowGroups := by
      refine ⟨hfull, fun last hmember => ?_⟩
      rw [List.getLastD_eq_getLast?, Option.mem_def.mp hmember] at hlast
      exact hlast
    exact ⟨_, hdescriptor, hpos, huniform, fun key hkey group row =>
      valueAt_iff hpos huniform hcomplete hvalid hkey group row⟩

/-! ## Files with five rows -/

/-- A file with a key column, whose rows are numbered. -/
def numberedFile (rowGroups : List ℕ) : ParquetFile where
  fields := [⟨"id", true, false⟩]
  rowGroups := rowGroups
  values _ := (List.range rowGroups.sum).map fun row => (row : ℤ)

/-- A library that finds this file in all bytes. -/
def numberedLibrary (rowGroups : List ℕ) : Library where
  loads _ := none
  jsonBytes _ := []
  str _ := ""
  repr text := text
  sha256 _ := "digest"
  parquetFile _ := some (numberedFile rowGroups)

/-- The manifest of an index over five rows. -/
def fiveRows : JsonValue := .object [("index", .object [
  ("ntotal", .integer 5),
  ("source-key-fields", .array [.object [("name", .string "id"), ("type", .string "long")]])])]

/-- What is published of a file with five rows. -/
def describedRows (rowGroupRows : ℕ) : JsonValue := .object [
  ("rows", .integer 5),
  ("row-group-rows", .integer rowGroupRows),
  ("key", .object [("name", .string "id"), ("type", .string "long")]),
  ("columns", .array [.string "id"]),
  ("files", .array [.object [
    ("path", .string "rows.parquet"),
    ("size", .integer 0),
    ("sha256", .string "digest"),
    ("row-begin", .integer 0),
    ("row-end", .integer 5)]])]

theorem complete_numberedFile (rowGroups : List ℕ) : (numberedFile rowGroups).Complete "id" := by
  simp [ParquetFile.Complete, numberedFile]

theorem uniform_groups_addressable : Addressable (describedRows 2) (numberedFile [2, 2, 1]) "id" :=
  (@addressable_iff (numberedLibrary [2, 2, 1]) (fun _ => some []) ["rows.parquet"] "id" fiveRows
    _ [] _ rfl rfl (complete_numberedFile _) rfl).mpr (by decide)

/-- A last row group that is larger than the first is accepted, and key 4 is sought in a row group
that does not exist. -/
theorem larger_last_group :
    sourceDescriptor (numberedLibrary [2, 3]) (fun _ => some []) ["rows.parquet"] "id" fiveRows =
      .ok (describedRows 2) ∧
    (numberedFile [2, 3]).valueAt "id" (4 / 2) (4 % 2) = none ∧
    ¬ Addressable (describedRows 2) (numberedFile [2, 3]) "id" := by
  refine ⟨rfl, by decide, ?_⟩
  rintro ⟨size, hsize, hpos, huniform, -⟩
  have htwo : ((2 : ℕ) : ℤ) = size := JsonValue.integer.inj (Option.some.inj hsize)
  have hlast : 3 ≤ size := huniform.last 3 rfl
  omega

end ParqDB.Publish
