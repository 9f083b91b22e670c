import Mathlib.Data.List.Basic

/-!
# Flat storage of rows of equal length

`chunks size` is `chunks_exact`: the rows of a flat buffer, without an incomplete last one.
`chunksUpTo size` is `chunks`: it keeps the incomplete last one.
-/

namespace ParqDB.Foundations

variable {α : Type*} {size : ℕ} {rows : List (List α)}

/-- One row of a flat buffer. -/
def chunkAt (size : ℕ) (items : List α) (index : ℕ) : List α :=
  (items.drop (index * size)).take size

/-- The complete rows of a flat buffer. -/
def chunks (size : ℕ) (items : List α) : List (List α) :=
  (List.range (items.length / size)).map (chunkAt size items)

/-- The rows of a flat buffer, of which the last may be incomplete. -/
def chunksUpTo (size : ℕ) (items : List α) : List (List α) :=
  (List.range ((items.length + size - 1) / size)).map (chunkAt size items)

/-- All rows have the same length. -/
def Uniform (size : ℕ) (rows : List (List α)) : Prop :=
  ∀ row ∈ rows, row.length = size

variable {row items : List α}

theorem Uniform.of_cons (huniform : Uniform size (row :: rows)) :
    row.length = size ∧ Uniform size rows :=
  ⟨huniform row List.mem_cons_self, fun other hother =>
    huniform other (List.mem_cons_of_mem row hother)⟩

theorem Uniform.map {β : Type*} {f : List α → List β} (huniform : Uniform size rows)
    (hlength : ∀ row, (f row).length = row.length) : Uniform size (rows.map f) := by
  intro row hrow
  obtain ⟨other, hother, rfl⟩ := List.mem_map.mp hrow
  rw [hlength, huniform other hother]

theorem length_flatten (huniform : Uniform size rows) :
    rows.flatten.length = rows.length * size := by
  induction rows with
  | nil => simp
  | cons row rows ih =>
      obtain ⟨hrow, hrows⟩ := huniform.of_cons
      rw [List.flatten_cons, List.length_append, ih hrows, hrow, List.length_cons, Nat.succ_mul,
        Nat.add_comm]

theorem chunkAt_flatten (huniform : Uniform size rows) {index : ℕ} (hindex : index < rows.length) :
    chunkAt size rows.flatten index = rows[index] := by
  induction rows generalizing index with
  | nil => cases hindex
  | cons row rows ih =>
      obtain ⟨hrow, hrows⟩ := huniform.of_cons
      unfold chunkAt at ih ⊢
      cases index with
      | zero =>
          rw [Nat.zero_mul, List.drop_zero, List.flatten_cons, ← hrow, List.take_left]
          rfl
      | succ index =>
          have hdrop : (row ++ rows.flatten).drop ((index + 1) * size) =
              rows.flatten.drop (index * size) := by
            rw [Nat.succ_mul, ← hrow, Nat.add_comm, List.drop_length_add_append]
          rw [List.flatten_cons, hdrop]
          exact ih hrows (Nat.lt_of_succ_lt_succ hindex)

theorem chunks_flatten (hsize : 0 < size) (huniform : Uniform size rows) :
    chunks size rows.flatten = rows := by
  have hlength : rows.flatten.length / size = rows.length := by
    rw [length_flatten huniform, Nat.mul_div_cancel _ hsize]
  apply List.ext_getElem
  · rw [chunks, List.length_map, List.length_range, hlength]
  · intro index hchunk hindex
    simp only [chunks, List.getElem_map, List.getElem_range]
    exact chunkAt_flatten huniform hindex

/-- The items of a row are items of the buffer. -/
theorem mem_of_mem_chunks (hrow : row ∈ chunks size items) {item : α} (hitem : item ∈ row) :
    item ∈ items := by
  obtain ⟨index, -, rfl⟩ := List.mem_map.mp hrow
  exact List.mem_of_mem_drop (List.mem_of_mem_take hitem)

theorem uniform_chunks (size : ℕ) (items : List α) : Uniform size (chunks size items) := by
  intro row hrow
  obtain ⟨index, hindex, rfl⟩ := List.mem_map.mp hrow
  have hbelow : (index + 1) * size ≤ items.length := by
    calc (index + 1) * size
        ≤ items.length / size * size := Nat.mul_le_mul_right _ (List.mem_range.mp hindex)
      _ ≤ items.length := Nat.div_mul_le_self _ _
  rw [Nat.succ_mul] at hbelow
  rw [chunkAt, List.length_take, List.length_drop]
  omega

/-- A buffer of complete rows is the rows one after the other. -/
theorem exists_flatten (hitems : size ∣ items.length) :
    ∃ rows, Uniform size rows ∧ rows.flatten = items := by
  obtain ⟨count, hcount⟩ := hitems
  induction count generalizing items with
  | zero =>
      refine ⟨[], by simp [Uniform], ?_⟩
      rw [Nat.mul_zero] at hcount
      rw [List.length_eq_zero_iff.mp hcount]
      rfl
  | succ count ih =>
      rw [Nat.mul_succ] at hcount
      obtain ⟨rows, hrows, hflatten⟩ := @ih (items.drop size) (by rw [List.length_drop]; omega)
      refine ⟨items.take size :: rows, ?_, ?_⟩
      · intro row hrow
        rcases List.mem_cons.mp hrow with rfl | hrow
        · rw [List.length_take]
          omega
        · exact hrows row hrow
      · rw [List.flatten_cons, hflatten, List.take_append_drop]

/-- Consecutive chunks are what a buffer starts with. -/
theorem flatten_chunkAt_range (size count : ℕ) (items : List α) :
    ((List.range count).map (chunkAt size items)).flatten = items.take (count * size) := by
  induction count with
  | zero => simp
  | succ count ih =>
      calc ((List.range (count + 1)).map (chunkAt size items)).flatten
          = items.take (count * size) ++ (items.drop (count * size)).take size := by
            rw [List.range_succ, List.map_append, List.flatten_append, ih]
            simp [chunkAt]
        _ = items.take ((count + 1) * size) := by
            rw [Nat.succ_mul, List.take_add]

theorem flatten_chunks (hsize : 0 < size) {count : ℕ} (hlength : items.length = count * size) :
    (chunks size items).flatten = items := by
  rw [chunks, hlength, Nat.mul_div_cancel _ hsize, flatten_chunkAt_range, ← hlength,
    List.take_length]

theorem chunks_map {β : Type*} (size : ℕ) (f : α → β) (items : List α) :
    chunks size (items.map f) = (chunks size items).map (List.map f) := by
  rw [chunks, chunks, List.length_map, List.map_map]
  refine List.map_congr_left fun index _ => ?_
  rw [Function.comp_apply, chunkAt, chunkAt, List.map_take, List.map_drop]

theorem flatten_chunksUpTo (hsize : 0 < size) (items : List α) :
    (chunksUpTo size items).flatten = items := by
  rw [chunksUpTo, flatten_chunkAt_range]
  apply List.take_of_length_le
  have hdiv := Nat.div_add_mod (items.length + size - 1) size
  have hmod := Nat.mod_lt (items.length + size - 1) hsize
  rw [Nat.mul_comm] at hdiv
  omega

/-- Every chunk has an item, and not more than `size`. -/
theorem chunksUpTo_bounds (hsize : 0 < size) {chunk : List α}
    (hchunk : chunk ∈ chunksUpTo size items) : chunk ≠ [] ∧ chunk.length ≤ size := by
  obtain ⟨index, hindex, rfl⟩ := List.mem_map.mp hchunk
  have hbelow : index * size < items.length := by
    have hcount := List.mem_range.mp hindex
    rw [Nat.lt_iff_add_one_le, Nat.le_div_iff_mul_le hsize, Nat.succ_mul] at hcount
    omega
  have hlength : (chunkAt size items index).length = min size (items.length - index * size) := by
    simp [chunkAt]
  constructor
  · apply List.ne_nil_of_length_pos
    rw [hlength]
    omega
  · rw [hlength]
    omega

end ParqDB.Foundations
