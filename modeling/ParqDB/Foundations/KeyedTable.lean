import Mathlib.Data.List.Nodup
import Mathlib.Data.List.Perm.Basic
import Mathlib.Data.Option.Basic

/-!
# Tables with a primary key

A `KeyedTable key` is a list of rows in which no two rows have the same `key`.
The uniqueness constraint is a field, so every operation below has to re-establish
it and a table that violates its primary key cannot be built.

Every operation comes with one lemma that says what `find?` sees afterwards; the
rest of a development can then reason about a table as a partial function from
keys to rows.
-/

namespace ParqDB.Foundations

variable {Key Row : Type*}

/-- Rows with pairwise different keys. -/
@[ext]
structure KeyedTable (key : Row → Key) where
  rows : List Row
  uniqueKeys : (rows.map key).Nodup

namespace KeyedTable

variable {key : Row → Key}

def empty : KeyedTable key := ⟨[], by simp⟩

instance : Membership Row (KeyedTable key) := ⟨fun table row => row ∈ table.rows⟩

instance [DecidableEq Row] : DecidableEq (KeyedTable key) := fun left right =>
  decidable_of_iff (left.rows = right.rows) KeyedTable.ext_iff.symm

instance [DecidableEq Row] (row : Row) (table : KeyedTable key) : Decidable (row ∈ table) :=
  inferInstanceAs (Decidable (row ∈ table.rows))

variable {row : Row} {table : KeyedTable key} {selected : Row → Bool} {change : Row → Row}
  {hkey : ∀ row, key (change row) = key row} {k : Key} {table' : KeyedTable key}

theorem mem_def : row ∈ table ↔ row ∈ table.rows := Iff.rfl

@[simp] theorem not_mem_empty (row : Row) : row ∉ (empty : KeyedTable key) := by
  simp [mem_def, empty]

/-- Two rows of a table with the same key are the same row. -/
theorem eq_of_key_eq {left right : Row} (hleft : left ∈ table) (hright : right ∈ table)
    (hkey : key left = key right) : left = right :=
  List.inj_on_of_nodup_map table.uniqueKeys hleft hright hkey

/-- Removes the selected rows. -/
def delete (table : KeyedTable key) (selected : Row → Bool) : KeyedTable key where
  rows := table.rows.filter fun row => !selected row
  uniqueKeys := table.uniqueKeys.sublist (List.filter_sublist.map key)

@[simp] theorem mem_delete : row ∈ table.delete selected ↔ row ∈ table ∧ selected row = false := by
  simp [mem_def, delete]

/-- Applies `change` to the selected rows, whose keys it must not touch. -/
def update (table : KeyedTable key) (selected : Row → Bool) (change : Row → Row)
    (hkey : ∀ row, key (change row) = key row) : KeyedTable key where
  rows := table.rows.map fun row => if selected row then change row else row
  uniqueKeys := by
    have hsame : (table.rows.map fun row => if selected row then change row else row).map key =
        table.rows.map key := by
      rw [List.map_map]
      refine List.map_congr_left fun row _ => ?_
      by_cases hselected : selected row = true <;> simp [hselected, hkey]
    rw [hsame]
    exact table.uniqueKeys

theorem mem_update :
    row ∈ table.update selected change hkey ↔
      ∃ old ∈ table, row = if selected old then change old else old := by
  simp only [mem_def, update, List.mem_map]
  exact ⟨fun ⟨old, hold, heq⟩ => ⟨old, hold, heq.symm⟩, fun ⟨old, hold, heq⟩ => ⟨old, hold, heq.symm⟩⟩

variable [DecidableEq Key]

/-- The row stored under `k`. -/
def find? (table : KeyedTable key) (k : Key) : Option Row :=
  table.rows.find? fun row => key row = k

theorem find?_eq_some_iff : table.find? k = some row ↔ row ∈ table ∧ key row = k := by
  constructor
  · intro hfind
    exact ⟨List.mem_of_find?_eq_some hfind, by simpa using List.find?_some hfind⟩
  · rintro ⟨hmem, rfl⟩
    cases hfind : table.find? (key row) with
    | none =>
        have hnone := List.find?_eq_none.mp hfind row hmem
        simp at hnone
    | some found =>
        have hfound : key found = key row := by simpa using List.find?_some hfind
        rw [eq_of_key_eq (List.mem_of_find?_eq_some hfind) hmem hfound]

theorem find?_eq_none_iff : table.find? k = none ↔ ∀ row ∈ table, key row ≠ k := by
  simp [find?, mem_def, List.find?_eq_none]

theorem find?_key (hrow : row ∈ table) : table.find? (key row) = some row :=
  find?_eq_some_iff.mpr ⟨hrow, rfl⟩

/-- Adds a row unless its key is taken. -/
def insert? (table : KeyedTable key) (row : Row) : Option (KeyedTable key) :=
  if hfresh : table.find? (key row) = none then
    some ⟨row :: table.rows, by
      rw [List.map_cons, List.nodup_cons]
      refine ⟨?_, table.uniqueKeys⟩
      intro hmem
      obtain ⟨old, hold, heq⟩ := List.mem_map.mp hmem
      exact find?_eq_none_iff.mp hfresh old hold heq⟩
  else none

theorem insert?_eq_some (hinsert : table.insert? row = some table') :
    table.find? (key row) = none ∧ ∀ other, other ∈ table' ↔ other = row ∨ other ∈ table := by
  unfold insert? at hinsert
  split at hinsert
  · rename_i hfresh
    cases hinsert
    exact ⟨hfresh, fun other => List.mem_cons⟩
  · cases hinsert

theorem find?_insert? (hinsert : table.insert? row = some table') (k : Key) :
    table'.find? k = if key row = k then some row else table.find? k := by
  obtain ⟨hfresh, hmem⟩ := insert?_eq_some hinsert
  split
  · rename_i hkey
    exact find?_eq_some_iff.mpr ⟨(hmem row).mpr (Or.inl rfl), hkey⟩
  · rename_i hkey
    ext other
    simp only [find?_eq_some_iff, hmem]
    constructor
    · rintro ⟨rfl | hother, hk⟩
      · exact absurd hk hkey
      · exact ⟨hother, hk⟩
    · rintro ⟨hother, hk⟩
      exact ⟨Or.inr hother, hk⟩

/-- Adds a row, replacing the one stored under the same key. -/
def upsert (table : KeyedTable key) (row : Row) : KeyedTable key where
  rows := row :: (table.delete fun old => key old = key row).rows
  uniqueKeys := by
    rw [List.map_cons, List.nodup_cons]
    refine ⟨?_, (table.delete _).uniqueKeys⟩
    intro hmem
    obtain ⟨old, hold, heq⟩ := List.mem_map.mp hmem
    have hkept := (mem_delete.mp hold).2
    simp [heq] at hkept

@[simp] theorem mem_upsert {other : Row} :
    other ∈ table.upsert row ↔ other = row ∨ other ∈ table ∧ key other ≠ key row := by
  simp [mem_def, upsert, delete]

theorem find?_delete (table : KeyedTable key) (selected : Row → Bool) (k : Key) :
    (table.delete selected).find? k = (table.find? k).filter fun row => !selected row := by
  ext row
  simp only [Option.filter_eq_some_iff, find?_eq_some_iff, mem_delete, Bool.not_eq_true']
  tauto

theorem find?_update (table : KeyedTable key) (selected : Row → Bool) (change : Row → Row)
    (hkey : ∀ row, key (change row) = key row) (k : Key) :
    (table.update selected change hkey).find? k =
      (table.find? k).map fun row => if selected row then change row else row := by
  have hkept : ∀ row, key (if selected row then change row else row) = key row := by
    intro row
    split
    · exact hkey row
    · rfl
  ext row
  simp only [find?_eq_some_iff, mem_update, Option.map_eq_some_iff]
  constructor
  · rintro ⟨⟨old, hold, rfl⟩, hk⟩
    exact ⟨old, ⟨hold, by rwa [hkept] at hk⟩, rfl⟩
  · rintro ⟨old, ⟨hold, hk⟩, rfl⟩
    exact ⟨⟨old, hold, rfl⟩, by rw [hkept]; exact hk⟩

/-- The number of rows an `UPDATE` or `DELETE` with this condition reports. -/
def matching (table : KeyedTable key) (selected : Row → Bool) : ℕ :=
  table.rows.countP selected

/-- A condition that pins the key matches the row stored there, or nothing. -/
theorem matching_eq_of_key (hselected : ∀ row, selected row = true → key row = k) :
    table.matching selected = if (table.find? k).any selected then 1 else 0 := by
  have hle : ∀ rows : List Row, (rows.map key).Nodup →
      rows.countP selected = if (rows.find? fun row => key row = k).any selected then 1 else 0 := by
    intro rows
    induction rows with
    | nil => simp
    | cons head tail ih =>
        intro hnodup
        rw [List.map_cons, List.nodup_cons] at hnodup
        by_cases hhead : key head = k
        · -- the head holds the key, so no later row can be selected
          have hrest : tail.countP selected = 0 := by
            rw [List.countP_eq_zero]
            intro row hrow hsel
            exact hnodup.1 (List.mem_map.mpr ⟨row, hrow, (hselected row hsel).trans hhead.symm⟩)
          simp [List.countP_cons, hrest, hhead]
        · have hnot : selected head = false := by
            by_contra hsel
            exact hhead (hselected head (by simpa using hsel))
          simp [hnot, hhead, ih hnodup.2]
  exact hle table.rows table.uniqueKeys

/-- An update whose condition pins the key touches one row or none, so an update that did
not report one row changed nothing. -/
theorem update_eq_self (hselected : ∀ row, selected row = true → key row = k)
    (hcount : table.matching selected ≠ 1) : table.update selected change hkey = table := by
  rw [matching_eq_of_key hselected] at hcount
  have hnone : ∀ row ∈ table, selected row = false := by
    intro row hrow
    by_contra hsel
    rw [Bool.not_eq_false] at hsel
    have hfind : table.find? k = some row := find?_eq_some_iff.mpr ⟨hrow, hselected row hsel⟩
    simp [hfind, hsel] at hcount
  apply KeyedTable.ext
  conv_rhs => rw [← List.map_id table.rows]
  refine List.map_congr_left fun row hrow => ?_
  simp [hnone row hrow]

/-- An update whose condition pins the key and holds of the row stored there changes that
row and no other. -/
theorem find?_update_of_selected (hkey : ∀ row, key (change row) = key row)
    (hselected : ∀ row, selected row = true → key row = k) (hfind : table.find? k = some row)
    (hrow : selected row = true) (other : Key) :
    (table.update selected change hkey).find? other =
      if other = k then some (change row) else table.find? other := by
  rw [find?_update]
  split
  · rename_i hother
    simp [hother, hfind, hrow]
  · rename_i hother
    cases hfound : table.find? other with
    | none => rfl
    | some found =>
        have hnot : selected found = false := by
          rw [Bool.eq_false_iff]
          intro hsel
          exact hother ((find?_eq_some_iff.mp hfound).2.symm.trans (hselected found hsel))
        simp [hnot]

/-- An update whose condition pins the key and that reports one row selected the row stored
there. -/
theorem exists_selected_of_matching (hselected : ∀ row, selected row = true → key row = k)
    (hcount : table.matching selected = 1) :
    ∃ row, table.find? k = some row ∧ selected row = true := by
  rw [matching_eq_of_key hselected] at hcount
  cases hfind : table.find? k with
  | none => simp [hfind] at hcount
  | some row =>
      refine ⟨row, rfl, ?_⟩
      by_contra hnot
      simp [hfind, hnot] at hcount

end KeyedTable

end ParqDB.Foundations
