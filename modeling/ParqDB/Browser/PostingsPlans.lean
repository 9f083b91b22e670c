import Mathlib.Data.List.Infix
import Mathlib.Data.Rat.Defs
import ParqDB.Browser.RangeBuffer
import ParqDB.Foundations.Outcome

/-!
# Plans of postings files

`planPostings`, `rowGroupCid` and `appendSpan` of `src/browser/src/index.ts`: the metadata of a
postings file says which of its rows a search reads.

**Results.** In a file whose row groups hold one cluster each, the planned spans are the rows of the
selected clusters, in their order (`planPostings_eq`), however neighbouring row groups are merged.
-/

namespace ParqDB.Browser

open Foundations

/-! ## Values -/

/-- A value of JavaScript, as far as the client tells them apart. -/
inductive Value
  | undefined
  | null
  | boolean (value : Bool)
  | number (value : ℚ)
  /-- NaN and the infinities. -/
  | notFinite
  | bigint (value : ℤ)
  | string (value : String)
  | date (time : ℤ)
  | bytes (value : List UInt8)
deriving DecidableEq

namespace Value

/-- `left ?? right` -/
def coalesce (left right : Value) : Value :=
  match left with
  | .undefined => right
  | .null => right
  | value => value

/-- The safe integer that a number or a `bigint` is.  A larger `bigint` is rounded to a number that
is none. -/
def safeInteger : Value → Option ℤ
  | .bigint value => if value.natAbs ≤ maxSafeInteger then some value else none
  | .number value =>
      if value.den = 1 ∧ value.num.natAbs ≤ maxSafeInteger then some value.num else none
  | _ => none

end Value

def requiredInteger (value : Value) (label : String) : Except String ℤ :=
  match value.safeInteger with
  | some converted => .ok converted
  | none => .error (label ++ " must be a portable integer")

def portableBigint (value : ℤ) (label : String) : Except String ℕ :=
  if value ≤ 0 ∨ maxSafeInteger < value then .error (label ++ " is not portable")
  else .ok value.toNat

/-! ## Metadata -/

structure Statistics where
  nullCount : Option ℤ
  isMinValueExact : Option Bool
  isMaxValueExact : Option Bool
  minValue : Value
  min : Value
  maxValue : Value
  max : Value

structure ColumnMetaData where
  pathInSchema : List String
  statistics : Option Statistics

structure RowGroup where
  numRows : ℤ
  columns : List (Option ColumnMetaData)

structure FileMetaData where
  numRows : ℤ
  rowGroups : List RowGroup

def cidStatistics (rowGroup : RowGroup) : Option Statistics :=
  (rowGroup.columns.findSome? fun entry =>
    entry.filter fun metaData => metaData.pathInSchema = ["cid"]).bind ColumnMetaData.statistics

def rowGroupCid (rowGroup : RowGroup) : Except String ℤ :=
  match cidStatistics rowGroup with
  | none => .error "postings row group requires exact, non-null CID statistics"
  | some statistics =>
      if statistics.nullCount ≠ some 0 ∨ statistics.isMinValueExact = some false ∨
          statistics.isMaxValueExact = some false then
        .error "postings row group requires exact, non-null CID statistics"
      else do
        let minCid ← requiredInteger (statistics.minValue.coalesce statistics.min)
          "row-group minimum CID"
        let maxCid ← requiredInteger (statistics.maxValue.coalesce statistics.max)
          "row-group maximum CID"
        if minCid ≠ maxCid then .error "postings row group contains multiple CIDs" else .ok minCid

/-! ## Spans -/

/-- The rows from `start` to before `stop`. -/
structure RowSpan where
  start : ℕ
  stop : ℕ
deriving DecidableEq

/-- The rows of a span. -/
def RowSpan.rows {α : Type} (span : RowSpan) (items : List α) : List α :=
  (items.take span.stop).drop span.start

/-- `span.end - span.start` -/
def RowSpan.count (span : RowSpan) : ℕ := span.stop - span.start

def appendSpan (spans : List RowSpan) (start stop : ℕ) : List RowSpan :=
  match spans.getLast? with
  | none => spans ++ [⟨start, stop⟩]
  | some previous =>
      if previous.stop = start then spans.dropLast ++ [{ previous with stop := stop }]
      else spans ++ [⟨start, stop⟩]

structure PostingsFile where
  path : String
  minCid : ℤ
  maxCid : ℤ
  rows : ℕ

def intersects (file : PostingsFile) (selected : List ℤ) : Bool :=
  selected.any fun cid => file.minCid ≤ cid ∧ cid ≤ file.maxCid

/-- The spans so far, and the first row of the next row group. -/
structure Planned where
  spans : List RowSpan
  rowStart : ℕ

def planRowGroup (file : PostingsFile) (selected : List ℤ) (planned : Planned)
    (rowGroup : RowGroup) : Except String Planned := do
  let rows ← portableBigint rowGroup.numRows "row-group rows"
  let cid ← rowGroupCid rowGroup
  rejectIf (cid < file.minCid ∨ file.maxCid < cid) "row-group CID is outside manifest file range"
  pure {
    spans := if cid ∈ selected then
        appendSpan planned.spans planned.rowStart (planned.rowStart + rows)
      else planned.spans
    rowStart := planned.rowStart + rows }

def planPostings (file : PostingsFile) (metadata : FileMetaData) (selected : List ℤ) :
    Except String (List RowSpan) := do
  rejectIf (metadata.numRows ≠ file.rows) "postings file row count does not match manifest"
  let planned ← metadata.rowGroups.foldlM (planRowGroup file selected) ⟨[], 0⟩
  rejectIf (planned.rowStart ≠ file.rows) "postings row groups do not cover manifest rows"
  pure planned.spans

/-! ## Rows of spans -/

section

variable {α β : Type} {items : List α}

theorem RowSpan.length_rows {span : RowSpan} (hstop : span.stop ≤ items.length) :
    (span.rows items).length = span.count := by
  rw [RowSpan.rows, List.length_drop, List.length_take, Nat.min_eq_left hstop, RowSpan.count]

/-- Two spans that meet. -/
theorem rows_append_rows {start middle stop : ℕ} (hstart : start ≤ middle) (hstop : middle ≤ stop) :
    RowSpan.rows ⟨start, middle⟩ items ++ RowSpan.rows ⟨middle, stop⟩ items =
      RowSpan.rows ⟨start, stop⟩ items := by
  have hsplit : items.take stop = items.take middle ++ (items.take stop).drop middle := by
    conv_lhs => rw [← List.take_append_drop middle (items.take stop), List.take_take,
      Nat.min_eq_left hstop]
  by_cases hshort : items.length < start
  · simp only [RowSpan.rows]
    rw [List.drop_eq_nil_of_le (by rw [List.length_take]; omega),
      List.drop_eq_nil_of_le (by rw [List.length_take]; omega),
      List.drop_eq_nil_of_le (by rw [List.length_take]; omega)]
    rfl
  · have hlength : start ≤ (items.take middle).length := by
      rw [List.length_take]
      omega
    simp only [RowSpan.rows]
    rw [hsplit, List.drop_append_of_le_length hlength, ← hsplit]

/-- Spans of a file: none is empty, and none goes past a row. -/
def SpansTo (bound : ℕ) (spans : List RowSpan) : Prop :=
  ∀ span ∈ spans, span.start < span.stop ∧ span.stop ≤ bound

/-- Another span adds its rows, whether it is merged or not. -/
theorem appendSpan_spec {spans : List RowSpan} {start stop : ℕ} (hspans : SpansTo start spans)
    (hlt : start < stop) :
    SpansTo stop (appendSpan spans start stop) ∧
      (appendSpan spans start stop).flatMap (RowSpan.rows · items) =
        spans.flatMap (RowSpan.rows · items) ++ RowSpan.rows ⟨start, stop⟩ items := by
  have hold : SpansTo stop spans := fun span hspan =>
    ⟨(hspans span hspan).1, le_trans (hspans span hspan).2 hlt.le⟩
  have hpushed : SpansTo stop (spans ++ [⟨start, stop⟩]) ∧
      (spans ++ [RowSpan.mk start stop]).flatMap (RowSpan.rows · items) =
        spans.flatMap (RowSpan.rows · items) ++ RowSpan.rows ⟨start, stop⟩ items := by
    constructor
    · intro span hspan
      rcases List.mem_append.mp hspan with hbefore | hnew
      · exact hold span hbefore
      · rw [List.mem_singleton.mp hnew]
        exact ⟨hlt, le_refl _⟩
    · rw [List.flatMap_append, List.flatMap_singleton]
  unfold appendSpan
  split
  · exact hpushed
  · next previous hprevious =>
      split
      · next hmeets =>
          -- the last span and the new one are one span
          obtain ⟨others, hothers⟩ := List.getLast?_eq_some_iff.mp hprevious
          have hlast := hspans previous (List.mem_of_mem_getLast? hprevious)
          have hmerged := @rows_append_rows α items previous.start start stop
            (hmeets ▸ hlast.1.le) hlt.le
          constructor
          · intro span hspan
            rcases List.mem_append.mp hspan with hbefore | hnew
            · exact hold span (List.mem_of_mem_dropLast hbefore)
            · rw [List.mem_singleton.mp hnew]
              exact ⟨lt_trans (hmeets ▸ hlast.1) hlt, le_refl _⟩
          · rw [hothers, List.dropLast_concat, List.flatMap_append, List.flatMap_append,
              List.flatMap_singleton, List.flatMap_singleton, List.append_assoc, ← hmerged,
              ← hmeets]
      · exact hpushed

/-! ## Plans -/

/-- The rows of a row group are of the one cluster that its statistics name. -/
structure OneCluster (file : PostingsFile) (cidOf : α → Option ℤ) (rowGroup : RowGroup)
    (rows : List α) (cid : ℤ) : Prop where
  named : rowGroupCid rowGroup = .ok cid
  inRange : file.minCid ≤ cid ∧ cid ≤ file.maxCid
  numRows : rowGroup.numRows = rows.length
  nonempty : 0 < rows.length
  safe : rows.length ≤ maxSafeInteger
  cids : ∀ row ∈ rows, cidOf row = some cid

/-- Whether a row is of a selected cluster. -/
def ofSelected (cidOf : α → Option ℤ) (selected : List ℤ) (row : α) : Bool :=
  (cidOf row).any (· ∈ selected)

variable {cidOf : α → Option ℤ} {file : PostingsFile} {groups : List (List α)}

/-- One row group. -/
theorem planRowGroup_spec {selected : List ℤ} {rowGroup : RowGroup} {before group after : List α}
    {cid : ℤ} {planned : Planned} (hcluster : OneCluster file cidOf rowGroup group cid)
    (hitems : items = before ++ group ++ after) (hstart : planned.rowStart = before.length)
    (hspans : SpansTo before.length planned.spans)
    (hrows : planned.spans.flatMap (RowSpan.rows · items) =
      before.filter (ofSelected cidOf selected)) :
    ∃ next, planRowGroup file selected planned rowGroup = .ok next ∧
      next.rowStart = (before ++ group).length ∧ SpansTo (before ++ group).length next.spans ∧
      next.spans.flatMap (RowSpan.rows · items) =
        (before ++ group).filter (ofSelected cidOf selected) := by
  have hportable : portableBigint rowGroup.numRows "row-group rows" = .ok group.length := by
    have hpos := hcluster.nonempty
    have hsafe := hcluster.safe
    rw [hcluster.numRows, portableBigint, if_neg (by omega), Int.toNat_natCast]
  have hrange : rejectIf (cid < file.minCid ∨ file.maxCid < cid)
      "row-group CID is outside manifest file range" = .ok () := by
    rw [rejectIf_eq_ok]
    have hinRange := hcluster.inRange
    omega
  have hread : RowSpan.rows ⟨before.length, before.length + group.length⟩ items = group := by
    rw [RowSpan.rows, hitems, ← List.length_append, List.take_left, List.drop_left]
  refine ⟨{
    spans := if cid ∈ selected then
        appendSpan planned.spans planned.rowStart (planned.rowStart + group.length)
      else planned.spans
    rowStart := planned.rowStart + group.length }, ?_, ?_, ?_, ?_⟩
  · unfold planRowGroup
    rw [hportable, ok_bind, hcluster.named, ok_bind, hrange, ok_bind]
    rfl
  · rw [hstart, List.length_append]
  · rw [hstart, List.length_append]
    split
    · exact (@appendSpan_spec α items _ _ _ hspans
        (Nat.lt_add_of_pos_right hcluster.nonempty)).1
    · exact fun span hspan => ⟨(hspans span hspan).1,
        le_trans (hspans span hspan).2 (Nat.le_add_right _ _)⟩
  · rw [List.filter_append, hstart]
    split
    · next hselected =>
        have hall : group.filter (ofSelected cidOf selected) = group := by
          refine List.filter_eq_self.mpr fun row hrow => ?_
          rw [ofSelected, hcluster.cids row hrow]
          exact decide_eq_true hselected
        rw [(@appendSpan_spec α items _ _ _ hspans
          (Nat.lt_add_of_pos_right hcluster.nonempty)).2, hread, hrows, hall]
    · next hother =>
        have hnone : group.filter (ofSelected cidOf selected) = [] := by
          refine List.filter_eq_nil_iff.mpr fun row hrow => ?_
          rw [ofSelected, hcluster.cids row hrow]
          exact fun hselected => hother (of_decide_eq_true hselected)
        rw [hrows, hnone, List.append_nil]

/-- The row groups one after the other. -/
theorem foldlM_planRowGroup {file : PostingsFile} {cidOf : α → Option ℤ} {selected : List ℤ}
    {rowGroups : List RowGroup} {groups : List (List α)} {before : List α} {planned : Planned}
    (hgroups : List.Forall₂ (fun rowGroup group => ∃ cid, OneCluster file cidOf rowGroup group cid)
      rowGroups groups)
    (hitems : items = before ++ groups.flatten) (hstart : planned.rowStart = before.length)
    (hspans : SpansTo before.length planned.spans)
    (hrows : planned.spans.flatMap (RowSpan.rows · items) =
      before.filter (ofSelected cidOf selected)) :
    ∃ final, rowGroups.foldlM (planRowGroup file selected) planned = .ok final ∧
      final.rowStart = items.length ∧ SpansTo items.length final.spans ∧
      final.spans.flatMap (RowSpan.rows · items) = items.filter (ofSelected cidOf selected) := by
  induction hgroups generalizing before planned with
  | nil =>
      rw [List.flatten_nil, List.append_nil] at hitems
      subst hitems
      exact ⟨planned, rfl, hstart, hspans, hrows⟩
  | @cons rowGroup group rowGroups groups hgroup hrest ih =>
      obtain ⟨cid, hcluster⟩ := hgroup
      rw [List.flatten_cons, ← List.append_assoc] at hitems
      obtain ⟨next, hnext, hnextStart, hnextSpans, hnextRows⟩ :=
        planRowGroup_spec hcluster hitems hstart hspans hrows
      rw [List.foldlM_cons, hnext, ok_bind]
      exact ih hitems hnextStart hnextSpans hnextRows

/-- The plan of a file: spans within it, of which none is empty, with the rows of the selected
clusters in their order. -/
theorem planPostings_eq {metadata : FileMetaData}
    (hgroups : List.Forall₂ (fun rowGroup group => ∃ cid, OneCluster file cidOf rowGroup group cid)
      metadata.rowGroups groups) (hcount : metadata.numRows = file.rows)
    (hlength : groups.flatten.length = file.rows) (selected : List ℤ) :
    ∃ spans, planPostings file metadata selected = .ok spans ∧
      SpansTo groups.flatten.length spans ∧
      spans.flatMap (RowSpan.rows · groups.flatten) =
        groups.flatten.filter (ofSelected cidOf selected) := by
  obtain ⟨final, hfinal, hstart, hspans, hrows⟩ := @foldlM_planRowGroup α groups.flatten file cidOf
    selected metadata.rowGroups groups [] ⟨[], 0⟩ hgroups rfl rfl
    (fun _ hspan => absurd hspan List.not_mem_nil) rfl
  refine ⟨final.spans, ?_, hspans, hrows⟩
  unfold planPostings
  rw [rejectIf_eq_ok.mpr (not_not.mpr hcount), ok_bind, hfinal, ok_bind,
    rejectIf_eq_ok.mpr (not_not.mpr (hstart.trans hlength)), ok_bind]
  rfl

/-- A file that does not meet the selected clusters has no row of them. -/
theorem filter_eq_nil_of_not_intersects {rowGroups : List RowGroup} {selected : List ℤ}
    (hgroups : List.Forall₂ (fun rowGroup group => ∃ cid, OneCluster file cidOf rowGroup group cid)
      rowGroups groups) (hapart : intersects file selected = false) :
    groups.flatten.filter (ofSelected cidOf selected) = [] := by
  induction hgroups with
  | nil => rfl
  | cons hgroup hrest ih =>
      obtain ⟨cid, hcluster⟩ := hgroup
      rw [List.flatten_cons, List.filter_append, ih, List.append_nil]
      refine List.filter_eq_nil_iff.mpr fun row hrow => ?_
      rw [ofSelected, hcluster.cids row hrow]
      intro hselected
      have hmeets : intersects file selected = true :=
        List.any_eq_true.mpr ⟨cid, of_decide_eq_true hselected, decide_eq_true hcluster.inRange⟩
      rw [hapart] at hmeets
      cases hmeets

end

end ParqDB.Browser
