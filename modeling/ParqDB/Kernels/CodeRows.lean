import ParqDB.Foundations.Checked
import ParqDB.Kernels.Buffers

/-!
# Code rows in spans

`LvqCodeRows` of `parqdb-kernels/src/lvq.rs`.  A span reaches from its first code through its
last one, so that every code of it is a slice of its bytes.  The rows that are visited are the
rows that are found, and no access leaves a span.
-/

namespace ParqDB.Kernels

open Foundations

variable {codeSize : ℕ}

/-! ## Spans -/

/-- The rows of a span. -/
def spanSlices (codeSize : ℕ) (span : LvqCodeSpan) : List (List UInt8) :=
  (List.range span.rows).map fun index =>
    (span.values.drop (index * span.stride)).take codeSize

theorem rowIn_eq_getElem : ∀ (spans : List LvqCodeSpan) (index : ℕ)
    (hindex : index < (spans.flatMap (spanSlices codeSize)).length),
    LvqCodeRows.rowIn codeSize spans index = (spans.flatMap (spanSlices codeSize))[index] := by
  intro spans
  induction spans with
  | nil =>
      intro index hindex
      cases hindex
  | cons span spans ih =>
      intro index hindex
      have hlength : (spanSlices codeSize span).length = span.rows := by
        simp [spanSlices]
      simp only [List.flatMap_cons] at hindex ⊢
      rw [LvqCodeRows.rowIn]
      split
      · next hhere =>
          rw [List.getElem_append_left (by rw [hlength]; exact hhere)]
          simp [spanSlices]
      · next hlater =>
          rw [List.length_append, hlength] at hindex
          rw [List.getElem_append_right (by rw [hlength]; omega)]
          have hrest := ih (index - span.rows) (by omega)
          simp only [hlength]
          exact hrest

variable {codes : LvqCodeRows}

/-- The rows that are visited are the rows that are found. -/
theorem holds_of_visited {rows : List (List UInt8)} (hcount : codes.rowCount = rows.length)
    (hsize : codes.codeSize = codeSize) (hvisited : codes.visited = rows) :
    codes.Holds codeSize rows := by
  refine ⟨hcount, hsize, hvisited, fun index hindex => ?_⟩
  subst hvisited
  exact rowIn_eq_getElem codes.spans index hindex

variable {values : List UInt8}

theorem holds_pushSpan {next : LvqCodeRows} {rows : List (List UInt8)}
    {count stride : ℕ} (hcodes : codes.Holds codeSize rows)
    (hpush : codes.pushSpan values count stride = .ok next) :
    next.Holds codeSize (rows ++ spanSlices codeSize ⟨values, count, stride⟩) := by
  unfold LvqCodeRows.pushSpan at hpush
  split at hpush
  · cases hpush
  · split at hpush
    · cases hpush
    · split at hpush
      · cases hpush
      · cases hpush
        apply holds_of_visited
        · dsimp only
          rw [hcodes.count, List.length_append]
          simp [spanSlices]
        · exact hcodes.size
        · have hvisited := hcodes.visited
          have hsize := hcodes.size
          unfold LvqCodeRows.visited at hvisited ⊢
          dsimp only
          rw [List.flatMap_append, hvisited, hsize, List.flatMap_singleton]
          rfl

theorem exists_pushSpan {count stride : ℕ} (hcount : 0 < count)
    (hstride : codes.codeSize ≤ stride)
    (hvalues : values.length = (count - 1) * stride + codes.codeSize) :
    ∃ next, codes.pushSpan values count stride = .ok next := by
  unfold LvqCodeRows.pushSpan
  rw [if_neg hcount.ne', if_neg (not_lt.mpr hstride), if_neg (not_not.mpr hvalues)]
  exact ⟨_, rfl⟩

/-- The code rows of an empty collection. -/
theorem holds_tryNew (hnew : LvqCodeRows.tryNew codeSize = .ok codes) :
    codes.Holds codeSize [] := by
  unfold LvqCodeRows.tryNew at hnew
  split at hnew
  · cases hnew
  · cases hnew
    exact holds_of_visited rfl rfl rfl

/-! ## Checked accesses -/

namespace LvqCodeRows

/-- Code rows that storage adapters can build. -/
inductive Pushed : LvqCodeRows → Prop
  | new {codeSize : ℕ} {codes : LvqCodeRows} : tryNew codeSize = .ok codes → Pushed codes
  | push {codes next : LvqCodeRows} {values : List UInt8} {rows stride : ℕ} : Pushed codes →
      codes.pushSpan values rows stride = .ok next → Pushed next

/-- `row`, which panics behind the last row. -/
def checkedRowIn (codeSize : ℕ) : List LvqCodeSpan → ℕ → Option (List UInt8)
  | [], _ => none
  | span :: spans, row =>
      if row < span.rows then
        let offset := row * span.stride
        Checked.slice span.values offset (offset + codeSize)
      else checkedRowIn codeSize spans (row - span.rows)

def checkedRow (codes : LvqCodeRows) (row : ℕ) : Option (List UInt8) :=
  checkedRowIn codes.codeSize codes.spans row

/-- `push_span`, with its overflow checks. -/
def checkedPushSpan (codes : LvqCodeRows) (values : List UInt8) (rows stride : ℕ) :
    Except String LvqCodeRows :=
  if rows = 0 then .error "LVQ code spans must contain at least one row"
  else if stride < codes.codeSize then
    .error "LVQ code span stride is smaller than one code row"
  else
    match (Checked.mul Checked.wordMax (rows - 1) stride).bind
        fun bytes => Checked.add Checked.wordMax bytes codes.codeSize with
    | none => .error "LVQ code span shape overflows usize"
    | some expectedBytes =>
        if values.length ≠ expectedBytes then
          .error "LVQ code span does not match its declared shape"
        else
          match Checked.add Checked.wordMax codes.rowCount rows with
          | none => .error "LVQ code row count overflows usize"
          | some rowCount => .ok { codes with
              spans := codes.spans ++ [⟨values, rows, stride⟩]
              rowCount := rowCount }

/-- `try_from_packed`, with the overflow checks. -/
def checkedFromPacked (values : List UInt8) (codeSize : ℕ) : Except String LvqCodeRows := do
  let codes ← tryNew codeSize
  if values.length % codeSize ≠ 0 then
    .error "LVQ code buffer does not contain complete rows"
  else
    let rows := values.length / codeSize
    if rows = 0 then .ok codes else codes.checkedPushSpan values rows codeSize

variable {σ : Type}

/-- The visits of one span; the row counter runs on through all spans. -/
def visitSpan (codeSize : ℕ) (visitor : ℕ → List UInt8 → σ → Option σ) (visit : ℕ × σ)
    (span : LvqCodeSpan) : Option (ℕ × σ) :=
  (List.range span.rows).foldlM (fun visit index =>
    let offset := index * span.stride
    Checked.slice span.values offset (offset + codeSize) >>= fun codes =>
      (visitor visit.1 codes visit.2).map fun state => (visit.1 + 1, state)) visit

/-- `for_each_row`, with the assertion behind it. -/
def forEachRow (codes : LvqCodeRows) (visitor : ℕ → List UInt8 → σ → Option σ) (state : σ) :
    Option σ :=
  codes.spans.foldlM (visitSpan codes.codeSize visitor) (0, state) >>= fun visit =>
    if visit.1 = codes.rowCount then some visit.2 else none

end LvqCodeRows

/-- A span that reaches from its first code through its last one. -/
structure LvqCodeSpan.Fits (codeSize : ℕ) (span : LvqCodeSpan) : Prop where
  rows : 0 < span.rows
  stride : codeSize ≤ span.stride
  values : span.values.length = (span.rows - 1) * span.stride + codeSize

/-- Code rows whose spans fit. -/
structure LvqCodeRows.Filled (codes : LvqCodeRows) : Prop where
  positive : 0 < codes.codeSize
  spans : ∀ span ∈ codes.spans, span.Fits codes.codeSize
  count : codes.rowCount = codes.visited.length

theorem LvqCodeRows.Pushed.filled (hcodes : codes.Pushed) : codes.Filled := by
  induction hcodes with
  | @new codeSize codes hnew =>
      unfold tryNew at hnew
      split at hnew
      · cases hnew
      · next hpositive =>
          cases hnew
          exact ⟨Nat.pos_of_ne_zero hpositive, fun _ hspan => (List.not_mem_nil hspan).elim, rfl⟩
  | @push codes next values rows stride _ hpush ih =>
      have hholds := holds_pushSpan (holds_of_visited ih.count rfl rfl) hpush
      unfold pushSpan at hpush
      split at hpush
      · cases hpush
      · next hrows =>
          split at hpush
          · cases hpush
          · next hstride =>
              split at hpush
              · cases hpush
              · next hvalues =>
                  cases hpush
                  refine ⟨ih.positive, fun span hspan => ?_, ?_⟩
                  · rcases List.mem_append.mp hspan with hold | hnew
                    · exact ih.spans span hold
                    · rw [List.mem_singleton.mp hnew]
                      exact ⟨Nat.pos_of_ne_zero hrows, not_lt.mp hstride, not_not.mp hvalues⟩
                  · rw [hholds.count, hholds.visited]

/-- Contiguous rows are one span, or none. -/
theorem pushed_of_tryFromPacked
    (hcodes : LvqCodeRows.tryFromPacked values codeSize = .ok codes) : codes.Pushed := by
  obtain ⟨empty, hempty, hspan⟩ := bind_eq_ok.mp hcodes
  split at hspan
  · cases hspan
  · dsimp only at hspan
    split at hspan
    · cases hspan
      exact .new hempty
    · exact .push (.new hempty) hspan

/-- What fits a machine word is pushed as if there were no limit. -/
theorem checkedPushSpan_eq {rows stride : ℕ}
    (hbytes : (rows - 1) * stride + codes.codeSize ≤ Checked.wordMax)
    (hrows : codes.rowCount + rows ≤ Checked.wordMax) :
    codes.checkedPushSpan values rows stride = codes.pushSpan values rows stride := by
  have hspan : (Checked.mul Checked.wordMax (rows - 1) stride).bind
      (fun bytes => Checked.add Checked.wordMax bytes codes.codeSize) =
        some ((rows - 1) * stride + codes.codeSize) := by
    rw [Checked.mul_of_le (by omega), Option.bind_some, Checked.add_of_le hbytes]
  unfold LvqCodeRows.checkedPushSpan LvqCodeRows.pushSpan
  rw [hspan, Checked.add_of_le hrows]

theorem checkedFromPacked_eq (hvalues : values.length ≤ Checked.wordMax) :
    LvqCodeRows.checkedFromPacked values codeSize = LvqCodeRows.tryFromPacked values codeSize := by
  unfold LvqCodeRows.checkedFromPacked LvqCodeRows.tryFromPacked
  cases hnew : LvqCodeRows.tryNew codeSize with
  | error message => rfl
  | ok codes =>
      have hempty := holds_tryNew hnew
      rw [ok_bind, ok_bind]
      by_cases hcomplete : values.length % codeSize = 0
      · by_cases hrows : values.length / codeSize = 0
        · simp only [hcomplete, hrows, ne_eq, not_true_eq_false, if_false, if_true]
        · have hshape : (values.length / codeSize - 1) * codeSize + codeSize = values.length := by
            rw [← Nat.succ_mul, Nat.succ_eq_add_one, Nat.sub_add_cancel (Nat.pos_of_ne_zero hrows),
              Nat.div_mul_cancel (Nat.dvd_of_mod_eq_zero hcomplete)]
          have hcount : codes.rowCount + values.length / codeSize ≤ Checked.wordMax := by
            rw [hempty.count, List.length_nil, Nat.zero_add]
            exact (Nat.div_le_self _ _).trans hvalues
          simp only [hcomplete, hrows, ne_eq, not_true_eq_false, if_false]
          exact checkedPushSpan_eq (by rw [hempty.size, hshape]; exact hvalues) hcount
      · simp only [hcomplete, ne_eq, not_false_eq_true, if_true]

variable {span : LvqCodeSpan}

/-- Every code of a span that fits is a slice of it. -/
theorem LvqCodeSpan.Fits.slice (hfits : span.Fits codeSize) {index : ℕ} (hindex : index < span.rows) :
    Checked.slice span.values (index * span.stride) (index * span.stride + codeSize) =
      some ((span.values.drop (index * span.stride)).take codeSize) := by
  have hlast : index * span.stride ≤ (span.rows - 1) * span.stride :=
    Nat.mul_le_mul_right _ (by omega)
  have hvalues := hfits.values
  rw [Checked.slice_of_le (by omega) (by omega), List.drop_take, Nat.add_sub_cancel_left]

theorem LvqCodeSpan.Fits.length_slice (hfits : span.Fits codeSize) {codes : List UInt8}
    (hcodes : codes ∈ spanSlices codeSize span) : codes.length = codeSize := by
  obtain ⟨index, hindex, rfl⟩ := List.mem_map.mp hcodes
  rw [Checked.length_of_slice (hfits.slice (List.mem_range.mp hindex)), Nat.add_sub_cancel_left]

theorem length_spanSlices (span : LvqCodeSpan) : (spanSlices codeSize span).length = span.rows := by
  rw [spanSlices, List.length_map, List.length_range]

/-- Every row has the bytes of one code. -/
theorem LvqCodeRows.Filled.uniform (hcodes : codes.Filled) :
    Uniform codes.codeSize codes.visited := by
  intro row hrow
  obtain ⟨span, hspan, hslice⟩ := List.mem_flatMap.mp hrow
  exact (hcodes.spans span hspan).length_slice hslice

/-- The rows that are found. -/
theorem checkedRowIn_eq : ∀ (spans : List LvqCodeSpan) (row : ℕ),
    (∀ span ∈ spans, span.Fits codeSize) →
    LvqCodeRows.checkedRowIn codeSize spans row = (spans.flatMap (spanSlices codeSize))[row]? := by
  intro spans
  induction spans with
  | nil =>
      intro row _
      rfl
  | cons span spans ih =>
      intro row hspans
      rw [LvqCodeRows.checkedRowIn, List.flatMap_cons]
      by_cases hhere : row < span.rows
      · rw [if_pos hhere, List.getElem?_append_left (by rw [length_spanSlices]; exact hhere),
          (hspans span List.mem_cons_self).slice hhere, spanSlices, List.getElem?_map,
          List.getElem?_range hhere]
        rfl
      · rw [if_neg hhere, List.getElem?_append_right (by rw [length_spanSlices]; omega),
          length_spanSlices]
        exact ih _ fun other hother => hspans other (List.mem_cons_of_mem _ hother)

theorem LvqCodeRows.Filled.checkedRow (hcodes : codes.Filled) (row : ℕ) :
    codes.checkedRow row = codes.visited[row]? :=
  checkedRowIn_eq codes.spans row hcodes.spans

section

variable {σ : Type} {visitor : ℕ → List UInt8 → σ → Option σ} (invariant : ℕ → σ → Prop)

/-- The visits of one span, the first of which is for row `first`. -/
theorem exists_visitSpan {span : LvqCodeSpan} (hfits : span.Fits codeSize) {first : ℕ}
    (hvisit : ∀ index (hindex : index < (spanSlices codeSize span).length) state,
      invariant (first + index) state →
      ∃ next, visitor (first + index) (spanSlices codeSize span)[index] state = some next ∧
        invariant (first + index + 1) next)
    {state : σ} (hstart : invariant first state) :
    ∃ final, LvqCodeRows.visitSpan codeSize visitor (first, state) span =
        some (first + span.rows, final) ∧ invariant (first + span.rows) final := by
  obtain ⟨⟨stop, final⟩, hloop, hstop, hfinal⟩ := @Checked.exists_foldlM _ _
    (List.range span.rows) (fun visit index =>
      Checked.slice span.values (index * span.stride) (index * span.stride + codeSize) >>=
        fun codes => (visitor visit.1 codes visit.2).map fun state => (visit.1 + 1, state))
    (fun index visit => visit.1 = first + index ∧ invariant (first + index) visit.2)
    (by
      rintro index hindex ⟨row, state⟩ ⟨hrow, hstate⟩
      dsimp only at hrow hstate
      subst hrow
      rw [List.length_range] at hindex
      have hinside : index < (spanSlices codeSize span).length := by
        rw [length_spanSlices]
        exact hindex
      obtain ⟨next, hnext, hkept⟩ := hvisit index hinside state hstate
      refine ⟨(first + index + 1, next), ?_, Nat.add_assoc _ _ _, hkept⟩
      have hslice : (spanSlices codeSize span)[index] =
          (span.values.drop (index * span.stride)).take codeSize := by
        simp only [spanSlices, List.getElem_map, List.getElem_range]
      rw [List.getElem_range, hfits.slice hindex, Checked.after_some, ← hslice]
      dsimp only
      rw [hnext]
      rfl) (first, state) ⟨rfl, hstart⟩
  rw [List.length_range] at hstop hfinal
  dsimp only at hstop
  subst hstop
  exact ⟨final, hloop, hfinal⟩

theorem exists_visitSpans : ∀ (spans : List LvqCodeSpan) (first : ℕ) (state : σ),
    (∀ span ∈ spans, span.Fits codeSize) →
    (∀ index (hindex : index < (spans.flatMap (spanSlices codeSize)).length) state,
      invariant (first + index) state →
      ∃ next, visitor (first + index) (spans.flatMap (spanSlices codeSize))[index] state =
        some next ∧ invariant (first + index + 1) next) →
    invariant first state →
    ∃ final, spans.foldlM (LvqCodeRows.visitSpan codeSize visitor) (first, state) =
        some (first + (spans.flatMap (spanSlices codeSize)).length, final) ∧
      invariant (first + (spans.flatMap (spanSlices codeSize)).length) final := by
  intro spans
  induction spans with
  | nil =>
      intro first state _ _ hstart
      exact ⟨state, rfl, hstart⟩
  | cons span spans ih =>
      intro first state hspans hvisit hstart
      have hlength : ((span :: spans).flatMap (spanSlices codeSize)).length =
          span.rows + (spans.flatMap (spanSlices codeSize)).length := by
        rw [List.flatMap_cons, List.length_append, length_spanSlices]
      obtain ⟨next, hnext, hkept⟩ := @exists_visitSpan codeSize σ visitor invariant span
        (hspans span List.mem_cons_self) first (fun index hindex state hstate => by
          obtain ⟨next, hnext, hkept⟩ := hvisit index (by
            rw [hlength, ← @length_spanSlices codeSize span]
            omega) state hstate
          refine ⟨next, ?_, hkept⟩
          rw [← hnext]
          congr 1
          simp only [List.flatMap_cons]
          rw [List.getElem_append_left hindex]) state hstart
      obtain ⟨final, hfinal, hdone⟩ := ih (first + span.rows) next
        (fun other hother => hspans other (List.mem_cons_of_mem _ hother))
        (fun index hindex state hstate => by
          rw [Nat.add_assoc] at hstate
          obtain ⟨next, hnext, hkept⟩ := hvisit (span.rows + index) (by rw [hlength]; omega) state
            hstate
          refine ⟨next, ?_, by rw [Nat.add_assoc first]; exact hkept⟩
          rw [← hnext, Nat.add_assoc]
          congr 1
          simp only [List.flatMap_cons]
          rw [List.getElem_append_right (by rw [length_spanSlices]; omega)]
          simp only [length_spanSlices, Nat.add_sub_cancel_left]) hkept
      rw [Nat.add_assoc, ← hlength] at hfinal hdone
      refine ⟨final, ?_, hdone⟩
      rw [List.foldlM_cons, hnext, Checked.after_some]
      exact hfinal

/-- A visit of all rows in order. -/
theorem LvqCodeRows.Filled.exists_forEachRow {codes : LvqCodeRows} (hcodes : codes.Filled)
    (hvisit : ∀ row (hrow : row < codes.visited.length) state, invariant row state →
      ∃ next, visitor row codes.visited[row] state = some next ∧ invariant (row + 1) next)
    (state : σ) (hstart : invariant 0 state) :
    ∃ final, codes.forEachRow visitor state = some final ∧
      invariant codes.visited.length final := by
  obtain ⟨final, hfinal, hdone⟩ := @exists_visitSpans codes.codeSize σ visitor invariant
    codes.spans 0 state hcodes.spans
    (fun index hindex state hstate => by
      rw [Nat.zero_add] at hstate ⊢
      exact hvisit index hindex state hstate) hstart
  rw [Nat.zero_add] at hfinal hdone
  refine ⟨final, ?_, hdone⟩
  rw [LvqCodeRows.forEachRow, hfinal, Checked.after_some]
  exact if_pos hcodes.count.symm

end

end ParqDB.Kernels
