import ParqDB.Kmeans.Sampling

/-!
# Sampling a stream of training rows

`ReservoirSampler` of the k-means crate keeps a bounded sample of the rows that it is given batch by
batch.  It copies rows in bulk until the reservoir is full; then it skips a scheduled number of rows
and replaces one row by the next one.

**What is a parameter.**  The random numbers, the arithmetic that schedules the next replacement,
and whether the reservoir can be allocated.  A call that fails leaves what it has done so far.

**Strategy.**  `feed` takes one row.  A bulk copy and a skip are the same as that many single rows
(`feed_fill`, `feed_skip`), so that a whole call feeds the rows of its batch one by one
(`pushRows_feed`), wherever the batch is cut.

**Results.**  `push_append` and `reservoir_holds_sample`, together `push_independent_of_batches`.
-/

namespace ParqDB.Kmeans

open Foundations

/-! ## The sampler -/

/-- The generator of the sampler, and its `f64` arithmetic. -/
structure SkipSchedule where
  State : Type
  Weight : Type
  nextU64 : State → ℕ × State
  zero : Weight
  /-- `schedule_replacement`: the next weight and the rows to skip. -/
  schedule : ℕ → Weight → State → (Weight × ℕ) × State

structure ReservoirSampler (skips : SkipSchedule) (Value : Type) where
  dimension : Option ℕ
  maxRows : ℕ
  seenRows : ℕ
  values : List Value
  rng : skips.State
  skipRows : ℕ
  weight : skips.Weight

namespace ReservoirSampler

variable {skips : SkipSchedule} {Value : Type}

def new (maxRows : ℕ) (rng : skips.State) : Except String (ReservoirSampler skips Value) := do
  rejectIf (maxRows = 0) "reservoir row limit must be positive"
  .ok ⟨none, maxRows, 0, [], rng, 0, skips.zero⟩

/-- How a call ends, and the sampler that it leaves. -/
abbrev Outcome (skips : SkipSchedule) (Value : Type) :=
  Except String Unit × ReservoirSampler skips Value

/-- `advance_seen`. -/
def advanceSeen (sampler : ReservoirSampler skips Value) (rows : ℕ) : Outcome skips Value :=
  if sampler.seenRows + rows < 2 ^ 64 then
    (.ok (), { sampler with seenRows := sampler.seenRows + rows })
  else (.error "reservoir row count overflows", sampler)

def scheduleReplacement (sampler : ReservoirSampler skips Value) : ReservoirSampler skips Value :=
  let scheduled := skips.schedule sampler.maxRows sampler.weight sampler.rng
  { sampler with weight := scheduled.1.1, skipRows := scheduled.1.2, rng := scheduled.2 }

/-- `gen_usize`: a random position below the row limit. -/
def replacement (sampler : ReservoirSampler skips Value) : ℕ :=
  (skips.nextU64 sampler.rng).1 % sampler.maxRows

/-- Replaces a random row by the next one. -/
def replaceRow (sampler : ReservoirSampler skips Value) (dimension : ℕ) (next : List Value) :
    ReservoirSampler skips Value :=
  { sampler with
    rng := (skips.nextU64 sampler.rng).2
    values := putRow sampler.values (sampler.replacement * dimension) next }

/-- The last row that fits schedules the first replacement. -/
def scheduleIfFull (dimension : ℕ) (sampler : ReservoirSampler skips Value) :
    ReservoirSampler skips Value :=
  if sampler.values.length / dimension = sampler.maxRows then sampler.scheduleReplacement
  else sampler

/-- Rows are copied in bulk. -/
def fill (dimension : ℕ) (sampler : ReservoirSampler skips Value) (rows : List Value)
    (copied : ℕ) : Outcome skips Value :=
  match { sampler with values := sampler.values ++ rows }.advanceSeen copied with
  | (.error message, filled) => (.error message, filled)
  | (.ok _, filled) => (.ok (), filled.scheduleIfFull dimension)

def skip (sampler : ReservoirSampler skips Value) (skipped : ℕ) : Outcome skips Value :=
  match sampler.advanceSeen skipped with
  | (.error message, advanced) => (.error message, advanced)
  | (.ok _, advanced) => (.ok (), { advanced with skipRows := advanced.skipRows - skipped })

def replaceNext (dimension : ℕ) (sampler : ReservoirSampler skips Value) (next : List Value) :
    Outcome skips Value :=
  match (sampler.replaceRow dimension next).advanceSeen 1 with
  | (.error message, replaced) => (.error message, replaced)
  | (.ok _, replaced) => (.ok (), replaced.scheduleReplacement)

/-- One round of the loop of `push`, and the number of rows that it takes. -/
def pushRound (dimension : ℕ) (sampler : ReservoirSampler skips Value) (rest : List Value) :
    ℕ × Outcome skips Value :=
  let rows := rest.length / dimension
  let retainedRows := sampler.values.length / dimension
  if retainedRows < sampler.maxRows then
    let copied := min (sampler.maxRows - retainedRows) rows
    (copied, sampler.fill dimension (rest.take (copied * dimension)) copied)
  else if 0 < sampler.skipRows then
    let skipped := min sampler.skipRows rows
    (skipped, sampler.skip skipped)
  else (1, sampler.replaceNext dimension (rest.take dimension))

theorem pushRound_pos {dimension : ℕ} {sampler : ReservoirSampler skips Value} {rest : List Value}
    (hrows : rest.length / dimension ≠ 0) : 0 < (sampler.pushRound dimension rest).1 := by
  have hsome : 0 < rest.length / dimension := Nat.pos_of_ne_zero hrows
  unfold pushRound
  dsimp only
  split
  · exact Nat.lt_min.mpr ⟨by omega, hsome⟩
  · split
    · exact Nat.lt_min.mpr ⟨by omega, hsome⟩
    · exact Nat.one_pos

/-- The loop of `push`, over the values of the rows that are left. -/
def pushRows (dimension : ℕ) (sampler : ReservoirSampler skips Value) (rest : List Value) :
    Outcome skips Value :=
  if _hrows : rest.length / dimension = 0 then (.ok (), sampler)
  else
    match (sampler.pushRound dimension rest).2 with
    | (.error message, stopped) => (.error message, stopped)
    | (.ok _, later) =>
        pushRows dimension later (rest.drop ((sampler.pushRound dimension rest).1 * dimension))
termination_by rest.length
decreasing_by
  have hpositive : 0 < dimension := Nat.pos_of_ne_zero fun hzero =>
    _hrows (by rw [hzero, Nat.div_zero])
  have hlength : dimension ≤ rest.length := by
    by_contra hshort
    exact _hrows (Nat.div_eq_of_lt (by omega))
  have htaken : dimension ≤ (sampler.pushRound dimension rest).1 * dimension :=
    Nat.le_mul_of_pos_left _ (pushRound_pos _hrows)
  rw [List.length_drop]
  omega

variable (reserve : ℕ → Bool)

/-- The first batch decides on the dimension, and allocates the reservoir. -/
def fixDimension (sampler : ReservoirSampler skips Value) (dimension : ℕ) : Outcome skips Value :=
  if sampler.dimension.isSome then (.ok (), sampler)
  else if 2 ^ 64 ≤ sampler.maxRows * dimension then
    (.error "reservoir capacity overflows usize", sampler)
  else if !reserve (sampler.maxRows * dimension) then
    (.error "cannot allocate training reservoir", sampler)
  else (.ok (), { sampler with dimension := some dimension })

/-- Adds one row-major dense vector batch to the reservoir. -/
def push (sampler : ReservoirSampler skips Value) (vectors : List Value) (dimension : ℕ) :
    Outcome skips Value :=
  if dimension = 0 ∨ vectors.length % dimension ≠ 0 then
    (.error "reservoir vectors must be a row-aligned dense matrix", sampler)
  else if sampler.dimension.any (· ≠ dimension) then
    (.error "vector dimension changes between training batches", sampler)
  else
    match sampler.fixDimension reserve dimension with
    | (.error message, rejected) => (.error message, rejected)
    | (.ok _, fixed) => pushRows dimension fixed vectors

/-! ## One row at a time -/

/-- What one row does to a sampler. -/
def feed (dimension : ℕ) (sampler : ReservoirSampler skips Value) (next : List Value) :
    ReservoirSampler skips Value :=
  let counted (sampler : ReservoirSampler skips Value) :=
    { sampler with seenRows := sampler.seenRows + 1 }
  if sampler.values.length / dimension < sampler.maxRows then
    (counted { sampler with values := sampler.values ++ next }).scheduleIfFull dimension
  else if 0 < sampler.skipRows then counted { sampler with skipRows := sampler.skipRows - 1 }
  else (counted (sampler.replaceRow dimension next)).scheduleReplacement

section

variable {dimension : ℕ} {sampler : ReservoirSampler skips Value} {rest more : List Value}

/-- The first row of a matrix, and the rows behind it. -/
theorem rowsOf_eq_cons (hpositive : 0 < dimension) (hlength : dimension ≤ rest.length) :
    rowsOf dimension rest = rest.take dimension :: rowsOf dimension (rest.drop dimension) := by
  have hfirst : (rest.take dimension).length = dimension := by
    rw [List.length_take]
    omega
  have hsplit := @rowsOf_append Value (rest.take dimension) dimension (rest.drop dimension)
    (by rw [hfirst])
  rw [List.take_append_drop, rowsOf_singleton hpositive hfirst] at hsplit
  exact hsplit

variable {count : ℕ}

/-- Rows that fit, one by one and in bulk. -/
theorem feed_fill (hpositive : 0 < dimension) (hlength : more.length = (count + 1) * dimension)
    (hroom : sampler.values.length / dimension + (count + 1) ≤ sampler.maxRows) :
    (rowsOf dimension more).foldl (feed dimension) sampler =
      scheduleIfFull dimension { sampler with
        values := sampler.values ++ more
        seenRows := sampler.seenRows + (count + 1) } := by
  induction count generalizing sampler more with
  | zero =>
      rw [rowsOf_singleton hpositive (by omega), List.foldl_cons, List.foldl_nil, feed,
        if_pos (by omega)]
  | succ count ih =>
      have henough : dimension ≤ more.length := by
        rw [hlength]
        exact Nat.le_mul_of_pos_left _ (Nat.succ_pos _)
      have hfirst : (more.take dimension).length = dimension := by
        rw [List.length_take]
        omega
      have hgrown : (sampler.values ++ more.take dimension).length / dimension =
          sampler.values.length / dimension + 1 := by
        rw [List.length_append, hfirst, Nat.add_div_right _ hpositive]
      have hfed : feed dimension sampler (more.take dimension) = { sampler with
          values := sampler.values ++ more.take dimension
          seenRows := sampler.seenRows + 1 } := by
        unfold feed
        rw [if_pos (by omega)]
        unfold scheduleIfFull
        -- more rows fit behind this one
        rw [if_neg]
        dsimp only
        omega
      have hrest : (more.drop dimension).length = (count + 1) * dimension := by
        rw [List.length_drop, hlength, Nat.succ_mul (count + 1), Nat.add_sub_cancel]
      rw [rowsOf_eq_cons hpositive henough, List.foldl_cons, hfed, ih hrest]
      · dsimp only
        rw [List.append_assoc, List.take_append_drop, Nat.add_assoc, Nat.add_comm 1]
      · dsimp only
        omega

/-- Rows that are skipped, one by one and in bulk. -/
theorem feed_skip (hpositive : 0 < dimension) (hlength : more.length = count * dimension)
    (hfull : ¬ sampler.values.length / dimension < sampler.maxRows)
    (hskip : count ≤ sampler.skipRows) :
    (rowsOf dimension more).foldl (feed dimension) sampler =
      { sampler with
        skipRows := sampler.skipRows - count
        seenRows := sampler.seenRows + count } := by
  induction count generalizing sampler more with
  | zero =>
      have hnil : more = [] := List.eq_nil_of_length_eq_zero (by omega)
      rw [hnil, rowsOf_nil]
      rfl
  | succ count ih =>
      have henough : dimension ≤ more.length := by
        rw [hlength]
        exact Nat.le_mul_of_pos_left _ (Nat.succ_pos _)
      have hrest : (more.drop dimension).length = count * dimension := by
        rw [List.length_drop, hlength, Nat.succ_mul, Nat.add_sub_cancel]
      rw [rowsOf_eq_cons hpositive henough, List.foldl_cons]
      have hfed : feed dimension sampler (more.take dimension) = { sampler with
          skipRows := sampler.skipRows - 1
          seenRows := sampler.seenRows + 1 } := by
        unfold feed
        rw [if_neg hfull, if_pos (by omega)]
      rw [hfed, ih hrest]
      · dsimp only
        rw [Nat.sub_sub, Nat.add_assoc, Nat.add_comm 1]
      · exact hfull
      · dsimp only
        omega

theorem seenRows_feed (next : List Value) :
    (feed dimension sampler next).seenRows = sampler.seenRows + 1 := by
  unfold feed scheduleIfFull
  dsimp only
  split
  · split <;> rfl
  · split <;> rfl

theorem seenRows_foldl_feed (rows : List (List Value)) :
    (rows.foldl (feed dimension) sampler).seenRows = sampler.seenRows + rows.length := by
  induction rows generalizing sampler with
  | nil => rfl
  | cons next rows ih =>
      rw [List.foldl_cons, ih, seenRows_feed, List.length_cons]
      omega

/-- The values of a number of rows. -/
theorem length_take_rows (hcount : count ≤ rest.length / dimension) :
    (rest.take (count * dimension)).length = count * dimension := by
  have hend : count * dimension ≤ rest.length :=
    (Nat.mul_le_mul_right dimension hcount).trans (Nat.div_mul_le_self _ _)
  rw [List.length_take]
  omega

theorem pushRound_le (rest : List Value) (hrows : rest.length / dimension ≠ 0) :
    (sampler.pushRound dimension rest).1 ≤ rest.length / dimension := by
  unfold pushRound
  dsimp only
  split
  · exact Nat.min_le_right _ _
  · split
    · exact Nat.min_le_right _ _
    · exact Nat.pos_of_ne_zero hrows

/-- A round feeds its rows, or the count of rows overflows. -/
theorem pushRound_feed (hpositive : 0 < dimension) {rest : List Value}
    (hrows : rest.length / dimension ≠ 0) :
    sampler.seenRows + (sampler.pushRound dimension rest).1 < 2 ^ 64 ∧
        (sampler.pushRound dimension rest).2 = (.ok (), (rowsOf dimension
          (rest.take ((sampler.pushRound dimension rest).1 * dimension))).foldl
            (feed dimension) sampler) ∨
      2 ^ 64 ≤ sampler.seenRows + (sampler.pushRound dimension rest).1 ∧
        (sampler.pushRound dimension rest).2.1 = .error "reservoir row count overflows" := by
  have hsome : 0 < rest.length / dimension := Nat.pos_of_ne_zero hrows
  unfold pushRound
  dsimp only
  by_cases hfill : sampler.values.length / dimension < sampler.maxRows
  · rw [if_pos hfill]
    dsimp only
    obtain ⟨count, hcount⟩ : ∃ count, min (sampler.maxRows - sampler.values.length / dimension)
        (rest.length / dimension) = count + 1 :=
      Nat.exists_eq_succ_of_ne_zero (by omega)
    rw [hcount]
    have hlength : (rest.take ((count + 1) * dimension)).length = (count + 1) * dimension :=
      length_take_rows (by omega)
    have hroom : sampler.values.length / dimension + (count + 1) ≤ sampler.maxRows := by omega
    by_cases hfits : sampler.seenRows + (count + 1) < 2 ^ 64
    · refine Or.inl ⟨hfits, ?_⟩
      unfold fill advanceSeen
      rw [if_pos hfits, feed_fill hpositive hlength hroom]
    · refine Or.inr ⟨by omega, ?_⟩
      unfold fill advanceSeen
      rw [if_neg hfits]
  · rw [if_neg hfill]
    by_cases hskip : 0 < sampler.skipRows
    · rw [if_pos hskip]
      dsimp only
      have hlength : (rest.take (min sampler.skipRows (rest.length / dimension) * dimension)).length =
          min sampler.skipRows (rest.length / dimension) * dimension :=
        length_take_rows (Nat.min_le_right _ _)
      by_cases hfits : sampler.seenRows + min sampler.skipRows (rest.length / dimension) < 2 ^ 64
      · refine Or.inl ⟨hfits, ?_⟩
        unfold skip advanceSeen
        rw [if_pos hfits, feed_skip hpositive hlength hfill (Nat.min_le_left _ _)]
      · refine Or.inr ⟨by omega, ?_⟩
        unfold skip advanceSeen
        rw [if_neg hfits]
    · rw [if_neg hskip]
      dsimp only
      have hlength : (rest.take (1 * dimension)).length = 1 * dimension := length_take_rows hsome
      rw [Nat.one_mul] at hlength ⊢
      by_cases hfits : sampler.seenRows + 1 < 2 ^ 64
      · refine Or.inl ⟨hfits, ?_⟩
        rw [rowsOf_singleton hpositive hlength, List.foldl_cons, List.foldl_nil]
        unfold replaceNext advanceSeen
        rw [if_pos (show (sampler.replaceRow dimension (rest.take dimension)).seenRows + 1 < 2 ^ 64
          from hfits), feed, if_neg hfill, if_neg hskip]
      · refine Or.inr ⟨by omega, ?_⟩
        unfold replaceNext advanceSeen
        rw [if_neg (show ¬ (sampler.replaceRow dimension (rest.take dimension)).seenRows + 1 < 2 ^ 64
          from hfits)]

/-- A call feeds its rows one by one, or the count of rows overflows. -/
theorem pushRows_feed (hpositive : 0 < dimension) {rest : List Value}
    (haligned : dimension ∣ rest.length) :
    (rest = [] ∨ sampler.seenRows + rest.length / dimension < 2 ^ 64) ∧
        pushRows dimension sampler rest =
          (.ok (), (rowsOf dimension rest).foldl (feed dimension) sampler) ∨
      rest ≠ [] ∧ 2 ^ 64 ≤ sampler.seenRows + rest.length / dimension ∧
        (pushRows dimension sampler rest).1 = .error "reservoir row count overflows" := by
  induction hsize : rest.length using Nat.strongRecOn generalizing sampler rest with
  | _ size ih =>
      subst hsize
      obtain ⟨rows, hlength⟩ := haligned
      have hdivide : rest.length / dimension = rows := by
        rw [hlength, Nat.mul_div_cancel_left _ hpositive]
      by_cases hrows : rest.length / dimension = 0
      · have hnil : rest = [] := by
          apply List.eq_nil_of_length_eq_zero
          rw [hlength, ← hdivide, hrows, Nat.mul_zero]
        subst hnil
        refine Or.inl ⟨Or.inl rfl, ?_⟩
        rw [pushRows, dif_pos hrows, rowsOf_nil]
        rfl
      · have hne : rest ≠ [] := by
          rintro rfl
          exact hrows (Nat.zero_div _)
        have htaken := @pushRound_pos _ _ _ sampler _ hrows
        have hbound := @pushRound_le _ _ _ sampler rest hrows
        have hround := @pushRound_feed _ _ _ sampler hpositive _ hrows
        rw [pushRows, dif_neg hrows]
        generalize (sampler.pushRound dimension rest).1 = taken at htaken hbound hround ⊢
        have htake : (rest.take (taken * dimension)).length = taken * dimension :=
          length_take_rows hbound
        have hdrop : (rest.drop (taken * dimension)).length = dimension * (rows - taken) := by
          rw [List.length_drop, hlength, Nat.mul_sub, Nat.mul_comm taken]
        have hleft : (rest.drop (taken * dimension)).length / dimension = rows - taken := by
          rw [hdrop, Nat.mul_div_cancel_left _ hpositive]
        rcases hround with ⟨hfits, hfed⟩ | ⟨hoverflow, hfailed⟩
        · have hshorter : (rest.drop (taken * dimension)).length < rest.length := by
            rw [hdrop, hlength]
            exact Nat.mul_lt_mul_of_pos_left (by omega) hpositive
          have hlater := @ih _ hshorter ((rowsOf dimension (rest.take (taken * dimension))).foldl
            (feed dimension) sampler) _ ⟨_, hdrop⟩ rfl
          have hseen : ((rowsOf dimension (rest.take (taken * dimension))).foldl (feed dimension)
              sampler).seenRows = sampler.seenRows + taken := by
            rw [seenRows_foldl_feed, length_rowsOf, htake, Nat.mul_div_cancel _ hpositive]
          have hsplit : rowsOf dimension rest = rowsOf dimension (rest.take (taken * dimension)) ++
              rowsOf dimension (rest.drop (taken * dimension)) := by
            rw [← rowsOf_append (by rw [htake]; exact Nat.dvd_mul_left _ _), List.take_append_drop]
          rw [hseen, hleft] at hlater
          rw [hfed, hsplit, List.foldl_append, hdivide]
          rcases hlater with ⟨hroom, hdone⟩ | ⟨hsome, hoverflow, hfailed⟩
          · refine Or.inl ⟨Or.inr ?_, hdone⟩
            rcases hroom with hnil | hroom
            · rw [hnil, List.length_nil, Nat.zero_div] at hleft
              omega
            · omega
          · exact Or.inr ⟨hne, by omega, hfailed⟩
        · refine Or.inr ⟨hne, by omega, ?_⟩
          generalize (sampler.pushRound dimension rest).2 = outcome at hfailed ⊢
          obtain ⟨result, stopped⟩ := outcome
          dsimp only at hfailed
          subst hfailed
          rfl

theorem dimension_feed (next : List Value) :
    (feed dimension sampler next).dimension = sampler.dimension := by
  unfold feed scheduleIfFull
  dsimp only
  split
  · split <;> rfl
  · split <;> rfl

theorem dimension_foldl_feed (rows : List (List Value)) :
    (rows.foldl (feed dimension) sampler).dimension = sampler.dimension := by
  induction rows generalizing sampler with
  | nil => rfl
  | cons next rows ih => rw [List.foldl_cons, ih, dimension_feed]

end

/-! ## Batches -/

variable {reserve} {dimension : ℕ} {sampler : ReservoirSampler skips Value}

theorem fixDimension_ok {fixed : ReservoirSampler skips Value}
    (hsame : ¬ sampler.dimension.any (· ≠ dimension) = true)
    (hfixed : sampler.fixDimension reserve dimension = (.ok (), fixed)) :
    fixed = { sampler with dimension := some dimension } := by
  unfold fixDimension at hfixed
  split at hfixed
  · next hsome =>
      cases hfixed
      obtain ⟨known, hknown⟩ := Option.isSome_iff_exists.mp hsome
      rw [hknown, Option.any_some, decide_eq_true_eq, not_not] at hsame
      rw [← hsame, ← hknown]
  · split at hfixed
    · cases hfixed
    · split at hfixed
      · cases hfixed
      · cases hfixed
        rfl

variable {vectors : List Value}

/-- A call that does not fail feeds the rows of its batch. -/
theorem push_ok {after : ReservoirSampler skips Value}
    (hpush : sampler.push reserve vectors dimension = (.ok (), after)) :
    0 < dimension ∧ dimension ∣ vectors.length ∧
      ¬ sampler.dimension.any (· ≠ dimension) = true ∧
      after = (rowsOf dimension vectors).foldl (feed dimension)
        { sampler with dimension := some dimension } := by
  unfold push at hpush
  split at hpush
  · cases hpush
  · next hshape =>
      rw [not_or, not_not] at hshape
      have hpositive : 0 < dimension := Nat.pos_of_ne_zero hshape.1
      have haligned : dimension ∣ vectors.length := Nat.dvd_of_mod_eq_zero hshape.2
      split at hpush
      · cases hpush
      · next hsame =>
          split at hpush
          · cases hpush
          · next accepted fixed hfixed =>
              rw [fixDimension_ok hsame hfixed] at hpush
              refine ⟨hpositive, haligned, hsame, ?_⟩
              rcases pushRows_feed hpositive haligned with ⟨-, hfed⟩ | ⟨-, -, hfailed⟩
              · rw [hfed] at hpush
                exact (Prod.mk.inj hpush).2.symm
              · rw [hpush] at hfailed
                cases hfailed

theorem not_misaligned (hpositive : 0 < dimension) (haligned : dimension ∣ vectors.length) :
    ¬ (dimension = 0 ∨ vectors.length % dimension ≠ 0) := by
  rw [not_or, not_not]
  exact ⟨hpositive.ne', Nat.mod_eq_zero_of_dvd haligned⟩

/-- A batch for a sampler of its dimension. -/
theorem push_of_dimension (hpositive : 0 < dimension)
    (hdimension : sampler.dimension = some dimension) (haligned : dimension ∣ vectors.length) :
    sampler.push reserve vectors dimension = pushRows dimension sampler vectors := by
  unfold push fixDimension
  rw [if_neg (not_misaligned hpositive haligned), hdimension, if_neg (by simp)]
  rfl

/-- A batch of so many rows is let in: the sampler has its dimension, or none yet and room for a
reservoir, and can count the rows. -/
structure Accepts (reserve : ℕ → Bool) (sampler : ReservoirSampler skips Value)
    (dimension rows : ℕ) : Prop where
  positive : 0 < dimension
  dimension : sampler.dimension = some dimension ∨ sampler.dimension = none ∧
    sampler.maxRows * dimension < 2 ^ 64 ∧ reserve (sampler.maxRows * dimension) = true
  counted : sampler.seenRows + rows < 2 ^ 64

/-- A batch that is let in is fed row by row, and the call does not fail. -/
theorem push_of_accepts (haligned : dimension ∣ vectors.length)
    (haccepts : Accepts reserve sampler dimension (vectors.length / dimension)) :
    sampler.push reserve vectors dimension = (.ok (), (rowsOf dimension vectors).foldl
      (feed dimension) { sampler with dimension := some dimension }) := by
  obtain ⟨hpositive, hdimension, hcounted⟩ := haccepts
  have hpush : sampler.push reserve vectors dimension =
      pushRows dimension { sampler with dimension := some dimension } vectors := by
    rcases hdimension with hknown | ⟨hnone, hfits, hreserved⟩
    · rw [push_of_dimension hpositive hknown haligned, ← hknown]
    · unfold push fixDimension
      rw [if_neg (not_misaligned hpositive haligned), hnone, if_neg (by simp), if_neg (by simp),
        if_neg (not_le.mpr hfits), hreserved]
      rfl
  rw [hpush]
  rcases @pushRows_feed _ _ _ { sampler with dimension := some dimension } hpositive _ haligned with
    ⟨-, hfed⟩ | ⟨-, hoverflow, -⟩
  · exact hfed
  · exact absurd hcounted (not_lt.mpr hoverflow)

/-- Two batches, pushed one after the other or in one call: the calls end alike, and with the same
sampler if they do not fail. -/
theorem push_append (sampler : ReservoirSampler skips Value) {first second : List Value}
    (hfirst : dimension ∣ first.length) (hsecond : dimension ∣ second.length) :
    (sampler.push reserve (first ++ second) dimension).1 =
        ((sampler.push reserve first dimension).1 >>= fun _ =>
          ((sampler.push reserve first dimension).2.push reserve second dimension).1) ∧
      ((sampler.push reserve (first ++ second) dimension).1 = .ok () →
        (sampler.push reserve (first ++ second) dimension).2 =
          ((sampler.push reserve first dimension).2.push reserve second dimension).2) := by
  have hboth : dimension ∣ (first ++ second).length := by
    rw [List.length_append]
    exact Nat.dvd_add hfirst hsecond
  rcases Nat.eq_zero_or_pos dimension with rfl | hpositive
  · unfold push
    simp only [true_or, if_true]
    exact ⟨rfl, fun hok => by cases hok⟩
  -- the checks fail in all three calls alike, or in none
  by_cases hother : sampler.dimension.any (· ≠ dimension) = true
  · have hfailed {vectors : List Value} (haligned : dimension ∣ vectors.length) :
        sampler.push reserve vectors dimension =
          (.error "vector dimension changes between training batches", sampler) := by
      unfold push
      rw [if_neg (not_misaligned hpositive haligned), if_pos hother]
    rw [hfailed hboth, hfailed hfirst]
    exact ⟨rfl, fun hok => by cases hok⟩
  cases hfixed : sampler.fixDimension reserve dimension with
  | mk outcome fixed =>
      cases outcome with
      | error message =>
          have hfailed {vectors : List Value} (haligned : dimension ∣ vectors.length) :
              sampler.push reserve vectors dimension = (.error message, fixed) := by
            unfold push
            rw [if_neg (not_misaligned hpositive haligned), if_neg hother, hfixed]
          rw [hfailed hboth, hfailed hfirst]
          exact ⟨rfl, fun hok => by cases hok⟩
      | ok accepted =>
          have hpush {vectors : List Value} (haligned : dimension ∣ vectors.length) :
              sampler.push reserve vectors dimension = pushRows dimension fixed vectors := by
            unfold push
            rw [if_neg (not_misaligned hpositive haligned), if_neg hother, hfixed]
          have hdimension : fixed.dimension = some dimension := by
            rw [fixDimension_ok hother hfixed]
          have hlength : (first ++ second).length / dimension =
              first.length / dimension + second.length / dimension := by
            rw [List.length_append, Nat.add_div_of_dvd_right hfirst]
          rw [hpush hboth, hpush hfirst]
          -- only the number of rows seen can overflow
          rcases @pushRows_feed _ _ _ fixed hpositive _ hfirst with
            ⟨hroom, hfed⟩ | ⟨hsome, hoverflow, hfailed⟩
          · rw [hfed]
            have hkept : ((rowsOf dimension first).foldl (feed dimension) fixed).dimension =
                some dimension := by
              rw [dimension_foldl_feed, hdimension]
            have hseen : ((rowsOf dimension first).foldl (feed dimension) fixed).seenRows =
                fixed.seenRows + first.length / dimension := by
              rw [seenRows_foldl_feed, length_rowsOf]
            rw [push_of_dimension hpositive hkept hsecond]
            rcases @pushRows_feed _ _ _ fixed hpositive _ hboth with
              ⟨hfits, hwhole⟩ | ⟨hsome, hlarge, hwhole⟩
            · rcases @pushRows_feed _ _ _ ((rowsOf dimension first).foldl (feed dimension) fixed)
                hpositive _ hsecond with ⟨-, hrest⟩ | ⟨hrest, hoverflow, -⟩
              · rw [hwhole, hrest, rowsOf_append hfirst, List.foldl_append]
                exact ⟨rfl, fun _ => rfl⟩
              · rw [hseen] at hoverflow
                rcases hfits with hnil | hfits
                · exact absurd (List.append_eq_nil_iff.mp hnil).2 hrest
                · omega
            · rcases @pushRows_feed _ _ _ ((rowsOf dimension first).foldl (feed dimension) fixed)
                hpositive _ hsecond with ⟨hfits, -⟩ | ⟨-, -, hfailed⟩
              · rw [hseen] at hfits
                rcases hfits with rfl | hfits
                · rw [List.append_nil] at hsome hlarge
                  have hsmall := hroom.resolve_left hsome
                  omega
                · omega
              · rw [hwhole, hfailed]
                exact ⟨rfl, fun hok => by cases hok⟩
          · rw [hfailed]
            rcases @pushRows_feed _ _ _ fixed hpositive _ hboth with ⟨hfits, -⟩ | ⟨-, -, hwhole⟩
            · rcases hfits with hnil | hfits
              · exact absurd (List.append_eq_nil_iff.mp hnil).1 hsome
              · have hmore := Nat.le_add_right (first.length / dimension) (second.length / dimension)
                omega
            · rw [hwhole]
              exact ⟨rfl, fun hok => by cases hok⟩

/-! ## What the reservoir holds -/

/-- The samplers that accepted batches lead to, with all rows that were pushed. -/
inductive Sampled (reserve : ℕ → Bool) (maxRows : ℕ) (rng : skips.State) :
    ReservoirSampler skips Value → List (List Value) → Prop
  | new {sampler : ReservoirSampler skips Value} (hnew : new maxRows rng = .ok sampler) :
      Sampled reserve maxRows rng sampler []
  | push {before after : ReservoirSampler skips Value} {rows : List (List Value)}
      {vectors : List Value} {dimension : ℕ} (hbefore : Sampled reserve maxRows rng before rows)
      (hpush : before.push reserve vectors dimension = (.ok (), after)) :
      Sampled reserve maxRows rng after (rows ++ rowsOf dimension vectors)

/-- A sample of pushed rows. -/
structure Holds (maxRows dimension : ℕ) (sampler : ReservoirSampler skips Value)
    (rows : List (List Value)) : Prop where
  limit : sampler.maxRows = maxRows
  aligned : dimension ∣ sampler.values.length
  seen : sampler.seenRows = rows.length
  retained : (rowsOf dimension sampler.values).length = min rows.length maxRows
  pushed : ∀ next ∈ rowsOf dimension sampler.values, next ∈ rows
  whole : rows.length ≤ maxRows → rowsOf dimension sampler.values = rows

variable {rows : List (List Value)} {next : List Value}

/-- One more row. -/
theorem Holds.feed {maxRows : ℕ} (hpositive : 0 < dimension) (hlimit : 0 < maxRows)
    (hnext : next.length = dimension) (hholds : Holds maxRows dimension sampler rows) :
    Holds maxRows dimension (sampler.feed dimension next) (rows ++ [next]) := by
  obtain ⟨hmax, haligned, hseen, hretained, hpushed, hwhole⟩ := hholds
  have hcount : sampler.values.length / dimension = min rows.length maxRows := by
    rw [← length_rowsOf, hretained]
  have hmore : (rows ++ [next]).length = rows.length + 1 := by
    rw [List.length_append, List.length_singleton]
  -- the row is kept while there is room; later it is skipped, or replaces another
  by_cases hfill : sampler.values.length / dimension < sampler.maxRows
  · have hgrown : rowsOf dimension (sampler.values ++ next) =
        rowsOf dimension sampler.values ++ [next] := by
      rw [rowsOf_append haligned, rowsOf_singleton hpositive hnext]
    have hvalues : (sampler.feed dimension next).values = sampler.values ++ next := by
      unfold ReservoirSampler.feed scheduleIfFull
      rw [if_pos hfill]
      dsimp only
      split <;> rfl
    have hmaxAfter : (sampler.feed dimension next).maxRows = sampler.maxRows := by
      unfold ReservoirSampler.feed scheduleIfFull
      rw [if_pos hfill]
      dsimp only
      split <;> rfl
    have hall : rowsOf dimension sampler.values = rows := hwhole (by omega)
    refine ⟨hmaxAfter.trans hmax, ?_, ?_, ?_, ?_, ?_⟩
    · rw [hvalues, List.length_append, hnext]
      exact Nat.dvd_add haligned (Nat.dvd_refl dimension)
    · rw [seenRows_feed, hseen, hmore]
    · rw [hvalues, hgrown, hall, hmore]
      omega
    · rw [hvalues, hgrown, hall]
      exact fun _ hmem => hmem
    · intro _
      rw [hvalues, hgrown, hall]
  · have hfull : maxRows ≤ rows.length := by omega
    by_cases hskip : 0 < sampler.skipRows
    · have hvalues : (sampler.feed dimension next).values = sampler.values := by
        unfold ReservoirSampler.feed
        rw [if_neg hfill, if_pos hskip]
      have hmaxAfter : (sampler.feed dimension next).maxRows = sampler.maxRows := by
        unfold ReservoirSampler.feed
        rw [if_neg hfill, if_pos hskip]
      refine ⟨hmaxAfter.trans hmax, by rw [hvalues]; exact haligned, ?_, ?_, ?_, ?_⟩
      · rw [seenRows_feed, hseen, hmore]
      · rw [hvalues, hretained, hmore]
        omega
      · rw [hvalues]
        exact fun other hother => List.mem_append_left _ (hpushed other hother)
      · intro hfew
        rw [hmore] at hfew
        omega
    · have hvalues : (sampler.feed dimension next).values =
          putRow sampler.values (sampler.replacement * dimension) next := by
        unfold ReservoirSampler.feed
        rw [if_neg hfill, if_neg hskip]
        rfl
      have hmaxAfter : (sampler.feed dimension next).maxRows = sampler.maxRows := by
        unfold ReservoirSampler.feed
        rw [if_neg hfill, if_neg hskip]
        rfl
      have hinside : sampler.replacement < sampler.values.length / dimension := by
        have hbelow : sampler.replacement < sampler.maxRows := Nat.mod_lt _ (by omega)
        omega
      refine ⟨hmaxAfter.trans hmax, ?_, ?_, ?_, ?_, ?_⟩
      · rw [hvalues, length_putRow (by rw [hnext]; exact row_end_le hinside)]
        exact haligned
      · rw [seenRows_feed, hseen, hmore]
      · rw [hvalues, rowsOf_putRow hinside hnext, List.length_set, hretained, hmore]
        omega
      · intro other hother
        rw [hvalues, rowsOf_putRow hinside hnext] at hother
        rcases List.mem_or_eq_of_mem_set hother with hother | rfl
        · exact List.mem_append_left _ (hpushed other hother)
        · exact List.mem_append_right _ (List.mem_singleton_self _)
      · intro hfew
        rw [hmore] at hfew
        omega

theorem length_of_mem_rowsOf (hnext : next ∈ rowsOf dimension vectors) :
    next.length = dimension := by
  obtain ⟨rowId, hrow, rfl⟩ := List.mem_map.mp hnext
  exact length_row (List.mem_range.mp hrow)

/-- All rows of a batch. -/
theorem Holds.foldl_feed {maxRows : ℕ} {more : List (List Value)} (hpositive : 0 < dimension)
    (hlimit : 0 < maxRows) (hmore : ∀ next ∈ more, next.length = dimension)
    (hholds : Holds maxRows dimension sampler rows) :
    Holds maxRows dimension (more.foldl (ReservoirSampler.feed dimension) sampler) (rows ++ more) := by
  induction more generalizing sampler rows with
  | nil =>
      rw [List.append_nil]
      exact hholds
  | cons next more ih =>
      rw [List.forall_mem_cons] at hmore
      have hnext := hholds.feed hpositive hlimit hmore.1
      rw [List.foldl_cons, show rows ++ next :: more = rows ++ [next] ++ more by simp]
      exact ih hmore.2 hnext

/-- The sampler holds a sample of all rows that were pushed. -/
theorem reservoir_holds_sample {maxRows : ℕ} {rng : skips.State}
    (hsampled : Sampled reserve maxRows rng sampler rows) :
    (sampler.dimension = none → sampler.values = [] ∧ rows = [] ∧ sampler.seenRows = 0) ∧
      sampler.maxRows = maxRows ∧ 0 < maxRows ∧
      ∀ dimension, sampler.dimension = some dimension →
        0 < dimension ∧ Holds maxRows dimension sampler rows := by
  induction hsampled with
  | new hnew =>
      unfold new at hnew
      rw [rejectIf_bind_eq_ok] at hnew
      obtain ⟨hlimit, hnew⟩ := hnew
      cases hnew
      exact ⟨fun _ => ⟨rfl, rfl, rfl⟩, rfl, Nat.pos_of_ne_zero hlimit, fun dimension hsome => by
        cases hsome⟩
  | @push before after rows vectors dimension hbefore hpush ih =>
      obtain ⟨hpositive, -, hsame, rfl⟩ := push_ok hpush
      obtain ⟨hfirst, hmax, hlimit, hlater⟩ := ih
      have hfixed : Holds maxRows dimension { before with dimension := some dimension } rows := by
        cases hdimension : before.dimension with
        | none =>
            obtain ⟨hvalues, hrows, hseen⟩ := hfirst hdimension
            subst hrows
            refine ⟨hmax, ?_, hseen, ?_, ?_, ?_⟩
            · dsimp only
              rw [hvalues]
              exact Nat.dvd_zero dimension
            · dsimp only
              rw [hvalues, rowsOf_nil]
              simp
            · dsimp only
              rw [hvalues, rowsOf_nil]
              exact fun _ hmem => hmem
            · dsimp only
              rw [hvalues, rowsOf_nil]
              exact fun _ => rfl
        | some known =>
            rw [hdimension, Option.any_some, decide_eq_true_eq, not_not] at hsame
            subst hsame
            obtain ⟨hmax, haligned, hseen, hretained, hpushed, hwhole⟩ := (hlater _ hdimension).2
            exact ⟨hmax, haligned, hseen, hretained, hpushed, hwhole⟩
      have hwidth : ∀ next ∈ rowsOf dimension vectors, next.length = dimension :=
        fun next hnext => length_of_mem_rowsOf hnext
      have hall := hfixed.foldl_feed hpositive hlimit hwidth
      have hkept := @dimension_foldl_feed _ _ dimension
        { before with dimension := some dimension } (rowsOf dimension vectors)
      refine ⟨fun hnone => ?_, hall.limit, hlimit, fun other hother => ?_⟩
      · rw [hkept] at hnone
        cases hnone
      · rw [hkept] at hother
        cases hother
        exact ⟨hpositive, hall⟩

/-- The cuts between batches do not matter: two batches end as their concatenation does, with the
same sampler if none fails.  The sampler counts the rows pushed, holds at most `maxRows` of them,
and all of them, in order, as long as they fit; and a batch that is let in is added to them. -/
theorem push_independent_of_batches {maxRows : ℕ} {rng : skips.State} {rows : List (List Value)}
    (hsampled : Sampled reserve maxRows rng sampler rows) {first second : List Value}
    (hfirst : dimension ∣ first.length) (hsecond : dimension ∣ second.length) :
    ((sampler.push reserve (first ++ second) dimension).1 =
        ((sampler.push reserve first dimension).1 >>= fun _ =>
          ((sampler.push reserve first dimension).2.push reserve second dimension).1) ∧
      ((sampler.push reserve (first ++ second) dimension).1 = .ok () →
        (sampler.push reserve (first ++ second) dimension).2 =
          ((sampler.push reserve first dimension).2.push reserve second dimension).2)) ∧
    sampler.seenRows = rows.length ∧
    (sampler.dimension = none → sampler.values = []) ∧
    (∀ dimension, sampler.dimension = some dimension →
      dimension ∣ sampler.values.length ∧
      (rowsOf dimension sampler.values).length ≤ maxRows ∧
      (∀ next ∈ rowsOf dimension sampler.values, next ∈ rows) ∧
      (rows.length ≤ maxRows → rowsOf dimension sampler.values = rows)) ∧
    (Accepts reserve sampler dimension ((first ++ second).length / dimension) →
      (sampler.push reserve (first ++ second) dimension).1 = .ok () ∧
        Holds maxRows dimension (sampler.push reserve (first ++ second) dimension).2
          (rows ++ rowsOf dimension (first ++ second))) := by
  obtain ⟨hnone, -, -, hsome⟩ := reservoir_holds_sample hsampled
  refine ⟨push_append sampler hfirst hsecond, ?_, fun hdimension => (hnone hdimension).1, ?_, ?_⟩
  · cases hdimension : sampler.dimension with
    | none =>
        obtain ⟨-, hrows, hseen⟩ := hnone hdimension
        rw [hrows, hseen, List.length_nil]
    | some known => exact (hsome known hdimension).2.seen
  · intro known hdimension
    obtain ⟨-, hholds⟩ := hsome known hdimension
    refine ⟨hholds.aligned, ?_, hholds.pushed, hholds.whole⟩
    rw [hholds.retained]
    exact Nat.min_le_right _ _
  · intro haccepts
    have hboth : dimension ∣ (first ++ second).length := by
      rw [List.length_append]
      exact Nat.dvd_add hfirst hsecond
    have hpush := push_of_accepts hboth haccepts
    obtain ⟨-, -, -, hlater⟩ := reservoir_holds_sample (hsampled.push hpush)
    rw [hpush]
    exact ⟨rfl, (hlater dimension (by rw [dimension_foldl_feed])).2⟩

/-- A counter instead of random numbers; two rows are skipped after each replacement. -/
def countingSkips : SkipSchedule where
  State := ℕ
  Weight := Unit
  nextU64 state := (state, state + 1)
  zero := ()
  schedule _ _ state := (((), 2), state + 2)

def firstState : countingSkips.State := (0 : ℕ)

def countingSampler : ReservoirSampler countingSkips ℕ := ⟨none, 2, 0, [], firstState, 0, ()⟩

theorem new_countingSampler : new 2 firstState = .ok countingSampler := rfl

/-- A batch of one row and one of three, for a reservoir of two. -/
theorem push_independent_of_batches_counting :
    (countingSampler.push (fun _ => true) [1, 2, 3, 4] 1).1 = .ok () ∧
    (countingSampler.push (fun _ => true) [1, 2, 3, 4] 1).2 =
      ((countingSampler.push (fun _ => true) [1] 1).2.push (fun _ => true) [2, 3, 4] 1).2 ∧
    Holds 2 1 (countingSampler.push (fun _ => true) [1, 2, 3, 4] 1).2 [[1], [2], [3], [4]] := by
  obtain ⟨⟨-, hsame⟩, -, -, -, haccepted⟩ := @push_independent_of_batches _ _ (fun _ => true) 1 _ 2
    firstState [] (Sampled.new new_countingSampler) [1] [2, 3, 4] (Nat.one_dvd _) (Nat.one_dvd _)
  obtain ⟨hok, hholds⟩ := haccepted {
    positive := Nat.one_pos
    dimension := Or.inr ⟨rfl, by decide, rfl⟩
    counted := by decide }
  exact ⟨hok, hsame hok, hholds⟩

end ReservoirSampler

end ParqDB.Kmeans
