import Mathlib.Data.Int.ConditionallyCompleteOrder
import ParqDB.Browser.TopKSearch

/-!
# Batches and their merge

What becomes of the rows that a search has read: each batch yields its nearest rows
(`scoreBatch_spec`), and the candidates of all batches, sorted by distance and then by the order in
which they came, start with the nearest rows of all (`finishSearch_eq`), in whatever batches the
rows come.
-/

namespace ParqDB.Browser

open Foundations Kernels

variable {F : Type} [Ieee F]

/-! ## Rows -/

/-- The vector of a row. -/
def Row.item (row : Row F) : EncodedRow F where
  codes := match row.code with
    | .bytes code => code
    | _ => []
  offset := row.offset.getD (Numbers.ofCode 0)
  scale := row.scale.getD (Numbers.ofCode 0)

def Row.distance (index : Index) (query : List F) (row : Row F) : F :=
  rowDistance index.postingEncoding index.dimension query row.item

/-- What a search returns for a row. -/
def Row.hit (index : Index) (query : List F) (row : Row F) : SearchHit F where
  keys := index.sourceKeyFields.zipIdx.map fun entry =>
    (entry.1.name, row.keys.getD entry.2 .undefined)
  distance := row.distance index query
  scale := index.metric.scale

/-- A float that the client accepts as a scale or an offset. -/
def Finite (value : Option F) : Prop := ∃ number ∈ value, Numbers.isFinite number = true

/-- A row with a vector and a key, as the index describes them. -/
structure Row.Sound (index : Index) (row : Row F) : Prop where
  code : ∃ code, row.code = .bytes code
  offset : Finite row.offset
  scale : Finite row.scale
  nonnegative : ∀ scale ∈ row.scale, Numbers.isNegative scale = false
  item : ValidRow index.postingEncoding index.dimension row.item
  keys : ∀ entry ∈ index.sourceKeyFields.zipIdx,
    validSourceKey (row.keys.getD entry.2 .undefined) entry.1.type = true

variable {index : Index} {row : Row F}

theorem requiredFloat_of_finite {value : Option F} (hfinite : Finite value) (label : String) :
    requiredFloat value label = .ok (value.getD (Numbers.ofCode 0)) := by
  obtain ⟨number, hnumber, hfinite⟩ := hfinite
  have hvalue : value = some number := hnumber
  subst hvalue
  rw [requiredFloat]
  exact if_pos hfinite

theorem batchRow_eq (hsound : row.Sound index) {selected : List ℤ}
    (hselected : ofSelected (fun row : Row F => row.cid.safeInteger) selected row = true) :
    batchRow index selected row = .ok row.item := by
  obtain ⟨code, hcode⟩ := hsound.code
  obtain ⟨scale, hscale, -⟩ := hsound.scale
  have hcid : ∃ cid, requiredInteger row.cid "posting cid" = .ok cid ∧ cid ∈ selected := by
    rw [ofSelected] at hselected
    cases hinteger : row.cid.safeInteger with
    | none =>
        rw [hinteger] at hselected
        cases hselected
    | some cid =>
        rw [hinteger] at hselected
        refine ⟨cid, ?_, of_decide_eq_true hselected⟩
        rw [requiredInteger, hinteger]
  obtain ⟨cid, hcid, hmem⟩ := hcid
  have hitem : row.item.codes = code := by
    rw [Row.item, hcode]
  have hlength := hsound.item.codes
  have hsign : Numbers.isNegative (row.scale.getD (Numbers.ofCode 0)) = false := by
    have hsome : row.scale = some scale := hscale
    rw [hsome]
    exact hsound.nonnegative scale hscale
  unfold batchRow
  rw [hcid, ok_bind, rejectIf_eq_ok.mpr (not_not.mpr hmem), ok_bind, hcode]
  dsimp only
  rw [rejectIf_eq_ok.mpr (by rw [← hitem, hlength]; exact not_not.mpr rfl), ok_bind,
    requiredFloat_of_finite hsound.offset, ok_bind, requiredFloat_of_finite hsound.scale, ok_bind,
    rejectIf_eq_ok.mpr (by rw [hsign]; exact Bool.false_ne_true), ok_bind, Row.item, hcode]
  rfl

theorem resultRow_eq (hsound : row.Sound index) (query : List F) :
    resultRow row index.sourceKeyFields (row.distance index query) index.metric.scale =
      .ok (row.hit index query) := by
  have hkeys : (index.sourceKeyFields.zipIdx.mapM fun entry =>
      (validateSourceKey (row.keys.getD entry.2 .undefined) entry.1 >>= fun _ =>
        (pure (entry.1.name, row.keys.getD entry.2 .undefined) : Except String _))) =
        .ok (row.hit index query).keys := by
    refine mapM_of_forall_eq_ok fun entry hentry => ?_
    have hvalid := hsound.keys entry hentry
    rw [validateSourceKey, rejectIf_eq_ok.mpr (by rw [hvalid]; exact Bool.false_ne_true.symm)]
    rfl
  unfold resultRow
  rw [hkeys]
  rfl

/-! ## One batch -/

/-- Rows are compared by their distances and then by their places. -/
def placeKey (index : Index) (query : List F) (placed : Row F × ℕ) : ℤ ×ₗ ℕ :=
  toLex (rank (placed.1.distance index query), placed.2)

/-- The key of a row whose batch begins at a place. -/
def shift (base : ℕ) (key : ℤ ×ₗ ℕ) : ℤ ×ₗ ℕ := toLex ((ofLex key).1, (ofLex key).2 + base)

omit [Ieee F] in
theorem shift_strictMono (base : ℕ) : StrictMono (shift base) := by
  intro left right hlt
  rcases Prod.Lex.lt_iff.mp hlt with hrank | ⟨hrank, hplace⟩
  · exact Prod.Lex.lt_iff.mpr (.inl hrank)
  · exact Prod.Lex.lt_iff.mpr (.inr ⟨hrank, Nat.add_lt_add_right hplace base⟩)

/-- Rows that a search can score. -/
structure Scorable (index : Index) (plan : SearchPlan F) (row : Row F) : Prop where
  sound : row.Sound index
  selected : ofSelected (fun row : Row F => row.cid.safeInteger) plan.selected row = true
  finite : (Ieee.bits (row.distance index plan.query)).Finite

variable {plan : SearchPlan F} {rows : List (Row F)}

theorem lvqBatch_eq (hrows : ∀ row ∈ rows, Scorable index plan row) :
    lvqBatch index plan.selected rows = .ok (rows.map Row.item) :=
  mapM_of_forall_eq_ok fun row hrow => batchRow_eq (hrows row hrow).sound (hrows row hrow).selected

theorem Scorable.totalKey (hquery : plan.query.length = index.dimension)
    (hrow : Scorable index plan row) :
    (Ieee.bits (row.distance index plan.query)).totalKey = rank (row.distance index plan.query) :=
  totalKey_eq_rank (distance_unsigned hrow.sound.item hquery hrow.finite)

/-- A scored row of the candidates, by its place and the order in which it came. -/
def scoredRow (index : Index) (query : List F) (entry : (Row F × ℕ) × ℕ) : ScoredRow F :=
  ⟨entry.1.1, entry.1.1.distance index query, entry.2⟩

/-- The keys of what the heap is offered, at the places of the rows. -/
theorem map_shift_offered (hquery : plan.query.length = index.dimension)
    (hrows : ∀ row ∈ rows, Scorable index plan row) (base : ℕ) :
    ((offered (rows.map (Row.distance index plan.query))).map Candidate.key).map (shift base) =
      (rows.zipIdx base).map (placeKey index plan.query) := by
  have hplaces : rows.zipIdx base = rows.zipIdx.map (Prod.map id (· + base)) := by
    rw [List.map_snd_add_zipIdx_eq_zipIdx, Nat.add_zero]
  rw [hplaces, offered, List.zipIdx_map, List.map_map, List.map_map, List.map_map, List.map_map]
  refine List.map_congr_left fun placed hplaced => ?_
  have hrow := hrows placed.1 (List.fst_mem_of_mem_zipIdx hplaced)
  show shift base (toLex ((Ieee.bits (placed.1.distance index plan.query)).totalKey, placed.2)) = _
  rw [hrow.totalKey hquery]
  rfl

/-- A batch yields its nearest rows. -/
theorem scoreBatch_spec (hquery : plan.query.length = index.dimension)
    (hfinite : plan.query.all Numbers.isFinite = true) (hk : 0 < plan.effectiveK)
    (hrows : ∀ row ∈ rows, Scorable index plan row) (hne : rows ≠ []) (hmax : rows.length ≤ rowsMax)
    (scored : Scored F) (base : ℕ) :
    ∃ picked : List (Row F × ℕ),
      scoreBatch index plan scored rows = .ok {
        candidates := scored.candidates ++
          (picked.zipIdx scored.order).map (scoredRow index plan.query)
        order := scored.order + picked.length } ∧
      picked.map (placeKey index plan.query) =
        smallest plan.effectiveK ((rows.zipIdx base).map (placeKey index plan.query)) ∧
      ∀ placed ∈ picked, placed ∈ rows.zipIdx base := by
  have hitems : ∀ item ∈ rows.map Row.item,
      ValidRow index.postingEncoding plan.query.length item := by
    intro item hitem
    obtain ⟨row, hrow, rfl⟩ := List.mem_map.mp hitem
    rw [hquery]
    exact (hrows row hrow).sound.item
  have hkernel := lvqTopk_eq (hquery ▸ index.dimension_pos) hfinite hk
    (by simpa using hne) (by rwa [List.length_map]) hitems
  have hdistances : (rows.map Row.item).map
      (rowDistance index.postingEncoding plan.query.length plan.query) =
        rows.map (Row.distance index plan.query) := by
    rw [List.map_map, hquery]
    rfl
  rw [hdistances, List.length_map] at hkernel
  obtain ⟨hkeys, hplaces⟩ := boundedTopk_eq (rows.map (Row.distance index plan.query))
    (min plan.effectiveK rows.length)
  generalize boundedTopk (rows.map (Row.distance index plan.query))
    (min plan.effectiveK rows.length) = hits at hkernel hkeys hplaces
  -- every hit is a row of the batch, with its distance
  have hrow : ∀ hit ∈ hits, rows[hit.row]? = some (rows.getD hit.row Row.empty) ∧
      hit.distance = (rows.getD hit.row Row.empty).distance index plan.query := by
    intro hit hhit
    have hdistance := hplaces hit hhit
    rw [List.getElem?_map] at hdistance
    obtain ⟨row, hrow, hsame⟩ := Option.map_eq_some_iff.mp hdistance
    rw [List.getD_eq_getElem?_getD, hrow]
    exact ⟨rfl, hsame.symm⟩
  have hshifted : (hits.map Candidate.key).map (shift base) =
      (hits.map fun hit => (rows.getD hit.row Row.empty, hit.row + base)).map
        (placeKey index plan.query) := by
    rw [List.map_map, List.map_map]
    refine List.map_congr_left fun hit hhit => ?_
    obtain ⟨hmem, hdistance⟩ := hrow hit hhit
    have hscorable := hrows _ (List.mem_of_getElem? hmem)
    show shift base (toLex ((Ieee.bits hit.distance).totalKey, hit.row)) = _
    rw [hdistance, hscorable.totalKey hquery]
    rfl
  have hsmallest : smallest (min plan.effectiveK rows.length)
      ((rows.zipIdx base).map (placeKey index plan.query)) =
        smallest plan.effectiveK ((rows.zipIdx base).map (placeKey index plan.query)) := by
    have hlength : (((rows.zipIdx base).map (placeKey index plan.query)).insertionSort
        (· ≤ ·)).length = rows.length := by
      rw [List.length_insertionSort, List.length_map, List.length_zipIdx]
    rw [smallest, smallest, ← hlength, ← List.take_take, List.take_length]
  refine ⟨hits.map fun hit => (rows.getD hit.row Row.empty, hit.row + base), ?_, ?_, ?_⟩
  · unfold scoreBatch
    rw [lvqBatch_eq hrows, ok_bind, hkernel, ok_bind, List.length_map, List.zipIdx_map,
      List.map_map]
    refine congrArg Except.ok (congrArg (Scored.mk · _) (congrArg (_ ++ ·) ?_))
    refine List.map_congr_left fun entry hentry => ?_
    have hdistance := (hrow entry.1 (List.fst_mem_of_mem_zipIdx hentry)).2
    show ScoredRow.mk _ _ _ = ScoredRow.mk _ _ _
    rw [hdistance]
    rfl
  · rw [← hshifted, hkeys, ← smallest_map (shift_strictMono base), map_shift_offered hquery hrows,
      hsmallest]
  · intro placed hplaced
    obtain ⟨hit, hhit, rfl⟩ := List.mem_map.mp hplaced
    refine List.mk_mem_zipIdx_iff_le_and_getElem?_sub.mpr ⟨Nat.le_add_left _ _, ?_⟩
    rw [Nat.add_sub_cancel]
    exact (hrow hit hhit).1

/-! ## All batches -/

/-- Keys that stand by place if their distances are equal. -/
def Ordered (keys : List (ℤ ×ₗ ℕ)) : Prop :=
  keys.Pairwise fun left right => (ofLex left).1 = (ofLex right).1 → left ≤ right

variable {batches : List (List (Row F))} {query : List F}

/-- Batches one after the other: the candidates of each are the nearest of its rows. -/
theorem foldlM_scoreBatch (hquery : plan.query.length = index.dimension)
    (hfinite : plan.query.all Numbers.isFinite = true) (hk : 0 < plan.effectiveK)
    (hbatches : ∀ rows ∈ batches, rows ≠ [] ∧ rows.length ≤ rowsMax ∧
      ∀ row ∈ rows, Scorable index plan row) (scored : Scored F) (base : ℕ) :
    ∃ (picked : List (Row F × ℕ)) (keys : List (List (ℤ ×ₗ ℕ))),
      batches.foldlM (scoreBatch index plan) scored = .ok {
        candidates := scored.candidates ++
          (picked.zipIdx scored.order).map (scoredRow index plan.query)
        order := scored.order + picked.length } ∧
      picked.map (placeKey index plan.query) = keys.flatMap (smallest plan.effectiveK) ∧
      keys.flatten = (batches.flatten.zipIdx base).map (placeKey index plan.query) ∧
      (∀ placed ∈ picked, placed ∈ batches.flatten.zipIdx base) ∧
      Ordered (picked.map (placeKey index plan.query)) := by
  induction batches generalizing scored base with
  | nil =>
      refine ⟨[], [], ?_, rfl, rfl, fun _ hplaced => absurd hplaced List.not_mem_nil,
        List.Pairwise.nil⟩
      show Except.ok scored = _
      rw [List.zipIdx_nil, List.map_nil, List.append_nil]
      rfl
  | cons rows batches ih =>
      obtain ⟨hne, hmax, hrows⟩ := hbatches rows List.mem_cons_self
      obtain ⟨first, hfirst, hfirstKeys, hfirstMem⟩ :=
        scoreBatch_spec hquery hfinite hk hrows hne hmax scored base
      obtain ⟨rest, keys, hrest, hrestKeys, hflatten, hrestMem, hordered⟩ :=
        ih (fun other hother => hbatches other (List.mem_cons_of_mem _ hother))
          { candidates := scored.candidates ++
              (first.zipIdx scored.order).map (scoredRow index plan.query)
            order := scored.order + first.length } (base + rows.length)
      refine ⟨first ++ rest,
        (rows.zipIdx base).map (placeKey index plan.query) :: keys, ?_, ?_, ?_, ?_, ?_⟩
      · rw [List.foldlM_cons, hfirst, ok_bind, hrest, List.zipIdx_append, List.map_append,
          List.append_assoc, List.length_append, Nat.add_assoc]
      · rw [List.map_append, List.flatMap_cons, hfirstKeys, hrestKeys]
      · rw [List.flatten_cons, List.flatten_cons, List.zipIdx_append, List.map_append, hflatten]
      · intro placed hplaced
        rw [List.flatten_cons, List.zipIdx_append, List.mem_append]
        exact (List.mem_append.mp hplaced).imp (hfirstMem placed) (hrestMem placed)
      · rw [Ordered, List.map_append, List.pairwise_append]
        refine ⟨?_, hordered, ?_⟩
        · have hsorted := pairwise_smallest plan.effectiveK
            ((rows.zipIdx base).map (placeKey index plan.query))
          rw [hfirstKeys]
          refine hsorted.imp ?_
          intro left right hle _
          exact hle
        · -- a row of a later batch has a later place
          intro left hleft right hright hrank
          obtain ⟨earlier, hearlier, rfl⟩ := List.mem_map.mp hleft
          obtain ⟨later, hlater, rfl⟩ := List.mem_map.mp hright
          have hbefore := List.snd_lt_add_of_mem_zipIdx (hfirstMem earlier hearlier)
          have hafter := List.le_snd_of_mem_zipIdx (hrestMem later hlater)
          refine Prod.Lex.le_iff.mpr (.inr ⟨hrank, ?_⟩)
          exact (Nat.lt_of_lt_of_le hbefore hafter).le

/-- The rows by distance and then by place. -/
def nearest (index : Index) (query : List F) (rows : List (Row F)) : List (Row F × ℕ) :=
  rows.zipIdx.insertionSort fun left right => placeKey index query left ≤ placeKey index query right

theorem map_placeKey_nearest (query : List F) (rows : List (Row F)) :
    (nearest index query rows).map (placeKey index query) =
      (rows.zipIdx.map (placeKey index query)).insertionSort (· ≤ ·) :=
  List.map_insertionSort _ (· ≤ ·) (placeKey index query) rows.zipIdx fun _ _ _ _ => Iff.rfl

theorem mem_nearest {placed : Row F × ℕ} :
    placed ∈ nearest index query rows ↔ placed ∈ rows.zipIdx :=
  List.mem_insertionSort _

/-- A place has one row. -/
theorem eq_of_placeKey_eq {left right : Row F × ℕ} (hleft : left ∈ rows.zipIdx)
    (hright : right ∈ rows.zipIdx) (heq : placeKey index query left = placeKey index query right) :
    left = right := by
  have hplace : left.2 = right.2 := congrArg (fun key => (ofLex key).2) heq
  have hrows := List.mem_zipIdx_iff_getElem?.mp hleft
  rw [hplace, List.mem_zipIdx_iff_getElem?.mp hright] at hrows
  exact Prod.ext (Option.some.inj hrows).symm hplace

theorem eq_of_map_placeKey_eq {query : List F} {left right : List (Row F × ℕ)}
    (hleft : ∀ placed ∈ left, placed ∈ rows.zipIdx)
    (hright : ∀ placed ∈ right, placed ∈ rows.zipIdx)
    (heq : left.map (placeKey index query) = right.map (placeKey index query)) : left = right := by
  induction left generalizing right with
  | nil => exact (List.map_eq_nil_iff.mp heq.symm).symm
  | cons first left ih =>
      cases right with
      | nil => cases heq
      | cons second right =>
          rw [List.map_cons, List.map_cons, List.cons.injEq] at heq
          rw [eq_of_placeKey_eq (hleft first List.mem_cons_self)
              (hright second List.mem_cons_self) heq.1,
            ih (fun placed hplaced => hleft placed (List.mem_cons_of_mem _ hplaced))
              (fun placed hplaced => hright placed (List.mem_cons_of_mem _ hplaced)) heq.2]

/-- To sort the candidates by distance and order is to sort their rows by distance and place. -/
theorem sorted_candidates {picked : List (Row F × ℕ)}
    (hordered : Ordered (picked.map (placeKey index query))) :
    ∃ order : List ((Row F × ℕ) × ℕ),
      (picked.zipIdx.map (scoredRow index query)).insertionSort
        (fun left right => left.key ≤ right.key) = order.map (scoredRow index query) ∧
      (order.map Prod.fst).map (placeKey index query) =
        (picked.map (placeKey index query)).insertionSort (· ≤ ·) ∧
      ∀ entry ∈ order, entry.1 ∈ picked := by
  refine ⟨picked.zipIdx.insertionSort fun left right =>
    (scoredRow index query left).key ≤ (scoredRow index query right).key, ?_, ?_, ?_⟩
  · exact (List.map_insertionSort _ (fun left right : ScoredRow F => left.key ≤ right.key)
      (scoredRow index query) picked.zipIdx fun _ _ _ _ => Iff.rfl).symm
  · have hkeys := List.map_insertionSort (fun left right : (Row F × ℕ) × ℕ =>
        (scoredRow index query left).key ≤ (scoredRow index query right).key)
      (fun left right : (ℤ ×ₗ ℕ) × ℕ =>
        toLex ((ofLex left.1).1, left.2) ≤ toLex ((ofLex right.1).1, right.2))
      (Prod.map (placeKey index query) id) picked.zipIdx fun _ _ _ _ => Iff.rfl
    have hsorted := map_fst_sort_zipIdx (fun key : ℤ ×ₗ ℕ => (ofLex key).1)
      (fun left right hlt => (Prod.Lex.lt_iff.mpr (.inl hlt)).le) hordered
    rw [List.zipIdx_map, ← hkeys, List.map_map] at hsorted
    rw [← hsorted, List.map_map]
    rfl
  · intro entry hentry
    exact List.fst_mem_of_mem_zipIdx ((List.mem_insertionSort _).mp hentry)

/-- The hits are the nearest of all rows, in whatever batches they are read. -/
theorem finishSearch_eq (hquery : plan.query.length = index.dimension)
    (hfinite : plan.query.all Numbers.isFinite = true) (hk : 0 < plan.effectiveK)
    (hbatches : ∀ rows ∈ batches, rows ≠ [] ∧ rows.length ≤ rowsMax ∧
      ∀ row ∈ rows, Scorable index plan row) :
    finishSearch index plan batches =
      .ok (((nearest index plan.query batches.flatten).take plan.effectiveK).map fun placed =>
        placed.1.hit index plan.query) := by
  obtain ⟨picked, keys, hscored, hpicked, hflatten, hmem, hordered⟩ :=
    foldlM_scoreBatch hquery hfinite hk hbatches ⟨[], 0⟩ 0
  obtain ⟨order, horder, horderKeys, horderMem⟩ := sorted_candidates hordered
  have hsound : ∀ placed ∈ picked, placed.1.Sound index := by
    intro placed hplaced
    have hrow := List.fst_mem_of_mem_zipIdx (hmem placed hplaced)
    obtain ⟨rows, hrows, hrow⟩ := List.mem_flatten.mp hrow
    exact ((hbatches rows hrows).2.2 _ hrow).sound
  -- the candidates that are returned are the nearest rows
  have hnearest : (order.map Prod.fst).take plan.effectiveK =
      (nearest index plan.query batches.flatten).take plan.effectiveK := by
    refine @eq_of_map_placeKey_eq F _ index batches.flatten plan.query _ _ ?_ ?_ ?_
    · intro placed hplaced
      obtain ⟨entry, hentry, rfl⟩ := List.mem_map.mp (List.mem_of_mem_take hplaced)
      exact hmem _ (horderMem entry hentry)
    · intro placed hplaced
      exact mem_nearest.mp (List.mem_of_mem_take hplaced)
    · calc ((order.map Prod.fst).take plan.effectiveK).map (placeKey index plan.query)
          = smallest plan.effectiveK (picked.map (placeKey index plan.query)) := by
            rw [List.map_take, horderKeys, smallest]
        _ = smallest plan.effectiveK keys.flatten := by rw [hpicked, smallest_flatMap]
        _ = ((nearest index plan.query batches.flatten).take plan.effectiveK).map
              (placeKey index plan.query) := by
            rw [hflatten, List.map_take, map_placeKey_nearest, smallest]
  have hresults : ((order.map (scoredRow index plan.query)).take plan.effectiveK).mapM
      (fun candidate => resultRow candidate.row index.sourceKeyFields candidate.distance
        index.metric.scale) =
      .ok (((order.map Prod.fst).take plan.effectiveK).map fun placed =>
        placed.1.hit index plan.query) := by
    rw [← List.map_take, ← List.map_take, List.map_map]
    rw [mapM_eq_ok, List.forall₂_map_left_iff, List.forall₂_map_right_iff]
    refine List.forall₂_same.mpr fun entry hentry => ?_
    exact resultRow_eq (hsound _ (horderMem entry (List.mem_of_mem_take hentry))) plan.query
  unfold finishSearch
  rw [hscored, ok_bind, ← hnearest, ← hresults]
  dsimp only
  rw [List.nil_append, horder]

end ParqDB.Browser
