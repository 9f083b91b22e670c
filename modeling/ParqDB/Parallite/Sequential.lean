import ParqDB.Parallite.Pipeline

/-!
# Pipelines mean sequential list functions

What a pipeline computes does not depend on how its source is split or which executor
runs it.

**Strategy.**  The meaning of a narrow dataset is a list function: `values` on the whole
source, `slices` on every slice of it.  The items of the iterators are these values and
the errors of user functions (`itemLists`), so a consumer that stops at the first error
succeeds exactly when no user function fails on a value that reaches it (`Fails`).

**Results.**

* `splitVec_balanced`, `flatten_splitVec`: the slices of a source.
* `pipelines_mean_list_functions`: collecting a pipeline gives the sequential list function
  of its input, whatever the slices, and an error exactly when it `Fails`.
-/

namespace ParqDB.Parallite

open Foundations

variable {α β γ κ ν ε : Type}

/-! ## Splitting -/

theorem length_splitSlices (slices : ℕ) (data : List α) :
    (splitSlices slices data).length = slices := by
  induction slices generalizing data with
  | zero => rfl
  | succ slices ih => simp [splitSlices, ih]

variable {data : List α}

/-- Nothing is left after the last slice. -/
theorem flatten_splitSlices {slices : ℕ} (hslices : slices = 0 → data = []) :
    (splitSlices slices data).flatten = data := by
  induction slices generalizing data with
  | zero => simp [splitSlices, hslices rfl]
  | succ slices ih =>
      rw [splitSlices, List.flatten_cons, ih, List.take_append_drop]
      rintro rfl
      simp

/-- Every slice has the rounded-down share of the elements, or one more. -/
theorem length_of_mem_splitSlices {slices share : ℕ} {slice : List α}
    (hlower : share * slices ≤ data.length) (hupper : data.length ≤ (share + 1) * slices)
    (hslice : slice ∈ splitSlices slices data) :
    slice.length = share ∨ slice.length = share + 1 := by
  induction slices generalizing data with
  | zero => cases hslice
  | succ slices ih =>
      rw [splitSlices] at hslice
      set size := (data.length + slices) / (slices + 1) with hsize
      have hbelow : size * (slices + 1) ≤ data.length + slices := Nat.div_mul_le_self _ _
      have habove : data.length + slices < size * (slices + 1) + (slices + 1) :=
        Nat.lt_div_mul_add (Nat.succ_pos slices)
      have hatLeast : share ≤ size := by
        by_contra hless
        have hproduct := Nat.mul_le_mul_right (slices + 1) (show size + 1 ≤ share by omega)
        rw [Nat.succ_mul] at hproduct
        omega
      have hatMost : size ≤ share + 1 := by
        by_contra hmore
        have hproduct := Nat.mul_le_mul_right (slices + 1) (show share + 2 ≤ size by omega)
        rw [Nat.succ_mul] at hproduct
        omega
      obtain ⟨product, hproduct⟩ : ∃ product, product = share * slices := ⟨_, rfl⟩
      have hstep : share * (slices + 1) = product + share := by rw [hproduct, Nat.mul_succ]
      have hmore : (share + 1) * (slices + 1) = product + share + slices + 1 := by
        rw [Nat.succ_mul, hstep]
        omega
      rcases (show size = share ∨ size = share + 1 by omega) with hsame | hone
      · rw [hsame] at hbelow habove hslice
        have hlength : (data.take share).length = share := by
          rw [List.length_take]
          omega
        rcases List.mem_cons.mp hslice with rfl | hrest
        · exact Or.inl hlength
        · refine ih ?_ ?_ hrest
          · rw [List.length_drop, ← hproduct]
            omega
          · rw [List.length_drop, Nat.succ_mul, ← hproduct]
            omega
      · rw [hone] at hbelow habove hslice
        rw [hmore] at hbelow
        have hlength : (data.take (share + 1)).length = share + 1 := by
          rw [List.length_take]
          omega
        rcases List.mem_cons.mp hslice with rfl | hrest
        · exact Or.inr hlength
        · refine ih ?_ ?_ hrest
          · rw [List.length_drop, ← hproduct]
            omega
          · rw [List.length_drop, Nat.succ_mul, ← hproduct]
            omega

theorem length_splitVec (data : List α) (numSlices : ℕ) :
    (splitVec data numSlices).length = max numSlices 1 := length_splitSlices _ _

theorem flatten_splitVec (data : List α) (numSlices : ℕ) :
    (splitVec data numSlices).flatten = data :=
  flatten_splitSlices fun hzero => by omega

/-- The sizes of two slices differ by at most one. -/
theorem splitVec_balanced {left right : List α} {numSlices : ℕ}
    (hleft : left ∈ splitVec data numSlices) (hright : right ∈ splitVec data numSlices) :
    left.length ≤ right.length + 1 := by
  set slices := max numSlices 1 with hslices
  have hpositive : 0 < slices := by omega
  have hlower : data.length / slices * slices ≤ data.length := Nat.div_mul_le_self _ _
  have hupper : data.length ≤ (data.length / slices + 1) * slices := by
    rw [Nat.succ_mul]
    exact (Nat.lt_div_mul_add hpositive).le
  have hsmall := length_of_mem_splitSlices hlower hupper hleft
  have hlarge := length_of_mem_splitSlices hlower hupper hright
  omega

/-! ## Iterators of a partition -/

/-- All items of a partition, past errors too. -/
def PartitionIter.items (iter : PartitionIter ε α) : List (Except (ParalliteError ε) α) :=
  iter.machine.items iter.state

theorem items_okIter (slice : List α) : (okIter slice : PartitionIter ε α).items = slice.map .ok :=
  (Machine.items_map _ _ _).trans (congrArg _ (Machine.items_ofList slice))

theorem items_mapIter (inner : PartitionIter ε α) (f : α → Except ε β) :
    (mapIter inner f).items = inner.items.map (andThen f) := Machine.items_map _ _ _

theorem items_flattenIter (outer : PartitionIter ε γ) (intoIter : γ → List β) :
    (flattenIter outer intoIter).items = outer.items.flatMap (Machine.expand intoIter) :=
  (Machine.items_flatten _).trans (List.nil_append _)

variable {ω : Type}

theorem filterMap_expand (items : List (Except ω γ)) (intoIter : γ → List β) :
    (items.flatMap (Machine.expand intoIter)).filterMap Except.toOption =
      (items.filterMap Except.toOption).flatMap intoIter := by
  induction items with
  | nil => rfl
  | cons item items ih =>
      rw [List.flatMap_cons, List.filterMap_append, ih]
      cases item with
      | error error => rfl
      | ok values =>
          simp [Machine.expand, Except.toOption, List.filterMap_map, Function.comp_def]

/-! ## The sequential meaning -/

namespace Narrow

/-- The dataset as list functions on the whole source. -/
def sequential {α : Type} : Narrow ε α → Except ε (List α)
  | parallelizeN data _ => .ok data
  | map input f => do (← input.sequential).mapM f
  | flatten input intoIter => input.sequential.map fun values => values.flatMap intoIter

/-- The values that reach the end of the dataset. -/
def values {α : Type} : Narrow ε α → List α
  | parallelizeN data _ => data
  | map input f => input.values.filterMap fun value => (f value).toOption
  | flatten input intoIter => input.values.flatMap intoIter

/-- The values of each slice. -/
def slices {α : Type} : Narrow ε α → List (List α)
  | parallelizeN data numSlices => splitVec data numSlices
  | map input f => input.slices.map fun slice => slice.filterMap fun value => (f value).toOption
  | flatten input intoIter => input.slices.map fun slice => slice.flatMap intoIter

/-- The number of source partitions. -/
def numSlices {α : Type} : Narrow ε α → ℕ
  | parallelizeN _ numSlices => max numSlices 1
  | map input _ => input.numSlices
  | flatten input _ => input.numSlices

/-- A user function fails on a value that reaches it. -/
def Fails {α : Type} : Narrow ε α → Prop
  | parallelizeN _ _ => False
  | map input f => input.Fails ∨ ∃ value ∈ input.values, ∃ error, f value = .error error
  | flatten input _ => input.Fails

theorem length_slices (dataset : Narrow ε α) : dataset.slices.length = dataset.numSlices := by
  induction dataset with
  | parallelizeN data numSlices => exact length_splitVec data numSlices
  | map input f ih => simp [slices, numSlices, ih]
  | flatten input intoIter ih => simp [slices, numSlices, ih]

/-- The slices together have the values of the whole source, in order. -/
theorem flatten_slices (dataset : Narrow ε α) : dataset.slices.flatten = dataset.values := by
  induction dataset with
  | parallelizeN data numSlices => exact flatten_splitVec data numSlices
  | map input f ih => rw [slices, values, ← ih, List.filterMap_flatten]
  | flatten input intoIter ih =>
      rw [slices, values, ← ih]
      simp only [List.flatMap_def, List.map_flatten, List.flatten_flatten, List.map_map]
      rfl

variable {dataset : Narrow ε α}

/-- When no user function fails, the values are those of the list functions. -/
theorem sequential_eq_ok (hfails : ¬ dataset.Fails) : dataset.sequential = .ok dataset.values := by
  induction dataset with
  | parallelizeN data numSlices => rfl
  | map input f ih =>
      rw [Fails, not_or] at hfails
      rw [sequential, ih hfails.1]
      exact mapM_of_forall_ok fun value hvalue error herror =>
        hfails.2 ⟨value, hvalue, error, herror⟩
  | flatten input intoIter ih =>
      rw [sequential, ih hfails]
      rfl

/-! ## The items of the iterators -/

/-- The items of each partition. -/
def itemLists {α : Type} (dataset : Narrow ε α) : List (List (Except (ParalliteError ε) α)) :=
  dataset.intoPartitionIters.map PartitionIter.items

theorem itemLists_parallelizeN (data : List α) (numSlices : ℕ) :
    (parallelizeN data numSlices : Narrow ε α).itemLists =
      (splitVec data numSlices).map fun slice => slice.map .ok := by
  rw [itemLists, intoPartitionIters, List.map_map]
  exact List.map_congr_left fun slice _ => items_okIter slice

theorem itemLists_map (input : Narrow ε α) (f : α → Except ε β) :
    (input.map f).itemLists = input.itemLists.map fun items => items.map (andThen f) := by
  rw [itemLists, intoPartitionIters, itemLists, List.map_map, List.map_map]
  exact List.map_congr_left fun inner _ => items_mapIter inner f

theorem itemLists_flatten (input : Narrow ε γ) (intoIter : γ → List β) :
    (input.flatten intoIter).itemLists =
      input.itemLists.map fun items => items.flatMap (Machine.expand intoIter) := by
  rw [itemLists, intoPartitionIters, itemLists, List.map_map, List.map_map]
  exact List.map_congr_left fun outer _ => items_flattenIter outer intoIter

/-- The successful items are the values. -/
theorem map_itemLists (dataset : Narrow ε α) :
    dataset.itemLists.map (fun items => items.filterMap Except.toOption) = dataset.slices := by
  induction dataset with
  | parallelizeN data numSlices =>
      simp [itemLists_parallelizeN, slices, Function.comp_def, List.filterMap_map, Except.toOption]
  | map input f ih =>
      rw [itemLists_map, slices, ← ih, List.map_map, List.map_map]
      refine List.map_congr_left fun items _ => ?_
      simp only [Function.comp_apply, List.filterMap_map, List.filterMap_filterMap]
      refine List.filterMap_congr fun item _ => ?_
      cases item with
      | error error => rfl
      | ok value => cases hvalue : f value <;> simp [andThen, Except.bind, hvalue, Except.mapError,
          Except.toOption]
  | flatten input intoIter ih =>
      rw [itemLists_flatten, slices, ← ih, List.map_map, List.map_map]
      refine List.map_congr_left fun items _ => ?_
      exact filterMap_expand items intoIter

theorem mem_values {value : α} :
    value ∈ dataset.values ↔ ∃ items ∈ dataset.itemLists, .ok value ∈ items := by
  rw [← flatten_slices, ← map_itemLists, List.mem_flatten]
  constructor
  · rintro ⟨slice, hslice, hvalue⟩
    obtain ⟨items, hitems, rfl⟩ := List.mem_map.mp hslice
    obtain ⟨item, hitem, hok⟩ := List.mem_filterMap.mp hvalue
    cases item with
    | error error => cases hok
    | ok other =>
        cases hok
        exact ⟨items, hitems, hitem⟩
  · rintro ⟨items, hitems, hvalue⟩
    exact ⟨_, List.mem_map_of_mem hitems, List.mem_filterMap.mpr ⟨_, hvalue, rfl⟩⟩

/-- Some item is an error exactly when a user function fails on a value that reaches it. -/
theorem fails_iff : dataset.Fails ↔ ∃ items ∈ dataset.itemLists, ∃ error, .error error ∈ items := by
  induction dataset with
  | parallelizeN data numSlices => simp [Fails, itemLists_parallelizeN]
  | map input f ih =>
      rw [Fails, ih, itemLists_map]
      constructor
      · rintro (⟨items, hitems, error, herror⟩ | ⟨value, hvalue, error, herror⟩)
        · exact ⟨_, List.mem_map_of_mem hitems, error, List.mem_map.mpr ⟨_, herror, rfl⟩⟩
        · obtain ⟨items, hitems, hitem⟩ := mem_values.mp hvalue
          refine ⟨_, List.mem_map_of_mem hitems, .user error, List.mem_map.mpr ⟨_, hitem, ?_⟩⟩
          simp [andThen, Except.bind, herror, Except.mapError]
      · rintro ⟨_, hmapped, error, herror⟩
        obtain ⟨items, hitems, rfl⟩ := List.mem_map.mp hmapped
        obtain ⟨item, hitem, hstep⟩ := List.mem_map.mp herror
        cases item with
        | error old => exact Or.inl ⟨items, hitems, old, hitem⟩
        | ok value =>
            refine Or.inr ⟨value, mem_values.mpr ⟨items, hitems, hitem⟩, ?_⟩
            cases hvalue : f value with
            | error userError => exact ⟨userError, rfl⟩
            | ok result => simp [andThen, Except.bind, hvalue, Except.mapError] at hstep
  | flatten input intoIter ih =>
      rw [Fails, ih, itemLists_flatten]
      constructor
      · rintro ⟨items, hitems, error, herror⟩
        refine ⟨_, List.mem_map_of_mem hitems, error, List.mem_flatMap.mpr ⟨_, herror, ?_⟩⟩
        exact List.mem_cons_self
      · rintro ⟨_, hmapped, error, herror⟩
        obtain ⟨items, hitems, rfl⟩ := List.mem_map.mp hmapped
        obtain ⟨item, hitem, hexpanded⟩ := List.mem_flatMap.mp herror
        cases item with
        | error old => exact ⟨items, hitems, old, hitem⟩
        | ok values => simp [Machine.expand] at hexpanded

end Narrow

/-! ## Consumers -/

/-- A consumer returns an error if it fails on one of the items whatever it did before. -/
theorem foldlM_of_error {step : β → α → Except ω β} {items : List α} {item : α}
    (hitem : item ∈ items) (hstep : ∀ acc, ∃ error, step acc item = .error error) (start : β) :
    ∃ error, items.foldlM step start = .error error := by
  induction items generalizing start with
  | nil => cases hitem
  | cons first items ih =>
      rw [List.foldlM_cons]
      cases hfirst : step start first with
      | error error => exact ⟨error, rfl⟩
      | ok next =>
          rcases List.mem_cons.mp hitem with rfl | hrest
          · obtain ⟨error, herror⟩ := hstep start
            rw [hfirst] at herror
            cases herror
          · exact ih hrest next

theorem foldlM_collect (values collected : List α) :
    (values.map (Except.ok : α → Except ω α)).foldlM
        (fun collected item => item.map fun value => collected ++ [value]) collected =
      .ok (collected ++ values) := by
  induction values generalizing collected with
  | nil => simp [pure, Except.pure]
  | cons value values ih =>
      rw [List.map_cons, List.foldlM_cons]
      exact (ih (collected ++ [value])).trans (by simp)

/-- Items without an error are their values. -/
theorem map_ok_filterMap {items : List (Except ω α)} (hok : ∀ error, .error error ∉ items) :
    (items.filterMap Except.toOption).map .ok = items := by
  induction items with
  | nil => rfl
  | cons item items ih =>
      cases item with
      | error error => exact absurd List.mem_cons_self (hok error)
      | ok value =>
          have hrest := ih fun error herror => hok error (List.mem_cons_of_mem _ herror)
          simpa [Except.toOption] using hrest

variable {iter : PartitionIter ε α} {numPartitions : ℕ} {partitionFn : κ → Except ε ℕ}
  {pairs : List (κ × ν)}

theorem collect_of_ok (hok : ∀ error, .error error ∉ iter.items) :
    iter.collect = .ok (iter.items.filterMap Except.toOption) := by
  rw [PartitionIter.collect, Machine.tryFold_eq_foldlM]
  change iter.items.foldlM _ _ = _
  rw [← map_ok_filterMap hok]
  exact (foldlM_collect _ []).trans (by rw [map_ok_filterMap hok, List.nil_append])

theorem collect_of_error {error : ParalliteError ε} (herror : .error error ∈ iter.items) :
    ∃ other, iter.collect = .error other := by
  rw [PartitionIter.collect, Machine.tryFold_eq_foldlM]
  exact foldlM_of_error herror (fun acc => ⟨error, rfl⟩) []

/-! ## Shuffles -/

/-- The key of a pair maps to a partition. -/
def mapsTo (partitionFn : κ → Except ε ℕ) (partitionId : ℕ) (pair : κ × ν) : Bool :=
  (partitionFn pair.1).toOption = some partitionId

/-- The key of a pair maps to no partition: the function fails or is out of range. -/
def Misplaced (numPartitions : ℕ) (partitionFn : κ → Except ε ℕ) (pair : κ × ν) : Prop :=
  (∃ error, partitionFn pair.1 = .error error) ∨
    ∃ partitionId, partitionFn pair.1 = .ok partitionId ∧ numPartitions ≤ partitionId

variable {pair : κ × ν}

theorem pushBucket_eq_ok {partitionId : ℕ} (hkey : partitionFn pair.1 = .ok partitionId)
    (hrange : partitionId < numPartitions) (bucket : ℕ → List (κ × ν)) :
    pushBucket numPartitions partitionFn ((List.range numPartitions).map bucket) (.ok pair) =
      .ok ((List.range numPartitions).map fun other =>
        bucket other ++ if mapsTo partitionFn other pair then [pair] else []) := by
  have hmodify : ((List.range numPartitions).map bucket).modify partitionId
      (fun bucket => bucket ++ [pair]) =
      (List.range numPartitions).map fun other =>
        bucket other ++ if mapsTo partitionFn other pair then [pair] else [] := by
    refine List.ext_getElem (by simp) fun i hleft hright => ?_
    rw [List.getElem_modify]
    simp only [List.getElem_map, List.getElem_range, mapsTo, hkey, Except.toOption]
    by_cases hi : partitionId = i <;> simp [hi]
  simp only [pushBucket, bind, Except.bind, hkey, Except.mapError, if_neg (not_le.mpr hrange)]
  rw [hmodify]

theorem pushBucket_of_misplaced (hpair : Misplaced numPartitions partitionFn pair)
    (buckets : List (List (κ × ν))) :
    ∃ error, pushBucket numPartitions partitionFn buckets (.ok pair) = .error error := by
  rcases hpair with ⟨error, herror⟩ | ⟨partitionId, hkey, hrange⟩
  · exact ⟨.user error, by simp [pushBucket, bind, Except.bind, herror, Except.mapError]⟩
  · exact ⟨.invalidPartition partitionId numPartitions, by
      simp [pushBucket, bind, Except.bind, hkey, Except.mapError, hrange]⟩

/-- The buckets of some pairs are the pairs of each partition, in their order. -/
theorem foldlM_pushBucket (hplaced : ∀ pair ∈ pairs, ¬ Misplaced numPartitions partitionFn pair)
    (bucket : ℕ → List (κ × ν)) :
    (pairs.map .ok).foldlM (pushBucket numPartitions partitionFn)
        ((List.range numPartitions).map bucket) =
      .ok ((List.range numPartitions).map fun partitionId =>
        bucket partitionId ++ pairs.filter (mapsTo partitionFn partitionId)) := by
  induction pairs generalizing bucket with
  | nil => simp [pure, Except.pure]
  | cons pair pairs ih =>
      have hpair := hplaced pair List.mem_cons_self
      rw [Misplaced, not_or] at hpair
      cases hkey : partitionFn pair.1 with
      | error error => exact absurd ⟨error, hkey⟩ hpair.1
      | ok partitionId =>
          have hrange : partitionId < numPartitions := by
            by_contra hout
            exact hpair.2 ⟨partitionId, hkey, not_lt.mp hout⟩
          rw [List.map_cons, List.foldlM_cons, pushBucket_eq_ok hkey hrange]
          refine (ih (fun other hother => hplaced other (List.mem_cons_of_mem _ hother)) _).trans ?_
          refine congrArg Except.ok (List.map_congr_left fun other _ => ?_)
          rw [List.filter_cons]
          split <;> simp

theorem emptyPartitions_eq (numPartitions : ℕ) :
    (emptyPartitions numPartitions : List (List α)) =
      (List.range numPartitions).map fun _ => [] := by
  rw [emptyPartitions, List.map_const', List.length_range]

theorem buckets_of_ok {iter : PartitionIter ε (κ × ν)} (hok : ∀ error, .error error ∉ iter.items)
    (hplaced : ∀ pair, .ok pair ∈ iter.items → ¬ Misplaced numPartitions partitionFn pair) :
    iter.buckets numPartitions partitionFn =
      .ok ((List.range numPartitions).map fun partitionId =>
        (iter.items.filterMap Except.toOption).filter (mapsTo partitionFn partitionId)) := by
  have hpairs : ∀ pair ∈ iter.items.filterMap Except.toOption,
      ¬ Misplaced numPartitions partitionFn pair := by
    intro pair hpair
    rw [← map_ok_filterMap hok] at hplaced
    exact hplaced pair (List.mem_map_of_mem hpair)
  rw [PartitionIter.buckets, Machine.tryFold_eq_foldlM]
  change iter.items.foldlM _ _ = _
  rw [emptyPartitions_eq]
  conv_lhs => rw [← map_ok_filterMap hok]
  exact (foldlM_pushBucket hpairs fun _ => []).trans (by simp only [List.nil_append])

theorem buckets_of_error {iter : PartitionIter ε (κ × ν)}
    (hbad : (∃ error, .error error ∈ iter.items) ∨
      ∃ pair, .ok pair ∈ iter.items ∧ Misplaced numPartitions partitionFn pair) :
    ∃ error, iter.buckets numPartitions partitionFn = .error error := by
  rw [PartitionIter.buckets, Machine.tryFold_eq_foldlM]
  rcases hbad with ⟨error, herror⟩ | ⟨pair, hpair, hmisplaced⟩
  · exact foldlM_of_error herror (fun acc => ⟨error, rfl⟩) _
  · exact foldlM_of_error hpair (fun acc => pushBucket_of_misplaced hmisplaced acc) _

/-- Merging the buckets of the slices gives the buckets of the whole. -/
theorem foldl_extendPartitions (numPartitions : ℕ) (select : ℕ → α → Bool)
    (slices : List (List α)) (bucket : ℕ → List α) :
    (slices.map fun slice => (List.range numPartitions).map fun partitionId =>
        slice.filter (select partitionId)).foldl extendPartitions
        ((List.range numPartitions).map bucket) =
      (List.range numPartitions).map fun partitionId =>
        bucket partitionId ++ slices.flatten.filter (select partitionId) := by
  induction slices generalizing bucket with
  | nil => simp
  | cons slice slices ih =>
      have hextend : extendPartitions ((List.range numPartitions).map bucket)
          ((List.range numPartitions).map fun partitionId => slice.filter (select partitionId)) =
          (List.range numPartitions).map fun partitionId =>
            bucket partitionId ++ slice.filter (select partitionId) := by
        rw [extendPartitions, List.zipWith_map, List.zipWith_self]
      rw [List.map_cons, List.foldl_cons, hextend, ih]
      refine List.map_congr_left fun partitionId _ => ?_
      rw [List.flatten_cons, List.filter_append, List.append_assoc]

theorem perm_flatten_insert {item : α} {position : ℕ} {positions : List ℕ}
    (hnodup : positions.Nodup) (hposition : position ∈ positions) (lists : ℕ → List α) :
    (positions.map fun other =>
      if other = position then item :: lists other else lists other).flatten.Perm
      (item :: (positions.map lists).flatten) := by
  induction positions with
  | nil => cases hposition
  | cons first positions ih =>
      rw [List.nodup_cons] at hnodup
      rw [List.map_cons, List.map_cons, List.flatten_cons, List.flatten_cons]
      by_cases hfirst : first = position
      · subst hfirst
        have hrest : (positions.map fun other =>
            if other = first then item :: lists other else lists other) = positions.map lists := by
          refine List.map_congr_left fun other hother => if_neg ?_
          rintro rfl
          exact hnodup.1 hother
        rw [if_pos rfl, hrest]
        exact List.Perm.refl _
      · have hrest := ih hnodup.2 (List.mem_of_ne_of_mem (Ne.symm hfirst) hposition)
        rw [if_neg hfirst]
        exact (hrest.append_left (lists first)).trans List.perm_middle

/-- The partitions together have every pair once. -/
theorem perm_flatten_filter (hplaced : ∀ pair ∈ pairs, ¬ Misplaced numPartitions partitionFn pair) :
    ((List.range numPartitions).map fun partitionId =>
      pairs.filter (mapsTo partitionFn partitionId)).flatten.Perm pairs := by
  induction pairs with
  | nil => simp
  | cons pair pairs ih =>
      have hpair := hplaced pair List.mem_cons_self
      rw [Misplaced, not_or] at hpair
      cases hkey : partitionFn pair.1 with
      | error error => exact absurd ⟨error, hkey⟩ hpair.1
      | ok partitionId =>
          have hrange : partitionId ∈ List.range numPartitions := by
            rw [List.mem_range]
            by_contra hout
            exact hpair.2 ⟨partitionId, hkey, not_lt.mp hout⟩
          have hfilter : ∀ other, (pair :: pairs).filter (mapsTo partitionFn other) =
              if other = partitionId then pair :: pairs.filter (mapsTo partitionFn other)
              else pairs.filter (mapsTo partitionFn other) := by
            intro other
            rw [List.filter_cons]
            simp [mapsTo, hkey, Except.toOption, eq_comm]
          simp only [hfilter]
          refine (perm_flatten_insert List.nodup_range hrange _).trans (List.Perm.cons pair ?_)
          exact ih fun other hother => hplaced other (List.mem_cons_of_mem _ hother)

/-! ## Executors -/

section

variable {ι : Type*} {inputs : List ι} {step : ι → Except ω β}

/-- Without errors every executor computes the same. -/
theorem mapOrderedFallible_eq_mapM (hok : ∀ input ∈ inputs, ∀ error, step input ≠ .error error)
    (executor : Executor) : executor.mapOrderedFallible inputs step = inputs.mapM step := by
  cases executor with
  | serial => rfl
  | rayon pick =>
      have hnone : (inputs.filterMap fun input => errorOf (step input)) = [] := by
        rw [List.filterMap_eq_nil_iff]
        intro input hinput
        cases hstep : step input with
        | error error => exact absurd hstep (hok input hinput error)
        | ok result => rfl
      simp only [Executor.mapOrderedFallible, hnone, List.getElem?_nil]

theorem mapOrderedFallible_of_ok {result : ι → β}
    (hok : ∀ input ∈ inputs, step input = .ok (result input)) (executor : Executor) :
    executor.mapOrderedFallible inputs step = .ok (inputs.map result) := by
  rw [mapOrderedFallible_eq_mapM ?_ executor]
  · exact mapM_of_forall_eq_ok hok
  · intro input hinput error herror
    rw [hok input hinput] at herror
    cases herror

theorem mapOrderedFallible_of_error {input : ι} {error : ω} (hinput : input ∈ inputs)
    (herror : step input = .error error) (executor : Executor) :
    ∃ other, executor.mapOrderedFallible inputs step = .error other := by
  cases executor with
  | serial => exact mapM_of_exists_error hinput herror
  | rayon pick =>
      simp only [Executor.mapOrderedFallible]
      split
      · rename_i other hother
        exact ⟨other, rfl⟩
      · exact mapM_of_exists_error hinput herror

end

/-! ## Datasets -/

namespace Dataset

/-- The partitions of a dataset when nothing fails. -/
def partitions {α : Type} : Dataset ε α → List (List α)
  | narrow input => input.slices
  | partitionBy input numPartitions partitionFn =>
      (List.range numPartitions).map fun partitionId =>
        input.values.filter (mapsTo partitionFn partitionId)
  | mapPartitions input f intoIter =>
      input.partitions.filterMap fun partition => (f partition).toOption.map intoIter

/-- A user function fails on what reaches it, a key maps outside the partitions, or there are
no partitions. -/
def Fails {α : Type} : Dataset ε α → Prop
  | narrow input => input.Fails
  | partitionBy input numPartitions partitionFn =>
      numPartitions = 0 ∨ input.Fails ∨
        ∃ pair ∈ input.values, Misplaced numPartitions partitionFn pair
  | mapPartitions input f _ =>
      input.Fails ∨ ∃ partition ∈ input.partitions, ∃ error, f partition = .error error

variable (executor : Executor)

theorem collect_narrow (input : Narrow ε α) :
    (¬ input.Fails → (narrow input).collectPartitions executor = .ok input.slices) ∧
      (input.Fails → ∃ error, (narrow input).collectPartitions executor = .error error) := by
  constructor
  · intro hfails
    have hcollect : ∀ iter ∈ input.intoPartitionIters,
        iter.collect = .ok (iter.items.filterMap Except.toOption) := by
      intro iter hiter
      refine collect_of_ok fun error herror => hfails ?_
      exact Narrow.fails_iff.mpr ⟨_, List.mem_map_of_mem hiter, error, herror⟩
    rw [collectPartitions, mapOrderedFallible_of_ok hcollect, ← input.map_itemLists,
      Narrow.itemLists, List.map_map]
    rfl
  · intro hfails
    obtain ⟨items, hitems, error, herror⟩ := Narrow.fails_iff.mp hfails
    obtain ⟨iter, hiter, rfl⟩ := List.mem_map.mp hitems
    obtain ⟨other, hother⟩ := collect_of_error herror
    exact mapOrderedFallible_of_error hiter hother executor

theorem collect_partitionBy (input : Narrow ε (κ × ν)) (numPartitions : ℕ)
    (partitionFn : κ → Except ε ℕ) :
    (¬ (partitionBy input numPartitions partitionFn).Fails →
      (partitionBy input numPartitions partitionFn).collectPartitions executor =
        .ok (partitionBy input numPartitions partitionFn).partitions) ∧
    ((partitionBy input numPartitions partitionFn).Fails →
      ∃ error, (partitionBy input numPartitions partitionFn).collectPartitions executor =
        .error error) := by
  constructor
  · intro hfails
    simp only [Fails, not_or] at hfails
    obtain ⟨hpositive, hinput, hplaced⟩ := hfails
    have hbuckets : ∀ iter ∈ input.intoPartitionIters,
        iter.buckets numPartitions partitionFn =
          .ok ((List.range numPartitions).map fun partitionId =>
            (iter.items.filterMap Except.toOption).filter (mapsTo partitionFn partitionId)) := by
      intro iter hiter
      refine buckets_of_ok (fun error herror => hinput ?_) fun pair hpair hmisplaced => hplaced ?_
      · exact Narrow.fails_iff.mpr ⟨_, List.mem_map_of_mem hiter, error, herror⟩
      · exact ⟨pair, Narrow.mem_values.mpr ⟨_, List.mem_map_of_mem hiter, hpair⟩, hmisplaced⟩
    have hslices : input.intoPartitionIters.map (fun iter =>
        (List.range numPartitions).map fun partitionId =>
          (iter.items.filterMap Except.toOption).filter (mapsTo partitionFn partitionId)) =
        input.slices.map fun slice => (List.range numPartitions).map fun partitionId =>
          slice.filter (mapsTo partitionFn partitionId) := by
      rw [← input.map_itemLists, Narrow.itemLists, List.map_map, List.map_map]
      rfl
    rw [collectPartitions, if_neg hpositive, mapOrderedFallible_of_ok hbuckets, hslices,
      emptyPartitions_eq]
    refine congrArg Except.ok ?_
    refine (foldl_extendPartitions numPartitions (mapsTo partitionFn) input.slices _).trans ?_
    rw [input.flatten_slices]
    rfl
  · rintro (hzero | hfails)
    · exact ⟨_, if_pos hzero⟩
    · by_cases hzero : numPartitions = 0
      · exact ⟨_, if_pos hzero⟩
      · have hbad : ∃ iter ∈ input.intoPartitionIters,
            (∃ error, .error error ∈ iter.items) ∨
              ∃ pair, .ok pair ∈ iter.items ∧ Misplaced numPartitions partitionFn pair := by
          rcases hfails with hinput | ⟨pair, hpair, hmisplaced⟩
          · obtain ⟨items, hitems, herror⟩ := Narrow.fails_iff.mp hinput
            obtain ⟨iter, hiter, rfl⟩ := List.mem_map.mp hitems
            exact ⟨iter, hiter, Or.inl herror⟩
          · obtain ⟨items, hitems, hitem⟩ := Narrow.mem_values.mp hpair
            obtain ⟨iter, hiter, rfl⟩ := List.mem_map.mp hitems
            exact ⟨iter, hiter, Or.inr ⟨pair, hitem, hmisplaced⟩⟩
        obtain ⟨iter, hiter, hcase⟩ := hbad
        obtain ⟨error, herror⟩ := buckets_of_error hcase
        obtain ⟨other, hother⟩ := mapOrderedFallible_of_error hiter herror executor
        refine ⟨other, ?_⟩
        rw [collectPartitions, if_neg hzero, hother]
        rfl

theorem collect_mapPartitions (input : Dataset ε α) (f : List α → Except ε γ)
    (intoIter : γ → List β)
    (hinput : (¬ input.Fails → input.collectPartitions executor = .ok input.partitions) ∧
      (input.Fails → ∃ error, input.collectPartitions executor = .error error)) :
    (¬ (mapPartitions input f intoIter).Fails →
      (mapPartitions input f intoIter).collectPartitions executor =
        .ok (mapPartitions input f intoIter).partitions) ∧
    ((mapPartitions input f intoIter).Fails →
      ∃ error, (mapPartitions input f intoIter).collectPartitions executor = .error error) := by
  by_cases hfails : input.Fails
  · obtain ⟨error, herror⟩ := hinput.2 hfails
    refine ⟨fun hother => absurd (Or.inl hfails) hother, fun _ => ⟨error, ?_⟩⟩
    rw [collectPartitions, herror]
    rfl
  · rw [collectPartitions, hinput.1 hfails]
    constructor
    · intro hother
      simp only [Fails, not_or, not_exists, not_and] at hother
      have hsucceeds : ∀ partition ∈ input.partitions, ∀ error,
          ((f partition).mapError ParalliteError.user).map intoIter ≠ .error error := by
        intro partition hpartition error herror
        cases hresult : f partition with
        | error userError => exact hother.2 partition hpartition userError hresult
        | ok result =>
            rw [hresult] at herror
            cases herror
      refine (mapOrderedFallible_eq_mapM hsucceeds executor).trans ?_
      rw [mapM_of_forall_ok hsucceeds, partitions]
      refine congrArg Except.ok (List.filterMap_congr fun partition _ => ?_)
      cases f partition with
      | error error => rfl
      | ok result => rfl
    · rintro (hother | ⟨partition, hpartition, error, herror⟩)
      · exact absurd hother hfails
      · have hstep : ((f partition).mapError ParalliteError.user).map intoIter =
            .error (.user error) := by
          rw [herror]
          rfl
        exact mapOrderedFallible_of_error hpartition hstep executor

/-- Collecting gives the partitions of the dataset, or an error exactly when it fails. -/
theorem collectPartitions_spec (dataset : Dataset ε α) :
    (¬ dataset.Fails → dataset.collectPartitions executor = .ok dataset.partitions) ∧
      (dataset.Fails → ∃ error, dataset.collectPartitions executor = .error error) := by
  induction dataset with
  | narrow input => exact collect_narrow executor input
  | partitionBy input numPartitions partitionFn =>
      exact collect_partitionBy executor input numPartitions partitionFn
  | mapPartitions input f intoIter ih => exact collect_mapPartitions executor input f intoIter ih

theorem collectPartitions_eq_ok {dataset : Dataset ε α} (hfails : ¬ dataset.Fails) :
    dataset.collectPartitions executor = .ok dataset.partitions :=
  (collectPartitions_spec executor dataset).1 hfails

theorem collectPartitions_eq_error_iff (dataset : Dataset ε α) :
    (∃ error, dataset.collectPartitions executor = .error error) ↔ dataset.Fails := by
  constructor
  · rintro ⟨error, herror⟩
    by_contra hfails
    rw [collectPartitions_eq_ok executor hfails] at herror
    cases herror
  · exact (collectPartitions_spec executor dataset).2

end Dataset

/-- The partitions of a shuffle have every pair once, in the order of the input. -/
theorem partitions_partitionBy {input : Narrow ε (κ × ν)}
    (hfails : ¬ (Dataset.partitionBy input numPartitions partitionFn).Fails) :
    ∃ pairs, input.sequential = .ok pairs ∧
      (Dataset.partitionBy input numPartitions partitionFn).partitions =
        (List.range numPartitions).map
          (fun partitionId => pairs.filter (mapsTo partitionFn partitionId)) ∧
      (Dataset.partitionBy input numPartitions partitionFn).partitions.flatten.Perm pairs := by
  simp only [Dataset.Fails, not_or] at hfails
  obtain ⟨-, hinput, hplaced⟩ := hfails
  refine ⟨input.values, Narrow.sequential_eq_ok hinput, rfl, ?_⟩
  exact perm_flatten_filter fun pair hpair hmisplaced => hplaced ⟨pair, hpair, hmisplaced⟩

/-- `map_partitions` has one output for each partition. -/
theorem partitions_mapPartitions {input : Dataset ε α} {f : List α → Except ε γ}
    {intoIter : γ → List β} (hfails : ¬ (Dataset.mapPartitions input f intoIter).Fails) :
    ∃ outputs, input.partitions.mapM f = .ok outputs ∧
      outputs.length = input.partitions.length ∧
      (Dataset.mapPartitions input f intoIter).partitions = outputs.map intoIter := by
  simp only [Dataset.Fails, not_or, not_exists, not_and] at hfails
  refine ⟨_, mapM_of_forall_ok hfails.2, ?_, ?_⟩
  · rw [List.length_filterMap_eq_countP, List.countP_eq_length]
    intro partition hpartition
    cases hresult : f partition with
    | error error => exact absurd hresult (hfails.2 partition hpartition error)
    | ok result => rfl
  · rw [Dataset.partitions, List.map_filterMap]

/-- Pipelines compute the sequential list functions, whatever the slices and the executor. -/
theorem pipelines_mean_list_functions (executor : Executor) :
    (∀ (α : Type) (data : List α) (numSlices : ℕ),
      (splitVec data numSlices).length = max numSlices 1 ∧
      (splitVec data numSlices).flatten = data ∧
      ∀ left ∈ splitVec data numSlices, ∀ right ∈ splitVec data numSlices,
        left.length ≤ right.length + 1) ∧
    (∀ (ε α : Type) (input : Narrow ε α), ¬ (Dataset.narrow input).Fails →
      ∃ partitions, (Dataset.narrow input).collectPartitions executor = .ok partitions ∧
        partitions.length = input.numSlices ∧ input.sequential = .ok partitions.flatten) ∧
    (∀ (ε κ ν : Type) (input : Narrow ε (κ × ν)) (numPartitions : ℕ)
      (partitionFn : κ → Except ε ℕ),
      ¬ (Dataset.partitionBy input numPartitions partitionFn).Fails →
      ∃ pairs partitions, input.sequential = .ok pairs ∧
        (Dataset.partitionBy input numPartitions partitionFn).collectPartitions executor =
          .ok partitions ∧
        partitions = (List.range numPartitions).map
          (fun partitionId => pairs.filter (mapsTo partitionFn partitionId)) ∧
        partitions.flatten.Perm pairs) ∧
    (∀ (ε α γ β : Type) (input : Dataset ε α) (f : List α → Except ε γ) (intoIter : γ → List β),
      ¬ (Dataset.mapPartitions input f intoIter).Fails →
      ∃ partitions outputs, input.collectPartitions executor = .ok partitions ∧
        partitions.mapM f = .ok outputs ∧ outputs.length = partitions.length ∧
        (Dataset.mapPartitions input f intoIter).collectPartitions executor =
          .ok (outputs.map intoIter)) ∧
    (∀ (ε α : Type) (dataset : Dataset ε α),
      (∃ error, dataset.collectPartitions executor = .error error) ↔ dataset.Fails) := by
  refine ⟨fun α data numSlices => ?_, fun ε α input hfails => ?_,
    fun ε κ ν input numPartitions partitionFn hfails => ?_,
    fun ε α γ β input f intoIter hfails => ?_, fun ε α dataset => ?_⟩
  · refine ⟨length_splitVec data numSlices, flatten_splitVec data numSlices, ?_⟩
    intro left hleft right hright
    exact splitVec_balanced hleft hright
  · refine ⟨_, Dataset.collectPartitions_eq_ok executor hfails, input.length_slices, ?_⟩
    rw [Narrow.sequential_eq_ok hfails]
    exact congrArg Except.ok input.flatten_slices.symm
  · obtain ⟨pairs, hpairs, hpartitions, hperm⟩ := partitions_partitionBy hfails
    exact ⟨pairs, _, hpairs, Dataset.collectPartitions_eq_ok executor hfails, hpartitions, hperm⟩
  · obtain ⟨outputs, houtputs, hlength, hpartitions⟩ := partitions_mapPartitions hfails
    have hinput : ¬ input.Fails := fun hinput => hfails (Or.inl hinput)
    refine ⟨_, outputs, Dataset.collectPartitions_eq_ok executor hinput, houtputs, hlength, ?_⟩
    rw [Dataset.collectPartitions_eq_ok executor hfails, hpartitions]
  · exact Dataset.collectPartitions_eq_error_iff executor dataset

end ParqDB.Parallite
