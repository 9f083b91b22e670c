import ParqDB.Parallite.Sequential

/-!
# Contexts

A context of the engine decides on how many slices a source is split into, and on who works on
them.  `mapCollect` is the pipeline that the k-means crate runs: a source, one fallible stage, and
the results of all slices one after the other.

**Results.**  `mapCollect_of_ok` and `mapCollect_of_error`: the results are in the order of the
source, and an error is that of one of its elements.
-/

namespace ParqDB.Parallite

open Foundations

variable {α β ε : Type}

structure ParalliteContext where
  executor : Executor
  /-- The threads of the pool. -/
  threads : ℕ
  defaultSlices : Option ℕ
  sourcePartitionFactor : ℕ

namespace ParalliteContext

def threadCount (context : ParalliteContext) : ℕ :=
  match context.executor with
  | .serial => 1
  | .rayon _ => context.threads

/-- Splits the data by the partitioning policy of the context. -/
def parallelize (context : ParalliteContext) (data : List α) : Narrow ε α :=
  .parallelizeN data (defaultSourceSlices context.defaultSlices context.threadCount
    context.sourcePartitionFactor data.length)

/-- `context.parallelize(data).map(f).collect_partitions()?.collect()` -/
def mapCollect (context : ParalliteContext) (data : List α) (f : α → Except ε β) :
    Except (ParalliteError ε) (List β) :=
  ((Dataset.narrow (.map (context.parallelize data) f)).collectPartitions context.executor).map
    List.flatten

end ParalliteContext

/-! ## Where errors come from -/

theorem exists_of_mapOrderedFallible_eq_error {ι : Type*} {ω : Type} {step : ι → Except ω β}
    {inputs : List ι} {executor : Executor} {error : ω}
    (hmap : executor.mapOrderedFallible inputs step = .error error) :
    ∃ input ∈ inputs, step input = .error error := by
  cases executor with
  | serial => exact exists_of_mapM_eq_error hmap
  | rayon pick =>
      unfold Executor.mapOrderedFallible at hmap
      dsimp only at hmap
      split at hmap
      · next other hother =>
          cases hmap
          obtain ⟨input, hinput, herror⟩ := List.mem_filterMap.mp (List.mem_of_getElem? hother)
          refine ⟨input, hinput, ?_⟩
          cases hstep : step input with
          | ok result =>
              rw [hstep] at herror
              cases herror
          | error failure =>
              rw [hstep] at herror
              cases herror
              rfl
      · exact exists_of_mapM_eq_error hmap

/-- A collected partition ends with one of its errors. -/
theorem mem_of_foldlM_collect {ω : Type} {items : List (Except ω α)} {collected : List α}
    {error : ω}
    (hfold : items.foldlM (fun collected item => item.map fun value => collected ++ [value])
      collected = .error error) : .error error ∈ items := by
  induction items generalizing collected with
  | nil => cases hfold
  | cons item items ih =>
      rw [List.foldlM_cons] at hfold
      cases item with
      | error failure =>
          cases hfold
          exact List.mem_cons_self
      | ok value => exact List.mem_cons_of_mem _ (ih hfold)

theorem mem_of_collect_eq_error {iter : PartitionIter ε α} {error : ParalliteError ε}
    (hcollect : iter.collect = .error error) : .error error ∈ iter.items := by
  rw [PartitionIter.collect, Machine.tryFold_eq_foldlM] at hcollect
  exact mem_of_foldlM_collect hcollect

section

variable {data : List α} {f : α → Except ε β} {numSlices : ℕ}

theorem fails_map : (Narrow.map (.parallelizeN data numSlices) f).Fails ↔
    ∃ value ∈ data, ∃ error, f value = .error error := by
  simp [Narrow.Fails, Narrow.values]

/-- The items of all partitions are the results of the elements. -/
theorem exists_of_error_item {items : List (Except (ParalliteError ε) β)}
    (hitems : items ∈ (Narrow.map (.parallelizeN data numSlices) f).itemLists)
    {error : ParalliteError ε} (herror : .error error ∈ items) :
    ∃ value ∈ data, ∃ failure, f value = .error failure ∧ error = .user failure := by
  rw [Narrow.itemLists_map, Narrow.itemLists_parallelizeN, List.map_map] at hitems
  obtain ⟨slice, hslice, rfl⟩ := List.mem_map.mp hitems
  obtain ⟨item, hitem, hstep⟩ := List.mem_map.mp herror
  obtain ⟨value, hvalue, rfl⟩ := List.mem_map.mp hitem
  have hdata : value ∈ data := by
    rw [← flatten_splitVec data numSlices]
    exact List.mem_flatten.mpr ⟨slice, hslice, hvalue⟩
  change (f value).mapError ParalliteError.user = .error error at hstep
  cases hresult : f value with
  | ok result =>
      rw [hresult] at hstep
      cases hstep
  | error failure =>
      rw [hresult] at hstep
      cases hstep
      exact ⟨value, hdata, failure, hresult, rfl⟩

end

namespace ParalliteContext

variable {data : List α} {f : α → Except ε β} (context : ParalliteContext)

/-- Without errors the engine computes what one loop over the source does. -/
theorem mapCollect_eq_mapM (hok : ∀ value ∈ data, ∀ error, f value ≠ .error error) :
    (context.mapCollect data f : Except (ParalliteError ε) (List β)) =
      (data.mapM f).mapError .user := by
  have hfails : ¬ (Dataset.narrow (.map (context.parallelize data) f)).Fails := by
    intro hfails
    obtain ⟨value, hvalue, error, herror⟩ := fails_map.mp hfails
    exact hok value hvalue error herror
  unfold mapCollect
  rw [Dataset.collectPartitions_eq_ok context.executor hfails, mapM_of_forall_ok hok]
  exact congrArg Except.ok (Narrow.flatten_slices _)

/-- If no element fails, the results come in the order of the source. -/
theorem mapCollect_of_ok {result : α → β} (hok : ∀ value ∈ data, f value = .ok (result value)) :
    context.mapCollect data f = .ok (data.map result) := by
  rw [mapCollect_eq_mapM context, mapM_of_forall_eq_ok hok]
  · rfl
  · intro value hvalue error herror
    rw [hok value hvalue] at herror
    cases herror

/-- If an element fails, the error is that of some element. -/
theorem mapCollect_of_error {value : α} {failure : ε} (hvalue : value ∈ data)
    (hfailure : f value = .error failure) :
    ∃ other ∈ data, ∃ error, f other = .error error ∧
      context.mapCollect data f = .error (.user error) := by
  have hfails : (Dataset.narrow (.map (context.parallelize data) f)).Fails :=
    fails_map.mpr ⟨value, hvalue, failure, hfailure⟩
  obtain ⟨error, herror⟩ := (Dataset.collectPartitions_eq_error_iff context.executor _).mpr hfails
  have hcollect := herror
  unfold Dataset.collectPartitions at hcollect
  obtain ⟨iter, hiter, hstep⟩ := exists_of_mapOrderedFallible_eq_error hcollect
  obtain ⟨other, hother, found, hfound, rfl⟩ :=
    exists_of_error_item (List.mem_map_of_mem hiter) (mem_of_collect_eq_error hstep)
  refine ⟨other, hother, found, hfound, ?_⟩
  unfold mapCollect
  rw [herror]
  rfl

/-- What the engine returns is what one loop over the source returns. -/
theorem mapM_of_mapCollect {results : List β} (hcollect : context.mapCollect data f = .ok results) :
    data.mapM f = .ok results := by
  have hok : ∀ value ∈ data, ∀ error, f value ≠ .error error := by
    intro value hvalue error herror
    obtain ⟨other, -, failure, -, hfailed⟩ := context.mapCollect_of_error hvalue herror
    rw [hfailed] at hcollect
    cases hcollect
  rw [context.mapCollect_eq_mapM hok] at hcollect
  cases hmap : data.mapM f with
  | ok collected =>
      rw [hmap] at hcollect
      cases hcollect
      rfl
  | error failure =>
      rw [hmap] at hcollect
      cases hcollect

end ParalliteContext

end ParqDB.Parallite
