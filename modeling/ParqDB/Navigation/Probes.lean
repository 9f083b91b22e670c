import ParqDB.Foundations.Outcome
import ParqDB.Navigation.GraphSearch

/-!
# Constructions come to an end

From every plan some interleaving builds a graph: each worker can run its insertion to the
end, then take all that is left of the bucket, and the next bucket follows.  The lemmas
below go up this hierarchy, one level of it at a time.
-/

namespace ParqDB.Navigation

namespace Building

variable {plan : Plan}

/-- Some moves lead from one state to another. -/
def Continues (plan : Plan) (before after : Building) : Prop :=
  ∃ moves, Foundations.Run (Steps plan) before moves after

theorem Continues.refl (building : Building) : Continues plan building building :=
  ⟨[], rfl⟩

theorem Continues.trans {first middle last : Building} (hleft : Continues plan first middle)
    (hright : Continues plan middle last) : Continues plan first last := by
  obtain ⟨left, hleft⟩ := hleft
  obtain ⟨right, hright⟩ := hright
  exact ⟨left ++ right, Foundations.Run.append_iff.mpr ⟨middle, hleft, hright⟩⟩

theorem Continues.step {before after : Building} (move : Move)
    (hmove : before.move plan move = some after) : Continues plan before after :=
  ⟨[move], after, hmove, rfl⟩

/-! ## One insertion -/

/-- The same bucket of the same level, up to one worker. -/
structure SameBucket (before after : Building) (index : ℕ) (worker : Worker) : Prop where
  level : after.level = before.level
  bucket : after.bucket = before.bucket
  next : after.next = before.next
  levels : after.levels = before.levels
  workers : after.workers = before.workers.set index worker

/-- A worker at the task can insert its node, whatever the graph looks like. -/
def Completes (plan : Plan) (level cid : ℕ) (task : Task) : Prop :=
  ∀ (before : Building) (index : ℕ), before.level = level →
    before.workers[index]? = some (.inserting cid task) →
    ∃ after, Continues plan before after ∧ SameBucket before after index .taking

variable {level cid : ℕ}

/-- A task completes if the one that follows it does. -/
theorem Completes.of_perform {task : Task}
    (hnext : ∀ shared, ∀ next ∈ (task.perform plan shared level cid).task?,
      Completes plan level cid next) : Completes plan level cid task := by
  intro before index hlevel hworker
  subst hlevel
  have hindex : index < before.workers.length := (List.getElem?_eq_some_iff.mp hworker).1
  have hmove : before.move plan (.work index) =
      before.workStep plan index (.inserting cid task) := by
    simp only [move, hworker, Option.bind_some]
  cases hperformed : (task.perform plan before.shared before.level cid).task? with
  | none =>
      refine ⟨_, Continues.step _ hmove, rfl, rfl, rfl, rfl, ?_⟩
      simp only [hperformed]
  | some next =>
      obtain ⟨after, hcontinues, hsame⟩ := hnext before.shared next hperformed
        { before with
          shared := (task.perform plan before.shared before.level cid).shared
          workers := before.workers.set index (.inserting cid next)
          events := (task.perform plan before.shared before.level cid).events ++ before.events }
        index rfl (by simp [hindex])
      refine ⟨after, Continues.trans (Continues.step (.work index) ?_) hcontinues, hsame.level, hsame.bucket,
        hsame.next, hsame.levels, ?_⟩
      · rw [hmove]
        simp only [workStep, hperformed]
      · rw [hsame.workers]
        exact List.set_set _

theorem completes_publish (entry : EntryPoint) :
    Completes plan level cid (.publish entry) := by
  apply Completes.of_perform
  intro shared next hnext
  cases hnext

/-- Linking completes if what follows the last link does. -/
theorem completes_link {entry : EntryPoint} {current layer : ℕ} (owners : List ℕ)
    (hlower : layer ≠ 0 → ∀ current, Completes plan level cid (.search entry current (layer - 1))) :
    Completes plan level cid (.link entry current layer owners) := by
  induction owners with
  | nil =>
      apply Completes.of_perform
      intro shared next hnext
      simp only [Task.perform, Option.mem_some_iff] at hnext
      subst hnext
      split
      · exact completes_publish entry
      · next hlayer => exact hlower hlayer current
  | cons owner owners ih =>
      apply Completes.of_perform
      intro shared next hnext
      simp only [Task.perform, Option.mem_some_iff] at hnext
      subst hnext
      exact ih

theorem completes_search (entry : EntryPoint) (current layer : ℕ) :
    Completes plan level cid (.search entry current layer) := by
  induction layer generalizing current with
  | zero =>
      apply Completes.of_perform
      intro shared next hnext
      cases hnext
      apply Completes.of_perform
      intro shared next hnext
      cases hnext
      exact completes_link _ fun hzero => absurd rfl hzero
  | succ layer ih =>
      apply Completes.of_perform
      intro shared next hnext
      cases hnext
      apply Completes.of_perform
      intro shared next hnext
      cases hnext
      exact completes_link _ fun _ current => ih current

theorem completes_descend (entry : EntryPoint) (current layer : ℕ) :
    Completes plan level cid (.descend entry current layer) := by
  induction layer generalizing current with
  | zero =>
      apply Completes.of_perform
      intro shared next hnext
      simp only [Task.perform, Option.mem_some_iff] at hnext
      subst hnext
      rw [if_neg (by omega)]
      exact completes_search _ _ _
  | succ layer ih =>
      apply Completes.of_perform
      intro shared next hnext
      simp only [Task.perform, Option.mem_some_iff] at hnext
      subst hnext
      split
      · exact ih _
      · exact completes_search _ _ _

theorem completes_enter : Completes plan level cid .enter := by
  apply Completes.of_perform
  intro shared next hnext
  simp only [Task.perform, Option.mem_some_iff] at hnext
  subst hnext
  split
  · exact completes_descend _ _ _
  · exact completes_search _ _ _

/-! ## Buckets -/

/-- A worker can take all that is left of its bucket. -/
theorem exists_worker_finished (remaining : ℕ) : ∀ (before : Building) (index : ℕ),
    before.workers[index]? = some .taking → before.bucket.length - before.next ≤ remaining →
    ∃ after, Continues plan before after ∧ after.levels = before.levels ∧
      after.workers = before.workers.set index .finished := by
  induction remaining with
  | zero =>
      intro before index hworker hremaining
      have hnone : before.bucket[before.next]? = none := List.getElem?_eq_none (by omega)
      refine ⟨{ before with
        next := before.next + 1
        workers := before.workers.set index .finished }, Continues.step (.work index) ?_,
        rfl, rfl⟩
      simp only [move, hworker, Option.bind_some, workStep, hnone]
  | succ remaining ih =>
      intro before index hworker hremaining
      have hindex : index < before.workers.length := (List.getElem?_eq_some_iff.mp hworker).1
      cases htaken : before.bucket[before.next]? with
      | none =>
          have hlength := List.getElem?_eq_none_iff.mp htaken
          exact ih before index hworker (by omega)
      | some cid =>
          have hmove : before.move plan (.work index) = some { before with
              next := before.next + 1
              workers := before.workers.set index (.inserting cid .enter) } := by
            simp only [move, hworker, Option.bind_some, workStep, htaken]
          obtain ⟨inserted, hinserted, hsame⟩ := @completes_enter plan before.level cid
            { before with
              next := before.next + 1
              workers := before.workers.set index (.inserting cid .enter) }
            index rfl (by simp [hindex])
          have hworkers : inserted.workers = before.workers.set index .taking := by
            rw [hsame.workers]
            exact List.set_set _
          have hleft : inserted.bucket.length - inserted.next ≤ remaining := by
            rw [hsame.bucket, hsame.next]
            dsimp only
            omega
          obtain ⟨after, hafter, hlevels, hfinished⟩ := ih inserted index
            (by rw [hworkers]; simp [hindex]) hleft
          refine ⟨after, ((Continues.step _ hmove).trans hinserted).trans hafter,
            hlevels.trans hsame.levels, ?_⟩
          rw [hfinished, hworkers]
          exact List.set_set _

/-- All workers of a bucket can finish. -/
theorem exists_idle (active : ℕ) : ∀ before : Building,
    (∀ worker ∈ before.workers, worker = .taking ∨ worker = .finished) →
    before.workers.countP (· ≠ .finished) ≤ active →
    ∃ after, Continues plan before after ∧ after.levels = before.levels ∧ after.Idle := by
  induction active with
  | zero =>
      intro before _ hactive
      refine ⟨before, Continues.refl before, rfl, fun worker hworker => ?_⟩
      have hnone := List.countP_eq_zero.mp (Nat.le_zero.mp hactive) worker hworker
      simpa using hnone
  | succ active ih =>
      intro before hworkers hactive
      by_cases hidle : before.Idle
      · exact ⟨before, Continues.refl before, rfl, hidle⟩
      · simp only [Idle, not_forall] at hidle
        obtain ⟨worker, hworker, hbusy⟩ := hidle
        obtain ⟨index, hindex, hget⟩ := List.mem_iff_getElem.mp hworker
        have htaking : before.workers[index]? = some .taking := by
          rw [List.getElem?_eq_getElem hindex, hget]
          rcases hworkers worker hworker with htaking | hfinished
          · rw [htaking]
          · exact absurd hfinished hbusy
        obtain ⟨after, hafter, hlevels, hset⟩ :=
          @exists_worker_finished plan _ before index htaking (Nat.le_refl _)
        have hcount : (before.workers.set index .finished).countP (· ≠ .finished) = _ :=
          List.countP_set hindex
        rw [hget] at hcount
        simp only [ne_eq, hbusy, not_false_eq_true, decide_true, if_true, not_true_eq_false,
          decide_false, Bool.false_eq_true, if_false, Nat.add_zero] at hcount
        obtain ⟨idle, hidle, hsame, hdone⟩ := ih after (by
            rw [hset]
            intro other hother
            rcases List.mem_or_eq_of_mem_set hother with hother | rfl
            · exact hworkers other hother
            · exact Or.inr rfl)
          (by
            rw [hset]
            simp only [ne_eq] at hactive ⊢
            omega)
        exact ⟨idle, hafter.trans hidle, hsame.trans hlevels, hdone⟩

/-! ## The construction -/

theorem exists_finished_of_idle (levels : List ℕ) : ∀ before : Building,
    before.levels = levels → before.Idle →
    ∃ after, Continues plan before after ∧ after.Finished := by
  induction levels with
  | nil =>
      intro before hlevels hidle
      exact ⟨before, Continues.refl before, hidle, hlevels⟩
  | cons level levels ih =>
      intro before hlevels hidle
      have hmove : before.move plan .nextLevel = some { before with
          level := level
          bucket := plan.order level
          next := 0
          workers := List.replicate (if (plan.order level).isEmpty then 0
            else max (min plan.threads (plan.order level).length) 1) .taking
          levels := levels } := by
        simp only [move, if_pos hidle, hlevels]
      obtain ⟨idle, hbucket, hsame, hdone⟩ := @exists_idle plan _ { before with
          level := level
          bucket := plan.order level
          next := 0
          workers := List.replicate (if (plan.order level).isEmpty then 0
            else max (min plan.threads (plan.order level).length) 1) .taking
          levels := levels }
        (fun worker hworker => Or.inl (List.eq_of_mem_replicate hworker)) (Nat.le_refl _)
      obtain ⟨after, hrest, hfinished⟩ := ih idle hsame hdone
      exact ⟨after, ((Continues.step _ hmove).trans hbucket).trans hrest, hfinished⟩

/-- Every plan has a run that builds its graph. -/
theorem exists_finished (plan : Plan) : ∃ moves final, Reaches plan moves final ∧
    final.Finished := by
  obtain ⟨final, ⟨moves, hmoves⟩, hfinished⟩ :=
    @exists_finished_of_idle plan _ (initial plan) rfl (fun _ hworker => absurd hworker (by
      simp [initial]))
  exact ⟨moves, final, hmoves, hfinished⟩

end Building

/-!
## How many clusters a query probes

A scan returns as many clusters as were asked for.  A graph search returns that many
exactly if the lists of layer 0 lead to that many centroids from where the greedy search
ends, going on only from centroids at finite distances (`Probeable`).

**Results.**  `route_probes_iff`, for every graph that some interleaving builds; and a
query of finite components whose distances overflow, for which the graph search returns
one cluster where two were asked for (`overflow_probes_one`).
-/

open Query (Distance)

/-! ## Scans -/

section

variable (centroids : LvqEncodedBatch) (select : SelectNth) (query : List Component)

theorem map_cid_scored : (centroids.scored query).map Scored.cid =
    List.range centroids.rowCount := by
  rw [LvqEncodedBatch.scored, List.map_map]
  exact List.map_id _

theorem length_scored : (centroids.scored query).length = centroids.rowCount := by
  simp [LvqEncodedBatch.scored]

/-- The clusters are as many as asked for, distinct and known. -/
structure Probes (nlist nprobe : ℕ) (cids : List ℕ) : Prop where
  length : cids.length = nprobe
  nodup : cids.Nodup
  bounded : ∀ cid ∈ cids, cid < nlist

theorem probes_range (nlist : ℕ) : Probes nlist nlist (List.range nlist) where
  length := List.length_range
  nodup := List.nodup_range
  bounded _ hcid := List.mem_range.mp hcid

variable {nprobe : ℕ}

theorem Probes.of_perm {nlist : ℕ} {cids other : List ℕ} (hprobes : Probes nlist nprobe cids)
    (hperm : other.Perm cids) : Probes nlist nprobe other where
  length := hperm.length_eq.trans hprobes.length
  nodup := hperm.nodup_iff.mpr hprobes.nodup
  bounded cid hcid := hprobes.bounded cid (hperm.mem_iff.mp hcid)

/-- The first centroids of a selection. -/
theorem probes_selected (hnprobe : nprobe ≤ centroids.rowCount) :
    Probes centroids.rowCount nprobe
      (((select.run (centroids.scored query) nprobe).take nprobe).map Scored.cid) := by
  have hperm := (select.perm (centroids.scored query) nprobe).map Scored.cid
  rw [map_cid_scored] at hperm
  have hall := (probes_range centroids.rowCount).of_perm hperm
  have hsublist := (List.take_sublist nprobe
    (select.run (centroids.scored query) nprobe)).map Scored.cid
  refine ⟨?_, hall.nodup.sublist hsublist, fun cid hcid => hall.bounded cid (hsublist.subset hcid)⟩
  have hlength := hall.length
  rw [List.length_map] at hlength
  rw [List.length_map, List.length_take]
  omega

theorem routeExact_probes (hnprobe : nprobe ≤ centroids.rowCount) :
    Probes centroids.rowCount nprobe (routeExact centroids select query nprobe) := by
  unfold routeExact
  dsimp only
  rw [length_scored]
  have hsorted : ∀ items : List Scored,
      ((items.insertionSort (· ≤ ·)).map Scored.cid).Perm (items.map Scored.cid) :=
    fun items => (List.perm_insertionSort _ _).map _
  split
  · exact (probes_selected centroids select query hnprobe).of_perm (hsorted _)
  · have hall : nprobe = centroids.rowCount := by omega
    subst hall
    refine Probes.of_perm ?_ (hsorted _)
    rw [map_cid_scored]
    exact probes_range _

theorem HnswIndex.routeExact_probes (index : HnswIndex centroids)
    (hnprobe : nprobe ≤ centroids.rowCount) :
    Probes centroids.rowCount nprobe (index.routeExact select query nprobe) := by
  unfold HnswIndex.routeExact
  split
  · next hall =>
      subst hall
      exact probes_range _
  · exact probes_selected centroids select query hnprobe

end

/-! ## Graph searches -/

namespace HnswIndex

variable {centroids : LvqEncodedBatch} (index : HnswIndex centroids) (query : List Component)

theorem adjacent_lt {cid next : ℕ} (hcid : cid < centroids.rowCount)
    (hnext : next ∈ index.adjacent 0 cid) : next < centroids.rowCount := by
  rw [← index.count_eq] at hcid ⊢
  exact (index.reaches.placed.shared.lists ⟨hcid, Nat.zero_le _⟩ next hnext).1

theorem entryFor_lt : index.entryFor query < centroids.rowCount := by
  have hplaced := index.reaches.placed.shared
  have hnode : index.plan.layout.Node index.building.shared.entry.level (index.entryFor query) :=
    greedySearch_of (fun cid hcid next hnext => hplaced.lists hcid next hnext) hplaced.entry
  rw [← index.count_eq]
  exact hnode.1

/-- The lists of layer 0 lead to enough centroids. -/
def Reachable (nprobe : ℕ) : Prop :=
  ∃ cids : List ℕ, cids.Nodup ∧ cids.length = nprobe ∧
    ∀ cid ∈ cids, Met (index.adjacent 0) (centroids.squaredL2 query) (index.entryFor query) cid

theorem search_probes_iff {nprobe ef : ℕ} (hpos : 0 < nprobe) (hef : nprobe ≤ ef) :
    Probes centroids.rowCount nprobe (index.search query nprobe ef) ↔
      index.Reachable query nprobe := by
  obtain ⟨hnodup, hbounded, hlength, hfull⟩ := @searchLayerQuery_spec (index.adjacent 0)
    (centroids.squaredL2 query) nprobe ef centroids.rowCount (index.entryFor query) hpos hef
    (fun cid hcid next hnext => index.adjacent_lt hcid hnext) (index.entryFor_lt query)
  have hsearch : index.search query nprobe ef =
      (searchLayerQuery (index.adjacent 0) (centroids.squaredL2 query) nprobe ef
        centroids.rowCount (index.entryFor query)).map Scored.cid := by
    rw [search, List.take_of_length_le hlength]
  rw [hsearch]
  constructor
  · intro hprobes
    have hcount := hprobes.length
    rw [List.length_map] at hcount
    exact hfull.mp hcount
  · intro hreachable
    refine ⟨?_, hnodup, fun cid hcid => ?_⟩
    · rw [List.length_map]
      exact hfull.mpr hreachable
    · obtain ⟨scored, hscored, rfl⟩ := List.mem_map.mp hcid
      exact hbounded scored hscored

end HnswIndex

/-! ## Routes -/

namespace CentroidNavigator

/-- When a route probes as many clusters as asked for. -/
def Probeable (navigator : CentroidNavigator) (query : List Component) (nprobe : ℕ) : Prop :=
  match navigator.strategy with
  | .exact => True
  | .hnsw index => nprobe = navigator.nlist ∨ exactScanPreferred nprobe navigator.nlist = true ∨
      index.Reachable query nprobe

theorem validateQuery_eq_ok {navigator : CentroidNavigator} {query : List Component} {nprobe : ℕ}
    (hvalid : navigator.validateQuery query nprobe = .ok ()) :
    0 < nprobe ∧ nprobe ≤ navigator.nlist ∧ query.length = navigator.centroids.dimension ∧
      query.all Component.isFinite = true := by
  unfold validateQuery at hvalid
  split at hvalid
  · cases hvalid
  · split at hvalid
    · cases hvalid
    · next hrange hquery =>
        simp only [not_or, not_not, Bool.not_eq_true, Bool.not_eq_false'] at hquery
        exact ⟨by omega, by omega, hquery⟩

/-- A successful route returns `nprobe` distinct clusters exactly if it scans or the graph
leads to that many. -/
theorem route_probes_iff (navigator : CentroidNavigator) (select : SelectNth)
    (query : List Component) (nprobe : ℕ) (cids : List ℕ)
    (hroute : navigator.route select query nprobe = .ok cids) :
    (cids.length = nprobe ∧ cids.Nodup ∧ ∀ cid ∈ cids, cid < navigator.nlist) ↔
      navigator.Probeable query nprobe := by
  suffices hprobes : Probes navigator.nlist nprobe cids ↔ navigator.Probeable query nprobe by
    rw [← hprobes]
    exact ⟨fun ⟨hlength, hnodup, hbounded⟩ => ⟨hlength, hnodup, hbounded⟩,
      fun hprobes => ⟨hprobes.length, hprobes.nodup, hprobes.bounded⟩⟩
  obtain ⟨⟨⟩, hvalid, hroute⟩ := Foundations.bind_eq_ok.mp hroute
  obtain ⟨hpos, hnlist, hdimension, hfinite⟩ := validateQuery_eq_ok hvalid
  obtain ⟨centroids, strategy⟩ := navigator
  unfold Probeable
  cases strategy with
  | exact =>
      split at hroute
      · next hall =>
          cases hroute
          rw [hall]
          exact iff_of_true (probes_range _) trivial
      · cases hroute
        exact iff_of_true (routeExact_probes centroids select query hnlist) trivial
  | hnsw index =>
      split at hroute
      · next hall =>
          cases hroute
          refine iff_of_true ?_ (Or.inl hall)
          rw [hall]
          exact probes_range _
      · next hsome =>
          dsimp only at hroute ⊢
          unfold HnswIndex.route HnswIndex.routeWithEf at hroute
          rw [if_neg (by omega), if_neg (by simp [hdimension, hfinite])] at hroute
          have hcount : min nprobe centroids.rowCount = nprobe := Nat.min_eq_left hnlist
          rw [hcount] at hroute
          dsimp only at hroute
          split at hroute
          · next hscan =>
              cases hroute
              exact iff_of_true (index.routeExact_probes centroids select query hnlist)
                (Or.inr (Or.inl hscan))
          · next hscan =>
              cases hroute
              rw [or_iff_right hsome]
              refine Iff.trans ?_ (or_iff_right hscan).symm
              exact index.search_probes_iff query hpos (Nat.le_max_right _ _)

/-! ## Samples -/

/-- Selecting by sorting. -/
def sortingSelect : SelectNth where
  run items _ := items.insertionSort (· ≤ ·)
  perm items _ := List.perm_insertionSort _ _
  before items index left hleft right hright := by
    have hsorted := List.pairwise_insertionSort (· ≤ ·) items
    rw [← List.take_append_drop index (items.insertionSort (· ≤ ·)), List.pairwise_append]
      at hsorted
    exact hsorted.2.2 left hleft right hright

/-- The square of an `f32`, rounded to the nearest, ties to even. -/
def squareMagnitude (magnitude : ℕ) : ℕ :=
  let significand := if magnitude < 2 ^ 23 then magnitude else magnitude % 2 ^ 23 + 2 ^ 23
  let exponent : ℤ := 2 * (max (magnitude / 2 ^ 23) 1 : ℕ) - 150
  let square := significand * significand
  let dropped : ℤ := max ((Nat.log2 square : ℤ) - 23) (1 - exponent)
  let kept := square / 2 ^ dropped.toNat
  let rest := square % 2 ^ dropped.toNat * 2
  let rounded := if 2 ^ dropped.toNat < rest ∨ rest = 2 ^ dropped.toNat ∧ kept % 2 = 1 then kept + 1
    else kept
  min (((exponent + dropped - 1).toNat) * 2 ^ 23 + rounded) Distance.infinity.magnitude

example : squareMagnitude 0x40400000 = 0x41100000 := by decide

/-- Zero centroids of dimension 1: an encoded row decodes to zero. -/
def zeroCentroids (rowCount : ℕ) : LvqEncodedBatch where
  rowCount := rowCount
  dimension := 1
  squaredL2 query _ := match query with
    | [.number component] => ⟨false, squareMagnitude component.magnitude⟩
    | _ => ⟨false, 0⟩

/-- The query `3e38`. -/
def largeQuery : List Component := [.number ⟨false, 0x7f61b1e6⟩]

theorem largeQuery_infinite (rowCount cid : ℕ) :
    (zeroCentroids rowCount).squaredL2 largeQuery cid = Distance.infinity := by
  show (⟨false, squareMagnitude 0x7f61b1e6⟩ : Distance) = Distance.infinity
  decide

theorem length_levels (m count : ℕ) (rng : SmallRng) :
    (SmallRng.levels m count rng).length = count := by
  induction count generalizing rng with
  | zero => rfl
  | succ count ih => simp [SmallRng.levels, ih]

/-- The default graph over 8192 zero centroids, built by one worker. -/
def zeroPlan : Plan :=
  Plan.ofSeed 16 128 1 8192 0x72656c696679 (fun _ _ => ⟨false, 0⟩) (by decide) (by decide)
    (by decide)

/-- A scan of three centroids probes two of them, and a search of the default graph for one
cluster probes one. -/
theorem scan_and_graph_probe :
    (∃ cids, (⟨zeroCentroids 3, .exact⟩ : CentroidNavigator).route sortingSelect largeQuery 2 =
      .ok cids ∧ cids.length = 2 ∧ cids.Nodup ∧ ∀ cid ∈ cids, cid < 3) ∧
    ∃ (index : HnswIndex (zeroCentroids 8192)) (cids : List ℕ),
      (⟨zeroCentroids 8192, .hnsw index⟩ : CentroidNavigator).route sortingSelect largeQuery 1 =
        .ok cids ∧ cids.length = 1 ∧ cids.Nodup ∧ ∀ cid ∈ cids, cid < 8192 := by
  constructor
  · refine ⟨_, rfl, ?_⟩
    exact (route_probes_iff ⟨zeroCentroids 3, .exact⟩ sortingSelect largeQuery 2 _ rfl).mpr trivial
  · obtain ⟨moves, final, hreaches, hfinished⟩ := Building.exists_finished zeroPlan
    let index : HnswIndex (zeroCentroids 8192) :=
      ⟨zeroPlan, length_levels _ _ _, moves, final, hreaches, hfinished, 64, by decide⟩
    refine ⟨index, _, rfl, ?_⟩
    refine (route_probes_iff ⟨zeroCentroids 8192, .hnsw index⟩ sortingSelect largeQuery 1 _
      rfl).mpr (.inr (.inr ⟨[index.entryFor largeQuery], List.nodup_singleton _, rfl, ?_⟩))
    rw [List.forall_mem_singleton]
    exact Relation.ReflTransGen.refl

/-- Nothing is met but the start when all distances are infinite. -/
theorem met_of_infinite {adjacent : ℕ → List ℕ} {distance : ℕ → Distance} {start cid : ℕ}
    (hinfinite : distance start = Distance.infinity) (hmet : Met adjacent distance start cid) :
    cid = start := by
  rcases Relation.ReflTransGen.cases_head hmet with heq | ⟨next, hleads, -⟩
  · exact heq.symm
  · exact absurd hleads.1 (by rw [hinfinite]; exact lt_irrefl _)

/-- The search of a default graph over 8192 zero centroids for two clusters of the query
`3e38` does not return two: all distances overflow, and none is expanded. -/
theorem overflow_probes_one : ∃ index : HnswIndex (zeroCentroids 8192), index.plan = zeroPlan ∧
    index.efSearch = 64 ∧ ∃ cids,
      (⟨zeroCentroids 8192, .hnsw index⟩ : CentroidNavigator).route sortingSelect largeQuery 2 =
        .ok cids ∧ ¬ (cids.length = 2 ∧ cids.Nodup ∧ ∀ cid ∈ cids, cid < 8192) := by
  obtain ⟨moves, final, hreaches, hfinished⟩ := Building.exists_finished zeroPlan
  let index : HnswIndex (zeroCentroids 8192) :=
    ⟨zeroPlan, length_levels _ _ _, moves, final, hreaches, hfinished, 64, by decide⟩
  refine ⟨index, rfl, rfl, index.search largeQuery 2 (max (max 64 (saturatingMul 2 2)) 2), ?_, ?_⟩
  · rfl
  · rintro ⟨hlength, hnodup, hbounded⟩
    have hprobes : Probes (zeroCentroids 8192).rowCount 2
        (index.search largeQuery 2 (max (max 64 (saturatingMul 2 2)) 2)) :=
      ⟨hlength, hnodup, hbounded⟩
    obtain ⟨reached, hdistinct, htwo, hmet⟩ :=
      (index.search_probes_iff largeQuery (by decide) (by decide)).mp hprobes
    have hsame : ∀ cid ∈ reached, cid = index.entryFor largeQuery := fun cid hcid =>
      met_of_infinite (largeQuery_infinite _ _) (hmet cid hcid)
    rw [List.eq_replicate_of_mem hsame, htwo] at hdistinct
    simp at hdistinct

end CentroidNavigator

end ParqDB.Navigation
