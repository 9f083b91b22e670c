import ParqDB.Navigation.Probes
import ParqDB.Navigation.ScratchRuns

/-!
# Routes do not depend on the history of the scratches

Every call ends, whatever calls its scratch has served before, and returns what the description
without scratches returns; a batch returns the routes of its rows one after the other.

**Strategy.**  All scratches of a pool are clean (`Clean`), since a search in a clean scratch is
a search from nothing and leaves a clean one.  So what a call returns is a function of its
arguments, and for that function a batch is its rows.
-/

namespace ParqDB.Navigation

open Foundations
open Query (Distance)
open CentroidNavigator (zeroCentroids)

/-! ## Searches -/

/-- The results of a search are sorted as they are. -/
theorem insertionSort_searchLayerQuery {adjacent : ℕ → List ℕ} {distance : ℕ → Distance}
    {resultCount ef count entry : ℕ} (hcount : 0 < resultCount) :
    (searchLayerQuery adjacent distance resultCount ef count entry).insertionSort (· ≤ ·) =
      searchLayerQuery adjacent distance resultCount ef count entry := by
  have hresults : searchLayerQuery adjacent distance resultCount ef count entry = _ :=
    ranked_queryLoop hcount
  rw [hresults]
  exact (pairwise_smallest resultCount _).insertionSort_eq

namespace HnswIndex

variable {centroids : LvqEncodedBatch} {index : HnswIndex centroids} {select : SelectNth}
  {query : List Component} {nprobe : ℕ} {scratch : SearchScratch} {count : ℕ} {left : SearchScratch}

/-- A search in a clean scratch is the search without one. -/
theorem searchAppend_of_clean (index : HnswIndex centroids) (query : List Component)
    (hclean : scratch.Clean centroids.rowCount) {ef : ℕ} (hcount : 0 < count) (hef : 0 < ef) :
    ∃ left, index.searchAppend query count ef scratch = some (index.search query count ef, left) ∧
      left.Clean centroids.rowCount := by
  obtain ⟨left, hsearch, hleft⟩ : ∃ left, scratch.searchLayerQuery (index.adjacent 0)
      (centroids.squaredL2 query) count ef centroids.rowCount (index.entryFor query) =
        some (_, left) ∧ left.Clean centroids.rowCount :=
    hclean.searchLayerQuery hef (fun _ hcid _ hnext => index.adjacent_lt hcid hnext)
      (index.entryFor_lt query) (Nat.le_refl _)
  refine ⟨left, ?_, hleft⟩
  rw [searchAppend, hsearch, Option.map_some, insertionSort_searchLayerQuery hcount, search]

theorem rowCount_pos (index : HnswIndex centroids) (query : List Component) :
    0 < centroids.rowCount :=
  Nat.zero_lt_of_lt (index.entryFor_lt query)

/-- A route in a clean scratch is the route without one. -/
theorem routeIn_of_clean (index : HnswIndex centroids) (select : SelectNth)
    (query : List Component) (nprobe : ℕ) (hclean : scratch.Clean centroids.rowCount) :
    ∃ left, index.routeIn select query nprobe scratch =
        some (index.route select query nprobe, left) ∧ left.Clean centroids.rowCount := by
  have hpositive := index.rowCount_pos query
  unfold routeIn routeWithEfIn route routeWithEf
  by_cases hzero : nprobe = 0
  · rw [if_pos hzero, if_pos hzero]
    exact ⟨scratch, rfl, hclean⟩
  · rw [if_neg hzero, if_neg hzero]
    split
    · exact ⟨scratch, rfl, hclean⟩
    · dsimp only
      split
      · exact ⟨scratch, rfl, hclean⟩
      · obtain ⟨left, hsearch, hleft⟩ : ∃ left, index.searchAppend query _ _ scratch =
            some (index.search query (min nprobe centroids.rowCount)
              (max (max index.efSearch (saturatingMul nprobe 2)) nprobe), left) ∧
            left.Clean centroids.rowCount :=
          searchAppend_of_clean index query hclean (by omega) (by omega)
        refine ⟨left, ?_, hleft⟩
        rw [hsearch, Option.map_some]

variable {result : Except String (List ℕ)}

theorem clean_of_routeIn (hclean : scratch.Clean centroids.rowCount)
    (hroute : index.routeIn select query nprobe scratch = some (result, left)) :
    left.Clean centroids.rowCount := by
  obtain ⟨last, hlast, hleft⟩ := routeIn_of_clean index select query nprobe hclean
  rw [hroute, Option.some.injEq, Prod.mk.injEq] at hlast
  rwa [hlast.2]

/-! ## Batches -/

/-- The searches of a batch in a clean scratch are the searches of its rows. -/
theorem searchRows_of_clean (index : HnswIndex centroids) {ef : ℕ} (hcount : 0 < count)
    (hef : 0 < ef) (rows : List (List Component)) (hclean : scratch.Clean centroids.rowCount) :
    ∃ left, index.searchRows count ef rows scratch =
        some (rows.flatMap fun query => index.search query count ef, left) ∧
      left.Clean centroids.rowCount := by
  induction rows generalizing scratch with
  | nil => exact ⟨scratch, rfl, hclean⟩
  | cons query rows ih =>
      obtain ⟨left, hsearch, hleft⟩ := searchAppend_of_clean index query hclean hcount hef
      obtain ⟨last, hrows, hlast⟩ := ih hleft
      refine ⟨last, ?_, hlast⟩
      rw [searchRows, hsearch, Option.bind_some]
      dsimp only
      rw [hrows, Option.map_some, List.flatMap_cons]

/-- What a row of a batch contributes. -/
def rowOutput (index : HnswIndex centroids) (select : SelectNth) (nprobe : ℕ)
    (query : List Component) : List ℕ :=
  let count := min nprobe centroids.rowCount
  if exactScanPreferred count centroids.rowCount then index.routeExact select query count
  else index.search query count (max index.efSearch (saturatingMul nprobe 2))

/-- A batch without a scratch. -/
def routeBatch (index : HnswIndex centroids) (select : SelectNth) (queries : List Component)
    (nprobe : ℕ) : Except String (List ℕ) :=
  if nprobe = 0 then .error "nprobe must be positive"
  else if queries.length % centroids.dimension ≠ 0 then
    .error "query matrix does not match the centroid dimension"
  else if queries.any fun value => !value.isFinite then
    .error "query matrix must contain only finite values"
  else .ok ((chunks centroids.dimension queries).flatMap (index.rowOutput select nprobe))

/-- A batch in a clean scratch is the batch without one. -/
theorem routeBatchIn_of_clean (index : HnswIndex centroids) (select : SelectNth)
    (queries : List Component) (nprobe : ℕ) (hclean : scratch.Clean centroids.rowCount) :
    ∃ left, index.routeBatchIn select queries nprobe scratch =
        some (index.routeBatch select queries nprobe, left) ∧ left.Clean centroids.rowCount := by
  have hpositive := index.rowCount_pos []
  have hsearches := index.efSearch_pos
  unfold routeBatchIn routeBatch
  by_cases hzero : nprobe = 0
  · rw [if_pos hzero, if_pos hzero]
    exact ⟨scratch, rfl, hclean⟩
  · rw [if_neg hzero, if_neg hzero]
    split
    · exact ⟨scratch, rfl, hclean⟩
    · split
      · exact ⟨scratch, rfl, hclean⟩
      · dsimp only
        unfold rowOutput
        by_cases hscan : exactScanPreferred (min nprobe centroids.rowCount) centroids.rowCount
        · simp only [if_pos hscan]
          exact ⟨scratch, rfl, hclean⟩
        · simp only [if_neg hscan]
          obtain ⟨left, hrows, hleft⟩ : ∃ left, index.searchRows (min nprobe centroids.rowCount)
              (max index.efSearch (saturatingMul nprobe 2)) (chunks centroids.dimension queries)
              scratch = some (_, left) ∧ left.Clean centroids.rowCount :=
            searchRows_of_clean index (by omega) (by omega) _ hclean
          exact ⟨left, by rw [hrows, Option.map_some], hleft⟩

theorem clean_of_routeBatchIn {queries : List Component} (hclean : scratch.Clean centroids.rowCount)
    (hroute : index.routeBatchIn select queries nprobe scratch = some (result, left)) :
    left.Clean centroids.rowCount := by
  obtain ⟨last, hlast, hleft⟩ := routeBatchIn_of_clean index select queries nprobe hclean
  rw [hroute, Option.some.injEq, Prod.mk.injEq] at hlast
  rwa [hlast.2]

end HnswIndex

/-! ## Pools -/

namespace HnswNavigator

variable {centroids : LvqEncodedBatch} {navigator : HnswNavigator centroids}

/-- All scratches of the pool are clean. -/
def Clean (navigator : HnswNavigator centroids) : Prop :=
  ∀ scratch ∈ navigator.scratches, scratch.Clean centroids.rowCount

theorem Clean.takeScratch (hclean : navigator.Clean) :
    navigator.takeScratch.1.Clean centroids.rowCount ∧ navigator.takeScratch.2.Clean := by
  constructor
  · unfold HnswNavigator.takeScratch
    dsimp only
    cases hlast : navigator.scratches.getLast? with
    | none => exact SearchScratch.clean_newForQuery _ _
    | some scratch => exact hclean scratch (List.mem_of_getLast? hlast)
  · intro scratch hscratch
    exact hclean scratch (List.mem_of_mem_dropLast hscratch)

theorem Clean.returnScratch (hclean : navigator.Clean) {scratch : SearchScratch}
    (hscratch : scratch.Clean centroids.rowCount) (oversized : Bool) :
    (navigator.returnScratch scratch oversized).Clean := by
  unfold HnswNavigator.returnScratch
  dsimp only
  split
  · exact hclean
  · split
    · intro other hother
      rcases List.mem_append.mp hother with hold | hnew
      · exact hclean other hold
      · rw [List.mem_singleton.mp hnew]
        exact hscratch.trimForQueryPool _
    · exact hclean

theorem clean_fromIndex (index : HnswIndex centroids) (threadCount : ℕ) :
    (fromIndex index threadCount).Clean := by
  intro scratch hscratch
  rw [List.eq_of_mem_replicate hscratch]
  exact SearchScratch.clean_newForQuery _ _

theorem index_returnScratch (scratch : SearchScratch) (oversized : Bool) :
    (navigator.returnScratch scratch oversized).index = navigator.index := by
  unfold HnswNavigator.returnScratch
  dsimp only
  split
  · rfl
  · split <;> rfl

/-- All scratches are clean, in the pool and in overlapping calls. -/
theorem Reached.clean {taken : List SearchScratch} (hreached : navigator.Reached taken) :
    navigator.Clean ∧ ∀ scratch ∈ taken, scratch.Clean centroids.rowCount := by
  induction hreached with
  | fromIndex index threadCount =>
      exact ⟨clean_fromIndex index threadCount, fun _ hscratch => by cases hscratch⟩
  | takeScratch _ ih =>
      obtain ⟨hnavigator, htaken⟩ := ih
      obtain ⟨hscratch, hrest⟩ := hnavigator.takeScratch
      refine ⟨hrest, fun other hother => ?_⟩
      rcases List.mem_cons.mp hother with rfl | hother
      · exact hscratch
      · exact htaken other hother
  | route _ hperm hroute oversized ih =>
      obtain ⟨hnavigator, htaken⟩ := ih
      have hclean := HnswIndex.clean_of_routeIn
        (htaken _ (hperm.mem_iff.mpr List.mem_cons_self)) hroute
      refine ⟨hnavigator.returnScratch hclean oversized, fun other hother => ?_⟩
      exact htaken other (hperm.mem_iff.mpr (List.mem_cons_of_mem _ hother))
  | routeBatch _ hperm hroute oversized ih =>
      obtain ⟨hnavigator, htaken⟩ := ih
      have hclean := HnswIndex.clean_of_routeBatchIn
        (htaken _ (hperm.mem_iff.mpr List.mem_cons_self)) hroute
      refine ⟨hnavigator.returnScratch hclean oversized, fun other hother => ?_⟩
      exact htaken other (hperm.mem_iff.mpr (List.mem_cons_of_mem _ hother))

/-- A call whose work ends in any clean scratch, always with the same result. -/
theorem withScratch_of_clean {α : Type} {work : SearchScratch → Option (α × SearchScratch)}
    {result : α} (hclean : navigator.Clean)
    (hwork : ∀ scratch : SearchScratch, scratch.Clean centroids.rowCount →
      ∃ left, work scratch = some (result, left) ∧ left.Clean centroids.rowCount)
    (oversized : Bool) :
    ∃ later, navigator.withScratch work oversized = some (result, later) ∧ later.Clean ∧
      later.index = navigator.index := by
  obtain ⟨htaken, hrest⟩ := hclean.takeScratch
  obtain ⟨left, hresult, hleft⟩ := hwork _ htaken
  refine ⟨_, ?_, hrest.returnScratch hleft oversized, index_returnScratch _ _⟩
  rw [withScratch]
  dsimp only
  rw [hresult, Option.map_some]

end HnswNavigator

/-! ## A batch is its rows -/

namespace CentroidNavigator

variable {navigator : CentroidNavigator} {select : SelectNth} {nprobe : ℕ}

/-- A batch without scratches. -/
def routeBatch (navigator : CentroidNavigator) (select : SelectNth) (queries : List Component)
    (nprobe : ℕ) : Except String (List ℕ) :=
  if nprobe = 0 ∨ navigator.nlist < nprobe then
    .error ("nprobe must be between 1 and " ++ toString navigator.nlist)
  else if queries.length % navigator.centroids.dimension ≠ 0 then
    .error "query matrix does not match the centroid dimension"
  else if queries.any fun value => !value.isFinite then
    .error "query matrix must contain only finite values"
  else navigator.routeRows select nprobe (chunks navigator.centroids.dimension queries)

variable {rows : List (List Component)} {query : List Component}

theorem routeRows_of_routes {output : List Component → List ℕ}
    (hroutes : ∀ row ∈ rows, navigator.route select row nprobe = .ok (output row)) :
    navigator.routeRows select nprobe rows = .ok (rows.flatMap output) := by
  induction rows with
  | nil => rfl
  | cons row rows ih =>
      have hrest := ih fun other hother => hroutes other (List.mem_cons_of_mem _ hother)
      rw [routeRows, hroutes row List.mem_cons_self, hrest, List.flatMap_cons]
      rfl

/-- A batch of rows succeeds with the routes of the rows, or fails as one of them does. -/
theorem routeRows_cases (navigator : CentroidNavigator) (select : SelectNth) (nprobe : ℕ)
    (rows : List (List Component)) :
    (∃ lists : List (List ℕ), navigator.routeRows select nprobe rows = .ok lists.flatten ∧
      rows.map (fun row => navigator.route select row nprobe) = lists.map Except.ok) ∨
    ∃ error, navigator.routeRows select nprobe rows = .error error ∧
      ∃ row ∈ rows, navigator.route select row nprobe = .error error := by
  induction rows with
  | nil => exact Or.inl ⟨[], rfl, rfl⟩
  | cons row rows ih =>
      rw [routeRows]
      cases hrow : navigator.route select row nprobe with
      | error error => exact Or.inr ⟨error, rfl, row, List.mem_cons_self, hrow⟩
      | ok output =>
          rcases ih with ⟨lists, hrows, hlists⟩ | ⟨error, hrows, failed, hfailed, hroute⟩
          · refine Or.inl ⟨output :: lists, ?_, ?_⟩
            · rw [hrows]
              rfl
            · rw [List.map_cons, List.map_cons, hrow, hlists]
          · refine Or.inr ⟨error, ?_, failed, List.mem_cons_of_mem _ hfailed, hroute⟩
            rw [hrows]
            rfl

/-- What the navigator admits. -/
theorem validateQuery_ok (hpositive : nprobe ≠ 0) (hnlist : nprobe ≤ navigator.nlist)
    (hlength : query.length = navigator.centroids.dimension)
    (hfinite : ∀ value ∈ query, value.isFinite = true) :
    navigator.validateQuery query nprobe = .ok () := by
  have hall : query.all Component.isFinite = true := List.all_eq_true.mpr hfinite
  rw [validateQuery, if_neg (by omega), if_neg (by simp [hlength, hall])]

/-- What the navigator rejects. -/
theorem route_error (select : SelectNth) (query : List Component)
    (hrejected : (nprobe = 0 ∨ navigator.nlist < nprobe) ∨
      ∃ value ∈ query, value.isFinite = false) :
    ∃ error, navigator.route select query nprobe = .error error := by
  have hinvalid : ∃ error, navigator.validateQuery query nprobe = .error error := by
    rw [validateQuery]
    by_cases hrange : nprobe = 0 ∨ navigator.nlist < nprobe
    · exact ⟨_, if_pos hrange⟩
    · obtain ⟨value, hvalue, hnonfinite⟩ := hrejected.resolve_left hrange
      have hany : ¬ query.all Component.isFinite = true := by
        intro hall
        have hfinite := List.all_eq_true.mp hall value hvalue
        rw [hnonfinite] at hfinite
        cases hfinite
      rw [if_neg hrange, if_pos (Or.inr (by simpa using hany))]
      exact ⟨_, rfl⟩
  obtain ⟨error, herror⟩ := hinvalid
  refine ⟨error, ?_⟩
  rw [route, herror]
  rfl

/-- A batch and the routes of its rows: it returns what they return, one after the other, and
fails if one of them fails; a batch of no rows fails if `nprobe` is not admitted. -/
def Concatenates (batch : Except String (List ℕ)) (routes : List (Except String (List ℕ)))
    (admitted : Prop) : Prop :=
  match batch with
  | .ok output => ∃ lists : List (List ℕ), routes = lists.map Except.ok ∧ output = lists.flatten
  | .error _ => (∃ error, .error error ∈ routes) ∨ routes = [] ∧ ¬ admitted

theorem routeBatch_concatenates (hdimension : 0 < navigator.centroids.dimension)
    (hrows : Uniform navigator.centroids.dimension rows) :
    Concatenates (navigator.routeBatch select rows.flatten nprobe)
      (rows.map fun row => navigator.route select row nprobe)
      (1 ≤ nprobe ∧ nprobe ≤ navigator.nlist) := by
  rw [routeBatch]
  by_cases hrange : nprobe = 0 ∨ navigator.nlist < nprobe
  · rw [if_pos hrange]
    cases rows with
    | nil => exact Or.inr ⟨rfl, by omega⟩
    | cons row rows =>
        obtain ⟨error, herror⟩ := route_error select row (Or.inl hrange)
        exact Or.inl ⟨error, List.mem_map.mpr ⟨row, List.mem_cons_self, herror⟩⟩
  rw [if_neg hrange, if_neg (by rw [length_flatten hrows, Nat.mul_mod_left]; simp)]
  by_cases hnonfinite : (rows.flatten.any fun value => !value.isFinite) = true
  · rw [if_pos hnonfinite]
    obtain ⟨value, hvalue, hinfinite⟩ := List.any_eq_true.mp hnonfinite
    obtain ⟨row, hrow, hmem⟩ := List.mem_flatten.mp hvalue
    obtain ⟨error, herror⟩ : ∃ error, navigator.route select row nprobe = .error error :=
      route_error select row (Or.inr ⟨value, hmem, by simpa using hinfinite⟩)
    exact Or.inl ⟨error, List.mem_map.mpr ⟨row, hrow, herror⟩⟩
  · rw [if_neg hnonfinite, chunks_flatten hdimension hrows]
    rcases routeRows_cases navigator select nprobe rows
      with ⟨lists, hok, hlists⟩ | ⟨error, herror, row, hrow, hroute⟩
    · rw [hok]
      exact ⟨lists, hlists, rfl⟩
    · rw [herror]
      exact Or.inl ⟨error, List.mem_map.mpr ⟨row, hrow, hroute⟩⟩

/-- The route of a row that the navigator admits, in a graph. -/
theorem route_hnsw {centroids : LvqEncodedBatch} {index : HnswIndex centroids}
    (hpositive : nprobe ≠ 0) (hnlist : nprobe < centroids.rowCount)
    (hsize : centroids.rowCount < 2 ^ 64) (hlength : query.length = centroids.dimension)
    (hfinite : ∀ value ∈ query, value.isFinite = true) :
    (⟨centroids, .hnsw index⟩ : CentroidNavigator).route select query nprobe =
      .ok (index.rowOutput select nprobe query) := by
  have hall : query.all Component.isFinite = true := List.all_eq_true.mpr hfinite
  have hdouble : nprobe ≤ saturatingMul nprobe 2 := by
    unfold saturatingMul
    omega
  have hef : max (max index.efSearch (saturatingMul nprobe 2)) nprobe =
      max index.efSearch (saturatingMul nprobe 2) := by
    omega
  have hvalid : (⟨centroids, .hnsw index⟩ : CentroidNavigator).validateQuery query nprobe = .ok () :=
    validateQuery_ok hpositive hnlist.le hlength hfinite
  rw [route, hvalid]
  change (if nprobe = centroids.rowCount then _ else index.route select query nprobe) = _
  rw [if_neg hnlist.ne, HnswIndex.route, HnswIndex.routeWithEf, if_neg hpositive,
    if_neg (by simp [hlength, hall]), hef, HnswIndex.rowOutput]
  dsimp only
  split <;> rfl

end CentroidNavigator

/-! ## Navigators with a pool -/

namespace PooledNavigator

variable {navigator : PooledNavigator} {select : SelectNth}

/-- All scratches of the pool are clean. -/
def Clean (navigator : PooledNavigator) : Prop :=
  match navigator.strategy with
  | .exact => True
  | .hnsw hnsw => hnsw.Clean

theorem Reached.clean (hreached : navigator.Reached) : navigator.Clean := by
  obtain ⟨centroids, hdimension, hsize, strategy⟩ := navigator
  cases strategy with
  | exact => trivial
  | hnsw hnsw =>
      obtain ⟨taken, htaken⟩ := hreached
      exact htaken.clean.1

theorem clean_emptied : navigator.emptied.Clean := by
  obtain ⟨centroids, hdimension, hsize, strategy⟩ := navigator
  cases strategy with
  | exact => trivial
  | hnsw hnsw => exact fun scratch hscratch => by cases hscratch

theorem plain_emptied : navigator.emptied.plain = navigator.plain := by
  obtain ⟨centroids, hdimension, hsize, strategy⟩ := navigator
  cases strategy <;> rfl

/-- A route is the route without scratches. -/
theorem route_of_clean (hclean : navigator.Clean) (query : List Component) (nprobe : ℕ)
    (oversized : Bool) :
    ∃ later, navigator.route select query nprobe oversized =
        some (navigator.plain.route select query nprobe, later) ∧
      later.Clean ∧ later.plain = navigator.plain := by
  rw [PooledNavigator.route, CentroidNavigator.route]
  cases hvalid : navigator.plain.validateQuery query nprobe with
  | error error => exact ⟨navigator, rfl, hclean, rfl⟩
  | ok admitted =>
      change ∃ later, (if nprobe = navigator.nlist then _ else _) =
        some (if nprobe = navigator.nlist then _ else _, later) ∧ _
      by_cases hall : nprobe = navigator.nlist
      · rw [if_pos hall, if_pos hall]
        exact ⟨navigator, rfl, hclean, rfl⟩
      · rw [if_neg hall, if_neg hall]
        obtain ⟨centroids, hdimension, hsize, strategy⟩ := navigator
        cases strategy with
        | exact => exact ⟨_, rfl, hclean, rfl⟩
        | hnsw hnsw =>
            obtain ⟨later, hroute, hlater, hindex⟩ := HnswNavigator.withScratch_of_clean hclean
              (fun scratch hscratch => HnswIndex.routeIn_of_clean hnsw.index select query
                nprobe hscratch) oversized
            refine ⟨⟨centroids, hdimension, hsize, .hnsw later⟩, ?_, hlater, ?_⟩
            · change (hnsw.withScratch _ oversized).map _ = _
              rw [hroute]
              rfl
            · change (⟨centroids, .hnsw later.index⟩ : CentroidNavigator) = _
              rw [hindex]
              rfl

/-- All rows of a batch over all centroids are all centroids. -/
theorem routeRows_nlist (select : SelectNth) {rows : List (List Component)} (hpositive : navigator.nlist ≠ 0)
    (hlength : Uniform navigator.centroids.dimension rows)
    (hfinite : ∀ row ∈ rows, ∀ value ∈ row, value.isFinite = true) :
    navigator.plain.routeRows select navigator.nlist rows =
      .ok (rows.flatMap fun _ => List.range navigator.nlist) := by
  apply CentroidNavigator.routeRows_of_routes
  intro row hrow
  have hvalid : navigator.plain.validateQuery row navigator.nlist = .ok () :=
    CentroidNavigator.validateQuery_ok hpositive (Nat.le_refl _) (hlength row hrow)
      (hfinite row hrow)
  rw [CentroidNavigator.route, hvalid]
  change (if navigator.nlist = navigator.nlist then _ else _) = _
  rw [if_pos rfl]
  rfl

/-- A batch of a graph that the navigator admits. -/
theorem routeBatch_hnsw (select : SelectNth) {centroids : LvqEncodedBatch} {hnsw : HnswNavigator centroids}
    {queries : List Component} {nprobe : ℕ} (hclean : hnsw.Clean) (hpositive : nprobe ≠ 0)
    (hnlist : nprobe < centroids.rowCount) (hsize : centroids.rowCount < 2 ^ 64)
    (hcomplete : queries.length % centroids.dimension = 0)
    (hfinite : ∀ value ∈ queries, value.isFinite = true) (oversized : Bool) :
    ∃ later, hnsw.routeBatch select queries nprobe oversized =
        some ((⟨centroids, .hnsw hnsw.index⟩ : CentroidNavigator).routeRows select nprobe
          (chunks centroids.dimension queries), later) ∧
      later.Clean ∧ later.index = hnsw.index := by
  have hrows : (⟨centroids, .hnsw hnsw.index⟩ : CentroidNavigator).routeRows select nprobe
      (chunks centroids.dimension queries) =
        .ok ((chunks centroids.dimension queries).flatMap (hnsw.index.rowOutput select nprobe)) := by
    apply CentroidNavigator.routeRows_of_routes
    intro row hrow
    apply CentroidNavigator.route_hnsw hpositive hnlist hsize (uniform_chunks _ _ row hrow)
    exact fun value hvalue => hfinite value (mem_of_mem_chunks hrow hvalue)
  have hbatch : hnsw.index.routeBatch select queries nprobe =
      .ok ((chunks centroids.dimension queries).flatMap (hnsw.index.rowOutput select nprobe)) := by
    have hnone : ¬ (queries.any fun value => !value.isFinite) = true := by
      simpa using hfinite
    rw [HnswIndex.routeBatch, if_neg hpositive, if_neg (by omega), if_neg hnone]
  rw [hrows, ← hbatch]
  exact HnswNavigator.withScratch_of_clean hclean
    (fun scratch hscratch => HnswIndex.routeBatchIn_of_clean hnsw.index select queries
      nprobe hscratch) oversized

/-- A batch is the batch without scratches. -/
theorem routeBatch_of_clean (hclean : navigator.Clean) (queries : List Component) (nprobe : ℕ)
    (oversized : Bool) :
    ∃ later, navigator.routeBatch select queries nprobe oversized =
        some (navigator.plain.routeBatch select queries nprobe, later) ∧
      later.Clean ∧ later.plain = navigator.plain := by
  rw [PooledNavigator.routeBatch, CentroidNavigator.routeBatch]
  change ∃ later, _ = some (if nprobe = 0 ∨ navigator.nlist < nprobe then _
    else if queries.length % navigator.centroids.dimension ≠ 0 then _ else _, later) ∧ _
  by_cases hrange : nprobe = 0 ∨ navigator.nlist < nprobe
  · rw [if_pos hrange, if_pos hrange]
    exact ⟨navigator, rfl, hclean, rfl⟩
  rw [if_neg hrange, if_neg hrange]
  by_cases hcomplete : queries.length % navigator.centroids.dimension ≠ 0
  · rw [if_pos hcomplete, if_pos hcomplete]
    exact ⟨navigator, rfl, hclean, rfl⟩
  rw [if_neg hcomplete, if_neg hcomplete]
  by_cases hnonfinite : (queries.any fun value => !value.isFinite) = true
  · rw [if_pos hnonfinite, if_pos hnonfinite]
    exact ⟨navigator, rfl, hclean, rfl⟩
  rw [if_neg hnonfinite, if_neg hnonfinite]
  have hfinite : ∀ value ∈ queries, value.isFinite = true := by
    simpa using hnonfinite
  by_cases hall : nprobe = navigator.nlist
  · subst hall
    have hrows := routeRows_nlist select (show navigator.nlist ≠ 0 by omega)
      (uniform_chunks navigator.centroids.dimension queries)
      fun row hrow value hvalue => hfinite value (mem_of_mem_chunks hrow hvalue)
    refine ⟨navigator, ?_, hclean, rfl⟩
    rw [if_pos rfl]
    change _ = some (navigator.plain.routeRows select navigator.nlist
      (chunks navigator.centroids.dimension queries), _)
    rw [hrows, chunks, List.flatMap_map]
  · rw [if_neg hall]
    obtain ⟨centroids, hdimension, hsize, strategy⟩ := navigator
    cases strategy with
    | exact => exact ⟨_, rfl, hclean, rfl⟩
    | hnsw hnsw =>
        have hnlist : nprobe < centroids.rowCount := by
          change ¬ (nprobe = 0 ∨ centroids.rowCount < nprobe) at hrange
          change ¬ nprobe = centroids.rowCount at hall
          omega
        obtain ⟨later, hroute, hlater, hindex⟩ := routeBatch_hnsw select hclean
          (by omega) hnlist hsize (Nat.eq_zero_of_not_pos (by simpa using hcomplete)) hfinite
          oversized
        refine ⟨⟨centroids, hdimension, hsize, .hnsw later⟩, ?_, hlater, ?_⟩
        · change (hnsw.routeBatch select queries nprobe oversized).map _ = _
          rw [hroute]
          rfl
        · change (⟨centroids, .hnsw later.index⟩ : CentroidNavigator) = _
          rw [hindex]
          rfl

end PooledNavigator

/-- What a call returns without scratches. -/
def CentroidNavigator.answer (navigator : CentroidNavigator) (select : SelectNth) :
    RouteCall → Except String (List ℕ)
  | .route query nprobe => navigator.route select query nprobe
  | .routeBatch queries nprobe => navigator.routeBatch select queries nprobe

namespace PooledNavigator

variable {navigator : PooledNavigator} {select : SelectNth}

theorem call_of_clean (select : SelectNth) (hclean : navigator.Clean) (request : RouteCall) (oversized : Bool) :
    ∃ later, navigator.call select request oversized =
        some (navigator.plain.answer select request, later) ∧
      later.Clean ∧ later.plain = navigator.plain := by
  cases request with
  | route query nprobe => exact route_of_clean hclean query nprobe oversized
  | routeBatch queries nprobe => exact routeBatch_of_clean hclean queries nprobe oversized

theorem answer_of_clean (hclean : navigator.Clean) (request : RouteCall) (oversized : Bool) :
    navigator.answer select request oversized = some (navigator.plain.answer select request) := by
  obtain ⟨later, hcall, -, -⟩ := call_of_clean select hclean request oversized
  rw [answer, hcall, Option.map_some]

/-- All calls end, and all scratches stay clean. -/
theorem run_of_clean (select : SelectNth) (hclean : navigator.Clean) (calls : List (RouteCall × Bool)) :
    ∃ later, navigator.run select calls = some later ∧ later.Clean ∧
      later.plain = navigator.plain := by
  induction calls generalizing navigator with
  | nil => exact ⟨navigator, rfl, hclean, rfl⟩
  | cons call calls ih =>
      obtain ⟨request, oversized⟩ := call
      obtain ⟨next, hcall, hnext, hsame⟩ :=
        call_of_clean select hclean request oversized
      obtain ⟨later, hrun, hlater, hplain⟩ := ih hnext
      refine ⟨later, ?_, hlater, hplain.trans hsame⟩
      rw [run, hcall, Option.bind_some]
      exact hrun

/-- After any calls, also overlapping ones, a call ends and returns what it returns with a new
scratch, and a batch returns the routes of its rows one after the other. -/
theorem answers_after_calls (select : SelectNth) (hreached : navigator.Reached)
    (calls : List (RouteCall × Bool)) :
    ∃ later, navigator.run select calls = some later ∧
      (∀ request oversized, ∃ result, later.answer select request oversized = some result ∧
        later.emptied.answer select request oversized = some result) ∧
      ∀ rows nprobe oversized, Uniform navigator.centroids.dimension rows →
        ∃ batch routes,
          later.answer select (.routeBatch rows.flatten nprobe) oversized = some batch ∧
          rows.map (fun row => later.answer select (.route row nprobe) oversized) =
            routes.map some ∧
          CentroidNavigator.Concatenates batch routes
            (1 ≤ nprobe ∧ nprobe ≤ navigator.nlist) := by
  obtain ⟨later, hrun, hclean, hplain⟩ :=
    run_of_clean select hreached.clean calls
  refine ⟨later, hrun, ?_, ?_⟩
  · intro request oversized
    refine ⟨_, answer_of_clean hclean request oversized, ?_⟩
    rw [answer_of_clean clean_emptied, plain_emptied]
  · intro rows nprobe oversized hrows
    refine ⟨_, rows.map fun row => navigator.plain.route select row nprobe,
      answer_of_clean hclean _ oversized, ?_, ?_⟩
    · rw [List.map_map]
      apply List.map_congr_left
      intro row _
      rw [answer_of_clean hclean _ oversized, hplain]
      rfl
    · rw [hplain]
      exact CentroidNavigator.routeBatch_concatenates navigator.dimension_pos hrows

/-- A navigator of a default graph over 8192 zero centroids, after a large and a small batch. -/
theorem answers_after_calls_zeroCentroids : ∃ index : HnswIndex (zeroCentroids 8192),
    let navigator : PooledNavigator :=
      ⟨zeroCentroids 8192, by decide, by decide, .hnsw (.fromIndex index 1)⟩
    ∃ later, navigator.run CentroidNavigator.sortingSelect
        [(.routeBatch (CentroidNavigator.largeQuery ++ CentroidNavigator.largeQuery) 100, false),
          (.route CentroidNavigator.largeQuery 2, true)] = some later ∧
      (∀ request oversized, ∃ result,
        later.answer CentroidNavigator.sortingSelect request oversized = some result ∧
        later.emptied.answer CentroidNavigator.sortingSelect request oversized = some result) ∧
      ∀ rows nprobe oversized, Uniform navigator.centroids.dimension rows →
        ∃ batch routes,
          later.answer CentroidNavigator.sortingSelect (.routeBatch rows.flatten nprobe)
            oversized = some batch ∧
          rows.map (fun row =>
            later.answer CentroidNavigator.sortingSelect (.route row nprobe) oversized) =
              routes.map some ∧
          CentroidNavigator.Concatenates batch routes
            (1 ≤ nprobe ∧ nprobe ≤ navigator.nlist) := by
  obtain ⟨moves, final, hreaches, hfinished⟩ :=
    Building.exists_finished CentroidNavigator.zeroPlan
  let index : HnswIndex (CentroidNavigator.zeroCentroids 8192) :=
    ⟨CentroidNavigator.zeroPlan, CentroidNavigator.length_levels _ _ _, moves, final, hreaches,
      hfinished, 64, by decide⟩
  refine ⟨index, ?_⟩
  exact answers_after_calls CentroidNavigator.sortingSelect
    (show PooledNavigator.Reached ⟨CentroidNavigator.zeroCentroids 8192, by decide, by decide,
      .hnsw (.fromIndex index 1)⟩ from ⟨[], .fromIndex index 1⟩) _

end PooledNavigator

end ParqDB.Navigation
