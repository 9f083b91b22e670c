import ParqDB.Navigation.Placement

/-!
# Routing a query to its clusters

`CentroidNavigator` and `HnswIndex` (`centroid_navigation/mod.rs`) and the query search of
the graph (`graph.rs`).  A navigator scans all centroids or searches a graph; a graph
search that would probe one centroid in 64 or more scans as well.

An `HnswIndex` carries the run that built its graph, for any interleaving of the workers.
The distance kernel is the function `squaredL2` of the encoded centroids: it has no other
property than that a squared distance is not NaN.  The query search reads the distances of
four neighbours at a time; they are independent, so one at a time is the same.
-/

namespace ParqDB.Navigation

open Query (Distance)

/-! ## Candidates of a query search -/

/-- A slot of the candidate heap: taken entries keep their distance. -/
structure HeapEntry where
  cid? : Option ℕ
  distance : Distance
deriving DecidableEq

/-- A bounded heap with the greatest distance on top. -/
structure MinimaxHeap where
  entries : Array HeapEntry
  valid : ℕ
  capacity : ℕ

namespace MinimaxHeap

def reset (capacity : ℕ) : MinimaxHeap := ⟨#[], 0, capacity⟩

def distanceAt (entries : Array HeapEntry) (position : ℕ) : ℤ :=
  (entries.getD position ⟨none, Distance.infinity⟩).distance.value

/-- Moves an entry up until its parent is at least as far. -/
def siftUp (entries : Array HeapEntry) : ℕ → ℕ → Array HeapEntry
  | 0, _ => entries
  | fuel + 1, position =>
      let parent := (position - 1) / 2
      if position = 0 ∨ distanceAt entries position ≤ distanceAt entries parent then entries
      else siftUp (entries.swapIfInBounds position parent) fuel parent

/-- Moves an entry down until both children are at most as far. -/
def siftDown (entries : Array HeapEntry) : ℕ → ℕ → Array HeapEntry
  | 0, _ => entries
  | fuel + 1, position =>
      let left := position * 2 + 1
      if entries.size ≤ left then entries
      else
        let right := left + 1
        let child :=
          if right < entries.size ∧ distanceAt entries left < distanceAt entries right then right
          else left
        if distanceAt entries child ≤ distanceAt entries position then entries
        else siftDown (entries.swapIfInBounds position child) fuel child

/-- Adds an entry at the end and moves it up. -/
def insert (heap : MinimaxHeap) (cid : ℕ) (distance : Distance) : MinimaxHeap :=
  let entries := heap.entries.push ⟨some cid, distance⟩
  { heap with entries := siftUp entries entries.size heap.entries.size, valid := heap.valid + 1 }

/-- Removes the farthest entry. -/
def removeTop (heap : MinimaxHeap) : MinimaxHeap :=
  let top := heap.entries.getD 0 ⟨none, Distance.infinity⟩
  let moved := (heap.entries.swapIfInBounds 0 (heap.entries.size - 1)).pop
  { heap with
    entries := siftDown moved moved.size 0
    valid := if top.cid?.isSome then heap.valid - 1 else heap.valid }

/-- Adds an entry; a full heap drops its farthest one, or the new one if that is as far. -/
def push (heap : MinimaxHeap) (cid : ℕ) (distance : Distance) : MinimaxHeap :=
  if heap.entries.size = heap.capacity then
    if distanceAt heap.entries 0 ≤ distance.value then heap
    else heap.removeTop.insert cid distance
  else heap.insert cid distance

/-- The position of a nearest entry that is not taken and not at infinity, from the end. -/
def findMinPosition (entries : Array HeapEntry) : ℕ → Option ℕ × Distance → Option ℕ
  | 0, found => found.1
  | position + 1, found =>
      let entry := entries.getD position ⟨none, Distance.infinity⟩
      findMinPosition entries position
        (if entry.cid?.isSome ∧ entry.distance.value < found.2.value then
          (some position, entry.distance)
        else found)

/-- Takes a nearest entry; its distance stays in the heap. -/
def popMin (heap : MinimaxHeap) : Option (Scored × MinimaxHeap) :=
  (findMinPosition heap.entries heap.entries.size (none, Distance.infinity)).bind fun position =>
    let entry := heap.entries.getD position ⟨none, Distance.infinity⟩
    entry.cid?.map fun cid =>
      (⟨cid, entry.distance⟩, { heap with
        entries := heap.entries.setIfInBounds position ⟨none, entry.distance⟩
        valid := heap.valid - 1 })

def countBelow (heap : MinimaxHeap) (distance : Distance) : ℕ :=
  heap.entries.toList.countP fun entry => entry.distance.value < distance.value

end MinimaxHeap

/-! ## Searching the graph for a query -/

structure QueryScratch where
  visited : List ℕ
  candidates : MinimaxHeap
  /-- The nearest centroids so far, nearest first. -/
  results : List Scored

section

variable (adjacent : ℕ → List ℕ) (distance : ℕ → Distance) (resultCount ef : ℕ)

def considerQueryCandidate (scratch : QueryScratch) (scored : Scored) : QueryScratch :=
  { scratch with
    results :=
      if scratch.results.length < resultCount ∨
          ∃ worst ∈ scratch.results.getLast?, scored < worst then
        let results := scratch.results.orderedInsert (· ≤ ·) scored
        if resultCount < results.length then results.dropLast else results
      else scratch.results
    candidates := scratch.candidates.push scored.cid scored.distance }

/-- Looks at one neighbour, once. -/
def visitQueryCandidate (scratch : QueryScratch) (candidate : ℕ) : QueryScratch :=
  if candidate ∈ scratch.visited then scratch
  else
    considerQueryCandidate resultCount { scratch with visited := candidate :: scratch.visited }
      ⟨candidate, distance candidate⟩

/-- The main loop of the query search. -/
def queryLoop : ℕ → QueryScratch → QueryScratch
  | 0, scratch => scratch
  | fuel + 1, scratch =>
      if scratch.candidates.valid = 0 then scratch
      else
        match scratch.candidates.popMin with
        | none => scratch
        | some (current, candidates) =>
            if ef ≤ candidates.countBelow current.distance then
              { scratch with candidates := candidates }
            else
              queryLoop fuel ((adjacent current.cid).foldl
                (visitQueryCandidate distance resultCount)
                { scratch with candidates := candidates })

/-- `search_layer_query`: every round takes a candidate that was not taken before. -/
def searchLayerQuery (count entry : ℕ) : List Scored :=
  let start : QueryScratch := ⟨[entry], (MinimaxHeap.reset ef).push entry (distance entry),
    [⟨entry, distance entry⟩]⟩
  (queryLoop adjacent distance resultCount ef count start).results

end

/-! ## Navigators -/

/-- An `f32`. -/
inductive Component
  | number (value : Distance)
  | nan
deriving DecidableEq

def Component.isFinite : Component → Bool
  | .number value => decide value.Finite
  | .nan => false

/-- The encoded centroids of an index. -/
structure LvqEncodedBatch where
  rowCount : ℕ
  dimension : ℕ
  /-- The distance of a query of finite components to a row. -/
  squaredL2 : List Component → ℕ → Distance

/-- A graph over the centroids, with the run that built it. -/
structure HnswIndex (centroids : LvqEncodedBatch) where
  plan : Plan
  count_eq : plan.layout.count = centroids.rowCount
  moves : List Move
  building : Building
  reaches : Building.Reaches plan moves building
  finished : building.Finished
  efSearch : ℕ
  efSearch_pos : 0 < efSearch

/-- How a navigator answers queries. -/
inductive NavigatorStrategy (centroids : LvqEncodedBatch)
  | exact
  | hnsw (index : HnswIndex centroids)

structure CentroidNavigator where
  centroids : LvqEncodedBatch
  strategy : NavigatorStrategy centroids

/-- `select_nth_unstable`: the items up to an index, in some order, come before the rest. -/
structure SelectNth where
  run : List Scored → ℕ → List Scored
  perm : ∀ items index, (run items index).Perm items
  before : ∀ items index, ∀ left ∈ (run items index).take index,
    ∀ right ∈ (run items index).drop index, left ≤ right

def saturatingMul (left right : ℕ) : ℕ := min (left * right) (2 ^ 64 - 1)

def exactScanNprobeDivisor : ℕ := 64

def exactScanPreferred (nprobe nlist : ℕ) : Bool :=
  nlist ≤ saturatingMul nprobe exactScanNprobeDivisor

/-- All centroids with their distances to a query. -/
def LvqEncodedBatch.scored (centroids : LvqEncodedBatch) (query : List Component) : List Scored :=
  (List.range centroids.rowCount).map fun cid => ⟨cid, centroids.squaredL2 query cid⟩

namespace HnswIndex

variable {centroids : LvqEncodedBatch} (index : HnswIndex centroids) (select : SelectNth)
  (query : List Component)

/-- The lists of a layer of the built graph. -/
def adjacent (layer cid : ℕ) : List ℕ :=
  index.building.shared.adjacent index.plan.layout layer cid

def routeExact (_index : HnswIndex centroids) (count : ℕ) : List ℕ :=
  if count = centroids.rowCount then List.range count
  else ((select.run (centroids.scored query) count).take count).map Scored.cid

/-- Where the greedy search over the top layer ends. -/
def entryFor : ℕ :=
  greedySearch (index.adjacent index.building.shared.entry.level) (centroids.squaredL2 query)
    centroids.rowCount index.building.shared.entry.cid

/-- `Graph::search_append`. -/
def search (count ef : ℕ) : List ℕ :=
  ((searchLayerQuery (index.adjacent 0) (centroids.squaredL2 query) count ef centroids.rowCount
    (index.entryFor query)).take count).map Scored.cid

def routeWithEf (nprobe ef : ℕ) : Except String (List ℕ) :=
  if nprobe = 0 then .error "nprobe must be positive"
  else if query.length ≠ centroids.dimension ∨ !query.all Component.isFinite then
    .error "query must match the centroid dimension and contain finite values"
  else
    let count := min nprobe centroids.rowCount
    if exactScanPreferred count centroids.rowCount then .ok (index.routeExact select query count)
    else .ok (index.search query count (max ef nprobe))

def route (nprobe : ℕ) : Except String (List ℕ) :=
  index.routeWithEf select query nprobe (max index.efSearch (saturatingMul nprobe 2))

end HnswIndex

/-- The exact strategy: the nearest centroids, nearest first. -/
def routeExact (centroids : LvqEncodedBatch) (select : SelectNth) (query : List Component)
    (nprobe : ℕ) : List ℕ :=
  let scored := centroids.scored query
  let nearest := if nprobe < scored.length then (select.run scored nprobe).take nprobe else scored
  (nearest.insertionSort (· ≤ ·)).map Scored.cid

namespace CentroidNavigator

variable (navigator : CentroidNavigator)

def nlist : ℕ := navigator.centroids.rowCount

def validateQuery (query : List Component) (nprobe : ℕ) : Except String Unit :=
  if nprobe = 0 ∨ navigator.nlist < nprobe then
    .error ("nprobe must be between 1 and " ++ toString navigator.nlist)
  else if query.length ≠ navigator.centroids.dimension ∨ !query.all Component.isFinite then
    .error "query must match the centroid dimension and contain finite values"
  else .ok ()

def route (select : SelectNth) (query : List Component) (nprobe : ℕ) : Except String (List ℕ) := do
  navigator.validateQuery query nprobe
  if nprobe = navigator.nlist then .ok (List.range navigator.nlist)
  else match navigator.strategy with
    | .hnsw index => index.route select query nprobe
    | .exact => .ok (routeExact navigator.centroids select query nprobe)

end CentroidNavigator

end ParqDB.Navigation
