import ParqDB.Foundations.Chunks
import ParqDB.Navigation.Routing

/-!
# The scratch of a query search

`SearchScratch` and `MinimaxHeap` of `centroid_navigation/graph.rs` with their buffers, which
are kept from one query to the next.

* A node is visited when its mark is the epoch of the search; the epoch is a `u32` and wraps.
* The buffers of the candidate heap may be longer than the heap: the slots behind its length
  are left over from earlier queries.  The two parallel vectors of the source are one list of
  pairs here; they always have the same length.
* The neighbours of a node are marked one by one, and looked at four at a time.

A search returns none when it is not finished after so many rounds.
-/

namespace ParqDB.Navigation

open Query (Distance)

/-! ## The candidate heap in its buffers -/

/-- `EMPTY_NEIGHBOR` with distance zero. -/
def emptySlot : HeapEntry := ⟨none, ⟨false, 0⟩⟩

def slotAt (slots : List HeapEntry) (position : ℕ) : HeapEntry := slots.getD position emptySlot

def distanceOf (slots : List HeapEntry) (position : ℕ) : ℤ := (slotAt slots position).distance.value

structure HeapBuffer where
  slots : List HeapEntry
  length : ℕ
  valid : ℕ
  capacity : ℕ
deriving DecidableEq

namespace HeapBuffer

def empty : HeapBuffer := ⟨[], 0, 0, 0⟩

/-- The buffers grow, but do not shrink, and are not cleared. -/
def reset (heap : HeapBuffer) (capacity : ℕ) : HeapBuffer where
  slots :=
    if heap.slots.length < capacity then
      heap.slots ++ List.replicate (capacity - heap.slots.length) emptySlot
    else heap.slots
  length := 0
  valid := 0
  capacity := capacity

def trimTo (heap : HeapBuffer) (capacity : ℕ) : HeapBuffer where
  slots := heap.slots.take capacity
  length := 0
  valid := 0
  capacity := capacity

/-- Moves parents down to make room for an entry, and says where the room is. -/
def climb (distance : Distance) : ℕ → List HeapEntry → ℕ → List HeapEntry × ℕ
  | 0, slots, position => (slots, position)
  | fuel + 1, slots, position =>
      let parent := (position - 1) / 2
      if position = 0 ∨ distance.value ≤ distanceOf slots parent then (slots, position)
      else climb distance fuel (slots.set position (slotAt slots parent)) parent

/-- Moves an entry down; only the first `length` slots count. -/
def sink (length : ℕ) : ℕ → List HeapEntry → ℕ → List HeapEntry
  | 0, slots, _ => slots
  | fuel + 1, slots, position =>
      let left := position * 2 + 1
      if length ≤ left then slots
      else
        let right := left + 1
        let child :=
          if right < length ∧ distanceOf slots left < distanceOf slots right then right else left
        if distanceOf slots child ≤ distanceOf slots position then slots
        else
          let swapped := (slots.set position (slotAt slots child)).set child (slotAt slots position)
          sink length fuel swapped child

def dropTop (heap : HeapBuffer) : HeapBuffer :=
  let length := heap.length - 1
  { heap with
    slots :=
      if length = 0 then heap.slots
      else sink length length (heap.slots.set 0 (slotAt heap.slots length)) 0
    length := length
    valid := if (slotAt heap.slots 0).cid?.isSome then heap.valid - 1 else heap.valid }

def place (heap : HeapBuffer) (cid : ℕ) (distance : Distance) : HeapBuffer :=
  let climbed := climb distance (heap.length + 1) heap.slots heap.length
  { heap with
    slots := climbed.1.set climbed.2 ⟨some cid, distance⟩
    length := heap.length + 1
    valid := heap.valid + 1 }

def push (heap : HeapBuffer) (cid : ℕ) (distance : Distance) : HeapBuffer :=
  if heap.length = heap.capacity then
    if distanceOf heap.slots 0 ≤ distance.value then heap else heap.dropTop.place cid distance
  else heap.place cid distance

/-- `find_min_position_scalar`. -/
def findMinPosition (slots : List HeapEntry) : ℕ → Option ℕ × Distance → Option ℕ
  | 0, found => found.1
  | position + 1, found =>
      let entry := slotAt slots position
      findMinPosition slots position
        (if entry.cid?.isSome ∧ entry.distance.value < found.2.value then
          (some position, entry.distance)
        else found)

def popMin (heap : HeapBuffer) : Option (Scored × HeapBuffer) :=
  (findMinPosition heap.slots heap.length (none, Distance.infinity)).bind fun position =>
    let entry := slotAt heap.slots position
    entry.cid?.map fun cid =>
      (⟨cid, entry.distance⟩, { heap with
        slots := heap.slots.set position ⟨none, entry.distance⟩
        valid := heap.valid - 1 })

def countBelow (heap : HeapBuffer) (distance : Distance) : ℕ :=
  (heap.slots.take heap.length).countP fun entry => entry.distance.value < distance.value

end HeapBuffer

/-! ## The scratch -/

structure SearchScratch where
  marks : List ℕ
  epoch : ℕ
  candidates : List Scored
  nearest : List Scored
  ordered : List Scored
  queryCandidates : HeapBuffer
  queryResults : List Scored
deriving DecidableEq

/-- The number of epochs, `2 ^ 32`. -/
def epochCount : ℕ := 2 ^ 32

namespace SearchScratch

def new (size : ℕ) : SearchScratch := ⟨List.replicate size 0, 0, [], [], [], .empty, []⟩

def newForQuery (size candidateCapacity : ℕ) : SearchScratch :=
  { new size with queryCandidates := HeapBuffer.empty.reset candidateCapacity }

def trimForQueryPool (scratch : SearchScratch) (candidateCapacity : ℕ) : SearchScratch :=
  { scratch with
    ordered := []
    queryCandidates := scratch.queryCandidates.trimTo candidateCapacity
    queryResults := [] }

/-- Starts a new epoch; the marks are cleared only when the epochs start again. -/
def reset (scratch : SearchScratch) : SearchScratch :=
  let epoch := (scratch.epoch + 1) % epochCount
  let cleared := { scratch with candidates := [], nearest := [], ordered := [] }
  if epoch = 0 then { cleared with marks := scratch.marks.map fun _ => 0, epoch := 1 }
  else { cleared with epoch := epoch }

def resetQuery (scratch : SearchScratch) (ef : ℕ) : SearchScratch :=
  let scratch := scratch.reset
  { scratch with queryCandidates := scratch.queryCandidates.reset ef, queryResults := [] }

/-- Marks a node; false when it was marked already. -/
def visit (scratch : SearchScratch) (cid : ℕ) : Bool × SearchScratch :=
  if scratch.marks[cid]? = some scratch.epoch then (false, scratch)
  else (true, { scratch with marks := scratch.marks.set cid scratch.epoch })

/-- `consider_query_candidate`. -/
def consider (resultCount : ℕ) (scratch : SearchScratch) (scored : Scored) : SearchScratch :=
  { scratch with
    queryResults :=
      if scratch.queryResults.length < resultCount ∨
          ∃ worst ∈ scratch.queryResults.getLast?, scored < worst then
        let results := scratch.queryResults.orderedInsert (· ≤ ·) scored
        if resultCount < results.length then results.dropLast else results
      else scratch.queryResults
    queryCandidates := scratch.queryCandidates.push scored.cid scored.distance }

section

variable (adjacent : ℕ → List ℕ) (distance : ℕ → Distance) (resultCount ef : ℕ)

/-- Looks at buffered nodes in their order; their distances do not depend on each other. -/
def considerAll (scratch : SearchScratch) (buffered : List ℕ) : SearchScratch :=
  buffered.foldl (fun scratch cid => scratch.consider resultCount ⟨cid, distance cid⟩) scratch

/-- Marks and buffers one neighbour, and looks at four of them. -/
def bufferNeighbor (state : SearchScratch × List ℕ) (candidate : ℕ) : SearchScratch × List ℕ :=
  match state.1.visit candidate with
  | (false, scratch) => (scratch, state.2)
  | (true, scratch) =>
      let buffered := state.2 ++ [candidate]
      if buffered.length = 4 then (considerAll distance resultCount scratch buffered, [])
      else (scratch, buffered)

/-- Looks at all neighbours of a node. -/
def expand (scratch : SearchScratch) (neighbors : List ℕ) : SearchScratch :=
  let last := neighbors.foldl (bufferNeighbor distance resultCount) (scratch, [])
  considerAll distance resultCount last.1 last.2

/-- The main loop; none when it is not finished after so many rounds. -/
def searchRounds : ℕ → SearchScratch → Option SearchScratch
  | 0, scratch => if scratch.queryCandidates.valid = 0 then some scratch else none
  | rounds + 1, scratch =>
      if scratch.queryCandidates.valid = 0 then some scratch
      else
        match scratch.queryCandidates.popMin with
        | none => some scratch
        | some (current, candidates) =>
            let popped := { scratch with queryCandidates := candidates }
            if ef ≤ candidates.countBelow current.distance then some popped
            else searchRounds rounds (expand distance resultCount popped (adjacent current.cid))

/-- The entry is visited, and is the first candidate and the first result. -/
def start (scratch : SearchScratch) (entry : ℕ) : SearchScratch :=
  let scratch := ((scratch.resetQuery ef).visit entry).2
  { scratch with
    queryCandidates := scratch.queryCandidates.push entry (distance entry)
    queryResults := scratch.queryResults.orderedInsert (· ≤ ·) ⟨entry, distance entry⟩ }

/-- `search_layer_query`: the results, and the scratch that is left. -/
def searchLayerQuery (rounds : ℕ) (scratch : SearchScratch) (entry : ℕ) :
    Option (List Scored × SearchScratch) :=
  (searchRounds adjacent distance resultCount ef rounds (start distance ef scratch entry)).map
    fun last =>
      let ordered := (last.ordered ++ last.queryResults).insertionSort (· ≤ ·)
      (ordered, { last with ordered := ordered })

end

end SearchScratch

/-!
## The pool of query scratches

`HnswNavigator` with its pool of scratches, and the routes of `HnswIndex` in a scratch
(`centroid_navigation/mod.rs`).

* A call takes the scratch that was returned last, or makes a new one when the pool is empty.
* A returned scratch is trimmed, and is discarded when it is too large or the pool is full.  Its
  size depends on the capacities that its vectors happen to have, so `oversized` is an input.
* A search is given as many rounds as there are centroids; it is none if it does not end.
-/

open Foundations

/-! ## Routes in a scratch -/

namespace HnswIndex

variable {centroids : LvqEncodedBatch} (index : HnswIndex centroids) (select : SelectNth)

/-- `HnswIndex::scratch`. -/
def scratch : SearchScratch :=
  .newForQuery centroids.rowCount (saturatingMul index.efSearch 2)

/-- `Graph::search_append`: what is appended, and the scratch that is left. -/
def searchAppend (query : List Component) (count ef : ℕ) (scratch : SearchScratch) :
    Option (List ℕ × SearchScratch) :=
  (scratch.searchLayerQuery (index.adjacent 0) (centroids.squaredL2 query) count ef
    centroids.rowCount (index.entryFor query)).map fun (results, left) =>
      ((results.take count).map Scored.cid, left)

def routeWithEfIn (query : List Component) (nprobe ef : ℕ) (scratch : SearchScratch) :
    Option (Except String (List ℕ) × SearchScratch) :=
  if nprobe = 0 then some (.error "nprobe must be positive", scratch)
  else if query.length ≠ centroids.dimension ∨ !query.all Component.isFinite then
    some (.error "query must match the centroid dimension and contain finite values", scratch)
  else
    let count := min nprobe centroids.rowCount
    if exactScanPreferred count centroids.rowCount then
      some (.ok (index.routeExact select query count), scratch)
    else
      (index.searchAppend query count (max ef nprobe) scratch).map fun (output, left) =>
        (.ok output, left)

def routeIn (query : List Component) (nprobe : ℕ) (scratch : SearchScratch) :
    Option (Except String (List ℕ) × SearchScratch) :=
  index.routeWithEfIn select query nprobe (max index.efSearch (saturatingMul nprobe 2)) scratch

/-- The searches of a batch, one after the other in one scratch. -/
def searchRows (count ef : ℕ) : List (List Component) → SearchScratch →
    Option (List ℕ × SearchScratch)
  | [], scratch => some ([], scratch)
  | query :: rows, scratch =>
      (index.searchAppend query count ef scratch).bind fun (output, left) =>
        (searchRows count ef rows left).map fun (more, last) => (output ++ more, last)

def routeBatchIn (queries : List Component) (nprobe : ℕ) (scratch : SearchScratch) :
    Option (Except String (List ℕ) × SearchScratch) :=
  if nprobe = 0 then some (.error "nprobe must be positive", scratch)
  else if queries.length % centroids.dimension ≠ 0 then
    some (.error "query matrix does not match the centroid dimension", scratch)
  else if queries.any fun value => !value.isFinite then
    some (.error "query matrix must contain only finite values", scratch)
  else
    let rows := chunks centroids.dimension queries
    let count := min nprobe centroids.rowCount
    if exactScanPreferred count centroids.rowCount then
      some (.ok (rows.flatMap fun query => index.routeExact select query count), scratch)
    else
      (index.searchRows count (max index.efSearch (saturatingMul nprobe 2)) rows scratch).map
        fun (output, left) => (.ok output, left)

end HnswIndex

/-! ## The pool -/

structure HnswNavigator (centroids : LvqEncodedBatch) where
  index : HnswIndex centroids
  /-- The scratch that was returned last is the last one. -/
  scratches : List SearchScratch
  scratchCapacity : ℕ

namespace HnswNavigator

variable {centroids : LvqEncodedBatch} (navigator : HnswNavigator centroids)

def fromIndex (index : HnswIndex centroids) (threadCount : ℕ) : HnswNavigator centroids where
  index := index
  scratches := List.replicate (max threadCount 1) index.scratch
  scratchCapacity := max threadCount 1

def takeScratch : SearchScratch × HnswNavigator centroids :=
  (navigator.scratches.getLast?.getD navigator.index.scratch,
    { navigator with scratches := navigator.scratches.dropLast })

def returnScratch (scratch : SearchScratch) (oversized : Bool) : HnswNavigator centroids :=
  let trimmed := scratch.trimForQueryPool (saturatingMul navigator.index.efSearch 2)
  if oversized then navigator
  else if navigator.scratches.length < navigator.scratchCapacity then
    { navigator with scratches := navigator.scratches ++ [trimmed] }
  else navigator

/-- A call: it works in a scratch of the pool and returns it. -/
def withScratch {α : Type} (work : SearchScratch → Option (α × SearchScratch))
    (oversized : Bool) : Option (α × HnswNavigator centroids) :=
  let (scratch, rest) := navigator.takeScratch
  (work scratch).map fun (result, left) => (result, rest.returnScratch left oversized)

def route (select : SelectNth) (query : List Component) (nprobe : ℕ) (oversized : Bool) :
    Option (Except String (List ℕ) × HnswNavigator centroids) :=
  navigator.withScratch (navigator.index.routeIn select query nprobe) oversized

def routeBatch (select : SelectNth) (queries : List Component) (nprobe : ℕ) (oversized : Bool) :
    Option (Except String (List ℕ) × HnswNavigator centroids) :=
  navigator.withScratch (navigator.index.routeBatchIn select queries nprobe) oversized

/-- The pools of an index, and the scratches that calls are working in, when calls overlap. -/
inductive Reached : HnswNavigator centroids → List SearchScratch → Prop
  | fromIndex (index : HnswIndex centroids) (threadCount : ℕ) :
      Reached (fromIndex index threadCount) []
  | takeScratch {navigator : HnswNavigator centroids} {taken : List SearchScratch}
      (hreached : Reached navigator taken) :
      Reached navigator.takeScratch.2 (navigator.takeScratch.1 :: taken)
  | route {navigator : HnswNavigator centroids} {taken rest : List SearchScratch}
      {scratch left : SearchScratch} {select : SelectNth} {query : List Component} {nprobe : ℕ}
      {result : Except String (List ℕ)} (hreached : Reached navigator taken)
      (htaken : taken.Perm (scratch :: rest))
      (hroute : navigator.index.routeIn select query nprobe scratch = some (result, left))
      (oversized : Bool) :
      Reached (navigator.returnScratch left oversized) rest
  | routeBatch {navigator : HnswNavigator centroids} {taken rest : List SearchScratch}
      {scratch left : SearchScratch} {select : SelectNth} {queries : List Component} {nprobe : ℕ}
      {result : Except String (List ℕ)} (hreached : Reached navigator taken)
      (htaken : taken.Perm (scratch :: rest))
      (hroute : navigator.index.routeBatchIn select queries nprobe scratch = some (result, left))
      (oversized : Bool) :
      Reached (navigator.returnScratch left oversized) rest

end HnswNavigator

/-! ## Navigators with a pool -/

/-- The routes of the rows of a batch, one after the other. -/
def CentroidNavigator.routeRows (navigator : CentroidNavigator) (select : SelectNth)
    (nprobe : ℕ) : List (List Component) → Except String (List ℕ)
  | [] => .ok []
  | query :: rows => do
      let output ← navigator.route select query nprobe
      let more ← navigator.routeRows select nprobe rows
      .ok (output ++ more)

/-- `NavigatorStrategy`, with the pool. -/
inductive PooledStrategy (centroids : LvqEncodedBatch)
  | exact
  | hnsw (navigator : HnswNavigator centroids)

/-- `CentroidNavigator`, with the pool. -/
structure PooledNavigator where
  centroids : LvqEncodedBatch
  /-- `new_with_policy` rejects a dimension of zero. -/
  dimension_pos : 0 < centroids.dimension
  /-- The number of rows is a `usize`. -/
  rowCount_lt : centroids.rowCount < 2 ^ 64
  strategy : PooledStrategy centroids

/-- A call of a navigator. -/
inductive RouteCall
  | route (query : List Component) (nprobe : ℕ)
  | routeBatch (queries : List Component) (nprobe : ℕ)

namespace PooledNavigator

variable (navigator : PooledNavigator) (select : SelectNth)

def nlist : ℕ := navigator.centroids.rowCount

/-- The navigator without its scratches; its next call makes a new one. -/
def emptied : PooledNavigator :=
  { navigator with
    strategy := match navigator.strategy with
      | .exact => .exact
      | .hnsw hnsw => .hnsw { hnsw with scratches := [] } }

/-- The navigator as the earlier description has it, without scratches. -/
def plain : CentroidNavigator where
  centroids := navigator.centroids
  strategy := match navigator.strategy with
    | .exact => .exact
    | .hnsw hnsw => .hnsw hnsw.index

/-- The pool is one that calls leave, also while further calls are going on. -/
def Reached : Prop :=
  match navigator.strategy with
  | .exact => True
  | .hnsw hnsw => ∃ taken, hnsw.Reached taken

def withHnsw (hnsw : HnswNavigator navigator.centroids) : PooledNavigator :=
  { navigator with strategy := .hnsw hnsw }

def route (query : List Component) (nprobe : ℕ) (oversized : Bool) :
    Option (Except String (List ℕ) × PooledNavigator) :=
  match navigator.plain.validateQuery query nprobe with
  | .error error => some (.error error, navigator)
  | .ok () =>
      if nprobe = navigator.nlist then some (.ok (List.range navigator.nlist), navigator)
      else match navigator.strategy with
        | .hnsw hnsw =>
            (hnsw.route select query nprobe oversized).map fun (result, later) =>
              (result, navigator.withHnsw later)
        | .exact => some (.ok (routeExact navigator.centroids select query nprobe), navigator)

def routeBatch (queries : List Component) (nprobe : ℕ) (oversized : Bool) :
    Option (Except String (List ℕ) × PooledNavigator) :=
  if nprobe = 0 ∨ navigator.nlist < nprobe then
    some (.error ("nprobe must be between 1 and " ++ toString navigator.nlist), navigator)
  else if queries.length % navigator.centroids.dimension ≠ 0 then
    some (.error "query matrix does not match the centroid dimension", navigator)
  else if queries.any fun value => !value.isFinite then
    some (.error "query matrix must contain only finite values", navigator)
  else if nprobe = navigator.nlist then
    let rows := queries.length / navigator.centroids.dimension
    some (.ok ((List.range rows).flatMap fun _ => List.range navigator.nlist), navigator)
  else match navigator.strategy with
    | .hnsw hnsw =>
        (hnsw.routeBatch select queries nprobe oversized).map fun (result, later) =>
          (result, navigator.withHnsw later)
    | .exact =>
        some (navigator.plain.routeRows select nprobe
          (chunks navigator.centroids.dimension queries), navigator)

/-- One call; `oversized` says whether the scratch it returns is too large for the pool. -/
def call (request : RouteCall) (oversized : Bool) :
    Option (Except String (List ℕ) × PooledNavigator) :=
  match request with
  | .route query nprobe => navigator.route select query nprobe oversized
  | .routeBatch queries nprobe => navigator.routeBatch select queries nprobe oversized

/-- Calls one after the other. -/
def run : List (RouteCall × Bool) → PooledNavigator → Option PooledNavigator
  | [], navigator => some navigator
  | (request, oversized) :: calls, navigator =>
      (navigator.call select request oversized).bind fun (_, later) => run calls later

/-- What a call returns. -/
def answer (request : RouteCall) (oversized : Bool) : Option (Except String (List ℕ)) :=
  (navigator.call select request oversized).map Prod.fst

end PooledNavigator

end ParqDB.Navigation
