import Mathlib.Data.Prod.Lex
import Mathlib.Order.Lattice
import ParqDB.Query.Selector

/-!
# The centroid graph

`centroid_navigation/graph.rs`: the flat storage of the neighbour lists, the searches over
one layer and the choice of neighbours.

**Distances.**  A squared distance between two finite vectors is an `f32` that is not NaN
but may be infinite, a `Query.Distance`.  `between` gives the distances of pairs of
centroids; it stands for the distance kernels and is arbitrary.

**Heaps.**  The binary heaps of a layer search are kept as lists from the least to the
greatest item; the order of scored centroids is total, so that is all a heap shows.
-/

namespace ParqDB.Navigation

open Query (Distance)

/-! ## Scored centroids -/

/-- A centroid and its distance. -/
structure Scored where
  cid : ℕ
  distance : Distance
deriving DecidableEq

namespace Scored

/-- What `Scored::cmp` compares: the distance by `total_cmp`, then the centroid. -/
def key (scored : Scored) : ℤ ×ₗ ℕ := toLex (scored.distance.totalKey, scored.cid)

theorem key_injective : Function.Injective key := by
  rintro ⟨leftCid, leftSign, leftMagnitude⟩ ⟨rightCid, rightSign, rightMagnitude⟩ hkey
  have hpair := toLex.injective hkey
  rw [Prod.mk.injEq] at hpair
  obtain ⟨hdistance, hcid⟩ := hpair
  dsimp only at hdistance hcid
  unfold Distance.totalKey at hdistance
  dsimp only at hdistance
  subst hcid
  cases leftSign <;> cases rightSign <;> simp only [Bool.false_eq_true, if_false, if_true] at hdistance
  · obtain rfl : leftMagnitude = rightMagnitude := by omega
    rfl
  · omega
  · omega
  · obtain rfl : leftMagnitude = rightMagnitude := by omega
    rfl

instance : LinearOrder Scored := LinearOrder.lift' key key_injective

end Scored

/-! ## Storage -/

/-- The slots of a node of some level: its layer 0 has twice the capacity of the others. -/
def slotCount (m level : ℕ) : ℕ := m * (level + 2)

/-- Where the slots of each node begin, and where the last ones end. -/
def graphOffsets (m : ℕ) (levels : List ℕ) : List ℕ :=
  levels.scanl (fun offset level => offset + slotCount m level) 0

def layerCapacity (m layer : ℕ) : ℕ := if layer = 0 then m * 2 else m

/-- The first slot of a list, and its capacity. -/
def neighborRange (offsets : List ℕ) (m cid layer : ℕ) : ℕ × ℕ :=
  (offsets.getD cid 0 + if layer = 0 then 0 else m * (layer + 1), layerCapacity m layer)

/-- Where the lists of a graph are stored. -/
structure Layout where
  m : ℕ
  levels : List ℕ

namespace Layout

def count (layout : Layout) : ℕ := layout.levels.length

def level (layout : Layout) (cid : ℕ) : ℕ := layout.levels.getD cid 0

def offsets (layout : Layout) : List ℕ := graphOffsets layout.m layout.levels

def range (layout : Layout) (cid layer : ℕ) : ℕ × ℕ :=
  neighborRange layout.offsets layout.m cid layer

end Layout

/-- The slots of all lists; an empty slot holds no centroid. -/
abbrev Slots := ℕ → Option ℕ

/-- The items up to the first that is absent (`map_while`). -/
def presentPart {α : Type} : List (Option α) → List α
  | some item :: rest => item :: presentPart rest
  | _ => []

/-- The list of a node at a layer, up to its first empty slot. -/
def neighborsAt (layout : Layout) (slots : Slots) (cid layer : ℕ) : List ℕ :=
  let range := layout.range cid layer
  presentPart ((List.range range.2).map fun position => slots (range.1 + position))

/-- Overwrites the whole list of a node at a layer. -/
def writeNeighbors (layout : Layout) (slots : Slots) (cid layer : ℕ) (neighbors : List ℕ) :
    Slots :=
  let range := layout.range cid layer
  fun slot =>
    if range.1 ≤ slot ∧ slot < range.1 + range.2 then neighbors[slot - range.1]? else slots slot

/-! ## Searching one layer -/

section

variable (adjacent : ℕ → List ℕ) (distance : ℕ → Distance)

/-- One pass of the greedy search over the list of the current node. -/
def greedyPass (neighbors : List ℕ) (current : Scored) : Scored :=
  neighbors.foldl (fun best candidate =>
    if (distance candidate).value < best.distance.value then ⟨candidate, distance candidate⟩
    else best) current

/-- Moves to nearer neighbours until there are none. -/
def greedyLoop : ℕ → Scored → ℕ
  | 0, current => current.cid
  | fuel + 1, current =>
      let next := greedyPass distance (adjacent current.cid) current
      -- an update strictly lowers the distance, so `changed` is `next ≠ current`
      if next = current then current.cid else greedyLoop fuel next

/-- `greedy_search`; each pass lowers the distance, so one pass per node is enough. -/
def greedySearch (count current : ℕ) : ℕ :=
  greedyLoop adjacent distance count ⟨current, distance current⟩

/-- What a layer search keeps. -/
structure LayerScratch where
  visited : List ℕ
  /-- Centroids to expand, nearest first. -/
  candidates : List Scored
  /-- The nearest centroids so far, nearest first. -/
  nearest : List Scored

/-- Looks at one neighbour. -/
def considerNeighbor (ef : ℕ) (scratch : LayerScratch) (candidate : ℕ) : LayerScratch :=
  if candidate ∈ scratch.visited then scratch
  else
    let scored : Scored := ⟨candidate, distance candidate⟩
    let scratch := { scratch with visited := candidate :: scratch.visited }
    if scratch.nearest.length < ef ∨ ∃ worst ∈ scratch.nearest.getLast?, scored < worst then
      let nearest := scratch.nearest.orderedInsert (· ≤ ·) scored
      { scratch with
        candidates := scratch.candidates.orderedInsert (· ≤ ·) scored
        nearest := if ef < nearest.length then nearest.dropLast else nearest }
    else scratch

/-- The main loop of a layer search. -/
def searchLoop (ef : ℕ) : ℕ → LayerScratch → LayerScratch
  | 0, scratch => scratch
  | fuel + 1, scratch =>
      match scratch.candidates with
      | [] => scratch
      | current :: rest =>
          if ef ≤ scratch.nearest.length ∧
              ∃ worst ∈ scratch.nearest.getLast?, worst.distance.value < current.distance.value then
            scratch
          else
            searchLoop ef fuel ((adjacent current.cid).foldl (considerNeighbor distance ef)
              { scratch with candidates := rest })

/-- `search_layer`: the `ef` nearest centroids that the search has met, nearest first.
Every round expands a centroid that was not expanded before. -/
def searchLayer (count entry ef : ℕ) : List Scored :=
  let first : Scored := ⟨entry, distance entry⟩
  (searchLoop adjacent distance ef count ⟨[entry], [first], [first]⟩).nearest

end

/-! ## Choosing neighbours -/

/-- Keeps the candidates that are not nearer to a kept one than to the node itself. -/
def diversifyLoop (between : ℕ → ℕ → Distance) (capacity : ℕ) : List ℕ → List Scored → List ℕ
  | selected, [] => selected
  | selected, candidate :: rest =>
      if selected.any fun neighbor =>
          decide ((between neighbor candidate.cid).value < candidate.distance.value) then
        diversifyLoop between capacity selected rest
      else
        let selected := selected ++ [candidate.cid]
        if selected.length = capacity then selected
        else diversifyLoop between capacity selected rest

def diversifiedNeighbors (between : ℕ → ℕ → Distance) (candidates : List Scored) (capacity : ℕ) :
    List ℕ :=
  diversifyLoop between capacity [] candidates

/-- The list of a node with one more neighbour, cut by `diversified_neighbors` when it is
too long. -/
def withReciprocal (between : ℕ → ℕ → Distance) (capacity owner : ℕ) (neighbors : List ℕ)
    (neighbor : ℕ) : List ℕ :=
  if neighbor ∈ neighbors then neighbors
  else
    let longer := neighbors ++ [neighbor]
    if capacity < longer.length then
      let scored := longer.map fun cid => (⟨cid, between owner cid⟩ : Scored)
      diversifiedNeighbors between (scored.insertionSort (· ≤ ·)) capacity
    else longer

/-! ## Random levels and orders -/

/-- The state of an xorshift generator. -/
structure SmallRng where
  state : BitVec 64
deriving DecidableEq

namespace SmallRng

def new (seed : BitVec 64) : SmallRng := ⟨if seed = 0 then 1 else seed⟩

def next (rng : SmallRng) : BitVec 64 × SmallRng :=
  let value := rng.state
  let value := value ^^^ (value <<< 13)
  let value := value ^^^ (value >>> 7)
  let value := value ^^^ (value <<< 17)
  (value, ⟨value⟩)

def maxLevel : ℕ := 16

/-- Draws a level: one more for each multiple of `m`, at most `MAX_LEVEL`. -/
def levelLoop (m : ℕ) : ℕ → SmallRng → ℕ × SmallRng
  | 0, rng => (0, rng)
  | budget + 1, rng =>
      let drawn := rng.next
      if drawn.1.toNat % m = 0 then
        let rest := levelLoop m budget drawn.2
        (rest.1 + 1, rest.2)
      else (0, drawn.2)

def level (rng : SmallRng) (m : ℕ) : ℕ × SmallRng := levelLoop m maxLevel rng

/-- The levels of `count` nodes. -/
def levels (m : ℕ) : ℕ → SmallRng → List ℕ
  | 0, _ => []
  | count + 1, rng =>
      let drawn := rng.level m
      drawn.1 :: levels m count drawn.2

/-- Moves a random one of the remaining values to the front, again and again. -/
def shuffle : ℕ → List ℕ → SmallRng → List ℕ × SmallRng
  | 0, values, rng => (values, rng)
  | _ + 1, [], rng => ([], rng)
  | _ + 1, [value], rng => ([value], rng)
  | fuel + 1, first :: second :: rest, rng =>
      let drawn := rng.next
      let offset := drawn.1.toNat % (first :: second :: rest).length
      -- `values.swap(index, index + offset)`
      let chosen := (first :: second :: rest).getD offset first
      let others := (second :: rest).set (offset - 1) first
      let tail := if offset = 0 then second :: rest else others
      let shuffled := shuffle fuel tail drawn.2
      (chosen :: shuffled.1, shuffled.2)

end SmallRng

/-!
## Building the graph with several workers

`ConcurrentGraph::build` and `insert` (`centroid_navigation/graph.rs`) as a machine.  The
nodes of one level form a bucket; the workers of a bucket take nodes from it one by one
and insert them, and the next bucket starts when all workers have finished.

**Steps.**  Taking a node, reading or writing the entry point, searching one layer and
each of the two lock-protected list updates is one step of one worker.  A run is a
sequence of `Move`s in any order.  The machine also records what the workers chose and
what `diversified_neighbors` cut from a full list; the code does not keep this history.

**Levels and orders** come from a seeded generator in the code.  A `Plan` leaves both
open, so its runs include those of every seed; `Plan.ofSeed` is the plan of one seed.
-/

/-! ## Plans -/

namespace Layout

variable (layout : Layout)

def maxLevel : ℕ := layout.levels.foldl max 0

/-- The first node of the highest level. -/
def entryCid : ℕ := layout.levels.idxOf layout.maxLevel

/-- The nodes of a level that are inserted. -/
def bucket (level : ℕ) : List ℕ :=
  (List.range layout.count).filter fun cid => layout.level cid = level ∧ cid ≠ layout.entryCid

end Layout

/-- What a construction is run with, as the constructor admits it. -/
structure Plan where
  layout : Layout
  efConstruction : ℕ
  threads : ℕ
  between : ℕ → ℕ → Distance
  two_le_m : 2 ≤ layout.m
  m_le_ef : layout.m ≤ efConstruction
  nonempty : layout.levels ≠ []
  /-- The nodes of each level in the order in which workers take them. -/
  order : ℕ → List ℕ
  order_perm : ∀ level, (order level).Perm (layout.bucket level)

/-! ## Inserting a node -/

structure EntryPoint where
  cid : ℕ
  level : ℕ
deriving DecidableEq

/-- What the workers share. -/
structure Shared where
  slots : Slots
  entry : EntryPoint

/-- Where a worker stands in `insert`. -/
inductive Task
  /-- Before reading the entry point. -/
  | enter
  /-- Before the greedy search of a layer above the node. -/
  | descend (entry : EntryPoint) (current layer : ℕ)
  /-- Before the search of a layer of the node. -/
  | search (entry : EntryPoint) (current layer : ℕ)
  /-- Before `replace_neighbors`. -/
  | replace (entry : EntryPoint) (current layer : ℕ) (selected : List ℕ)
  /-- Before `add_reciprocal_neighbor` at each of the given nodes. -/
  | link (entry : EntryPoint) (current layer : ℕ) (owners : List ℕ)
  /-- Before the update of the entry point. -/
  | publish (entry : EntryPoint)
deriving DecidableEq

/-- What happened to a list. -/
inductive Event
  /-- A node selected its neighbours at a layer. -/
  | chose (cid layer : ℕ) (selected : List ℕ)
  /-- A full list lost a node to `diversified_neighbors`. -/
  | rejected (owner layer neighbor : ℕ)
deriving DecidableEq

section

variable (plan : Plan)

/-- The lists of a layer. -/
def Shared.adjacent (layout : Layout) (shared : Shared) (layer cid : ℕ) : List ℕ :=
  neighborsAt layout shared.slots cid layer

def Shared.replaceNeighbors (layout : Layout) (shared : Shared) (owner layer : ℕ)
    (neighbors : List ℕ) : Shared :=
  { shared with slots := writeNeighbors layout shared.slots owner layer neighbors }

/-- The list of a node once it has been linked to another. -/
def Shared.linked (shared : Shared) (owner layer neighbor : ℕ) : List ℕ :=
  withReciprocal plan.between (layerCapacity plan.layout.m layer) owner
    (shared.adjacent plan.layout layer owner) neighbor

def Shared.addReciprocalNeighbor (shared : Shared) (owner layer neighbor : ℕ) : Shared :=
  if neighbor ∈ shared.adjacent plan.layout layer owner then shared
  else shared.replaceNeighbors plan.layout owner layer (shared.linked plan owner layer neighbor)

/-- The nodes that `diversified_neighbors` rejects when a full list is linked to one more. -/
def Shared.cutBy (shared : Shared) (owner layer neighbor : ℕ) : List ℕ :=
  let neighbors := shared.adjacent plan.layout layer owner
  if neighbor ∉ neighbors ∧ neighbors.length = layerCapacity plan.layout.m layer then
    (neighbors ++ [neighbor]).filter fun cid => cid ∉ shared.linked plan owner layer neighbor
  else []

/-- The neighbours that a node selects at a layer. -/
def Shared.select (shared : Shared) (cid current layer : ℕ) : List ℕ :=
  diversifiedNeighbors plan.between
    (searchLayer (shared.adjacent plan.layout layer) (plan.between cid) plan.layout.count current
      plan.efConstruction)
    (layerCapacity plan.layout.m layer)

/-- What one step of `insert` leaves behind: no task when the node has been inserted. -/
structure Performed where
  shared : Shared
  events : List Event
  task? : Option Task

/-- One step of inserting a node of some level. -/
def Task.perform (shared : Shared) (level cid : ℕ) : Task → Performed
  | .enter =>
      let entry := shared.entry
      ⟨shared, [], some (if level < entry.level then .descend entry entry.cid entry.level
        else .search entry entry.cid (min level entry.level))⟩
  | .descend entry current layer =>
      let current := greedySearch (shared.adjacent plan.layout layer) (plan.between cid)
        plan.layout.count current
      ⟨shared, [], some (if level + 1 < layer then .descend entry current (layer - 1)
        else .search entry current (min level entry.level))⟩
  | .search entry current layer =>
      let selected := shared.select plan cid current layer
      ⟨shared, [], some (.replace entry (selected.headD current) layer selected)⟩
  | .replace entry current layer selected =>
      ⟨shared.replaceNeighbors plan.layout cid layer selected, [.chose cid layer selected],
        some (.link entry current layer selected)⟩
  | .link entry current layer (owner :: owners) =>
      ⟨shared.addReciprocalNeighbor plan owner layer cid,
        (shared.cutBy plan owner layer cid).map (.rejected owner layer ·),
        some (.link entry current layer owners)⟩
  | .link entry current layer [] =>
      ⟨shared, [], some (if layer = 0 then .publish entry
        else .search entry current (layer - 1))⟩
  | .publish entry =>
      let shared := if entry.level < level ∧ shared.entry.level < level then
          { shared with entry := ⟨cid, level⟩ }
        else shared
      ⟨shared, [], none⟩

end

/-! ## Workers -/

inductive Worker
  /-- About to take a node from the bucket. -/
  | taking
  | inserting (cid : ℕ) (task : Task)
  | finished
deriving DecidableEq

/-- A construction under way. -/
structure Building where
  shared : Shared
  level : ℕ
  bucket : List ℕ
  /-- The position of the next node to take. -/
  next : ℕ
  workers : List Worker
  /-- The levels still to come, the highest first. -/
  levels : List ℕ
  /-- What has happened, the latest first. -/
  events : List Event

/-- A step of one worker, or the start of the next bucket. -/
inductive Move
  | work (index : ℕ)
  | nextLevel
deriving DecidableEq

namespace Building

variable (plan : Plan)

def initial : Building where
  shared := ⟨fun _ => none, ⟨plan.layout.entryCid, plan.layout.maxLevel⟩⟩
  level := 0
  bucket := []
  next := 0
  workers := []
  levels := (List.range (plan.layout.maxLevel + 1)).reverse
  events := []

/-- One step of a worker. -/
def workStep (building : Building) (index : ℕ) : Worker → Option Building
  | .taking =>
      some { building with
        next := building.next + 1
        workers := building.workers.set index (match building.bucket[building.next]? with
          | some cid => .inserting cid .enter
          | none => .finished) }
  | .inserting cid task =>
      let performed := task.perform plan building.shared building.level cid
      some { building with
        shared := performed.shared
        workers := building.workers.set index (match performed.task? with
          | some task => .inserting cid task
          | none => .taking)
        events := performed.events ++ building.events }
  | .finished => none

/-- All workers of the current bucket have finished. -/
def Idle (building : Building) : Prop := ∀ worker ∈ building.workers, worker = .finished

instance (building : Building) : Decidable building.Idle :=
  inferInstanceAs (Decidable (∀ worker ∈ _, _))

def move (building : Building) : Move → Option Building
  | .work index => building.workers[index]?.bind (building.workStep plan index)
  | .nextLevel =>
      if building.Idle then
        match building.levels with
        | [] => none
        | level :: levels =>
            let bucket := plan.order level
            some { building with
              level := level
              bucket := bucket
              next := 0
              -- an empty bucket is passed over
              workers := List.replicate (if bucket.isEmpty then 0
                else max (min plan.threads bucket.length) 1) .taking
              levels := levels }
      else none

/-- The construction has returned. -/
def Finished (building : Building) : Prop := building.Idle ∧ building.levels = []

instance (building : Building) : Decidable building.Finished :=
  inferInstanceAs (Decidable (_ ∧ _))

/-- The transitions of a construction. -/
def Steps (before : Building) (move : Move) (after : Building) : Prop :=
  before.move plan move = some after

/-- The moves lead from the start of a construction to some state. -/
def Reaches (moves : List Move) (building : Building) : Prop :=
  Foundations.Run (Steps plan) (initial plan) moves building

end Building

/-! ## The plan of a seed -/

namespace SmallRng

/-- Swapping the first item with a later one permutes. -/
theorem swapFirst_perm {first : ℕ} {rest : List ℕ} {position : ℕ}
    (hposition : position < rest.length) :
    (rest.getD position first :: rest.set position first).Perm (first :: rest) := by
  induction rest generalizing position with
  | nil => cases hposition
  | cons head rest ih =>
      cases position with
      | zero => exact List.Perm.swap _ _ _
      | succ position =>
          have hinner := ih (Nat.lt_of_succ_lt_succ hposition)
          calc (head :: rest).getD (position + 1) first :: (head :: rest).set (position + 1) first
              = rest.getD position first :: head :: rest.set position first := by simp
            _ |>.Perm (head :: rest.getD position first :: rest.set position first) :=
                List.Perm.swap _ _ _
            _ |>.Perm (head :: first :: rest) := hinner.cons head
            _ |>.Perm (first :: head :: rest) := List.Perm.swap _ _ _

theorem shuffle_perm (fuel : ℕ) (values : List ℕ) (rng : SmallRng) :
    (shuffle fuel values rng).1.Perm values := by
  induction fuel generalizing values rng with
  | zero => exact List.Perm.refl _
  | succ fuel ih =>
      match values with
      | [] => exact List.Perm.refl _
      | [value] => exact List.Perm.refl _
      | first :: second :: rest =>
          simp only [shuffle]
          split
          · next hoffset =>
              rw [hoffset]
              exact (ih _ _).cons first
          · next hoffset =>
              have hbound : (rng.next).1.toNat % (first :: second :: rest).length <
                  (first :: second :: rest).length := Nat.mod_lt _ (by simp)
              generalize (rng.next).1.toNat % (first :: second :: rest).length = offset at *
              obtain ⟨position, rfl⟩ := Nat.exists_eq_succ_of_ne_zero hoffset
              have hposition : position < (second :: rest).length := by
                simpa using hbound
              exact ((ih _ _).cons _).trans (swapFirst_perm hposition)

/-- The orders of the levels below `levels`, the highest drawn first. -/
def orders (layout : Layout) : ℕ → SmallRng → ℕ → List ℕ
  | 0, _ => layout.bucket
  | levels + 1, rng =>
      let bucket := layout.bucket levels
      let shuffled := SmallRng.shuffle bucket.length bucket rng
      fun level => if level = levels then shuffled.1 else orders layout levels shuffled.2 level

end SmallRng

theorem orders_perm (layout : Layout) (levels : ℕ) (rng : SmallRng) (level : ℕ) :
    (SmallRng.orders layout levels rng level).Perm (layout.bucket level) := by
  induction levels generalizing rng with
  | zero => exact List.Perm.refl _
  | succ levels ih =>
      simp only [SmallRng.orders]
      split
      · next hlevel =>
          subst hlevel
          exact SmallRng.shuffle_perm _ _ _
      · exact ih _

theorem SmallRng.levels_ne_nil {m count : ℕ} (hcount : 0 < count) (rng : SmallRng) :
    SmallRng.levels m count rng ≠ [] := by
  cases count with
  | zero => exact absurd hcount (Nat.lt_irrefl 0)
  | succ count => simp [SmallRng.levels]

/-- The plan that `build` draws from a seed. -/
def Plan.ofSeed (m efConstruction threads count : ℕ) (seed : BitVec 64)
    (between : ℕ → ℕ → Distance) (htwo : 2 ≤ m) (hm : m ≤ efConstruction) (hcount : 0 < count) :
    Plan where
  layout := ⟨m, SmallRng.levels m count (SmallRng.new seed)⟩
  efConstruction := efConstruction
  threads := threads
  between := between
  two_le_m := htwo
  m_le_ef := hm
  nonempty := SmallRng.levels_ne_nil hcount _
  order := SmallRng.orders ⟨m, SmallRng.levels m count (SmallRng.new seed)⟩
    (Layout.maxLevel ⟨m, SmallRng.levels m count (SmallRng.new seed)⟩ + 1)
    (SmallRng.new (seed ^^^ 0x31579bdf))
  order_perm := orders_perm _ _ _

end ParqDB.Navigation
