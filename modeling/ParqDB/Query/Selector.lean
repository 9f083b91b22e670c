import Mathlib.Algebra.Order.Ring.Int
import Mathlib.Data.Int.Order.Basic
import Mathlib.Data.List.Sort
import ParqDB.Foundations.Runs

/-!
# Candidate selection

`query/fused_topk/selector.rs`: each partition keeps the candidates that may be among the
`fetch` nearest, in a binary heap while it is small and otherwise in a buffer that is cut
from time to time.

A distance is an `f32` that is not NaN.  Comparisons with `<` see the number (`value`), the
order of candidates is `total_cmp` (`totalKey`), which puts `-0.0` before `0.0`.  What rows
a candidate stands for (its batch and row, and the batches that are kept for them) is left
out.
-/

namespace ParqDB.Query

/-! ## Distances -/

/-- The sign and the other bits of an `f32` that is not NaN. -/
structure Distance where
  negative : Bool
  magnitude : ℕ
deriving DecidableEq

namespace Distance

/-- `f32::INFINITY`. -/
def infinity : Distance := ⟨false, 0x7f800000⟩

def Finite (distance : Distance) : Prop := distance.magnitude < 0x7f800000

instance (distance : Distance) : Decidable distance.Finite :=
  inferInstanceAs (Decidable (_ < _))

/-- The integer that `total_cmp` compares. -/
def totalKey (distance : Distance) : ℤ :=
  if distance.negative then -(distance.magnitude : ℤ) - 1 else distance.magnitude

/-- The rank of the number: both zeros have the same. -/
def value (distance : Distance) : ℤ :=
  if distance.negative then -(distance.magnitude : ℤ) else distance.magnitude

theorem value_le_of_totalKey_le {left right : Distance} (hle : left.totalKey ≤ right.totalKey) :
    left.value ≤ right.value := by
  obtain ⟨leftSign, leftMagnitude⟩ := left
  obtain ⟨rightSign, rightMagnitude⟩ := right
  cases leftSign <;> cases rightSign <;> simp only [totalKey, value] at hle ⊢ <;> grind

theorem value_lt_infinity {distance : Distance} (hfinite : distance.Finite) :
    distance.value < infinity.value := by
  have hbound : (distance.magnitude : ℤ) < infinity.magnitude := Int.ofNat_lt.mpr hfinite
  have hinfinity : infinity.value = infinity.magnitude := rfl
  rw [hinfinity, value]
  split
  · omega
  · exact hbound

end Distance

/-! ## Candidates -/

structure Candidate where
  distance : Distance
  sequence : ℕ
deriving DecidableEq

namespace Candidate

/-- `Candidate::cmp` is not `Greater`. -/
def NotAfter (left right : Candidate) : Prop :=
  left.distance.totalKey < right.distance.totalKey ∨
    left.distance.totalKey = right.distance.totalKey ∧ left.sequence ≤ right.sequence

instance : DecidableRel NotAfter := fun _ _ =>
  inferInstanceAs (Decidable (_ < _ ∨ _ = _ ∧ _ ≤ _))

instance : Std.Total NotAfter where
  total left right := by
    unfold NotAfter
    omega

instance : IsTrans Candidate NotAfter where
  trans first second third hleft hright := by
    unfold NotAfter at *
    omega

theorem NotAfter.value_le {left right : Candidate} (hle : NotAfter left right) :
    left.distance.value ≤ right.distance.value := by
  refine Distance.value_le_of_totalKey_le ?_
  rcases hle with hlt | ⟨heq, -⟩
  · exact hlt.le
  · exact heq.le

end Candidate

/-- A `BinaryHeap` by what it gives: the candidates from the greatest to the least. -/
structure BinaryHeap where
  items : List Candidate
  ordered : items.Pairwise fun left right => Candidate.NotAfter right left

namespace BinaryHeap

instance : Std.Total (fun left right : Candidate => Candidate.NotAfter right left) where
  total left right := Std.Total.total (r := Candidate.NotAfter) right left

instance : IsTrans Candidate (fun left right => Candidate.NotAfter right left) where
  trans _ _ _ hleft hright := IsTrans.trans _ _ _ hright hleft

def empty : BinaryHeap := ⟨[], List.Pairwise.nil⟩

def length (heap : BinaryHeap) : ℕ := heap.items.length

def peek (heap : BinaryHeap) : Option Candidate := heap.items.head?

def pop (heap : BinaryHeap) : BinaryHeap := ⟨heap.items.tail, heap.ordered.tail⟩

def push (heap : BinaryHeap) (candidate : Candidate) : BinaryHeap where
  items := heap.items.orderedInsert (fun left right => Candidate.NotAfter right left) candidate
  ordered := heap.ordered.orderedInsert candidate _

end BinaryHeap

/-! ## The selector -/

structure CandidateSelector where
  fetch : ℕ
  compactionLimit : ℕ
  nextSequence : ℕ
  threshold? : Option Distance
  heap? : Option BinaryHeap
  candidates : List Candidate

/-- `size_of::<Candidate>()`. -/
def candidateSize : ℕ := 32

namespace CandidateSelector

def new (fetch : ℕ) : CandidateSelector where
  fetch := fetch
  compactionLimit := fetch + max 1024 (min (fetch / 2) 16384)
  nextSequence := 0
  threshold? := none
  heap? := if fetch * candidateSize ≤ 32 * 1024 then some .empty else none
  candidates := []

/-- The limit that the selector has found by itself. -/
def threshold (selector : CandidateSelector) : Option Distance :=
  (selector.heap?.bind fun heap =>
    if heap.length = selector.fetch then heap.peek.map Candidate.distance else none).or
    selector.threshold?

def nextOf (sequence : ℕ) : ℕ := (sequence + 1) % 2 ^ 64

/-- One row in heap mode. -/
def updateHeapRow (fetch : ℕ) (limit : Distance) (state : BinaryHeap × ℕ) (distance : Distance) :
    BinaryHeap × ℕ :=
  let (heap, sequence) := state
  if ¬ distance.value < limit.value then state
  else if heap.length = fetch ∧
      ∀ greatest ∈ heap.peek, ¬ distance.value < greatest.distance.value then state
  else
    let room := if heap.length = fetch then heap.pop else heap
    (room.push ⟨distance, sequence⟩, nextOf sequence)

/-- One row in selection mode. -/
def pushRow (limit : Distance) (state : List Candidate × ℕ) (distance : Distance) :
    List Candidate × ℕ :=
  let (candidates, sequence) := state
  if ¬ distance.value < limit.value then state
  else (candidates ++ [⟨distance, sequence⟩], nextOf sequence)

/-- Cuts the buffer to the `fetch` least candidates. -/
def compact (selector : CandidateSelector) : CandidateSelector :=
  let selected := selector.candidates.insertionSort Candidate.NotAfter
  { selector with
    threshold? := selected[selector.fetch - 1]?.map Candidate.distance
    candidates := selected.take selector.fetch }

/-- The greatest candidate of the buffer. -/
def greatest? (candidates : List Candidate) : Option Candidate :=
  (candidates.insertionSort Candidate.NotAfter).getLast?

def updateBatch (selector : CandidateSelector) (distances : List Distance) (limit : Distance) :
    CandidateSelector :=
  match selector.heap? with
  | some heap =>
      let (heap, sequence) :=
        distances.foldl (updateHeapRow selector.fetch limit) (heap, selector.nextSequence)
      { selector with heap? := some heap, nextSequence := sequence }
  | none =>
      let (candidates, sequence) :=
        distances.foldl (pushRow limit) (selector.candidates, selector.nextSequence)
      let pushed := { selector with candidates := candidates, nextSequence := sequence }
      if selector.fetch < candidates.length ∧
          (selector.threshold? = none ∨ selector.compactionLimit ≤ candidates.length) then
        pushed.compact
      else if candidates.length = selector.fetch ∧ selector.threshold? = none then
        { pushed with threshold? := (greatest? candidates).map Candidate.distance }
      else pushed

def compactRetained (selector : CandidateSelector) : CandidateSelector :=
  if selector.heap?.isSome ∨ selector.candidates.length ≤ selector.fetch then selector
  else selector.compact

/-- The distances that a partition emits, in ascending order. -/
def finish (selector : CandidateSelector) : List Distance :=
  match selector.heap? with
  | some heap => heap.items.reverse.map Candidate.distance
  | none => (selector.candidates.insertionSort Candidate.NotAfter).map Candidate.distance

end CandidateSelector

/-!
## Partitions with a shared threshold

`query/fused_topk/exec.rs`: every partition reads its batches, prunes them with the shared
threshold and lowers it to the limit of its own selector.

The threshold is an atomic that is read with relaxed ordering, so a load sees any value of
its history; a `compare_exchange_weak` that succeeds saw the last one.  One step of a
partition is one access to the threshold or to the dynamic filter expression.
-/

/-- What a partition lowers the threshold for. -/
inductive Purpose
  /-- `sync_from_expression`, before a batch is processed. -/
  | sync (batch : List Distance)
  /-- `tighten`, after a batch was processed. -/
  | tighten
deriving DecidableEq

/-- Where a partition stands. -/
inductive Phase
  /-- Waits for its next batch. -/
  | waiting
  /-- Is about to load the threshold in `tighten_atomic`. -/
  | lowering (purpose : Purpose) (candidate : Distance)
  /-- Is at the head of the loop of `tighten_atomic`. -/
  | comparing (purpose : Purpose) (candidate current : Distance)
  /-- Is about to load the limit for its batch. -/
  | loading (batch : List Distance)
  | selecting (batch : List Distance) (limit : Distance)
  /-- Is about to update the expression. -/
  | updating (candidate : Distance)
  | finished (emitted : List Distance)
deriving DecidableEq

structure Partition where
  batches : List (List Distance)
  selector : CandidateSelector
  phase : Phase

/-- The values of the threshold, the last one first, and the literal of the expression. -/
structure DynamicThreshold where
  history : List Distance
  expression : Option Distance

structure IvfTopK where
  threshold : DynamicThreshold
  partitions : List Partition

/-- A step of a partition: which value a load sees, and whether an exchange fails without
reason. -/
structure Action where
  partition : ℕ
  read : ℕ
  spurious : Bool

namespace DynamicThreshold

def new : DynamicThreshold := ⟨[.infinity], none⟩

/-- What a relaxed load sees. -/
def load (threshold : DynamicThreshold) (read : ℕ) : Distance :=
  threshold.history.getD (read % threshold.history.length) .infinity

/-- The value of the atomic. -/
def value (threshold : DynamicThreshold) : Distance := threshold.history.headD .infinity

end DynamicThreshold

namespace Partition

def new (fetch : ℕ) (batches : List (List Distance)) : Partition :=
  ⟨batches, .new fetch, .waiting⟩

/-- After `tighten_atomic` has returned. -/
def lowered (purpose : Purpose) (candidate : Distance) (success : Bool) : Phase :=
  match purpose with
  | .sync batch => .loading batch
  | .tighten => if success then .updating candidate else .waiting

/-- One step of a partition. -/
def advance (partition : Partition) (threshold : DynamicThreshold) (read : ℕ) (spurious : Bool) :
    Partition × DynamicThreshold :=
  match partition.phase with
  | .waiting =>
      match partition.batches with
      | batch :: batches =>
          match threshold.expression with
          | some literal =>
              ({ partition with batches := batches, phase := .lowering (.sync batch) literal },
                threshold)
          | none => ({ partition with batches := batches, phase := .loading batch }, threshold)
      | [] =>
          let selector := partition.selector.compactRetained
          ({ partition with selector := selector, phase := .finished selector.finish }, threshold)
  | .lowering purpose candidate =>
      ({ partition with phase := .comparing purpose candidate (threshold.load read) }, threshold)
  | .comparing purpose candidate current =>
      if ¬ candidate.totalKey < current.totalKey then
        ({ partition with phase := lowered purpose candidate false }, threshold)
      else if current = threshold.value ∧ spurious = false then
        ({ partition with phase := lowered purpose candidate true },
          { threshold with history := candidate :: threshold.history })
      else
        ({ partition with phase := .comparing purpose candidate (threshold.load read) }, threshold)
  | .loading batch =>
      ({ partition with phase := .selecting batch (threshold.load read) }, threshold)
  | .selecting batch limit =>
      let selector := partition.selector.updateBatch batch limit
      match selector.threshold with
      | some distance =>
          ({ partition with selector := selector, phase := .lowering .tighten distance }, threshold)
      | none => ({ partition with selector := selector, phase := .waiting }, threshold)
  | .updating candidate =>
      ({ partition with phase := .waiting }, { threshold with expression := some candidate })
  | .finished _ => (partition, threshold)

end Partition

namespace IvfTopK

def new (fetch : ℕ) (streams : List (List (List Distance))) : IvfTopK :=
  ⟨.new, streams.map (Partition.new fetch)⟩

/-- A step of a partition that does not exist changes nothing. -/
def next (system : IvfTopK) (action : Action) : IvfTopK :=
  match system.partitions[action.partition]? with
  | none => system
  | some partition =>
      let (advanced, threshold) := partition.advance system.threshold action.read action.spurious
      ⟨threshold, system.partitions.set action.partition advanced⟩

end IvfTopK

end ParqDB.Query
