import Mathlib.Data.List.GetD
import ParqDB.Foundations.Machine
import ParqDB.Foundations.Outcome

/-!
# Parallite pipelines

The local dataflow engine of `parallite/src/lib.rs`: a source list in slices, the lazy
per-element stages `map` and `flatten` (one iterator for each slice), the shuffle
`partition_by`, `map_partitions`, and the executors that collect them.

Only a narrow dataset (a source under `map` and `flatten`) can be shuffled, and only
`map_partitions` can be applied to partitions; `Narrow` and `Dataset` have exactly the
compositions the traits of the source allow.  An `IntoIterator` is its list of items.
-/

namespace ParqDB.Parallite

open Foundations

variable {α β γ ε : Type}

/-- Error produced while evaluating a pipeline. -/
inductive ParalliteError (ε : Type)
  | user (error : ε)
  | invalidParameter (message : String)
  | invalidPartition (partitionId numPartitions : ℕ)
deriving DecidableEq

/-! ## Executors -/

/-- Runs work on the calling thread, or in a pool that may report any of several errors. -/
inductive Executor
  | serial
  | rayon (pick : ℕ)

def errorOf (outcome : Except ε β) : Option ε :=
  match outcome with
  | .ok _ => none
  | .error error => some error

/-- Applies a fallible function to every input; the results are in the order of the inputs. -/
def Executor.mapOrderedFallible {ι : Type*} (executor : Executor) (inputs : List ι)
    (step : ι → Except ε β) : Except ε (List β) :=
  match executor with
  | .serial => inputs.mapM step
  | .rayon pick =>
      let errors := inputs.filterMap fun input => errorOf (step input)
      match errors[pick % errors.length]? with
      | some error => .error error
      | none => inputs.mapM step

/-! ## Sources -/

/-- The loop of `split_vec`, with the slices that are left. -/
def splitSlices : ℕ → List α → List (List α)
  | 0, _ => []
  | slicesLeft + 1, remaining =>
      let size := (remaining.length + slicesLeft) / (slicesLeft + 1)
      remaining.take size :: splitSlices slicesLeft (remaining.drop size)

def splitVec (data : List α) (numSlices : ℕ) : List (List α) :=
  splitSlices (max numSlices 1) data

/-- The slices of a source when none are asked for. -/
def defaultSourceSlices (defaultSlices : Option ℕ) (threads sourcePartitionFactor length : ℕ) : ℕ :=
  if length = 0 then 1
  else min length (max (defaultSlices.getD (threads * max sourcePartitionFactor 1)) 1)

/-! ## Narrow datasets -/

/-- A dataset whose partitions are evaluated element by element. -/
inductive Narrow (ε : Type) : Type → Type 1
  | parallelizeN {α : Type} (data : List α) (numSlices : ℕ) : Narrow ε α
  | map {α β : Type} (input : Narrow ε α) (f : α → Except ε β) : Narrow ε β
  | flatten {γ β : Type} (input : Narrow ε γ) (intoIter : γ → List β) : Narrow ε β

/-- An iterator of a partition. -/
structure PartitionIter (ε α : Type) where
  machine : Machine (Except (ParalliteError ε) α)
  state : machine.State

/-- Wraps source elements in successful results. -/
def okIter (slice : List α) : PartitionIter ε α := ⟨(Machine.ofList α).map .ok, slice⟩

/-- `item.and_then(f)`. -/
def andThen (f : α → Except ε β) (item : Except (ParalliteError ε) α) :
    Except (ParalliteError ε) β :=
  item.bind fun value => (f value).mapError .user

/-- Applies a fallible function to successful items. -/
def mapIter (inner : PartitionIter ε α) (f : α → Except ε β) : PartitionIter ε β :=
  ⟨inner.machine.map (andThen f), inner.state⟩

/-- Flattens successful iterable items. -/
def flattenIter (outer : PartitionIter ε γ) (intoIter : γ → List β) : PartitionIter ε β :=
  ⟨outer.machine.flatten intoIter, (outer.state, none)⟩

def Narrow.intoPartitionIters {α : Type} : Narrow ε α → List (PartitionIter ε α)
  | parallelizeN data numSlices => (splitVec data numSlices).map okIter
  | map input f => input.intoPartitionIters.map fun inner => mapIter inner f
  | flatten input intoIter => input.intoPartitionIters.map fun outer => flattenIter outer intoIter

/-- Collects a partition up to its first error. -/
def PartitionIter.collect (iter : PartitionIter ε α) : Except (ParalliteError ε) (List α) :=
  iter.machine.tryFold (fun collected item => item.map fun value => collected ++ [value]) []
    iter.state

/-- Puts one item into its bucket. -/
def pushBucket (numPartitions : ℕ) (partitionFn : α → Except ε ℕ) (buckets : List (List (α × β)))
    (item : Except (ParalliteError ε) (α × β)) :
    Except (ParalliteError ε) (List (List (α × β))) := do
  let pair ← item
  let partitionId ← (partitionFn pair.1).mapError .user
  if numPartitions ≤ partitionId then .error (.invalidPartition partitionId numPartitions)
  .ok (buckets.modify partitionId fun bucket => bucket ++ [pair])

def emptyPartitions (numPartitions : ℕ) : List (List α) := List.replicate numPartitions []

/-- The buckets of one partition. -/
def PartitionIter.buckets (numPartitions : ℕ) (partitionFn : α → Except ε ℕ)
    (iter : PartitionIter ε (α × β)) : Except (ParalliteError ε) (List (List (α × β))) :=
  iter.machine.tryFold (pushBucket numPartitions partitionFn) (emptyPartitions numPartitions)
    iter.state

/-- Appends the buckets of one partition to those of the partitions before it. -/
def extendPartitions (partitions buckets : List (List α)) : List (List α) :=
  List.zipWith (fun partition bucket => partition ++ bucket) partitions buckets

/-! ## Datasets -/

/-- The datasets that can be collected. -/
inductive Dataset (ε : Type) : Type → Type 1
  | narrow {α : Type} (input : Narrow ε α) : Dataset ε α
  | partitionBy {κ ν : Type} (input : Narrow ε (κ × ν)) (numPartitions : ℕ)
      (partitionFn : κ → Except ε ℕ) : Dataset ε (κ × ν)
  | mapPartitions {α γ β : Type} (input : Dataset ε α) (f : List α → Except ε γ)
      (intoIter : γ → List β) : Dataset ε β

def Dataset.collectPartitions (executor : Executor) {α : Type} :
    Dataset ε α → Except (ParalliteError ε) (List (List α))
  | narrow input => executor.mapOrderedFallible input.intoPartitionIters PartitionIter.collect
  | partitionBy input numPartitions partitionFn =>
      if numPartitions = 0 then .error (.invalidParameter "partition count must be positive")
      else do
        let localBuckets ← executor.mapOrderedFallible input.intoPartitionIters
          (PartitionIter.buckets numPartitions partitionFn)
        .ok (localBuckets.foldl extendPartitions (emptyPartitions numPartitions))
  | mapPartitions input f intoIter => do
      let partitions ← input.collectPartitions executor
      executor.mapOrderedFallible partitions fun partition =>
        ((f partition).mapError .user).map intoIter

end ParqDB.Parallite
