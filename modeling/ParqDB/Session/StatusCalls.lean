import ParqDB.Session.BuildCoordinator

/-!
# Status calls

`index_build_status` of `parqdb-local/src/session/build.rs`.  A call copies what the coordinator
holds under its key, waits for a listing of the catalog, and answers from both.  If the copy is a
failure and the listing shows another snapshot than the one that the build was based on, the call
has the coordinator forget the failure; by then there may be another record under the key.

An action is one step of one party.  A call takes three: it begins with its copy, it gets its
listing, and it finishes.  Nothing else in the code forgets failures.

**What is a parameter.**  The progress that a build has reported is whatever a call reads.
The catalog may change its published snapshot at any time.
-/

namespace ParqDB.Session.StatusCalls

open Foundations Session.BuildCoordinator

variable {Fraction : Type}

/-! ## Answers -/

/-- Returns the stable transport code for this failure category. -/
def code : BuildFailureKind → String
  | .invalidArgument => "invalid_argument"
  | .invalidSchema => "invalid_schema"
  | .indexNotFound => "index_not_found"
  | .alreadyExists => "already_exists"
  | .buildAlreadyRunning => "build_already_running"
  | .ambiguousIndex => "ambiguous_index"
  | .invalidMetadata => "invalid_metadata"
  | .catalog => "catalog_error"
  | .storage => "storage_error"
  | .backend => "backend_error"

/-- Observable state of one process-scoped index build. -/
inductive IndexBuildState
  | pending
  | building
  | ready
  | failed
deriving DecidableEq

structure ProgressSnapshot (Fraction : Type) where
  phase : String
  completed : ℕ
  total : ℕ
  fraction : Fraction

/-- Current build and publication state for one source-scoped index. -/
structure IndexBuildStatus (Fraction : Type) where
  state : IndexBuildState
  progress : Option Fraction
  phase : Option String
  completed : Option ℕ
  total : Option ℕ
  currentSnapshotId : Option ℤ
  error : Option String
  errorCode : Option String

/-- The failure of a record that failed. -/
def failureOf : RecordState → Option RetainedFailure
  | .failed failure => some failure
  | .pending | .building | .complete => none

def buildState : RecordState → IndexBuildState
  | .pending => .pending
  | .building => .building
  | .complete => .ready
  | .failed _ => .failed

def activeStatus (active : ActiveBuildSnapshot) (progress : ProgressSnapshot Fraction)
    (published : Option ℤ) : IndexBuildStatus Fraction where
  state := buildState active.state
  progress := some progress.fraction
  phase := some progress.phase
  completed := some progress.completed
  total := some progress.total
  currentSnapshotId := published
  error := (failureOf active.state).map RetainedFailure.message
  errorCode := (failureOf active.state).map fun failure => code failure.kind

/-- The failure of a build that was based on the published snapshot. -/
def currentFailure (active : Option ActiveBuildSnapshot) (snapshotId : ℤ) :
    Option RetainedFailure :=
  active.bind fun active =>
    if active.baseSnapshotId = some snapshotId then failureOf active.state else none

def readyStatus (active : Option ActiveBuildSnapshot) (snapshotId : ℤ) :
    IndexBuildStatus Fraction where
  state := .ready
  progress := none
  phase := none
  completed := none
  total := none
  currentSnapshotId := some snapshotId
  error := (currentFailure active snapshotId).map RetainedFailure.message
  errorCode := (currentFailure active snapshotId).map fun failure => code failure.kind

/-- What a call answers once it has its listing. -/
def statusOf (key : BuildKey) (active : Option ActiveBuildSnapshot)
    (progress : ProgressSnapshot Fraction) (published : Option ℤ) :
    Except Error (IndexBuildStatus Fraction) :=
  match active.filter fun active => active.state.active, published with
  | some active, published => .ok (activeStatus active progress published)
  | none, some snapshotId => .ok (readyStatus active snapshotId)
  | none, none =>
      match active.filter fun active => (failureOf active.state).isSome with
      | some active => .ok (activeStatus active progress none)
      | none => .error ⟨.indexNotFound, "index not found: " ++ key.index.name⟩

/-- Whether the call has the failure forgotten: it is based on another snapshot than the published
one. -/
def forgets (active : Option ActiveBuildSnapshot) (published : Option ℤ) : Bool :=
  match active, published with
  | some active, some snapshotId =>
      (failureOf active.state).isSome && active.baseSnapshotId != some snapshotId
  | _, _ => false

/-! ## Calls -/

structure StatusCall (Fraction : Type) where
  key : BuildKey
  /-- The number of the build whose record the call has copied; the code does not keep it. -/
  found : Option ℕ
  active : Option ActiveBuildSnapshot
  progress : ProgressSnapshot Fraction
  /-- The published snapshot, once the catalog has answered. -/
  listing : Option (Except Error (Option ℤ))
  answer : Option (Except Error (IndexBuildStatus Fraction))

/-- The coordinator, the snapshots that the catalog shows, and the calls in the order in which they
began. -/
structure World (Fraction : Type) where
  coordinator : State
  published : BuildKey → Option ℤ
  calls : List (StatusCall Fraction)

inductive Action (Fraction : Type)
  | build (action : BuildCoordinator.Action)
  | publish (key : BuildKey) (snapshotId : Option ℤ)
  | begin (key : BuildKey) (progress : ProgressSnapshot Fraction)
  | list (number : ℕ) (error : Option Error)
  | finish (number : ℕ)

namespace World

def new : World Fraction where
  coordinator := State.new
  published := fun _ => none
  calls := []

/-- Submissions, tasks and waiters; only status calls forget failures. -/
def build (world : World Fraction) (action : BuildCoordinator.Action) : Option (World Fraction) :=
  match action with
  | .forgetFailure _ => none
  | action => (world.coordinator.step action).map fun next => { world with coordinator := next }

/-- The copy that a call begins with. -/
def begin (world : World Fraction) (key : BuildKey) (progress : ProgressSnapshot Fraction) :
    StatusCall Fraction where
  key := key
  found := world.coordinator.records key
  active := world.coordinator.snapshot key
  progress := progress
  listing := none
  answer := none

/-- The listing shows the snapshot that is published then, or fails. -/
def list (world : World Fraction) (number : ℕ) (error : Option Error) :
    Option (World Fraction) := do
  let call ← world.calls[number]?
  if call.listing.isNone then
    let listing := match error with
      | some error => .error error
      | none => .ok (world.published call.key)
    some { world with calls := world.calls.set number { call with listing := some listing } }
  else none

/-- A call that failed to list ends with the error. -/
def finish (world : World Fraction) (number : ℕ) : Option (World Fraction) := do
  let call ← world.calls[number]?
  let listing ← call.listing
  if call.answer.isNone then
    match listing with
    | .error error =>
        some { world with calls := world.calls.set number { call with answer := some (.error error) } }
    | .ok published =>
        some { world with
          coordinator :=
            if forgets call.active published then world.coordinator.forgetFailure call.key
            else world.coordinator
          calls := world.calls.set number { call with
            answer := some (statusOf call.key call.active call.progress published) } }
  else none

def step (world : World Fraction) : Action Fraction → Option (World Fraction)
  | .build action => world.build action
  | .publish key snapshotId =>
      some { world with published := Function.update world.published key snapshotId }
  | .begin key progress => some { world with calls := world.calls ++ [world.begin key progress] }
  | .list number error => world.list number error
  | .finish number => world.finish number

abbrev Steps : World Fraction → List (Action Fraction) → World Fraction → Prop :=
  Run fun before action after => before.step action = some after

end World

end ParqDB.Session.StatusCalls
