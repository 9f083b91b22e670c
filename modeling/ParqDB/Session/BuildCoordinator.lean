import ParqDB.Catalog.Sqlite
import ParqDB.Foundations.Runs

/-!
# The build coordinator

Background index builds of one session
(`parqdb-local/src/session/build_coordinator.rs`): submitted builds wait for the one
execution slot, run, and publish their outcome in a record that callers look up by key,
wait for, or forget.

Every task is a sequence of steps, and an action is one step of one task:

* a build's task acquires the slot, marks its record, ends its body (with a result or a
  panic), returns the slot, publishes the outcome and cleans up;
* a waiter looks up a record, then reads its channel and sleeps until the channel changes,
  as often as needed;
* `submit`, `snapshot` and `forget_failure` hold the lock of the record map from their
  check to their change.  They are one action each: the lock keeps the map as it is, and a
  record whose state they act on, one that ended, does not change any more.

A watch channel is the list of the values it has carried, the newest first; its version is
their number.
-/

namespace ParqDB.Session.BuildCoordinator

open Catalog Foundations

/-! ## Errors of builds -/

/-- Stable error category retained for a completed background build. -/
inductive BuildFailureKind
  | invalidArgument
  | invalidSchema
  | indexNotFound
  | alreadyExists
  | buildAlreadyRunning
  | ambiguousIndex
  | invalidMetadata
  | catalog
  | storage
  | backend
deriving DecidableEq

/-- The variants of the errors of embedded operations. -/
inductive ErrorVariant
  | invalidArgument
  | invalidSchema
  | indexNotFound
  | alreadyExists
  | buildAlreadyRunning
  | buildFailed (kind : BuildFailureKind)
  | queryQueueFull
  | queryQueueTimeout
  | ambiguousIndex
  | invalidMetadata
  | io
  | catalog
  | storage
  | json
  | dataFusion
  | arrow
  | parquet
  | iceberg
  | kernel
deriving DecidableEq

/-- An error and its text. -/
structure Error where
  variant : ErrorVariant
  message : String
deriving DecidableEq

/-- The failure that a record retains. -/
structure RetainedFailure where
  kind : BuildFailureKind
  message : String
deriving DecidableEq

def Error.retainedBuildFailure (error : Error) : RetainedFailure where
  kind := match error.variant with
    | .invalidArgument => .invalidArgument
    | .invalidSchema => .invalidSchema
    | .indexNotFound => .indexNotFound
    | .alreadyExists => .alreadyExists
    | .buildAlreadyRunning => .buildAlreadyRunning
    | .buildFailed kind => kind
    | .ambiguousIndex => .ambiguousIndex
    | .invalidMetadata => .invalidMetadata
    | .catalog => .catalog
    | .storage | .io | .json | .parquet => .storage
    | .dataFusion | .arrow | .iceberg | .kernel => .backend
    | .queryQueueFull | .queryQueueTimeout => .backend
  message := error.message

def RetainedFailure.intoError (failure : RetainedFailure) : Error where
  variant := .buildFailed failure.kind
  message := failure.message

/-! ## Records -/

inductive RecordState
  | pending
  | building
  | complete
  | failed (failure : RetainedFailure)
deriving DecidableEq

/-- Whether the build is still to run or running. -/
def RecordState.active : RecordState → Bool
  | pending | building => true
  | complete | failed _ => false

/-- The state in which a result leaves a record. -/
def finishedState : Except Error Unit → RecordState
  | .ok () => .complete
  | .error error => .failed error.retainedBuildFailure

/-- What a waiter reads off a state. -/
def RecordState.outcome : RecordState → Option (Except Error Unit)
  | pending | building => none
  | complete => some (.ok ())
  | failed failure => some (.error failure.intoError)

/-- How the body of a build ends. -/
inductive Ending
  | returned (result : Except Error Unit)
  | panicked (message : String)

/-- The result of `catch_unwind`. -/
def Ending.result : Ending → Except Error Unit
  | returned result => result
  | panicked message => .error {
      variant := .buildFailed .backend
      message := "index build task panicked: " ++ message }

/-- A build is named by its source and its index. -/
structure BuildKey where
  sourceIdentity : String
  index : IndexIdentifier
deriving DecidableEq

/-- Where the task of a build stands. -/
inductive Phase
  | queued
  | admitted
  | running
  | ended (result : Except Error Unit)
  | released (result : Except Error Unit)
  | published (result : Except Error Unit)
  | closed (result : Except Error Unit)
deriving DecidableEq

namespace Phase

/-- Whether the task holds the execution slot. -/
def holdsSlot : Phase → Bool
  | admitted | running | ended _ => true
  | queued | released _ | published _ | closed _ => false

/-- The result of the body, once it has ended. -/
def result : Phase → Option (Except Error Unit)
  | queued | admitted | running => none
  | ended result | released result | published result | closed result => some result

end Phase

/-- A submitted build: its record, and the task that runs it. -/
structure Build where
  key : BuildKey
  baseSnapshotId : Option ℤ
  /-- The values its watch channel has carried, the newest first. -/
  sent : List RecordState
  phase : Phase
deriving DecidableEq

/-- The steps of the task of a build. -/
inductive TaskStep
  | acquire
  | start
  | finishBody (ending : Ending)
  | release
  | publish
  | cleanUp

/-- The build after a step of its task. -/
def Build.advance (build : Build) (taskStep : TaskStep) : Option Build :=
  match taskStep, build.phase with
  | .acquire, .queued => some { build with phase := .admitted }
  | .start, .admitted => some { build with sent := .building :: build.sent, phase := .running }
  | .finishBody ending, .running => some { build with phase := .ended ending.result }
  | .release, .ended result => some { build with phase := .released result }
  | .publish, .released result => some { build with
      sent := finishedState result :: build.sent
      phase := .published result }
  | .cleanUp, .published result => some { build with phase := .closed result }
  | _, _ => none

/-- The current value of the channel. -/
def Build.state (build : Build) : RecordState := build.sent.headD .pending

/-- What a caller sees of a record. -/
structure ActiveBuildSnapshot where
  state : RecordState
  baseSnapshotId : Option ℤ

def Build.snapshot (build : Build) : ActiveBuildSnapshot where
  state := build.state
  baseSnapshotId := build.baseSnapshotId

/-- A caller of `wait` that obtained a record.  `seen` is the version after which it
sleeps, if it does. -/
structure Waiter where
  record : ℕ
  seen : Option ℕ
  answer : Option (Except Error Unit)

/-! ## The coordinator -/

/-- Builds are numbered in the order in which they were submitted; the map gives the build
whose record is registered under a key. -/
structure State where
  records : BuildKey → Option ℕ
  builds : List Build
  waiters : List Waiter
  slots : ℕ

/-- A new coordinator has one execution slot. -/
def State.new : State where
  records := fun _ => none
  builds := []
  waiters := []
  slots := 1

inductive Action
  | submit (runtime : Bool) (key : BuildKey) (baseSnapshotId : Option ℤ)
  | task (build : ℕ) (taskStep : TaskStep)
  | snapshot (key : BuildKey)
  | wait (key : BuildKey)
  | poll (waiter : ℕ)
  | wake (waiter : ℕ)
  | forgetFailure (key : BuildKey)

namespace State

/-- The build registered under a key. -/
def lookup (state : State) (key : BuildKey) : Option Build :=
  (state.records key).bind fun index => state.builds[index]?

/-- Registers a new build, unless one is under way under the same key. -/
def submit (state : State) (runtime : Bool) (key : BuildKey) (baseSnapshotId : Option ℤ) :
    Except ErrorVariant State :=
  if runtime = false then .error .invalidArgument
  else if (state.lookup key).any fun build => build.state.active then .error .buildAlreadyRunning
  else .ok { state with
    records := Function.update state.records key (some state.builds.length)
    builds := state.builds ++ [{
      key := key
      baseSnapshotId := baseSnapshotId
      sent := [.pending]
      phase := .queued }] }

/-- Removes the record of a build from the map, if it is still registered. -/
def removeIfSame (state : State) (key : BuildKey) (index : ℕ) : State :=
  if state.records key = some index then
    { state with records := Function.update state.records key none }
  else state

/-- The slots that a step of a task leaves. -/
def slotsAfter (slots : ℕ) : TaskStep → Option ℕ
  | .acquire => if 0 < slots then some (slots - 1) else none
  | .release => some (slots + 1)
  | .start | .finishBody _ | .publish | .cleanUp => some slots

/-- One step of the task of a build.  Only a successful build is cleaned up. -/
def task (state : State) (index : ℕ) (taskStep : TaskStep) : Option State := do
  let build ← state.builds[index]?
  let next ← build.advance taskStep
  let slots ← slotsAfter state.slots taskStep
  let advanced := { state with builds := state.builds.set index next, slots := slots }
  match next.phase with
  | .closed (.ok ()) => some (advanced.removeIfSame build.key index)
  | _ => some advanced

def snapshot (state : State) (key : BuildKey) : Option ActiveBuildSnapshot :=
  (state.lookup key).map Build.snapshot

def forgetFailure (state : State) (key : BuildKey) : State :=
  match (state.lookup key).map Build.state with
  | some (.failed _) => { state with records := Function.update state.records key none }
  | _ => state

/-- A new waiter, if a record is registered.  Its channel starts at the current version. -/
def beginWait (state : State) (key : BuildKey) : State :=
  match state.records key with
  | some index =>
      { state with waiters := state.waiters ++ [{ record := index, seen := none, answer := none }] }
  | none => state

/-- A waiter that is awake reads the channel: it returns the outcome, or falls asleep. -/
def poll (state : State) (index : ℕ) : Option State :=
  match state.waiters[index]? with
  | some waiter =>
      match state.builds[waiter.record]? with
      | some build =>
          if waiter.seen = none ∧ waiter.answer = none then
            match build.state.outcome with
            | some outcome => some { state with
                waiters := state.waiters.set index { waiter with answer := some outcome } }
            | none => some { state with
                waiters := state.waiters.set index { waiter with seen := some build.sent.length } }
          else none
      | none => none
  | none => none

/-- A waiter that sleeps wakes up once the channel has another version. -/
def wake (state : State) (index : ℕ) : Option State :=
  match state.waiters[index]? with
  | some waiter =>
      match state.builds[waiter.record]? with
      | some build =>
          if waiter.seen.any (fun version => version ≠ build.sent.length) then
            some { state with waiters := state.waiters.set index { waiter with seen := none } }
          else none
      | none => none
  | none => none

def step (state : State) : Action → Option State
  | .submit runtime key baseSnapshotId =>
      match state.submit runtime key baseSnapshotId with
      | .ok submitted => some submitted
      | .error _ => some state
  | .task index taskStep => state.task index taskStep
  | .snapshot _ => some state
  | .wait key => some (state.beginWait key)
  | .poll index => state.poll index
  | .wake index => state.wake index
  | .forgetFailure key => some (state.forgetFailure key)

/-- Actions that lead from one state to another. -/
abbrev Steps : State → List Action → State → Prop :=
  Run fun before action after => before.step action = some after

end State

end ParqDB.Session.BuildCoordinator
