import ParqDB.Session.BuildLifecycle
import ParqDB.Session.StatusCalls

/-!
# What status calls forget

**Strategy.**  A record that has ended does not change, so the copy of a call is still the record of
the build that it found, and whatever is registered later has a higher number (`StatusCall.Fits`).
A call therefore discards a record that it has not found only if a later build has failed in the
meantime (`Overtaken`).

**Results.**  `careful_runs_iff`: in a run in which no call that forgets is overtaken, calls discard
only what they found, and a failure stays observable until another build is submitted or another
snapshot is published; and in no other run.
-/

namespace ParqDB.Session.StatusCalls

open Foundations Session.BuildCoordinator

variable {Fraction : Type} {failure : RetainedFailure}

theorem failureOf_eq_some_iff {state : RecordState} :
    failureOf state = some failure ↔ state = .failed failure := by
  cases state with
  | failed other => simp only [failureOf, Option.some.injEq, RecordState.failed.injEq]
  | pending | building | complete => simp only [failureOf, reduceCtorEq]

/-! ## The coordinator -/

section

variable {state next : State} {action : BuildCoordinator.Action} {build : BuildCoordinator.Build}

theorem baseSnapshotId_advance {advanced : BuildCoordinator.Build} {taskStep : TaskStep}
    (hadvance : build.advance taskStep = some advanced) :
    advanced.baseSnapshotId = build.baseSnapshotId := by
  unfold Build.advance at hadvance
  split at hadvance <;> cases hadvance <;> rfl

/-- Until the outcome is published, the record of a build shows that it is running. -/
theorem active_of_publish {advanced : BuildCoordinator.Build} (hfits : build.Fits)
    (hadvance : build.advance .publish = some advanced) : build.state.active = true := by
  unfold Build.Fits at hfits
  cases hphase : build.phase with
  | released result =>
      rw [hphase] at hfits
      rw [Build.state, hfits]
      rfl
  | queued | admitted | running | ended result | published result | closed result =>
      simp only [Build.advance, hphase, reduceCtorEq] at hadvance

/-- What a step makes of a build: the base stays, and so does the copy of a build that ended. -/
structure Keeps (build later : BuildCoordinator.Build) : Prop where
  key : later.key = build.key
  ended : build.state.active = false → later.snapshot = build.snapshot

theorem keeps_of_step (hinv : Inv state) (hstep : state.step action = some next) {index : ℕ}
    (hbuild : state.builds[index]? = some build) :
    ∃ later, next.builds[index]? = some later ∧ Keeps build later := by
  obtain ⟨later, hlater, hadvances, -⟩ := hinv.step_keeps hstep hbuild
  refine ⟨later, hlater, hadvances.key, fun hended => ?_⟩
  have hsame : next.builds = state.builds → later.baseSnapshotId = build.baseSnapshotId := by
    intro hbuilds
    rw [hbuilds, hbuild] at hlater
    rw [Option.some.inj hlater]
  have hbase : later.baseSnapshotId = build.baseSnapshotId := by
    cases action with
    | submit runtime key baseSnapshotId =>
        unfold State.step at hstep
        dsimp only at hstep
        split at hstep
        · next submitted hsubmit =>
            cases hstep
            obtain ⟨-, rfl⟩ := submit_eq_ok hsubmit
            rw [List.getElem?_append_left (List.getElem?_eq_some_iff.mp hbuild).1, hbuild] at hlater
            rw [Option.some.inj hlater]
        · cases hstep
          exact hsame rfl
    | task task taskStep =>
        obtain ⟨own, advanced, hdone⟩ := exists_taskDone hstep
        by_cases hown : task = index
        · subst hown
          obtain rfl := Option.some.inj (hdone.getElem?_self.symm.trans hlater)
          obtain rfl := Option.some.inj (hdone.found.symm.trans hbuild)
          exact baseSnapshotId_advance hdone.advance
        · rw [hdone.getElem?_of_ne hown, hbuild] at hlater
          rw [Option.some.inj hlater]
    | snapshot key =>
        cases hstep
        exact hsame rfl
    | wait key =>
        cases hstep
        refine hsame ?_
        unfold State.beginWait
        split <;> rfl
    | poll waiter =>
        obtain ⟨_, _, -, -, -, -, ⟨_, -, rfl⟩ | ⟨-, rfl⟩⟩ := poll_eq_some hstep
        · exact hsame rfl
        · exact hsame rfl
    | wake waiter =>
        obtain ⟨_, _, -, -, rfl⟩ := wake_eq_some hstep
        exact hsame rfl
    | forgetFailure key =>
        cases hstep
        rcases forgetFailure_cases state key with hunchanged | ⟨-, hforget⟩
        · exact hsame (by rw [hunchanged])
        · exact hsame (by rw [hforget])
  rw [Build.snapshot, Build.snapshot, Build.state, Build.state, hadvances.sent_eq hended, hbase]

/-- What a step makes of the record of a key: it stays, a new build takes its place, or a complete
one or a failure goes. -/
inductive RecordMoves (state next : State) (action : BuildCoordinator.Action) (key : BuildKey) :
    Prop
  | stays (hsame : next.records key = state.records key)
  | submitted {build : BuildCoordinator.Build}
      (hrecord : next.records key = some state.builds.length)
      (hbuild : next.builds[state.builds.length]? = some build) (hkey : build.key = key)
  | completed {index : ℕ} {build : BuildCoordinator.Build}
      (hrecord : state.records key = some index)
      (hbuild : state.builds[index]? = some build) (hcomplete : build.state = .complete)
      (hnone : next.records key = none)
  | forgotten (hforget : action = .forgetFailure key) (hnone : next.records key = none)

theorem recordMoves_of_step (hinv : Inv state) (hstep : state.step action = some next)
    (key : BuildKey) : RecordMoves state next action key := by
  cases action with
  | submit runtime submitted baseSnapshotId =>
      unfold State.step at hstep
      dsimp only at hstep
      split at hstep
      · next hsubmit =>
          cases hstep
          obtain ⟨-, rfl⟩ := submit_eq_ok hsubmit
          by_cases hkey : key = submitted
          · subst hkey
            exact .submitted (Function.update_self ..) List.getElem?_concat_length rfl
          · exact .stays (Function.update_of_ne hkey ..)
      · cases hstep
        exact .stays rfl
  | task index taskStep =>
      obtain ⟨build, advanced, hdone⟩ := exists_taskDone hstep
      rcases hdone.records with hsame | ⟨hclosed, hregistered, hremoved⟩
      · exact .stays (by rw [hsame])
      · by_cases hkey : key = build.key
        · subst hkey
          exact .completed hregistered hdone.found (hdone.complete_of_closed hinv hclosed)
            (by rw [hremoved, Function.update_self])
        · exact .stays (by rw [hremoved, Function.update_of_ne hkey])
  | snapshot key =>
      cases hstep
      exact .stays rfl
  | wait waited =>
      cases hstep
      refine .stays ?_
      unfold State.beginWait
      split <;> rfl
  | poll waiter =>
      obtain ⟨_, _, -, -, -, -, ⟨_, -, rfl⟩ | ⟨-, rfl⟩⟩ := poll_eq_some hstep
      · exact .stays rfl
      · exact .stays rfl
  | wake waiter =>
      obtain ⟨_, _, -, -, rfl⟩ := wake_eq_some hstep
      exact .stays rfl
  | forgetFailure forgotten =>
      cases hstep
      rcases forgetFailure_cases state forgotten with hsame | ⟨-, hforget⟩
      · exact .stays (by rw [hsame])
      · by_cases hkey : key = forgotten
        · subst hkey
          exact .forgotten rfl (by rw [hforget]; exact Function.update_self ..)
        · exact .stays (by rw [hforget]; exact Function.update_of_ne hkey ..)

end

/-! ## Calls -/

/-- How a call stands to the coordinator: what it found is no newer than what is registered, and its
copy of a build that had ended is still right. -/
structure StatusCall.Fits (call : StatusCall Fraction) (state : State) : Prop where
  copied : ∀ index, call.found = some index → ∃ build active, state.builds[index]? = some build ∧
    build.key = call.key ∧ call.active = some active ∧
    (active.state.active = false → build.snapshot = active)
  absent : call.found = none → call.active = none
  newest : ∀ found index, call.found = some found → state.records call.key = some index →
    found ≤ index

namespace StatusCall.Fits

variable {call : StatusCall Fraction} {state next : State}

theorem step {action : BuildCoordinator.Action} (hfits : call.Fits state) (hinv : Inv state)
    (hstep : state.step action = some next) : call.Fits next := by
  refine ⟨fun index hfound => ?_, hfits.absent, fun found index hfound hrecord => ?_⟩
  · obtain ⟨build, active, hbuild, hkey, hactive, hcopy⟩ := hfits.copied index hfound
    obtain ⟨later, hlater, hkeeps⟩ := keeps_of_step hinv hstep hbuild
    refine ⟨later, active, hlater, hkeeps.key.trans hkey, hactive, fun hended => ?_⟩
    have hcopied := hcopy hended
    have hbuildEnded : build.state.active = false := by
      rw [← hcopied] at hended
      exact hended
    rw [hkeeps.ended hbuildEnded, hcopied]
  · obtain ⟨build, -, hbuild, -⟩ := hfits.copied found hfound
    have hlt := (List.getElem?_eq_some_iff.mp hbuild).1
    cases recordMoves_of_step hinv hstep call.key with
    | stays hsame => exact hfits.newest found index hfound (hsame ▸ hrecord)
    | submitted hsubmitted =>
        rw [hsubmitted] at hrecord
        cases hrecord
        exact hlt.le
    | completed _ _ _ hnone =>
        rw [hnone] at hrecord
        cases hrecord
    | forgotten _ hnone =>
        rw [hnone] at hrecord
        cases hrecord

/-- A call that begins fits. -/
theorem begin {world : World Fraction} (hinv : Inv world.coordinator) (key : BuildKey)
    (progress : ProgressSnapshot Fraction) : (world.begin key progress).Fits world.coordinator := by
  refine ⟨fun index hfound => ?_, fun hfound => ?_, fun found index hfound hrecord => ?_⟩
  · have hrecord : world.coordinator.records key = some index := hfound
    obtain ⟨build, hbuild, hkey⟩ := hinv.registered key index hrecord
    refine ⟨build, build.snapshot, hbuild, hkey, ?_, fun _ => rfl⟩
    simp only [World.begin, State.snapshot, State.lookup, hrecord, Option.bind_some, hbuild,
      Option.map_some]
  · have hrecord : world.coordinator.records key = none := hfound
    simp only [World.begin, State.snapshot, State.lookup, hrecord, Option.bind_none,
      Option.map_none]
  · have hsame : world.coordinator.records key = some found := hfound
    exact (Option.some.inj (hsame.symm.trans hrecord)).le

/-- A call that forgets has found a failure, and its copy is right. -/
theorem of_forgets (hfits : call.Fits state) {published : Option ℤ}
    (hforgets : forgets call.active published = true) :
    ∃ found build failure, call.found = some found ∧ state.builds[found]? = some build ∧
      build.key = call.key ∧ build.state = .failed failure ∧ call.active = some build.snapshot ∧
      published ≠ none ∧ build.baseSnapshotId ≠ published := by
  unfold forgets at hforgets
  split at hforgets
  · next active snapshotId hactive =>
      rw [Bool.and_eq_true] at hforgets
      obtain ⟨failure, hfailure⟩ := Option.isSome_iff_exists.mp hforgets.1
      cases hfound : call.found with
      | none =>
          rw [hfits.absent hfound] at hactive
          cases hactive
      | some found =>
          obtain ⟨build, copied, hbuild, hkey, hcopied, hcopy⟩ := hfits.copied found hfound
          obtain rfl := Option.some.inj (hactive.symm.trans hcopied)
          have hstate := failureOf_eq_some_iff.mp hfailure
          have hsame := hcopy (by rw [hstate]; rfl)
          refine ⟨found, build, failure, rfl, hbuild, hkey, ?_, hsame ▸ hcopied,
            Option.some_ne_none _, ?_⟩
          · rw [← hstate, ← hsame]
            rfl
          · have hbase := bne_iff_ne.mp hforgets.2
            rw [← hsame] at hbase
            exact hbase
  · cases hforgets

end StatusCall.Fits

/-! ## Steps of the world -/

/-- Whether a call with a listing will forget. -/
def StatusCall.forgets (call : StatusCall Fraction) : Bool :=
  match call.listing with
  | some (.ok published) => StatusCalls.forgets call.active published
  | some (.error _) | none => false

variable {call : StatusCall Fraction} {state : State} {action : Action Fraction}

theorem exists_of_forgets (hforgets : call.forgets = true) :
    ∃ published, call.listing = some (.ok published) ∧
      StatusCalls.forgets call.active published = true := by
  unfold StatusCall.forgets at hforgets
  split at hforgets
  · next published hlisting => exact ⟨published, hlisting, hforgets⟩
  · cases hforgets
  · cases hforgets

section

variable {world next : World Fraction} {number : ℕ}

/-- Everything that a step of the coordinator's own can do. -/
structure Built (world next : World Fraction) (inner : BuildCoordinator.Action) : Prop where
  notForget : ∀ key, inner ≠ .forgetFailure key
  coordinator : world.coordinator.step inner = some next.coordinator
  calls : next.calls = world.calls
  published : next.published = world.published

theorem built_of_build {inner : BuildCoordinator.Action} (hbuild : world.build inner = some next) :
    Built world next inner := by
  unfold World.build at hbuild
  split at hbuild
  · cases hbuild
  · next hnot =>
      obtain ⟨coordinator, hinner, rfl⟩ := Option.map_eq_some_iff.mp hbuild
      exact ⟨hnot, hinner, rfl, rfl⟩

/-- Everything that a listing can do. -/
structure Listed (world next : World Fraction) (number : ℕ) (call : StatusCall Fraction)
    (listing : Except Error (Option ℤ)) : Prop where
  found : world.calls[number]? = some call
  fresh : call.listing = none
  shown : ∀ published, listing = .ok published → published = world.published call.key
  coordinator : next.coordinator = world.coordinator
  published : next.published = world.published
  calls : next.calls = world.calls.set number { call with listing := some listing }

theorem exists_listed {error : Option Error} (hlist : world.list number error = some next) :
    ∃ call listing, Listed world next number call listing := by
  obtain ⟨call, hcall, hlisted⟩ := Option.bind_eq_some_iff.mp hlist
  split at hlisted
  · next hfresh =>
      cases hlisted
      refine ⟨call, _, hcall, Option.isNone_iff_eq_none.mp hfresh, fun published hlisting => ?_,
        rfl, rfl, rfl⟩
      cases error with
      | none =>
          cases hlisting
          rfl
      | some error => cases hlisting
  · cases hlisted

/-- Everything that the end of a call can do. -/
structure Finished (world next : World Fraction) (number : ℕ) (call : StatusCall Fraction)
    (answer : Except Error (IndexBuildStatus Fraction)) : Prop where
  found : world.calls[number]? = some call
  coordinator : next.coordinator =
    if call.forgets then world.coordinator.forgetFailure call.key else world.coordinator
  published : next.published = world.published
  calls : next.calls = world.calls.set number { call with answer := some answer }

theorem exists_finished (hfinish : world.finish number = some next) :
    ∃ call answer, Finished world next number call answer := by
  obtain ⟨call, hcall, hlisted⟩ := Option.bind_eq_some_iff.mp hfinish
  obtain ⟨listing, hlisting, hanswered⟩ := Option.bind_eq_some_iff.mp hlisted
  split at hanswered
  · split at hanswered
    · cases hanswered
      refine ⟨call, _, hcall, ?_, rfl, rfl⟩
      rw [StatusCall.forgets, hlisting]
      rfl
    · cases hanswered
      refine ⟨call, _, hcall, ?_, rfl, rfl⟩
      rw [StatusCall.forgets, hlisting]
  · cases hanswered

end

/-- What holds of the world at any time. -/
structure World.Sound (world : World Fraction) : Prop where
  coordinator : Inv world.coordinator
  calls : ∀ call ∈ world.calls, call.Fits world.coordinator

theorem World.Sound.new : World.Sound (World.new : World Fraction) :=
  ⟨Inv.new, fun _ hcall => absurd hcall List.not_mem_nil⟩

theorem StatusCall.Fits.withListing (hfits : call.Fits state)
    (listing : Option (Except Error (Option ℤ))) :
    StatusCall.Fits { call with listing := listing } state :=
  ⟨hfits.copied, hfits.absent, hfits.newest⟩

theorem StatusCall.Fits.withAnswer (hfits : call.Fits state)
    (answer : Option (Except Error (IndexBuildStatus Fraction))) :
    StatusCall.Fits { call with answer := answer } state :=
  ⟨hfits.copied, hfits.absent, hfits.newest⟩

variable {next world : World Fraction} {actions : List (Action Fraction)}

/-- What one step preserves. -/
theorem World.Sound.step (hsound : world.Sound) (hstep : world.step action = some next) :
    next.Sound := by
  cases action with
  | build inner =>
      have hbuilt := built_of_build hstep
      refine ⟨hsound.coordinator.step hbuilt.coordinator, fun call hcall => ?_⟩
      rw [hbuilt.calls] at hcall
      exact (hsound.calls call hcall).step hsound.coordinator hbuilt.coordinator
  | publish key snapshotId =>
      cases hstep
      exact ⟨hsound.coordinator, hsound.calls⟩
  | begin key progress =>
      cases hstep
      refine ⟨hsound.coordinator, fun call hcall => ?_⟩
      rcases List.mem_append.mp hcall with hbefore | hnew
      · exact hsound.calls call hbefore
      · rw [List.mem_singleton.mp hnew]
        exact .begin hsound.coordinator key progress
  | list number error =>
      obtain ⟨call, listing, hlisted⟩ := exists_listed hstep
      refine ⟨hlisted.coordinator ▸ hsound.coordinator, fun other hother => ?_⟩
      rw [hlisted.calls] at hother
      rw [hlisted.coordinator]
      rcases List.mem_or_eq_of_mem_set hother with hbefore | rfl
      · exact hsound.calls other hbefore
      · exact (hsound.calls call (List.mem_of_getElem? hlisted.found)).withListing _
  | finish number =>
      obtain ⟨call, answer, hfinished⟩ := exists_finished hstep
      have hfits : ∀ other ∈ next.calls, other.Fits world.coordinator := by
        intro other hother
        rw [hfinished.calls] at hother
        rcases List.mem_or_eq_of_mem_set hother with hbefore | rfl
        · exact hsound.calls other hbefore
        · exact (hsound.calls call (List.mem_of_getElem? hfinished.found)).withAnswer _
      have hcoordinator := hfinished.coordinator
      split at hcoordinator
      · have hforget : world.coordinator.step (.forgetFailure call.key) =
            some next.coordinator := by
          rw [hcoordinator]
          rfl
        exact ⟨hsound.coordinator.step hforget, fun other hother =>
          (hfits other hother).step hsound.coordinator hforget⟩
      · exact ⟨hcoordinator ▸ hsound.coordinator, hcoordinator ▸ hfits⟩

theorem sound_of_steps (hsteps : World.Steps World.new actions world) : world.Sound :=
  Run.invariant (fun _ _ _ hsound hstep => hsound.step hstep) World.Sound.new hsteps

/-- A step of the world leaves the coordinator, or is one step of it. -/
theorem coordinator_of_step (hstep : world.step action = some next) :
    next.coordinator = world.coordinator ∨
      ∃ inner, world.coordinator.step inner = some next.coordinator := by
  cases action with
  | build inner => exact .inr ⟨inner, (built_of_build hstep).coordinator⟩
  | publish key snapshotId =>
      cases hstep
      exact .inl rfl
  | begin key progress =>
      cases hstep
      exact .inl rfl
  | list number error =>
      obtain ⟨call, listing, hlisted⟩ := exists_listed hstep
      exact .inl hlisted.coordinator
  | finish number =>
      obtain ⟨call, answer, hfinished⟩ := exists_finished hstep
      have hcoordinator := hfinished.coordinator
      split at hcoordinator
      · exact .inr ⟨.forgetFailure call.key, hcoordinator ▸ rfl⟩
      · exact .inl hcoordinator

/-! ## Discards -/

/-- A call that forgets finds a build under its key that was submitted after the call copied its
record, and that has failed. -/
def Overtaken (world : World Fraction) : Action Fraction → Prop
  | .finish number => ∃ call found index build failure, world.calls[number]? = some call ∧
      call.forgets = true ∧ call.found = some found ∧ found < index ∧
      world.coordinator.records call.key = some index ∧
      world.coordinator.builds[index]? = some build ∧ build.state = .failed failure
  | .build _ | .publish _ _ | .begin _ _ | .list _ _ => False

/-- A step of a run in which no call is overtaken. -/
def Careful (before : World Fraction) (action : Action Fraction) (after : World Fraction) : Prop :=
  before.step action = some after ∧ ¬ Overtaken before action

/-- The end of a call removes no record but the failure that the call has copied. -/
def SparesOthers (before : World Fraction) (after : World Fraction) : Action Fraction → Prop
  | .finish number => ∀ call key index, before.calls[number]? = some call →
      before.coordinator.records key = some index →
      after.coordinator.records key ≠ some index →
      key = call.key ∧ call.found = some index ∧
        ∃ active failure, call.active = some active ∧ active.state = .failed failure
  | .build _ | .publish _ _ | .begin _ _ | .list _ _ => True

/-- A step of a run in which calls discard only what they have found. -/
def Sparing (before : World Fraction) (action : Action Fraction) (after : World Fraction) : Prop :=
  before.step action = some after ∧ SparesOthers before after action

variable {build : BuildCoordinator.Build} {index : ℕ}

/-- The records that the end of a call leaves. -/
theorem records_forgetFailure {key : BuildKey} (hrecord : state.records key = some index)
    (hbuild : state.builds[index]? = some build) (hfailed : build.state = .failed failure) :
    (state.forgetFailure key).records = Function.update state.records key none := by
  simp only [State.forgetFailure, State.lookup, hrecord, Option.bind_some, hbuild,
    Option.map_some, hfailed]

theorem exists_failed_of_forgetFailure {key : BuildKey} (hrecord : state.records key = some index)
    (hremoved : (state.forgetFailure key).records key ≠ some index) :
    ∃ build failure, state.builds[index]? = some build ∧ build.state = .failed failure := by
  unfold State.forgetFailure at hremoved
  split at hremoved
  · next failure hlookup =>
      obtain ⟨build, hbuild, hfailed⟩ := Option.map_eq_some_iff.mp hlookup
      rw [State.lookup, hrecord, Option.bind_some] at hbuild
      exact ⟨build, failure, hbuild, hfailed⟩
  · exact absurd hrecord hremoved

/-- A call that is not overtaken spares the others, and no other does. -/
theorem sparesOthers_iff {before after : World Fraction} (hsound : before.Sound)
    (hstep : before.step action = some after) :
    SparesOthers before after action ↔ ¬ Overtaken before action := by
  cases action with
  | build _ | publish _ _ | begin _ _ | list _ _ => exact iff_of_true trivial id
  | finish number =>
      obtain ⟨call, answer, hfinished⟩ := exists_finished hstep
      have hfits := hsound.calls call (List.mem_of_getElem? hfinished.found)
      have hcoordinator := hfinished.coordinator
      constructor
      · rintro hspares ⟨other, found, index, build, failure, hother, hforgets, hfound, hlt, hrecord,
          hbuild, hfailed⟩
        obtain rfl := Option.some.inj (hfinished.found.symm.trans hother)
        rw [if_pos hforgets] at hcoordinator
        obtain ⟨-, hsame, -⟩ := hspares call call.key index hfinished.found hrecord (by
          rw [hcoordinator, records_forgetFailure hrecord hbuild hfailed, Function.update_self]
          exact Option.some_ne_none index ∘ Eq.symm)
        rw [hfound] at hsame
        exact absurd (Option.some.inj hsame) hlt.ne
      · intro hovertaken other key index hother hrecord hremoved
        obtain rfl := Option.some.inj (hfinished.found.symm.trans hother)
        split at hcoordinator
        · next hforgets =>
            obtain ⟨published, -, hlisting⟩ := exists_of_forgets hforgets
            obtain ⟨found, build, failure, hfound, -, -, hfailed, hcopied, -⟩ :=
              hfits.of_forgets hlisting
            have hself : key = call.key := by
              by_contra hne
              refine hremoved ?_
              rw [hcoordinator]
              rcases forgetFailure_cases before.coordinator call.key with hsame | ⟨-, hforget⟩
              · rw [hsame, hrecord]
              · rw [hforget]
                exact (Function.update_of_ne hne ..).trans hrecord
            subst hself
            refine ⟨rfl, ?_, _, failure, hcopied, hfailed⟩
            -- what is registered has failed too, and it is not newer than what the call found
            rw [hcoordinator] at hremoved
            obtain ⟨newest, reason, hnewest, hnewestFailed⟩ :=
              exists_failed_of_forgetFailure hrecord hremoved
            rcases (hfits.newest found index hfound hrecord).lt_or_eq with hlt | rfl
            · exact absurd ⟨call, found, index, newest, reason, hfinished.found, hforgets, hfound,
                hlt, hrecord, hnewest, hnewestFailed⟩ hovertaken
            · exact hfound
        · rw [hcoordinator] at hremoved
          exact absurd hrecord hremoved

/-! ## Failures stay -/

/-- An answer that shows a failure. -/
def Reports (failure : RetainedFailure) (answer : Except Error (IndexBuildStatus Fraction)) : Prop :=
  ∃ status, answer = .ok status ∧ status.error = some failure.message ∧
    status.errorCode = some (code failure.kind)

/-- No other snapshot is published than the one that the build was based on, and no later build of
its key has been submitted. -/
structure Undisturbed (index : ℕ) (build : BuildCoordinator.Build) (world : World Fraction) :
    Prop where
  published : world.published build.key = none ∨ world.published build.key = build.baseSnapshotId
  newest : ∀ later other, index < later → world.coordinator.builds[later]? = some other →
    other.key ≠ build.key

/-- What a failure leaves to be observed. -/
structure Observable (world : World Fraction) (build : BuildCoordinator.Build)
    (failure : RetainedFailure) : Prop where
  snapshot : world.coordinator.snapshot build.key =
    some ⟨.failed failure, build.baseSnapshotId⟩
  reports : ∀ (progress : ProgressSnapshot Fraction) (published : Option ℤ),
    published = none ∨ published = build.baseSnapshotId →
    Reports failure (statusOf build.key (world.coordinator.snapshot build.key) progress published)

/-- A build that fails in the course of a run can be observed at its end, unless it is disturbed. -/
def FailuresStay (actions : List (Action Fraction)) (last : World Fraction) : Prop :=
  ∀ earlier index later before failed build failure,
    actions = earlier ++ .build (.task index .publish) :: later →
    World.Steps World.new earlier before →
    before.step (.build (.task index .publish)) = some failed →
    failed.coordinator.builds[index]? = some build → build.state = .failed failure →
    Undisturbed index build failed →
    Run (fun world action next => world.step action = some next ∧ Undisturbed index build next)
      failed later last →
    Observable last build failure

/-- A registered failure that no call is about to forget. -/
structure Stays (index : ℕ) (build : BuildCoordinator.Build) (failure : RetainedFailure)
    (world : World Fraction) : Prop where
  sound : world.Sound
  registered : world.coordinator.records build.key = some index
  kept : ∃ now, world.coordinator.builds[index]? = some now ∧ now.key = build.key ∧
    now.snapshot = ⟨.failed failure, build.baseSnapshotId⟩
  calls : ∀ call ∈ world.calls, call.found = some index → call.forgets = false
  undisturbed : Undisturbed index build world

theorem Stays.observable (hstays : Stays index build failure world) :
    Observable world build failure := by
  obtain ⟨now, hnow, -, hsnapshot⟩ := hstays.kept
  have hactive : world.coordinator.snapshot build.key =
      some ⟨.failed failure, build.baseSnapshotId⟩ := by
    rw [State.snapshot, State.lookup, hstays.registered, Option.bind_some, hnow, Option.map_some,
      hsnapshot]
  refine ⟨hactive, fun progress published hpublished => ?_⟩
  rw [hactive]
  cases published with
  | none => exact ⟨_, rfl, rfl, rfl⟩
  | some snapshotId =>
      rcases hpublished with hnone | hbase
      · cases hnone
      · refine ⟨_, rfl, ?_, ?_⟩ <;>
          simp only [readyStatus, currentFailure, Option.bind_some, ← hbase, if_true, failureOf,
            Option.map_some]

/-- What one careful step preserves while nothing disturbs the build. -/
theorem Stays.step (hstays : Stays index build failure world) (hcareful : Careful world action next)
    (hundisturbed : Undisturbed index build next) : Stays index build failure next := by
  obtain ⟨hstep, hovertaken⟩ := hcareful
  have hsound := hstays.sound.step hstep
  obtain ⟨now, hnow, hnowKey, hsnapshot⟩ := hstays.kept
  have hfailed : now.state = .failed failure := congrArg ActiveBuildSnapshot.state hsnapshot
  have hended : now.state.active = false := by
    rw [hfailed]
    rfl
  -- the record of a build that ended does not change
  have hkept : ∃ later, next.coordinator.builds[index]? = some later ∧ later.key = build.key ∧
      later.snapshot = ⟨.failed failure, build.baseSnapshotId⟩ := by
    rcases coordinator_of_step hstep with hsame | ⟨inner, hinner⟩
    · rw [hsame]
      exact ⟨now, hnow, hnowKey, hsnapshot⟩
    · obtain ⟨later, hlater, hkeeps⟩ := keeps_of_step hstays.sound.coordinator hinner hnow
      exact ⟨later, hlater, hkeeps.key.trans hnowKey, (hkeeps.ended hended).trans hsnapshot⟩
  cases action with
  | build inner =>
      have hbuilt := built_of_build hstep
      refine ⟨hsound, ?_, hkept, hbuilt.calls ▸ hstays.calls, hundisturbed⟩
      cases recordMoves_of_step hstays.sound.coordinator hbuilt.coordinator build.key with
      | stays hsame => exact hsame.trans hstays.registered
      | submitted _ hbuild hkey =>
          exact absurd hkey (hundisturbed.newest _ _ (List.getElem?_eq_some_iff.mp hnow).1 hbuild)
      | completed hrecord hbuild hcomplete =>
          rw [hstays.registered] at hrecord
          cases hrecord
          rw [hnow] at hbuild
          cases hbuild
          rw [hfailed] at hcomplete
          cases hcomplete
      | forgotten hforget => exact absurd hforget (hbuilt.notForget _)
  | publish key snapshotId =>
      cases hstep
      exact ⟨hsound, hstays.registered, hkept, hstays.calls, hundisturbed⟩
  | begin key progress =>
      cases hstep
      refine ⟨hsound, hstays.registered, hkept, fun call hcall hfound => ?_, hundisturbed⟩
      rcases List.mem_append.mp hcall with hbefore | hnew
      · exact hstays.calls call hbefore hfound
      · rw [List.mem_singleton.mp hnew]
        rfl
  | list number error =>
      obtain ⟨call, listing, hlisted⟩ := exists_listed hstep
      refine ⟨hsound, hlisted.coordinator ▸ hstays.registered, hkept, fun other hother hfound => ?_,
        hundisturbed⟩
      have hfits := hsound.calls other hother
      rw [hlisted.calls] at hother
      rcases List.mem_or_eq_of_mem_set hother with hbefore | rfl
      · exact hstays.calls other hbefore hfound
      · -- the listing shows no other snapshot than the base
        by_contra hforgets
        obtain ⟨published, hlisting, hforgets⟩ := exists_of_forgets (Bool.not_eq_false _ ▸ hforgets)
        obtain ⟨found, copied, reason, hcopied, hbuild, hkey, -, -, hpublished, hbase⟩ :=
          hfits.of_forgets hforgets
        cases hfound.symm.trans hcopied
        obtain ⟨later, hlater, hlaterKey, hlaterSnapshot⟩ := hkept
        obtain rfl := Option.some.inj (hlater.symm.trans hbuild)
        have hshown := hlisted.shown published (Option.some.inj hlisting)
        rw [← hkey, hlaterKey] at hshown
        rw [hshown] at hpublished hbase
        rcases hstays.undisturbed.published with hnone | hsame
        · exact hpublished hnone
        · rw [hsame] at hbase
          exact hbase (congrArg ActiveBuildSnapshot.baseSnapshotId hlaterSnapshot)
  | finish number =>
      obtain ⟨call, answer, hfinished⟩ := exists_finished hstep
      have hmem := List.mem_of_getElem? hfinished.found
      refine ⟨hsound, ?_, hkept, fun other hother hfound => ?_, hundisturbed⟩
      · by_contra hremoved
        obtain ⟨hkey, hfound, -⟩ := (sparesOthers_iff hstays.sound hstep).mpr hovertaken call
          build.key index hfinished.found hstays.registered hremoved
        have hforgets := hstays.calls call hmem hfound
        rw [hfinished.coordinator, hforgets] at hremoved
        exact hremoved hstays.registered
      · rw [hfinished.calls] at hother
        rcases List.mem_or_eq_of_mem_set hother with hbefore | rfl
        · exact hstays.calls other hbefore hfound
        · exact hstays.calls call hmem hfound

/-- A build that has just failed stays. -/
theorem Stays.of_publish {failed : World Fraction} (hsound : world.Sound)
    (hstep : world.step (.build (.task index .publish)) = some failed)
    (hbuild : failed.coordinator.builds[index]? = some build)
    (hfailed : build.state = .failed failure) (hundisturbed : Undisturbed index build failed) :
    Stays index build failure failed := by
  have hbuilt : Built world failed (.task index .publish) := built_of_build hstep
  obtain ⟨own, advanced, hdone⟩ := exists_taskDone hbuilt.coordinator
  obtain rfl := Option.some.inj (hdone.getElem?_self.symm.trans hbuild)
  have hadvances := (hdone.advances hsound.coordinator).1
  have hactive := active_of_publish
    (hsound.coordinator.fits own (List.mem_of_getElem? hdone.found)) hdone.advance
  obtain ⟨later, hlater, -, hregistered⟩ :=
    hsound.coordinator.step_keeps hbuilt.coordinator hdone.found
  have hkey := hregistered hactive
  rw [← hadvances.key] at hkey
  refine ⟨hsound.step hstep, hkey, ⟨advanced, hbuild, rfl, ?_⟩, fun call hcall hfound => ?_,
    hundisturbed⟩
  · rw [Build.snapshot, hfailed]
  · rw [hbuilt.calls] at hcall
    by_contra hforgets
    obtain ⟨published, -, hforgets⟩ := exists_of_forgets (Bool.not_eq_false _ ▸ hforgets)
    obtain ⟨found, copied, reason, hcopied, hcopiedBuild, -, hcopiedFailed, -⟩ :=
      (hsound.calls call hcall).of_forgets hforgets
    cases hfound.symm.trans hcopied
    obtain rfl := Option.some.inj (hdone.found.symm.trans hcopiedBuild)
    rw [hcopiedFailed] at hactive
    cases hactive

/-- In a run in which no call that forgets is overtaken, failures stay. -/
theorem failuresStay_of_careful {last : World Fraction} (hrun : Run Careful World.new actions last) :
    FailuresStay actions last := by
  intro earlier index later before failed build failure hactions hearlier hstep hbuild hfailed
    hundisturbed hquiet
  obtain ⟨before', failed', hearlier', hstep', hlater⟩ := hrun.split hactions
  obtain ⟨rfl, -⟩ := hearlier.and (fun _ _ _ _ hleft hright =>
    Option.some.inj (hleft.symm.trans hright.1)) hearlier'
  obtain rfl := Option.some.inj (hstep.symm.trans hstep'.1)
  obtain ⟨-, hboth⟩ := hlater.and (fun _ _ _ _ hleft hright =>
    Option.some.inj (hleft.1.symm.trans hright.1)) hquiet
  have hstays := Stays.of_publish (sound_of_steps hearlier) hstep hbuild hfailed hundisturbed
  exact (Run.invariant (fun _ _ _ hstays hboth => hstays.step hboth.1 hboth.2.2) hstays
    hboth).observable

/-- Calls that forget are not overtaken in a run if and only if they discard only the failures that
they have found; and then every failure stays observable. -/
theorem careful_runs_iff {actions : List (Action Fraction)} {last : World Fraction} :
    Run Careful World.new actions last ↔
      Run Sparing World.new actions last ∧ FailuresStay actions last := by
  constructor
  · intro hrun
    refine ⟨Run.map World.Sound (fun _ _ _ hsound hstep => hsound.step hstep.1)
      (fun _ _ _ hsound hstep => ⟨hstep.1, (sparesOthers_iff hsound hstep.1).mpr hstep.2⟩)
      World.Sound.new hrun, failuresStay_of_careful hrun⟩
  · rintro ⟨hrun, -⟩
    exact Run.map World.Sound (fun _ _ _ hsound hstep => hsound.step hstep.1)
      (fun _ _ _ hsound hstep => ⟨hstep.1, (sparesOthers_iff hsound hstep.1).mp hstep.2⟩)
      World.Sound.new hrun

/-! ## A lost failure -/

/-- The steps of a build that fails. -/
def failingSteps (index : ℕ) (error : Error) : List (Action Fraction) :=
  [.acquire, .start, .finishBody (.returned (.error error)), .release, .publish].map fun taskStep =>
    .build (.task index taskStep)

theorem embedding_nonempty : "embedding" ≠ "" ∧ "" ∉ ([] : List String) :=
  ⟨by decide, List.not_mem_nil⟩

def embeddingKey : BuildKey := ⟨"source", [], "embedding", embedding_nonempty⟩

/-- A first build fails, and another session publishes snapshot 7.  A status call copies the failure
and lists snapshot 7.  Before it goes on, a refresh of that snapshot is submitted and runs. -/
def refreshed : List (Action Unit) :=
  [.build (.submit true embeddingKey none)] ++
  failingSteps 0 ⟨.storage, "I/O error: first"⟩ ++
  [.publish embeddingKey (some 7), .begin embeddingKey ⟨"pending", 0, 0, ()⟩, .list 0 none,
    .build (.submit true embeddingKey (some 7))] ++
  (failingSteps 1 ⟨.storage, "I/O error: second"⟩).dropLast

/-- The refresh fails, and the call goes on. -/
def lostFailure : List (Action Unit) :=
  refreshed ++ [.build (.task 1 .publish), .finish 0]

/-- The call discards the failure of the refresh, which it has not found; nothing shows it from then
on. -/
theorem newer_failure_hidden : ∃ last : World Unit, World.Steps World.new lostFailure last ∧
    ¬ Run Sparing World.new lostFailure last ∧ ¬ FailuresStay lostFailure last := by
  have hrefreshed := @Run.of_foldlM _ _ World.new _ World.step refreshed rfl
  have hfailed := @Run.of_foldlM _ _ World.new _ World.step
    (refreshed ++ [.build (.task 1 .publish)]) rfl
  refine ⟨_, @Run.of_foldlM _ _ World.new _ World.step lostFailure rfl, fun hsparing => ?_,
    fun hstay => ?_⟩
  · obtain ⟨before, after, hbefore, ⟨hstep, hspares⟩, -⟩ :=
      @Run.split _ _ _ _ _ _ (refreshed ++ [.build (.task 1 .publish)]) [] (.finish 0) hsparing rfl
    obtain ⟨rfl, -⟩ := hfailed.and (fun _ _ _ _ hleft hright =>
      Option.some.inj (hleft.symm.trans hright.1)) hbefore
    cases hstep
    obtain ⟨-, hfound, -⟩ := hspares _ embeddingKey 1 rfl rfl (by decide)
    cases hfound
  · have hobservable := hstay refreshed 1 [.finish 0] _ _ _ ⟨.storage, "I/O error: second"⟩ rfl
      hrefreshed rfl rfl rfl ⟨.inr rfl, ?_⟩ ⟨_, ⟨rfl, .inr rfl, ?_⟩, rfl⟩
    · cases hobservable.snapshot
    · rintro (_ | _ | later) other hlt hother
      · exact absurd hlt (by decide)
      · exact absurd hlt (by decide)
      · cases hother
    · rintro (_ | _ | later) other hlt hother
      · exact absurd hlt (by decide)
      · exact absurd hlt (by decide)
      · cases hother

end ParqDB.Session.StatusCalls
