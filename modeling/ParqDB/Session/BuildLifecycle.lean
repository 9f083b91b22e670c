import ParqDB.Session.BuildCoordinator

/-!
# The life of a build

What holds of the build coordinator after any sequence of actions.

**Strategy.**  A task advances its own build only (`advances_of_advance`): the channel
keeps what it carried and gets at most one value more, and none after the outcome.  The
invariant `Inv` says how the channels, the map, the slot and the waiters fit together; it
is preserved by a step of a task (`Inv.task`) because of what an advance can do, and by the
other actions because they only add a build, a waiter, or drop a record that ended.

**Results.**  `lifecycle`: at most one body runs, a key has at most one build under way and
the map keeps it, every channel carries `pending`, `building` and one outcome, and a waiter
is answered with the outcome of its own build.
-/

namespace ParqDB.Session.BuildCoordinator

open Catalog Foundations

/-! ## One build -/

/-- What a channel has carried at each phase. -/
def Build.Fits (build : Build) : Prop :=
  match build.phase with
  | .queued | .admitted => build.sent = [.pending]
  | .running | .ended _ | .released _ => build.sent = [.building, .pending]
  | .published result | .closed result => build.sent = [finishedState result, .building, .pending]

/-- How a build can change: its channel may get one more value while the build is active. -/
structure Advances (build next : Build) : Prop where
  key : next.key = build.key
  sent : next.sent = build.sent ∨
    build.state.active = true ∧ ∃ value, next.sent = value :: build.sent
  result : ∀ result, build.phase.result = some result → next.phase.result = some result

theorem Advances.refl (build : Build) : Advances build build :=
  ⟨rfl, Or.inl rfl, fun _ hresult => hresult⟩

theorem active_finishedState (result : Except Error Unit) :
    (finishedState result).active = false := by
  cases result <;> rfl

variable {build : Build} {taskStep : TaskStep} {next : Build}

/-- One case per step of a task. -/
theorem advances_of_advance (hfits : build.Fits)
    (hadvance : build.advance taskStep = some next) : Advances build next ∧ next.Fits := by
  unfold Build.advance at hadvance
  unfold Build.Fits at hfits
  split at hadvance
  case h_1 hphase =>
    cases hadvance
    rw [hphase] at hfits
    exact ⟨⟨rfl, Or.inl rfl, by simp [hphase, Phase.result]⟩, hfits⟩
  case h_2 hphase =>
    cases hadvance
    rw [hphase] at hfits
    have hsent : build.sent = [.pending] := hfits
    exact ⟨⟨rfl, Or.inr ⟨by simp [Build.state, hsent, RecordState.active], _, rfl⟩,
      by simp [hphase, Phase.result]⟩, by simp [Build.Fits, hsent]⟩
  case h_3 hphase =>
    cases hadvance
    rw [hphase] at hfits
    exact ⟨⟨rfl, Or.inl rfl, by simp [hphase, Phase.result]⟩, hfits⟩
  case h_4 hphase =>
    cases hadvance
    rw [hphase] at hfits
    exact ⟨⟨rfl, Or.inl rfl, by simp [hphase, Phase.result]⟩, hfits⟩
  case h_5 hphase =>
    cases hadvance
    rw [hphase] at hfits
    have hsent : build.sent = [.building, .pending] := hfits
    exact ⟨⟨rfl, Or.inr ⟨by simp [Build.state, hsent, RecordState.active], _, rfl⟩,
      by simp [hphase, Phase.result]⟩, by simp [Build.Fits, hsent]⟩
  case h_6 hphase =>
    cases hadvance
    rw [hphase] at hfits
    exact ⟨⟨rfl, Or.inl rfl, by simp [hphase, Phase.result]⟩, hfits⟩
  case h_7 => cases hadvance

/-- A record that ended does not change any more. -/
theorem Advances.sent_eq (hadvances : Advances build next)
    (hended : build.state.active = false) : next.sent = build.sent := by
  rcases hadvances.sent with hsent | ⟨hactive, -⟩
  · exact hsent
  · rw [hended] at hactive
    cases hactive

theorem Advances.active_of_active (hadvances : Advances build next)
    (hactive : next.state.active = true) : build.state.active = true := by
  rcases hadvances.sent with hsent | ⟨hbuild, -⟩
  · rwa [Build.state, hsent] at hactive
  · exact hbuild

/-- The three stages of a channel. -/
theorem Build.Fits.stages (hfits : build.Fits) :
    build.sent = [.pending] ∨ build.sent = [.building, .pending] ∨
      ∃ result, build.phase.result = some result ∧
        build.sent = [finishedState result, .building, .pending] := by
  unfold Build.Fits at hfits
  cases hphase : build.phase with
  | queued => exact Or.inl (by simpa [hphase] using hfits)
  | admitted => exact Or.inl (by simpa [hphase] using hfits)
  | running => exact Or.inr (Or.inl (by simpa [hphase] using hfits))
  | ended result => exact Or.inr (Or.inl (by simpa [hphase] using hfits))
  | released result => exact Or.inr (Or.inl (by simpa [hphase] using hfits))
  | published result => exact Or.inr (Or.inr ⟨result, rfl, by simpa [hphase] using hfits⟩)
  | closed result => exact Or.inr (Or.inr ⟨result, rfl, by simpa [hphase] using hfits⟩)

/-! ## Outcomes -/

/-- What a caller learns of the result of a build. -/
def reported : Except Error Unit → Except Error Unit
  | .ok () => .ok ()
  | .error error => .error error.retainedBuildFailure.intoError

theorem outcome_finishedState (result : Except Error Unit) :
    (finishedState result).outcome = some (reported result) := by
  cases result <;> rfl

/-- A state with an outcome is that of a build that ended with it. -/
theorem Build.Fits.of_outcome (hfits : build.Fits) {answer : Except Error Unit}
    (houtcome : build.state.outcome = some answer) :
    ∃ result, build.phase.result = some result ∧ build.state = finishedState result ∧
      answer = reported result := by
  rcases hfits.stages with hsent | hsent | ⟨result, hresult, hsent⟩
  · simp [Build.state, hsent, RecordState.outcome] at houtcome
  · simp [Build.state, hsent, RecordState.outcome] at houtcome
  · have hstate : build.state = finishedState result := by simp [Build.state, hsent]
    rw [hstate, outcome_finishedState, Option.some.injEq] at houtcome
    exact ⟨result, hresult, hstate, houtcome.symm⟩

theorem outcome_isSome_iff {state : RecordState} :
    state.outcome.isSome = true ↔ state.active = false := by
  cases state <;> simp [RecordState.outcome, RecordState.active]

/-! ## The invariant -/

/-- How a waiter stands to its build: it sleeps on the current version only while the build
is active, and its answer is the outcome. -/
structure Waiter.Fits (waiter : Waiter) (build : Build) : Prop where
  seen : ∀ version, waiter.seen = some version → version ≤ build.sent.length ∧
    (version = build.sent.length → build.state.active = true)
  answer : ∀ answer, waiter.answer = some answer → build.state.outcome = some answer

variable {waiter : Waiter} {index : ℕ}

/-- An advance of the build leaves its waiters in order. -/
theorem Waiter.Fits.advance (hfits : waiter.Fits build)
    (hadvances : Advances build next) : waiter.Fits next where
  seen := by
    intro version hseen
    obtain ⟨hle, hactive⟩ := hfits.seen version hseen
    rcases hadvances.sent with hsent | ⟨-, value, hsent⟩
    · rw [Build.state, hsent]
      exact ⟨hle, hactive⟩
    · rw [hsent, List.length_cons]
      exact ⟨by omega, fun heq => by omega⟩
  answer := by
    intro answer hanswer
    have houtcome := hfits.answer answer hanswer
    have hended := outcome_isSome_iff.mp (houtcome ▸ rfl : build.state.outcome.isSome = true)
    rw [Build.state, hadvances.sent_eq hended]
    exact houtcome

/-- How the channels, the slot, the map and the waiters fit together. -/
structure Inv (state : State) : Prop where
  fits : ∀ build ∈ state.builds, build.Fits
  slots_le : state.slots ≤ 1
  slots_eq : ∀ build ∈ state.builds, build.phase.holdsSlot = true → state.slots = 0
  one_holder : ∀ (i j : ℕ) (first second : Build), state.builds[i]? = some first →
    state.builds[j]? = some second → first.phase.holdsSlot = true →
    second.phase.holdsSlot = true → i = j
  registered : ∀ (key : BuildKey) (i : ℕ), state.records key = some i →
    ∃ build, state.builds[i]? = some build ∧ build.key = key
  kept : ∀ (i : ℕ) (build : Build), state.builds[i]? = some build → build.state.active = true →
    state.records build.key = some i
  waiters : ∀ waiter ∈ state.waiters, ∃ build, state.builds[waiter.record]? = some build ∧
    waiter.Fits build

theorem Inv.new : Inv State.new where
  fits := by simp [State.new]
  slots_le := Nat.le_refl 1
  slots_eq := by simp [State.new]
  one_holder := by simp [State.new]
  registered := by simp [State.new]
  kept := by simp [State.new]
  waiters := by simp [State.new]

/-! ## Steps of a task -/

variable {state next : State}

/-- Everything a step of a task can do. -/
structure TaskDone (state next : State) (index : ℕ) (taskStep : TaskStep) (build advanced : Build) :
    Prop where
  found : state.builds[index]? = some build
  advance : build.advance taskStep = some advanced
  builds : next.builds = state.builds.set index advanced
  waiters : next.waiters = state.waiters
  slotsAfter : State.slotsAfter state.slots taskStep = some next.slots
  records : next.records = state.records ∨ advanced.phase = .closed (.ok ()) ∧
    state.records build.key = some index ∧
    next.records = Function.update state.records build.key none

theorem exists_taskDone (htask : state.task index taskStep = some next) :
    ∃ build advanced, TaskDone state next index taskStep build advanced := by
  unfold State.task at htask
  obtain ⟨build, hbuild, htask⟩ := Option.bind_eq_some_iff.mp htask
  obtain ⟨advanced, hadvance, htask⟩ := Option.bind_eq_some_iff.mp htask
  obtain ⟨slots, hslots, htask⟩ := Option.bind_eq_some_iff.mp htask
  refine ⟨build, advanced, ?_⟩
  dsimp only at htask
  split at htask
  · next hover =>
      cases htask
      unfold State.removeIfSame
      split
      · next hsame => exact ⟨hbuild, hadvance, rfl, rfl, hslots, Or.inr ⟨hover, hsame, rfl⟩⟩
      · exact ⟨hbuild, hadvance, rfl, rfl, hslots, Or.inl rfl⟩
  · cases htask
    exact ⟨hbuild, hadvance, rfl, rfl, hslots, Or.inl rfl⟩

/-- The slot goes to a build and comes back from it. -/
theorem slots_balance {advanced : Build} {before after : ℕ}
    (hadvance : build.advance taskStep = some advanced)
    (hslots : State.slotsAfter before taskStep = some after) :
    advanced.phase.holdsSlot.toNat + after = build.phase.holdsSlot.toNat + before := by
  unfold Build.advance at hadvance
  split at hadvance
  case h_1 hphase =>
    cases hadvance
    obtain ⟨hpos, rfl⟩ : 0 < before ∧ before - 1 = after := by
      simpa [State.slotsAfter] using hslots
    simp only [hphase, Phase.holdsSlot, Bool.toNat_true, Bool.toNat_false]
    omega
  case h_4 hphase =>
    cases hadvance
    cases hslots
    simp only [hphase, Phase.holdsSlot, Bool.toNat_true, Bool.toNat_false]
    omega
  case h_7 => cases hadvance
  all_goals
    rename_i hphase
    cases hadvance
    cases hslots
    simp only [hphase, Phase.holdsSlot]

namespace TaskDone

variable {advanced : Build}

section

variable (hdone : TaskDone state next index taskStep build advanced)

include hdone

theorem getElem?_self :
    next.builds[index]? = some advanced := by
  obtain ⟨hlength, -⟩ := List.getElem?_eq_some_iff.mp hdone.found
  rw [hdone.builds, List.getElem?_set_self hlength]

theorem getElem?_of_ne {i : ℕ}
    (hne : index ≠ i) : next.builds[i]? = state.builds[i]? := by
  rw [hdone.builds, List.getElem?_set_ne hne]

theorem advances (hinv : Inv state) :
    Advances build advanced ∧ advanced.Fits :=
  advances_of_advance (hinv.fits build (List.mem_of_getElem? hdone.found)) hdone.advance

/-- A build whose record is removed in the end was complete. -/
theorem complete_of_closed
    (hinv : Inv state) (hclosed : advanced.phase = .closed (.ok ())) : build.state = .complete := by
  have hfits := hinv.fits build (List.mem_of_getElem? hdone.found)
  have hadvance := hdone.advance
  unfold Build.advance at hadvance
  unfold Build.Fits at hfits
  split at hadvance <;> cases hadvance <;> cases hclosed
  next hphase =>
    rw [hphase] at hfits
    rw [Build.state, hfits]
    rfl

/-- A build is unchanged, or it is the one whose task made the step. -/
theorem advances_all
    (hinv : Inv state) {i : ℕ} {other : Build} (hother : state.builds[i]? = some other) :
    ∃ later, next.builds[i]? = some later ∧ Advances other later := by
  by_cases heq : index = i
  · subst heq
    obtain rfl := Option.some.inj (hdone.found.symm.trans hother)
    exact ⟨advanced, hdone.getElem?_self, (hdone.advances hinv).1⟩
  · exact ⟨other, (hdone.getElem?_of_ne heq).trans hother, Advances.refl other⟩

/-- The slot is with at most one build, before and after. -/
theorem slots (hinv : Inv state) :
    next.slots ≤ 1 ∧ (advanced.phase.holdsSlot = true → next.slots = 0) ∧
      ∀ i other, index ≠ i → state.builds[i]? = some other → other.phase.holdsSlot = true →
        next.slots = 0 ∧ advanced.phase.holdsSlot = false := by
  have hbalance := slots_balance hdone.advance hdone.slotsAfter
  have hle := hinv.slots_le
  have hfull := hinv.slots_eq build (List.mem_of_getElem? hdone.found)
  refine ⟨?_, ?_, ?_⟩
  · cases hholds : build.phase.holdsSlot with
    | false =>
        rw [hholds, Bool.toNat_false] at hbalance
        omega
    | true =>
        rw [hholds, Bool.toNat_true, hfull hholds] at hbalance
        omega
  · intro hadvanced
    rw [hadvanced, Bool.toNat_true] at hbalance
    cases hholds : build.phase.holdsSlot with
    | false =>
        rw [hholds, Bool.toNat_false] at hbalance
        omega
    | true =>
        rw [hholds, Bool.toNat_true, hfull hholds] at hbalance
        omega
  · -- another build holds the slot, so the task cannot have taken it
    intro i other hne hother hholds
    have hnone := hinv.slots_eq other (List.mem_of_getElem? hother) hholds
    have hfree : build.phase.holdsSlot = false := by
      rw [← Bool.not_eq_true]
      exact fun hbuild => hne (hinv.one_holder index i build other hdone.found hother hbuild hholds)
    rw [hfree, hnone, Bool.toNat_false, Nat.zero_add] at hbalance
    cases hadvanced : advanced.phase.holdsSlot with
    | false =>
        rw [hadvanced, Bool.toNat_false] at hbalance
        exact ⟨by omega, rfl⟩
    | true =>
        rw [hadvanced, Bool.toNat_true] at hbalance
        omega

end

end TaskDone

theorem Inv.task (hinv : Inv state) (htask : state.task index taskStep = some next) : Inv next := by
  obtain ⟨build, advanced, hdone⟩ := exists_taskDone htask
  obtain ⟨hadvances, hfits⟩ := hdone.advances hinv
  obtain ⟨hslots, hfull, hothers⟩ := hdone.slots hinv
  -- a build of the next state is the one that advanced, or was there before
  have hcases : ∀ {i : ℕ} {other : Build}, next.builds[i]? = some other →
      index = i ∧ other = advanced ∨ index ≠ i ∧ state.builds[i]? = some other := by
    intro i other hother
    by_cases heq : index = i
    · subst heq
      exact Or.inl ⟨rfl, Option.some.inj (hother.symm.trans hdone.getElem?_self)⟩
    · exact Or.inr ⟨heq, (hdone.getElem?_of_ne heq).symm.trans hother⟩
  constructor
  case fits =>
    intro other hother
    obtain ⟨i, hother⟩ := List.getElem?_of_mem hother
    rcases hcases hother with ⟨-, rfl⟩ | ⟨-, hbefore⟩
    · exact hfits
    · exact hinv.fits other (List.mem_of_getElem? hbefore)
  case slots_le => exact hslots
  case slots_eq =>
    intro other hother hholds
    obtain ⟨i, hother⟩ := List.getElem?_of_mem hother
    rcases hcases hother with ⟨-, rfl⟩ | ⟨hne, hbefore⟩
    · exact hfull hholds
    · exact (hothers i other hne hbefore hholds).1
  case one_holder =>
    intro i j first second hfirst hsecond hholds hholds'
    rcases hcases hfirst with ⟨rfl, rfl⟩ | ⟨hne, hbefore⟩
    · rcases hcases hsecond with ⟨rfl, -⟩ | ⟨hne', hbefore'⟩
      · rfl
      · have hfree := (hothers j second hne' hbefore' hholds').2
        rw [hfree] at hholds
        cases hholds
    · rcases hcases hsecond with ⟨rfl, rfl⟩ | ⟨-, hbefore'⟩
      · have hfree := (hothers i first hne hbefore hholds).2
        rw [hfree] at hholds'
        cases hholds'
      · exact hinv.one_holder i j first second hbefore hbefore' hholds hholds'
  case registered =>
    intro key i hrecord
    have hbefore : state.records key = some i := by
      rcases hdone.records with hsame | ⟨-, -, hremoved⟩
      · rwa [hsame] at hrecord
      · rw [hremoved] at hrecord
        by_cases hkey : key = build.key
        · rw [hkey, Function.update_self] at hrecord
          cases hrecord
        · rwa [Function.update_of_ne hkey] at hrecord
    obtain ⟨other, hother, hkey⟩ := hinv.registered key i hbefore
    obtain ⟨later, hlater, hadvances⟩ := hdone.advances_all hinv hother
    exact ⟨later, hlater, hadvances.key.trans hkey⟩
  case kept =>
    intro i other hother hactive
    have hrecord : state.records other.key = some i := by
      rcases hcases hother with ⟨rfl, rfl⟩ | ⟨-, hbefore⟩
      · rw [hadvances.key]
        exact hinv.kept index build hdone.found (hadvances.active_of_active hactive)
      · exact hinv.kept i other hbefore hactive
    rcases hdone.records with hsame | ⟨hover, hregistered, hremoved⟩
    · rw [hsame]
      exact hrecord
    · -- the build that is cleaned up has ended, so the active one has another key
      rw [hremoved]
      rcases hcases hother with ⟨rfl, rfl⟩ | ⟨hne, -⟩
      · unfold Build.Fits at hfits
        rw [hover] at hfits
        rw [Build.state, hfits, List.headD_cons, active_finishedState] at hactive
        cases hactive
      · refine (Function.update_of_ne ?_ _ _).trans hrecord
        intro hkey
        rw [hkey, hregistered] at hrecord
        exact hne (Option.some.inj hrecord)
  case waiters =>
    intro waiter hwaiter
    rw [hdone.waiters] at hwaiter
    obtain ⟨other, hother, hfitsOther⟩ := hinv.waiters waiter hwaiter
    obtain ⟨later, hlater, hadvancesOther⟩ := hdone.advances_all hinv hother
    exact ⟨later, hlater, hfitsOther.advance hadvancesOther⟩

/-! ## The other actions -/

variable {baseSnapshotId : Option ℤ} {runtime : Bool} {i : ℕ}

theorem submit_eq_ok {key : BuildKey} (hsubmit : state.submit runtime key baseSnapshotId = .ok next) :
    (∀ build, state.lookup key = some build → build.state.active = false) ∧
      next = { state with
        records := Function.update state.records key (some state.builds.length)
        builds := state.builds ++ [⟨key, baseSnapshotId, [.pending], .queued⟩] } := by
  unfold State.submit at hsubmit
  split at hsubmit
  · cases hsubmit
  · split at hsubmit
    · cases hsubmit
    · next hidle =>
        cases hsubmit
        refine ⟨fun build hlookup => ?_, rfl⟩
        simpa [hlookup] using hidle

/-- An active build is the one found under its key. -/
theorem Inv.lookup_of_active (hinv : Inv state) (hbuild : state.builds[i]? = some build)
    (hactive : build.state.active = true) : state.lookup build.key = some build := by
  rw [State.lookup, hinv.kept i build hbuild hactive]
  exact hbuild

theorem Inv.submit {key : BuildKey} (hinv : Inv state)
    (hsubmit : state.submit runtime key baseSnapshotId = .ok next) : Inv next := by
  obtain ⟨hidle, rfl⟩ := submit_eq_ok hsubmit
  have hcases : ∀ {i : ℕ} {other : Build},
      (state.builds ++ [⟨key, baseSnapshotId, [.pending], .queued⟩])[i]? = some other →
      state.builds[i]? = some other ∨
        i = state.builds.length ∧ other = ⟨key, baseSnapshotId, [.pending], .queued⟩ := by
    intro i other hother
    rcases Nat.lt_or_ge i state.builds.length with hlt | hge
    · rw [List.getElem?_append_left hlt] at hother
      exact Or.inl hother
    · rw [List.getElem?_append_right hge, List.getElem?_singleton] at hother
      split at hother
      · exact Or.inr ⟨by omega, (Option.some.inj hother).symm⟩
      · cases hother
  have hkept : ∀ {i : ℕ} {other : Build}, state.builds[i]? = some other →
      (state.builds ++ [⟨key, baseSnapshotId, [.pending], .queued⟩])[i]? = some other := by
    intro i other hother
    rw [List.getElem?_append_left (List.getElem?_eq_some_iff.mp hother).1]
    exact hother
  constructor
  case fits =>
    intro build hbuild
    rcases List.mem_append.mp hbuild with hbuild | hbuild
    · exact hinv.fits build hbuild
    · rw [List.mem_singleton.mp hbuild]
      rfl
  case slots_le => exact hinv.slots_le
  case slots_eq =>
    intro build hbuild hholds
    rcases List.mem_append.mp hbuild with hbuild | hbuild
    · exact hinv.slots_eq build hbuild hholds
    · rw [List.mem_singleton.mp hbuild] at hholds
      cases hholds
  case one_holder =>
    intro i j first second hfirst hsecond hholds hholds'
    rcases hcases hfirst with hfirst | ⟨-, rfl⟩
    · rcases hcases hsecond with hsecond | ⟨-, rfl⟩
      · exact hinv.one_holder i j first second hfirst hsecond hholds hholds'
      · cases hholds'
    · cases hholds
  case registered =>
    intro other i hrecord
    dsimp only at hrecord
    by_cases hkey : other = key
    · subst hkey
      rw [Function.update_self] at hrecord
      cases hrecord
      exact ⟨_, List.getElem?_concat_length, rfl⟩
    · rw [Function.update_of_ne hkey] at hrecord
      obtain ⟨build, hbuild, heq⟩ := hinv.registered other i hrecord
      exact ⟨build, hkept hbuild, heq⟩
  case kept =>
    intro i build hbuild hactive
    rcases hcases hbuild with hbefore | ⟨rfl, rfl⟩
    · -- the key of an active build is not the submitted one
      refine (Function.update_of_ne ?_ _ _).trans (hinv.kept i build hbefore hactive)
      rintro rfl
      rw [hidle build (hinv.lookup_of_active hbefore hactive)] at hactive
      cases hactive
    · exact Function.update_self _ _ _
  case waiters =>
    intro waiter hwaiter
    obtain ⟨build, hbuild, hfits⟩ := hinv.waiters waiter hwaiter
    exact ⟨build, hkept hbuild, hfits⟩

/-- Forgetting a failure drops the record of a build that ended. -/
theorem forgetFailure_cases (state : State) (key : BuildKey) :
    state.forgetFailure key = state ∨
      (∀ build, state.lookup key = some build → build.state.active = false) ∧
        state.forgetFailure key =
          { state with records := Function.update state.records key none } := by
  unfold State.forgetFailure
  split
  · next failure hstate =>
      refine Or.inr ⟨fun build hlookup => ?_, rfl⟩
      rw [hlookup, Option.map_some, Option.some.injEq] at hstate
      rw [hstate]
      rfl
  · exact Or.inl rfl

theorem Inv.forgetFailure (hinv : Inv state) (key : BuildKey) : Inv (state.forgetFailure key) := by
  rcases forgetFailure_cases state key with hsame | ⟨hended, hforget⟩
  · rw [hsame]
    exact hinv
  rw [hforget]
  exact {
    fits := hinv.fits
    slots_le := hinv.slots_le
    slots_eq := hinv.slots_eq
    one_holder := hinv.one_holder
    registered := by
      intro other i hrecord
      dsimp only at hrecord
      by_cases hkey : other = key
      · subst hkey
        rw [Function.update_self] at hrecord
        cases hrecord
      · rw [Function.update_of_ne hkey] at hrecord
        exact hinv.registered other i hrecord
    kept := by
      intro i build hbuild hactive
      refine (Function.update_of_ne ?_ _ _).trans (hinv.kept i build hbuild hactive)
      rintro rfl
      rw [hended build (hinv.lookup_of_active hbuild hactive)] at hactive
      cases hactive
    waiters := hinv.waiters }

/-- A state that differs in its waiters only. -/
theorem Inv.withWaiters (hinv : Inv state) {waiters : List Waiter}
    (hwaiters : ∀ waiter ∈ waiters, ∃ build, state.builds[waiter.record]? = some build ∧
      waiter.Fits build) : Inv { state with waiters := waiters } :=
  ⟨hinv.fits, hinv.slots_le, hinv.slots_eq, hinv.one_holder, hinv.registered, hinv.kept, hwaiters⟩

theorem Inv.beginWait (hinv : Inv state) (key : BuildKey) : Inv (state.beginWait key) := by
  unfold State.beginWait
  split
  · next i hrecord =>
      refine hinv.withWaiters fun waiter hwaiter => ?_
      rcases List.mem_append.mp hwaiter with hwaiter | hwaiter
      · exact hinv.waiters waiter hwaiter
      · rw [List.mem_singleton.mp hwaiter]
        obtain ⟨build, hbuild, -⟩ := hinv.registered key i hrecord
        exact ⟨build, hbuild, by simp, by simp⟩
  · exact hinv

/-- A waiter that changes stays with its build. -/
theorem Inv.setWaiter (hinv : Inv state) (index : ℕ)
    (hbuild : state.builds[waiter.record]? = some build) (hfits : waiter.Fits build) :
    Inv { state with waiters := state.waiters.set index waiter } := by
  refine hinv.withWaiters fun other hother => ?_
  rcases List.mem_or_eq_of_mem_set hother with hother | rfl
  · exact hinv.waiters other hother
  · exact ⟨build, hbuild, hfits⟩

/-- What a waiter that polls does. -/
theorem poll_eq_some (hpoll : state.poll index = some next) :
    ∃ waiter build, state.waiters[index]? = some waiter ∧
      state.builds[waiter.record]? = some build ∧ waiter.seen = none ∧ waiter.answer = none ∧
      ((∃ outcome, build.state.outcome = some outcome ∧ next = { state with
          waiters := state.waiters.set index { waiter with answer := some outcome } }) ∨
        build.state.outcome = none ∧ next = { state with
          waiters := state.waiters.set index { waiter with seen := some build.sent.length } }) := by
  unfold State.poll at hpoll
  split at hpoll
  · next waiter hwaiter =>
      split at hpoll
      · next build hbuild =>
          split at hpoll
          · next hawake =>
              refine ⟨waiter, build, hwaiter, hbuild, hawake.1, hawake.2, ?_⟩
              split at hpoll
              · next outcome houtcome => exact Or.inl ⟨outcome, houtcome, (Option.some.inj hpoll).symm⟩
              · next houtcome => exact Or.inr ⟨houtcome, (Option.some.inj hpoll).symm⟩
          · cases hpoll
      · cases hpoll
  · cases hpoll

theorem Inv.poll (hinv : Inv state) (hpoll : state.poll index = some next) : Inv next := by
  obtain ⟨waiter, build, hwaiter, hbuild, hseen, hanswer, hnext⟩ := poll_eq_some hpoll
  rcases hnext with ⟨outcome, houtcome, rfl⟩ | ⟨houtcome, rfl⟩
  · refine hinv.setWaiter index hbuild ⟨?_, ?_⟩
    · simp [hseen]
    · intro answer heq
      cases heq
      exact houtcome
  · refine hinv.setWaiter index hbuild ⟨?_, ?_⟩
    · intro version heq
      cases heq
      refine ⟨Nat.le_refl _, fun _ => ?_⟩
      rw [← Bool.not_eq_false, ← outcome_isSome_iff, houtcome]
      simp
    · simp [hanswer]

theorem wake_eq_some (hwake : state.wake index = some next) :
    ∃ waiter build, state.waiters[index]? = some waiter ∧
      state.builds[waiter.record]? = some build ∧
      next = { state with waiters := state.waiters.set index { waiter with seen := none } } := by
  unfold State.wake at hwake
  split at hwake
  · next waiter hwaiter =>
      split at hwake
      · next build hbuild =>
          split at hwake
          · exact ⟨waiter, build, hwaiter, hbuild, (Option.some.inj hwake).symm⟩
          · cases hwake
      · cases hwake
  · cases hwake

theorem Inv.wake (hinv : Inv state) (hwake : state.wake index = some next) : Inv next := by
  obtain ⟨waiter, build, hwaiter, hbuild, rfl⟩ := wake_eq_some hwake
  obtain ⟨other, hother, hfits⟩ := hinv.waiters waiter (List.mem_of_getElem? hwaiter)
  exact hinv.setWaiter index hother ⟨by simp, hfits.answer⟩

variable {action : Action} {actions : List Action}

/-- What one action preserves. -/
theorem Inv.step (hinv : Inv state) (hstep : state.step action = some next) : Inv next := by
  cases action with
  | submit runtime key baseSnapshotId =>
      unfold State.step at hstep
      dsimp only at hstep
      split at hstep
      · next submitted hsubmit =>
          cases hstep
          exact hinv.submit hsubmit
      · cases hstep
        exact hinv
  | task index taskStep => exact hinv.task hstep
  | snapshot key =>
      cases hstep
      exact hinv
  | wait key =>
      cases hstep
      exact hinv.beginWait key
  | poll index => exact hinv.poll hstep
  | wake index => exact hinv.wake hstep
  | forgetFailure key =>
      cases hstep
      exact hinv.forgetFailure key

theorem inv_of_steps (hsteps : State.Steps State.new actions state) : Inv state :=
  Run.invariant (fun _ _ _ hinv hstep => hinv.step hstep) Inv.new hsteps

/-! ## What steps do to records -/

/-- Every action leaves the builds there are, or advances one, and keeps the records of the
active ones. -/
theorem Inv.step_keeps (hinv : Inv state) (hstep : state.step action = some next)
    (hbuild : state.builds[i]? = some build) :
    ∃ later, next.builds[i]? = some later ∧ Advances build later ∧
      (build.state.active = true → next.records build.key = some i) := by
  have hsame : next.builds = state.builds → next.records = state.records →
      ∃ later, next.builds[i]? = some later ∧ Advances build later ∧
        (build.state.active = true → next.records build.key = some i) := by
    intro hbuilds hrecords
    rw [hbuilds, hrecords]
    exact ⟨build, hbuild, Advances.refl build, hinv.kept i build hbuild⟩
  cases action with
  | submit runtime key baseSnapshotId =>
      unfold State.step at hstep
      dsimp only at hstep
      split at hstep
      · next submitted hsubmit =>
          cases hstep
          obtain ⟨hidle, rfl⟩ := submit_eq_ok hsubmit
          refine ⟨build, ?_, Advances.refl build, fun hactive => ?_⟩
          · exact (List.getElem?_append_left (List.getElem?_eq_some_iff.mp hbuild).1).trans hbuild
          · refine (Function.update_of_ne ?_ _ _).trans (hinv.kept i build hbuild hactive)
            rintro rfl
            rw [hidle build (hinv.lookup_of_active hbuild hactive)] at hactive
            cases hactive
      · cases hstep
        exact hsame rfl rfl
  | task index taskStep =>
      obtain ⟨own, advanced, hdone⟩ := exists_taskDone hstep
      obtain ⟨later, hlater, hadvances⟩ := hdone.advances_all hinv hbuild
      refine ⟨later, hlater, hadvances, fun hactive => ?_⟩
      have hrecord := hinv.kept i build hbuild hactive
      rcases hdone.records with hrecords | ⟨hover, hregistered, hremoved⟩
      · rw [hrecords]
        exact hrecord
      · -- a build that is cleaned up published its outcome before
        rw [hremoved]
        refine (Function.update_of_ne ?_ _ _).trans hrecord
        intro hkey
        rw [hkey, hregistered] at hrecord
        cases hrecord
        obtain rfl := Option.some.inj (hbuild.symm.trans hdone.found)
        rw [hdone.complete_of_closed hinv hover] at hactive
        cases hactive
  | snapshot key =>
      cases hstep
      exact hsame rfl rfl
  | wait key =>
      cases hstep
      unfold State.beginWait
      split <;> exact ⟨build, hbuild, Advances.refl build, hinv.kept i build hbuild⟩
  | poll index =>
      obtain ⟨waiter, other, -, -, -, -, ⟨_, -, rfl⟩ | ⟨-, rfl⟩⟩ := poll_eq_some hstep
      · exact hsame rfl rfl
      · exact hsame rfl rfl
  | wake index =>
      obtain ⟨waiter, other, -, -, rfl⟩ := wake_eq_some hstep
      exact hsame rfl rfl
  | forgetFailure key =>
      cases hstep
      rcases forgetFailure_cases state key with hunchanged | ⟨hended, hforget⟩
      · rw [hunchanged]
        exact ⟨build, hbuild, Advances.refl build, hinv.kept i build hbuild⟩
      · rw [hforget]
        refine ⟨build, hbuild, Advances.refl build, fun hactive => ?_⟩
        refine (Function.update_of_ne ?_ _ _).trans (hinv.kept i build hbuild hactive)
        rintro rfl
        rw [hended build (hinv.lookup_of_active hbuild hactive)] at hactive
        cases hactive

/-- What becomes of a build later: its channel has carried more, unless it had ended. -/
structure Continues (build later : Build) : Prop where
  key : later.key = build.key
  sent : build.sent <:+ later.sent
  ended : build.state.active = false → later.sent = build.sent

theorem Advances.continues {later : Build} (hadvances : Advances build later) :
    Continues build later where
  key := hadvances.key
  sent := by
    rcases hadvances.sent with hsent | ⟨-, value, hsent⟩
    · exact hsent ▸ List.suffix_refl build.sent
    · exact hsent ▸ List.suffix_cons value build.sent
  ended := hadvances.sent_eq

theorem Continues.trans {first second third : Build} (hfirst : Continues first second)
    (hsecond : Continues second third) : Continues first third where
  key := hsecond.key.trans hfirst.key
  sent := hfirst.sent.trans hsecond.sent
  ended := by
    intro hended
    have hsent := hfirst.ended hended
    rw [← hsent]
    exact hsecond.ended (by rwa [Build.state, hsent])

/-- A build after any further actions. -/
theorem Inv.steps_continue (hinv : Inv state) (hsteps : State.Steps state actions next)
    (hbuild : state.builds[i]? = some build) :
    ∃ later, next.builds[i]? = some later ∧ Continues build later := by
  induction actions generalizing state build with
  | nil =>
      cases (hsteps : state = next)
      exact ⟨build, hbuild, (Advances.refl build).continues⟩
  | cons action actions ih =>
      obtain ⟨middle, hstep, hrest⟩ := hsteps
      obtain ⟨second, hsecond, hadvances, -⟩ := hinv.step_keeps hstep hbuild
      obtain ⟨later, hlater, hcontinues⟩ := ih (hinv.step hstep) hrest hsecond
      exact ⟨later, hlater, hadvances.continues.trans hcontinues⟩

/-! ## Waiters are answered -/

/-- Once its build has ended, a waiter gets the outcome by its own steps. -/
theorem Inv.answered (hinv : Inv state) (hwaiter : state.waiters[index]? = some waiter)
    (hanswer : waiter.answer = none) (hbuild : state.builds[waiter.record]? = some build)
    (hended : build.state.active = false) :
    ∃ actions next answered, (∀ action ∈ actions, action = .wake index ∨ action = .poll index) ∧
      State.Steps state actions next ∧ next.waiters[index]? = some answered ∧
      answered.answer = build.state.outcome := by
  obtain ⟨outcome, houtcome⟩ := Option.isSome_iff_exists.mp (outcome_isSome_iff.mpr hended)
  have hpoll : ∀ before : State, before.builds = state.builds →
      before.waiters[index]? = some { waiter with seen := none } →
      ∃ after answered, before.step (.poll index) = some after ∧
        after.waiters[index]? = some answered ∧ answered.answer = build.state.outcome := by
    intro before hbuilds hfound
    let answered := { waiter with seen := none, answer := some outcome }
    refine ⟨{ before with waiters := before.waiters.set index answered }, answered, ?_,
      List.getElem?_set_self (List.getElem?_eq_some_iff.mp hfound).1, houtcome.symm⟩
    simp only [State.step, State.poll, hfound, hbuilds, hbuild, hanswer, houtcome, and_self,
      if_true]
    rfl
  cases hseen : waiter.seen with
  | none =>
      have hawake : state.waiters[index]? = some { waiter with seen := none } := by
        rw [hwaiter, ← hseen]
      obtain ⟨after, answered, hstep, hfound, heq⟩ := hpoll state rfl hawake
      exact ⟨[.poll index], after, answered, by simp, ⟨after, hstep, rfl⟩, hfound, heq⟩
  | some version =>
      -- it does not sleep on the version with the outcome
      obtain ⟨other, hother, hfits⟩ := hinv.waiters waiter (List.mem_of_getElem? hwaiter)
      obtain rfl := Option.some.inj (hbuild.symm.trans hother)
      have hold : version ≠ build.sent.length := by
        intro heq
        rw [(hfits.seen version hseen).2 heq] at hended
        cases hended
      have hwake : state.step (.wake index) = some { state with
          waiters := state.waiters.set index { waiter with seen := none } } := by
        simp only [State.step, State.wake, hwaiter, hbuild, hseen, Option.any_some, ne_eq, hold,
          not_false_eq_true, decide_true, if_true]
      obtain ⟨after, answered, hstep, hfound, heq⟩ := hpoll
        { state with waiters := state.waiters.set index { waiter with seen := none } } rfl
        (List.getElem?_set_self (List.getElem?_eq_some_iff.mp hwaiter).1)
      exact ⟨[.wake index, .poll index], after, answered, by simp, ⟨_, hwake, after, hstep, rfl⟩,
        hfound, heq⟩

/-! ## The lifecycle -/

/-- What holds of the builds at any time. -/
structure Coordinated (state : State) : Prop where
  one_body : ∀ (i j : ℕ) (first second : Build), state.builds[i]? = some first →
    state.builds[j]? = some second → first.phase = .running → second.phase = .running → i = j
  one_active : ∀ (i j : ℕ) (first second : Build), state.builds[i]? = some first →
    state.builds[j]? = some second → first.state.active = true → second.state.active = true →
    first.key = second.key → i = j
  stages : ∀ build ∈ state.builds, build.sent = [.pending] ∨ build.sent = [.building, .pending] ∨
    ∃ result, build.phase.result = some result ∧
      build.sent = [finishedState result, .building, .pending]
  answers : ∀ waiter ∈ state.waiters, ∀ answer, waiter.answer = some answer →
    ∃ build result, state.builds[waiter.record]? = some build ∧
      build.phase.result = some result ∧ build.state = finishedState result ∧
      answer = reported result
  answered : ∀ (index : ℕ) (waiter : Waiter) (build : Build),
    state.waiters[index]? = some waiter → waiter.answer = none →
    state.builds[waiter.record]? = some build → build.state.active = false →
    ∃ actions next later, (∀ action ∈ actions, action = .wake index ∨ action = .poll index) ∧
      State.Steps state actions next ∧ next.waiters[index]? = some later ∧
      later.answer = build.state.outcome

theorem Inv.coordinated (hinv : Inv state) : Coordinated state where
  one_body := by
    intro i j first second hfirst hsecond hrunning hrunning'
    exact hinv.one_holder i j first second hfirst hsecond (by rw [hrunning]; rfl)
      (by rw [hrunning']; rfl)
  one_active := by
    intro i j first second hfirst hsecond hactive hactive' hkey
    have hrecord := hinv.kept i first hfirst hactive
    rw [hkey, hinv.kept j second hsecond hactive'] at hrecord
    exact (Option.some.inj hrecord).symm
  stages := fun build hbuild => (hinv.fits build hbuild).stages
  answers := by
    intro waiter hwaiter answer hanswer
    obtain ⟨build, hbuild, hfits⟩ := hinv.waiters waiter hwaiter
    obtain ⟨result, hresult, hstate, heq⟩ :=
      (hinv.fits build (List.mem_of_getElem? hbuild)).of_outcome (hfits.answer answer hanswer)
    exact ⟨build, result, hbuild, hresult, hstate, heq⟩
  answered := fun index waiter build hwaiter hanswer hbuild hended =>
    hinv.answered hwaiter hanswer hbuild hended

/-- In every reachable state the builds are coordinated, an active record stays registered
over every action, a clean-up removes only its own record, and no later action changes a
record that ended. -/
theorem lifecycle {actions : List Action} {state : State}
    (hsteps : State.Steps State.new actions state) :
    Coordinated state ∧
    (∀ action next, state.step action = some next → ∀ i build, state.builds[i]? = some build →
      build.state.active = true → next.records build.key = some i) ∧
    (∀ index next, state.step (.task index .cleanUp) = some next → ∀ key,
      next.records key ≠ state.records key → state.records key = some index) ∧
    ∀ more next, State.Steps state more next → ∀ (i : ℕ) (build : Build),
      state.builds[i]? = some build →
      ∃ later, next.builds[i]? = some later ∧ Continues build later := by
  have hinv := inv_of_steps hsteps
  refine ⟨hinv.coordinated, ?_, ?_, ?_⟩
  · intro action next hstep i build hbuild hactive
    obtain ⟨later, -, -, hkept⟩ := hinv.step_keeps hstep hbuild
    exact hkept hactive
  · intro index next hstep key hchanged
    obtain ⟨build, advanced, hdone⟩ := exists_taskDone hstep
    rcases hdone.records with hsame | ⟨-, hregistered, hremoved⟩
    · exact absurd (congrFun hsame key) hchanged
    · rw [hremoved] at hchanged
      by_cases hkey : key = build.key
      · rw [hkey]
        exact hregistered
      · exact absurd (Function.update_of_ne hkey _ _) hchanged
  · intro more next hmore i build hbuild
    exact hinv.steps_continue hmore hbuild

/-- A failed build, a retry registered before anything is cleaned up, and the waiter of the
first one. -/
def retried (key : BuildKey) : List Action :=
  [.submit true key none, .wait key, .task 0 .acquire, .task 0 .start,
    .task 0 (.finishBody (.panicked "out of bounds")), .task 0 .release, .task 0 .publish,
    .submit true key none, .task 0 .cleanUp, .poll 0]

def retriedKey : BuildKey where
  sourceIdentity := "documents"
  index := { «namespace» := [], name := "embedding", nonempty := by simp }

/-- The retry is registered under the key, and the waiter learns of the panic. -/
theorem retried_coordinated : ∃ state, State.Steps State.new (retried retriedKey) state ∧
    Coordinated state ∧ state.records retriedKey = some 1 ∧
    state.waiters.map Waiter.answer = [some (.error
      ⟨.buildFailed .backend, "index build task panicked: out of bounds"⟩)] := by
  have hsteps := @Run.of_foldlM _ _ State.new _ State.step (retried retriedKey) rfl
  exact ⟨_, hsteps, (lifecycle hsteps).1, rfl, rfl⟩

end ParqDB.Session.BuildCoordinator
