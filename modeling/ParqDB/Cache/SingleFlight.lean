import ParqDB.Cache.Cancellation
import ParqDB.Cache.Loads

/-!
# Single flight

The cache promises one initialisation at a time for each admitted key.  The promise holds
for each cell.  A key has one cell as long as nobody removes a cell that others still use,
and one caller does: a caller whose load failed removes its cell from the map, but the
callers that wait for the cell go on to initialise it.  The next caller finds no entry, makes
a new cell, and loads at the same time.

**Strategy.**  `Severs` is the bad removal.  As long as there is none, the calls of a key that
wait for an empty cell or load it all hold the cell of the entry (`Flights`), so two loaders
would load the same cell.  After a load the entry has a full cell (`Published`), and it takes
an eviction to change that.

**Results.**

* `single_flight_of_unsevered`: both promises, in every run without a bad removal.
* `failed_call_splits_flight`: three calls of one key, two of which load.
-/

namespace ParqDB.Cache

open Foundations CacheState

variable {K V E : Type}

/-! ## The promises -/

/-- The call runs its loader. -/
def Phase.runsLoader : Phase V E → Bool
  | .bypassing | .loading _ => true
  | _ => false

/-- The cell whose initialisation failed for the call. -/
def Phase.failedCell? : Phase V E → Option ℕ
  | .failed cell _ => some cell
  | _ => none

/-- The call removes its cell in its last critical section. -/
def Phase.unlinks (cache : BoundedAsyncCache) : Phase V E → Bool
  | .failed _ _ => true
  | .loaded _ value => decide (cache.byteCapacity < value.charge)
  | _ => false

namespace System

/-- At most one call of the key runs its loader. -/
def SingleFlight (system : System K V E) (key : K) : Prop :=
  ∀ (left right : ℕ) (first second : Call K V E),
    system.calls[left]? = some first → system.calls[right]? = some second →
    first.key = key → second.key = key →
    first.phase.runsLoader = true → second.phase.runsLoader = true → left = right

/-- Some call of the key runs its loader. -/
def RunsLoader (system : System K V E) (key : K) : Prop :=
  ∃ call ∈ system.calls, call.key = key ∧ call.phase.runsLoader = true

end System

theorem cleansUp_finish_iff {system : System K V E} {id cell : ℕ} :
    CleansUp system (.finish id) cell ↔
      ∃ call ∈ system.calls[id]?, call.phase.failedCell? = some cell := by
  constructor
  · rintro ⟨other, call, error, hother, hcall, hphase⟩
    cases hother
    exact ⟨call, hcall, by rw [hphase]; rfl⟩
  · rintro ⟨call, hcall, hfailed⟩
    cases hphase : call.phase with
    | failed own error =>
        rw [hphase] at hfailed
        cases hfailed
        exact ⟨id, call, error, rfl, hcall, hphase⟩
    | _ => simp [hphase, Phase.failedCell?] at hfailed

instance (system : System K V E) (action : Action K V E) (cell : ℕ) :
    Decidable (CleansUp system action cell) :=
  match action with
  | .finish _ => decidable_of_iff _ cleansUp_finish_iff.symm
  | .call _ | .acquire _ | .observe _ | .load _ _ | .drop _ =>
      .isFalse fun ⟨_, _, _, haction, _⟩ => nomatch haction

variable [DecidableEq K]

/-- The entry of the key is evicted: it leaves, and not because a call removes its own cell. -/
def EvictsKey (cache : BoundedAsyncCache) (key : K) (system : System K V E)
    (action : Action K V E) : Prop :=
  system.state.entries.get? key ≠ none ∧
    (cache.next system action).state.entries.get? key = none ∧
    ∀ id call, action = .finish id → system.calls[id]? = some call →
      call.phase.unlinks cache = false

/-- A call that failed removes the cell of the key, while another call waits for the empty cell
or loads it, or after another call has loaded a value that the cache has room for. -/
def Severs (cache : BoundedAsyncCache) (key : K) (system : System K V E)
    (action : Action K V E) : Prop :=
  ∃ entry, system.state.entries.get? key = some entry ∧ CleansUp system action entry.cell ∧
    ((system.cells[entry.cell]? = some none ∧
        ∃ call ∈ system.calls, call.phase.awaited? = some entry.cell) ∨
      ∃ value, system.cells[entry.cell]? = some (some value) ∧ value.charge ≤ cache.byteCapacity)

instance (cache : BoundedAsyncCache) (key : K) (system : System K V E) (action : Action K V E) :
    Decidable (Severs cache key system action) :=
  decidable_of_iff (∃ entry ∈ system.state.entries.get? key, CleansUp system action entry.cell ∧
    (((∃ content ∈ system.cells[entry.cell]?, content = none) ∧
        ∃ call ∈ system.calls, call.phase.awaited? = some entry.cell) ∨
      ∃ content ∈ system.cells[entry.cell]?, ∃ value ∈ content,
        value.charge ≤ cache.byteCapacity)) <| by
    simp [Severs]

/-! ## What calls of the key hold on to -/

/-- The calls of the key that wait for an empty cell or load it hold the cell of its entry, and
entries with a charge have full cells. -/
structure Flights (key : K) (system : System K V E) : Prop extends Wired system, Loads system where
  chargedFull : ∀ pair ∈ system.state.entries.entries, pair.2.charge ≠ none →
    ∃ value, system.cells[pair.2.cell]? = some (some value)
  awaited : ∀ call ∈ system.calls, call.key = key → ∀ cell, call.phase.awaited? = some cell →
    system.cells[cell]? = some none →
    ∃ entry, (key, entry) ∈ system.state.entries.entries ∧ entry.cell = cell

/-- The entry of the key has a full cell with a value that fits. -/
def Published (cache : BoundedAsyncCache) (key : K) (system : System K V E) : Prop :=
  ∃ entry value, (key, entry) ∈ system.state.entries.entries ∧
    system.cells[entry.cell]? = some (some value) ∧ value.charge ≤ cache.byteCapacity

section

variable {cache : BoundedAsyncCache} {key : K} {system : System K V E}

omit [DecidableEq K] in
theorem flights_initial (key : K) : Flights key (System.initial : System K V E) where
  toWired := wired_initial
  toLoads := loads_initial
  chargedFull := fun _ hpair => absurd hpair List.not_mem_nil
  awaited := fun _ hcall => absurd hcall List.not_mem_nil

variable {cell : ℕ} {action : Action K V E} {phase : Phase V E} {call : Call K V E}

omit [DecidableEq K] in
theorem awaited?_of_loading (hphase : phase = .loading cell) : phase.awaited? = some cell := by
  rw [hphase]
  rfl

omit [DecidableEq K] in
theorem cell?_of_awaited? (hphase : phase.awaited? = some cell) : phase.cell? = some cell := by
  cases phase with
  | waiting other => exact hphase
  | loading other => exact hphase
  | _ => cases hphase

omit [DecidableEq K] in
/-- An empty cell has an entry without a charge. -/
theorem Flights.uncharged (hflights : Flights key system) {pair : K × CacheEntry}
    (hpair : pair ∈ system.state.entries.entries)
    (hempty : system.cells[pair.2.cell]? = some none) : pair.2.charge = none := by
  by_contra hcharge
  obtain ⟨value, hvalue⟩ := hflights.chargedFull pair hpair hcharge
  rw [hempty] at hvalue
  cases hvalue

omit [DecidableEq K] in
/-- Two loaders of one key load one cell, and a cell has one initialiser. -/
theorem Flights.singleFlight (hflights : Flights key system)
    (hroom : ∀ call ∈ system.calls, call.key = key → call.phase ≠ .bypassing) :
    system.SingleFlight key := by
  have hloading : ∀ (position : ℕ) (call : Call K V E), system.calls[position]? = some call →
      call.key = key → call.phase.runsLoader = true →
      ∃ entry, (key, entry) ∈ system.state.entries.entries ∧ call.phase = .loading entry.cell := by
    intro position call hcall hkey hruns
    have hmem := List.mem_of_getElem? hcall
    cases hphase : call.phase with
    | bypassing => exact absurd hphase (hroom call hmem hkey)
    | loading cell =>
        have hempty := hflights.loadingEmpty call hmem cell hphase
        obtain ⟨entry, hentry, rfl⟩ :=
          hflights.awaited call hmem hkey cell (awaited?_of_loading hphase) hempty
        exact ⟨entry, hentry, rfl⟩
    | _ => simp [hphase, Phase.runsLoader] at hruns
  intro left right first second hleft hright hfirst hsecond hfirstruns hsecondruns
  obtain ⟨entry, hentry, hphase⟩ := hloading left first hleft hfirst hfirstruns
  obtain ⟨other, hother, hotherphase⟩ := hloading right second hright hsecond hsecondruns
  rw [LinkedMap.eq_of_mem hother hentry] at hotherphase
  exact hflights.loadingOnce left right first second entry.cell hleft hright hphase hotherphase

omit [DecidableEq K] in
/-- Nobody loads a key whose entry has a full cell. -/
theorem Flights.not_runsLoader (hflights : Flights key system)
    (hpublished : Published cache key system)
    (hroom : ∀ call ∈ system.calls, call.key = key → call.phase ≠ .bypassing) :
    ¬ system.RunsLoader key := by
  rintro ⟨call, hcall, hkey, hruns⟩
  cases hphase : call.phase with
  | bypassing => exact hroom call hcall hkey hphase
  | loading cell =>
      have hempty := hflights.loadingEmpty call hcall cell hphase
      obtain ⟨entry, hentry, rfl⟩ :=
        hflights.awaited call hcall hkey cell (awaited?_of_loading hphase) hempty
      obtain ⟨published, value, hpublishedentry, hvalue, -⟩ := hpublished
      rw [LinkedMap.eq_of_mem hpublishedentry hentry, hempty] at hvalue
      cases hvalue
  | _ => simp [hphase, Phase.runsLoader] at hruns

/-! ## Steps -/

/-- A call that waits for an empty cell or loads it did so before the step, unless it is new and
waits for the cell of an entry. -/
theorem Flights.awaited_next (hflights : Flights key system)
    (hcall : call ∈ (cache.next system action).calls) (hcell : call.phase.awaited? = some cell)
    (hempty : (cache.next system action).cells[cell]? = some none) :
    (∃ old ∈ system.calls, old.key = call.key ∧ old.phase.awaited? = some cell ∧
      system.cells[cell]? = some none) ∨
    ∃ entry, (call.key, entry) ∈ (cache.next system action).state.entries.entries ∧
      entry.cell = cell := by
  -- full cells stay full, and the cells of calls are not new
  have hbefore : ∀ old ∈ system.calls, old.phase.awaited? = some cell →
      system.cells[cell]? = some none := by
    intro old hold hawaited
    have hrange := hflights.callCells old hold cell (cell?_of_awaited? hawaited)
    cases hcontent : system.cells[cell] with
    | none => rw [List.getElem?_eq_getElem hrange, hcontent]
    | some value =>
        have hfull : system.cells[cell]? = some (some value) := by
          rw [List.getElem?_eq_getElem hrange, hcontent]
        rw [hflights.toLoads.full_next action hfull] at hempty
        cases hempty
  have hkept : call ∈ system.calls →
      ∃ old ∈ system.calls, old.key = call.key ∧ old.phase.awaited? = some cell ∧
        system.cells[cell]? = some none :=
    fun hold => ⟨call, hold, rfl, hcell, hbefore call hold hcell⟩
  have hsteps := cache.next_steps system action
  generalize cache.next system action = after at hsteps hcall ⊢
  cases hsteps with
  | stays => exact Or.inl (hkept hcall)
  | @enter entered =>
      rcases enter_cases cache system entered with
        ⟨state, -, henter⟩ | ⟨state, entry, -, hentry, henter⟩ |
        ⟨state, hevictions, -, habsent, henter⟩
      · rw [henter] at hcall
        rcases List.mem_append.mp hcall with hold | hnew
        · exact Or.inl (hkept hold)
        · rw [List.mem_singleton.mp hnew] at hcell
          cases hcell
      · rw [henter] at hcall ⊢
        rcases List.mem_append.mp hcall with hold | hnew
        · exact Or.inl (hkept hold)
        · rw [List.mem_singleton.mp hnew] at hcell ⊢
          cases hcell
          exact Or.inr ⟨entry, hentry, rfl⟩
      · rw [henter] at hcall ⊢
        rcases List.mem_append.mp hcall with hold | hnew
        · exact Or.inl (hkept hold)
        · rw [List.mem_singleton.mp hnew] at hcell ⊢
          cases hcell
          have hgone := hevictions.get?_eq_none habsent
          exact Or.inr ⟨_, (LinkedMap.perm_insert hgone).mem_iff.mpr List.mem_cons_self, rfl⟩
  | @moves _ id moved phase hmoved hmoves =>
      rcases System.mem_calls_setPhase hmoved hcall with hold | rfl
      · exact Or.inl (hkept hold)
      · have hmem := List.mem_of_getElem? hmoved
        have hawaited : moved.phase.awaited? = some cell := by
          obtain ⟨movedkey, old⟩ := moved
          cases hmoves with
          | acquire hcontent hfree => exact hcell
          | _ => cases hcell
        exact Or.inl ⟨moved, hmem, rfl, hawaited, hbefore moved hmem hawaited⟩
  | store hmoved | fail hmoved | settle hmoved =>
      rcases System.mem_calls_setPhase hmoved hcall with hold | rfl
      · exact Or.inl (hkept hold)
      · cases hcell

theorem Flights.next (hflights : Flights key system) (hsevers : ¬ Severs cache key system action) :
    Flights key (cache.next system action) where
  toWired := hflights.toWired.next action
  toLoads := hflights.toLoads.next action
  chargedFull := by
    intro pair hpair hcharge
    have hfull : ∃ value, system.cells[pair.2.cell]? = some (some value) := by
      rcases hflights.toLoads.entries_next hpair with
        ⟨old, hold, -, hcell, hsame | hfull⟩ | ⟨hnone, -⟩
      · rw [← hcell]
        exact hflights.chargedFull old hold (hsame ▸ hcharge)
      · exact hfull
      · exact absurd hnone hcharge
    obtain ⟨value, hvalue⟩ := hfull
    exact ⟨value, hflights.toLoads.full_next action hvalue⟩
  awaited := by
    intro call hcall hkey cell hcell hempty
    rcases hflights.awaited_next hcall hcell hempty with
      ⟨old, hold, holdkey, hawaited, hbefore⟩ | ⟨entry, hentry, hentrycell⟩
    · obtain ⟨entry, hentry, rfl⟩ :=
        hflights.awaited old hold (holdkey.trans hkey) cell hawaited hbefore
      refine ⟨entry, ?_, rfl⟩
      apply hflights.toLoads.mem_entries_next hentry (hflights.uncharged hentry hbefore) hbefore
      intro hclean
      exact hsevers ⟨entry, LinkedMap.get?_eq_some_iff.mpr hentry, hclean,
        Or.inl ⟨hbefore, old, hold, hawaited⟩⟩
    · exact ⟨entry, hkey ▸ hentry, hentrycell⟩

variable {entry : CacheEntry} {value : LoadedValue V}

/-- A removal that takes the entry of a key takes it from a call of its cell. -/
theorem cell_of_removed {state : CacheState K} {other : K}
    (hentry : (key, entry) ∈ state.entries.entries)
    (hgone : (state.removeMatchingCell other cell).entries.get? key = none) :
    entry.cell = cell := by
  by_contra hcell
  have hstays : (key, entry) ∈ (state.removeMatchingCell other cell).entries.entries :=
    mem_removeMatchingCell_of_cell_ne hentry hcell
  exact LinkedMap.get?_eq_none_iff.mp hgone _ hstays rfl

/-- A published entry stays unless it is evicted. -/
theorem Published.stays (hflights : Flights key system)
    (hentry : (key, entry) ∈ system.state.entries.entries)
    (hvalue : system.cells[entry.cell]? = some (some value))
    (hfits : value.charge ≤ cache.byteCapacity) (hsevers : ¬ Severs cache key system action)
    (hevicts : ¬ EvictsKey cache key system action) :
    (cache.next system action).state.entries.get? key ≠ none := by
  intro hgone
  have hbefore := LinkedMap.get?_eq_some_iff.mpr hentry
  have hunlinks : ∃ id call, action = .finish id ∧ system.calls[id]? = some call ∧
      call.phase.unlinks cache = true := by
    by_contra hnone
    refine hevicts ⟨by rw [hbefore]; exact Option.some_ne_none _, hgone, ?_⟩
    intro id call haction hcall
    by_contra hunlinks
    exact hnone ⟨id, call, haction, hcall, by simpa using hunlinks⟩
  obtain ⟨id, call, rfl, hcall, hunlinks⟩ := hunlinks
  cases hphase : call.phase with
  | failed cell error =>
      have hremoved : (system.state.removeMatchingCell call.key cell).entries.get? key = none := by
        simpa [BoundedAsyncCache.next, BoundedAsyncCache.perform, hcall, hphase, System.setPhase]
          using hgone
      have hcell := cell_of_removed hentry hremoved
      exact hsevers ⟨entry, hbefore, ⟨id, call, error, rfl, hcall, hcell ▸ hphase⟩,
        Or.inr ⟨value, hvalue, hfits⟩⟩
  | loaded cell loaded =>
      have hover : cache.byteCapacity < loaded.charge := by
        simpa [hphase, Phase.unlinks] using hunlinks
      have hremoved : (system.state.removeMatchingCell call.key cell).entries.get? key = none := by
        simpa [BoundedAsyncCache.next, BoundedAsyncCache.perform, hcall, hphase, System.setPhase,
          BoundedAsyncCache.settle, hover] using hgone
      have hcell := cell_of_removed hentry hremoved
      have hloaded := hflights.loadedValues call (List.mem_of_getElem? hcall) cell loaded hphase
      rw [← hcell, hvalue] at hloaded
      cases hloaded
      omega
  | _ => simp [hphase, Phase.unlinks] at hunlinks

theorem Published.next (hflights : Flights key system) (hpublished : Published cache key system)
    (hsevers : ¬ Severs cache key system action) (hevicts : ¬ EvictsKey cache key system action) :
    Published cache key (cache.next system action) := by
  obtain ⟨entry, value, hentry, hvalue, hfits⟩ := hpublished
  obtain ⟨kept, hkept⟩ := Option.ne_none_iff_exists'.mp
    (Published.stays hflights hentry hvalue hfits hsevers hevicts)
  have hmem := LinkedMap.get?_eq_some_iff.mp hkept
  rcases hflights.toLoads.entries_next hmem with ⟨old, hold, holdkey, hcell, -⟩ | ⟨-, habsent⟩
  · obtain ⟨oldkey, oldentry⟩ := old
    cases holdkey
    rw [LinkedMap.eq_of_mem hold hentry] at hcell
    refine ⟨kept, value, hmem, ?_, hfits⟩
    rw [← hcell]
    exact hflights.toLoads.full_next action hvalue
  · rw [LinkedMap.get?_eq_some_iff.mpr hentry] at habsent
    cases habsent

/-- A call of the key that loads a value publishes it. -/
theorem Flights.publishes (hflights : Flights key system) {id : ℕ}
    (hcall : system.calls[id]? = some call) (hkey : call.key = key)
    (hphase : call.phase = .loading cell) (hfits : value.charge ≤ cache.byteCapacity) :
    Published cache key (cache.next system (.load id (.ok value))) := by
  have hmem := List.mem_of_getElem? hcall
  have hempty := hflights.loadingEmpty call hmem cell hphase
  obtain ⟨entry, hentry, rfl⟩ :=
    hflights.awaited call hmem hkey cell (awaited?_of_loading hphase) hempty
  have hnext : cache.next system (.load id (.ok value)) =
      { system with cells := system.cells.set entry.cell (some value) }.setPhase id
        (.loaded entry.cell value) := by
    simp [BoundedAsyncCache.next, BoundedAsyncCache.perform, hcall, hphase]
  rw [hnext]
  exact ⟨entry, value, hentry, List.getElem?_set_self (List.getElem?_eq_some_iff.mp hempty).1, hfits⟩

/-! ## Runs -/

/-- In every run of calls, as long as no failed call removes a cell that others of its key use:
no two calls of the key run their loaders at once, and after a load of a value that fits no
loader runs for the key until its entry is evicted. -/
theorem single_flight_of_unsevered (cache : BoundedAsyncCache) (key : K)
    (actions : List (Action K V E))
    (hroom : ∀ system ∈ statesOf cache.next System.initial actions,
      ∀ call ∈ system.calls, call.key = key → call.phase ≠ .bypassing)
    (hwhole : ∀ step ∈ stepsOf cache.next System.initial actions,
      ¬ Severs cache key step.1 step.2) :
    (∀ system ∈ statesOf cache.next System.initial actions, system.SingleFlight key) ∧
    ∀ (before after : List (Action K V E)) (id : ℕ) (value : LoadedValue V) (call : Call K V E),
      actions = before ++ .load id (.ok value) :: after →
      (before.foldl cache.next System.initial).calls[id]? = some call → call.key = key →
      call.phase.runsLoader = true → value.charge ≤ cache.byteCapacity →
      (∀ step ∈ stepsOf cache.next
          (cache.next (before.foldl cache.next System.initial) (.load id (.ok value))) after,
        ¬ EvictsKey cache key step.1 step.2) →
      ∀ system ∈ statesOf cache.next
          (cache.next (before.foldl cache.next System.initial) (.load id (.ok value))) after,
        ¬ system.RunsLoader key := by
  have hflights : ∀ system ∈ statesOf cache.next System.initial actions, Flights key system :=
    forall_mem_statesOf (fun system action hsystem hsevers => hsystem.next hsevers)
      (flights_initial key) hwhole
  refine ⟨fun system hsystem => (hflights system hsystem).singleFlight (hroom system hsystem), ?_⟩
  intro before after id value call hactions hcall hkey hruns hfits hspared
  subst hactions
  have hmiddle : before.foldl cache.next System.initial ∈
      statesOf cache.next System.initial (before ++ .load id (.ok value) :: after) :=
    mem_statesOf_append List.mem_cons_self
  have hlater : ∀ system ∈ statesOf cache.next
      (cache.next (before.foldl cache.next System.initial) (.load id (.ok value))) after,
      system ∈ statesOf cache.next System.initial (before ++ .load id (.ok value) :: after) :=
    fun system hsystem => mem_statesOf_append (List.mem_cons_of_mem _ hsystem)
  have hpublished : Published cache key
      (cache.next (before.foldl cache.next System.initial) (.load id (.ok value))) := by
    have hbefore := hflights _ hmiddle
    cases hphase : call.phase with
    | bypassing => exact absurd hphase (hroom _ hmiddle call (List.mem_of_getElem? hcall) hkey)
    | loading cell => exact hbefore.publishes hcall hkey hphase hfits
    | _ => simp [hphase, Phase.runsLoader] at hruns
  -- published, and no step of the rest severs or evicts
  have hstep : ∀ (system : System K V E) (action : Action K V E),
      Flights key system ∧ Published cache key system →
      ¬ Severs cache key system action ∧ ¬ EvictsKey cache key system action →
      Flights key (cache.next system action) ∧ Published cache key (cache.next system action) :=
    fun system action hsystem hgood => ⟨hsystem.1.next hgood.1,
      hsystem.2.next hsystem.1 hgood.1 hgood.2⟩
  have hfirst : Flights key
      (cache.next (before.foldl cache.next System.initial) (.load id (.ok value))) := by
    apply hflights
    apply hlater
    cases after <;> exact List.mem_cons_self
  have hrest := forall_mem_statesOf hstep ⟨hfirst, hpublished⟩ fun step hstep => by
    refine ⟨hwhole step ?_, hspared step hstep⟩
    rw [stepsOf_append]
    exact List.mem_append_right _ (List.mem_cons_of_mem _ hstep)
  intro system hsystem
  obtain ⟨hsystemflights, hsystempublished⟩ := hrest system hsystem
  exact hsystemflights.not_runsLoader hsystempublished (hroom system (hlater system hsystem))

end

/-- A load that fails and is cleaned up before two more calls of its key come, then a load of a
value that fits, and a call that finds it. -/
def retriedLoads : List (Action ℕ ℕ String) :=
  [.call 0, .acquire 0, .load 0 (.error "unreachable"), .finish 0, .call 0, .call 0, .acquire 1]

def servedLoads : List (Action ℕ ℕ String) :=
  [.finish 1, .observe 2, .finish 2, .call 0, .observe 3, .finish 3]

theorem single_flight_of_retriedLoads :
    (∀ system ∈ statesOf sampleCache.next System.initial
        (retriedLoads ++ .load 1 (.ok ⟨7, 60⟩) :: servedLoads), system.SingleFlight 0) ∧
    ∀ system ∈ statesOf sampleCache.next (sampleCache.next
        (retriedLoads.foldl sampleCache.next System.initial) (.load 1 (.ok ⟨7, 60⟩))) servedLoads,
      ¬ system.RunsLoader 0 := by
  have hpromises := single_flight_of_unsevered sampleCache 0
    (retriedLoads ++ .load 1 (.ok ⟨7, 60⟩) :: servedLoads) (by decide) (by decide)
  refine ⟨hpromises.1, ?_⟩
  apply hpromises.2 retriedLoads servedLoads 1 ⟨7, 60⟩ ⟨0, .loading 1⟩ rfl (by decide) rfl rfl
  · decide
  · have hstays : ∀ step ∈ stepsOf sampleCache.next (sampleCache.next
        (retriedLoads.foldl sampleCache.next System.initial) (.load 1 (.ok ⟨7, 60⟩))) servedLoads,
        (sampleCache.next step.1 step.2).state.entries.get? 0 ≠ none := by decide
    intro step hstep hevicts
    exact hstays step hstep hevicts.2.1

/-- Two calls wait for one cell.  The first fails; the second takes over the cell and loads;
then the first removes the cell, and a third call makes another one and loads. -/
def splitLoads : List (Action ℕ ℕ String) :=
  [.call 0, .call 0, .acquire 0, .load 0 (.error "unreachable"), .acquire 1, .finish 0,
    .call 0, .acquire 2]

/-- There is room throughout, and two loaders run for the key in the end. -/
theorem failed_call_splits_flight :
    ¬ ∀ (cache : BoundedAsyncCache) (key : ℕ) (actions : List (Action ℕ ℕ String)),
      0 < cache.entryCapacity → 0 < cache.byteCapacity →
      (∀ system ∈ statesOf cache.next System.initial actions, ∀ call ∈ system.calls,
        call.key = key ∧ call.phase ≠ .bypassing) →
      ∀ system ∈ statesOf cache.next System.initial actions, system.SingleFlight key := by
  intro hpromise
  have hsingle := hpromise sampleCache 0 splitLoads (by decide) (by decide) (by decide)
    (splitLoads.foldl sampleCache.next System.initial) foldl_mem_statesOf
  have hsame := hsingle 1 2 ⟨0, .loading 0⟩ ⟨0, .loading 1⟩ (by decide) (by decide) rfl rfl rfl rfl
  cases hsame

end ParqDB.Cache
