import ParqDB.Cache.Wiring

/-!
# Dropped calls of the bounded asynchronous cache

An entry without a charge cannot be evicted.  It gets its charge, or leaves the map, in the
last critical section of a call that holds its cell.  A call whose future is dropped never
gets there, and nothing else cleans up after it.

**Results.**

* `dropped_load_blocks_entry`: after one call that is dropped while it loads, its entry
  stays for ever in the way.
* `pending_entries_attended`: as long as no dropped call is the last one that holds the cell
  of an entry without a charge (`Abandons`), every such entry has a call in progress.
-/

namespace ParqDB.Cache

open Foundations CacheState

variable {K V E : Type} [DecidableEq K]

/-! ## The property -/

/-- Some call in progress holds the cell. -/
def Held (system : System K V E) (cell : ℕ) : Prop :=
  ∃ call ∈ system.calls, call.phase.cell? = some cell

/-- Every entry without a charge has a call in progress that holds its cell. -/
def Attended (system : System K V E) : Prop :=
  ∀ pair ∈ system.state.entries.entries, pair.2.charge = none → Held system pair.2.cell

/-- The entries that cannot be evicted. -/
def unevictable (system : System K V E) : List (K × CacheEntry) :=
  system.state.entries.entries.filter fun pair => pair.2.charge = none

def callsInProgress (system : System K V E) : List (Call K V E) :=
  system.calls.filter fun call => call.phase.inProgress

/-- A key that no call waits on has a charged entry or none, and there are at most as many
entries that cannot be evicted as calls in progress. -/
def Unblocked (system : System K V E) : Prop :=
  (∀ key, (∀ call ∈ system.calls, call.key = key → call.phase.cell? = none) →
    ∀ entry, system.state.entries.get? key = some entry → entry.charge ≠ none) ∧
  (unevictable system).length ≤ (callsInProgress system).length

/-- The cell that a call awaits. -/
def Phase.awaited? : Phase V E → Option ℕ
  | .waiting cell | .loading cell => some cell
  | _ => none

/-- The future of the last call that holds the cell of an entry without a charge is dropped. -/
def Abandons (system : System K V E) : Action K V E → Prop
  | .drop id => ∃ call ∈ system.calls[id]?, ∃ cell ∈ call.phase.awaited?,
      (∃ pair ∈ system.state.entries.entries, pair.2.cell = cell ∧ pair.2.charge = none) ∧
        ∀ other ∈ system.calls.eraseIdx id, other.phase.cell? ≠ some cell
  | _ => False

instance (system : System K V E) (action : Action K V E) : Decidable (Abandons system action) :=
  match action with
  | .drop id => inferInstanceAs (Decidable (∃ call ∈ system.calls[id]?, _))
  | .call _ | .acquire _ | .observe _ | .load _ _ | .finish _ => .isFalse fun habandons => habandons

/-! ## Attended entries do not block -/

omit [DecidableEq K] in
theorem inProgress_of_cell? {phase : Phase V E} {cell : ℕ} (hcell : phase.cell? = some cell) :
    phase.inProgress = true := by
  cases phase with
  | bypassing => cases hcell
  | finished result => cases hcell
  | dropped => cases hcell
  | waiting other => rfl
  | loading other => rfl
  | failed other error => rfl
  | loaded other value => rfl

variable {system : System K V E}

omit [DecidableEq K] in
/-- Different entries have different cells, and a call holds one cell. -/
theorem length_unevictable_le (hwired : Wired system) (hattended : Attended system) :
    (unevictable system).length ≤ (callsInProgress system).length := by
  have hnodup : ((unevictable system).map fun pair => pair.2.cell).Nodup :=
    hwired.uniqueCells.sublist (List.filter_sublist.map _)
  have hheld : (unevictable system).map (fun pair => pair.2.cell) ⊆
      (callsInProgress system).filterMap fun call => call.phase.cell? := by
    intro cell hcell
    obtain ⟨pair, hpair, rfl⟩ := List.mem_map.mp hcell
    obtain ⟨hentry, hcharge⟩ := List.mem_filter.mp hpair
    obtain ⟨call, hcall, hphase⟩ := hattended pair hentry (of_decide_eq_true hcharge)
    refine List.mem_filterMap.mpr ⟨call, List.mem_filter.mpr ⟨hcall, ?_⟩, hphase⟩
    exact inProgress_of_cell? hphase
  calc (unevictable system).length
      = ((unevictable system).map fun pair => pair.2.cell).length := (List.length_map _).symm
    _ ≤ ((callsInProgress system).filterMap fun call => call.phase.cell?).length :=
        (List.subperm_of_subset hnodup hheld).length_le
    _ ≤ (callsInProgress system).length := List.length_filterMap_le _ _

theorem Attended.unblocked (hwired : Wired system) (hattended : Attended system) :
    Unblocked system := by
  refine ⟨fun key hidle entry hentry hcharge => ?_, length_unevictable_le hwired hattended⟩
  have hmem := LinkedMap.get?_eq_some_iff.mp hentry
  obtain ⟨call, hcall, hcell⟩ := hattended (key, entry) hmem hcharge
  have hkey := hwired.callKeys call hcall entry.cell hcell (key, entry) hmem rfl
  rw [hidle call hcall hkey.symm] at hcell
  cases hcell

/-! ## Steps -/

section

variable {cache : BoundedAsyncCache} {id : ℕ} {call : Call K V E} {cell : ℕ} {pair : K × CacheEntry}
  {phase : Phase V E}

omit [DecidableEq K] in
/-- A call that moves to another phase stops to hold at most its own cell. -/
theorem held_setPhase (hcall : system.calls[id]? = some call) (hheld : Held system cell)
    (hself : call.phase.cell? = some cell → phase.cell? = some cell ∨
      ∃ other ∈ system.calls.eraseIdx id, other.phase.cell? = some cell) :
    Held (system.setPhase id phase) cell := by
  have hother : ∀ (position : ℕ) (other : Call K V E), position ≠ id →
      system.calls[position]? = some other → other.phase.cell? = some cell →
      Held (system.setPhase id phase) cell := by
    intro position other hposition hmem hcell
    have hsame : (system.setPhase id phase).calls[position]? = some other := by
      rw [System.getElem?_setPhase, if_neg (Ne.symm hposition)]
      exact hmem
    exact ⟨other, List.mem_of_getElem? hsame, hcell⟩
  obtain ⟨holder, hholder, hcell⟩ := hheld
  obtain ⟨position, hposition⟩ := List.mem_iff_getElem?.mp hholder
  by_cases hid : position = id
  · subst hid
    rw [hcall] at hposition
    cases hposition
    rcases hself hcell with hsame | ⟨other, herased, hothercell⟩
    · have hmoved : (system.setPhase position phase).calls[position]? =
          some { call with phase := phase } := by
        rw [System.getElem?_setPhase, if_pos rfl, hcall]
        rfl
      exact ⟨_, List.mem_of_getElem? hmoved, hsame⟩
    · obtain ⟨otherposition, hdifferent, hmem⟩ := List.mem_eraseIdx_iff_getElem?.mp herased
      exact hother otherposition other hdifferent hmem hothercell
  · exact hother position holder hid hposition hcell

omit [DecidableEq K] in
/-- A call gives up a cell in one move only when it is dropped. -/
theorem Moves.dropped_of_cell?_ne {old : Phase V E} (hmoves : Moves system old phase)
    (hcell : old.cell? = some cell) (hgiven : phase.cell? ≠ some cell) :
    phase = .dropped ∧ old.awaited? = some cell := by
  cases hmoves with
  | acquire hempty hfree => exact absurd hcell hgiven
  | observe hvalue => exact absurd hcell hgiven
  | fail => exact absurd hcell hgiven
  | bypass => cases hcell
  | dropBypassing => cases hcell
  | dropWaiting =>
      exact ⟨rfl, hcell⟩
  | dropLoading =>
      exact ⟨rfl, hcell⟩

/-- After a clean-up no entry has the cell. -/
theorem mem_entries_removeMatchingCell (hwired : Wired system) (hcall : call ∈ system.calls)
    (hcell : call.phase.cell? = some cell)
    (hpair : pair ∈ (system.state.removeMatchingCell call.key cell).entries.entries) :
    pair ∈ system.state.entries.entries ∧ pair.2.cell ≠ cell := by
  rcases system.state.removeMatchingCell_cases call.key cell with
    ⟨found, -, hfound, hleaves, -⟩ | ⟨hsame, hnone⟩
  · have hunique := (hleaves.entries.map fun pair => pair.2.cell).nodup_iff.mp hwired.uniqueCells
    rw [List.map_cons, List.nodup_cons] at hunique
    refine ⟨hleaves.entries.mem_iff.mpr (List.mem_cons_of_mem _ hpair), fun hsame => hunique.1 ?_⟩
    exact List.mem_map.mpr ⟨pair, hpair, hsame.trans hfound.symm⟩
  · rw [hsame] at hpair
    refine ⟨hpair, fun hpaircell => ?_⟩
    have hkey := hwired.callKeys call hcall cell hcell pair hpair hpaircell
    obtain ⟨key, entry⟩ := pair
    dsimp only at hkey
    exact hnone entry (hkey ▸ hpair) hpaircell

/-- After a successful load no entry without a charge has the cell. -/
theorem mem_entries_settle_uncharged (hwired : Wired system) (hcall : call ∈ system.calls)
    {charge : ℕ} (hcell : call.phase.cell? = some cell)
    (hpair : pair ∈ (cache.settle system.state call.key cell charge).entries.entries)
    (huncharged : pair.2.charge = none) :
    pair ∈ system.state.entries.entries ∧ pair.2.cell ≠ cell := by
  rcases cache.settle_cases system.state call.key cell charge with
    ⟨-, hremove⟩ | ⟨hsame, hcharged⟩ | ⟨-, entry, charged, hentry, hcharges, hsettle⟩
  · rw [hremove] at hpair
    exact mem_entries_removeMatchingCell hwired hcall hcell hpair
  · rw [hsame] at hpair
    refine ⟨hpair, fun hpaircell => ?_⟩
    have hkey := hwired.callKeys call hcall cell hcell pair hpair hpaircell
    obtain ⟨key, other⟩ := pair
    dsimp only at hkey
    exact hcharged other (hkey ▸ hpair) hpaircell huncharged
  · rw [hsettle] at hpair
    obtain ⟨rest, hbefore, hafter⟩ := hcharges.entries
    have hkept := (cache.evictToByteRounds_spec _ charged).subset hpair
    rcases List.mem_cons.mp (hafter.mem_iff.mp hkept) with rfl | hrest
    · cases huncharged
    · have hunique := (hbefore.map fun pair => pair.2.cell).nodup_iff.mp hwired.uniqueCells
      rw [List.map_cons, List.nodup_cons] at hunique
      refine ⟨hbefore.mem_iff.mpr (List.mem_cons_of_mem _ hrest), fun hsame => hunique.1 ?_⟩
      exact List.mem_map.mpr ⟨pair, hrest, hsame.trans hentry.symm⟩

theorem Attended.enter (hattended : Attended system) (key : K) :
    Attended (cache.enter system key) := by
  have hadd : ∀ (state : CacheState K) (cells : List (Option (LoadedValue V)))
      (added : Call K V E) (cell : ℕ), Held system cell →
      Held (⟨state, cells, system.calls ++ [added]⟩ : System K V E) cell := by
    rintro state cells added cell ⟨holder, hholder, hcell⟩
    exact ⟨holder, List.mem_append_left _ hholder, hcell⟩
  rcases enter_cases cache system key with
    ⟨state, hevictions, henter⟩ | ⟨state, entry, hrotates, -, henter⟩ |
    ⟨state, hevictions, -, habsent, henter⟩
  · rw [henter]
    intro pair hpair hcharge
    exact hadd _ _ _ _ (hattended pair (hevictions.subset hpair) hcharge)
  · rw [henter]
    intro pair hpair hcharge
    exact hadd _ _ _ _ (hattended pair (hrotates.entries.mem_iff.mp hpair) hcharge)
  · rw [henter]
    intro pair hpair hcharge
    have hgone := hevictions.get?_eq_none habsent
    rcases List.mem_cons.mp ((LinkedMap.perm_insert hgone).mem_iff.mp hpair) with rfl | hold
    · exact ⟨⟨key, .waiting system.cells.length⟩, List.mem_append_right _ List.mem_cons_self, rfl⟩
    · exact hadd _ _ _ _ (hattended pair (hevictions.subset hold) hcharge)

/-- One step, unless it drops the last call that holds the cell of an entry without a charge. -/
theorem Attended.next (hwired : Wired system) (hattended : Attended system)
    {action : Action K V E} (hkeeps : ¬ Abandons system action) :
    Attended (cache.next system action) := by
  have hsteps := cache.next_steps system action
  generalize cache.next system action = after at hsteps ⊢
  cases hsteps with
  | stays => exact hattended
  | enter => exact hattended.enter _
  | @moves _ id call phase hcall hmoves hdrop =>
      intro pair hpair hcharge
      refine held_setPhase hcall (hattended pair hpair hcharge) fun hcell => ?_
      by_cases hsame : phase.cell? = some pair.2.cell
      · exact Or.inl hsame
      · refine Or.inr ?_
        by_contra hlast
        obtain ⟨hdropped, hawait⟩ := hmoves.dropped_of_cell?_ne hcell hsame
        rw [hdrop hdropped] at hkeeps
        refine hkeeps ⟨call, hcall, pair.2.cell, hawait, ⟨pair, hpair, rfl, hcharge⟩, ?_⟩
        intro other hother hheld
        exact hlast ⟨other, hother, hheld⟩
  | @store id cell call value hcall hphase =>
      intro pair hpair hcharge
      refine held_setPhase hcall (hattended pair hpair hcharge) fun hcell => Or.inl ?_
      rw [hphase] at hcell
      exact hcell
  | @fail id cell call error hcall hphase =>
      have hcell : call.phase.cell? = some cell := by rw [hphase]; rfl
      intro pair hpair hcharge
      obtain ⟨hold, hdifferent⟩ :=
        mem_entries_removeMatchingCell hwired (List.mem_of_getElem? hcall) hcell hpair
      refine held_setPhase hcall (hattended pair hold hcharge) fun hsame => ?_
      rw [hcell] at hsame
      exact absurd (Option.some.inj hsame).symm hdifferent
  | @settle id cell call value hcall hphase =>
      have hcell : call.phase.cell? = some cell := by rw [hphase]; rfl
      intro pair hpair hcharge
      obtain ⟨hold, hdifferent⟩ :=
        mem_entries_settle_uncharged hwired (List.mem_of_getElem? hcall) hcell hpair hcharge
      refine held_setPhase hcall (hattended pair hold hcharge) fun hsame => ?_
      rw [hcell] at hsame
      exact absurd (Option.some.inj hsame).symm hdifferent

end

/-! ## Runs -/

/-- As long as no dropped call is the last one that holds the cell of an entry without a charge,
cancelled loads block nothing. -/
theorem pending_entries_attended (cache : BoundedAsyncCache) (actions : List (Action K V E))
    (hkeeps : ∀ step ∈ stepsOf cache.next System.initial actions, ¬ Abandons step.1 step.2) :
    ∀ system ∈ statesOf cache.next System.initial actions, Unblocked system := by
  have hinvariant : ∀ system ∈ statesOf cache.next System.initial actions,
      Wired system ∧ Attended system := by
    have hstep : ∀ (system : System K V E) (action : Action K V E),
        Wired system ∧ Attended system → ¬ Abandons system action →
        Wired (cache.next system action) ∧ Attended (cache.next system action) := by
      rintro system action ⟨hwired, hattended⟩ hkept
      exact ⟨hwired.next action, hattended.next hwired hkept⟩
    refine forall_mem_statesOf hstep ⟨wired_initial, ?_⟩ hkeeps
    intro pair hpair
    exact absurd hpair List.not_mem_nil
  intro system hsystem
  obtain ⟨hwired, hattended⟩ := hinvariant system hsystem
  exact hattended.unblocked hwired

/-- One call loads a value into a cache for one entry and its future is dropped meanwhile. -/
def droppedLoad : List (Action ℕ ℕ String) := [.call 0, .acquire 0, .drop 0]

/-- No call is in progress, and the entry can neither be charged nor evicted. -/
theorem dropped_load_blocks_entry :
    ¬ ∀ (cache : BoundedAsyncCache) (actions : List (Action ℕ ℕ String)),
      ∀ system ∈ statesOf cache.next System.initial actions, Unblocked system := by
  intro hunblocked
  have hlast := (hunblocked sampleCache droppedLoad _ foldl_mem_statesOf).2
  exact absurd hlast (by decide)

/-- A load that another call waits for may be dropped. -/
def sharedLoad : List (Action ℕ ℕ String) :=
  [.call 0, .call 0, .acquire 0, .drop 0, .acquire 1, .load 1 (.ok ⟨7, 60⟩), .finish 1]

theorem sharedLoad_unblocked :
    (∀ step ∈ stepsOf sampleCache.next System.initial sharedLoad, ¬ Abandons step.1 step.2) ∧
      ∀ system ∈ statesOf sampleCache.next System.initial sharedLoad, Unblocked system := by
  have hkeeps : ∀ step ∈ stepsOf sampleCache.next System.initial sharedLoad,
      ¬ Abandons step.1 step.2 := by decide
  exact ⟨hkeeps, pending_entries_attended sampleCache sharedLoad hkeeps⟩

end ParqDB.Cache
