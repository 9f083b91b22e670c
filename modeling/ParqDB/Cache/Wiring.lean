import ParqDB.Cache.Evictions

/-!
# How calls, cells and entries fit together

What a step of the bounded asynchronous cache can do, and the part of its invariant that
holds whatever the capacities: every cell is in at most one entry, under the key of the
calls that hold it.

**Strategy.**  `next_steps` says once what a step can do.  Every change of the locked
state is one of those of `CacheState` (`Leaves`, `Charges`, `Evictions`), and none of these
moves a cell to another key (`Wired.shrink`).
-/

namespace ParqDB.Cache

open Foundations CacheState

variable {K V E : Type} [DecidableEq K]

/-! ## What a step can do -/

/-- A change of one call that leaves the cache and the cells alone. -/
inductive Moves (system : System K V E) : Phase V E → Phase V E → Prop
  | acquire {cell : ℕ} (hempty : system.cells[cell]? = some none) (hfree : ¬ system.Loading cell) :
      Moves system (.waiting cell) (.loading cell)
  | observe {cell : ℕ} {value : LoadedValue V} (hvalue : system.cells[cell]? = some (some value)) :
      Moves system (.waiting cell) (.loaded cell value)
  | fail {cell : ℕ} {error : E} : Moves system (.loading cell) (.failed cell error)
  | bypass {result : Except E V} : Moves system .bypassing (.finished result)
  | dropBypassing : Moves system .bypassing .dropped
  | dropWaiting {cell : ℕ} : Moves system (.waiting cell) .dropped
  | dropLoading {cell : ℕ} : Moves system (.loading cell) .dropped

namespace BoundedAsyncCache

variable {cache : BoundedAsyncCache} {system after : System K V E} {action : Action K V E}

/-- All that a step can do. -/
inductive Steps (cache : BoundedAsyncCache) (system : System K V E) :
    Action K V E → System K V E → Prop
  | stays {action : Action K V E} : Steps cache system action system
  | enter {key : K} : Steps cache system (.call key) (cache.enter system key)
  | moves {action : Action K V E} {id : ℕ} {call : Call K V E} {phase : Phase V E}
      (hcall : system.calls[id]? = some call) (hmoves : Moves system call.phase phase)
      (hdrop : phase = .dropped → action = .drop id) (hfinish : ∀ other, action ≠ .finish other) :
      Steps cache system action (system.setPhase id phase)
  | store {id cell : ℕ} {call : Call K V E} {value : LoadedValue V}
      (hcall : system.calls[id]? = some call) (hphase : call.phase = .loading cell) :
      Steps cache system (.load id (.ok value))
        ({ system with cells := system.cells.set cell (some value) }.setPhase id
          (.loaded cell value))
  | fail {id cell : ℕ} {call : Call K V E} {error : E}
      (hcall : system.calls[id]? = some call) (hphase : call.phase = .failed cell error) :
      Steps cache system (.finish id)
        ({ system with state := system.state.removeMatchingCell call.key cell }.setPhase id
          (.finished (.error error)))
  | settle {id cell : ℕ} {call : Call K V E} {value : LoadedValue V}
      (hcall : system.calls[id]? = some call) (hphase : call.phase = .loaded cell value) :
      Steps cache system (.finish id)
        ({ system with state := cache.settle system.state call.key cell value.charge }.setPhase id
          (.finished (.ok value.value)))

theorem perform_steps (hperform : cache.perform system action = some after) :
    Steps cache system action after := by
  cases action with
  | call key =>
      cases hperform
      exact .enter
  | acquire id =>
      obtain ⟨call, hcall, hrest⟩ := Option.bind_eq_some_iff.mp hperform
      cases hphase : call.phase with
      | waiting cell =>
          rw [hphase] at hrest
          dsimp only at hrest
          split at hrest
          · rename_i hempty
            split at hrest
            · cases hrest
            · rename_i hfree
              cases hrest
              refine .moves hcall (hphase ▸ .acquire hempty hfree) ?_ ?_
              · exact fun hdropped => by cases hdropped
              · exact fun other hother => by cases hother
          · cases hrest
      | _ => simp [hphase] at hrest
  | observe id =>
      obtain ⟨call, hcall, hrest⟩ := Option.bind_eq_some_iff.mp hperform
      cases hphase : call.phase with
      | waiting cell =>
          rw [hphase] at hrest
          dsimp only at hrest
          split at hrest
          · rename_i value hvalue
            cases hrest
            refine .moves hcall (hphase ▸ .observe hvalue) ?_ ?_
            · exact fun hdropped => by cases hdropped
            · exact fun other hother => by cases hother
          · cases hrest
      | _ => simp [hphase] at hrest
  | load id outcome =>
      obtain ⟨call, hcall, hrest⟩ := Option.bind_eq_some_iff.mp hperform
      cases hphase : call.phase with
      | bypassing =>
          rw [hphase] at hrest
          cases hrest
          refine .moves hcall (hphase ▸ .bypass) ?_ ?_
          · exact fun hdropped => by cases hdropped
          · exact fun other hother => by cases hother
      | loading cell =>
          rw [hphase] at hrest
          cases outcome with
          | ok value =>
              cases hrest
              exact .store hcall hphase
          | error error =>
              cases hrest
              refine .moves hcall (hphase ▸ .fail) ?_ ?_
              · exact fun hdropped => by cases hdropped
              · exact fun other hother => by cases hother
      | _ => simp [hphase] at hrest
  | finish id =>
      obtain ⟨call, hcall, hrest⟩ := Option.bind_eq_some_iff.mp hperform
      cases hphase : call.phase with
      | failed cell error =>
          rw [hphase] at hrest
          cases hrest
          exact .fail hcall hphase
      | loaded cell value =>
          rw [hphase] at hrest
          cases hrest
          exact .settle hcall hphase
      | _ => simp [hphase] at hrest
  | drop id =>
      obtain ⟨call, hcall, hrest⟩ := Option.bind_eq_some_iff.mp hperform
      have hdrop : Moves system call.phase .dropped ∧ after = system.setPhase id .dropped := by
        cases hphase : call.phase with
        | bypassing =>
            rw [hphase] at hrest
            exact ⟨.dropBypassing, (Option.some.inj hrest).symm⟩
        | waiting cell =>
            rw [hphase] at hrest
            exact ⟨.dropWaiting, (Option.some.inj hrest).symm⟩
        | loading cell =>
            rw [hphase] at hrest
            exact ⟨.dropLoading, (Option.some.inj hrest).symm⟩
        | _ => simp [hphase] at hrest
      rw [hdrop.2]
      refine .moves hcall hdrop.1 (fun _ => rfl) fun other hother => ?_
      cases hother

theorem next_steps (cache : BoundedAsyncCache) (system : System K V E) (action : Action K V E) :
    Steps cache system action (cache.next system action) := by
  rw [BoundedAsyncCache.next]
  cases hperform : cache.perform system action with
  | none => exact .stays
  | some after => exact perform_steps hperform

end BoundedAsyncCache

/-! ## The wiring -/

/-- Every cell is in at most one entry, under the key of the calls that hold it. -/
structure Wired (system : System K V E) : Prop where
  uniqueCells : (system.state.entries.entries.map fun pair => pair.2.cell).Nodup
  entryCells : ∀ pair ∈ system.state.entries.entries, pair.2.cell < system.cells.length
  callCells : ∀ call ∈ system.calls, ∀ cell ∈ call.phase.cell?, cell < system.cells.length
  callKeys : ∀ call ∈ system.calls, ∀ cell ∈ call.phase.cell?,
    ∀ pair ∈ system.state.entries.entries, pair.2.cell = cell → pair.1 = call.key

section

omit [DecidableEq K]

variable {system : System K V E} {id : ℕ} {call : Call K V E}

theorem wired_initial : Wired (System.initial : System K V E) where
  uniqueCells := List.nodup_nil
  entryCells := fun _ hpair => absurd hpair List.not_mem_nil
  callCells := fun _ hcall => absurd hcall List.not_mem_nil
  callKeys := fun _ hcall => absurd hcall List.not_mem_nil

theorem System.getElem?_setPhase (phase : Phase V E) (position : ℕ) :
    (system.setPhase id phase).calls[position]? =
      if id = position then system.calls[position]?.map fun call => { call with phase := phase }
      else system.calls[position]? := by
  rw [System.setPhase, List.getElem?_modify]
  by_cases hid : id = position <;> simp [hid]

variable {phase : Phase V E}

/-- A call after one call has moved to another phase. -/
theorem System.mem_calls_setPhase {other : Call K V E} (hcall : system.calls[id]? = some call)
    (hother : other ∈ (system.setPhase id phase).calls) :
    other ∈ system.calls ∨ other = { call with phase := phase } := by
  obtain ⟨position, hposition⟩ := List.mem_iff_getElem?.mp hother
  rw [System.getElem?_setPhase] at hposition
  split at hposition
  · rename_i hid
    subst hid
    rw [hcall] at hposition
    exact Or.inr (Option.some.inj hposition).symm
  · exact Or.inl (List.mem_of_getElem? hposition)

/-- A call may move to a phase with the same cell or none. -/
theorem Wired.setPhase (hwired : Wired system) (hcall : system.calls[id]? = some call)
    (hcell : ∀ cell ∈ phase.cell?, cell ∈ call.phase.cell?) : Wired (system.setPhase id phase) := by
  have hmem := List.mem_of_getElem? hcall
  refine ⟨hwired.uniqueCells, hwired.entryCells, ?_, ?_⟩
  · intro other hother cell hothercell
    rcases System.mem_calls_setPhase hcall hother with hold | rfl
    · exact hwired.callCells other hold cell hothercell
    · exact hwired.callCells call hmem cell (hcell cell hothercell)
  · intro other hother cell hothercell
    rcases System.mem_calls_setPhase hcall hother with hold | rfl
    · exact hwired.callKeys other hold cell hothercell
    · exact hwired.callKeys call hmem cell (hcell cell hothercell)

/-- The contents of the cells do not matter. -/
theorem Wired.setCells (hwired : Wired system) {cells : List (Option (LoadedValue V))}
    (hlength : system.cells.length ≤ cells.length) : Wired { system with cells := cells } where
  uniqueCells := hwired.uniqueCells
  entryCells := fun pair hpair => (hwired.entryCells pair hpair).trans_le hlength
  callCells := fun call hcall cell hcell => (hwired.callCells call hcall cell hcell).trans_le hlength
  callKeys := hwired.callKeys

variable {state : CacheState K} {pair : K × CacheEntry}

section

variable (hwired : Wired system)

include hwired

/-- Entries may leave and change their charge. -/
theorem Wired.shrink (hunique : (state.entries.entries.map fun pair => pair.2.cell).Nodup)
    (hentries : ∀ pair ∈ state.entries.entries, ∃ old ∈ system.state.entries.entries,
      old.1 = pair.1 ∧ old.2.cell = pair.2.cell) :
    Wired { system with state := state } where
  uniqueCells := hunique
  entryCells := by
    intro pair hpair
    obtain ⟨old, hold, -, hcell⟩ := hentries pair hpair
    exact hcell ▸ hwired.entryCells old hold
  callCells := hwired.callCells
  callKeys := by
    intro call hcall cell hcell pair hpair hsame
    obtain ⟨old, hold, hkey, holdcell⟩ := hentries pair hpair
    exact hkey ▸ hwired.callKeys call hcall cell hcell old hold (holdcell.trans hsame)

theorem Wired.rotates (hrotates : Rotates system.state state) :
    Wired { system with state := state } := by
  refine hwired.shrink ((hrotates.entries.map _).nodup_iff.mpr hwired.uniqueCells) ?_
  intro pair hpair
  exact ⟨pair, hrotates.entries.mem_iff.mp hpair, rfl, rfl⟩

theorem Wired.leaves (hleaves : Leaves system.state state pair) :
    Wired { system with state := state } := by
  have hunique := (hleaves.entries.map fun pair => pair.2.cell).nodup_iff.mp hwired.uniqueCells
  rw [List.map_cons, List.nodup_cons] at hunique
  refine hwired.shrink hunique.2 fun other hother => ?_
  exact ⟨other, hleaves.entries.mem_iff.mpr (List.mem_cons_of_mem _ hother), rfl, rfl⟩

theorem Wired.charges {usizeMax charge : ℕ}
    (hcharges : Charges usizeMax system.state state pair charge) :
    Wired { system with state := state } := by
  obtain ⟨rest, hbefore, hafter⟩ := hcharges.entries
  have hunique := (hbefore.map fun pair => pair.2.cell).nodup_iff.mp hwired.uniqueCells
  refine hwired.shrink ((hafter.map _).nodup_iff.mpr hunique) fun other hother => ?_
  rcases List.mem_cons.mp (hafter.mem_iff.mp hother) with rfl | hrest
  · exact ⟨pair, hbefore.mem_iff.mpr List.mem_cons_self, rfl, rfl⟩
  · exact ⟨other, hbefore.mem_iff.mpr (List.mem_cons_of_mem _ hrest), rfl, rfl⟩

theorem Wired.evictions (hevictions : Evictions system.state state) :
    Wired { system with state := state } := by
  refine Evictions.invariant (fun state => Wired { system with state := state }) hevictions
    ?_ ?_ hwired
  · intro first second hrotates hfirst
    exact hfirst.rotates hrotates
  · rintro first second ⟨pair, hleaves, -⟩ hfirst
    exact hfirst.leaves hleaves

/-- A new call holds no cell, or a cell of an entry under its key. -/
theorem Wired.addCall (hcells : ∀ cell ∈ call.phase.cell?, ∃ pair ∈ system.state.entries.entries,
      pair.1 = call.key ∧ pair.2.cell = cell) :
    Wired { system with calls := system.calls ++ [call] } := by
  refine ⟨hwired.uniqueCells, hwired.entryCells, ?_, ?_⟩
  · intro other hother cell hcell
    rcases List.mem_append.mp hother with hold | hnew
    · exact hwired.callCells other hold cell hcell
    · rw [List.mem_singleton.mp hnew] at hcell
      obtain ⟨pair, hpair, -, rfl⟩ := hcells cell hcell
      exact hwired.entryCells pair hpair
  · intro other hother cell hcell pair hpair hsame
    rcases List.mem_append.mp hother with hold | hnew
    · exact hwired.callKeys other hold cell hcell pair hpair hsame
    · rw [List.mem_singleton.mp hnew] at hcell ⊢
      obtain ⟨entry, hentry, hkey, hentrycell⟩ := hcells cell hcell
      rw [← hkey]
      exact congrArg Prod.fst (List.inj_on_of_nodup_map hwired.uniqueCells hpair hentry
        (hsame.trans hentrycell.symm))

end

end

section

variable {cache : BoundedAsyncCache} {system : System K V E}

/-- A new entry has a new cell. -/
theorem Wired.addEntry (hwired : Wired system) {key : K}
    (habsent : system.state.entries.get? key = none) :
    Wired { system with
      state := { system.state with
        entries := system.state.entries.insert key ⟨system.cells.length, none⟩ }
      cells := system.cells ++ [none] } := by
  have hperm : (system.state.entries.insert key ⟨system.cells.length, none⟩).entries.Perm
      ((key, ⟨system.cells.length, none⟩) :: system.state.entries.entries) :=
    LinkedMap.perm_insert habsent
  have hmore : system.cells.length < (system.cells ++ [(none : Option (LoadedValue V))]).length := by
    rw [List.length_append]
    exact Nat.lt_succ_self _
  refine ⟨?_, ?_, ?_, ?_⟩
  · refine (hperm.map _).nodup_iff.mpr ?_
    rw [List.map_cons, List.nodup_cons]
    refine ⟨fun hmem => ?_, hwired.uniqueCells⟩
    obtain ⟨pair, hpair, hcell⟩ := List.mem_map.mp hmem
    exact absurd hcell (hwired.entryCells pair hpair).ne
  · intro pair hpair
    rcases List.mem_cons.mp (hperm.mem_iff.mp hpair) with rfl | hother
    · exact hmore
    · exact (hwired.entryCells pair hother).trans hmore
  · intro call hcall cell hcell
    exact (hwired.callCells call hcall cell hcell).trans hmore
  · intro call hcall cell hcell pair hpair hsame
    rcases List.mem_cons.mp (hperm.mem_iff.mp hpair) with rfl | hother
    · exact absurd hsame.symm (hwired.callCells call hcall cell hcell).ne
    · exact hwired.callKeys call hcall cell hcell pair hother hsame

theorem Wired.removeMatchingCell (hwired : Wired system) (key : K) (cell : ℕ) :
    Wired { system with state := system.state.removeMatchingCell key cell } := by
  rcases system.state.removeMatchingCell_cases key cell with
    ⟨pair, -, -, hleaves, -⟩ | ⟨hsame, -⟩
  · exact hwired.leaves hleaves
  · rw [hsame]
    exact hwired

theorem Wired.settle (hwired : Wired system) (key : K) (cell charge : ℕ) :
    Wired { system with state := cache.settle system.state key cell charge } := by
  rcases cache.settle_cases system.state key cell charge with
    ⟨-, hremove⟩ | ⟨hsame, -⟩ | ⟨-, entry, charged, -, hcharges, hsettle⟩
  · rw [hremove]
    exact hwired.removeMatchingCell key cell
  · rw [hsame]
    exact hwired
  · rw [hsettle]
    exact (hwired.charges hcharges).evictions (cache.evictToByteRounds_spec _ charged)

/-- All that the first critical section can do. -/
theorem enter_cases (cache : BoundedAsyncCache) (system : System K V E) (key : K) :
    (∃ state, Evictions system.state state ∧ cache.enter system key =
        { system with state := state, calls := system.calls ++ [⟨key, .bypassing⟩] }) ∨
      (∃ state entry, Rotates system.state state ∧ (key, entry) ∈ state.entries.entries ∧
        cache.enter system key =
          { system with
            state := state
            calls := system.calls ++ [⟨key, .waiting entry.cell⟩] }) ∨
      ∃ state, Evictions system.state state ∧ state.entries.length < cache.entryCapacity ∧
        system.state.entries.get? key = none ∧ cache.enter system key =
          { system with
            state := { state with
              entries := state.entries.insert key ⟨system.cells.length, none⟩ }
            cells := system.cells ++ [none]
            calls := system.calls ++ [⟨key, .waiting system.cells.length⟩] } := by
  rw [BoundedAsyncCache.enter]
  split
  · exact Or.inl ⟨system.state, Relation.ReflTransGen.refl, rfl⟩
  · split
    · rename_i entry entries htoBack
      have hperm := LinkedMap.perm_toBack htoBack
      refine Or.inr (Or.inl ⟨{ system.state with entries := entries }, entry,
        ⟨hperm, rfl, rfl, rfl⟩, ?_, rfl⟩)
      exact hperm.mem_iff.mpr (LinkedMap.get?_eq_some_iff.mp (LinkedMap.get?_of_toBack htoBack))
    · rename_i htoBack
      have habsent := LinkedMap.get?_of_toBack_eq_none htoBack
      have hspec := cache.reserveRounds_spec system.state.entries.length system.state
      change Evictions _ (cache.reserveEntry system.state).2 ∧ _ at hspec
      split
      · rename_i state hreserve
        obtain ⟨hevictions, hroom⟩ := hspec
        rw [hreserve] at hevictions
        refine Or.inr (Or.inr ⟨state, hevictions, ?_, habsent, rfl⟩)
        have hlength := hroom (congrArg Prod.fst hreserve)
        change (cache.reserveEntry system.state).2.entries.length < _ at hlength
        rwa [hreserve] at hlength
      · rename_i state hreserve
        refine Or.inl ⟨state, ?_, rfl⟩
        have hevictions := hspec.1
        rwa [hreserve] at hevictions

theorem Wired.enter (hwired : Wired system) (key : K) : Wired (cache.enter system key) := by
  rcases enter_cases cache system key with
    ⟨state, hevictions, henter⟩ | ⟨state, entry, hrotates, hentry, henter⟩ |
    ⟨state, hevictions, -, habsent, henter⟩
  · rw [henter]
    exact (hwired.evictions hevictions).addCall fun _ hcell => by cases hcell
  · rw [henter]
    refine (hwired.rotates hrotates).addCall fun cell hcell => ?_
    cases hcell
    exact ⟨_, hentry, rfl, rfl⟩
  · rw [henter]
    have hgone := hevictions.get?_eq_none habsent
    refine ((hwired.evictions hevictions).addEntry hgone).addCall fun cell hcell => ?_
    cases hcell
    refine ⟨(key, ⟨system.cells.length, none⟩), ?_, rfl, rfl⟩
    exact (LinkedMap.perm_insert hgone).mem_iff.mpr List.mem_cons_self

variable {call : Call K V E}

omit [DecidableEq K] in
theorem Wired.moves (hwired : Wired system) {id : ℕ} (hcall : system.calls[id]? = some call)
    {phase : Phase V E} (hmoves : Moves system call.phase phase) :
    Wired (system.setPhase id phase) := by
  refine hwired.setPhase hcall fun cell hcell => ?_
  obtain ⟨key, old⟩ := call
  cases hmoves with
  | acquire hempty hfree => exact hcell
  | observe hvalue => exact hcell
  | fail => exact hcell
  | bypass => cases hcell
  | dropBypassing => cases hcell
  | dropWaiting => cases hcell
  | dropLoading => cases hcell

omit [DecidableEq K] in
/-- The initialiser of a cell stores its value. -/
theorem Wired.store (hwired : Wired system) {id cell : ℕ} (hcall : system.calls[id]? = some call)
    (hphase : call.phase = .loading cell) (value : LoadedValue V) :
    Wired ({ system with cells := system.cells.set cell (some value) }.setPhase id
      (.loaded cell value)) := by
  refine (hwired.setCells (Nat.le_of_eq (List.length_set).symm)).setPhase hcall ?_
  intro other hother
  rw [hphase]
  exact hother

theorem Wired.next (hwired : Wired system) (action : Action K V E) :
    Wired (cache.next system action) := by
  have hsteps := cache.next_steps system action
  generalize cache.next system action = after at hsteps ⊢
  cases hsteps with
  | stays => exact hwired
  | enter => exact hwired.enter _
  | moves hcall hmoves => exact hwired.moves hcall hmoves
  | store hcall hphase => exact hwired.store hcall hphase _
  | fail hcall => exact (hwired.removeMatchingCell _ _).setPhase hcall fun _ hcell => by cases hcell
  | settle hcall => exact (hwired.settle _ _ _).setPhase hcall fun _ hcell => by cases hcell

end

end ParqDB.Cache
