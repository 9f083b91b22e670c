import ParqDB.Cache.Wiring

/-!
# What the calls know of the cells

Whatever the capacities, and whatever happens to the entries: a call that loads is the only
one that loads its cell, the cell is empty until it has loaded, and a value that a call got
from a cell stays there.

**Strategy.**  The locked state plays no part (`Loads.withState`).  The cells and the phases
of the calls change together in three ways only: one call moves (`Loads.moves`), one call
stores its value (`Loads.store`), or a call is added (`Loads.addCall`, `Loads.addCell`).
-/

namespace ParqDB.Cache

open Foundations CacheState

variable {K V E : Type}

/-- An initialiser works alone and on an empty cell, and loaded values are in their cells. -/
structure Loads (system : System K V E) : Prop where
  loadingEmpty : ∀ call ∈ system.calls, ∀ cell, call.phase = .loading cell →
    system.cells[cell]? = some none
  loadingOnce : ∀ (left right : ℕ) (first second : Call K V E) (cell : ℕ),
    system.calls[left]? = some first → system.calls[right]? = some second →
    first.phase = .loading cell → second.phase = .loading cell → left = right
  loadedValues : ∀ call ∈ system.calls, ∀ cell value, call.phase = .loaded cell value →
    system.cells[cell]? = some (some value)

variable {system : System K V E} {id : ℕ} {call : Call K V E}

theorem loads_initial : Loads (System.initial : System K V E) where
  loadingEmpty := fun _ hcall => absurd hcall List.not_mem_nil
  loadingOnce := by
    intro left right first second cell hleft
    simp [System.initial] at hleft
  loadedValues := fun _ hcall => absurd hcall List.not_mem_nil

theorem Loads.withState (hloads : Loads system) (state : CacheState K) :
    Loads { system with state := state } :=
  ⟨hloads.loadingEmpty, hloads.loadingOnce, hloads.loadedValues⟩

variable {phase : Phase V E}

/-- A call may move to a phase that tells the truth about its cell. -/
theorem Loads.setPhase (hloads : Loads system) (hcall : system.calls[id]? = some call)
    (hloading : ∀ cell, phase = .loading cell →
      system.cells[cell]? = some none ∧ ¬ system.Loading cell)
    (hloaded : ∀ cell value, phase = .loaded cell value → system.cells[cell]? = some (some value)) :
    Loads (system.setPhase id phase) := by
  refine ⟨?_, ?_, ?_⟩
  · intro other hother cell hphase
    rcases System.mem_calls_setPhase hcall hother with hold | rfl
    · exact hloads.loadingEmpty other hold cell hphase
    · exact (hloading cell hphase).1
  · -- a second initialiser would have been one before the step
    have hothers : ∀ position other cell, id ≠ position →
        (system.setPhase id phase).calls[position]? = some other →
        phase = .loading cell → other.phase ≠ .loading cell := by
      intro position other cell hid hother hphase hsame
      rw [System.getElem?_setPhase, if_neg hid] at hother
      exact (hloading cell hphase).2 ⟨other, List.mem_of_getElem? hother, hsame⟩
    have hself : ∀ other, (system.setPhase id phase).calls[id]? = some other →
        other.phase = phase := by
      intro other hother
      rw [System.getElem?_setPhase, if_pos rfl, hcall] at hother
      exact congrArg Call.phase (Option.some.inj hother).symm
    intro left right first second cell hleft hright hfirst hsecond
    by_cases hidleft : id = left
    · by_contra hdifferent
      have hphase : phase = .loading cell := by
        subst hidleft
        rw [← hself first hleft, hfirst]
      exact hothers right second cell (by omega) hright hphase hsecond
    · by_cases hidright : id = right
      · have hphase : phase = .loading cell := by
          subst hidright
          rw [← hself second hright, hsecond]
        exact absurd hfirst (hothers left first cell hidleft hleft hphase)
      · rw [System.getElem?_setPhase, if_neg hidleft] at hleft
        rw [System.getElem?_setPhase, if_neg hidright] at hright
        exact hloads.loadingOnce left right first second cell hleft hright hfirst hsecond
  · intro other hother cell value hphase
    rcases System.mem_calls_setPhase hcall hother with hold | rfl
    · exact hloads.loadedValues other hold cell value hphase
    · exact hloaded cell value hphase

theorem Loads.moves (hloads : Loads system) (hcall : system.calls[id]? = some call)
    (hmoves : Moves system call.phase phase) : Loads (system.setPhase id phase) := by
  obtain ⟨key, old⟩ := call
  apply hloads.setPhase hcall
  · intro cell hphase
    cases hmoves with
    | acquire hempty hfree =>
        cases hphase
        exact ⟨hempty, hfree⟩
    | _ => cases hphase
  · intro cell value hphase
    cases hmoves with
    | observe hvalue =>
        cases hphase
        exact hvalue
    | _ => cases hphase

/-- A call that has run its last critical section. -/
theorem Loads.finish (hloads : Loads system) (hcall : system.calls[id]? = some call)
    (result : Except E V) : Loads (system.setPhase id (.finished result)) :=
  hloads.setPhase hcall (fun _ hphase => by cases hphase) fun _ _ hphase => by cases hphase

variable {cell : ℕ}

/-- The contents of a cell that is full do not change when another one is filled. -/
theorem Loads.getElem?_set_of_full (hloads : Loads system) (hcall : system.calls[id]? = some call)
    (hphase : call.phase = .loading cell) (value : LoadedValue V) {other : ℕ}
    {content : LoadedValue V} (hcontent : system.cells[other]? = some (some content)) :
    (system.cells.set cell (some value))[other]? = some (some content) := by
  have hempty := hloads.loadingEmpty call (List.mem_of_getElem? hcall) cell hphase
  have hother : cell ≠ other := by
    rintro rfl
    rw [hempty] at hcontent
    cases hcontent
  rw [List.getElem?_set_ne hother]
  exact hcontent

/-- The initialiser of a cell stores its value. -/
theorem Loads.store (hloads : Loads system) (hcall : system.calls[id]? = some call)
    (hphase : call.phase = .loading cell) (value : LoadedValue V) :
    Loads ({ system with cells := system.cells.set cell (some value) }.setPhase id
      (.loaded cell value)) := by
  have hempty := hloads.loadingEmpty call (List.mem_of_getElem? hcall) cell hphase
  have hrange : cell < system.cells.length := (List.getElem?_eq_some_iff.mp hempty).1
  refine ⟨?_, ?_, ?_⟩
  · intro other hother othercell hotherphase
    obtain ⟨position, hposition⟩ := List.mem_iff_getElem?.mp hother
    rw [System.getElem?_setPhase] at hposition
    split at hposition
    · obtain ⟨old, -, rfl⟩ := Option.map_eq_some_iff.mp hposition
      cases hotherphase
    · rename_i hid
      have hothercell : cell ≠ othercell := by
        rintro rfl
        exact hid (hloads.loadingOnce id position call other _ hcall hposition hphase hotherphase)
      change (system.cells.set cell (some value))[othercell]? = some none
      rw [List.getElem?_set_ne hothercell]
      exact hloads.loadingEmpty other (List.mem_of_getElem? hposition) _ hotherphase
  · intro left right first second othercell hleft hright hfirst hsecond
    rw [System.getElem?_setPhase] at hleft hright
    split at hleft
    · obtain ⟨old, -, rfl⟩ := Option.map_eq_some_iff.mp hleft
      cases hfirst
    · split at hright
      · obtain ⟨old, -, rfl⟩ := Option.map_eq_some_iff.mp hright
        cases hsecond
      · exact hloads.loadingOnce left right first second othercell hleft hright hfirst hsecond
  · intro other hother othercell content hotherphase
    rcases System.mem_calls_setPhase hcall hother with hold | rfl
    · exact hloads.getElem?_set_of_full hcall hphase value
        (hloads.loadedValues other hold othercell content hotherphase)
    · cases hotherphase
      exact List.getElem?_set_self hrange

/-- A new call neither loads nor has loaded anything. -/
theorem Loads.addCall (hloads : Loads system) (hloading : ∀ cell, call.phase ≠ .loading cell)
    (hloaded : ∀ cell value, call.phase ≠ .loaded cell value) :
    Loads { system with calls := system.calls ++ [call] } := by
  refine ⟨?_, ?_, ?_⟩
  · intro other hother cell hphase
    rcases List.mem_append.mp hother with hold | hnew
    · exact hloads.loadingEmpty other hold cell hphase
    · rw [List.mem_singleton.mp hnew] at hphase
      exact absurd hphase (hloading cell)
  · have hold : ∀ (position : ℕ) (other : Call K V E) (cell : ℕ),
        (system.calls ++ [call])[position]? = some other →
        other.phase = .loading cell → system.calls[position]? = some other := by
      intro position other cell hother hphase
      rw [List.getElem?_append] at hother
      split at hother
      · exact hother
      · have hnew := List.mem_singleton.mp (List.mem_of_getElem? hother)
        rw [hnew] at hphase
        exact absurd hphase (hloading cell)
    intro left right first second cell hleft hright hfirst hsecond
    exact hloads.loadingOnce left right first second cell (hold _ _ _ hleft hfirst)
      (hold _ _ _ hright hsecond) hfirst hsecond
  · intro other hother cell value hphase
    rcases List.mem_append.mp hother with hold | hnew
    · exact hloads.loadedValues other hold cell value hphase
    · rw [List.mem_singleton.mp hnew] at hphase
      exact absurd hphase (hloaded cell value)

theorem getElem?_append_of_some {cells : List (Option (LoadedValue V))}
    {content : Option (LoadedValue V)} (hcontent : cells[cell]? = some content) :
    (cells ++ [none])[cell]? = some content := by
  rw [List.getElem?_append_left (List.getElem?_eq_some_iff.mp hcontent).1]
  exact hcontent

theorem Loads.addCell (hloads : Loads system) :
    Loads { system with cells := system.cells ++ [none] } where
  loadingEmpty := fun call hcall cell hphase =>
    getElem?_append_of_some (hloads.loadingEmpty call hcall cell hphase)
  loadingOnce := hloads.loadingOnce
  loadedValues := fun call hcall cell value hphase =>
    getElem?_append_of_some (hloads.loadedValues call hcall cell value hphase)

section

variable [DecidableEq K] {cache : BoundedAsyncCache}

theorem Loads.enter (hloads : Loads system) (key : K) : Loads (cache.enter system key) := by
  rcases enter_cases cache system key with
    ⟨state, -, henter⟩ | ⟨state, entry, -, -, henter⟩ | ⟨state, -, -, -, henter⟩
  · rw [henter]
    exact (hloads.withState state).addCall (fun _ hphase => by cases hphase)
      fun _ _ hphase => by cases hphase
  · rw [henter]
    exact (hloads.withState state).addCall (fun _ hphase => by cases hphase)
      fun _ _ hphase => by cases hphase
  · rw [henter]
    exact (hloads.addCell.withState _).addCall (fun _ hphase => by cases hphase)
      fun _ _ hphase => by cases hphase

theorem Loads.next (hloads : Loads system) (action : Action K V E) :
    Loads (cache.next system action) := by
  have hsteps := cache.next_steps system action
  generalize cache.next system action = after at hsteps ⊢
  cases hsteps with
  | stays => exact hloads
  | enter => exact hloads.enter _
  | moves hcall hmoves => exact hloads.moves hcall hmoves
  | store hcall hphase => exact hloads.store hcall hphase _
  | fail hcall => exact (hloads.withState (system.state.removeMatchingCell _ _)).finish hcall _
  | settle hcall => exact (hloads.withState (cache.settle system.state _ _ _)).finish hcall _

/-! ## What a step does to the entries -/

/-- A call whose initialisation of a cell failed cleans up. -/
def CleansUp (system : System K V E) (action : Action K V E) (cell : ℕ) : Prop :=
  ∃ id call error, action = .finish id ∧ system.calls[id]? = some call ∧
    call.phase = .failed cell error

variable {key : K} {pair : K × CacheEntry} {state : CacheState K}

/-- The first critical section keeps the entries that are not loaded. -/
theorem mem_entries_enter (hpair : pair ∈ system.state.entries.entries)
    (hcharge : pair.2.charge = none) : pair ∈ (cache.enter system key).state.entries.entries := by
  rcases enter_cases cache system key with
    ⟨state, hevictions, henter⟩ | ⟨state, entry, hrotates, -, henter⟩ |
    ⟨state, hevictions, -, habsent, henter⟩
  · rw [henter]
    exact hevictions.mem_of_uncharged hpair hcharge
  · rw [henter]
    exact hrotates.entries.mem_iff.mpr hpair
  · rw [henter]
    have hgone := hevictions.get?_eq_none habsent
    refine (LinkedMap.perm_insert hgone).mem_iff.mpr (List.mem_cons_of_mem _ ?_)
    exact hevictions.mem_of_uncharged hpair hcharge

/-- A call that removes its cell leaves the entries of other cells alone. -/
theorem mem_removeMatchingCell_of_cell_ne (hpair : pair ∈ state.entries.entries)
    (hcell : pair.2.cell ≠ cell) : pair ∈ (state.removeMatchingCell key cell).entries.entries := by
  rcases state.removeMatchingCell_cases key cell with ⟨other, -, hother, hleaves, -⟩ | ⟨hsame, -⟩
  · rcases List.mem_cons.mp (hleaves.entries.mem_iff.mp hpair) with rfl | hkept
    · exact absurd hother hcell
    · exact hkept
  · rw [hsame]
    exact hpair

/-- The last critical section after a load keeps the entries of other cells that are not
loaded. -/
theorem mem_entries_settle {charge : ℕ} (hpair : pair ∈ state.entries.entries)
    (hcharge : pair.2.charge = none) (hcell : pair.2.cell ≠ cell) :
    pair ∈ (cache.settle state key cell charge).entries.entries := by
  rcases cache.settle_cases state key cell charge with
    ⟨-, hremove⟩ | ⟨hsame, -⟩ | ⟨-, entry, charged, hentry, hcharges, hsettle⟩
  · rw [hremove]
    exact mem_removeMatchingCell_of_cell_ne hpair hcell
  · rw [hsame]
    exact hpair
  · rw [hsettle]
    obtain ⟨rest, hbefore, hafter⟩ := hcharges.entries
    refine (cache.evictToByteRounds_spec _ charged).mem_of_uncharged ?_ hcharge
    rcases List.mem_cons.mp (hbefore.mem_iff.mp hpair) with rfl | hkept
    · exact absurd hentry hcell
    · exact hafter.mem_iff.mpr (List.mem_cons_of_mem _ hkept)

variable {action : Action K V E}

/-- An entry without a charge whose cell is empty stays, unless a failed call cleans it up. -/
theorem Loads.mem_entries_next (hloads : Loads system) (hpair : pair ∈ system.state.entries.entries)
    (hcharge : pair.2.charge = none) (hempty : system.cells[pair.2.cell]? = some none)
    (hclean : ¬ CleansUp system action pair.2.cell) :
    pair ∈ (cache.next system action).state.entries.entries := by
  have hsteps := cache.next_steps system action
  generalize cache.next system action = after at hsteps ⊢
  cases hsteps with
  | stays => exact hpair
  | enter => exact mem_entries_enter hpair hcharge
  | moves => exact hpair
  | store => exact hpair
  | fail hcall hphase =>
      refine mem_removeMatchingCell_of_cell_ne hpair ?_
      rintro rfl
      exact hclean ⟨_, _, _, rfl, hcall, hphase⟩
  | settle hcall hphase =>
      refine mem_entries_settle hpair hcharge ?_
      rintro rfl
      have hvalue := hloads.loadedValues _ (List.mem_of_getElem? hcall) _ _ hphase
      rw [hempty] at hvalue
      cases hvalue

/-- A removal brings no entry. -/
theorem mem_of_mem_removeMatchingCell
    (hpair : pair ∈ (state.removeMatchingCell key cell).entries.entries) :
    pair ∈ state.entries.entries := by
  rcases state.removeMatchingCell_cases key cell with ⟨other, -, -, hleaves, -⟩ | ⟨hsame, -⟩
  · exact hleaves.entries.mem_iff.mpr (List.mem_cons_of_mem _ hpair)
  · rwa [hsame] at hpair

/-- Where the entries come from: they were there before, with the same cell, and got a charge
only for the value in it, or they are new. -/
theorem Loads.entries_next (hloads : Loads system)
    (hpair : pair ∈ (cache.next system action).state.entries.entries) :
    (∃ old ∈ system.state.entries.entries, old.1 = pair.1 ∧ old.2.cell = pair.2.cell ∧
      (old.2.charge = pair.2.charge ∨
        ∃ value, system.cells[pair.2.cell]? = some (some value))) ∨
    (pair.2.charge = none ∧ system.state.entries.get? pair.1 = none) := by
  have hkept : pair ∈ system.state.entries.entries →
      ∃ old ∈ system.state.entries.entries, old.1 = pair.1 ∧ old.2.cell = pair.2.cell ∧
        (old.2.charge = pair.2.charge ∨
          ∃ value, system.cells[pair.2.cell]? = some (some value)) :=
    fun hold => ⟨pair, hold, rfl, rfl, Or.inl rfl⟩
  have hsteps := cache.next_steps system action
  generalize cache.next system action = after at hsteps hpair
  cases hsteps with
  | @enter key =>
      rcases enter_cases cache system key with
        ⟨state, hevictions, henter⟩ | ⟨state, entry, hrotates, -, henter⟩ |
        ⟨state, hevictions, -, habsent, henter⟩
      · rw [henter] at hpair
        exact Or.inl (hkept (hevictions.subset hpair))
      · rw [henter] at hpair
        exact Or.inl (hkept (hrotates.entries.mem_iff.mp hpair))
      · rw [henter] at hpair
        have hgone := hevictions.get?_eq_none habsent
        rcases List.mem_cons.mp ((LinkedMap.perm_insert hgone).mem_iff.mp hpair) with rfl | hold
        · exact Or.inr ⟨rfl, habsent⟩
        · exact Or.inl (hkept (hevictions.subset hold))
  | fail => exact Or.inl (hkept (mem_of_mem_removeMatchingCell hpair))
  | @settle id cell call value hcall hphase =>
      rcases cache.settle_cases system.state call.key cell value.charge with
        ⟨-, hremove⟩ | ⟨hsame, -⟩ | ⟨-, entry, charged, hentry, hcharges, hsettle⟩
      · rw [hremove] at hpair
        exact Or.inl (hkept (mem_of_mem_removeMatchingCell hpair))
      · rw [hsame] at hpair
        exact Or.inl (hkept hpair)
      · rw [hsettle] at hpair
        have hcharged := (cache.evictToByteRounds_spec _ charged).subset hpair
        obtain ⟨rest, hbefore, hafter⟩ := hcharges.entries
        rcases List.mem_cons.mp (hafter.mem_iff.mp hcharged) with rfl | hold
        · have hvalue := hloads.loadedValues call (List.mem_of_getElem? hcall) _ value hphase
          refine Or.inl ⟨(call.key, entry), hbefore.mem_iff.mpr List.mem_cons_self, rfl, rfl,
            Or.inr ⟨value, ?_⟩⟩
          rwa [← hentry] at hvalue
        · exact Or.inl (hkept (hbefore.mem_iff.mpr (List.mem_cons_of_mem _ hold)))
  | _ => exact Or.inl (hkept hpair)

/-- A full cell keeps its value. -/
theorem Loads.full_next (hloads : Loads system) (action : Action K V E) {value : LoadedValue V}
    (hfull : system.cells[cell]? = some (some value)) :
    (cache.next system action).cells[cell]? = some (some value) := by
  have hsteps := cache.next_steps system action
  generalize cache.next system action = after at hsteps ⊢
  cases hsteps with
  | @enter key =>
      rcases enter_cases cache system key with
        ⟨state, -, henter⟩ | ⟨state, entry, -, -, henter⟩ | ⟨state, -, -, -, henter⟩
      · rw [henter]
        exact hfull
      · rw [henter]
        exact hfull
      · rw [henter]
        exact getElem?_append_of_some hfull
  | store hcall hphase => exact hloads.getElem?_set_of_full hcall hphase _ hfull
  | _ => exact hfull

end

end ParqDB.Cache
