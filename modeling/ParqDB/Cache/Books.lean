import ParqDB.Cache.Loads

/-!
# The bounded asynchronous cache keeps its books

What holds between any two critical sections, for every interleaving of calls.

**Strategy.**  `Books` joins the books of the locked state (`CacheState.Balanced`) and the
wiring of calls, cells and entries (`Wired`) with what is known of the cells: an initialiser
works alone and on an empty cell, and what was charged is the charge of the value in the
cell.

**Results.**

* `bounded_cache_keeps_books`: the books in every reachable state, evictions that spare
  loads in progress, and failures that remove nothing but their own cell.
-/

namespace ParqDB.Cache

open Foundations CacheState

variable {K V E : Type} [DecidableEq K]

/-! ## The invariant -/

/-- The books of the locked state, and what is known of the cells. -/
structure Books (cache : BoundedAsyncCache) (system : System K V E) : Prop extends
    Wired system, Loads system where
  balanced : system.state.Balanced cache.usizeMax
  withinBytes : system.state.residentBytes ≤ cache.byteCapacity
  withinEntries : system.state.entries.length ≤ cache.entryCapacity
  creditValues : ∀ posting ∈ system.state.credits, ∃ value : LoadedValue V,
    system.cells[posting.cell]? = some (some value) ∧ value.charge = posting.charge

section

omit [DecidableEq K]

variable {cache : BoundedAsyncCache} {system : System K V E} {id : ℕ} {call : Call K V E}

theorem books_initial (cache : BoundedAsyncCache) :
    Books cache (System.initial : System K V E) where
  toWired := wired_initial
  toLoads := loads_initial
  balanced := balanced_empty
  withinBytes := Nat.zero_le _
  withinEntries := Nat.zero_le _
  creditValues := fun _ hposting => absurd hposting List.not_mem_nil

/-- The calls and the cells change, and the values charged for stay. -/
theorem Books.withLoads (hbooks : Books cache system) {calls : List (Call K V E)}
    {cells : List (Option (LoadedValue V))}
    (hwired : Wired { system with calls := calls, cells := cells })
    (hloads : Loads { system with calls := calls, cells := cells })
    (hvalues : ∀ (cell : ℕ) (value : LoadedValue V), system.cells[cell]? = some (some value) →
      cells[cell]? = some (some value)) :
    Books cache { system with calls := calls, cells := cells } where
  toWired := hwired
  toLoads := hloads
  balanced := hbooks.balanced
  withinBytes := hbooks.withinBytes
  withinEntries := hbooks.withinEntries
  creditValues := by
    intro posting hposting
    obtain ⟨value, hvalue, hcharge⟩ := hbooks.creditValues posting hposting
    exact ⟨value, hvalues posting.cell value hvalue, hcharge⟩

theorem Books.moves (hbooks : Books cache system) (hcall : system.calls[id]? = some call)
    {phase : Phase V E} (hmoves : Moves system call.phase phase) :
    Books cache (system.setPhase id phase) :=
  hbooks.withLoads (hbooks.toWired.moves hcall hmoves) (hbooks.toLoads.moves hcall hmoves)
    fun _ _ hvalue => hvalue

/-- The initialiser of a cell stores its value. -/
theorem Books.store (hbooks : Books cache system) (hcall : system.calls[id]? = some call)
    {cell : ℕ} (hphase : call.phase = .loading cell) (value : LoadedValue V) :
    Books cache ({ system with cells := system.cells.set cell (some value) }.setPhase id
      (.loaded cell value)) :=
  hbooks.withLoads (hbooks.toWired.store hcall hphase value)
    (hbooks.toLoads.store hcall hphase value)
    fun _ _ hcontent => hbooks.toLoads.getElem?_set_of_full hcall hphase value hcontent

variable {state : CacheState K}

/-- The locked state may lose entries as long as its books are balanced. -/
theorem Books.shrink (hbooks : Books cache system) (hwired : Wired { system with state := state })
    (hbalanced : state.Balanced cache.usizeMax) (hbytes : state.residentBytes ≤ cache.byteCapacity)
    (hlength : state.entries.length ≤ system.state.entries.length)
    (hcredits : ∀ posting ∈ state.credits, ∃ value : LoadedValue V,
      system.cells[posting.cell]? = some (some value) ∧ value.charge = posting.charge) :
    Books cache { system with state := state } where
  toWired := hwired
  toLoads := hbooks.toLoads.withState state
  balanced := hbalanced
  withinBytes := hbytes
  withinEntries := hlength.trans hbooks.withinEntries
  creditValues := hcredits

theorem Books.evictions (hbooks : Books cache system) (hevictions : Evictions system.state state) :
    Books cache { system with state := state } := by
  have hsame : state.credits = system.state.credits ∧
      state.residentBytes ≤ system.state.residentBytes := by
    refine Evictions.invariant (fun other => other.credits = system.state.credits ∧
      other.residentBytes ≤ system.state.residentBytes) hevictions ?_ ?_ ⟨rfl, Nat.le_refl _⟩
    · intro first second hrotates hfirst
      rw [hrotates.credits, hrotates.residentBytes]
      exact hfirst
    · rintro first second ⟨pair, hleaves, -⟩ hfirst
      rw [hleaves.credits, hleaves.residentBytes]
      exact ⟨hfirst.1, (Nat.sub_le _ _).trans hfirst.2⟩
  refine hbooks.shrink (hbooks.toWired.evictions hevictions)
    (hbooks.balanced.evictions hevictions) (hsame.2.trans hbooks.withinBytes)
    hevictions.length_le ?_
  rw [hsame.1]
  exact hbooks.creditValues

theorem Books.leaves (hbooks : Books cache system) {pair : K × CacheEntry}
    (hleaves : Leaves system.state state pair) : Books cache { system with state := state } := by
  refine hbooks.shrink (hbooks.toWired.leaves hleaves) (hbooks.balanced.leaves hleaves) ?_ ?_ ?_
  · rw [hleaves.residentBytes]
    exact (Nat.sub_le _ _).trans hbooks.withinBytes
  · exact Nat.le_of_succ_le hleaves.entries.length_eq.symm.le
  · rw [hleaves.credits]
    exact hbooks.creditValues

end

/-! ## Every step keeps the books -/

section

variable {cache : BoundedAsyncCache} {system : System K V E}

theorem Books.removeMatchingCell (hbooks : Books cache system) (key : K) (cell : ℕ) :
    Books cache { system with state := system.state.removeMatchingCell key cell } := by
  rcases system.state.removeMatchingCell_cases key cell with
    ⟨pair, -, -, hleaves, -⟩ | ⟨hsame, -⟩
  · exact hbooks.leaves hleaves
  · rw [hsame]
    exact hbooks

/-- A loaded value is charged once and evicts until the bytes fit again. -/
theorem Books.settle (hbooks : Books cache system) (hhalf : 2 * cache.byteCapacity ≤ cache.usizeMax)
    {cell : ℕ} {value : LoadedValue V} (hvalue : system.cells[cell]? = some (some value))
    (key : K) :
    Books cache { system with state := cache.settle system.state key cell value.charge } := by
  rcases cache.settle_cases system.state key cell value.charge with
    ⟨-, hremove⟩ | ⟨hsame, -⟩ | ⟨hfits, entry, charged, hcell, hcharges, hsettle⟩
  · rw [hremove]
    exact hbooks.removeMatchingCell key cell
  · rw [hsame]
    exact hbooks
  · have hwithin := hbooks.withinBytes
    have hbalanced := hbooks.balanced.charges hcharges (by omega)
    have hevictions : Evictions charged (cache.evictToByteCapacity charged) :=
      cache.evictToByteRounds_spec _ charged
    obtain ⟨rest, hbefore, hafter⟩ := hcharges.entries
    have hcredits : (cache.evictToByteCapacity charged).credits = charged.credits := by
      refine Evictions.invariant (fun other => other.credits = charged.credits) hevictions ?_ ?_ rfl
      · intro first second hrotates hfirst
        rw [hrotates.credits, hfirst]
      · rintro first second ⟨pair, hleaves, -⟩ hfirst
        rw [hleaves.credits, hfirst]
    rw [hsettle]
    refine hbooks.shrink ((hbooks.toWired.charges hcharges).evictions hevictions)
      (hbalanced.evictions hevictions) ?_ ?_ ?_
    · exact cache.residentBytes_evictToByteRounds_le hbalanced (Nat.le_refl _)
    · refine hevictions.length_le.trans (Nat.le_of_eq ?_)
      exact hafter.length_eq.trans hbefore.length_eq.symm
    · intro posting hposting
      rw [hcredits, hcharges.credits, List.mem_append, List.mem_singleton] at hposting
      rcases hposting with hold | rfl
      · exact hbooks.creditValues posting hold
      · refine ⟨value, ?_, rfl⟩
        rw [hcell]
        exact hvalue

variable {call : Call K V E}

omit [DecidableEq K] in
/-- A new call neither loads nor has loaded anything. -/
theorem Books.addCall (hbooks : Books cache system)
    (hwired : Wired { system with calls := system.calls ++ [call] })
    (hloading : ∀ cell, call.phase ≠ .loading cell)
    (hloaded : ∀ cell value, call.phase ≠ .loaded cell value) :
    Books cache { system with calls := system.calls ++ [call] } :=
  hbooks.withLoads hwired (hbooks.toLoads.addCall hloading hloaded) fun _ _ hvalue => hvalue

/-- A new entry with a new cell. -/
theorem Books.addEntry (hbooks : Books cache system) {key : K}
    (hroom : system.state.entries.length < cache.entryCapacity)
    (habsent : system.state.entries.get? key = none) :
    Books cache { system with
      state := { system.state with
        entries := system.state.entries.insert key ⟨system.cells.length, none⟩ }
      cells := system.cells ++ [none] } := by
  have hperm : (system.state.entries.insert key ⟨system.cells.length, none⟩).entries.Perm
      ((key, ⟨system.cells.length, none⟩) :: system.state.entries.entries) :=
    LinkedMap.perm_insert habsent
  have hdebits : ∀ posting ∈ system.state.debits, posting.cell < system.cells.length := by
    intro posting hposting
    have hcredit := hbooks.balanced.ledger.mem_iff.mpr
      (List.mem_append_left _ (List.mem_map_of_mem hposting))
    obtain ⟨credit, hcredit, hsame⟩ := List.mem_map.mp hcredit
    obtain ⟨value, hvalue, -⟩ := hbooks.creditValues credit hcredit
    have hcell : credit.cell = posting.cell := congrArg Prod.fst hsame
    exact hcell ▸ (List.getElem?_eq_some_iff.mp hvalue).1
  have hwired := hbooks.toWired.addEntry habsent
  refine ⟨hwired, hbooks.toLoads.addCell.withState _, ⟨?_, ?_, hbooks.balanced.once,
    hbooks.balanced.exactCredits, hbooks.balanced.exactDebits, hwired.uniqueCells, ?_⟩,
    hbooks.withinBytes, ?_, ?_⟩
  · refine hbooks.balanced.resident.trans ?_
    rw [chargedBytes_perm hperm, chargedBytes, chargedBytes, List.map_cons, List.sum_cons]
    exact (Nat.zero_add _).symm
  · exact hbooks.balanced.ledger.trans ((charges_perm hperm).symm.append_left _)
  · intro posting hposting pair hpair
    have hrange := hdebits posting hposting
    rcases List.mem_cons.mp (hperm.mem_iff.mp hpair) with rfl | hother
    · dsimp only
      omega
    · exact hbooks.balanced.gone posting hposting pair hother
  · have hlength := hperm.length_eq
    rw [List.length_cons] at hlength
    exact hlength.trans_le hroom
  · intro posting hposting
    obtain ⟨value, hvalue, hcharge⟩ := hbooks.creditValues posting hposting
    exact ⟨value, getElem?_append_of_some hvalue, hcharge⟩

theorem Books.enter (hbooks : Books cache system) (key : K) :
    Books cache (cache.enter system key) := by
  have hwired : Wired (cache.enter system key) := hbooks.toWired.enter key
  rcases enter_cases cache system key with
    ⟨state, hevictions, henter⟩ | ⟨state, entry, hrotates, -, henter⟩ |
    ⟨state, hevictions, hroom, habsent, henter⟩
  · rw [henter] at hwired ⊢
    exact (hbooks.evictions hevictions).addCall hwired (fun _ hphase => by cases hphase)
      fun _ _ hphase => by cases hphase
  · rw [henter] at hwired ⊢
    have hmoved := hbooks.evictions (Relation.ReflTransGen.single (Or.inl hrotates))
    exact hmoved.addCall hwired (fun _ hphase => by cases hphase) fun _ _ hphase => by cases hphase
  · rw [henter] at hwired ⊢
    have hadded := (hbooks.evictions hevictions).addEntry hroom (hevictions.get?_eq_none habsent)
    exact hadded.addCall hwired (fun _ hphase => by cases hphase) fun _ _ hphase => by cases hphase

omit [DecidableEq K] in
/-- A call that has run its last critical section. -/
theorem Books.finish (hbooks : Books cache system) {id : ℕ} (hcall : system.calls[id]? = some call)
    (result : Except E V) : Books cache (system.setPhase id (.finished result)) :=
  hbooks.withLoads (hbooks.toWired.setPhase hcall fun _ hcell => by cases hcell)
    (hbooks.toLoads.finish hcall result) fun _ _ hvalue => hvalue

theorem Books.next (hhalf : 2 * cache.byteCapacity ≤ cache.usizeMax) (hbooks : Books cache system)
    (action : Action K V E) : Books cache (cache.next system action) := by
  have hsteps := cache.next_steps system action
  generalize cache.next system action = after at hsteps ⊢
  cases hsteps with
  | stays => exact hbooks
  | enter => exact hbooks.enter _
  | moves hcall hmoves => exact hbooks.moves hcall hmoves
  | store hcall hphase => exact hbooks.store hcall hphase _
  | fail hcall => exact (hbooks.removeMatchingCell _ _).finish hcall _
  | settle hcall hphase =>
      have hvalue := hbooks.loadedValues _ (List.mem_of_getElem? hcall) _ _ hphase
      exact (hbooks.settle hhalf hvalue _).finish hcall _

/-! ## What a step does to the entries -/

variable {pair : K × CacheEntry}

omit [DecidableEq K] in
/-- The value of an entry with a charge is there, so nobody loads it. -/
theorem Books.uncharged_of_loading (hbooks : Books cache system)
    (hpair : pair ∈ system.state.entries.entries) (hloading : system.Loading pair.2.cell) :
    pair.2.charge = none := by
  cases hcharge : pair.2.charge with
  | none => rfl
  | some charge =>
      obtain ⟨call, hcall, hphase⟩ := hloading
      have hresident : (pair.2.cell, charge) ∈ charges system.state.entries.entries :=
        mem_charges.mpr ⟨pair, hpair, rfl, hcharge⟩
      have hentry := hbooks.balanced.ledger.mem_iff.mpr (List.mem_append_right _ hresident)
      obtain ⟨posting, hposting, hsame⟩ := List.mem_map.mp hentry
      obtain ⟨value, hvalue, -⟩ := hbooks.creditValues posting hposting
      have hcell : posting.cell = pair.2.cell := congrArg Prod.fst hsame
      rw [hcell, hbooks.loadingEmpty call hcall _ hphase] at hvalue
      cases hvalue

variable {action : Action K V E}

/-- Entries whose load is in progress stay, unless a failed call cleans up. -/
theorem Books.loading_stays (hbooks : Books cache system)
    (hclean : ∀ cell, ¬ CleansUp system action cell) (hpair : pair ∈ system.state.entries.entries)
    (hloading : system.Loading pair.2.cell) :
    pair ∈ (cache.next system action).state.entries.entries := by
  have hcharge := hbooks.uncharged_of_loading hpair hloading
  obtain ⟨loader, hloader, hphase⟩ := hloading
  have hempty := hbooks.loadingEmpty loader hloader pair.2.cell hphase
  exact hbooks.toLoads.mem_entries_next hpair hcharge hempty (hclean pair.2.cell)

/-- A failed call removes the entry with its own cell and nothing else. -/
theorem Books.entries_of_cleansUp (hbooks : Books cache system) {cell : ℕ}
    (hclean : CleansUp system action cell) :
    (cache.next system action).state.entries.entries =
      system.state.entries.entries.filter fun pair => pair.2.cell ≠ cell := by
  obtain ⟨id, call, error, rfl, hcall, hphase⟩ := hclean
  have hkey : ∀ pair ∈ system.state.entries.entries, pair.2.cell = cell → pair.1 = call.key :=
    hbooks.callKeys call (List.mem_of_getElem? hcall) cell (by rw [hphase]; rfl)
  have hnext : (cache.next system (.finish id)).state =
      system.state.removeMatchingCell call.key cell := by
    simp only [BoundedAsyncCache.next, BoundedAsyncCache.perform, hcall, bind, Option.bind_some,
      hphase, Option.getD_some]
    rfl
  rw [hnext]
  rcases system.state.removeMatchingCell_cases call.key cell with
    ⟨found, hfoundkey, hfoundcell, hleaves, hremove⟩ | ⟨hsame, hnone⟩
  · rw [hremove, LinkedMap.remove]
    refine List.filter_congr fun pair hpair => ?_
    have hfound : found ∈ system.state.entries.entries :=
      hleaves.entries.mem_iff.mpr List.mem_cons_self
    refine decide_eq_decide.mpr (not_congr ⟨fun hsame => ?_, hkey pair hpair⟩)
    have hpairfound := List.inj_on_of_nodup_map system.state.entries.uniqueKeys hpair hfound
      (hsame.trans hfoundkey.symm)
    rw [hpairfound, hfoundcell]
  · rw [hsame, eq_comm, List.filter_eq_self]
    intro pair hpair
    refine decide_eq_true fun hcell => ?_
    obtain ⟨key, entry⟩ := pair
    have hsamekey : key = call.key := hkey _ hpair hcell
    exact hnone entry (hsamekey ▸ hpair) hcell

end

/-! ## Every interleaving -/

/-- The accounts of the cache hold in every state, evictions leave loads in progress alone, and
a failed call removes its own cell only. -/
theorem bounded_cache_keeps_books (cache : BoundedAsyncCache)
    (hhalf : 2 * cache.byteCapacity ≤ cache.usizeMax) (actions : List (Action K V E)) :
    (∀ system ∈ statesOf cache.next System.initial actions,
      system.state.Balanced cache.usizeMax ∧
      system.state.residentBytes ≤ cache.byteCapacity ∧
      system.state.entries.length ≤ cache.entryCapacity ∧
      ∀ posting ∈ system.state.credits, ∃ value : LoadedValue V,
        system.cells[posting.cell]? = some (some value) ∧ value.charge = posting.charge) ∧
    (∀ step ∈ stepsOf cache.next System.initial actions,
      (∀ pair ∈ step.1.state.entries.entries, step.1.Loading pair.2.cell →
        (∀ cell, ¬ CleansUp step.1 step.2 cell) →
        pair ∈ (cache.next step.1 step.2).state.entries.entries) ∧
      ∀ cell, CleansUp step.1 step.2 cell →
        (cache.next step.1 step.2).state.entries.entries =
          step.1.state.entries.entries.filter fun pair => pair.2.cell ≠ cell) := by
  have hbooks : ∀ system ∈ statesOf cache.next System.initial actions, Books cache system :=
    invariant_statesOf (fun system action hsystem => hsystem.next hhalf action)
      (books_initial cache) actions
  constructor
  · intro system hsystem
    have hsound := hbooks system hsystem
    exact ⟨hsound.balanced, hsound.withinBytes, hsound.withinEntries, hsound.creditValues⟩
  · intro step hstep
    have hsound := hbooks step.1 (fst_mem_statesOf hstep)
    refine ⟨fun pair hpair hloading hclean => hsound.loading_stays hclean hpair hloading, ?_⟩
    intro cell hclean
    exact hsound.entries_of_cleansUp hclean

/-- Two calls share a load, and a third one with another key evicts its value. -/
def sampleLoads : List (Action ℕ ℕ String) :=
  [.call 0, .call 0, .acquire 0, .load 0 (.ok ⟨7, 60⟩), .finish 0, .observe 1, .finish 1,
    .call 1, .acquire 2, .load 2 (.error "unreachable"), .finish 2]

theorem sampleLoads_keep_books :
    2 * sampleCache.byteCapacity ≤ sampleCache.usizeMax ∧
    (statesOf sampleCache.next System.initial sampleLoads).map
      (fun system => system.state.residentBytes) = [0, 0, 0, 0, 0, 60, 60, 60, 0, 0, 0, 0] ∧
    ∀ system ∈ statesOf sampleCache.next System.initial sampleLoads,
      system.state.residentBytes = chargedBytes system.state.entries.entries ∧
        system.state.residentBytes ≤ sampleCache.byteCapacity := by
  have hhalf : 2 * sampleCache.byteCapacity ≤ sampleCache.usizeMax := by decide
  refine ⟨hhalf, by decide, fun system hsystem => ?_⟩
  have hbooks := (bounded_cache_keeps_books sampleCache hhalf sampleLoads).1 system hsystem
  exact ⟨hbooks.1.resident, hbooks.2.1⟩

end ParqDB.Cache
