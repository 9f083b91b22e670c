import Mathlib.Algebra.Order.Ring.Int
import Mathlib.Logic.Relation
import Mathlib.Order.Nat
import ParqDB.Foundations.LinkedMap
import ParqDB.Foundations.Runs

/-!
# The bounded asynchronous cache

`session/index_table/bounded_cache.rs`: an LRU of entries that are being loaded or were
loaded, with one initialisation at a time for each cell.

A call of `get_or_try_insert` is cut at its awaits and critical sections: `call` is the
first critical section, `acquire` and `observe` are what a waiter on a `OnceCell` can see,
`load` is the end of a loader, `finish` is the last critical section, and `drop` drops the
future at an await.  Cells have numbers: `Arc::ptr_eq` is equality of numbers.

`credits` and `debits` are history variables: the additions to and subtractions from the
resident bytes so far.
-/

namespace ParqDB.Cache

open Foundations

variable {K V E : Type} [DecidableEq K]

/-! ## The locked state -/

structure LoadedValue (V : Type) where
  value : V
  charge : ℕ
deriving DecidableEq

structure CacheEntry where
  cell : ℕ
  charge : Option ℕ
deriving DecidableEq

/-- A charge of a cell, and the resident bytes it was applied to. -/
structure Posting where
  cell : ℕ
  charge : ℕ
  before : ℕ
deriving DecidableEq

structure CacheState (K : Type) where
  entries : LinkedMap K CacheEntry
  residentBytes : ℕ
  credits : List Posting
  debits : List Posting

/-- The capacities of a cache, and the largest `usize`. -/
structure BoundedAsyncCache where
  entryCapacity : ℕ
  byteCapacity : ℕ
  usizeMax : ℕ

namespace CacheState

def empty : CacheState K := ⟨.empty, 0, [], []⟩

/-- `resident_bytes.saturating_add(charge)`. -/
def addResident (usizeMax : ℕ) (state : CacheState K) (cell charge : ℕ) : CacheState K :=
  { state with
    residentBytes := min (state.residentBytes + charge) usizeMax
    credits := state.credits ++ [⟨cell, charge, state.residentBytes⟩] }

/-- `resident_bytes.saturating_sub(charge)`. -/
def subResident (state : CacheState K) (cell charge : ℕ) : CacheState K :=
  { state with
    residentBytes := state.residentBytes - charge
    debits := state.debits ++ [⟨cell, charge, state.residentBytes⟩] }

/-- At most so many rounds of `evict_oldest_loaded`. -/
def evictRounds : ℕ → CacheState K → Bool × CacheState K
  | 0, state => (false, state)
  | rounds + 1, state =>
      match state.entries.popFront with
      | none => (false, state)
      | some ((key, entry), rest) =>
          match entry.charge with
          | none => evictRounds rounds { state with entries := rest.insert key entry }
          | some charge => (true, { state with entries := rest }.subResident entry.cell charge)

def evictOldestLoaded (state : CacheState K) : Bool × CacheState K :=
  evictRounds state.entries.length state

def removeMatchingCell (state : CacheState K) (key : K) (cell : ℕ) : CacheState K :=
  match state.entries.get? key with
  | none => state
  | some entry =>
      if entry.cell = cell then
        let removed := { state with entries := state.entries.remove key }
        match entry.charge with
        | none => removed
        | some charge => removed.subResident cell charge
      else state

end CacheState

namespace BoundedAsyncCache

/-- The loop of `reserve_entry`, which evicts at most once for each entry. -/
def reserveRounds (cache : BoundedAsyncCache) : ℕ → CacheState K → Bool × CacheState K
  | 0, state => (decide (state.entries.length < cache.entryCapacity), state)
  | rounds + 1, state =>
      if cache.entryCapacity ≤ state.entries.length then
        match state.evictOldestLoaded with
        | (true, evicted) => reserveRounds cache rounds evicted
        | (false, rotated) => (false, rotated)
      else (true, state)

/-- Makes room without evicting a load in progress. -/
def reserveEntry (cache : BoundedAsyncCache) (state : CacheState K) : Bool × CacheState K :=
  cache.reserveRounds state.entries.length state

/-- The loop of `evict_to_byte_capacity`, which evicts at most once for each entry. -/
def evictToByteRounds (cache : BoundedAsyncCache) : ℕ → CacheState K → CacheState K
  | 0, state => state
  | rounds + 1, state =>
      if cache.byteCapacity < state.residentBytes then
        match state.evictOldestLoaded with
        | (true, evicted) => evictToByteRounds cache rounds evicted
        | (false, rotated) => rotated
      else state

def evictToByteCapacity (cache : BoundedAsyncCache) (state : CacheState K) : CacheState K :=
  cache.evictToByteRounds state.entries.length state

/-- The critical section after a successful load. -/
def settle (cache : BoundedAsyncCache) (state : CacheState K) (key : K) (cell charge : ℕ) :
    CacheState K :=
  if cache.byteCapacity < charge then state.removeMatchingCell key cell
  else
    match state.entries.get? key with
    | none => state
    | some entry =>
        if entry.cell = cell ∧ entry.charge = none then
          let charged := { state with
            entries := state.entries.modify key fun entry => { entry with charge := some charge } }
          let added := charged.addResident cache.usizeMax cell charge
          let moved := (added.entries.toBack key).elim added fun (_, entries) =>
            { added with entries := entries }
          cache.evictToByteCapacity moved
        else state

end BoundedAsyncCache

/-! ## Calls -/

/-- Where a call of `get_or_try_insert` stands. -/
inductive Phase (V E : Type)
  /-- Loads without the cache. -/
  | bypassing
  /-- Waits for the cell. -/
  | waiting (cell : ℕ)
  /-- Runs its loader as the initialiser of the cell. -/
  | loading (cell : ℕ)
  | failed (cell : ℕ) (error : E)
  | loaded (cell : ℕ) (value : LoadedValue V)
  | finished (result : Except E V)
  | dropped
deriving DecidableEq

/-- The cell that a call in progress holds. -/
def Phase.cell? : Phase V E → Option ℕ
  | .waiting cell | .loading cell | .failed cell _ | .loaded cell _ => some cell
  | .bypassing | .finished _ | .dropped => none

def Phase.loadingCell? : Phase V E → Option ℕ
  | .loading cell => some cell
  | _ => none

theorem Phase.loadingCell?_eq_some_iff {cell : ℕ} (phase : Phase V E) :
    phase.loadingCell? = some cell ↔ phase = .loading cell := by
  cases phase <;> simp [Phase.loadingCell?]

def Phase.inProgress : Phase V E → Bool
  | .finished _ | .dropped => false
  | .bypassing | .waiting _ | .loading _ | .failed _ _ | .loaded _ _ => true

structure Call (K V E : Type) where
  key : K
  phase : Phase V E
deriving DecidableEq

/-- The cache with all its cells and calls so far. -/
structure System (K V E : Type) where
  state : CacheState K
  cells : List (Option (LoadedValue V))
  calls : List (Call K V E)

inductive Action (K V E : Type)
  | call (key : K)
  | acquire (id : ℕ)
  | observe (id : ℕ)
  | load (id : ℕ) (outcome : Except E (LoadedValue V))
  | finish (id : ℕ)
  | drop (id : ℕ)

namespace System

def initial : System K V E := ⟨.empty, [], []⟩

def setPhase (system : System K V E) (id : ℕ) (phase : Phase V E) : System K V E :=
  { system with calls := system.calls.modify id fun call => { call with phase := phase } }

/-- Some call runs its loader for the cell. -/
def Loading (system : System K V E) (cell : ℕ) : Prop :=
  ∃ call ∈ system.calls, call.phase = .loading cell

instance (system : System K V E) (cell : ℕ) : Decidable (system.Loading cell) :=
  decidable_of_iff (∃ call ∈ system.calls, call.phase.loadingCell? = some cell) <|
    exists_congr fun call => and_congr_right fun _ => call.phase.loadingCell?_eq_some_iff

end System

namespace BoundedAsyncCache

/-- The first critical section: the cell of an entry, of a new entry, or none. -/
def enter (cache : BoundedAsyncCache) (system : System K V E) (key : K) : System K V E :=
  let add (system : System K V E) (phase : Phase V E) : System K V E :=
    { system with calls := system.calls ++ [⟨key, phase⟩] }
  if cache.entryCapacity = 0 ∨ cache.byteCapacity = 0 then add system .bypassing
  else
    match system.state.entries.toBack key with
    | some (entry, entries) =>
        add { system with state := { system.state with entries := entries } } (.waiting entry.cell)
    | none =>
        match cache.reserveEntry system.state with
        | (true, state) =>
            let cell := system.cells.length
            let state := { state with entries := state.entries.insert key ⟨cell, none⟩ }
            add { system with state := state, cells := system.cells ++ [none] } (.waiting cell)
        | (false, state) => add { system with state := state } .bypassing

/-- One step; none when the call is not at that point. -/
def perform (cache : BoundedAsyncCache) (system : System K V E) :
    Action K V E → Option (System K V E)
  | .call key => some (cache.enter system key)
  | .acquire id => do
      let call ← system.calls[id]?
      match call.phase with
      | .waiting cell =>
          match system.cells[cell]? with
          | some none =>
              -- the permit of an empty cell is free or held by its initialiser
              if system.Loading cell then none else some (system.setPhase id (.loading cell))
          | _ => none
      | _ => none
  | .observe id => do
      let call ← system.calls[id]?
      match call.phase with
      | .waiting cell =>
          match system.cells[cell]? with
          | some (some value) => some (system.setPhase id (.loaded cell value))
          | _ => none
      | _ => none
  | .load id outcome => do
      let call ← system.calls[id]?
      match call.phase with
      | .bypassing => some (system.setPhase id (.finished (outcome.map LoadedValue.value)))
      | .loading cell =>
          match outcome with
          | .ok value =>
              some ({ system with cells := system.cells.set cell (some value) }.setPhase id
                (.loaded cell value))
          | .error error => some (system.setPhase id (.failed cell error))
      | _ => none
  | .finish id => do
      let call ← system.calls[id]?
      match call.phase with
      | .failed cell error =>
          some ({ system with state := system.state.removeMatchingCell call.key cell }.setPhase id
            (.finished (.error error)))
      | .loaded cell value =>
          some ({ system with
            state := cache.settle system.state call.key cell value.charge }.setPhase id
              (.finished (.ok value.value)))
      | _ => none
  | .drop id => do
      let call ← system.calls[id]?
      match call.phase with
      | .bypassing | .waiting _ | .loading _ => some (system.setPhase id .dropped)
      | _ => none

/-- A step that cannot be made leaves the system as it is. -/
def next (cache : BoundedAsyncCache) (system : System K V E) (action : Action K V E) :
    System K V E :=
  (cache.perform system action).getD system

end BoundedAsyncCache

/-- A cache for one entry and 100 bytes. -/
def sampleCache : BoundedAsyncCache := ⟨1, 100, 2 ^ 64 - 1⟩

/-!
## The books of the locked state

What one critical section does to the entries and the resident bytes of the bounded
asynchronous cache.

**Strategy.**  `Rotates`, `Evicts` and `Charges` say once what the loops can do to the
state, with the entries up to their order; the loops are sequences of these
(`Evictions`).  `Balanced` is what all of them keep: the resident bytes are the charges of
the entries, and every addition so far was undone by one subtraction or belongs to an entry
of the map.
-/

variable {K : Type}

/-! ## Charges -/

/-- The sum of the recorded charges. -/
def chargedBytes (entries : List (K × CacheEntry)) : ℕ :=
  (entries.map fun pair => pair.2.charge.getD 0).sum

/-- The recorded charges with their cells. -/
def charges (entries : List (K × CacheEntry)) : List (ℕ × ℕ) :=
  entries.filterMap fun pair => pair.2.charge.map fun charge => (pair.2.cell, charge)

def Posting.entry (posting : Posting) : ℕ × ℕ := (posting.cell, posting.charge)

variable {left right : List (K × CacheEntry)}

theorem chargedBytes_perm (hperm : left.Perm right) :
    chargedBytes left = chargedBytes right := (hperm.map _).sum_eq

theorem charges_perm (hperm : left.Perm right) :
    (charges left).Perm (charges right) := hperm.filterMap _

theorem mem_charges {entries : List (K × CacheEntry)} {cell charge : ℕ} :
    (cell, charge) ∈ charges entries ↔
      ∃ pair ∈ entries, pair.2.cell = cell ∧ pair.2.charge = some charge := by
  simp only [charges, List.mem_filterMap, Option.map_eq_some_iff, Prod.mk.injEq]
  constructor
  · rintro ⟨pair, hpair, other, hother, rfl, rfl⟩
    exact ⟨pair, hpair, rfl, hother⟩
  · rintro ⟨pair, hpair, rfl, hcharge⟩
    exact ⟨pair, hpair, charge, hcharge, rfl, rfl⟩

theorem chargedBytes_eq_zero {entries : List (K × CacheEntry)}
    (hnone : ∀ pair ∈ entries, pair.2.charge = none) : chargedBytes entries = 0 := by
  refine List.sum_eq_zero fun bytes hbytes => ?_
  obtain ⟨pair, hpair, rfl⟩ := List.mem_map.mp hbytes
  rw [hnone pair hpair]
  rfl

/-! ## Changes of the state -/

namespace CacheState

/-- Only the order of the entries changes. -/
structure Rotates (before after : CacheState K) : Prop where
  entries : after.entries.entries.Perm before.entries.entries
  residentBytes : after.residentBytes = before.residentBytes
  credits : after.credits = before.credits
  debits : after.debits = before.debits

/-- An entry leaves the map, with its charge if it has one. -/
structure Leaves (before after : CacheState K) (pair : K × CacheEntry) : Prop where
  entries : before.entries.entries.Perm (pair :: after.entries.entries)
  residentBytes : after.residentBytes = before.residentBytes - pair.2.charge.getD 0
  credits : after.credits = before.credits
  debits : after.debits = before.debits ++ (pair.2.charge.map fun charge =>
    Posting.mk pair.2.cell charge before.residentBytes).toList

/-- The oldest loaded entry leaves the map. -/
def Evicts (before after : CacheState K) : Prop :=
  ∃ pair, Leaves before after pair ∧ pair.2.charge ≠ none

/-- An entry gets its charge. -/
structure Charges (usizeMax : ℕ) (before after : CacheState K) (pair : K × CacheEntry)
    (charge : ℕ) : Prop where
  uncharged : pair.2.charge = none
  entries : ∃ rest, before.entries.entries.Perm (pair :: rest) ∧
    after.entries.entries.Perm ((pair.1, { pair.2 with charge := some charge }) :: rest)
  residentBytes : after.residentBytes = min (before.residentBytes + charge) usizeMax
  credits : after.credits = before.credits ++ [⟨pair.2.cell, charge, before.residentBytes⟩]
  debits : after.debits = before.debits

/-- Any number of evictions. -/
def Evictions (before after : CacheState K) : Prop :=
  Relation.ReflTransGen (fun before after => Rotates before after ∨ Evicts before after) before
    after

theorem Rotates.refl (state : CacheState K) : Rotates state state :=
  ⟨List.Perm.refl _, rfl, rfl, rfl⟩

variable {first second third : CacheState K}

theorem Rotates.trans (hleft : Rotates first second) (hright : Rotates second third) :
    Rotates first third where
  entries := hright.entries.trans hleft.entries
  residentBytes := hright.residentBytes.trans hleft.residentBytes
  credits := hright.credits.trans hleft.credits
  debits := hright.debits.trans hleft.debits

/-- An eviction after a rotation. -/
theorem Rotates.evicts (hleft : Rotates first second) (hright : Evicts second third) :
    Evicts first third := by
  obtain ⟨pair, hleaves, hcharged⟩ := hright
  refine ⟨pair, ⟨hleft.entries.symm.trans hleaves.entries, ?_, ?_, ?_⟩, hcharged⟩
  · rw [hleaves.residentBytes, hleft.residentBytes]
  · rw [hleaves.credits, hleft.credits]
  · rw [hleaves.debits, hleft.debits, hleft.residentBytes]

variable {before after : CacheState K}

/-- What rotations and evictions keep, all evictions keep. -/
theorem Evictions.invariant (property : CacheState K → Prop)
    (hevictions : Evictions before after)
    (hrotates : ∀ before after, Rotates before after → property before → property after)
    (hevicts : ∀ before after, Evicts before after → property before → property after)
    (hbefore : property before) : property after := by
  induction hevictions with
  | refl => exact hbefore
  | tail _ hlast ih =>
      rcases hlast with hrotate | hevict
      · exact hrotates _ _ hrotate ih
      · exact hevicts _ _ hevict ih

theorem Evicts.length (hevicts : Evicts before after) :
    after.entries.length + 1 = before.entries.length := by
  obtain ⟨pair, hleaves, -⟩ := hevicts
  exact hleaves.entries.length_eq.symm

variable {pair : K × CacheEntry}

section

variable (hevictions : Evictions before after)

include hevictions

/-- Evictions only take entries away. -/
theorem Evictions.subset
    (hpair : pair ∈ after.entries.entries) : pair ∈ before.entries.entries := by
  have hsubset : after.entries.entries ⊆ before.entries.entries := by
    refine Evictions.invariant (fun state => state.entries.entries ⊆ before.entries.entries)
      hevictions ?_ ?_ (List.Subset.refl _)
    · intro first second hrotates hfirst
      exact List.Subset.trans hrotates.entries.subset hfirst
    · rintro first second ⟨other, hleaves, -⟩ hfirst
      have hrest := List.Subset.trans hleaves.entries.symm.subset hfirst
      exact List.Subset.trans (List.subset_cons_self _ _) hrest
  exact hsubset hpair

theorem Evictions.get?_eq_none [DecidableEq K] {key : K} (habsent : before.entries.get? key = none) :
    after.entries.get? key = none :=
  LinkedMap.get?_eq_none_iff.mpr fun pair hpair =>
    LinkedMap.get?_eq_none_iff.mp habsent pair (hevictions.subset hpair)

/-- Evictions leave the entries that are not loaded. -/
theorem Evictions.mem_of_uncharged (hpair : pair ∈ before.entries.entries)
    (hcharge : pair.2.charge = none) : pair ∈ after.entries.entries := by
  refine Evictions.invariant (fun state => pair ∈ state.entries.entries) hevictions ?_ ?_ hpair
  · intro first second hrotates hfirst
    exact hrotates.entries.mem_iff.mpr hfirst
  · rintro first second ⟨other, hleaves, hcharged⟩ hfirst
    rcases List.mem_cons.mp (hleaves.entries.mem_iff.mp hfirst) with rfl | hother
    · exact absurd hcharge hcharged
    · exact hother

theorem Evictions.length_le :
    after.entries.length ≤ before.entries.length := by
  refine Evictions.invariant (fun state => state.entries.length ≤ before.entries.length)
    hevictions ?_ ?_ (Nat.le_refl _)
  · intro first second hrotates hfirst
    have hlength : second.entries.length = first.entries.length := hrotates.entries.length_eq
    omega
  · intro first second hevicts hfirst
    have hlength := hevicts.length
    omega

end

/-! ## The books -/

/-- The resident bytes are the charges of the entries, and every addition so far was exact and
was undone by one exact subtraction or belongs to an entry of the map. -/
structure Balanced (usizeMax : ℕ) (state : CacheState K) : Prop where
  resident : state.residentBytes = chargedBytes state.entries.entries
  ledger : (state.credits.map Posting.entry).Perm
    (state.debits.map Posting.entry ++ charges state.entries.entries)
  once : (state.credits.map Posting.cell).Nodup
  exactCredits : ∀ posting ∈ state.credits, posting.before + posting.charge ≤ usizeMax
  exactDebits : ∀ posting ∈ state.debits, posting.charge ≤ posting.before
  uniqueCells : (state.entries.entries.map fun pair => pair.2.cell).Nodup
  gone : ∀ posting ∈ state.debits, ∀ pair ∈ state.entries.entries, pair.2.cell ≠ posting.cell

variable {usizeMax : ℕ} {before after : CacheState K}

theorem balanced_empty : Balanced usizeMax (empty : CacheState K) where
  resident := rfl
  ledger := List.Perm.refl _
  once := List.nodup_nil
  exactCredits := fun _ hposting => absurd hposting List.not_mem_nil
  exactDebits := fun _ hposting => absurd hposting List.not_mem_nil
  uniqueCells := List.nodup_nil
  gone := fun _ hposting => absurd hposting List.not_mem_nil

section

variable (hbalanced : Balanced usizeMax before)

include hbalanced

theorem Balanced.rotates (hrotates : Rotates before after) :
    Balanced usizeMax after where
  resident := by
    rw [hrotates.residentBytes, hbalanced.resident, chargedBytes_perm hrotates.entries]
  ledger := by
    rw [hrotates.credits, hrotates.debits]
    exact hbalanced.ledger.trans ((charges_perm hrotates.entries).symm.append_left _)
  once := hrotates.credits ▸ hbalanced.once
  exactCredits := hrotates.credits ▸ hbalanced.exactCredits
  exactDebits := hrotates.debits ▸ hbalanced.exactDebits
  uniqueCells := (hrotates.entries.map _).nodup_iff.mpr hbalanced.uniqueCells
  gone := by
    intro posting hposting pair hpair
    rw [hrotates.debits] at hposting
    exact hbalanced.gone posting hposting pair (hrotates.entries.mem_iff.mp hpair)

/-- The cells of a balanced state other than that of an entry that left it. -/
theorem Balanced.cell_ne_of_leaves {other : K × CacheEntry}
    (hleaves : Leaves before after pair) (hother : other ∈ after.entries.entries) :
    other.2.cell ≠ pair.2.cell := by
  have hunique := (hleaves.entries.map fun pair => pair.2.cell).nodup_iff.mp hbalanced.uniqueCells
  rw [List.map_cons, List.nodup_cons] at hunique
  exact fun hsame => hunique.1 (hsame ▸ List.mem_map_of_mem hother)

theorem Balanced.leaves (hleaves : Leaves before after pair) :
    Balanced usizeMax after := by
  have hbytes : before.residentBytes =
      pair.2.charge.getD 0 + chargedBytes after.entries.entries := by
    rw [hbalanced.resident, chargedBytes_perm hleaves.entries, chargedBytes, List.map_cons,
      List.sum_cons]
    rfl
  have hcharges : (charges before.entries.entries).Perm
      ((pair.2.charge.map fun charge => (pair.2.cell, charge)).toList ++
        charges after.entries.entries) := by
    refine (charges_perm hleaves.entries).trans ?_
    cases hcharge : pair.2.charge <;> simp [charges, hcharge]
  constructor
  · rw [hleaves.residentBytes]
    omega
  · rw [hleaves.credits, hleaves.debits, List.map_append, List.append_assoc]
    refine hbalanced.ledger.trans (List.Perm.append_left _ ?_)
    refine hcharges.trans (List.Perm.of_eq (congrArg (· ++ _) ?_))
    cases pair.2.charge <;> rfl
  · rw [hleaves.credits]
    exact hbalanced.once
  · rw [hleaves.credits]
    exact hbalanced.exactCredits
  · intro posting hposting
    rw [hleaves.debits, List.mem_append] at hposting
    rcases hposting with hold | hnew
    · exact hbalanced.exactDebits posting hold
    · cases hcharge : pair.2.charge with
      | none => simp [hcharge] at hnew
      | some charge =>
          simp only [hcharge, Option.map_some, Option.toList_some, List.mem_singleton] at hnew
          subst hnew
          simp only [hcharge, Option.getD_some] at hbytes
          simp only
          omega
  · have hunique :=
      (hleaves.entries.map fun pair => pair.2.cell).nodup_iff.mp hbalanced.uniqueCells
    rw [List.map_cons, List.nodup_cons] at hunique
    exact hunique.2
  · intro posting hposting other hother
    rw [hleaves.debits, List.mem_append] at hposting
    rcases hposting with hold | hnew
    · refine hbalanced.gone posting hold other ?_
      exact hleaves.entries.mem_iff.mpr (List.mem_cons_of_mem _ hother)
    · cases hcharge : pair.2.charge with
      | none => simp [hcharge] at hnew
      | some charge =>
          simp only [hcharge, Option.map_some, Option.toList_some, List.mem_singleton] at hnew
          subst hnew
          exact hbalanced.cell_ne_of_leaves hleaves hother

theorem Balanced.charges {charge : ℕ}
    (hcharges : Charges usizeMax before after pair charge)
    (hroom : before.residentBytes + charge ≤ usizeMax) : Balanced usizeMax after := by
  obtain ⟨rest, hbefore, hafter⟩ := hcharges.entries
  have hcells : (after.entries.entries.map fun pair => pair.2.cell).Perm
      (before.entries.entries.map fun pair => pair.2.cell) := by
    refine (hafter.map _).trans ?_
    exact (hbefore.map fun pair : K × CacheEntry => pair.2.cell).symm
  have hpair : pair ∈ before.entries.entries := hbefore.mem_iff.mpr List.mem_cons_self
  have hfresh : pair.2.cell ∉ before.credits.map Posting.cell := by
    intro hcredit
    obtain ⟨posting, hposting, hcell⟩ := List.mem_map.mp hcredit
    have hentry := hbalanced.ledger.mem_iff.mp (List.mem_map_of_mem hposting)
    rcases List.mem_append.mp hentry with hdebit | hresident
    · obtain ⟨debit, hdebit, hsame⟩ := List.mem_map.mp hdebit
      exact hbalanced.gone debit hdebit pair hpair
        (hcell.symm.trans (congrArg Prod.fst hsame).symm)
    · obtain ⟨other, hother, hothercell, hothercharge⟩ := mem_charges.mp hresident
      have hsame : other = pair := List.inj_on_of_nodup_map hbalanced.uniqueCells hother hpair
        (hothercell.trans hcell)
      rw [hsame, hcharges.uncharged] at hothercharge
      cases hothercharge
  constructor
  · rw [hcharges.residentBytes, Nat.min_eq_left hroom, hbalanced.resident,
      chargedBytes_perm hbefore, chargedBytes_perm hafter]
    simp only [chargedBytes, List.map_cons, List.sum_cons, hcharges.uncharged, Option.getD_none,
      Option.getD_some]
    omega
  · have hentries : (Cache.charges after.entries.entries).Perm
        ((pair.2.cell, charge) :: Cache.charges before.entries.entries) := by
      refine (charges_perm hafter).trans ?_
      refine List.Perm.trans ?_ (List.Perm.cons _ (charges_perm hbefore).symm)
      simp [Cache.charges, hcharges.uncharged]
    rw [hcharges.credits, hcharges.debits, List.map_append]
    refine (hbalanced.ledger.append_right _).trans ?_
    rw [List.append_assoc]
    refine List.Perm.append_left _ (List.Perm.trans ?_ hentries.symm)
    exact List.perm_append_singleton _ _
  · rw [hcharges.credits, List.map_append]
    refine (List.perm_append_singleton _ _).nodup_iff.mpr (List.nodup_cons.mpr ⟨hfresh, ?_⟩)
    exact hbalanced.once
  · intro posting hposting
    rw [hcharges.credits, List.mem_append, List.mem_singleton] at hposting
    rcases hposting with hold | rfl
    · exact hbalanced.exactCredits posting hold
    · exact hroom
  · rw [hcharges.debits]
    exact hbalanced.exactDebits
  · exact hcells.nodup_iff.mpr hbalanced.uniqueCells
  · intro posting hposting other hother
    rw [hcharges.debits] at hposting
    have hcell := hcells.mem_iff.mp (List.mem_map_of_mem hother)
    obtain ⟨old, hold, hsame⟩ := List.mem_map.mp hcell
    exact hsame ▸ hbalanced.gone posting hposting old hold

theorem Balanced.evictions (hevictions : Evictions before after) : Balanced usizeMax after := by
  refine Evictions.invariant (Balanced usizeMax) hevictions ?_ ?_ hbalanced
  · intro first second hrotates hfirst
    exact hfirst.rotates hrotates
  · rintro first second ⟨pair, hleaves, -⟩ hfirst
    exact hfirst.leaves hleaves

end

/-! ## The loops -/

variable [DecidableEq K]

/-- The rounds take an entry, or turn every entry they look at to the back. -/
theorem evictRounds_spec {front back : List (K × CacheEntry)} {rounds : ℕ} {state : CacheState K}
    (hentries : state.entries.entries = front ++ back) (hrounds : rounds = front.length) :
    match evictRounds rounds state with
    | (true, after) => Evicts state after
    | (false, after) => Rotates state after ∧ ∀ pair ∈ front, pair.2.charge = none := by
  induction rounds generalizing front back state with
  | zero =>
      rw [evictRounds, List.length_eq_zero_iff.mp hrounds.symm]
      exact ⟨Rotates.refl state, fun pair hpair => absurd hpair List.not_mem_nil⟩
  | succ rounds ih =>
      cases front with
      | nil => cases hrounds
      | cons pair front =>
          rw [evictRounds]
          cases hpop : state.entries.popFront with
          | none =>
              rw [LinkedMap.popFront_eq_none hpop] at hentries
              cases hentries
          | some popped =>
              obtain ⟨⟨key, entry⟩, rest⟩ := popped
              have hsame := (LinkedMap.entries_of_popFront hpop).symm.trans hentries
              obtain ⟨rfl, hrest⟩ := List.cons.inj hsame
              dsimp only
              cases hcharge : entry.charge with
              | some charge =>
                  refine ⟨(key, entry), ⟨?_, ?_, rfl, ?_⟩, by simp [hcharge]⟩
                  · exact List.Perm.of_eq (LinkedMap.entries_of_popFront hpop)
                  · simp [subResident, hcharge]
                  · simp [subResident, hcharge]
              | none =>
                  have hback := LinkedMap.entries_insert_of_popFront hpop
                  have hturned : Rotates state
                      { state with entries := rest.insert key entry } := by
                    refine ⟨?_, rfl, rfl, rfl⟩
                    rw [LinkedMap.entries_of_popFront hpop]
                    exact (List.Perm.of_eq hback).trans (List.perm_append_singleton _ _)
                  have hnext : ({ state with entries := rest.insert key entry } :
                      CacheState K).entries.entries = front ++ (back ++ [(key, entry)]) := by
                    rw [← List.append_assoc]
                    exact hback.trans (congrArg (· ++ [(key, entry)]) hrest)
                  have hih := ih hnext (by simpa using hrounds)
                  dsimp only
                  split at hih
                  · exact hturned.evicts hih
                  · refine ⟨hturned.trans hih.1, fun other hother => ?_⟩
                    rcases List.mem_cons.mp hother with rfl | hfront
                    · exact hcharge
                    · exact hih.2 other hfront

theorem evictOldestLoaded_of_true {state after : CacheState K}
    (hevict : state.evictOldestLoaded = (true, after)) : Evicts state after := by
  have hspec := evictRounds_spec (List.append_nil state.entries.entries).symm rfl
  change state.evictRounds state.entries.entries.length = _ at hevict
  rw [hevict] at hspec
  exact hspec

theorem evictOldestLoaded_of_false {state after : CacheState K}
    (hevict : state.evictOldestLoaded = (false, after)) :
    Rotates state after ∧ ∀ pair ∈ state.entries.entries, pair.2.charge = none := by
  have hspec := evictRounds_spec (List.append_nil state.entries.entries).symm rfl
  change state.evictRounds state.entries.entries.length = _ at hevict
  rw [hevict] at hspec
  exact hspec

theorem removeMatchingCell_cases (state : CacheState K) (key : K) (cell : ℕ) :
    (∃ pair, pair.1 = key ∧ pair.2.cell = cell ∧
        Leaves state (state.removeMatchingCell key cell) pair ∧
        (state.removeMatchingCell key cell).entries = state.entries.remove key) ∨
      state.removeMatchingCell key cell = state ∧
        ∀ entry, (key, entry) ∈ state.entries.entries → entry.cell ≠ cell := by
  rw [removeMatchingCell]
  cases hget : state.entries.get? key with
  | none =>
      refine Or.inr ⟨rfl, fun entry hentry => ?_⟩
      exact absurd rfl (LinkedMap.get?_eq_none_iff.mp hget _ hentry)
  | some entry =>
      dsimp only
      by_cases hcell : entry.cell = cell
      · rw [if_pos hcell]
        refine Or.inl ⟨(key, entry), rfl, hcell, ?_, ?_⟩
        · cases hcharge : entry.charge with
          | none => exact ⟨LinkedMap.perm_remove hget, by simp [hcharge], rfl, by simp [hcharge]⟩
          | some charge =>
              refine ⟨LinkedMap.perm_remove hget, ?_, rfl, ?_⟩
              · simp [subResident, hcharge]
              · simp [subResident, hcharge, hcell]
        · cases entry.charge <;> rfl
      · rw [if_neg hcell]
        refine Or.inr ⟨rfl, fun other hother => ?_⟩
        rwa [LinkedMap.eq_of_mem hother (LinkedMap.get?_eq_some_iff.mp hget)]

end CacheState

namespace BoundedAsyncCache

open CacheState

variable (cache : BoundedAsyncCache) [DecidableEq K]

theorem reserveRounds_spec (rounds : ℕ) (state : CacheState K) :
    Evictions state (cache.reserveRounds rounds state).2 ∧
      ((cache.reserveRounds rounds state).1 = true →
        (cache.reserveRounds rounds state).2.entries.length < cache.entryCapacity) := by
  induction rounds generalizing state with
  | zero => exact ⟨Relation.ReflTransGen.refl, fun hroom => of_decide_eq_true hroom⟩
  | succ rounds ih =>
      rw [reserveRounds]
      split
      · split
        · rename_i after hevict
          have hfirst : Evictions state after :=
            Relation.ReflTransGen.single (Or.inr (evictOldestLoaded_of_true hevict))
          exact ⟨hfirst.trans (ih after).1, (ih after).2⟩
        · rename_i after hevict
          refine ⟨Relation.ReflTransGen.single (Or.inl (evictOldestLoaded_of_false hevict).1), ?_⟩
          intro hfalse
          cases hfalse
      · rename_i hroom
        exact ⟨Relation.ReflTransGen.refl, fun _ => Nat.not_le.mp hroom⟩

theorem evictToByteRounds_spec (rounds : ℕ) (state : CacheState K) :
    Evictions state (cache.evictToByteRounds rounds state) := by
  induction rounds generalizing state with
  | zero => exact Relation.ReflTransGen.refl
  | succ rounds ih =>
      rw [evictToByteRounds]
      split
      · split
        · rename_i after hevict
          have hfirst : Evictions state after :=
            Relation.ReflTransGen.single (Or.inr (evictOldestLoaded_of_true hevict))
          exact hfirst.trans (ih after)
        · rename_i after hevict
          exact Relation.ReflTransGen.single (Or.inl (evictOldestLoaded_of_false hevict).1)
      · exact Relation.ReflTransGen.refl

/-- A state without charges has no resident bytes, so the loop ends below the capacity. -/
theorem residentBytes_evictToByteRounds_le {usizeMax rounds : ℕ} {state : CacheState K}
    (hbalanced : Balanced usizeMax state) (hrounds : state.entries.length ≤ rounds) :
    (cache.evictToByteRounds rounds state).residentBytes ≤ cache.byteCapacity := by
  induction rounds generalizing state with
  | zero =>
      have hempty : state.entries.entries = [] := List.length_eq_zero_iff.mp (Nat.le_zero.mp hrounds)
      rw [evictToByteRounds, hbalanced.resident, hempty]
      exact Nat.zero_le _
  | succ rounds ih =>
      rw [evictToByteRounds]
      split
      · rename_i hover
        split
        · rename_i after hevict
          have hevicts := evictOldestLoaded_of_true hevict
          have hlength := hevicts.length
          obtain ⟨pair, hleaves, -⟩ := hevicts
          exact ih (hbalanced.leaves hleaves) (by omega)
        · rename_i after hevict
          obtain ⟨hrotates, hnone⟩ := evictOldestLoaded_of_false hevict
          rw [hrotates.residentBytes, hbalanced.resident, chargedBytes_eq_zero hnone]
          exact Nat.zero_le _
      · rename_i hwithin
        exact Nat.not_lt.mp hwithin

/-- What the last critical section does after a successful load. -/
theorem settle_cases (state : CacheState K) (key : K) (cell charge : ℕ) :
    (cache.byteCapacity < charge ∧
        cache.settle state key cell charge = state.removeMatchingCell key cell) ∨
      (cache.settle state key cell charge = state ∧ ∀ entry,
        (key, entry) ∈ state.entries.entries → entry.cell = cell → entry.charge ≠ none) ∨
      (charge ≤ cache.byteCapacity ∧ ∃ entry charged, entry.cell = cell ∧
        Charges cache.usizeMax state charged (key, entry) charge ∧
        cache.settle state key cell charge = cache.evictToByteCapacity charged) := by
  rw [settle]
  split
  · rename_i hover
    exact Or.inl ⟨hover, rfl⟩
  · rename_i hwithin
    refine Or.inr ?_
    cases hget : state.entries.get? key with
    | none =>
        refine Or.inl ⟨rfl, fun entry hentry => ?_⟩
        exact absurd rfl (LinkedMap.get?_eq_none_iff.mp hget _ hentry)
    | some entry =>
        dsimp only
        split
        · rename_i hmatch
          refine Or.inr ⟨Nat.not_lt.mp hwithin, entry, _, hmatch.1, ?_, rfl⟩
          have hmodify := LinkedMap.perm_modify hget fun entry : CacheEntry =>
            { entry with charge := some charge }
          simp only [addResident, LinkedMap.toBack, LinkedMap.get?_modify hget, Option.map_some,
            Option.elim_some]
          refine ⟨hmatch.2, ⟨_, LinkedMap.perm_remove hget, ?_⟩, rfl, ?_, rfl⟩
          · have htoBack := LinkedMap.get?_modify hget fun entry : CacheEntry =>
              { entry with charge := some charge }
            exact (LinkedMap.perm_toBack (congrArg (Option.map _) htoBack)).trans hmodify
          · rw [hmatch.1]
        · rename_i hmismatch
          refine Or.inl ⟨rfl, fun other hother hcell hnone => hmismatch ?_⟩
          rw [← LinkedMap.eq_of_mem hother (LinkedMap.get?_eq_some_iff.mp hget)]
          exact ⟨hcell, hnone⟩

end BoundedAsyncCache

end ParqDB.Cache
