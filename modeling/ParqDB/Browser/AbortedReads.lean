import ParqDB.Browser.RangeInvariant

/-!
# Aborted range reads

What an abort reaches among the range reads: the load that it ends, the code that waits for that
load, and the slices that such code rejects.

**Strategy.**  A slice counts as aborted as soon as the load that it waits for is
(`AbortedSlice`), so that the time at which code goes on does not matter.  Then a step makes a
slice aborted only if it ends the load of that slice (`abortedSlice_of_step`).  A flush does
not, because no entry of the cache names an aborted load once the cache has dealt with all
completions (`Inv.undamaged`).
-/

namespace ParqDB.Browser

open Foundations

variable {right : String → ℕ → ℕ → Bytes → Prop} {system next : RangeReads}

/-- Rejected by an abort. -/
def Promise.aborted {α : Type} : Promise α → Bool
  | .rejected (.aborted _) => true
  | _ => false

/-- The slices that a waiter settles. -/
def Waiter.slices : Waiter → List ℕ
  | .whole slice => [slice]
  | .range _ _ _ reads => reads.map PendingRange.slice

namespace RangeReads

def AbortedLoad (system : RangeReads) (load : ℕ) : Prop :=
  ∃ found ∈ system.loads[load]?, found.promise.aborted = true

/-- Code behind an await settles the slice with the load. -/
def Awaits (system : RangeReads) (slice load : ℕ) : Prop :=
  ∃ wait ∈ system.waits, wait.resumed = false ∧ wait.load = load ∧ slice ∈ wait.waiter.slices

/-- The slice is rejected by an abort, or is going to be. -/
def AbortedSlice (system : RangeReads) (slice : ℕ) : Prop :=
  (∃ found ∈ system.slices[slice]?, found.promise.aborted = true) ∨
    ∃ load, system.Awaits slice load ∧ system.AbortedLoad load

/-! ## Promises that are set -/

variable {promise : PendingRange → Promise Bytes} {reads : List PendingRange} {slice : ℕ}

/-- The promise of a slice after several were settled is the one before or one that was given. -/
theorem aborted_of_settleReads {found : Slice}
    (hfound : (system.settleReads reads promise).slices[slice]? = some found)
    (haborted : found.promise.aborted = true) :
    (∃ before ∈ system.slices[slice]?, before.promise.aborted = true) ∨
      ∃ read ∈ reads, read.slice = slice ∧ (promise read).aborted = true := by
  induction reads generalizing system with
  | nil => exact Or.inl ⟨found, hfound, haborted⟩
  | cons read reads ih =>
      rcases @ih (system.settleSlice read.slice (promise read)) hfound with
        ⟨before, hbefore, hsame⟩ | ⟨other, hother, hrest⟩
      · rcases settleSlice_cases system read.slice (promise read) with hkept | ⟨old, hold, hset⟩
        · rw [hkept] at hbefore
          exact Or.inl ⟨before, hbefore, hsame⟩
        · rw [hset, Option.mem_def, mem_of_set hold] at hbefore
          split at hbefore
          · next heq =>
              cases hbefore
              exact Or.inr ⟨read, List.mem_cons_self, heq, hsame⟩
          · exact Or.inl ⟨before, hbefore, hsame⟩
      · exact Or.inr ⟨other, List.mem_cons_of_mem _ hother, hrest⟩

theorem settleReads_loads (reads : List PendingRange) (promise : PendingRange → Promise Bytes) :
    (system.settleReads reads promise).loads = system.loads ∧
      (system.settleReads reads promise).waits = system.waits := by
  induction reads generalizing system with
  | nil => exact ⟨rfl, rfl⟩
  | cons read reads ih =>
      obtain ⟨hloads, hwaits⟩ := @ih (system.settleSlice read.slice (promise read))
      rcases settleSlice_cases system read.slice (promise read) with hkept | ⟨old, -, hset⟩
      · rw [hkept] at hloads hwaits
        rw [settleReads, List.foldl_cons, hkept]
        exact ⟨hloads, hwaits⟩
      · rw [hset] at hloads hwaits
        rw [settleReads, List.foldl_cons, hset]
        exact ⟨hloads, hwaits⟩

/-- Settling slices aborts those that are given such a promise. -/
theorem abortedSlice_of_settleReads
    (haborted : (system.settleReads reads promise).AbortedSlice slice) :
    system.AbortedSlice slice ∨
      ∃ read ∈ reads, read.slice = slice ∧ (promise read).aborted = true := by
  obtain ⟨hloads, hwaits⟩ := @settleReads_loads system reads promise
  rcases haborted with ⟨found, hfound, hsame⟩ | ⟨load, hawaits, hload⟩
  · rcases aborted_of_settleReads hfound hsame with hbefore | hgiven
    · exact Or.inl (Or.inl hbefore)
    · exact Or.inr hgiven
  · refine Or.inl (Or.inr ⟨load, ?_, ?_⟩)
    · rwa [Awaits, hwaits] at hawaits
    · rwa [AbortedLoad, hloads] at hload

/-! ## Loads that begin -/

/-- Loads that are not aborted may be added, and code that waits for loads that are not. -/
theorem abortedSlice_of_begin {slices : List Slice} {loads : List Load} {waits : List Wait}
    (haborted : next.AbortedSlice slice) (hslices : next.slices = system.slices ++ slices)
    (hloads : next.loads = system.loads ++ loads) (hwaits : next.waits = system.waits ++ waits)
    (hslice : ∀ slice ∈ slices, slice.promise.aborted = false)
    (hload : ∀ load ∈ loads, load.promise.aborted = false)
    (hwait : ∀ wait ∈ waits, ¬ next.AbortedLoad wait.load) : system.AbortedSlice slice := by
  rcases haborted with ⟨found, hfound, hsame⟩ | ⟨load, hawaits, hdone⟩
  · rw [hslices, Option.mem_def] at hfound
    by_cases hold : slice < system.slices.length
    · rw [List.getElem?_append_left hold] at hfound
      exact Or.inl ⟨found, hfound, hsame⟩
    · rw [List.getElem?_append_right (Nat.le_of_not_lt hold)] at hfound
      rw [hslice found (List.mem_of_getElem? hfound)] at hsame
      cases hsame
  · obtain ⟨wait, hmem, hresumed, rfl, hsettles⟩ := hawaits
    rw [hwaits, List.mem_append] at hmem
    rcases hmem with hmem | hmem
    · refine Or.inr ⟨wait.load, ⟨wait, hmem, hresumed, rfl, hsettles⟩, ?_⟩
      obtain ⟨found, hfound, hsame⟩ := hdone
      rw [hloads, Option.mem_def] at hfound
      by_cases hold : wait.load < system.loads.length
      · rw [List.getElem?_append_left hold] at hfound
        exact ⟨found, hfound, hsame⟩
      · rw [List.getElem?_append_right (Nat.le_of_not_lt hold)] at hfound
        rw [hload found (List.mem_of_getElem? hfound)] at hsame
        cases hsame
    · exact absurd hdone (hwait wait hmem)

/-- The last of the loads has not been aborted. -/
theorem not_abortedLoad_of_concat {load : Load} (hloads : next.loads = system.loads ++ [load])
    (hload : load.promise.aborted = false) : ¬ next.AbortedLoad system.loads.length := by
  rintro ⟨found, hfound, haborted⟩
  rw [hloads, List.getElem?_concat_length] at hfound
  cases hfound
  rw [hload] at haborted
  cases haborted

theorem abortedSlice_of_slice {index : ℕ} {buffer : HttpRangeBuffer} {start stop : ℤ}
    (haborted : (system.slice index buffer start stop).AbortedSlice slice) :
    system.AbortedSlice slice := by
  unfold RangeReads.slice at haborted
  dsimp only at haborted
  split at haborted
  · exact abortedSlice_of_begin haborted rfl (List.append_nil _).symm (List.append_nil _).symm
      (by simp [Promise.aborted]) (by simp) (by simp)
  · split at haborted
    · refine abortedSlice_of_begin haborted rfl rfl rfl (by simp [Promise.aborted])
        (by simp [HttpRangeBuffer.load, Promise.aborted]) ?_
      intro wait hwait
      rw [List.mem_singleton.mp hwait]
      exact not_abortedLoad_of_concat rfl rfl
    · split at haborted
      · exact abortedSlice_of_begin haborted rfl (List.append_nil _).symm
          (List.append_nil _).symm (by simp [Promise.aborted]) (by simp) (by simp)
      · exact abortedSlice_of_begin haborted rfl (List.append_nil _).symm
          (List.append_nil _).symm (by simp [Promise.aborted]) (by simp) (by simp)

/-! ## Flushes -/

/-- The cache has dealt with every load that has completed. -/
def Drained (system : RangeReads) : Prop :=
  ∀ load ∈ system.loads, load.cached = true → load.promise = .pending ∨ load.recorded = true

/-- No entry of the cache names an aborted load. -/
structure Undamaged (system : RangeReads) : Prop where
  books : system.cache.Books
  entries : ∀ entry ∈ system.cache.ranges, entry.load < system.loads.length ∧
    ¬ system.AbortedLoad entry.load

end RangeReads

open RangeReads

theorem Inv.undamaged (hinv : Inv right system) (hdrained : system.Drained) :
    system.Undamaged := by
  refine ⟨hinv.books, fun entry hentry => ?_⟩
  obtain ⟨load, hload, -, hcached, -, hfulfilled⟩ := hinv.entries entry hentry
  refine ⟨(List.getElem?_eq_some_iff.mp hload).1, ?_⟩
  rintro ⟨found, hfound, haborted⟩
  obtain rfl := Option.some.inj (hload.symm.trans hfound)
  rcases hdrained load (List.mem_of_getElem? hload) hcached with hpending | hrecorded
  · rw [hpending] at haborted
    cases haborted
  · obtain ⟨bytes, hbytes⟩ := hfulfilled hrecorded
    rw [hbytes] at haborted
    cases haborted

namespace RangeReads

theorem abortedLoad_of_append {loads : List Load} {load : ℕ}
    (hloads : next.loads = system.loads ++ loads) (hold : load < system.loads.length)
    (haborted : next.AbortedLoad load) : system.AbortedLoad load := by
  obtain ⟨found, hfound, hsame⟩ := haborted
  rw [hloads, Option.mem_def, List.getElem?_append_left hold] at hfound
  exact ⟨found, hfound, hsame⟩

/-- What `startRange` does: it waits for an entry of the cache or begins a load. -/
theorem startRange_cases (hundamaged : system.Undamaged) (buffer : HttpRangeBuffer)
    (range : CoalescedRange) :
    ∃ loads wait, (startRange buffer system range).slices = system.slices ∧
      (startRange buffer system range).loads = system.loads ++ loads ∧
      (startRange buffer system range).waits = system.waits ++ [wait] ∧
      (∀ load ∈ loads, load.promise.aborted = false) ∧
      ¬ (startRange buffer system range).AbortedLoad wait.load ∧
      (startRange buffer system range).Undamaged := by
  obtain ⟨hbooks, -, hentries, hcovering⟩ := hundamaged.books.read
    ⟨buffer.object, range.start, range.stop⟩ system.loads.length
  -- the entries are those of before, and that of the load that begins
  have hkept : ∀ {loads : List Load} {after : RangeReads},
      after.loads = system.loads ++ loads →
      after.cache = (system.cache.read ⟨buffer.object, range.start, range.stop⟩
        system.loads.length).1 →
      ((system.cache.read ⟨buffer.object, range.start, range.stop⟩
        system.loads.length).2 = .miss → system.loads.length < after.loads.length ∧
          ¬ after.AbortedLoad system.loads.length) →
      after.Undamaged := by
    intro loads after hloads hcache hmiss
    refine ⟨hcache ▸ hbooks, fun entry hentry => ?_⟩
    rw [hcache] at hentry
    rcases hentries entry hentry with ⟨before, hbefore, clock, rfl⟩ | ⟨hnew, -, hload, -⟩
    · obtain ⟨hlt, hsound⟩ := hundamaged.entries before hbefore
      refine ⟨?_, fun haborted => hsound (abortedLoad_of_append hloads hlt haborted)⟩
      rw [hloads, List.length_append]
      exact Nat.lt_of_lt_of_le hlt (Nat.le_add_right _ _)
    · rw [hload]
      exact hmiss hnew
  unfold startRange
  dsimp only
  rcases read_cases system.cache ⟨buffer.object, range.start, range.stop⟩ system.loads.length with
    hread | ⟨covering, hread⟩ | hread
  · rw [hread]
    dsimp only
    refine ⟨_, _, rfl, rfl, rfl, by simp [HttpRangeBuffer.load, Promise.aborted],
      not_abortedLoad_of_concat rfl rfl, hkept rfl rfl ?_⟩
    intro hmiss
    rw [hread] at hmiss
    cases hmiss
  · rw [hread]
    dsimp only
    obtain ⟨hlt, hsound⟩ := hundamaged.entries covering (hcovering covering hread).1
    refine ⟨[], _, rfl, (List.append_nil _).symm, rfl, by simp, hsound,
      hkept (List.append_nil _).symm rfl ?_⟩
    intro hmiss
    rw [hread] at hmiss
    cases hmiss
  · rw [hread]
    dsimp only
    refine ⟨_, _, rfl, rfl, rfl, by simp [HttpRangeBuffer.load, Promise.aborted],
      not_abortedLoad_of_concat rfl rfl, hkept rfl rfl fun _ => ⟨?_, ?_⟩⟩
    · simp
    · exact not_abortedLoad_of_concat rfl rfl

variable {buffer : HttpRangeBuffer} {slice index : ℕ} {load : Load}

theorem abortedSlice_of_startRanges {ranges : List CoalescedRange} (hundamaged : system.Undamaged)
    (haborted : (ranges.foldl (startRange buffer) system).AbortedSlice slice) :
    system.AbortedSlice slice := by
  induction ranges generalizing system with
  | nil => exact haborted
  | cons range ranges ih =>
      obtain ⟨loads, wait, hslices, hloads, hwaits, hnew, hsound, hafter⟩ :=
        startRange_cases hundamaged buffer range
      refine abortedSlice_of_begin (ih hafter haborted) (hslices.trans (List.append_nil _).symm)
        hloads hwaits (by simp) hnew ?_
      intro other hother
      rw [List.mem_singleton.mp hother]
      exact hsound

theorem abortedSlice_of_flush (hundamaged : system.Undamaged)
    (haborted : (system.flush index buffer).AbortedSlice slice) : system.AbortedSlice slice := by
  unfold RangeReads.flush at haborted
  dsimp only at haborted
  split at haborted
  · rcases abortedSlice_of_settleReads haborted with hbefore | ⟨read, -, -, hgiven⟩
    · exact hbefore
    · cases hgiven
  · have hcleared : Undamaged { system with buffers := system.buffers.set index { buffer with
        pending := []
        flushScheduled := false } } := ⟨hundamaged.books, hundamaged.entries⟩
    have hbefore := abortedSlice_of_startRanges hcleared haborted
    exact hbefore

/-! ## Requests end, and code goes on -/

/-- Code that goes on settles its slices, with an abort only if its load was aborted. -/
theorem resume_cases {waiter : Waiter} (hresume : system.resume load waiter = some next) :
    ∃ reads promise, next = system.settleReads reads promise ∧ ∀ read ∈ reads,
      read.slice ∈ waiter.slices ∧
        ((promise read).aborted = true → load.promise.aborted = true) := by
  cases waiter with
  | whole slice =>
      simp only [RangeReads.resume] at hresume
      split at hresume
      · cases hresume
      · cases hresume
        exact ⟨[⟨slice, 0, 0⟩], fun _ => load.promise, rfl, by simp [Waiter.slices]⟩
  | range start stop covering reads =>
      have hslices : ∀ read ∈ reads, read.slice ∈ (Waiter.range start stop covering reads).slices :=
        fun read hread => List.mem_map_of_mem hread
      simp only [RangeReads.resume] at hresume
      split at hresume
      · cases hresume
      · next failure hfailure =>
          cases hresume
          refine ⟨reads, _, rfl, fun read hread => ⟨hslices read hread, ?_⟩⟩
          rw [hfailure]
          exact fun hgiven => hgiven
      · cases hresume
        exact ⟨reads, _, rfl, fun read hread => ⟨hslices read hread, fun hgiven => by cases hgiven⟩⟩

theorem abortedSlice_of_resume {wait : Wait} (hwait : system.waits[index]? = some wait)
    (hresumed : wait.resumed = false) (hload : system.loads[wait.load]? = some load)
    (hresume : { system with
      waits := system.waits.set index { wait with resumed := true } }.resume load wait.waiter =
        some next) (haborted : next.AbortedSlice slice) : system.AbortedSlice slice := by
  obtain ⟨reads, promise, rfl, hreads⟩ := resume_cases hresume
  rcases abortedSlice_of_settleReads haborted with hmarked | ⟨read, hread, rfl, hgiven⟩
  · rcases hmarked with hset | ⟨other, ⟨found, hfound, hunresumed, rfl, hsettles⟩, hdone⟩
    · exact Or.inl hset
    · rcases List.mem_or_eq_of_mem_set hfound with hfound | rfl
      · exact Or.inr ⟨_, ⟨found, hfound, hunresumed, rfl, hsettles⟩, hdone⟩
      · cases hunresumed
  · -- the slice waited for an aborted load before
    obtain ⟨hsettles, hdone⟩ := hreads read hread
    exact Or.inr ⟨wait.load, ⟨wait, List.mem_of_getElem? hwait, hresumed, rfl, hsettles⟩,
      load, hload, hdone hgiven⟩

theorem abortedLoad_of_set {changed : Load} {other : ℕ} (hload : system.loads[index]? = some load)
    (hnext : next.loads = system.loads.set index changed) (haborted : next.AbortedLoad other) :
    system.AbortedLoad other ∨ index = other ∧ changed.promise.aborted = true := by
  obtain ⟨found, hfound, hsame⟩ := haborted
  rw [hnext, Option.mem_def, mem_of_set hload] at hfound
  split at hfound
  · next heq =>
      cases hfound
      exact Or.inr ⟨heq, hsame⟩
  · exact Or.inl ⟨found, hfound, hsame⟩

/-- The request of a load ends with an abort. -/
def EndsAborted (load : ℕ) : ReadAction → Prop
  | .respond index (.rejected (.aborted _)) => index = load
  | _ => False

theorem endsAborted_of_replied {reply : Reply} (haborted : (replied load reply).aborted = true) :
    EndsAborted index (.respond index reply) := by
  cases reply with
  | response response =>
      dsimp only [replied] at haborted
      split at haborted <;> cases haborted
  | rejected failure =>
      cases failure with
      | aborted signal => rfl
      | failed message => cases haborted

/-- A step aborts a slice only by ending the load that the slice waits for. -/
theorem abortedSlice_of_step {action : ReadAction} (hinv : Inv right system)
    (hstep : system.step action = some next)
    (hdrained : ∀ index, action = .flush index → system.Drained)
    (haborted : next.AbortedSlice slice) :
    system.AbortedSlice slice ∨ ∃ load, system.Awaits slice load ∧ EndsAborted load action := by
  cases action with
  | create buffer =>
      simp only [RangeReads.step, Option.ite_none_right_eq_some, Option.some.injEq] at hstep
      obtain ⟨-, rfl⟩ := hstep
      exact Or.inl haborted
  | slice index start stop =>
      simp only [RangeReads.step] at hstep
      split at hstep
      · cases hstep
        exact Or.inl (abortedSlice_of_slice haborted)
      · cases hstep
  | flush index =>
      simp only [RangeReads.step] at hstep
      split at hstep
      · split at hstep
        · cases hstep
          exact Or.inl (abortedSlice_of_flush (hinv.undamaged (hdrained index rfl)) haborted)
        · cases hstep
      · cases hstep
  | respond index reply =>
      simp only [RangeReads.step] at hstep
      split at hstep
      · next load hload =>
          split at hstep
          · cases hstep
            rcases haborted with hset | ⟨other, hawaits, hdone⟩
            · exact Or.inl (Or.inl hset)
            · rcases abortedLoad_of_set hload rfl hdone with hbefore | ⟨rfl, hreplied⟩
              · exact Or.inl (Or.inr ⟨other, hawaits, hbefore⟩)
              · exact Or.inr ⟨index, hawaits, endsAborted_of_replied hreplied⟩
          · cases hstep
      · cases hstep
  | record index =>
      simp only [RangeReads.step] at hstep
      split at hstep
      · next load hload =>
          split at hstep
          · obtain ⟨cache, -, rfl⟩ := Option.map_eq_some_iff.mp hstep
            rcases haborted with hset | ⟨other, hawaits, hdone⟩
            · exact Or.inl (Or.inl hset)
            · rcases abortedLoad_of_set hload rfl hdone with hbefore | ⟨rfl, hsame⟩
              · exact Or.inl (Or.inr ⟨other, hawaits, hbefore⟩)
              · exact Or.inl (Or.inr ⟨index, hawaits, load, hload, hsame⟩)
          · cases hstep
      · cases hstep
  | resume index =>
      simp only [RangeReads.step] at hstep
      split at hstep
      · next wait hwait =>
          split at hstep
          · cases hstep
          · next hresumed =>
              split at hstep
              · next load hload =>
                  exact Or.inl (abortedSlice_of_resume hwait (Bool.not_eq_true _ ▸ hresumed) hload
                    hstep haborted)
              · cases hstep
      · cases hstep

/-- A slice that has not been asked for is not aborted. -/
theorem not_abortedSlice_of_length_le (hinv : Inv right system)
    (hnew : system.slices.length ≤ slice) : ¬ system.AbortedSlice slice := by
  have hnone : system.slices[slice]? = none := List.getElem?_eq_none hnew
  rintro (⟨found, hfound, -⟩ | ⟨load, ⟨wait, hwait, -, -, hsettles⟩, -⟩)
  · rw [hnone] at hfound
    cases hfound
  · obtain ⟨found, -, -, hasked⟩ := hinv.waits wait hwait
    have hslice : ∃ asked, system.slices[slice]? = some asked := by
      cases hwaiter : wait.waiter with
      | whole whole =>
          rw [hwaiter] at hasked hsettles
          obtain ⟨asked, hasked, -⟩ := hasked
          rw [List.mem_singleton.mp hsettles]
          exact ⟨asked, hasked⟩
      | range start stop covering reads =>
          rw [hwaiter] at hasked hsettles
          obtain ⟨read, hread, rfl⟩ := List.mem_map.mp hsettles
          obtain ⟨-, -, asked, hasked, -⟩ := hasked read hread
          exact ⟨asked, hasked⟩
    obtain ⟨asked, hasked⟩ := hslice
    rw [hnone] at hasked
    cases hasked

end RangeReads

end ParqDB.Browser
