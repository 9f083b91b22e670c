import ParqDB.Cache.PageAccounts

/-!
# Canonical pages

What the steps of the page cache do to its entries, and what callers see of them.

**Strategy.**  `Effect` says once what a step can do to the entries and which page it returns.
A key gets a page only while it has none, so between its admission and its eviction everybody
sees the same one.

**Results.**

* `page_cache_accounts`: the counters of the cache, the bound on what `insert` admits, pinned
  entries, and the canonical page of a key, for every interleaving.
-/

namespace ParqDB.Cache.Pages

open Foundations PageCache

variable {Key : Type} [DecidableEq Key]

/-! ## Effects -/

/-- All entries are retired, whether they are pinned or not. -/
def Retires (action : Action Key) : Prop :=
  action = .clear ∨ ∃ capacity, action = .setCapacity capacity

/-- What a step can do to the entries, with the page it returns. -/
inductive Effect (cache : PageCache Key) (action : Action Key) :
    PageCache Key → Observation Key → Prop
  | keeps {after : PageCache Key}
      (hperm : after.entries.entries.Perm cache.entries.entries) : Effect cache action after none
  | hit {after : PageCache Key} {key : Key} {entry : CacheEntry}
      (hperm : after.entries.entries.Perm cache.entries.entries)
      (hentry : (key, entry) ∈ cache.entries.entries) :
      Effect cache action after (some (key, some entry.page))
  | bypass {after : PageCache Key} {key : Key} (hentries : after.entries = cache.entries)
      (habsent : cache.entries.get? key = none) : Effect cache action after (some (key, none))
  | evict {after : PageCache Key} {pair : Key × CacheEntry}
      (hperm : cache.entries.entries.Perm (pair :: after.entries.entries))
      (hunpinned : ¬ 1 < cache.strongCount pair.2.page) : Effect cache action after none
  | admitPage {after : PageCache Key} {key : Key} {entry : CacheEntry}
      (habsent : cache.entries.get? key = none)
      (hperm : after.entries.entries.Perm ((key, entry) :: cache.entries.entries)) :
      Effect cache action after (some (key, some entry.page))
  | retire {after : PageCache Key} (hretires : Retires action)
      (hempty : after.entries.entries = []) :
      Effect cache action after none

variable {layout : Layout} {cache : PageCache Key} {action : Action Key}

theorem effect_scanFailed {purpose : Purpose Key} {capacity rounds : ℕ}
    (hknows : LockKnows layout cache) (hlock : cache.lock = .scan purpose capacity rounds) :
    Effect cache .advance (cache.scanFailed purpose).1 (cache.scanFailed purpose).2 := by
  simp only [LockKnows, hlock] at hknows
  cases purpose with
  | insert key charge => exact .bypass rfl hknows.2.2
  | setCapacity => exact .keeps (List.Perm.refl _)

theorem effect_advance (hknows : LockKnows layout cache) :
    Effect cache .advance (next layout cache .advance) (observed layout cache .advance) := by
  rw [next, observed, perform]
  cases hlock : cache.lock with
  | free => exact .keeps (List.Perm.refl _)
  | check purpose capacity =>
      refine .keeps ?_
      cases purpose <;> simp only [Option.elim_some, PageCache.checkBytes] <;> split <;>
        exact List.Perm.refl _
  | scan purpose capacity rounds =>
      simp only [Option.elim_some, Option.bind_some]
      cases rounds with
      | zero => exact effect_scanFailed hknows hlock
      | succ rounds =>
          rw [PageCache.scanRound]
          split
          · exact effect_scanFailed hknows hlock
          · rename_i key entry rest hpop
            have hentries := LinkedMap.entries_of_popFront hpop
            split
            · refine .keeps ?_
              rw [hentries]
              exact (List.Perm.of_eq (LinkedMap.entries_insert_of_popFront hpop)).trans
                (List.perm_append_singleton _ _)
            · rename_i hunpinned
              have hperm : cache.entries.entries.Perm ((key, entry) :: ({ cache with
                  entries := rest
                  residentBytes := layout.wrappingSub cache.residentBytes entry.charge
                  lock := .check purpose capacity }.dropBuffer layout
                    entry.page).entries.entries) := by
                rw [entries_dropBuffer]
                exact List.Perm.of_eq hentries
              exact .evict hperm hunpinned
  | admitPage key charge =>
      simp only [LockKnows, hlock] at hknows
      have hperm : (cache.admitPage layout key charge).1.entries.entries.Perm
          ((key, ⟨cache.pages.length, charge⟩) :: cache.entries.entries) :=
        LinkedMap.perm_insert hknows.2.2
      exact .admitPage hknows.2.2 hperm

omit [DecidableEq Key] in
theorem entries_retireAll (layout : Layout) (cache : PageCache Key) :
    (cache.retireAll layout).entries.entries = [] :=
  congrArg LinkedMap.entries (foldl_dropBuffer_frame layout cache.entries.entries _).1

/-- All that a step can do to the entries. -/
theorem effect_next (action : Action Key) (hknows : LockKnows layout cache) :
    Effect cache action (next layout cache action) (observed layout cache action) := by
  have hstays : Effect cache action cache none := .keeps (List.Perm.refl _)
  cases action with
  | advance => exact effect_advance hknows
  | get key =>
      rw [next, observed, perform]
      split
      · simp only [Option.elim_some, Option.bind_some, PageCache.get]
        split
        · rename_i entry entries htoBack
          refine .hit (LinkedMap.perm_toBack htoBack) ?_
          exact LinkedMap.get?_eq_some_iff.mp (LinkedMap.get?_of_toBack htoBack)
        · exact hstays
      · exact hstays
  | insert key length =>
      rw [next, observed, perform]
      split
      · simp only [Option.elim_some, Option.bind_some, PageCache.insert]
        split
        · rename_i entry entries htoBack
          refine .hit (LinkedMap.perm_toBack htoBack) ?_
          exact LinkedMap.get?_eq_some_iff.mp (LinkedMap.get?_of_toBack htoBack)
        · rename_i htoBack
          split
          · exact .bypass rfl (LinkedMap.get?_of_toBack_eq_none htoBack)
          · exact .keeps (List.Perm.refl _)
      · exact hstays
  | setCapacity capacity =>
      rw [next, observed, perform]
      split
      · simp only [Option.elim_some, Option.bind_some, PageCache.setCapacity]
        split
        · exact .retire (Or.inr ⟨capacity, rfl⟩) (entries_retireAll layout _)
        · exact .keeps (List.Perm.refl _)
      · exact hstays
  | clear =>
      rw [next, observed, perform]
      split
      · exact .retire (Or.inl rfl) (entries_retireAll layout _)
      · exact hstays
  | clonePage page =>
      rw [next, observed, perform]
      split
      · exact .keeps (List.Perm.refl _)
      · exact hstays
  | dropPage page =>
      rw [next, observed, perform]
      split
      · refine .keeps ?_
        simp only [Option.elim_some, entries_dropBuffer]
        exact List.Perm.refl _
      · exact hstays
  | slice page =>
      rw [next, observed, perform]
      split
      · exact .keeps (List.Perm.refl _)
      · exact hstays
  | dropSlice page =>
      rw [next, observed, perform]
      split
      · refine .keeps ?_
        simp only [Option.elim_some, entries_dropBuffer]
        exact List.Perm.refl _
      · exact hstays

variable {after : PageCache Key} {observation : Observation Key} {pair : Key × CacheEntry}
  {key : Key} {page : ℕ}

/-- Only a key without an entry gets one. -/
theorem Effect.mem_or_absent (heffect : Effect cache action after observation)
    (hpair : pair ∈ after.entries.entries) :
    pair ∈ cache.entries.entries ∨ cache.entries.get? pair.1 = none := by
  cases heffect with
  | keeps hperm => exact Or.inl (hperm.mem_iff.mp hpair)
  | hit hperm hentry => exact Or.inl (hperm.mem_iff.mp hpair)
  | bypass hentries habsent => exact Or.inl (hentries ▸ hpair)
  | evict hperm hunpinned => exact Or.inl (hperm.mem_iff.mpr (List.mem_cons_of_mem _ hpair))
  | admitPage habsent hperm =>
      rcases List.mem_cons.mp (hperm.mem_iff.mp hpair) with rfl | hold
      · exact Or.inr habsent
      · exact Or.inl hold
  | retire hretires hempty =>
      rw [hempty] at hpair
      cases hpair

/-- A page that is referenced outside the cache keeps its entry. -/
theorem Effect.mem_of_pinned (heffect : Effect cache action after observation)
    (hretires : ¬ Retires action) (hpair : pair ∈ cache.entries.entries)
    (hpinned : 1 < cache.strongCount pair.2.page) : pair ∈ after.entries.entries := by
  cases heffect with
  | keeps hperm => exact hperm.mem_iff.mpr hpair
  | hit hperm hentry => exact hperm.mem_iff.mpr hpair
  | bypass hentries habsent => exact hentries.symm ▸ hpair
  | evict hperm hunpinned =>
      rcases List.mem_cons.mp (hperm.mem_iff.mp hpair) with rfl | hkept
      · exact absurd hpinned hunpinned
      · exact hkept
  | admitPage habsent hperm => exact hperm.mem_iff.mpr (List.mem_cons_of_mem _ hpair)
  | retire hall hempty => exact absurd hall hretires

/-- The page of a key in the cache. -/
def residentPage (cache : PageCache Key) (key : Key) : Option ℕ :=
  (cache.entries.get? key).map CacheEntry.page

theorem residentPage_of_mem {entry : CacheEntry} (hentry : (key, entry) ∈ cache.entries.entries) :
    residentPage cache key = some entry.page := by
  rw [residentPage, LinkedMap.get?_eq_some_iff.mpr hentry]
  rfl

/-- A tracked page that a call returns is the page of its key. -/
theorem Effect.residentPage_of_observed
    (heffect : Effect cache action after (some (key, some page))) :
    residentPage after key = some page := by
  cases heffect with
  | hit hperm hentry => exact residentPage_of_mem (hperm.mem_iff.mpr hentry)
  | admitPage habsent hperm => exact residentPage_of_mem (hperm.mem_iff.mpr List.mem_cons_self)

/-- A call for a key in the cache returns its page. -/
theorem Effect.observed_of_residentPage {result : Option ℕ}
    (heffect : Effect cache action after (some (key, result)))
    (hpage : residentPage cache key = some page) : result = some page := by
  cases heffect with
  | hit hperm hentry =>
      rw [residentPage_of_mem hentry] at hpage
      exact hpage
  | bypass hentries habsent =>
      rw [residentPage, habsent] at hpage
      cases hpage
  | admitPage habsent hperm =>
      rw [residentPage, habsent] at hpage
      cases hpage

/-- A key that stays in the cache keeps its page. -/
theorem Effect.residentPage_eq (heffect : Effect cache action after observation)
    (hpage : residentPage cache key = some page) (hresident : residentPage after key ≠ none) :
    residentPage after key = some page := by
  obtain ⟨entry, hentry, rfl⟩ := Option.map_eq_some_iff.mp hpage
  cases hafter : after.entries.get? key with
  | none =>
      rw [residentPage, hafter] at hresident
      exact absurd rfl hresident
  | some other =>
      have hmem := LinkedMap.get?_eq_some_iff.mp hafter
      rcases heffect.mem_or_absent hmem with hold | habsent
      · rw [residentPage_of_mem hmem,
          LinkedMap.eq_of_mem hold (LinkedMap.get?_eq_some_iff.mp hentry)]
      · rw [hentry] at habsent
        cases habsent

/-! ## Every interleaving -/

/-- While a key stays in the cache, everybody sees its one page. -/
theorem canonical_page {start : PageCache Key} {window : List (Action Key)}
    (hknows : ∀ step ∈ stepsOf (next layout) start window, LockKnows layout step.1)
    (hpage : residentPage start key = some page)
    (hresident : ∀ cache ∈ statesOf (next layout) start window, residentPage cache key ≠ none) :
    (∀ cache ∈ statesOf (next layout) start window, residentPage cache key = some page) ∧
      ∀ step ∈ stepsOf (next layout) start window, ∀ result,
        observed layout step.1 step.2 = some (key, result) → result = some page := by
  induction window generalizing start with
  | nil =>
      refine ⟨fun cache hcache => ?_, fun step hstep => absurd hstep List.not_mem_nil⟩
      rw [statesOf, List.mem_singleton] at hcache
      rw [hcache, hpage]
  | cons action window ih =>
      simp only [stepsOf, statesOf, List.forall_mem_cons] at hknows hresident ⊢
      have heffect := effect_next action hknows.1
      have hfirst : residentPage (next layout start action) key ≠ none := by
        refine hresident.2 _ ?_
        cases window <;> exact List.mem_cons_self
      obtain ⟨hstates, hsteps⟩ := ih hknows.2 (heffect.residentPage_eq hpage hfirst) hresident.2
      refine ⟨⟨hpage, hstates⟩, fun result hresult => ?_, hsteps⟩
      rw [hresult] at heffect
      exact heffect.observed_of_residentPage hpage

theorem accounted_new (layout : Layout) (capacity : ℕ) :
    Accounted layout (PageCache.new capacity : PageCache Key) where
  entryPages := fun _ hpair => absurd hpair List.not_mem_nil
  uniquePages := List.nodup_nil
  resident := rfl
  live := rfl
  withinUsize := Nat.zero_le _
  lockKnows := trivial

/-- The accounts of the page cache, for every interleaving of its operations with references that
come and go. -/
theorem page_cache_accounts (layout : Layout) (capacity : ℕ) (actions : List (Action Key))
    (haddressable : ∀ step ∈ stepsOf (next layout) (PageCache.new capacity) actions,
      Addressable layout step.1 step.2) :
    (∀ cache ∈ statesOf (next layout) (PageCache.new capacity) actions,
      cache.residentBytes = entryBytes cache ∧ cache.liveBytes = aliveBytes cache ∧
        cache.residentBytes ≤ cache.liveBytes) ∧
    (∀ step ∈ stepsOf (next layout) (PageCache.new capacity) actions,
      (step.1.liveBytes < (next layout step.1 step.2).liveBytes →
        (next layout step.1 step.2).liveBytes ≤ (next layout step.1 step.2).capacity) ∧
      (¬ Retires step.2 → ∀ pair ∈ step.1.entries.entries, 1 < step.1.strongCount pair.2.page →
        pair ∈ (next layout step.1 step.2).entries.entries) ∧
      ∀ key page, observed layout step.1 step.2 = some (key, some page) →
        residentPage (next layout step.1 step.2) key = some page) ∧
    (∀ (earlier window later : List (Action Key)) (key : Key) (page : ℕ),
      actions = earlier ++ window ++ later →
      residentPage (earlier.foldl (next layout) (PageCache.new capacity)) key = some page →
      (∀ cache ∈ statesOf (next layout) (earlier.foldl (next layout) (PageCache.new capacity))
        window, residentPage cache key ≠ none) →
      ∀ step ∈ stepsOf (next layout) (earlier.foldl (next layout) (PageCache.new capacity)) window,
        ∀ result, observed layout step.1 step.2 = some (key, result) → result = some page) := by
  have haccounted : ∀ cache ∈ statesOf (next layout) (PageCache.new capacity) actions,
      Accounted layout cache := by
    have hstep : ∀ (cache : PageCache Key) (action : Action Key), Accounted layout cache →
        Addressable layout cache action → Accounted layout (next layout cache action) :=
      fun cache action hcache haction => (hcache.next haction).1
    exact forall_mem_statesOf hstep (accounted_new layout capacity) haddressable
  refine ⟨fun cache hcache => ?_, fun step hstep => ?_, ?_⟩
  · have hsound := haccounted cache hcache
    exact ⟨hsound.resident, hsound.live, hsound.resident_le_live⟩
  · have hsound := haccounted step.1 (fst_mem_statesOf hstep)
    have heffect := effect_next step.2 hsound.lockKnows
    refine ⟨(hsound.next (haddressable step hstep)).2, ?_, ?_⟩
    · intro hretires pair hpair hpinned
      exact heffect.mem_of_pinned hretires hpair hpinned
    · intro key page hobserved
      rw [hobserved] at heffect
      exact heffect.residentPage_of_observed
  · intro earlier window later key page hactions hpage hresident
    refine (canonical_page (fun step hstep => ?_) hpage hresident).2
    refine (haccounted step.1 (fst_mem_statesOf ?_)).lockKnows
    rw [hactions, stepsOf_append, stepsOf_append]
    exact List.mem_append_left _ (List.mem_append_right _ hstep)

def sampleLayout : Layout := ⟨2 ^ 64 - 1, 8, 8⟩

/-- A page is admitted and read; it is pinned, so another one finds no room until its references
are dropped. -/
def samplePages : List (Action ℕ) :=
  [.insert 0 24, .advance, .advance, .get 0, .insert 1 64, .advance, .advance, .advance,
    .slice 0, .dropPage 0, .dropPage 0, .dropSlice 0, .insert 1 64, .advance, .advance, .advance,
    .advance]

theorem samplePages_accounted :
    (∀ step ∈ stepsOf (next sampleLayout) (PageCache.new 100) samplePages,
      Addressable sampleLayout step.1 step.2) ∧
    (statesOf (next sampleLayout) (PageCache.new 100) samplePages).map
      (fun cache => (cache.residentBytes, cache.liveBytes)) =
        [(0, 0), (0, 0), (0, 0), (40, 40), (40, 40), (40, 40), (40, 40), (40, 40), (40, 40),
          (40, 40), (40, 40), (40, 40), (40, 40), (40, 40), (40, 40), (0, 0), (0, 0), (80, 80)] ∧
    ∀ cache ∈ statesOf (next sampleLayout) (PageCache.new 100) samplePages,
      cache.residentBytes = entryBytes cache ∧ cache.liveBytes = aliveBytes cache ∧
        cache.residentBytes ≤ cache.liveBytes := by
  have haddressable : ∀ step ∈ stepsOf (next sampleLayout) (PageCache.new 100) samplePages,
      Addressable sampleLayout step.1 step.2 := by
    intro step hstep key charge hlock haction hcapacity
    have hsmall : ∀ step ∈ stepsOf (next sampleLayout) (PageCache.new 100) samplePages,
        step.1.capacity = 100 := by decide
    rw [hsmall step hstep] at hcapacity
    exact absurd hcapacity (by decide)
  exact ⟨haddressable, by decide, (page_cache_accounts sampleLayout 100 samplePages haddressable).1⟩

end ParqDB.Cache.Pages
