import Mathlib.Algebra.BigOperators.Group.Finset.Basic
import Mathlib.Algebra.Order.BigOperators.Group.Finset
import Mathlib.Algebra.Order.Ring.Int
import Mathlib.Data.List.GetD
import ParqDB.Cache.Pages

/-!
# The accounts of the page cache

Both counters of the page cache in every reachable state.

**Strategy.**  `chargesWhere` sums the charges of the pages that satisfy a predicate; the
live bytes are this sum for the pages whose buffer is referenced.  Every step that gives up a
reference runs the destructor of that one buffer if it was the last (`dropBuffer`), so the
sum changes at one page only (`chargesWhere_flip`).

**Results.**

* `page_cache_accounts`: the resident and the live bytes, the bound on what `insert` admits,
  pinned entries, and the canonical page of a key.
-/

namespace ParqDB.Cache.Pages

open Foundations PageCache

variable {Key : Type}

/-! ## Sums of charges -/

/-- The sum of the charges at the positions that satisfy a predicate. -/
def chargesWhere (charges : List ℕ) (selected : ℕ → Bool) : ℕ :=
  ∑ page ∈ Finset.range charges.length, if selected page then charges.getD page 0 else 0

theorem chargesWhere_congr {charges : List ℕ} {left right : ℕ → Bool}
    (hsame : ∀ page, left page = right page) :
    chargesWhere charges left = chargesWhere charges right := by
  refine Finset.sum_congr rfl fun page _ => ?_
  rw [hsame]

/-- One page is no longer selected. -/
theorem chargesWhere_flip {charges : List ℕ} {before after : ℕ → Bool} {page : ℕ}
    (hpage : page < charges.length) (hothers : ∀ other, other ≠ page → before other = after other)
    (hbefore : before page = true) (hafter : after page = false) :
    chargesWhere charges before = chargesWhere charges after + charges.getD page 0 := by
  have hmem : page ∈ Finset.range charges.length := Finset.mem_range.mpr hpage
  have hrest : ∀ other ∈ (Finset.range charges.length).erase page,
      (if before other then charges.getD other 0 else 0) =
        if after other then charges.getD other 0 else 0 := by
    intro other hother
    rw [hothers other (Finset.ne_of_mem_erase hother)]
  rw [chargesWhere, chargesWhere, ← Finset.add_sum_erase _ _ hmem, ← Finset.add_sum_erase _ _ hmem,
    Finset.sum_congr rfl hrest, if_pos hbefore, hafter]
  simp only [Bool.false_eq_true, if_false]
  omega

variable {selected : ℕ → Bool}

/-- A new page. -/
theorem chargesWhere_append {charges : List ℕ} {charge : ℕ}
    (hselected : selected charges.length = true) :
    chargesWhere (charges ++ [charge]) selected = chargesWhere charges selected + charge := by
  have hold : ∀ page ∈ Finset.range charges.length,
      (if selected page then (charges ++ [charge]).getD page 0 else 0) =
        if selected page then charges.getD page 0 else 0 := by
    intro page hpage
    rw [List.getD_append _ _ _ _ (Finset.mem_range.mp hpage)]
  rw [chargesWhere, chargesWhere, List.length_append, List.length_singleton,
    Finset.sum_range_succ, Finset.sum_congr rfl hold, if_pos hselected,
    List.getD_append_right _ _ _ _ (le_refl _), Nat.sub_self]
  rfl

/-- Different selected pages have no more than all selected pages. -/
theorem sum_le_chargesWhere {charges : List ℕ} {pages : List ℕ} (hnodup : pages.Nodup)
    (hselected : ∀ page ∈ pages, page < charges.length ∧ selected page = true) :
    (pages.map fun page => charges.getD page 0).sum ≤ chargesWhere charges selected := by
  have hsubset : pages.toFinset ⊆ Finset.range charges.length := by
    intro page hpage
    exact Finset.mem_range.mpr (hselected page (List.mem_toFinset.mp hpage)).1
  calc (pages.map fun page => charges.getD page 0).sum
      = ∑ page ∈ pages.toFinset, charges.getD page 0 := (List.sum_toFinset _ hnodup).symm
    _ = ∑ page ∈ pages.toFinset, if selected page then charges.getD page 0 else 0 := by
        refine Finset.sum_congr rfl fun page hpage => ?_
        rw [if_pos (hselected page (List.mem_toFinset.mp hpage)).2]
    _ ≤ chargesWhere charges selected :=
        Finset.sum_le_sum_of_subset_of_nonneg hsubset fun _ _ _ => Nat.zero_le _

/-! ## The invariant -/

def charges (cache : PageCache Key) : List ℕ := cache.pages.map TrackedPage.charge

/-- The charges of the page buffers that the cache made and that are not dropped yet. -/
def aliveBytes (cache : PageCache Key) : ℕ := chargesWhere (charges cache) cache.bufferAlive

/-- The charges of the entries. -/
def entryBytes (cache : PageCache Key) : ℕ :=
  (cache.entries.entries.map fun pair => pair.2.charge).sum

section

variable [DecidableEq Key]

/-- What the holder of the lock knows. -/
def LockKnows (layout : Layout) (cache : PageCache Key) : Prop :=
  match cache.lock with
  | .free | .check .setCapacity _ | .scan .setCapacity _ _ => True
  | .check (.insert key charge) capacity | .scan (.insert key charge) capacity _ =>
      capacity = cache.capacity ∧ charge ≤ layout.usizeMax ∧ cache.entries.get? key = none
  | .admitPage key charge =>
      layout.saturatingAdd cache.liveBytes charge ≤ cache.capacity ∧ charge ≤ layout.usizeMax ∧
        cache.entries.get? key = none

/-- The entries refer to pages of the cache, each page once. -/
structure Catalogued (cache : PageCache Key) : Prop where
  entryPages : ∀ pair ∈ cache.entries.entries,
    pair.2.page < cache.pages.length ∧ (charges cache).getD pair.2.page 0 = pair.2.charge
  uniquePages : (cache.entries.entries.map fun pair => pair.2.page).Nodup

structure Accounted (layout : Layout) (cache : PageCache Key) : Prop extends Catalogued cache where
  resident : cache.residentBytes = entryBytes cache
  live : cache.liveBytes = aliveBytes cache
  withinUsize : cache.liveBytes ≤ layout.usizeMax
  lockKnows : LockKnows layout cache

end

/-! ## References -/

section

variable {cache : PageCache Key} {page : ℕ} {change : TrackedPage → TrackedPage}

theorem cached_eq_true_iff :
    cache.cached page = true ↔ ∃ pair ∈ cache.entries.entries, pair.2.page = page := by
  simp [cached]

theorem cached_of_perm (cache other : PageCache Key)
    (hperm : other.entries.entries.Perm cache.entries.entries) (page : ℕ) :
    other.cached page = cache.cached page := by
  rw [Bool.eq_iff_iff, cached_eq_true_iff, cached_eq_true_iff]
  simp only [hperm.mem_iff]

theorem bufferAlive_of_cached (hcached : cache.cached page = true) :
    cache.bufferAlive page = true := by
  simp [bufferAlive, strongCount, hcached]

theorem charges_updatePage (hcharge : ∀ record, (change record).charge = record.charge) :
    charges (cache.updatePage page change) = charges cache := by
  refine List.ext_getElem? fun position => ?_
  simp only [charges, updatePage, List.getElem?_map, List.getElem?_modify]
  cases cache.pages[position]? with
  | none => rfl
  | some record => by_cases hposition : page = position <;> simp [hposition, hcharge]

variable {other right : ℕ}

theorem getElem?_updatePage_of_ne (hother : other ≠ page) :
    (cache.updatePage page change).pages[other]? = cache.pages[other]? := by
  simp only [updatePage, List.getElem?_modify, if_neg (Ne.symm hother)]
  simp

theorem bufferAlive_updatePage_of_ne (hother : other ≠ page) :
    (cache.updatePage page change).bufferAlive other = cache.bufferAlive other := by
  simp only [bufferAlive, strongCount, outside, slices, getElem?_updatePage_of_ne hother]
  rfl

theorem length_charges : (charges cache).length = cache.pages.length := List.length_map _

theorem getD_charges (page : ℕ) :
    (charges cache).getD page 0 = cache.pages[page]?.elim 0 TrackedPage.charge := by
  rw [charges, List.getD_eq_getElem?_getD, List.getElem?_map]
  cases cache.pages[page]? <;> rfl

theorem getElem?_updatePage_self :
    (cache.updatePage page change).pages[page]? = cache.pages[page]?.map change := by
  simp [updatePage]

variable {layout : Layout}

@[simp] theorem entries_dropBuffer (page : ℕ) :
    (cache.dropBuffer layout page).entries = cache.entries := by
  unfold dropBuffer
  split <;> rfl

@[simp] theorem pages_dropBuffer (page : ℕ) :
    (cache.dropBuffer layout page).pages = cache.pages := by
  unfold dropBuffer
  split <;> rfl

@[simp] theorem residentBytes_dropBuffer (page : ℕ) :
    (cache.dropBuffer layout page).residentBytes = cache.residentBytes := by
  unfold dropBuffer
  split <;> rfl

@[simp] theorem capacity_dropBuffer (page : ℕ) :
    (cache.dropBuffer layout page).capacity = cache.capacity := by
  unfold dropBuffer
  split <;> rfl

@[simp] theorem lock_dropBuffer (page : ℕ) : (cache.dropBuffer layout page).lock = cache.lock := by
  unfold dropBuffer
  split <;> rfl

@[simp] theorem charges_dropBuffer (page : ℕ) :
    charges (cache.dropBuffer layout page) = charges cache := by
  rw [charges, pages_dropBuffer, charges]

@[simp] theorem bufferAlive_dropBuffer (page other : ℕ) :
    (cache.dropBuffer layout page).bufferAlive other = cache.bufferAlive other := by
  unfold dropBuffer
  split <;> rfl

theorem wrappingSub_of_le {left : ℕ} (hle : right ≤ left) (hmax : left ≤ layout.usizeMax) :
    layout.wrappingSub left right = left - right := by
  have hsum : left + (layout.usizeMax + 1 - right) = left - right + (layout.usizeMax + 1) := by omega
  rw [Layout.wrappingSub, hsum, Nat.add_mod_right, Nat.mod_eq_of_lt (by omega)]

theorem wrappingAdd_of_le {left : ℕ} (hmax : left + right ≤ layout.usizeMax) :
    layout.wrappingAdd left right = left + right :=
  Nat.mod_eq_of_lt (Nat.lt_succ_of_le hmax)

/-- The destructor of a buffer takes its charge from the live bytes. -/
theorem liveBytes_dropBuffer (hlive : cache.liveBytes = chargesWhere (charges cache) selected)
    (hwithin : cache.liveBytes ≤ layout.usizeMax) (hpage : page < cache.pages.length)
    (hselected : selected page = true) :
    (cache.dropBuffer layout page).liveBytes = chargesWhere (charges cache)
        (fun other => if other = page then cache.bufferAlive page else selected other) ∧
      (cache.dropBuffer layout page).liveBytes ≤ cache.liveBytes := by
  unfold dropBuffer
  split
  · rename_i halive
    refine ⟨hlive.trans (chargesWhere_congr fun other => ?_), le_refl _⟩
    by_cases hother : other = page
    · rw [if_pos hother, hother, hselected, halive]
    · rw [if_neg hother]
  · rename_i hdead
    have hflip : chargesWhere (charges cache) selected = chargesWhere (charges cache)
        (fun other => if other = page then cache.bufferAlive page else selected other) +
          (charges cache).getD page 0 :=
      chargesWhere_flip (length_charges.symm ▸ hpage) (fun other hother => (if_neg hother).symm)
        hselected (by simpa using hdead)
    rw [getD_charges] at hflip
    dsimp only
    rw [wrappingSub_of_le (by omega) hwithin]
    omega

/-- A step that gives up one reference to a page. -/
theorem aliveBytes_dropBuffer {before : PageCache Key}
    (hbefore : before.liveBytes = aliveBytes before) (hwithin : before.liveBytes ≤ layout.usizeMax)
    (hcharges : charges cache = charges before) (hlive : cache.liveBytes = before.liveBytes)
    (hothers : ∀ other, other ≠ page → cache.bufferAlive other = before.bufferAlive other)
    (hpage : page < before.pages.length) (halive : before.bufferAlive page = true) :
    (cache.dropBuffer layout page).liveBytes = aliveBytes (cache.dropBuffer layout page) ∧
      (cache.dropBuffer layout page).liveBytes ≤ before.liveBytes := by
  have hsum : cache.liveBytes = chargesWhere (charges cache) before.bufferAlive := by
    rw [hlive, hbefore, aliveBytes, hcharges]
  have hlength : page < cache.pages.length := by
    rw [← length_charges, hcharges, length_charges]
    exact hpage
  obtain ⟨hdropped, hle⟩ := liveBytes_dropBuffer hsum (hlive ▸ hwithin) hlength halive
  refine ⟨hdropped.trans ?_, hlive ▸ hle⟩
  rw [aliveBytes, charges_dropBuffer]
  refine chargesWhere_congr fun other => ?_
  rw [bufferAlive_dropBuffer]
  by_cases hother : other = page
  · rw [if_pos hother, hother]
  · rw [if_neg hother, hothers other hother]

end

/-! ## Steps -/

section

variable [DecidableEq Key] {layout : Layout} {cache after : PageCache Key}

/-- The knowledge of the lock's holder survives changes of the references. -/
theorem LockKnows.mono (hknows : LockKnows layout cache) (hlock : after.lock = cache.lock)
    (hcapacity : after.capacity = cache.capacity) (hentries : after.entries = cache.entries)
    (hlive : after.liveBytes ≤ cache.liveBytes) : LockKnows layout after := by
  unfold LockKnows at hknows ⊢
  rw [hlock, hcapacity, hentries]
  split at hknows
  · trivial
  · trivial
  · trivial
  · exact hknows
  · exact hknows
  · refine ⟨le_trans ?_ hknows.1, hknows.2⟩
    simp only [Layout.saturatingAdd]
    omega

omit [DecidableEq Key] in
theorem Catalogued.of_perm (hcatalogued : Catalogued cache)
    (hperm : after.entries.entries.Perm cache.entries.entries)
    (hcharges : charges after = charges cache) : Catalogued after where
  entryPages := by
    intro pair hpair
    rw [hcharges, ← length_charges, hcharges, length_charges]
    exact hcatalogued.entryPages pair (hperm.mem_iff.mp hpair)
  uniquePages := (hperm.map _).nodup_iff.mpr hcatalogued.uniquePages

omit [DecidableEq Key] in
theorem entryBytes_of_perm (hperm : after.entries.entries.Perm cache.entries.entries) :
    entryBytes after = entryBytes cache := (hperm.map _).sum_eq

/-- References come and go, and entries change their order. -/
theorem Accounted.of_perm (haccounted : Accounted layout cache)
    (hperm : after.entries.entries.Perm cache.entries.entries)
    (hcharges : charges after = charges cache)
    (hresident : after.residentBytes = cache.residentBytes)
    (hlive : after.liveBytes = aliveBytes after ∧ after.liveBytes ≤ cache.liveBytes)
    (hknows : LockKnows layout after) : Accounted layout after where
  toCatalogued := haccounted.toCatalogued.of_perm hperm hcharges
  resident := by rw [hresident, haccounted.resident, entryBytes_of_perm hperm]
  live := hlive.1
  withinUsize := hlive.2.trans haccounted.withinUsize
  lockKnows := hknows

omit [DecidableEq Key] in
/-- No reference appears or disappears that matters. -/
theorem aliveBytes_of_same (haccounted : cache.liveBytes = aliveBytes cache)
    (hcharges : charges after = charges cache) (hlive : after.liveBytes = cache.liveBytes)
    (halive : ∀ page, after.bufferAlive page = cache.bufferAlive page) :
    after.liveBytes = aliveBytes after ∧ after.liveBytes ≤ cache.liveBytes := by
  refine ⟨?_, hlive.le⟩
  rw [hlive, haccounted, aliveBytes, aliveBytes, hcharges]
  exact chargesWhere_congr fun page => (halive page).symm

variable {change : TrackedPage → TrackedPage} {page capacity : ℕ} {lock : Lock Key}
  {entries : LinkedMap Key CacheEntry}

section

variable (haccounted : Accounted layout cache)

include haccounted

/-- A reference to a page that has another one. -/
theorem Accounted.updatePage (hcharge : ∀ record, (change record).charge = record.charge)
    (hbefore : cache.bufferAlive page = true)
    (hafter : (cache.updatePage page change).bufferAlive page = true) :
    Accounted layout (cache.updatePage page change) := by
  have hcharges : charges (cache.updatePage page change) = charges cache :=
    charges_updatePage hcharge
  refine haccounted.of_perm (List.Perm.refl _) hcharges rfl ?_
    (haccounted.lockKnows.mono rfl rfl rfl (le_refl _))
  refine aliveBytes_of_same haccounted.live hcharges rfl fun other => ?_
  by_cases hother : other = page
  · rw [hother, hbefore, hafter]
  · exact bufferAlive_updatePage_of_ne hother

/-- A reference to a page is given up. -/
theorem Accounted.dropReference (change : TrackedPage → TrackedPage)
    (hcharge : ∀ record, (change record).charge = record.charge) (hpage : page < cache.pages.length)
    (halive : cache.bufferAlive page = true) :
    Accounted layout ((cache.updatePage page change).dropBuffer layout page) ∧
      ((cache.updatePage page change).dropBuffer layout page).liveBytes ≤ cache.liveBytes := by
  have hcharges : charges (cache.updatePage page change) = charges cache :=
    charges_updatePage hcharge
  have hlive := aliveBytes_dropBuffer haccounted.live haccounted.withinUsize hcharges rfl
    (fun other hother => bufferAlive_updatePage_of_ne hother) hpage halive
  refine ⟨haccounted.of_perm ?_ ?_ ?_ hlive ?_, hlive.2⟩
  · rw [entries_dropBuffer]
    exact List.Perm.refl _
  · rw [charges_dropBuffer, hcharges]
  · rw [residentBytes_dropBuffer]
    rfl
  · refine haccounted.lockKnows.mono ?_ ?_ ?_ hlive.2
    · rw [lock_dropBuffer]
      rfl
    · rw [capacity_dropBuffer]
      rfl
    · rw [entries_dropBuffer]
      rfl

/-- The holder of the lock goes on, and the capacity may change. -/
theorem Accounted.setLock
    (hknows : LockKnows layout { cache with capacity := capacity, lock := lock }) :
    Accounted layout { cache with capacity := capacity, lock := lock } :=
  haccounted.of_perm (List.Perm.refl _) rfl rfl
    (aliveBytes_of_same haccounted.live rfl rfl fun _ => rfl) hknows

/-- The entries change their order. -/
theorem Accounted.rotate (hperm : entries.entries.Perm cache.entries.entries)
    (hknows : LockKnows layout { cache with entries := entries, lock := lock }) :
    Accounted layout { cache with entries := entries, lock := lock } := by
  refine haccounted.of_perm hperm rfl rfl ?_ hknows
  refine aliveBytes_of_same haccounted.live rfl rfl fun page => ?_
  have hcached := cached_of_perm cache { cache with entries := entries, lock := lock } hperm page
  simp only [bufferAlive, strongCount, hcached]
  rfl

end

variable {entry : CacheEntry} {key : Key}

section

variable (haccounted : Accounted layout cache)

include haccounted

/-- A hit of `get` or `insert`. -/
theorem Accounted.hit (hfree : cache.lock = .free)
    (htoBack : cache.entries.toBack key = some (entry, entries)) :
    Accounted layout ({ cache with entries := entries }.clonePage entry.page) := by
  have hperm := LinkedMap.perm_toBack htoBack
  have hrotated : Accounted layout { cache with entries := entries } := by
    refine haccounted.rotate hperm ?_
    simp only [LockKnows, hfree]
  have hcached : ({ cache with entries := entries } : PageCache Key).cached entry.page = true := by
    refine cached_eq_true_iff.mpr ⟨(key, entry), hperm.mem_iff.mpr ?_, rfl⟩
    exact LinkedMap.get?_eq_some_iff.mp (LinkedMap.get?_of_toBack htoBack)
  exact hrotated.updatePage (fun _ => rfl) (bufferAlive_of_cached hcached)
    (bufferAlive_of_cached hcached)

/-- The pages of the entries are alive, and different. -/
theorem Accounted.resident_le_live :
    cache.residentBytes ≤ cache.liveBytes := by
  have hselected : ∀ page ∈ cache.entries.entries.map (fun pair => pair.2.page),
      page < (charges cache).length ∧ cache.bufferAlive page = true := by
    intro page hpage
    obtain ⟨pair, hpair, rfl⟩ := List.mem_map.mp hpage
    rw [length_charges]
    exact ⟨(haccounted.entryPages pair hpair).1,
      bufferAlive_of_cached (cached_eq_true_iff.mpr ⟨pair, hpair, rfl⟩)⟩
  have hsum := sum_le_chargesWhere haccounted.uniquePages hselected
  rw [List.map_map] at hsum
  rw [haccounted.resident, haccounted.live, aliveBytes, entryBytes]
  refine le_trans (Nat.le_of_eq (congrArg List.sum (List.map_congr_left fun pair hpair => ?_))) hsum
  exact (haccounted.entryPages pair hpair).2.symm

/-- An entry leaves the map. -/
theorem Accounted.evict {rest : LinkedMap Key CacheEntry}
    (hpop : cache.entries.popFront = some ((key, entry), rest))
    (hknows : ∀ liveBytes ≤ cache.liveBytes,
      LockKnows layout { cache with entries := rest, liveBytes := liveBytes, lock := lock }) :
    Accounted layout ({ cache with
        entries := rest
        residentBytes := layout.wrappingSub cache.residentBytes entry.charge
        lock := lock }.dropBuffer layout entry.page) ∧
      ({ cache with
        entries := rest
        residentBytes := layout.wrappingSub cache.residentBytes entry.charge
        lock := lock }.dropBuffer layout entry.page).liveBytes ≤ cache.liveBytes := by
  have hentries := LinkedMap.entries_of_popFront hpop
  have hentry : (key, entry) ∈ cache.entries.entries := hentries ▸ List.mem_cons_self
  have hcached : cache.cached entry.page = true := cached_eq_true_iff.mpr ⟨_, hentry, rfl⟩
  have hunique := haccounted.uniquePages
  rw [hentries, List.map_cons, List.nodup_cons] at hunique
  set popped : PageCache Key := { cache with
    entries := rest
    residentBytes := layout.wrappingSub cache.residentBytes entry.charge
    lock := lock } with hpopped
  have hothers : ∀ other, other ≠ entry.page →
      popped.bufferAlive other = cache.bufferAlive other := by
    intro other hother
    have hsame : popped.cached other = cache.cached other := by
      rw [Bool.eq_iff_iff, cached_eq_true_iff, cached_eq_true_iff, hentries, hpopped]
      simp only [List.exists_mem_cons_iff]
      exact (or_iff_right (Ne.symm hother)).symm
    simp only [bufferAlive, strongCount, hsame]
    rfl
  obtain ⟨hlive, hle⟩ := aliveBytes_dropBuffer haccounted.live haccounted.withinUsize
    (show charges popped = charges cache from rfl) rfl hothers
    (haccounted.entryPages _ hentry).1 (bufferAlive_of_cached hcached)
  have hbytes : entryBytes cache = entry.charge + (rest.entries.map fun pair => pair.2.charge).sum := by
    rw [entryBytes, hentries, List.map_cons, List.sum_cons]
  have hresident := haccounted.resident
  have hwithin := haccounted.resident_le_live.trans haccounted.withinUsize
  refine ⟨⟨⟨?_, ?_⟩, ?_, hlive, hle.trans haccounted.withinUsize, ?_⟩, hle⟩
  · intro pair hpair
    rw [entries_dropBuffer] at hpair
    rw [pages_dropBuffer, charges_dropBuffer]
    refine haccounted.entryPages pair ?_
    rw [hentries]
    exact List.mem_cons_of_mem _ hpair
  · rw [entries_dropBuffer]
    exact hunique.2
  · rw [residentBytes_dropBuffer, entryBytes, entries_dropBuffer]
    change layout.wrappingSub cache.residentBytes entry.charge =
      (rest.entries.map fun pair => pair.2.charge).sum
    rw [wrappingSub_of_le (by omega) hwithin]
    omega
  · have hmono := hknows _ hle
    refine LockKnows.mono hmono ?_ ?_ ?_ (le_refl _)
    · rw [lock_dropBuffer]
    · rw [capacity_dropBuffer]
    · rw [entries_dropBuffer]

/-- A new page. -/
theorem Accounted.admitPage {charge : ℕ}
    (habsent : cache.entries.get? key = none) (hroom : cache.liveBytes + charge ≤ layout.usizeMax) :
    Accounted layout (cache.admitPage layout key charge).1 := by
  have hperm : (cache.entries.insert key ⟨cache.pages.length, charge⟩).entries.Perm
      ((key, ⟨cache.pages.length, charge⟩) :: cache.entries.entries) :=
    LinkedMap.perm_insert habsent
  have hresident := haccounted.resident_le_live
  have hadd := wrappingAdd_of_le hroom
  have haddResident : layout.wrappingAdd cache.residentBytes charge = cache.residentBytes + charge :=
    wrappingAdd_of_le (by omega)
  have hcharges : charges (cache.admitPage layout key charge).1 = charges cache ++ [charge] :=
    List.map_append
  set admitted := (cache.admitPage layout key charge).1 with hadmitted
  have hold : ∀ page, page < cache.pages.length →
      admitted.bufferAlive page = cache.bufferAlive page := by
    intro page hpage
    have hrecord : admitted.pages[page]? = cache.pages[page]? := List.getElem?_append_left hpage
    have hcached : admitted.cached page = cache.cached page := by
      rw [Bool.eq_iff_iff, cached_eq_true_iff, cached_eq_true_iff]
      change (∃ pair ∈ (cache.entries.insert key ⟨cache.pages.length, charge⟩).entries, _) ↔ _
      simp only [hperm.mem_iff, List.exists_mem_cons_iff]
      exact or_iff_right (Nat.ne_of_gt hpage)
    simp only [bufferAlive, strongCount, outside, slices, hrecord, hcached]
    rfl
  have hnew : admitted.bufferAlive cache.pages.length = true := by
    refine bufferAlive_of_cached (cached_eq_true_iff.mpr ?_)
    exact ⟨(key, ⟨cache.pages.length, charge⟩), hperm.mem_iff.mpr List.mem_cons_self, rfl⟩
  refine ⟨⟨?_, ?_⟩, ?_, ?_, ?_, trivial⟩
  · intro pair hpair
    have hlength : admitted.pages.length = cache.pages.length + 1 := List.length_append
    rw [hcharges, hlength]
    rcases List.mem_cons.mp (hperm.mem_iff.mp hpair) with rfl | hother
    · refine ⟨Nat.lt_succ_self _, ?_⟩
      rw [← length_charges, List.getD_append_right _ _ _ _ (le_refl _), Nat.sub_self]
      rfl
    · obtain ⟨hpage, hcharge⟩ := haccounted.entryPages pair hother
      refine ⟨Nat.lt_succ_of_lt hpage, ?_⟩
      rw [List.getD_append _ _ _ _ (length_charges.symm ▸ hpage), hcharge]
  · refine (hperm.map _).nodup_iff.mpr ?_
    rw [List.map_cons, List.nodup_cons]
    refine ⟨fun hmem => ?_, haccounted.uniquePages⟩
    obtain ⟨pair, hpair, hpage⟩ := List.mem_map.mp hmem
    exact absurd hpage (haccounted.entryPages pair hpair).1.ne
  · have hbytes : entryBytes admitted = charge + entryBytes cache :=
      (hperm.map fun pair : Key × CacheEntry => pair.2.charge).sum_eq.trans List.sum_cons
    change layout.wrappingAdd cache.residentBytes charge = entryBytes admitted
    rw [haddResident, hbytes, haccounted.resident, Nat.add_comm]
  · change layout.wrappingAdd cache.liveBytes charge = aliveBytes admitted
    rw [← length_charges] at hnew
    rw [hadd, aliveBytes, hcharges, chargesWhere_append hnew, haccounted.live, aliveBytes]
    refine congrArg (· + charge) (Finset.sum_congr rfl fun page hpage => ?_)
    rw [Finset.mem_range, length_charges] at hpage
    rw [hold page hpage]
  · change layout.wrappingAdd cache.liveBytes charge ≤ layout.usizeMax
    rw [hadd]
    exact hroom

end

omit [DecidableEq Key] in
/-- The fields that dropping pages leaves alone. -/
theorem foldl_dropBuffer_frame (layout : Layout) (pairs : List (Key × CacheEntry)) (cache : PageCache Key) :
    (pairs.foldl (fun cache pair => cache.dropBuffer layout pair.2.page) cache).entries =
        cache.entries ∧
      (pairs.foldl (fun cache pair => cache.dropBuffer layout pair.2.page) cache).pages =
        cache.pages ∧
      (pairs.foldl (fun cache pair => cache.dropBuffer layout pair.2.page) cache).residentBytes =
        cache.residentBytes ∧
      (pairs.foldl (fun cache pair => cache.dropBuffer layout pair.2.page) cache).lock =
        cache.lock := by
  induction pairs generalizing cache with
  | nil => exact ⟨rfl, rfl, rfl, rfl⟩
  | cons pair pairs ih =>
      rw [List.foldl_cons]
      obtain ⟨hentries, hpages, hresident, hlock⟩ := ih (cache.dropBuffer layout pair.2.page)
      rw [hentries, hpages, hresident, hlock]
      simp only [entries_dropBuffer, pages_dropBuffer, residentBytes_dropBuffer, lock_dropBuffer,
        and_self]

omit [DecidableEq Key] in
/-- The pages that are still to be dropped count as alive until their turn. -/
theorem liveBytes_foldl_dropBuffer {pairs : List (Key × CacheEntry)}
    (hnodup : (pairs.map fun pair => pair.2.page).Nodup)
    (hpages : ∀ pair ∈ pairs, pair.2.page < cache.pages.length)
    (hlive : cache.liveBytes = chargesWhere (charges cache)
      (fun page => cache.bufferAlive page || pairs.any fun pair => pair.2.page == page))
    (hwithin : cache.liveBytes ≤ layout.usizeMax) :
    (pairs.foldl (fun cache pair => cache.dropBuffer layout pair.2.page) cache).liveBytes =
        aliveBytes cache ∧
      (pairs.foldl (fun cache pair => cache.dropBuffer layout pair.2.page) cache).liveBytes ≤
        cache.liveBytes := by
  induction pairs generalizing cache with
  | nil =>
      refine ⟨hlive.trans (chargesWhere_congr fun page => ?_), le_refl _⟩
      simp
  | cons pair pairs ih =>
      rw [List.map_cons, List.nodup_cons] at hnodup
      obtain ⟨hdropped, hle⟩ := liveBytes_dropBuffer hlive hwithin
        (hpages pair List.mem_cons_self) (by simp)
      rw [List.foldl_cons]
      have haliveBytes : aliveBytes (cache.dropBuffer layout pair.2.page) = aliveBytes cache := by
        rw [aliveBytes, aliveBytes, charges_dropBuffer]
        exact chargesWhere_congr fun page => bufferAlive_dropBuffer _ page
      have hrange : ∀ other ∈ pairs,
          other.2.page < (cache.dropBuffer layout pair.2.page).pages.length := by
        intro other hother
        rw [pages_dropBuffer]
        exact hpages other (List.mem_cons_of_mem _ hother)
      have hrest : (cache.dropBuffer layout pair.2.page).liveBytes =
          chargesWhere (charges (cache.dropBuffer layout pair.2.page)) (fun page =>
            (cache.dropBuffer layout pair.2.page).bufferAlive page ||
              pairs.any fun pair => pair.2.page == page) := by
        rw [hdropped, charges_dropBuffer]
        refine chargesWhere_congr fun page => ?_
        rw [bufferAlive_dropBuffer]
        by_cases hpage : page = pair.2.page
        · have hgone : (pairs.any fun other => other.2.page == page) = false := by
            rw [List.any_eq_false]
            intro other hother hsame
            refine hnodup.1 (List.mem_map.mpr ⟨other, hother, ?_⟩)
            rw [← hpage]
            exact beq_iff_eq.mp hsame
          rw [if_pos hpage, hgone, Bool.or_false, hpage]
        · rw [if_neg hpage, List.any_cons, beq_eq_false_iff_ne.mpr (Ne.symm hpage),
            Bool.false_or]
      obtain ⟨hfolded, hfoldedle⟩ := ih hnodup.2 hrange hrest (hle.trans hwithin)
      exact ⟨hfolded.trans haliveBytes, hfoldedle.trans hle⟩

theorem Accounted.retireAll (haccounted : Accounted layout cache) (hfree : cache.lock = .free) :
    Accounted layout (cache.retireAll layout) ∧
      (cache.retireAll layout).liveBytes ≤ cache.liveBytes := by
  set emptied : PageCache Key := { cache with entries := .empty, residentBytes := 0 } with hemptied
  have hlive : emptied.liveBytes = chargesWhere (charges emptied)
      (fun page => emptied.bufferAlive page ||
        cache.entries.entries.any fun pair => pair.2.page == page) := by
    refine haccounted.live.trans (chargesWhere_congr fun page => ?_)
    have hcached : emptied.cached page = false := rfl
    have hany : (cache.entries.entries.any fun pair => pair.2.page == page) = cache.cached page := rfl
    rw [hany]
    cases hpage : cache.cached page with
    | false =>
        simp only [bufferAlive, strongCount, hpage, hcached, Bool.or_false]
        rfl
    | true => rw [Bool.or_true, bufferAlive_of_cached hpage]
  have hpages : ∀ pair ∈ cache.entries.entries, pair.2.page < emptied.pages.length :=
    fun pair hpair => (haccounted.entryPages pair hpair).1
  obtain ⟨hdropped, hle⟩ := liveBytes_foldl_dropBuffer haccounted.uniquePages hpages hlive
    haccounted.withinUsize
  obtain ⟨hentries, hrecords, hresident, hlock⟩ := foldl_dropBuffer_frame layout
    cache.entries.entries emptied
  set retired := cache.entries.entries.foldl
    (fun cache pair => cache.dropBuffer layout pair.2.page) emptied with hretired
  have hnothing : retired.entries.entries = [] := congrArg LinkedMap.entries hentries
  have halive : aliveBytes retired = aliveBytes emptied := by
    rw [aliveBytes, aliveBytes, charges, charges, hrecords]
    refine chargesWhere_congr fun page => ?_
    simp only [bufferAlive, strongCount, outside, slices, cached, hrecords, hentries]
    rfl
  refine ⟨⟨⟨?_, ?_⟩, ?_, ?_, hle.trans haccounted.withinUsize, ?_⟩, hle⟩
  · intro pair hpair
    change pair ∈ retired.entries.entries at hpair
    rw [hnothing] at hpair
    cases hpair
  · change (retired.entries.entries.map fun pair => pair.2.page).Nodup
    rw [hnothing]
    exact List.nodup_nil
  · change retired.residentBytes = (retired.entries.entries.map fun pair => pair.2.charge).sum
    rw [hresident, hnothing]
    rfl
  · exact hdropped.trans halive.symm
  · have hfreed : retired.lock = .free := hlock.trans hfree
    change LockKnows layout retired
    simp only [LockKnows, hfreed]

/-! ## Every step -/

/-- With the largest capacity there is, `insert` finds room for everything, and only the size of
the memory that holds the live pages and the new one keeps the counter from wrapping. -/
def Addressable (layout : Layout) (cache : PageCache Key) (action : Action Key) : Prop :=
  ∀ key charge, cache.lock = .admitPage key charge → action = .advance →
    layout.usizeMax ≤ cache.capacity → cache.liveBytes + charge ≤ layout.usizeMax

omit [DecidableEq Key] in
/-- A page with a reference was made by the cache. -/
theorem lt_length_of_outside (houtside : 0 < cache.outside page) : page < cache.pages.length := by
  by_contra hrange
  rw [outside, List.getElem?_eq_none (not_lt.mp hrange)] at houtside
  exact absurd houtside (lt_irrefl 0)

omit [DecidableEq Key] in
theorem lt_length_of_slices (hslices : 0 < cache.slices page) : page < cache.pages.length := by
  by_contra hrange
  rw [slices, List.getElem?_eq_none (not_lt.mp hrange)] at hslices
  exact absurd hslices (lt_irrefl 0)

omit [DecidableEq Key] in
theorem bufferAlive_of_outside (houtside : 0 < cache.outside page) :
    cache.bufferAlive page = true := by
  have hcount : 0 < cache.strongCount page := Nat.lt_of_lt_of_le houtside (Nat.le_add_right _ _)
  simp [bufferAlive, hcount]

omit [DecidableEq Key] in
theorem bufferAlive_of_slices (hslices : 0 < cache.slices page) :
    cache.bufferAlive page = true := by
  simp [bufferAlive, hslices]

omit [DecidableEq Key] in
theorem outside_updatePage (hpage : page < cache.pages.length) :
    (cache.updatePage page change).outside page = (change cache.pages[page]).outside := by
  rw [outside, getElem?_updatePage_self, List.getElem?_eq_getElem hpage]
  rfl

omit [DecidableEq Key] in
theorem slices_updatePage (hpage : page < cache.pages.length) :
    (cache.updatePage page change).slices page = (change cache.pages[page]).slices := by
  rw [slices, getElem?_updatePage_self, List.getElem?_eq_getElem hpage]
  rfl

/-- Only an admission adds to the live bytes, and it keeps them within the capacity. -/
def Grows (cache after : PageCache Key) : Prop :=
  cache.liveBytes < after.liveBytes → after.liveBytes ≤ after.capacity

omit [DecidableEq Key] in
theorem grows_of_le (hle : after.liveBytes ≤ cache.liveBytes) : Grows cache after :=
  fun hlt => absurd hlt (not_lt.mpr hle)

variable {purpose : Purpose Key}

theorem Accounted.checkBytes (haccounted : Accounted layout cache)
    (hlock : cache.lock = .check purpose capacity) :
    Accounted layout (cache.checkBytes layout purpose capacity) ∧
      Grows cache (cache.checkBytes layout purpose capacity) := by
  have hknows := haccounted.lockKnows
  simp only [LockKnows, hlock] at hknows
  cases purpose with
  | setCapacity =>
      simp only [PageCache.checkBytes]
      split <;> exact ⟨haccounted.setLock trivial, grows_of_le (le_refl _)⟩
  | insert key charge =>
      dsimp only at hknows
      simp only [PageCache.checkBytes]
      split
      · exact ⟨haccounted.setLock hknows, grows_of_le (le_refl _)⟩
      · rename_i hroom
        exact ⟨haccounted.setLock ⟨hknows.1 ▸ not_lt.mp hroom, hknows.2⟩, grows_of_le (le_refl _)⟩

theorem Accounted.scanFailed (haccounted : Accounted layout cache) (purpose : Purpose Key) :
    Accounted layout (cache.scanFailed purpose).1 ∧ Grows cache (cache.scanFailed purpose).1 := by
  cases purpose with
  | insert key charge => exact ⟨haccounted.setLock trivial, grows_of_le (le_refl _)⟩
  | setCapacity => exact ⟨haccounted.setLock trivial, grows_of_le (le_refl _)⟩

theorem Accounted.scanRound (haccounted : Accounted layout cache) {rounds : ℕ}
    (hlock : cache.lock = .scan purpose capacity rounds) :
    Accounted layout (cache.scanRound layout purpose capacity rounds).1 ∧
      Grows cache (cache.scanRound layout purpose capacity rounds).1 := by
  have hknows := haccounted.lockKnows
  simp only [LockKnows, hlock] at hknows
  cases rounds with
  | zero => exact haccounted.scanFailed purpose
  | succ rounds =>
      rw [PageCache.scanRound]
      split
      · exact haccounted.scanFailed purpose
      · rename_i key entry rest hpop
        have hentries := LinkedMap.entries_of_popFront hpop
        have hback := LinkedMap.entries_insert_of_popFront hpop
        have hperm : (rest.insert key entry).entries.Perm cache.entries.entries := by
          rw [hentries]
          exact (List.Perm.of_eq hback).trans (List.perm_append_singleton _ _)
        -- an absent key stays absent
        have habsent : ∀ (entries : LinkedMap Key CacheEntry) (other : Key),
            entries.entries ⊆ cache.entries.entries → cache.entries.get? other = none →
            entries.get? other = none := by
          intro entries other hsubset hnone
          refine LinkedMap.get?_eq_none_iff.mpr fun pair hpair => ?_
          exact LinkedMap.get?_eq_none_iff.mp hnone pair (hsubset hpair)
        split
        · refine ⟨haccounted.rotate hperm ?_, grows_of_le (le_refl _)⟩
          cases purpose with
          | setCapacity => trivial
          | insert other charge =>
              exact ⟨hknows.1, hknows.2.1, habsent _ other hperm.subset hknows.2.2⟩
        · have hevict : ∀ liveBytes ≤ cache.liveBytes, LockKnows layout { cache with
              entries := rest, liveBytes := liveBytes, lock := .check purpose capacity } := by
            intro liveBytes _
            cases purpose with
            | setCapacity => trivial
            | insert other charge =>
                refine ⟨hknows.1, hknows.2.1, habsent _ other ?_ hknows.2.2⟩
                rw [hentries]
                exact List.subset_cons_self _ _
          obtain ⟨hevicted, hle⟩ := haccounted.evict hpop hevict
          exact ⟨hevicted, grows_of_le hle⟩

theorem charge_le_usizeMax (layout : Layout) (length : ℕ) :
    layout.charge length ≤ layout.usizeMax := Nat.min_le_right _ _

theorem Accounted.advance (haccounted : Accounted layout cache)
    (haddressable : Addressable layout cache .advance) :
    Accounted layout (next layout cache .advance) ∧
      Grows cache (next layout cache .advance) := by
  rw [next, perform]
  cases hlock : cache.lock with
  | free => exact ⟨haccounted, grows_of_le (le_refl _)⟩
  | check purpose capacity => exact haccounted.checkBytes hlock
  | scan purpose capacity rounds => exact haccounted.scanRound hlock
  | admitPage key charge =>
      have hknows := haccounted.lockKnows
      simp only [LockKnows, hlock, Layout.saturatingAdd] at hknows
      have hroom : cache.liveBytes + charge ≤ layout.usizeMax ∧
          cache.liveBytes + charge ≤ cache.capacity := by
        by_cases hcapacity : layout.usizeMax ≤ cache.capacity
        · have hfits := haddressable key charge hlock rfl hcapacity
          exact ⟨hfits, hfits.trans hcapacity⟩
        · omega
      refine ⟨haccounted.admitPage hknows.2.2 hroom.1, fun _ => ?_⟩
      change layout.wrappingAdd cache.liveBytes charge ≤ cache.capacity
      rw [wrappingAdd_of_le hroom.1]
      exact hroom.2

theorem Accounted.next (haccounted : Accounted layout cache) {action : Action Key}
    (haddressable : Addressable layout cache action) :
    Accounted layout (next layout cache action) ∧ Grows cache (next layout cache action) := by
  have hstays : Accounted layout cache ∧ Grows cache cache :=
    ⟨haccounted, grows_of_le (le_refl _)⟩
  cases action with
  | advance => exact haccounted.advance haddressable
  | get key =>
      rw [Pages.next, perform]
      split
      · rename_i hfree
        simp only [Option.elim_some, PageCache.get]
        split
        · rename_i entry entries htoBack
          exact ⟨haccounted.hit hfree htoBack, grows_of_le (le_refl _)⟩
        · exact hstays
      · exact hstays
  | insert key length =>
      rw [Pages.next, perform]
      split
      · rename_i hfree
        simp only [Option.elim_some, PageCache.insert]
        split
        · rename_i entry entries htoBack
          exact ⟨haccounted.hit hfree htoBack, grows_of_le (le_refl _)⟩
        · rename_i htoBack
          split
          · exact hstays
          · refine ⟨haccounted.setLock ⟨rfl, charge_le_usizeMax layout length, ?_⟩,
              grows_of_le (le_refl _)⟩
            exact LinkedMap.get?_of_toBack_eq_none htoBack
      · exact hstays
  -- without capacity, and in a clear, all entries are retired
  | setCapacity capacity =>
      rw [Pages.next, perform]
      split
      · rename_i hfree
        simp only [Option.elim_some, PageCache.setCapacity]
        split
        · have hstored : Accounted layout { cache with capacity := capacity } := by
            refine haccounted.setLock ?_
            simp only [LockKnows, hfree]
          obtain ⟨hretired, hle⟩ := hstored.retireAll hfree
          exact ⟨hretired, grows_of_le hle⟩
        · exact ⟨haccounted.setLock trivial, grows_of_le (le_refl _)⟩
      · exact hstays
  | clear =>
      rw [Pages.next, perform]
      split
      · rename_i hfree
        obtain ⟨hretired, hle⟩ := haccounted.retireAll hfree
        exact ⟨hretired, grows_of_le hle⟩
      · exact hstays
  | clonePage page =>
      rw [Pages.next, perform]
      split
      · rename_i houtside
        refine ⟨haccounted.updatePage (fun _ => rfl) (bufferAlive_of_outside houtside)
          (bufferAlive_of_outside ?_), grows_of_le (le_refl _)⟩
        rw [outside_updatePage (lt_length_of_outside houtside)]
        exact Nat.succ_pos _
      · exact hstays
  -- the last reference frees the buffer
  | dropPage page =>
      rw [Pages.next, perform]
      split
      · rename_i houtside
        obtain ⟨hdropped, hle⟩ := haccounted.dropReference
          (fun record => { record with outside := record.outside - 1 }) (fun _ => rfl)
          (lt_length_of_outside houtside) (bufferAlive_of_outside houtside)
        exact ⟨hdropped, grows_of_le hle⟩
      · exact hstays
  | slice page =>
      rw [Pages.next, perform]
      split
      · rename_i hreferenced
        have hpage : page < cache.pages.length :=
          hreferenced.elim lt_length_of_outside lt_length_of_slices
        refine ⟨haccounted.updatePage (fun _ => rfl)
          (hreferenced.elim bufferAlive_of_outside bufferAlive_of_slices)
          (bufferAlive_of_slices ?_), grows_of_le (le_refl _)⟩
        rw [slices_updatePage hpage]
        exact Nat.succ_pos _
      · exact hstays
  | dropSlice page =>
      rw [Pages.next, perform]
      split
      · rename_i hslices
        obtain ⟨hdropped, hle⟩ := haccounted.dropReference
          (fun record => { record with slices := record.slices - 1 }) (fun _ => rfl)
          (lt_length_of_slices hslices) (bufferAlive_of_slices hslices)
        exact ⟨hdropped, grows_of_le hle⟩
      · exact hstays

end

end ParqDB.Cache.Pages
