import Mathlib.Algebra.Order.BigOperators.Group.List
import Mathlib.Algebra.Order.Group.Nat
import Mathlib.Algebra.Order.Ring.Int
import Mathlib.Data.List.Nodup

/-!
# The range cache of the browser client

The byte-bounded LRU of ranges that the buffers of a client share
(`HttpRangeCache` in `src/browser/src/http.ts`).

An entry is identified by the load that fills it: `this.ranges.get(key) !== entry` compares
load numbers.  A read decides synchronously whether it waits for an entry, creates one, or
loads on its own; what happens when a load completes is `settle` and `discard`.

**Results.**  `Books`: the size is the sum of the lengths of the entries, and the settled
entries never hold more than the capacity.  All operations keep it.
-/

namespace ParqDB.Browser

/-- An object, by its address and its size. -/
structure ObjectKey where
  href : String
  size : ℕ
deriving DecidableEq

structure CachedRange where
  object : ObjectKey
  start : ℕ
  stop : ℕ
  load : ℕ
  settled : Bool
  lastUsed : ℕ
deriving DecidableEq

/-- The key of an entry in the map. -/
structure RangeKey where
  object : ObjectKey
  start : ℕ
  stop : ℕ
deriving DecidableEq

def CachedRange.key (entry : CachedRange) : RangeKey := ⟨entry.object, entry.start, entry.stop⟩

def RangeKey.length (key : RangeKey) : ℕ := key.stop - key.start

def CachedRange.length (entry : CachedRange) : ℕ := entry.key.length

/-- The cache.  The entries are in the order of the map. -/
structure HttpRangeCache where
  capacityBytes : ℕ
  ranges : List CachedRange
  sizeBytes : ℤ
  clock : ℕ
  hitCount : ℕ
  missCount : ℕ
  evictionCount : ℕ

/-- What a read does before its first await. -/
inductive ReadStart
  /-- It loads on its own. -/
  | direct
  /-- It waits for an entry that covers it. -/
  | hit (covering : CachedRange)
  /-- It has made an entry. -/
  | miss

namespace HttpRangeCache

def new (capacityBytes : ℕ) : HttpRangeCache := ⟨capacityBytes, [], 0, 0, 0, 0, 0⟩

def get (cache : HttpRangeCache) (key : RangeKey) : Option CachedRange :=
  cache.ranges.find? fun entry => entry.key = key

/-- The best of the entries that qualify, the first one of several. -/
def pick (qualifies : CachedRange → Bool) (better : CachedRange → CachedRange → Bool)
    (ranges : List CachedRange) : Option CachedRange :=
  ranges.foldl (fun best entry =>
    if qualifies entry && best.all (better entry) then some entry else best) none

def covers (wanted : RangeKey) (entry : CachedRange) : Bool :=
  entry.object = wanted.object && entry.start ≤ wanted.start && wanted.stop ≤ entry.stop

/-- The shortest entry that covers a range. -/
def findCovering (ranges : List CachedRange) (wanted : RangeKey) : Option CachedRange :=
  pick (covers wanted) (fun entry other => entry.length < other.length) ranges

/-- Sets an entry of the map: in its place, if the key is there. -/
def setRange (ranges : List CachedRange) (entry : CachedRange) : List CachedRange :=
  if ranges.any fun other => other.key = entry.key then
    ranges.map fun other => if other.key = entry.key then entry else other
  else ranges ++ [entry]

/-- Changes the entry that a load fills. -/
def modify (cache : HttpRangeCache) (load : ℕ) (change : CachedRange → CachedRange) :
    HttpRangeCache :=
  { cache with
    ranges := cache.ranges.map fun entry => if entry.load = load then change entry else entry }

/-- A read, up to its first await.  `load` is the number of the load it may begin. -/
def read (cache : HttpRangeCache) (wanted : RangeKey) (load : ℕ) : HttpRangeCache × ReadStart :=
  if cache.capacityBytes = 0 then (cache, .direct)
  else
    match findCovering cache.ranges wanted with
    | some covering =>
        let clock := cache.clock + 1
        (HttpRangeCache.modify { cache with hitCount := cache.hitCount + 1, clock := clock }
          covering.load fun entry => { entry with lastUsed := clock }, .hit covering)
    | none =>
        let cache := { cache with missCount := cache.missCount + 1 }
        if cache.capacityBytes < wanted.length then (cache, .direct)
        else
          let clock := cache.clock + 1
          ({ cache with
            ranges := setRange cache.ranges
              ⟨wanted.object, wanted.start, wanted.stop, load, false, clock⟩
            sizeBytes := cache.sizeBytes + wanted.length
            clock := clock }, .miss)

/-- Removes an entry if it is still the one under its key. -/
def remove (cache : HttpRangeCache) (key : RangeKey) (load : ℕ) : HttpRangeCache :=
  match cache.get key with
  | some entry =>
      if entry.load = load then
        { cache with
          ranges := cache.ranges.filter fun other => other.key ≠ key
          sizeBytes := cache.sizeBytes - key.length }
      else cache
  | none => cache

/-- The settled entry that was used least recently. -/
def oldest (ranges : List CachedRange) : Option CachedRange :=
  pick CachedRange.settled (fun entry other => entry.lastUsed < other.lastUsed) ranges

/-- The loop of `evict`; every round removes an entry. -/
def evictLoop : ℕ → HttpRangeCache → HttpRangeCache
  | 0, cache => cache
  | rounds + 1, cache =>
      if cache.capacityBytes < cache.sizeBytes then
        match oldest cache.ranges with
        | none => cache
        | some entry =>
            let cache := cache.remove entry.key entry.load
            evictLoop rounds { cache with evictionCount := cache.evictionCount + 1 }
      else cache

def evict (cache : HttpRangeCache) : HttpRangeCache := evictLoop cache.ranges.length cache

/-- The settled entries that an entry contains. -/
def subsumed (key : RangeKey) (load : ℕ) (candidate : CachedRange) : Bool :=
  candidate.load ≠ load && candidate.settled && candidate.object = key.object &&
    key.start ≤ candidate.start && candidate.stop ≤ key.stop

/-- A load has filled its entry. -/
def settle (cache : HttpRangeCache) (key : RangeKey) (load : ℕ) : HttpRangeCache :=
  match cache.get key with
  | some entry =>
      if entry.load = load then
        let cache := cache.modify load fun entry => { entry with settled := true }
        evict (cache.ranges.foldl (fun cache candidate =>
          if subsumed key load candidate then cache.remove candidate.key candidate.load
          else cache) cache)
      else cache
  | none => cache

/-! ## The books -/

/-- The bytes of entries. -/
def total (ranges : List CachedRange) : ℕ := (ranges.map CachedRange.length).sum

/-- The bytes of the settled entries. -/
def settledTotal (ranges : List CachedRange) : ℕ :=
  total (ranges.filter fun entry => entry.settled)

/-- The entries have different keys, and the size is what they add up to. -/
structure Sized (cache : HttpRangeCache) : Prop where
  keys : (cache.ranges.map CachedRange.key).Nodup
  size : cache.sizeBytes = total cache.ranges

/-- In addition the settled entries fit. -/
structure Books (cache : HttpRangeCache) : Prop extends Sized cache where
  settled : settledTotal cache.ranges ≤ cache.capacityBytes

variable {cache : HttpRangeCache} {key wanted : RangeKey} {load : ℕ}

theorem total_eq (ranges : List CachedRange) :
    total ranges = ((ranges.map CachedRange.key).map RangeKey.length).sum := by
  rw [List.map_map]
  rfl

theorem settledTotal_le_total (ranges : List CachedRange) : settledTotal ranges ≤ total ranges :=
  List.Sublist.sum_le_sum (List.filter_sublist.map _) fun _ _ => Nat.zero_le _

theorem settledTotal_filter_le (ranges : List CachedRange) (keep : CachedRange → Bool) :
    settledTotal (ranges.filter keep) ≤ settledTotal ranges :=
  List.Sublist.sum_le_sum ((List.filter_sublist.filter _).map _) fun _ _ => Nat.zero_le _

/-- If nothing is in flight, everything is settled. -/
theorem Books.size_le (hbooks : cache.Books) (hsettled : ∀ entry ∈ cache.ranges,
    entry.settled = true) : cache.sizeBytes ≤ cache.capacityBytes := by
  have hall : settledTotal cache.ranges = total cache.ranges := by
    unfold settledTotal
    rw [List.filter_eq_self.mpr hsettled]
  rw [hbooks.size, ← hall]
  exact_mod_cast hbooks.settled

theorem Books.new (capacityBytes : ℕ) : (HttpRangeCache.new capacityBytes).Books where
  keys := List.nodup_nil
  size := rfl
  settled := Nat.zero_le _

variable {entry : CachedRange}

theorem get_eq_some (hget : cache.get key = some entry) : entry ∈ cache.ranges ∧ entry.key = key :=
  ⟨List.mem_of_find?_eq_some hget, by simpa using List.find?_some hget⟩

theorem Sized.get (hsized : cache.Sized) (hentry : entry ∈ cache.ranges) :
    cache.get entry.key = some entry := by
  cases hget : cache.get entry.key with
  | none =>
      have hnone := List.find?_eq_none.mp hget entry hentry
      simp at hnone
  | some found =>
      obtain ⟨hfound, hkey⟩ := get_eq_some hget
      rw [List.inj_on_of_nodup_map hsized.keys hfound hentry hkey]

variable {ranges : List CachedRange}

/-- Removing the entry under a key takes its bytes off the total. -/
theorem total_filter_key (hkeys : (ranges.map CachedRange.key).Nodup)
    (hentry : entry ∈ ranges) :
    total ranges =
      entry.length + total (ranges.filter fun other => other.key ≠ entry.key) := by
  induction ranges with
  | nil => cases hentry
  | cons first ranges ih =>
      rw [List.map_cons, List.nodup_cons] at hkeys
      by_cases hfirst : first.key = entry.key
      · have hrest : ∀ other ∈ ranges, decide (other.key ≠ entry.key) = true := by
          intro other hother
          rw [decide_eq_true_eq, ← hfirst]
          exact fun heq => hkeys.1 (heq ▸ List.mem_map_of_mem hother)
        rw [List.filter_cons_of_neg (by simp [hfirst]), List.filter_eq_self.mpr hrest]
        simp [total, CachedRange.length, hfirst]
      · have hmem : entry ∈ ranges := by
          rcases List.mem_cons.mp hentry with rfl | hrest
          · exact absurd rfl hfirst
          · exact hrest
        rw [List.filter_cons_of_pos (by simp [hfirst])]
        have hrest := ih hkeys.2 hmem
        simp only [total, List.map_cons, List.sum_cons] at hrest ⊢
        omega

/-- Removing does nothing, or it removes the entry under the key. -/
theorem remove_cases (cache : HttpRangeCache) (key : RangeKey) (load : ℕ) :
    cache.remove key load = cache ∨
      ∃ entry ∈ cache.ranges, entry.key = key ∧ entry.load = load ∧
        cache.remove key load = { cache with
          ranges := cache.ranges.filter fun other => other.key ≠ key
          sizeBytes := cache.sizeBytes - key.length } := by
  unfold remove
  split
  · next entry hget =>
      split
      · next hload =>
          obtain ⟨hentry, hkey⟩ := get_eq_some hget
          exact Or.inr ⟨entry, hentry, hkey, hload, rfl⟩
      · exact Or.inl rfl
  · exact Or.inl rfl

theorem Sized.remove (hsized : cache.Sized) (key : RangeKey) (load : ℕ) :
    (cache.remove key load).Sized := by
  rcases remove_cases cache key load with hsame | ⟨entry, hentry, rfl, -, hremove⟩
  · rwa [hsame]
  · rw [hremove]
    refine ⟨hsized.keys.sublist (List.filter_sublist.map _), ?_⟩
    dsimp only
    rw [hsized.size, total_filter_key hsized.keys hentry]
    simp [CachedRange.length]

theorem remove_capacity (cache : HttpRangeCache) (key : RangeKey) (load : ℕ) :
    (cache.remove key load).capacityBytes = cache.capacityBytes := by
  rcases remove_cases cache key load with hsame | ⟨-, -, -, -, hremove⟩
  · rw [hsame]
  · rw [hremove]

theorem remove_ranges_subset (cache : HttpRangeCache) (key : RangeKey) (load : ℕ) :
    (cache.remove key load).ranges ⊆ cache.ranges := by
  rcases remove_cases cache key load with hsame | ⟨-, -, -, -, hremove⟩
  · rw [hsame]
    exact List.Subset.refl _
  · rw [hremove]
    exact List.filter_subset_self cache.ranges

/-- A failed load takes its entry away. -/
theorem Books.remove (hbooks : cache.Books) (key : RangeKey) (load : ℕ) :
    (cache.remove key load).Books := by
  refine ⟨hbooks.toSized.remove key load, ?_⟩
  rw [remove_capacity]
  rcases remove_cases cache key load with hsame | ⟨-, -, -, -, hremove⟩
  · rw [hsame]
    exact hbooks.settled
  · rw [hremove]
    exact (settledTotal_filter_le _ _).trans hbooks.settled

/-! ## Picking an entry -/

theorem pick_foldl {qualifies : CachedRange → Bool} {better : CachedRange → CachedRange → Bool}
    (ranges : List CachedRange) (best : Option CachedRange) :
    match ranges.foldl (fun best entry =>
      if qualifies entry && best.all (better entry) then some entry else best) best with
    | some found => best = some found ∨ found ∈ ranges ∧ qualifies found = true
    | none => best = none ∧ ∀ entry ∈ ranges, qualifies entry = false := by
  induction ranges generalizing best with
  | nil => cases best <;> simp
  | cons first ranges ih =>
      rw [List.foldl_cons]
      have hrest := ih (if qualifies first && best.all (better first) then some first else best)
      by_cases htaken : (qualifies first && best.all (better first)) = true
      · rw [if_pos htaken] at hrest ⊢
        have hfirst : qualifies first = true := (Bool.and_eq_true_iff.mp htaken).1
        split at hrest
        · next found hfound =>
            rcases hrest with heq | ⟨hmem, hqualifies⟩
            · rw [← Option.some.inj heq]
              exact Or.inr ⟨List.mem_cons_self, hfirst⟩
            · exact Or.inr ⟨List.mem_cons_of_mem _ hmem, hqualifies⟩
        · cases hrest.1
      · rw [if_neg htaken] at hrest ⊢
        split at hrest
        · next found hfound =>
            rcases hrest with heq | ⟨hmem, hqualifies⟩
            · exact Or.inl heq
            · exact Or.inr ⟨List.mem_cons_of_mem _ hmem, hqualifies⟩
        · next hnone =>
            obtain ⟨rfl, hall⟩ := hrest
            refine ⟨rfl, List.forall_mem_cons.mpr ⟨?_, hall⟩⟩
            simpa using htaken

variable {better : CachedRange → CachedRange → Bool} {qualifies : CachedRange → Bool}

theorem pick_eq_some {found : CachedRange}
    (hpick : pick qualifies better ranges = some found) :
    found ∈ ranges ∧ qualifies found = true := by
  have hfold := @pick_foldl qualifies better ranges none
  unfold pick at hpick
  rw [hpick] at hfold
  simpa using hfold

theorem pick_eq_none (hpick : pick qualifies better ranges = none) :
    ∀ entry ∈ ranges, qualifies entry = false := by
  have hfold := @pick_foldl qualifies better ranges none
  unfold pick at hpick
  rw [hpick] at hfold
  exact hfold.2

theorem covers_iff : covers wanted entry = true ↔
    entry.object = wanted.object ∧ entry.start ≤ wanted.start ∧ wanted.stop ≤ entry.stop := by
  simp [covers, and_assoc]

/-! ## Evicting -/

theorem total_eq_zero_of_unsettled
    (hunsettled : ∀ entry ∈ ranges, entry.settled = false) : settledTotal ranges = 0 := by
  unfold settledTotal
  rw [List.filter_eq_nil_iff.mpr (by simpa using hunsettled)]
  rfl

/-- The loop ends when the size fits, or nothing is left to evict. -/
theorem evictLoop_spec {rounds : ℕ} (hsized : cache.Sized)
    (hrounds : cache.ranges.length ≤ rounds) :
    (evictLoop rounds cache).Sized ∧
      (evictLoop rounds cache).capacityBytes = cache.capacityBytes ∧
      (evictLoop rounds cache).ranges ⊆ cache.ranges ∧
      ((evictLoop rounds cache).sizeBytes ≤ cache.capacityBytes ∨
        ∀ entry ∈ (evictLoop rounds cache).ranges, entry.settled = false) := by
  induction rounds generalizing cache with
  | zero =>
      refine ⟨hsized, rfl, List.Subset.refl _, Or.inr ?_⟩
      rw [evictLoop, List.eq_nil_of_length_eq_zero (Nat.le_zero.mp hrounds)]
      simp
  | succ rounds ih =>
      rw [evictLoop]
      split
      · next hover =>
          split
          · next hnone =>
              exact ⟨hsized, rfl, List.Subset.refl _, Or.inr (pick_eq_none hnone)⟩
          · next entry hentry =>
              have hmem := (pick_eq_some hentry).1
              have hget := hsized.get hmem
              have hshorter : (cache.remove entry.key entry.load).ranges.length ≤ rounds := by
                have hlt : (cache.ranges.filter fun other => other.key ≠ entry.key).length <
                    cache.ranges.length := List.length_filter_lt_length_iff_exists.mpr
                      ⟨entry, hmem, by simp⟩
                rw [HttpRangeCache.remove, hget]
                dsimp only
                rw [if_pos rfl]
                dsimp only
                omega
              have hremoved := hsized.remove entry.key entry.load
              obtain ⟨hloop, hcapacity, hsubset, hdone⟩ := @ih
                { cache.remove entry.key entry.load with
                  evictionCount := (cache.remove entry.key entry.load).evictionCount + 1 }
                ⟨hremoved.keys, hremoved.size⟩ hshorter
              have hsame : (cache.remove entry.key entry.load).capacityBytes =
                  cache.capacityBytes := remove_capacity cache entry.key entry.load
              refine ⟨hloop, hcapacity.trans hsame,
                List.Subset.trans hsubset (remove_ranges_subset cache entry.key entry.load), ?_⟩
              rw [← hsame]
              exact hdone
      · next hfits =>
          exact ⟨hsized, rfl, List.Subset.refl _, Or.inl (Int.not_lt.mp hfits)⟩

/-- After `evict` the settled entries fit. -/
theorem Sized.evict (hsized : cache.Sized) :
    (evict cache).Books ∧ (evict cache).capacityBytes = cache.capacityBytes ∧
      (evict cache).ranges ⊆ cache.ranges := by
  obtain ⟨hloop, hcapacity, hsubset, hdone⟩ := evictLoop_spec hsized (Nat.le_refl _)
  refine ⟨⟨hloop, ?_⟩, hcapacity, hsubset⟩
  change settledTotal (evictLoop _ cache).ranges ≤ (evictLoop _ cache).capacityBytes
  rw [hcapacity]
  rcases hdone with hfits | hunsettled
  · have hle := settledTotal_le_total (evictLoop cache.ranges.length cache).ranges
    rw [hloop.size] at hfits
    exact hle.trans (by exact_mod_cast hfits)
  · rw [total_eq_zero_of_unsettled hunsettled]
    exact Nat.zero_le _

/-! ## Completions and reads -/

/-- A change that leaves the keys alone. -/
theorem Sized.modify (hsized : cache.Sized) (load : ℕ) {change : CachedRange → CachedRange}
    (hkey : ∀ entry, (change entry).key = entry.key) : (cache.modify load change).Sized := by
  have hsame : ∀ entry : CachedRange,
      (if entry.load = load then change entry else entry).key = entry.key := by
    intro entry
    split
    · exact hkey entry
    · rfl
  have hkeys : (cache.modify load change).ranges.map CachedRange.key =
      cache.ranges.map CachedRange.key := by
    rw [HttpRangeCache.modify, List.map_map]
    exact List.map_congr_left fun entry _ => hsame entry
  constructor
  · rw [hkeys]
    exact hsized.keys
  · show cache.sizeBytes = _
    rw [hsized.size, total_eq, total_eq, hkeys]

theorem Sized.removeAll (hsized : cache.Sized) (candidates : List CachedRange)
    (selected : CachedRange → Bool) :
    (candidates.foldl (fun cache candidate =>
      if selected candidate then cache.remove candidate.key candidate.load else cache) cache).Sized ∧
    (candidates.foldl (fun cache candidate =>
      if selected candidate then cache.remove candidate.key candidate.load else
        cache) cache).capacityBytes = cache.capacityBytes ∧
    (candidates.foldl (fun cache candidate =>
      if selected candidate then cache.remove candidate.key candidate.load else
        cache) cache).ranges ⊆ cache.ranges := by
  induction candidates generalizing cache with
  | nil => exact ⟨hsized, rfl, List.Subset.refl _⟩
  | cons candidate candidates ih =>
      rw [List.foldl_cons]
      split
      · obtain ⟨hrest, hcapacity, hsubset⟩ := ih (hsized.remove candidate.key candidate.load)
        rw [remove_capacity] at hcapacity
        exact ⟨hrest, hcapacity, List.Subset.trans hsubset (remove_ranges_subset _ _ _)⟩
      · exact ih hsized

/-- What is left of the entries after a load has completed. -/
theorem Books.settle (hbooks : cache.Books) (key : RangeKey) (load : ℕ) :
    (cache.settle key load).Books ∧
      (cache.settle key load).capacityBytes = cache.capacityBytes ∧
      ∀ entry ∈ (cache.settle key load).ranges,
        (∃ before ∈ cache.ranges, entry = before ∨
          before.load = load ∧ entry = { before with settled := true }) ∧
        (entry.key = key → entry.load = load → entry.settled = true) := by
  unfold HttpRangeCache.settle
  split
  · next found hget =>
      split
      · next hload =>
          have hmodified : (cache.modify load fun entry =>
              { entry with settled := true }).Sized := hbooks.toSized.modify load fun entry => rfl
          obtain ⟨hremoved, hcapacity, hsubset⟩ := hmodified.removeAll
            (cache.modify load fun entry => { entry with settled := true }).ranges
            (subsumed key load)
          obtain ⟨hevicted, hcapacity', hsubset'⟩ := hremoved.evict
          refine ⟨hevicted, hcapacity'.trans hcapacity, fun entry hentry => ?_⟩
          obtain ⟨before, hbefore, rfl⟩ := List.mem_map.mp (hsubset (hsubset' hentry))
          split
          · next heq => exact ⟨⟨before, hbefore, Or.inr ⟨heq, rfl⟩⟩, fun _ _ => rfl⟩
          · next hne => exact ⟨⟨before, hbefore, Or.inl rfl⟩, fun _ heq => absurd heq hne⟩
      · next hload =>
          refine ⟨hbooks, rfl, fun entry hentry => ⟨⟨entry, hentry, Or.inl rfl⟩, ?_⟩⟩
          rintro rfl heq
          obtain rfl := Option.some.inj ((hbooks.toSized.get hentry).symm.trans hget)
          exact absurd heq hload
  · next hnone =>
      refine ⟨hbooks, rfl, fun entry hentry => ⟨⟨entry, hentry, Or.inl rfl⟩, ?_⟩⟩
      rintro rfl heq
      rw [hbooks.toSized.get hentry] at hnone
      cases hnone

/-- After its entry was taken away a load has none. -/
theorem Books.remove_spec (hbooks : cache.Books) (key : RangeKey) (load : ℕ) :
    ∀ entry ∈ (cache.remove key load).ranges, entry ∈ cache.ranges ∧
      (entry.key = key → entry.load ≠ load) := by
  intro entry hentry
  have hmem := remove_ranges_subset cache key load hentry
  refine ⟨hmem, ?_⟩
  rintro rfl rfl
  rw [HttpRangeCache.remove, hbooks.toSized.get hmem] at hentry
  simp at hentry

/-- A hit changes when an entry was used. -/
theorem settledTotal_modify (load clock : ℕ) (ranges : List CachedRange) :
    settledTotal (ranges.map fun entry =>
      if entry.load = load then { entry with lastUsed := clock } else entry) =
      settledTotal ranges := by
  induction ranges with
  | nil => rfl
  | cons entry ranges ih =>
      unfold settledTotal at ih ⊢
      rw [List.map_cons, List.filter_cons, List.filter_cons]
      split <;> cases hsettled : entry.settled <;>
        simp_all [total, CachedRange.length, CachedRange.key]

/-- What a read finds or makes. -/
theorem Books.read (hbooks : cache.Books) (wanted : RangeKey) (load : ℕ) :
    (cache.read wanted load).1.Books ∧
      (cache.read wanted load).1.capacityBytes = cache.capacityBytes ∧
      (∀ entry ∈ (cache.read wanted load).1.ranges,
        (∃ before ∈ cache.ranges, ∃ clock, entry = { before with lastUsed := clock }) ∨
          (cache.read wanted load).2 = .miss ∧ entry.key = wanted ∧ entry.load = load ∧
            entry.settled = false) ∧
      ∀ covering, (cache.read wanted load).2 = .hit covering →
        covering ∈ cache.ranges ∧ covers wanted covering = true := by
  have hsame : ∀ entry ∈ cache.ranges, ∃ before ∈ cache.ranges, ∃ clock,
      entry = { before with lastUsed := clock } :=
    fun entry hentry => ⟨entry, hentry, entry.lastUsed, rfl⟩
  unfold HttpRangeCache.read
  split
  · exact ⟨hbooks, rfl, fun entry hentry => Or.inl (hsame entry hentry), by simp⟩
  · split
    · next covering hcovering =>
        have hsized : HttpRangeCache.Sized { cache with
            hitCount := cache.hitCount + 1
            clock := cache.clock + 1 } := ⟨hbooks.keys, hbooks.size⟩
        refine ⟨⟨hsized.modify covering.load fun entry => rfl, ?_⟩, rfl, ?_, ?_⟩
        · show settledTotal (cache.ranges.map _) ≤ cache.capacityBytes
          rw [settledTotal_modify]
          exact hbooks.settled
        · intro entry hentry
          obtain ⟨before, hbefore, rfl⟩ := List.mem_map.mp hentry
          split
          · exact Or.inl ⟨before, hbefore, _, rfl⟩
          · exact Or.inl ⟨before, hbefore, before.lastUsed, rfl⟩
        · rintro _ ⟨⟩
          exact pick_eq_some hcovering
    · next hnone =>
        dsimp only
        split
        · exact ⟨⟨⟨hbooks.keys, hbooks.size⟩, hbooks.settled⟩, rfl,
            fun entry hentry => Or.inl (hsame entry hentry), by simp⟩
        · next hfits =>
            have hfresh : ∀ entry ∈ cache.ranges, entry.key ≠ wanted := by
              rintro entry hentry rfl
              have huncovered := pick_eq_none hnone entry hentry
              simp [covers, CachedRange.key] at huncovered
            have hset : setRange cache.ranges
                ⟨wanted.object, wanted.start, wanted.stop, load, false, cache.clock + 1⟩ =
                cache.ranges ++
                  [⟨wanted.object, wanted.start, wanted.stop, load, false, cache.clock + 1⟩] := by
              rw [setRange, if_neg]
              rw [List.any_eq_true]
              rintro ⟨entry, hentry, hkey⟩
              exact hfresh entry hentry (of_decide_eq_true hkey)
            rw [hset]
            refine ⟨⟨⟨?_, ?_⟩, ?_⟩, rfl, ?_, by simp⟩
            · rw [List.map_append, List.nodup_append]
              refine ⟨hbooks.keys, by simp, ?_⟩
              intro _ hmem _ hnew heq
              obtain ⟨entry, hentry, rfl⟩ := List.mem_map.mp hmem
              rw [List.map_singleton, List.mem_singleton] at hnew
              exact hfresh entry hentry (heq.trans hnew)
            · show cache.sizeBytes + wanted.length = _
              rw [hbooks.size]
              simp [total, CachedRange.length, CachedRange.key, RangeKey.length]
            · show settledTotal (cache.ranges ++ _) ≤ cache.capacityBytes
              have hsettled := hbooks.settled
              unfold settledTotal at hsettled ⊢
              simpa [List.filter_append] using hsettled
            · intro entry hentry
              rcases List.mem_append.mp hentry with hentry | hentry
              · exact Or.inl (hsame entry hentry)
              · rw [List.mem_singleton.mp hentry]
                exact Or.inr ⟨rfl, rfl, rfl, rfl⟩

end HttpRangeCache

end ParqDB.Browser
