import ParqDB.Cache.MetadataCache

/-!
# The metadata document cache is a bounded LRU

**Strategy.**  Map, queue and byte counter change together in two ways only: `remove` takes one
location out of all three, and `push` adds one.  A round of `enforce_bounds` is a `remove` of the
front of the queue (`removeEntry_of_order`).  `Sound` is what both keep.

The byte counter is the only weak spot.  Its additions are not checked, and once one of them has
wrapped, the counter stays behind the documents for good unless a subtraction wraps back
(`enforceRounds_behind`).  So the promises hold in a run exactly if no addition wraps.

**Results.**

* `metadata_cache_is_lru_iff`: the promises hold in every state and step of a run if and only if
  every admitted document can be counted.
* `wrapped_counter_exceeds_budget`: three documents that wrap the counter.
-/

namespace ParqDB.Cache.Metadata

open Foundations MetadataCache

variable {Index Centroids : Type} {usizeMax : ℕ}

/-! ## Counters -/

def Honest (cache : MetadataCache Index Centroids) : Prop :=
  ∀ debit ∈ cache.debits, debit.amount ≤ debit.before

/-- A subtraction that does not wrap. -/
theorem wrapped_sub {resident bytes : ℕ} (hresident : resident ≤ usizeMax)
    (hbytes : bytes ≤ resident) :
    (resident + (usizeMax + 1) - bytes) % (usizeMax + 1) = resident - bytes := by
  calc (resident + (usizeMax + 1) - bytes) % (usizeMax + 1)
      = (resident - bytes + (usizeMax + 1)) % (usizeMax + 1) := by
        congr 1
        omega
    _ = (resident - bytes) % (usizeMax + 1) := Nat.add_mod_right _ _
    _ = resident - bytes := Nat.mod_eq_of_lt (by omega)

section

variable {cache : MetadataCache Index Centroids} {location : String}
  {entry : CachedMetadata Index Centroids}

theorem documentBytes_of_get? (hget : cache.entries.get? location = some entry) :
    documentBytes cache = entry.serializedBytes +
      documentBytes { cache with entries := cache.entries.remove location } := by
  rw [documentBytes, ((LinkedMap.perm_remove hget).map _).sum_eq, List.map_cons, List.sum_cons]
  rfl

theorem removeEntry_of_none (hget : cache.entries.get? location = none) :
    cache.removeEntry usizeMax location = cache := by
  rw [MetadataCache.removeEntry, hget]

theorem removeEntry_of_some (hget : cache.entries.get? location = some entry) :
    cache.removeEntry usizeMax location =
      { cache with entries := cache.entries.remove location }.subResident usizeMax
        entry.serializedBytes := by
  rw [MetadataCache.removeEntry, hget]

@[simp] theorem order_removeEntry : (cache.removeEntry usizeMax location).order = cache.order := by
  unfold MetadataCache.removeEntry
  split <;> rfl

@[simp] theorem config_removeEntry :
    (cache.removeEntry usizeMax location).config = cache.config := by
  unfold MetadataCache.removeEntry
  split <;> rfl

theorem entries_removeEntry : (cache.removeEntry usizeMax location).entries.entries =
    (cache.entries.remove location).entries := by
  unfold MetadataCache.removeEntry
  split
  · rename_i hget
    exact (LinkedMap.remove_of_get?_eq_none hget).symm
  · rfl

@[simp] theorem order_remove :
    (cache.remove usizeMax location).order = cache.order.erase location := by
  simp [MetadataCache.remove]

@[simp] theorem config_remove : (cache.remove usizeMax location).config = cache.config := by
  simp [MetadataCache.remove]

theorem entries_remove : (cache.remove usizeMax location).entries.entries =
    (cache.entries.remove location).entries := entries_removeEntry

theorem mem_entries_remove {pair : String × CachedMetadata Index Centroids} :
    pair ∈ (cache.remove usizeMax location).entries.entries ↔
      pair ∈ cache.entries.entries ∧ pair.1 ≠ location := by
  rw [entries_remove, LinkedMap.remove, List.mem_filter, decide_eq_true_iff]

theorem debits_subset_remove : cache.debits ⊆ (cache.remove usizeMax location).debits := by
  unfold MetadataCache.remove MetadataCache.removeEntry
  dsimp only
  split
  · exact List.Subset.refl _
  · exact List.subset_append_left _ _

theorem get?_remove_self : (cache.remove usizeMax location).entries.get? location = none := by
  refine LinkedMap.get?_eq_none_iff.mpr fun pair hpair => ?_
  exact (mem_entries_remove.mp hpair).2

/-- Removals that do not wrap keep the distance of the counter from the documents. -/
theorem remove_behind {behind : ℕ} (haddressable : cache.residentBytes ≤ usizeMax)
    (hbehind : cache.residentBytes + behind = documentBytes cache)
    (hhonest : Honest (cache.remove usizeMax location)) :
    (cache.remove usizeMax location).residentBytes + behind =
        documentBytes (cache.remove usizeMax location) ∧
      (cache.remove usizeMax location).residentBytes ≤ cache.residentBytes := by
  cases hget : cache.entries.get? location with
  | none =>
      rw [MetadataCache.remove, removeEntry_of_none hget]
      exact ⟨hbehind, Nat.le_refl _⟩
  | some entry =>
      have hremove : cache.removeEntry usizeMax location = _ := removeEntry_of_some hget
      have hfits : entry.serializedBytes ≤ cache.residentBytes := by
        apply hhonest ⟨entry.serializedBytes, cache.residentBytes⟩
        rw [MetadataCache.remove, hremove]
        exact List.mem_append_right _ List.mem_cons_self
      have hbytes := documentBytes_of_get? hget
      have hresident : (cache.remove usizeMax location).residentBytes =
          cache.residentBytes - entry.serializedBytes := by
        rw [MetadataCache.remove, hremove]
        exact wrapped_sub haddressable hfits
      have hleft : documentBytes (cache.remove usizeMax location) =
          documentBytes { cache with entries := cache.entries.remove location } := by
        rw [documentBytes, entries_remove]
        rfl
      rw [hresident, hleft]
      omega

/-- A removal does not wrap when the counter is right. -/
theorem honest_remove (hhonest : Honest cache)
    (hresident : cache.residentBytes = documentBytes cache) :
    Honest (cache.remove usizeMax location) := by
  cases hget : cache.entries.get? location with
  | none =>
      rw [MetadataCache.remove, removeEntry_of_none hget]
      exact hhonest
  | some entry =>
      have hremove : cache.removeEntry usizeMax location = _ := removeEntry_of_some hget
      have hbytes := documentBytes_of_get? hget
      intro debit hdebit
      rw [MetadataCache.remove, hremove] at hdebit
      rcases List.mem_append.mp hdebit with hold | hnew
      · exact hhonest debit hold
      · rw [List.mem_singleton.mp hnew]
        change entry.serializedBytes ≤ cache.residentBytes
        omega

end

/-! ## The three representations -/

/-- Queue, map and counter agree. -/
structure Sound (usizeMax : ℕ) (cache : MetadataCache Index Centroids) : Prop where
  keys : cache.order.Perm (cache.entries.entries.map Prod.fst)
  resident : cache.residentBytes = documentBytes cache
  addressable : cache.residentBytes ≤ usizeMax
  honest : Honest cache

section

variable {cache : MetadataCache Index Centroids} {location : String}

theorem cached_iff : Cached cache location ↔ ∃ entry, (location, entry) ∈ cache.entries.entries := by
  rw [Cached, Option.ne_none_iff_exists']
  exact exists_congr fun entry => LinkedMap.get?_eq_some_iff

section

variable (hsound : Sound usizeMax cache)

include hsound

theorem Sound.nodup : cache.order.Nodup :=
  hsound.keys.nodup_iff.mpr cache.entries.uniqueKeys

theorem Sound.cached_iff :
    Cached cache location ↔ location ∈ cache.order := by
  rw [Metadata.cached_iff, hsound.keys.mem_iff, List.mem_map]
  constructor
  · rintro ⟨entry, hentry⟩
    exact ⟨(location, entry), hentry, rfl⟩
  · rintro ⟨⟨key, entry⟩, hentry, rfl⟩
    exact ⟨entry, hentry⟩

theorem Sound.length :
    cache.order.length = cache.entries.length := by
  rw [hsound.keys.length_eq, List.length_map]
  rfl

theorem Sound.remove (location : String) :
    Sound usizeMax (cache.remove usizeMax location) := by
  have hhonest : Honest (cache.remove usizeMax location) :=
    honest_remove hsound.honest hsound.resident
  have hresident : cache.residentBytes + 0 = documentBytes cache := hsound.resident
  obtain ⟨hafter, hless⟩ := remove_behind hsound.addressable hresident hhonest
  refine ⟨?_, hafter, Nat.le_trans hless hsound.addressable, hhonest⟩
  rw [order_remove, entries_remove]
  have hfilter : (cache.entries.remove location).entries.map Prod.fst =
      (cache.entries.entries.map Prod.fst).filter (· ≠ location) := by
    rw [LinkedMap.remove, List.filter_map]
    rfl
  rw [hfilter, hsound.nodup.erase_eq_filter]
  refine (hsound.keys.filter _).trans (List.Perm.of_eq (List.filter_congr fun other _ => ?_))
  rw [decide_not]
  rfl

theorem Sound.withConfig (config : MetadataCacheConfig) :
    Sound usizeMax { cache with config := config } :=
  ⟨hsound.keys, hsound.resident, hsound.addressable, hsound.honest⟩

/-- A new entry whose bytes can be counted. -/
theorem Sound.push
    (habsent : cache.entries.get? location = none) (document : CachedDocument Index Centroids)
    {bytes : ℕ} (hcountable : cache.residentBytes + bytes ≤ usizeMax) :
    Sound usizeMax (cache.push usizeMax location document bytes) := by
  have hperm : (cache.push usizeMax location document bytes).entries.entries.Perm
      ((location, ⟨document, bytes⟩) :: cache.entries.entries) := LinkedMap.perm_insert habsent
  have hresident : (cache.push usizeMax location document bytes).residentBytes =
      cache.residentBytes + bytes := Nat.mod_eq_of_lt (Nat.lt_succ_of_le hcountable)
  refine ⟨?_, ?_, hresident.trans_le hcountable, hsound.honest⟩
  · have hqueue : (cache.order ++ [location]).Perm (location :: cache.order) :=
      List.perm_append_singleton _ _
    exact (hqueue.trans (hsound.keys.cons _)).trans (hperm.map Prod.fst).symm
  · rw [hresident, hsound.resident, documentBytes, documentBytes, (hperm.map _).sum_eq,
      List.map_cons, List.sum_cons, Nat.add_comm]

end

/-- Popping the front of the queue is a removal. -/
theorem removeEntry_of_order {evicted : String} {order : List String}
    (horder : cache.order = evicted :: order) :
    { cache with order := order }.removeEntry usizeMax evicted = cache.remove usizeMax evicted := by
  rw [MetadataCache.remove]
  unfold MetadataCache.removeEntry
  dsimp only
  split <;> simp [subResident, horder]

/-- A cache with an empty queue is empty. -/
theorem Sound.not_over_of_nil (hsound : Sound usizeMax cache) (horder : cache.order = []) :
    ¬ cache.Over := by
  have hentries : cache.entries.entries = [] := by
    have hkeys := hsound.keys
    rw [horder, List.nil_perm, List.map_eq_nil_iff] at hkeys
    exact hkeys
  have hlength : cache.entries.length = 0 := by
    rw [LinkedMap.length, hentries]
    rfl
  have hresident : cache.residentBytes = 0 := by
    rw [hsound.resident, documentBytes, hentries]
    rfl
  rw [MetadataCache.Over, hlength, hresident]
  omega

/-- The loop takes a front off the queue, and what it leaves is as it was. -/
theorem enforceRounds_spec (rounds : ℕ) (hsound : Sound usizeMax cache)
    (hrounds : cache.order.length ≤ rounds) :
    Sound usizeMax (cache.enforceRounds usizeMax rounds) ∧
      ¬ (cache.enforceRounds usizeMax rounds).Over ∧
      (cache.enforceRounds usizeMax rounds).config = cache.config ∧
      (cache.enforceRounds usizeMax rounds).entries.entries ⊆ cache.entries.entries ∧
      ∃ dropped, cache.order = dropped ++ (cache.enforceRounds usizeMax rounds).order := by
  induction rounds generalizing cache with
  | zero =>
      have horder := List.length_eq_zero_iff.mp (Nat.le_zero.mp hrounds)
      exact ⟨hsound, hsound.not_over_of_nil horder, rfl, List.Subset.refl _, [], rfl⟩
  | succ rounds ih =>
      rw [enforceRounds]
      by_cases hover : cache.Over
      · rw [if_pos hover]
        cases horder : cache.order with
        | nil => exact absurd hover (hsound.not_over_of_nil horder)
        | cons evicted order =>
            dsimp only
            rw [removeEntry_of_order horder]
            have hremoved := hsound.remove evicted
            have hqueue : (cache.remove usizeMax evicted).order = order := by
              rw [order_remove, horder, List.erase_cons_head]
            have hshorter : (cache.remove usizeMax evicted).order.length ≤ rounds := by
              rw [hqueue]
              rw [horder, List.length_cons] at hrounds
              omega
            obtain ⟨hafter, hwithin, hconfig, hsubset, dropped, hdropped⟩ :=
              ih hremoved hshorter
            refine ⟨hafter, hwithin, by rw [hconfig, config_remove], ?_, evicted :: dropped, ?_⟩
            · intro pair hpair
              exact (mem_entries_remove.mp (hsubset hpair)).1
            · rw [List.cons_append, ← hdropped, hqueue]
      · rw [if_neg hover]
        exact ⟨hsound, hover, rfl, List.Subset.refl _, [], rfl⟩

theorem Sound.enforceBounds (hsound : Sound usizeMax cache) :
    Sound usizeMax (cache.enforceBounds usizeMax) ∧ ¬ (cache.enforceBounds usizeMax).Over ∧
      (cache.enforceBounds usizeMax).config = cache.config ∧
      (cache.enforceBounds usizeMax).entries.entries ⊆ cache.entries.entries ∧
      ∃ dropped, cache.order = dropped ++ (cache.enforceBounds usizeMax).order :=
  enforceRounds_spec _ hsound (Nat.le_refl _)

theorem Sound.setConfig (hsound : Sound usizeMax cache) (config : MetadataCacheConfig) :
    Sound usizeMax (cache.setConfig usizeMax config) ∧ ¬ (cache.setConfig usizeMax config).Over ∧
      (cache.setConfig usizeMax config).entries.entries ⊆ cache.entries.entries ∧
      ∃ dropped, cache.order = dropped ++ (cache.setConfig usizeMax config).order := by
  obtain ⟨hafter, hwithin, -, hrest⟩ := (hsound.withConfig config).enforceBounds
  exact ⟨hafter, hwithin, hrest⟩

theorem insert_cases (usizeMax : ℕ) (cache : MetadataCache Index Centroids) (location : String)
    (document : CachedDocument Index Centroids) (bytes : ℕ) :
    (¬ Admits cache.config bytes ∧
      cache.insert usizeMax location document bytes = cache.remove usizeMax location) ∨
    (Admits cache.config bytes ∧ cache.insert usizeMax location document bytes =
      ((cache.remove usizeMax location).push usizeMax location document bytes).enforceBounds
        usizeMax) := by
  rw [MetadataCache.insert, config_remove]
  by_cases hadmits : Admits cache.config bytes
  · exact Or.inr ⟨hadmits, if_pos hadmits⟩
  · exact Or.inl ⟨hadmits, if_neg hadmits⟩

/-- The loop stops before it takes a last entry that fits on its own. -/
theorem mem_enforceRounds_of_last (rounds : ℕ) (hsound : Sound usizeMax cache)
    {front : List String} {entry : CachedMetadata Index Centroids}
    (horder : cache.order = front ++ [location])
    (hentry : (location, entry) ∈ cache.entries.entries)
    (hadmits : Admits cache.config entry.serializedBytes) :
    (location, entry) ∈ (cache.enforceRounds usizeMax rounds).entries.entries := by
  induction rounds generalizing cache front with
  | zero => exact hentry
  | succ rounds ih =>
      rw [enforceRounds]
      by_cases hover : cache.Over
      · rw [if_pos hover]
        cases front with
        | nil =>
            -- the only entry does not exceed the limits
            have hlength : cache.entries.entries.length = 1 := by
              have hlength := hsound.length
              rw [horder] at hlength
              exact hlength.symm
            obtain ⟨only, honly⟩ := List.length_eq_one_iff.mp hlength
            rw [honly, List.mem_singleton] at hentry
            have hresident : cache.residentBytes = entry.serializedBytes := by
              rw [hsound.resident, documentBytes, honly, ← hentry]
              simp
            have hcount : cache.entries.length = 1 := hlength
            rw [Admits] at hadmits
            rw [MetadataCache.Over, hcount, hresident] at hover
            omega
        | cons evicted front =>
            rw [List.cons_append] at horder
            rw [horder]
            dsimp only
            rw [removeEntry_of_order horder]
            have hnodup := hsound.nodup
            rw [horder, List.nodup_cons] at hnodup
            apply ih (hsound.remove evicted)
            · rw [order_remove, horder, List.erase_cons_head]
            · refine mem_entries_remove.mpr ⟨hentry, ?_⟩
              rintro rfl
              exact hnodup.1 (List.mem_append_right _ List.mem_cons_self)
            · rwa [config_remove]
      · rw [if_neg hover]
        exact hentry

end

/-! ## A counter that has wrapped -/

section

variable {cache : MetadataCache Index Centroids} {location : String}

theorem debits_subset_enforceRounds (rounds : ℕ) :
    cache.debits ⊆ (cache.enforceRounds usizeMax rounds).debits := by
  induction rounds generalizing cache with
  | zero => exact List.Subset.refl _
  | succ rounds ih =>
      rw [enforceRounds]
      by_cases hover : cache.Over
      · rw [if_pos hover]
        cases horder : cache.order with
        | nil => exact List.Subset.refl _
        | cons evicted order =>
            dsimp only
            rw [removeEntry_of_order horder]
            exact List.Subset.trans debits_subset_remove ih
      · rw [if_neg hover]
        exact List.Subset.refl _

/-- A counter that is behind the documents stays behind, as long as no subtraction wraps. -/
theorem enforceRounds_behind {behind : ℕ} (rounds : ℕ)
    (haddressable : cache.residentBytes ≤ usizeMax)
    (hbehind : cache.residentBytes + behind = documentBytes cache)
    (hhonest : Honest (cache.enforceRounds usizeMax rounds)) :
    (cache.enforceRounds usizeMax rounds).residentBytes + behind =
      documentBytes (cache.enforceRounds usizeMax rounds) := by
  induction rounds generalizing cache with
  | zero => exact hbehind
  | succ rounds ih =>
      rw [enforceRounds] at hhonest ⊢
      by_cases hover : cache.Over
      · rw [if_pos hover] at hhonest ⊢
        cases horder : cache.order with
        | nil => exact hbehind
        | cons evicted order =>
            rw [horder] at hhonest
            dsimp only at hhonest ⊢
            rw [removeEntry_of_order horder] at hhonest ⊢
            have hround : Honest (cache.remove usizeMax evicted) :=
              fun debit hdebit => hhonest debit (debits_subset_enforceRounds rounds hdebit)
            obtain ⟨hafter, hless⟩ := remove_behind haddressable hbehind hround
            exact ih (Nat.le_trans hless haddressable) hafter hhonest
      · rw [if_neg hover]
        exact hbehind

/-- After an addition that wraps, the counter is not the bytes of the documents, or a later
subtraction wraps as well. -/
theorem Sound.residentBytes_ne_of_wrapped (hsound : Sound usizeMax cache)
    (habsent : cache.entries.get? location = none) (document : CachedDocument Index Centroids)
    {bytes : ℕ} (hwraps : usizeMax < cache.residentBytes + bytes) (rounds : ℕ)
    (hhonest : Honest ((cache.push usizeMax location document bytes).enforceRounds usizeMax
      rounds)) :
    ((cache.push usizeMax location document bytes).enforceRounds usizeMax rounds).residentBytes ≠
      documentBytes
        ((cache.push usizeMax location document bytes).enforceRounds usizeMax rounds) := by
  have hperm : (cache.push usizeMax location document bytes).entries.entries.Perm
      ((location, ⟨document, bytes⟩) :: cache.entries.entries) := LinkedMap.perm_insert habsent
  have hresident : (cache.push usizeMax location document bytes).residentBytes =
      (cache.residentBytes + bytes) % (usizeMax + 1) := rfl
  have hsmall : (cache.push usizeMax location document bytes).residentBytes ≤ usizeMax := by
    rw [hresident]
    exact Nat.le_of_lt_succ (Nat.mod_lt _ (Nat.succ_pos usizeMax))
  have hdocuments : documentBytes (cache.push usizeMax location document bytes) =
      cache.residentBytes + bytes := by
    rw [hsound.resident, documentBytes, documentBytes, (hperm.map _).sum_eq, List.map_cons,
      List.sum_cons, Nat.add_comm]
  have hbehind : (cache.push usizeMax location document bytes).residentBytes +
      (cache.residentBytes + bytes -
        (cache.push usizeMax location document bytes).residentBytes) =
      documentBytes (cache.push usizeMax location document bytes) := by
    omega
  have hafter := enforceRounds_behind rounds hsmall hbehind hhonest
  omega

end

/-! ## Journals -/

section

variable {journal : Journal Index Centroids}

/-- What is in the map was inserted last under its location. -/
def Documented (journal : Journal Index Centroids) : Prop :=
  ∀ pair ∈ journal.cache.entries.entries,
    journal.lastInserted pair.1 = some pair.2.document

section

variable {Metadata : Type} {kind : CachedDocument Index Centroids → Option Metadata}
  {cache : MetadataCache Index Centroids} {location : String} {metadata : Metadata}

theorem entries_getDocument : (cache.getDocument kind location).2.entries = cache.entries := by
  unfold getDocument
  split <;> rfl

theorem getDocument_eq_some_iff : (cache.getDocument kind location).1 = some metadata ↔
    ∃ entry, (location, entry) ∈ cache.entries.entries ∧ kind entry.document = some metadata := by
  have hbind : (cache.getDocument kind location).1 =
      (cache.entries.get? location).bind fun entry => kind entry.document := by
    unfold getDocument
    split <;> rename_i hfound <;> exact hfound.symm
  rw [hbind, Option.bind_eq_some_iff]
  exact exists_congr fun entry => and_congr_left fun _ => LinkedMap.get?_eq_some_iff

theorem getDocument_of_none (hfound : (cache.getDocument kind location).1 = none) :
    (cache.getDocument kind location).2 = cache := by
  unfold getDocument at hfound ⊢
  split at hfound
  · rfl
  · cases hfound

theorem getDocument_of_some (hfound : (cache.getDocument kind location).1 = some metadata) :
    (cache.getDocument kind location).2 = cache.touch location := by
  unfold getDocument at hfound ⊢
  split at hfound
  · cases hfound
  · rfl

end

variable {document : CachedDocument Index Centroids}

@[simp] theorem index?_eq_some_iff {metadata : Index} :
    document.index? = some metadata ↔ document = .index metadata := by
  cases document <;> simp [CachedDocument.index?]

@[simp] theorem ivfCentroids?_eq_some_iff {metadata : Centroids} :
    document.ivfCentroids? = some metadata ↔ document = .ivfCentroids metadata := by
  cases document <;> simp [CachedDocument.ivfCentroids?]

theorem Documented.found (hdocuments : Documented journal) {location : String} :
    (∃ entry, (location, entry) ∈ journal.cache.entries.entries ∧ entry.document = document) ↔
      Cached journal.cache location ∧ journal.lastInserted location = some document := by
  rw [cached_iff]
  constructor
  · rintro ⟨entry, hentry, rfl⟩
    exact ⟨⟨entry, hentry⟩, hdocuments _ hentry⟩
  · rintro ⟨⟨entry, hentry⟩, hlast⟩
    have hown := hdocuments _ hentry
    rw [hlast, Option.some.injEq] at hown
    exact ⟨entry, hentry, hown.symm⟩

theorem coherent_of (hsound : Sound usizeMax journal.cache)
    (hrecency : ByRecency journal.uses journal.cache.order) (hwithin : ¬ journal.cache.Over)
    (hdocuments : Documented journal) : Coherent usizeMax journal where
  orderNodup := hsound.nodup
  orderKeys := hsound.keys
  byRecency := hrecency
  resident := hsound.resident
  addressable := hsound.addressable
  withinEntries := Nat.not_lt.mp fun hmore => hwithin (Or.inl hmore)
  withinBytes := Nat.not_lt.mp fun hmore => hwithin (Or.inr hmore)
  foundIndex := fun _ _ => by
    rw [← hdocuments.found, MetadataCache.getIndex, getDocument_eq_some_iff]
    simp only [index?_eq_some_iff]
  foundCentroids := fun _ _ => by
    rw [← hdocuments.found, MetadataCache.getIvfCentroids, getDocument_eq_some_iff]
    simp only [ivfCentroids?_eq_some_iff]
  noUnderflow := hsound.honest

namespace Coherent

theorem sound (hcoherent : Coherent usizeMax journal) : Sound usizeMax journal.cache :=
  ⟨hcoherent.orderKeys, hcoherent.resident, hcoherent.addressable, hcoherent.noUnderflow⟩

theorem within (hcoherent : Coherent usizeMax journal) : ¬ journal.cache.Over := by
  rintro (hentries | hbytes)
  · exact absurd hcoherent.withinEntries (Nat.not_le.mpr hentries)
  · exact absurd hcoherent.withinBytes (Nat.not_le.mpr hbytes)

theorem documents (hcoherent : Coherent usizeMax journal) : Documented journal := by
  rintro ⟨location, ⟨document, bytes⟩⟩ hentry
  cases document with
  | index metadata =>
      exact ((hcoherent.foundIndex location metadata).mp
        (getDocument_eq_some_iff.mpr ⟨_, hentry, rfl⟩)).2
  | ivfCentroids metadata =>
      exact ((hcoherent.foundCentroids location metadata).mp
        (getDocument_eq_some_iff.mpr ⟨_, hentry, rfl⟩)).2

end Coherent

theorem coherent_initial (config : MetadataCacheConfig) :
    Coherent usizeMax (Journal.initial config : Journal Index Centroids) := by
  apply coherent_of
  · exact ⟨List.Perm.refl _, rfl, Nat.zero_le _, fun _ hdebit => absurd hdebit List.not_mem_nil⟩
  · exact List.Pairwise.nil
  · exact fun hover => hover.elim (Nat.not_lt_zero _) (Nat.not_lt_zero _)
  · exact fun _ hpair => absurd hpair List.not_mem_nil

/-! ## Steps -/

section

variable (hcoherent : Coherent usizeMax journal)

include hcoherent

/-- A cached location moves to the end of the queue. -/
theorem Coherent.touch {location : String}
    (hcached : Cached journal.cache location) :
    Coherent usizeMax ⟨journal.cache.touch location, journal.uses ++ [location],
      journal.inserted⟩ := by
  have hsound := hcoherent.sound
  have hmem := hsound.cached_iff.mp hcached
  have hqueue : (journal.cache.order.erase location ++ [location]).Perm journal.cache.order :=
    (List.perm_append_singleton _ _).trans (List.perm_cons_erase hmem).symm
  apply coherent_of
  · exact ⟨hqueue.trans hsound.keys, hsound.resident, hsound.addressable, hsound.honest⟩
  · exact hcoherent.byRecency.touch hsound.nodup
  · exact hcoherent.within
  · exact hcoherent.documents

theorem Coherent.remove (location : String) :
    Coherent usizeMax { journal with cache := journal.cache.remove usizeMax location } := by
  have hsound := hcoherent.sound
  have hresident : journal.cache.residentBytes + 0 = documentBytes journal.cache :=
    hsound.resident
  have hless := (remove_behind hsound.addressable hresident (hsound.remove location).honest).2
  apply coherent_of
  · exact hsound.remove location
  · dsimp only
    rw [order_remove]
    exact hcoherent.byRecency.sublist List.erase_sublist
  · rintro (hentries | hbytes)
    · have hlength : (journal.cache.remove usizeMax location).entries.length ≤
          journal.cache.entries.length := by
        rw [LinkedMap.length, entries_remove]
        exact List.length_filter_le _ _
      rw [config_remove] at hentries
      exact absurd (Nat.le_trans hlength hcoherent.withinEntries) (Nat.not_le.mpr hentries)
    · rw [config_remove] at hbytes
      exact absurd (Nat.le_trans hless hcoherent.withinBytes) (Nat.not_le.mpr hbytes)
  · intro pair hpair
    exact hcoherent.documents pair (mem_entries_remove.mp hpair).1

theorem Coherent.setConfig (config : MetadataCacheConfig) :
    Coherent usizeMax { journal with cache := journal.cache.setConfig usizeMax config } := by
  obtain ⟨hsound, hwithin, hsubset, dropped, hdropped⟩ := hcoherent.sound.setConfig config
  apply coherent_of
  · exact hsound
  · have hrecency := hcoherent.byRecency
    rw [hdropped] at hrecency
    exact hrecency.sublist (List.sublist_append_right _ _)
  · exact hwithin
  · exact fun pair hpair => hcoherent.documents pair (hsubset hpair)

/-- The new document is the last one of its location, and the others keep theirs. -/
theorem Coherent.insert (location : String)
    (document : CachedDocument Index Centroids) {bytes : ℕ}
    (hcountable : Admits journal.cache.config bytes →
      (journal.cache.remove usizeMax location).residentBytes + bytes ≤ usizeMax) :
    Coherent usizeMax ⟨journal.cache.insert usizeMax location document bytes,
      journal.uses ++ [location], (location, document) :: journal.inserted⟩ := by
  have hremoved := hcoherent.remove location
  have hqueue : ByRecency (journal.uses ++ [location])
      ((journal.cache.remove usizeMax location).order ++ [location]) := by
    rw [order_remove]
    exact hcoherent.byRecency.touch hcoherent.orderNodup
  have hothers : ∀ pair ∈ (journal.cache.remove usizeMax location).entries.entries,
      (⟨journal.cache.insert usizeMax location document bytes, journal.uses ++ [location],
        (location, document) :: journal.inserted⟩ : Journal Index Centroids).lastInserted pair.1 =
          some pair.2.document := by
    intro pair hpair
    obtain ⟨hold, hne⟩ := mem_entries_remove.mp hpair
    rw [← hcoherent.documents pair hold, Journal.lastInserted, Journal.lastInserted,
      List.find?_cons_of_neg (by simpa using Ne.symm hne)]
  rcases insert_cases usizeMax journal.cache location document bytes with
    ⟨-, hinsert⟩ | ⟨hadmits, hinsert⟩
  · apply coherent_of
    · exact hinsert ▸ hremoved.sound
    · dsimp only
      rw [hinsert]
      exact hqueue.sublist (List.sublist_append_left _ _)
    · exact hinsert ▸ hremoved.within
    · intro pair hpair
      rw [hinsert] at hpair
      exact hothers pair hpair
  · obtain ⟨hsound, hwithin, -, hsubset, dropped, hdropped⟩ :=
      (hremoved.sound.push get?_remove_self document (hcountable hadmits)).enforceBounds
    rw [← hinsert] at hsound hwithin hsubset hdropped
    apply coherent_of
    · exact hsound
    · have hrecency : ByRecency (journal.uses ++ [location])
          (dropped ++ (journal.cache.insert usizeMax location document bytes).order) :=
        hdropped ▸ hqueue
      exact hrecency.sublist (List.sublist_append_right _ _)
    · exact hwithin
    · intro pair hpair
      rcases List.mem_cons.mp ((LinkedMap.perm_insert get?_remove_self).mem_iff.mp
        (hsubset hpair)) with rfl | hold
      · simp [Journal.lastInserted]
      · exact hothers pair hold

theorem Coherent.getDocument {Metadata : Type}
    {kind : CachedDocument Index Centroids → Option Metadata} (location : String) :
    Coherent usizeMax ⟨(journal.cache.getDocument kind location).2,
      journal.uses ++
        ((journal.cache.getDocument kind location).1.map fun _ => location).toList,
      journal.inserted⟩ := by
  cases hfound : (journal.cache.getDocument kind location).1 with
  | none =>
      rw [getDocument_of_none hfound, Option.map_none, Option.toList_none, List.append_nil]
      exact hcoherent
  | some metadata =>
      obtain ⟨entry, hentry, -⟩ := getDocument_eq_some_iff.mp hfound
      rw [getDocument_of_some hfound]
      exact hcoherent.touch (cached_iff.mpr ⟨entry, hentry⟩)

end

variable {action : Action Index Centroids}

section

variable (hcoherent : Coherent usizeMax journal)

include hcoherent

theorem Coherent.next (hcountable : Countable usizeMax journal.cache action) :
    Coherent usizeMax (journal.next usizeMax action) := by
  cases action with
  | getIndex location => exact hcoherent.getDocument location
  | getIvfCentroids location => exact hcoherent.getDocument location
  | insert location document bytes => exact hcoherent.insert location document hcountable
  | remove location =>
      have hnext : journal.next usizeMax (.remove location) =
          { journal with cache := journal.cache.remove usizeMax location } := by
        simp [Journal.next, perform, Action.used?]
      rw [hnext]
      exact hcoherent.remove location
  | setConfig config =>
      have hnext : journal.next usizeMax (.setConfig config) =
          { journal with cache := journal.cache.setConfig usizeMax config } := by
        simp [Journal.next, perform, Action.used?]
      rw [hnext]
      exact hcoherent.setConfig config

/-- The least recently used documents leave first, and a new one that fits stays. -/
theorem Coherent.evictsOldest (hcountable : Countable usizeMax journal.cache action) :
    EvictsOldest usizeMax journal action := by
  have hsound := hcoherent.sound
  have hafter := (hcoherent.next hcountable).sound
  constructor
  · intro evicted kept hother hcached hgone hkept
    have hentry := cached_iff.mp hcached
    have hqueued := hsound.cached_iff.mp hcached
    rw [hafter.cached_iff] at hgone hkept
    rw [← hafter.cached_iff, cached_iff] at hgone
    cases action with
    | getIndex location =>
        have hsame : (journal.next usizeMax (.getIndex location)).cache.entries =
            journal.cache.entries := entries_getDocument
        rw [hsame] at hgone
        exact absurd hentry hgone
    | getIvfCentroids location =>
        have hsame : (journal.next usizeMax (.getIvfCentroids location)).cache.entries =
            journal.cache.entries := entries_getDocument
        rw [hsame] at hgone
        exact absurd hentry hgone
    | remove location =>
        obtain ⟨entry, hentry⟩ := hentry
        refine absurd ⟨entry, mem_entries_remove.mpr ⟨hentry, ?_⟩⟩ hgone
        rintro rfl
        exact hother rfl
    | setConfig config =>
        obtain ⟨hconfigured, -, -, dropped, hdropped⟩ := hsound.setConfig config
        rw [← cached_iff, hafter.cached_iff] at hgone
        have huses : (journal.next usizeMax (.setConfig config)).uses = journal.uses :=
          List.append_nil _
        rw [huses]
        exact hcoherent.byRecency.before_of_dropped hdropped hqueued hgone hkept
    -- the new document is the last in the order, and what leaves is in front of the rest
    | insert location document bytes =>
        have hne : evicted ≠ location := by
          rintro rfl
          exact hother rfl
        rcases insert_cases usizeMax journal.cache location document bytes with
          ⟨-, hinsert⟩ | ⟨hadmits, hinsert⟩
        · obtain ⟨entry, hentry⟩ := hentry
          refine absurd ⟨entry, ?_⟩ hgone
          change _ ∈ (journal.cache.insert usizeMax location document bytes).entries.entries
          rw [hinsert]
          exact mem_entries_remove.mpr ⟨hentry, hne⟩
        · have hpushed := (hsound.remove location).push get?_remove_self document
            (hcountable hadmits)
          obtain ⟨-, -, -, -, dropped, hdropped⟩ := hpushed.enforceBounds
          rw [← hinsert] at hdropped
          rw [← cached_iff, hafter.cached_iff] at hgone
          have hrecency : ByRecency (journal.uses ++ [location])
              ((journal.cache.remove usizeMax location).push usizeMax location document
                bytes).order := by
            change ByRecency _ ((journal.cache.remove usizeMax location).order ++ [location])
            rw [order_remove]
            exact hcoherent.byRecency.touch hcoherent.orderNodup
          refine hrecency.before_of_dropped hdropped ?_ hgone hkept
          change evicted ∈ (journal.cache.remove usizeMax location).order ++ [location]
          rw [order_remove, hsound.nodup.erase_eq_filter]
          exact List.mem_append_left _ (List.mem_filter.mpr ⟨hqueued, by simpa using hne⟩)
  · rintro location document bytes rfl hadmits
    have hpushed := (hsound.remove location).push get?_remove_self document (hcountable hadmits)
    have hinsert : (journal.next usizeMax (.insert location document bytes)).cache =
        ((journal.cache.remove usizeMax location).push usizeMax location document
          bytes).enforceBounds usizeMax := by
      rcases insert_cases usizeMax journal.cache location document bytes with
        ⟨hrejects, -⟩ | ⟨-, hinsert⟩
      · exact absurd hadmits hrejects
      · exact hinsert
    rw [hinsert, LinkedMap.get?_eq_some_iff]
    apply mem_enforceRounds_of_last _ hpushed rfl
    · exact (LinkedMap.perm_insert get?_remove_self).mem_iff.mpr List.mem_cons_self
    · change Admits (journal.cache.remove usizeMax location).config bytes
      rwa [config_remove]

/-- An addition that wraps breaks the promises at once. -/
theorem Coherent.countable_of_next (hnext : Coherent usizeMax (journal.next usizeMax action)) :
    Countable usizeMax journal.cache action := by
  cases action with
  | insert location document bytes =>
      intro hadmits
      by_contra hwraps
      rcases insert_cases usizeMax journal.cache location document bytes with
        ⟨hrejects, -⟩ | ⟨-, hinsert⟩
      · exact hrejects hadmits
      · have hresident := hnext.resident
        have hhonest := hnext.sound.honest
        change (journal.cache.insert usizeMax location document bytes).residentBytes =
          documentBytes (journal.cache.insert usizeMax location document bytes) at hresident
        change Honest (journal.cache.insert usizeMax location document bytes) at hhonest
        rw [hinsert] at hresident hhonest
        exact (hcoherent.sound.remove location).residentBytes_ne_of_wrapped get?_remove_self
          document (Nat.not_le.mp hwraps) _ hhonest hresident
  | _ => trivial

/-- Up to half of the largest `usize` every budget is safe. -/
theorem Coherent.countable_of_budget
    (hbudget : 2 * journal.cache.config.maxBytes ≤ usizeMax) (action : Action Index Centroids) :
    Countable usizeMax journal.cache action := by
  cases action with
  | insert location document bytes =>
      intro hadmits
      have hwithin := (hcoherent.remove location).withinBytes
      change (journal.cache.remove usizeMax location).residentBytes ≤
        (journal.cache.remove usizeMax location).config.maxBytes at hwithin
      rw [config_remove] at hwithin
      rw [Admits] at hadmits
      omega
  | _ => trivial

end

end

/-! ## Every sequence of operations -/

/-- In every state the queue, the map and the counter agree, the limits hold, and what is found
was inserted last, and in every step the least recently used documents leave first, if and only
if the bytes of every document that is let in can be counted. -/
theorem metadata_cache_is_lru_iff (usizeMax : ℕ) (config : MetadataCacheConfig)
    (actions : List (Action Index Centroids)) :
    ((∀ journal ∈ statesOf (Journal.next usizeMax) (Journal.initial config) actions,
        Coherent usizeMax journal) ∧
      ∀ step ∈ stepsOf (Journal.next usizeMax) (Journal.initial config) actions,
        EvictsOldest usizeMax step.1 step.2) ↔
    ∀ step ∈ stepsOf (Journal.next usizeMax) (Journal.initial config) actions,
      Countable usizeMax step.1.cache step.2 := by
  have hback : ∀ (journal : Journal Index Centroids) (action : Action Index Centroids),
      Coherent usizeMax journal → Countable usizeMax journal.cache action →
      Coherent usizeMax (journal.next usizeMax action) :=
    fun journal action hcoherent hcountable => hcoherent.next hcountable
  have hforth : ∀ (journal : Journal Index Centroids) (action : Action Index Centroids),
      True → Coherent usizeMax journal → Coherent usizeMax (journal.next usizeMax action) →
      Countable usizeMax journal.cache action :=
    fun journal action _ hcoherent hnext => hcoherent.countable_of_next hnext
  constructor
  · rintro ⟨hstates, -⟩
    exact forall_mem_stepsOf hforth (fun _ _ => trivial) hstates
  · intro hsteps
    have hstates := forall_mem_statesOf hback (coherent_initial config) hsteps
    refine ⟨hstates, fun step hstep => ?_⟩
    exact (hstates step.1 (fst_mem_statesOf hstep)).evictsOldest (hsteps step hstep)

/-- Four documents that are a gibibyte long, mostly of white space.  They are read one after the
other, and each buffer is freed once its document is parsed. -/
def hugeDocuments : List (Action Unit Unit) :=
  ["a", "b", "c", "d"].map fun location => .insert location (.index ()) (2 ^ 30)

/-- On a 32-bit machine the counter is back at zero after the fourth document. -/
theorem wrapped_counter_exceeds_budget :
    ¬ ∀ (config : MetadataCacheConfig) (actions : List (Action Unit Unit)),
      ∀ journal ∈ statesOf (Journal.next (2 ^ 32 - 1)) (Journal.initial config) actions,
        journal.cache.residentBytes = documentBytes journal.cache ∧
          documentBytes journal.cache ≤ journal.cache.config.maxBytes := by
  intro hpromise
  have hlast := hpromise ⟨128, 2 ^ 32 - 1⟩ hugeDocuments _ foldl_mem_statesOf
  exact absurd hlast.1 (by decide)

end ParqDB.Cache.Metadata
