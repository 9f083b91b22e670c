import ParqDB.Browser.RangeBuffer

/-!
# What range reads keep

The invariant of the buffers that share a range cache, over every slice, every flush and every
order in which requests end and code goes on.

**Strategy.**  Which bytes are right for a range of an object is a parameter; it has to go with
slicing (`Sliceable`).  A promise is fulfilled once, with bytes right for its load or slice.  Code
that waits for a load knows where its range lies in the bytes of that load (`Wait.Fits`), for
its own load and for a covering entry alike.  Loads and slices keep what they asked for
(`Grows`), so that what was known stays true.
-/

namespace ParqDB.Browser

open Foundations

variable {right : String → ℕ → ℕ → Bytes → Prop} {system next : RangeReads}

/-! ## Bytes of bytes -/

variable {bytes : Bytes} {start : ℕ} {href : String}

theorem sliceBytes_sliceBytes {stop first last : ℕ} (hstart : first ≤ start) (hstop : stop ≤ last) :
    sliceBytes (sliceBytes bytes first last) (start - first) (stop - first) =
      sliceBytes bytes start stop := by
  unfold sliceBytes
  rw [List.drop_take, List.drop_drop, List.take_take]
  congr 1
  · omega
  · congr 1
    omega

/-- The bytes of a range of an object. -/
def Exact (content : String → Bytes) (href : String) (start stop : ℕ) (bytes : Bytes) : Prop :=
  bytes = sliceBytes (content href) start stop

/-- Slices of right bytes are right. -/
def Sliceable (right : String → ℕ → ℕ → Bytes → Prop) : Prop :=
  ∀ href first last start stop bytes, right href first last bytes → first ≤ start → stop ≤ last →
    right href start stop (sliceBytes bytes (start - first) (stop - first))

theorem sliceable_exact (content : String → Bytes) : Sliceable (Exact content) := by
  rintro href first last start stop bytes rfl hstart hstop
  exact sliceBytes_sliceBytes hstart hstop

/-! ## The invariant -/

/-- When its checks pass, `fetch` has returned the bytes that were requested. -/
def Honest (right : String → ℕ → ℕ → Bytes → Prop) (system : RangeReads) : ReadAction → Prop
  | .respond index (.response response) => ∀ load bytes, system.loads[index]? = some load →
      fetchSlice load response = .ok bytes → right load.object.href load.start load.stop bytes
  | _ => True

/-- A run of the buffers, over objects with some content. -/
abbrev Exchanges (content : String → Bytes) : RangeReads → List ReadAction → RangeReads → Prop :=
  Run fun before action after =>
    before.step action = some after ∧ Honest (Exact content) before action

/-- The read belongs to a slice of the object. -/
def AsksFor (system : RangeReads) (href : String) (read : PendingRange) : Prop :=
  ∃ slice, system.slices[read.slice]? = some slice ∧ slice.href = href ∧
    slice.start = read.start ∧ slice.stop = read.stop

/-- Where the range of a waiter lies in the bytes of its load. -/
def Waiter.Within (load : Load) : Waiter → Prop
  | .whole _ => True
  | .range start stop none _ => load.start = start ∧ load.stop = stop
  | .range start stop (some first) _ => load.start = first ∧ first ≤ start ∧ stop ≤ load.stop

/-- The slices that a waiter settles ask for parts of its range. -/
def Waiter.Asked (system : RangeReads) (load : Load) : Waiter → Prop
  | .whole slice => AsksFor system load.object.href ⟨slice, load.start, load.stop⟩
  | .range start stop _ reads => ∀ read ∈ reads, start ≤ read.start ∧ read.stop ≤ stop ∧
      AsksFor system load.object.href read

def Wait.Fits (system : RangeReads) (wait : Wait) : Prop :=
  ∃ load, system.loads[wait.load]? = some load ∧ wait.waiter.Within load ∧
    wait.waiter.Asked system load

/-- An entry of the cache is filled by the load it names, which the cache has not seen fail. -/
def CachedRange.Fits (system : RangeReads) (entry : CachedRange) : Prop :=
  ∃ load, system.loads[entry.load]? = some load ∧ load.key = entry.key ∧ load.cached = true ∧
    (entry.settled = false → load.recorded = false) ∧
    (load.recorded = true → ∃ bytes, load.promise = .fulfilled bytes)

structure Inv (right : String → ℕ → ℕ → Bytes → Prop) (system : RangeReads) : Prop where
  books : system.cache.Books
  entries : ∀ entry ∈ system.cache.ranges, entry.Fits system
  loads : ∀ load ∈ system.loads, ∀ bytes, load.promise = .fulfilled bytes →
    right load.object.href load.start load.stop bytes
  slices : ∀ slice ∈ system.slices, ∀ bytes, slice.promise = .fulfilled bytes →
    right slice.href slice.start slice.stop bytes
  waits : ∀ wait ∈ system.waits, wait.Fits system
  buffers : ∀ buffer ∈ system.buffers, ∀ read ∈ buffer.pending,
    read.stop - read.start ≤ buffer.maxRangeBytes ∧ AsksFor system buffer.object.href read

theorem Inv.new (capacityBytes : ℕ) : Inv right (RangeReads.new capacityBytes) where
  books := HttpRangeCache.Books.new capacityBytes
  entries := by simp [RangeReads.new, HttpRangeCache.new]
  loads := by simp [RangeReads.new]
  slices := by simp [RangeReads.new]
  waits := by simp [RangeReads.new]
  buffers := by simp [RangeReads.new]

/-! ## What stays true -/

/-- Slices and loads keep what they asked for. -/
structure Grows (system next : RangeReads) : Prop where
  slices : ∀ (index : ℕ) (slice : Slice), system.slices[index]? = some slice →
    ∃ later, next.slices[index]? = some later ∧ later.href = slice.href ∧
      later.start = slice.start ∧ later.stop = slice.stop
  loads : ∀ (index : ℕ) (load : Load), system.loads[index]? = some load →
    ∃ later, next.loads[index]? = some later ∧ later.key = load.key

theorem Grows.refl (system : RangeReads) : Grows system system :=
  ⟨fun _ slice hslice => ⟨slice, hslice, rfl, rfl, rfl⟩, fun _ load hload => ⟨load, hload, rfl⟩⟩

theorem Grows.asksFor (hgrows : Grows system next) {read : PendingRange}
    (hasks : AsksFor system href read) : AsksFor next href read := by
  obtain ⟨slice, hslice, hhref, hstart, hstop⟩ := hasks
  obtain ⟨later, hlater, hhref', hstart', hstop'⟩ := hgrows.slices _ _ hslice
  exact ⟨later, hlater, hhref'.trans hhref, hstart'.trans hstart, hstop'.trans hstop⟩

variable {load : Load} {waiter : Waiter} {index : ℕ} {reads : List PendingRange} {later : Load}

theorem Waiter.Asked.grows (hasked : waiter.Asked system load) (hgrows : Grows system next)
    (hkey : later.key = load.key) : waiter.Asked next later := by
  obtain ⟨hobject, hstart, hstop⟩ : later.object = load.object ∧ later.start = load.start ∧
      later.stop = load.stop := by simpa [Load.key] using hkey
  cases waiter with
  | whole slice =>
      unfold Waiter.Asked at hasked ⊢
      rw [hobject, hstart, hstop]
      exact hgrows.asksFor hasked
  | range start stop covering reads =>
      intro read hread
      obtain ⟨hfirst, hlast, hasks⟩ := hasked read hread
      rw [hobject]
      exact ⟨hfirst, hlast, hgrows.asksFor hasks⟩

theorem Waiter.Within.congr (hwithin : waiter.Within load) (hkey : later.key = load.key) :
    waiter.Within later := by
  obtain ⟨-, hstart, hstop⟩ : later.object = load.object ∧ later.start = load.start ∧
      later.stop = load.stop := by simpa [Load.key] using hkey
  cases waiter with
  | whole slice => trivial
  | range start stop covering reads =>
      cases covering <;> unfold Waiter.Within at hwithin ⊢ <;> rwa [hstart, hstop]

theorem Wait.Fits.grows {wait : Wait} (hfits : wait.Fits system) (hgrows : Grows system next) :
    wait.Fits next := by
  obtain ⟨load, hload, hwithin, hasked⟩ := hfits
  obtain ⟨later, hlater, hkey⟩ := hgrows.loads _ _ hload
  exact ⟨later, hlater, hwithin.congr hkey, hasked.grows hgrows hkey⟩

/-- Entries stay as long as the loads that fill them. -/
theorem CachedRange.Fits.congr {entry : CachedRange} (hfits : entry.Fits system)
    (hloads : ∀ (index : ℕ) (load : Load), system.loads[index]? = some load →
      ∃ later, next.loads[index]? = some later ∧ later.key = load.key ∧
        later.cached = load.cached ∧ later.recorded = load.recorded ∧
        (load.promise ≠ .pending → later.promise = load.promise)) : entry.Fits next := by
  obtain ⟨load, hload, hkey, hcached, hrecorded, hfulfilled⟩ := hfits
  obtain ⟨later, hlater, hkey', hcached', hrecorded', hpromise⟩ := hloads _ _ hload
  refine ⟨later, hlater, hkey'.trans hkey, hcached'.trans hcached, ?_, ?_⟩
  · rw [hrecorded']
    exact hrecorded
  · rw [hrecorded']
    intro hdone
    obtain ⟨bytes, hbytes⟩ := hfulfilled hdone
    exact ⟨bytes, (hpromise (by rw [hbytes]; simp)).trans hbytes⟩

theorem getElem?_append_some {α : Type*} {items more : List α} {item : α}
    (hitem : items[index]? = some item) : (items ++ more)[index]? = some item := by
  rw [List.getElem?_append_left (List.getElem?_eq_some_iff.mp hitem).1]
  exact hitem

/-! ## Settling slices -/

theorem settleSlice_cases (system : RangeReads) (slice : ℕ) (promise : Promise Bytes) :
    system.settleSlice slice promise = system ∨ ∃ found, system.slices[slice]? = some found ∧
      system.settleSlice slice promise =
        { system with slices := system.slices.set slice { found with promise := promise } } := by
  unfold RangeReads.settleSlice
  split
  · next found hfound => exact Or.inr ⟨found, hfound, rfl⟩
  · exact Or.inl rfl

theorem grows_settleSlice (system : RangeReads) (slice : ℕ) (promise : Promise Bytes) :
    Grows system (system.settleSlice slice promise) := by
  rcases settleSlice_cases system slice promise with hsame | ⟨found, hfound, hset⟩
  · rw [hsame]
    exact Grows.refl system
  · rw [hset]
    refine ⟨fun index other hother => ?_, fun _ load hload => ⟨load, hload, rfl⟩⟩
    by_cases heq : slice = index
    · subst heq
      obtain rfl := Option.some.inj (hfound.symm.trans hother)
      exact ⟨_, List.getElem?_set_self (List.getElem?_eq_some_iff.mp hfound).1, rfl, rfl, rfl⟩
    · exact ⟨other, by rw [List.getElem?_set_ne heq]; exact hother, rfl, rfl, rfl⟩

/-- A slice may be settled with the bytes it asked for, or with a failure. -/
theorem Inv.settleSlice (hinv : Inv right system) {promise : Promise Bytes}
    (hright : ∀ slice bytes, system.slices[index]? = some slice → promise = .fulfilled bytes →
      right slice.href slice.start slice.stop bytes) :
    Inv right (system.settleSlice index promise) := by
  have hgrows := grows_settleSlice system index promise
  rcases settleSlice_cases system index promise with hsame | ⟨found, hfound, hset⟩
  · rwa [hsame]
  · rw [hset] at hgrows ⊢
    refine ⟨hinv.books, ?_, hinv.loads, ?_, ?_, ?_⟩
    · intro entry hentry
      exact (hinv.entries entry hentry).congr fun _ load hload => ⟨load, hload, rfl, rfl, rfl, fun _ => rfl⟩
    · intro slice hslice bytes hbytes
      rcases List.mem_or_eq_of_mem_set hslice with hslice | rfl
      · exact hinv.slices slice hslice bytes hbytes
      · exact hright found bytes hfound hbytes
    · exact fun wait hwait => (hinv.waits wait hwait).grows hgrows
    · intro buffer hbuffer read hread
      obtain ⟨hlength, hasks⟩ := hinv.buffers buffer hbuffer read hread
      exact ⟨hlength, hgrows.asksFor hasks⟩

theorem Inv.settleReads (hinv : Inv right system) {promise : PendingRange → Promise Bytes}
    (hasks : ∀ read ∈ reads, AsksFor system href read)
    (hright : ∀ read ∈ reads, ∀ bytes, promise read = .fulfilled bytes →
      right href read.start read.stop bytes) : Inv right (system.settleReads reads promise) := by
  induction reads generalizing system with
  | nil => exact hinv
  | cons read reads ih =>
      rw [List.forall_mem_cons] at hasks hright
      rw [RangeReads.settleReads, List.foldl_cons]
      have hgrows := grows_settleSlice system read.slice (promise read)
      refine ih (hinv.settleSlice ?_) (fun other hother => hgrows.asksFor (hasks.2 other hother))
        hright.2
      intro slice bytes hslice hbytes
      obtain ⟨asked, hasked, rfl, hstart, hstop⟩ := hasks.1
      obtain rfl := Option.some.inj (hasked.symm.trans hslice)
      rw [hstart, hstop]
      exact hright.1 bytes hbytes

/-! ## Reads begin -/

theorem read_cases (cache : HttpRangeCache) (wanted : RangeKey) (load : ℕ) :
    (cache.read wanted load).2 = .direct ∨ (∃ covering, (cache.read wanted load).2 = .hit covering) ∨
      (cache.read wanted load).2 = .miss := by
  cases (cache.read wanted load).2 with
  | direct => exact Or.inl rfl
  | hit covering => exact Or.inr (Or.inl ⟨covering, rfl⟩)
  | miss => exact Or.inr (Or.inr rfl)

/-- A read that begins adds a wait, and a load unless it found an entry. -/
theorem Inv.begin (hinv : Inv right system) {cache : HttpRangeCache} {loads : List Load}
    {wait : Wait} (hbooks : cache.Books) (hpending : ∀ load ∈ loads, load.promise = .pending)
    (hentries : ∀ entry ∈ cache.ranges,
      entry.Fits { system with loads := system.loads ++ loads })
    (hwait : wait.Fits { system with loads := system.loads ++ loads }) :
    Inv right { system with
      cache := cache
      loads := system.loads ++ loads
      waits := system.waits ++ [wait] } := by
  have hgrows : Grows system { system with
      cache := cache
      loads := system.loads ++ loads
      waits := system.waits ++ [wait] } :=
    ⟨fun _ slice hslice => ⟨slice, hslice, rfl, rfl, rfl⟩,
      fun _ load hload => ⟨load, getElem?_append_some hload, rfl⟩⟩
  refine ⟨hbooks, hentries, ?_, hinv.slices, ?_, ?_⟩
  · intro load hload bytes hbytes
    rcases List.mem_append.mp hload with hload | hload
    · exact hinv.loads load hload bytes hbytes
    · rw [hpending load hload] at hbytes
      cases hbytes
  · intro other hother
    rcases List.mem_append.mp hother with hother | hother
    · exact (hinv.waits other hother).grows hgrows
    · rw [List.mem_singleton.mp hother]
      exact hwait
  · intro buffer hbuffer read hread
    obtain ⟨hlength, hasks⟩ := hinv.buffers buffer hbuffer read hread
    exact ⟨hlength, hgrows.asksFor hasks⟩

variable {buffer : HttpRangeBuffer}

theorem Inv.startRange (hinv : Inv right system) {range : CoalescedRange}
    (hreads : ∀ read ∈ range.reads, range.start ≤ read.start ∧ read.stop ≤ range.stop ∧
      AsksFor system buffer.object.href read) :
    Inv right (RangeReads.startRange buffer system range) := by
  obtain ⟨hbooks, -, hentries, hcovering⟩ := hinv.books.read
    ⟨buffer.object, range.start, range.stop⟩ system.loads.length
  -- entries that were there before keep their loads
  have hold : ∀ {entry before : CachedRange} {clock : ℕ} {loads : List Load},
      before ∈ system.cache.ranges → entry = { before with lastUsed := clock } →
      entry.Fits { system with loads := system.loads ++ loads } := by
    rintro entry before clock loads hbefore rfl
    obtain ⟨load, hload, hrest⟩ := hinv.entries before hbefore
    exact ⟨load, getElem?_append_some hload, hrest⟩
  have hnew : ∀ {load : Load}, (system.loads ++ [load])[system.loads.length]? = some load :=
    List.getElem?_concat_length
  unfold RangeReads.startRange
  dsimp only
  rcases read_cases system.cache ⟨buffer.object, range.start, range.stop⟩ system.loads.length with
    hread | ⟨covering, hread⟩ | hread
  · rw [hread]
    refine hinv.begin hbooks (by simp [HttpRangeBuffer.load]) ?_ ⟨_, hnew, ⟨rfl, rfl⟩, hreads⟩
    intro entry hentry
    rcases hentries entry hentry with ⟨before, hbefore, clock, heq⟩ | ⟨hmiss, -⟩
    · exact hold hbefore heq
    · rw [hread] at hmiss
      cases hmiss
  · rw [hread]
    obtain ⟨hmem, hcovers⟩ := hcovering covering hread
    obtain ⟨load, hload, hkey, -⟩ := hinv.entries covering hmem
    rw [HttpRangeCache.covers_iff] at hcovers
    obtain ⟨hobject, hstart, hstop⟩ : load.object = covering.object ∧
        load.start = covering.start ∧ load.stop = covering.stop := by
      simpa [Load.key, CachedRange.key] using hkey
    have hbegun := @Inv.begin right system hinv _ []
      ⟨covering.load, .range range.start range.stop (some covering.start) range.reads, false⟩ hbooks
      (by simp) (fun entry hentry => ?_) ⟨load, by simpa using hload, ?_, ?_⟩
    · simpa using hbegun
    · rcases hentries entry hentry with ⟨before, hbefore, clock, heq⟩ | ⟨hmiss, -⟩
      · exact hold hbefore heq
      · rw [hread] at hmiss
        cases hmiss
    · exact ⟨hstart, hcovers.2.1, hstop ▸ hcovers.2.2⟩
    · intro read hmem'
      rw [hobject, hcovers.1]
      exact hreads read hmem'
  · rw [hread]
    refine hinv.begin hbooks (by simp [HttpRangeBuffer.load]) ?_ ⟨_, hnew, ⟨rfl, rfl⟩, hreads⟩
    intro entry hentry
    rcases hentries entry hentry with ⟨before, hbefore, clock, heq⟩ | ⟨-, hkey, hload, -⟩
    · exact hold hbefore heq
    · rw [CachedRange.Fits, hload]
      exact ⟨_, hnew, hkey.symm, rfl, fun _ => rfl, fun hdone => by cases hdone⟩

theorem grows_startRange (buffer : HttpRangeBuffer) (system : RangeReads)
    (range : CoalescedRange) : Grows system (RangeReads.startRange buffer system range) := by
  unfold RangeReads.startRange
  dsimp only
  split
  · exact ⟨fun _ slice hslice => ⟨slice, hslice, rfl, rfl, rfl⟩,
      fun _ load hload => ⟨load, hload, rfl⟩⟩
  · exact ⟨fun _ slice hslice => ⟨slice, hslice, rfl, rfl, rfl⟩,
      fun _ load hload => ⟨load, getElem?_append_some hload, rfl⟩⟩
  · exact ⟨fun _ slice hslice => ⟨slice, hslice, rfl, rfl, rfl⟩,
      fun _ load hload => ⟨load, getElem?_append_some hload, rfl⟩⟩

theorem Inv.startRanges (hinv : Inv right system) {ranges : List CoalescedRange}
    (hreads : ∀ range ∈ ranges, ∀ read ∈ range.reads, range.start ≤ read.start ∧
      read.stop ≤ range.stop ∧ AsksFor system buffer.object.href read) :
    Inv right (ranges.foldl (RangeReads.startRange buffer) system) := by
  induction ranges generalizing system with
  | nil => exact hinv
  | cons range ranges ih =>
      rw [List.forall_mem_cons] at hreads
      refine ih (hinv.startRange hreads.1) fun other hother read hread => ?_
      obtain ⟨hfirst, hlast, hasks⟩ := hreads.2 other hother read hread
      exact ⟨hfirst, hlast, (grows_startRange buffer system range).asksFor hasks⟩

/-! ## Flushes -/

/-- A change of one buffer. -/
theorem Inv.setBuffer (hinv : Inv right system)
    (hpending : ∀ read ∈ buffer.pending, read.stop - read.start ≤ buffer.maxRangeBytes ∧
      AsksFor system buffer.object.href read) :
    Inv right { system with buffers := system.buffers.set index buffer } where
  books := hinv.books
  entries := fun entry hentry => (hinv.entries entry hentry).congr
    fun _ load hload => ⟨load, hload, rfl, rfl, rfl, fun _ => rfl⟩
  loads := hinv.loads
  slices := hinv.slices
  waits := fun wait hwait => (hinv.waits wait hwait).grows
    ⟨fun _ slice hslice => ⟨slice, hslice, rfl, rfl, rfl⟩, fun _ load hload => ⟨load, hload, rfl⟩⟩
  buffers := by
    intro other hother
    rcases List.mem_or_eq_of_mem_set hother with hother | rfl
    · exact hinv.buffers other hother
    · exact hpending

/-- The reads of a flush go to ranges that cover them. -/
theorem Inv.flush (hinv : Inv right system) (hbuffer : system.buffers[index]? = some buffer) :
    Inv right (system.flush index buffer) := by
  have hpending := hinv.buffers buffer (List.mem_of_getElem? hbuffer)
  have hcleared : Inv right { system with buffers := system.buffers.set index { buffer with
      pending := []
      flushScheduled := false } } := hinv.setBuffer (by simp)
  unfold RangeReads.flush
  dsimp only
  split
  · have hasks : ∀ read ∈ buffer.pending, AsksFor { system with
        buffers := system.buffers.set index { buffer with
          pending := []
          flushScheduled := false } } buffer.object.href read :=
      fun read hread => (hpending read hread).2
    exact hcleared.settleReads hasks fun _ _ _ hbytes => by cases hbytes
  · next gapLimit _ =>
      refine hcleared.startRanges fun range hrange read hread => ?_
      have hbounded := coalesce_bounded (fun read hread => (hpending read hread).1) range hrange
      obtain ⟨hfirst, hlast⟩ := hbounded.covers read hread
      have hmem : read ∈ buffer.pending := (coalesce_perm buffer.pending).mem_iff.mp
        (List.mem_flatMap.mpr ⟨range, hrange, hread⟩)
      exact ⟨hfirst, hlast, (hpending read hmem).2⟩

/-! ## Slices -/

/-- A new slice, and what comes with it. -/
theorem Inv.addSlice (hinv : Inv right system) {slice : Slice}
    (hpromise : ∀ bytes, slice.promise ≠ .fulfilled bytes) :
    Inv right { system with slices := system.slices ++ [slice] } := by
  have hgrows : Grows system { system with slices := system.slices ++ [slice] } :=
    ⟨fun _ other hother => ⟨other, getElem?_append_some hother, rfl, rfl, rfl⟩,
      fun _ load hload => ⟨load, hload, rfl⟩⟩
  refine ⟨hinv.books, ?_, hinv.loads, ?_, ?_, ?_⟩
  · exact fun entry hentry => (hinv.entries entry hentry).congr
      fun _ load hload => ⟨load, hload, rfl, rfl, rfl, fun _ => rfl⟩
  · intro other hother bytes hbytes
    rcases List.mem_append.mp hother with hother | hother
    · exact hinv.slices other hother bytes hbytes
    · rw [List.mem_singleton.mp hother] at hbytes
      exact absurd hbytes (hpromise bytes)
  · exact fun wait hwait => (hinv.waits wait hwait).grows hgrows
  · intro buffer hbuffer read hread
    obtain ⟨hlength, hasks⟩ := hinv.buffers buffer hbuffer read hread
    exact ⟨hlength, hgrows.asksFor hasks⟩

theorem Inv.slice (hinv : Inv right system) (hbuffer : system.buffers[index]? = some buffer)
    (start stop : ℤ) : Inv right (system.slice index buffer start stop) := by
  have hpending := hinv.buffers buffer (List.mem_of_getElem? hbuffer)
  have hnew : ∀ {slice : Slice}, (system.slices ++ [slice])[system.slices.length]? = some slice :=
    List.getElem?_concat_length
  unfold RangeReads.slice
  dsimp only
  split
  · exact hinv.addSlice (by simp)
  · next hvalid =>
      split
      · next hwhole =>
          obtain ⟨rfl, rfl⟩ := hwhole
          have hadded : Inv right { system with slices := system.slices ++
              [⟨buffer.object.href, (0 : ℤ).toNat, (buffer.object.size : ℤ).toNat, .pending⟩] } :=
            hinv.addSlice (by simp)
          refine hadded.begin hadded.books (by simp [HttpRangeBuffer.load]) ?_ ⟨_,
            List.getElem?_concat_length, trivial, _, hnew, rfl, rfl, rfl⟩
          intro entry hentry
          obtain ⟨load, hload, hrest⟩ := hadded.entries entry hentry
          exact ⟨load, getElem?_append_some hload, hrest⟩
      · split
        · exact hinv.addSlice (by simp)
        · next hlength =>
            have hadded : Inv right { system with slices := system.slices ++
                [⟨buffer.object.href, start.toNat, stop.toNat, .pending⟩] } :=
              hinv.addSlice (by simp)
            refine hadded.setBuffer fun read hread => ?_
            rcases List.mem_append.mp hread with hread | hread
            · exact (hadded.buffers buffer (List.mem_of_getElem? hbuffer) read hread)
            · rw [List.mem_singleton.mp hread]
              refine ⟨?_, _, hnew, rfl, rfl, rfl⟩
              dsimp only
              omega

/-! ## Requests end, and code goes on -/

theorem Inv.respond (hinv : Inv right system) {reply : Reply}
    (hload : system.loads[index]? = some load) (hpending : load.promise = .pending)
    (hhonest : Honest right system (.respond index reply)) :
    Inv right { system with
      loads := system.loads.set index { load with promise := RangeReads.replied load reply } } := by
  have hloads : ∀ (other : ℕ) (found : Load), system.loads[other]? = some found →
      ∃ later, (system.loads.set index
        { load with promise := RangeReads.replied load reply })[other]? = some later ∧
        later.key = found.key ∧ later.cached = found.cached ∧ later.recorded = found.recorded ∧
        (found.promise ≠ .pending → later.promise = found.promise) := by
    intro other found hfound
    by_cases heq : index = other
    · subst heq
      obtain rfl := Option.some.inj (hload.symm.trans hfound)
      exact ⟨_, List.getElem?_set_self (List.getElem?_eq_some_iff.mp hload).1, rfl, rfl, rfl,
        fun hsettled => absurd hpending hsettled⟩
    · exact ⟨found, by rw [List.getElem?_set_ne heq]; exact hfound, rfl, rfl, rfl, fun _ => rfl⟩
  have hgrows : Grows system { system with
      loads := system.loads.set index { load with promise := RangeReads.replied load reply } } := by
    refine ⟨fun _ slice hslice => ⟨slice, hslice, rfl, rfl, rfl⟩, fun other found hfound => ?_⟩
    obtain ⟨later, hlater, hkey, -⟩ := hloads other found hfound
    exact ⟨later, hlater, hkey⟩
  refine ⟨hinv.books, fun entry hentry => (hinv.entries entry hentry).congr hloads, ?_,
    hinv.slices, fun wait hwait => (hinv.waits wait hwait).grows hgrows, ?_⟩
  · intro other hother bytes hbytes
    rcases List.mem_or_eq_of_mem_set hother with hother | rfl
    · exact hinv.loads other hother bytes hbytes
    · cases reply with
      | rejected failure => cases hbytes
      | response response =>
          dsimp only [RangeReads.replied] at hbytes
          split at hbytes
          · next found hfound =>
              cases hbytes
              exact hhonest load _ hload hfound
          · cases hbytes
  · intro buffer hbuffer read hread
    obtain ⟨hlength, hasks⟩ := hinv.buffers buffer hbuffer read hread
    exact ⟨hlength, hgrows.asksFor hasks⟩

theorem mem_of_set {α : Type*} {items : List α} {item changed : α}
    (hitem : items[index]? = some item) (other : ℕ) :
    (items.set index changed)[other]? = if index = other then some changed else items[other]? := by
  by_cases heq : index = other
  · subst heq
    rw [if_pos rfl, List.getElem?_set_self (List.getElem?_eq_some_iff.mp hitem).1]
  · rw [if_neg heq, List.getElem?_set_ne heq]

/-- The cache deals with a load that has completed. -/
theorem Inv.record (hinv : Inv right system) {cache : HttpRangeCache}
    (hload : system.loads[index]? = some load)
    (hrecord : RangeReads.recordLoad system.cache index load = some cache) :
    Inv right { system with
      cache := cache
      loads := system.loads.set index { load with recorded := true } } := by
  have hgrows : Grows system { system with
      cache := cache
      loads := system.loads.set index { load with recorded := true } } := by
    refine ⟨fun _ slice hslice => ⟨slice, hslice, rfl, rfl, rfl⟩, fun other found hfound => ?_⟩
    show ∃ later, (system.loads.set index _)[other]? = some later ∧ _
    rw [mem_of_set hload]
    split
    · next heq =>
        subst heq
        obtain rfl := Option.some.inj (hload.symm.trans hfound)
        exact ⟨_, rfl, rfl⟩
    · exact ⟨found, hfound, rfl⟩
  -- an entry of another load keeps it; the entry of this load is settled or gone
  have hfits : ∀ {entry before : CachedRange}, before ∈ system.cache.ranges →
      entry.key = before.key → entry.load = before.load →
      (entry.settled = false → before.settled = false) →
      (entry.key = load.key → entry.load = index → entry.settled = true ∧
        ∃ bytes, load.promise = .fulfilled bytes) →
      entry.Fits { system with
        cache := cache
        loads := system.loads.set index { load with recorded := true } } := by
    intro entry before hbefore hkey heq hsettled hthis
    obtain ⟨found, hfound, hkey', hcached, hrecorded, hdone⟩ := hinv.entries before hbefore
    unfold CachedRange.Fits
    rw [heq]
    show ∃ later, (system.loads.set index _)[before.load]? = some later ∧ _
    rw [mem_of_set hload]
    split
    · next hindex =>
        subst hindex
        obtain rfl := Option.some.inj (hload.symm.trans hfound)
        obtain ⟨hnow, hfulfilled⟩ := hthis (hkey.trans hkey'.symm) heq
        refine ⟨_, rfl, hkey'.trans hkey.symm, hcached, fun hunsettled => ?_, fun _ => hfulfilled⟩
        rw [hnow] at hunsettled
        cases hunsettled
    · exact ⟨found, hfound, hkey'.trans hkey.symm, hcached,
        fun hunsettled => hrecorded (hsettled hunsettled), hdone⟩
  have hcache : cache.Books ∧ ∀ entry ∈ cache.ranges, entry.Fits { system with
      cache := cache
      loads := system.loads.set index { load with recorded := true } } := by
    unfold RangeReads.recordLoad at hrecord
    split at hrecord
    · cases hrecord
    · next bytes hbytes =>
        cases hrecord
        obtain ⟨hbooks, -, hentries⟩ := hinv.books.settle load.key index
        refine ⟨hbooks, fun entry hentry => ?_⟩
        obtain ⟨⟨before, hbefore, hcases⟩, hthis⟩ := hentries entry hentry
        have hboth : entry.key = load.key → entry.load = index → entry.settled = true ∧
            ∃ bytes, load.promise = .fulfilled bytes :=
          fun hkey heq => ⟨hthis hkey heq, bytes, hbytes⟩
        rcases hcases with rfl | ⟨-, rfl⟩
        · exact hfits hbefore rfl rfl (fun hunsettled => hunsettled) hboth
        · exact hfits hbefore rfl rfl (fun hunsettled => by cases hunsettled) hboth
    · cases hrecord
      refine ⟨hinv.books.remove load.key index, fun entry hentry => ?_⟩
      obtain ⟨hbefore, hother⟩ := hinv.books.remove_spec load.key index entry hentry
      exact hfits hbefore rfl rfl (fun hunsettled => hunsettled)
        fun hkey heq => absurd heq (hother hkey)
  refine ⟨hcache.1, hcache.2, ?_, hinv.slices,
    fun wait hwait => (hinv.waits wait hwait).grows hgrows, ?_⟩
  · intro other hother bytes hbytes
    rcases List.mem_or_eq_of_mem_set hother with hother | rfl
    · exact hinv.loads other hother bytes hbytes
    · exact hinv.loads load (List.mem_of_getElem? hload) bytes hbytes
  · intro buffer hbuffer read hread
    obtain ⟨hlength, hasks⟩ := hinv.buffers buffer hbuffer read hread
    exact ⟨hlength, hgrows.asksFor hasks⟩

/-- For a hit, the range is cut out of the bytes of the covering load. -/
theorem Waiter.Within.coveredBytes (hsliceable : Sliceable right) {stop : ℕ} {covering : Option ℕ}
    (hwithin : (Waiter.range start stop covering reads).Within load)
    (hbytes : right load.object.href load.start load.stop bytes) :
    right load.object.href start stop (RangeReads.coveredBytes bytes start stop covering) := by
  cases covering with
  | none =>
      obtain ⟨rfl, rfl⟩ := hwithin
      exact hbytes
  | some first =>
      obtain ⟨rfl, hstart, hstop⟩ := hwithin
      exact hsliceable _ _ _ _ _ _ hbytes hstart hstop

/-- Code goes on with the bytes of its load. -/
theorem Inv.resume (hsliceable : Sliceable right) (hinv : Inv right system)
    (hload : load ∈ system.loads) (hwithin : waiter.Within load) (hasked : waiter.Asked system load)
    (hresume : system.resume load waiter = some next) : Inv right next := by
  have hbytes := hinv.loads load hload
  cases waiter with
  | whole slice =>
      obtain ⟨found, hfound, hhref, hstart, hstop⟩ := hasked
      dsimp only at hhref hstart hstop
      simp only [RangeReads.resume] at hresume
      split at hresume
      · cases hresume
      · cases hresume
        refine hinv.settleSlice fun other bytes hother hfulfilled => ?_
        obtain rfl := Option.some.inj (hfound.symm.trans hother)
        rw [hhref, hstart, hstop]
        exact hbytes bytes hfulfilled
  | range start stop covering reads =>
      simp only [RangeReads.resume] at hresume
      split at hresume
      · cases hresume
      · cases hresume
        exact hinv.settleReads (fun read hread => (hasked read hread).2.2)
          fun _ _ _ hfulfilled => by cases hfulfilled
      · next bytes hpromise =>
          cases hresume
          have hrange := hwithin.coveredBytes hsliceable (hbytes bytes hpromise)
          refine hinv.settleReads (fun read hread => (hasked read hread).2.2) ?_
          intro read hread found hfound
          obtain ⟨hfirst, hlast, -⟩ := hasked read hread
          cases hfound
          exact hsliceable _ _ _ _ _ _ hrange hfirst hlast

/-! ## All actions -/

theorem Inv.step (hsliceable : Sliceable right) (hinv : Inv right system) {action : ReadAction}
    (hstep : system.step action = some next) (hhonest : Honest right system action) :
    Inv right next := by
  cases action with
  | create buffer =>
      simp only [RangeReads.step, Option.ite_none_right_eq_some, Option.some.injEq] at hstep
      obtain ⟨⟨-, -, hpending, -⟩, rfl⟩ := hstep
      refine ⟨hinv.books, hinv.entries, hinv.loads, hinv.slices, hinv.waits, ?_⟩
      intro other hother read hread
      rcases List.mem_append.mp hother with hother | hother
      · exact hinv.buffers other hother read hread
      · rw [List.mem_singleton.mp hother, hpending] at hread
        cases hread
  | slice index start stop =>
      simp only [RangeReads.step] at hstep
      split at hstep
      · next buffer hbuffer =>
          cases hstep
          exact hinv.slice hbuffer start stop
      · cases hstep
  | flush index =>
      simp only [RangeReads.step] at hstep
      split at hstep
      · next buffer hbuffer =>
          split at hstep
          · cases hstep
            exact hinv.flush hbuffer
          · cases hstep
      · cases hstep
  | respond index reply =>
      simp only [RangeReads.step] at hstep
      split at hstep
      · next load hload =>
          split at hstep
          · next hpending =>
              cases hstep
              exact hinv.respond hload hpending hhonest
          · cases hstep
      · cases hstep
  | record index =>
      simp only [RangeReads.step] at hstep
      split at hstep
      · next load hload =>
          split at hstep
          · obtain ⟨cache, hcache, rfl⟩ := Option.map_eq_some_iff.mp hstep
            exact hinv.record hload hcache
          · cases hstep
      · cases hstep
  | resume index =>
      simp only [RangeReads.step] at hstep
      split at hstep
      · next wait hwait =>
          split at hstep
          · cases hstep
          · split at hstep
            · next load hload =>
                obtain ⟨found, hfound, hwithin, hasked⟩ :=
                  hinv.waits wait (List.mem_of_getElem? hwait)
                obtain rfl := Option.some.inj (hload.symm.trans hfound)
                have hmarked : Inv right { system with
                    waits := system.waits.set index { wait with resumed := true } } := by
                  refine ⟨hinv.books, hinv.entries, hinv.loads, hinv.slices, ?_, hinv.buffers⟩
                  intro other hother
                  rcases List.mem_or_eq_of_mem_set hother with hother | rfl
                  · exact hinv.waits other hother
                  · exact ⟨load, hload, hwithin, hasked⟩
                exact Inv.resume hsliceable hmarked (List.mem_of_getElem? hload) hwithin hasked hstep
            · cases hstep
      · cases hstep

/-- The invariant holds in every reachable system. -/
theorem inv_of_exchanges {content : String → Bytes} {capacityBytes : ℕ}
    {actions : List ReadAction}
    (hsteps : Exchanges content (RangeReads.new capacityBytes) actions system) :
    Inv (Exact content) system :=
  Run.invariant (fun _ _ _ hinv hstep => hinv.step (sliceable_exact content) hstep.1 hstep.2)
    (Inv.new capacityBytes) hsteps

/-!
## Exact range reads

**Results.**  `range_reads_exact`: in every reachable system each slice that is fulfilled has
the bytes it asked for, the reads that wait for a flush go to ranges within the limits, and the
books of the cache are right.  `twoSlices` is a run in which one range serves two slices.
-/

open HttpRangeCache

variable {content : String → Bytes}

/-- Slices are exact, ranges are within their limits, and the cache keeps its books, over every
run of any number of buffers that share one cache. -/
theorem range_reads_exact {capacityBytes : ℕ} {actions : List ReadAction} {system : RangeReads}
    (hsteps : Exchanges content (RangeReads.new capacityBytes) actions system) :
    (∀ slice ∈ system.slices, ∀ bytes, slice.promise = .fulfilled bytes →
      bytes = sliceBytes (content slice.href) slice.start slice.stop) ∧
    (∀ buffer ∈ system.buffers, ∀ gapLimit, buffer.gapLimit = some gapLimit →
      ((coalesce buffer.maxRangeBytes gapLimit buffer.pending).flatMap CoalescedRange.reads).Perm
        buffer.pending ∧
      ∀ range ∈ coalesce buffer.maxRangeBytes gapLimit buffer.pending,
        range.Bounded buffer.maxRangeBytes gapLimit) ∧
    system.cache.sizeBytes = total system.cache.ranges ∧
    settledTotal system.cache.ranges ≤ system.cache.capacityBytes ∧
    ((∀ load ∈ system.loads, load.cached = true → load.recorded = true) →
      system.cache.sizeBytes ≤ system.cache.capacityBytes) := by
  have hinv := inv_of_exchanges hsteps
  refine ⟨hinv.slices, ?_, hinv.books.size, hinv.books.settled, ?_⟩
  · intro buffer hbuffer gapLimit _
    exact ⟨coalesce_perm buffer.pending,
      coalesce_bounded fun read hread => (hinv.buffers buffer hbuffer read hread).1⟩
  · intro hrecorded
    refine hinv.books.size_le fun entry hentry => ?_
    -- an entry that is not settled has a load that is not recorded
    obtain ⟨load, hload, -, hcached, hunsettled, -⟩ := hinv.entries entry hentry
    rw [← Bool.not_eq_false]
    intro hsettled
    rw [hrecorded load (List.mem_of_getElem? hload) hcached] at hunsettled
    exact absurd (hunsettled hsettled) (by simp)

/-- A buffer over four bytes. -/
def smallBuffer : HttpRangeBuffer where
  object := ⟨"https://host/object", 4⟩
  allowHttp := false
  signal := none
  maxRangeBytes := 4
  maxRangeGapBytes := 1
  pending := []
  flushScheduled := false

/-- Two slices that overlap are fetched as one range. -/
def twoSlices : List ReadAction :=
  [.create smallBuffer, .slice 0 0 2, .slice 0 1 3, .flush 0,
    .respond 0 (.response ⟨some "https:", 206, some "bytes 0-2/4", .ok [10, 20, 30]⟩),
    .record 0, .resume 0]

/-- The buffers after that run. -/
def twoSlicesRead : RangeReads :=
  (twoSlices.foldlM RangeReads.step (RangeReads.new 8)).getD (RangeReads.new 8)

theorem twoSlices_exact :
    Exchanges (fun _ => [10, 20, 30, 40]) (RangeReads.new 8) twoSlices twoSlicesRead ∧
      twoSlicesRead.slices.map Slice.promise = [.fulfilled [10, 20], .fulfilled [20, 30]] ∧
      twoSlicesRead.cache.sizeBytes ≤ twoSlicesRead.cache.capacityBytes := by
  have hsteps : Exchanges (fun _ => [10, 20, 30, 40]) (RangeReads.new 8) twoSlices
      twoSlicesRead := by
    refine ⟨_, ⟨rfl, trivial⟩, _, ⟨rfl, trivial⟩, _, ⟨rfl, trivial⟩, _, ⟨rfl, trivial⟩, _,
      ⟨rfl, ?_⟩, _, ⟨rfl, trivial⟩, _, ⟨rfl, trivial⟩, rfl⟩
    rintro load bytes ⟨⟩ hbytes
    exact (Except.ok.inj hbytes).symm
  refine ⟨hsteps, rfl, (range_reads_exact hsteps).2.2.2.2 ?_⟩
  intro load hload _
  rw [List.mem_singleton.mp hload]

end ParqDB.Browser
