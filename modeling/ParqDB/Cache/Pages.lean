import ParqDB.Foundations.LinkedMap
import ParqDB.Foundations.Runs

/-!
# The cache of decompressed pages

`parquet/page_cache.rs`: pages under a byte capacity, with the bytes of the entries
(`residentBytes`, under the lock) and of all page buffers that are still referenced
(`liveBytes`, an atomic that the destructor of a buffer decreases).

A page that the cache made has a number, and counts of the `Arc`s and of the handles on its
buffer that are outside the cache; what was never admitted is not counted anywhere.  The
loops of `insert` and `set_capacity` hold the lock, but references are dropped meanwhile: one
`advance` is what the holder of the lock does between two looks at shared counters.
-/

namespace ParqDB.Cache.Pages

open Foundations

variable {Key : Type}

/-! ## State -/

/-- A page that the cache made. -/
structure TrackedPage where
  charge : ℕ
  /-- The `Arc`s of the page outside the cache. -/
  outside : ℕ
  /-- The handles on its buffer outside the page. -/
  slices : ℕ
deriving DecidableEq

structure CacheEntry where
  page : ℕ
  charge : ℕ
deriving DecidableEq

/-- What evictions are made for. -/
inductive Purpose (Key : Type)
  | insert (key : Key) (charge : ℕ)
  | setCapacity
deriving DecidableEq

/-- Where the holder of the lock stands. -/
inductive Lock (Key : Type)
  | free
  /-- Compares the live bytes with the capacity. -/
  | check (purpose : Purpose Key) (capacity : ℕ)
  /-- Looks for an entry that is not pinned. -/
  | scan (purpose : Purpose Key) (capacity rounds : ℕ)
  /-- Has found room. -/
  | admitPage (key : Key) (charge : ℕ)
deriving DecidableEq

structure PageCache (Key : Type) where
  capacity : ℕ
  entries : LinkedMap Key CacheEntry
  residentBytes : ℕ
  liveBytes : ℕ
  pages : List TrackedPage
  lock : Lock Key

/-- The largest `usize`, and the sizes of the records of a page. -/
structure Layout where
  usizeMax : ℕ
  cachedPageSize : ℕ
  pageKeySize : ℕ

namespace Layout

variable (layout : Layout)

def saturatingAdd (left right : ℕ) : ℕ := min (left + right) layout.usizeMax

def wrappingAdd (left right : ℕ) : ℕ := (left + right) % (layout.usizeMax + 1)

def wrappingSub (left right : ℕ) : ℕ := (left + (layout.usizeMax + 1 - right)) % (layout.usizeMax + 1)

/-- The charge of a page with a buffer of that length. -/
def charge (length : ℕ) : ℕ :=
  layout.saturatingAdd (layout.saturatingAdd length layout.cachedPageSize) layout.pageKeySize

end Layout

/-! ## References -/

namespace PageCache

def new (capacity : ℕ) : PageCache Key := ⟨capacity, .empty, 0, 0, [], .free⟩

/-- The page is in an entry. -/
def cached (cache : PageCache Key) (page : ℕ) : Bool :=
  cache.entries.entries.any fun pair => pair.2.page == page

def outside (cache : PageCache Key) (page : ℕ) : ℕ :=
  cache.pages[page]?.elim 0 TrackedPage.outside

def slices (cache : PageCache Key) (page : ℕ) : ℕ :=
  cache.pages[page]?.elim 0 TrackedPage.slices

/-- `Arc::strong_count`; the `Arc` of an entry counts. -/
def strongCount (cache : PageCache Key) (page : ℕ) : ℕ :=
  cache.outside page + if cache.cached page then 1 else 0

/-- The buffer of the page is still referenced. -/
def bufferAlive (cache : PageCache Key) (page : ℕ) : Bool :=
  0 < cache.strongCount page || 0 < cache.slices page

def updatePage (cache : PageCache Key) (page : ℕ) (change : TrackedPage → TrackedPage) :
    PageCache Key :=
  { cache with pages := cache.pages.modify page change }

/-- `Arc::clone` of a page. -/
def clonePage (cache : PageCache Key) (page : ℕ) : PageCache Key :=
  cache.updatePage page fun record => { record with outside := record.outside + 1 }

/-- After the loss of a reference: the destructor of the buffer runs when it was the last. -/
def dropBuffer (layout : Layout) (cache : PageCache Key) (page : ℕ) : PageCache Key :=
  if cache.bufferAlive page then cache
  else
    { cache with
      liveBytes := layout.wrappingSub cache.liveBytes (cache.pages[page]?.elim 0 TrackedPage.charge) }

/-! ## Operations -/

variable [DecidableEq Key] (layout : Layout) (cache : PageCache Key)

/-- All entries leave the map, and their pages are dropped. -/
def retireAll : PageCache Key :=
  cache.entries.entries.foldl (fun cache pair => cache.dropBuffer layout pair.2.page)
    { cache with entries := .empty, residentBytes := 0 }

/-- What a call returns: the page of a key, if the cache made it. -/
abbrev Observation (Key : Type) := Option (Key × Option ℕ)

def get (key : Key) : PageCache Key × Observation Key :=
  match cache.entries.toBack key with
  | some (entry, entries) =>
      ({ cache with entries := entries }.clonePage entry.page, some (key, some entry.page))
  | none => (cache, none)

/-- `insert` up to its loop. -/
def insert (key : Key) (length : ℕ) : PageCache Key × Observation Key :=
  match cache.entries.toBack key with
  | some (entry, entries) =>
      ({ cache with entries := entries }.clonePage entry.page, some (key, some entry.page))
  | none =>
      let charge := layout.charge length
      if cache.capacity < charge then (cache, some (key, none))
      else ({ cache with lock := .check (.insert key charge) cache.capacity }, none)

/-- `set_capacity` up to its loop. -/
def setCapacity (capacity : ℕ) : PageCache Key :=
  let stored := { cache with capacity := capacity }
  if capacity = 0 then stored.retireAll layout
  else { stored with lock := .check .setCapacity capacity }

/-- One comparison of the live bytes. -/
def checkBytes (purpose : Purpose Key) (capacity : ℕ) : PageCache Key :=
  let scan := { cache with lock := .scan purpose capacity cache.entries.length }
  match purpose with
  | .insert key charge =>
      if capacity < layout.saturatingAdd cache.liveBytes charge then scan
      else { cache with lock := .admitPage key charge }
  | .setCapacity => if capacity < cache.liveBytes then scan else { cache with lock := .free }

/-- `evict_one_unpinned` has found no entry. -/
def scanFailed (purpose : Purpose Key) : PageCache Key × Observation Key :=
  match purpose with
  | .insert key _ => ({ cache with lock := .free }, some (key, none))
  | .setCapacity => ({ cache with lock := .free }, none)

/-- One round of `evict_one_unpinned`. -/
def scanRound (purpose : Purpose Key) (capacity : ℕ) : ℕ → PageCache Key × Observation Key
  | 0 => cache.scanFailed purpose
  | rounds + 1 =>
      match cache.entries.popFront with
      | none => cache.scanFailed purpose
      | some ((key, entry), rest) =>
          if 1 < cache.strongCount entry.page then
            ({ cache with
              entries := rest.insert key entry
              lock := .scan purpose capacity rounds }, none)
          else
            ({ cache with
              entries := rest
              residentBytes := layout.wrappingSub cache.residentBytes entry.charge
              lock := .check purpose capacity }.dropBuffer layout entry.page, none)

/-- The end of `insert`. -/
def admitPage (key : Key) (charge : ℕ) : PageCache Key × Observation Key :=
  let page := cache.pages.length
  ({ cache with
    liveBytes := layout.wrappingAdd cache.liveBytes charge
    residentBytes := layout.wrappingAdd cache.residentBytes charge
    entries := cache.entries.insert key ⟨page, charge⟩
    pages := cache.pages ++ [⟨charge, 1, 0⟩]
    lock := .free }, some (key, some page))

end PageCache

/-! ## Interleavings -/

inductive Action (Key : Type)
  | get (key : Key)
  | insert (key : Key) (length : ℕ)
  | setCapacity (capacity : ℕ)
  | clear
  /-- The holder of the lock goes on. -/
  | advance
  | clonePage (page : ℕ)
  | dropPage (page : ℕ)
  | slice (page : ℕ)
  | dropSlice (page : ℕ)
deriving DecidableEq

variable [DecidableEq Key]

/-- One step; none when it cannot be made. -/
def perform (layout : Layout) (cache : PageCache Key) :
    Action Key → Option (PageCache Key × PageCache.Observation Key)
  | .get key => if cache.lock = .free then some (cache.get key) else none
  | .insert key length => if cache.lock = .free then some (cache.insert layout key length) else none
  | .setCapacity capacity =>
      if cache.lock = .free then some (cache.setCapacity layout capacity, none) else none
  | .clear => if cache.lock = .free then some (cache.retireAll layout, none) else none
  | .advance =>
      match cache.lock with
      | .free => none
      | .check purpose capacity => some (cache.checkBytes layout purpose capacity, none)
      | .scan purpose capacity rounds => some (cache.scanRound layout purpose capacity rounds)
      | .admitPage key charge => some (cache.admitPage layout key charge)
  | .clonePage page => if 0 < cache.outside page then some (cache.clonePage page, none) else none
  | .dropPage page =>
      if 0 < cache.outside page then
        some ((cache.updatePage page fun record =>
          { record with outside := record.outside - 1 }).dropBuffer layout page, none)
      else none
  | .slice page =>
      if 0 < cache.outside page ∨ 0 < cache.slices page then
        some (cache.updatePage page fun record =>
          { record with slices := record.slices + 1 }, none)
      else none
  | .dropSlice page =>
      if 0 < cache.slices page then
        some ((cache.updatePage page fun record =>
          { record with slices := record.slices - 1 }).dropBuffer layout page, none)
      else none

/-- A step that cannot be made leaves the cache as it is. -/
def next (layout : Layout) (cache : PageCache Key) (action : Action Key) : PageCache Key :=
  (perform layout cache action).elim cache Prod.fst

/-- The page that a step returns to a caller. -/
def observed (layout : Layout) (cache : PageCache Key) (action : Action Key) :
    PageCache.Observation Key :=
  (perform layout cache action).bind Prod.snd

end ParqDB.Cache.Pages
