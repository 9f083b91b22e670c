import Mathlib.Algebra.Order.Ring.Int
import ParqDB.Foundations.LinkedMap
import ParqDB.Foundations.Recency
import ParqDB.Foundations.Runs

/-!
# The metadata document cache

`MetadataCache` of `parqdb-index/src/store.rs`: a hash map of documents, a queue of their
locations from the least recently used one to the most recently used one, and the bytes of the
documents together.

A `usize` is a number up to `usizeMax`, and its additions and subtractions wrap, as they do in
a release build.  `debits` is a history variable: the subtractions from the resident bytes so
far, with the bytes they were applied to.

`Journal` adds what the cache does not remember: the log of uses, and all documents that were
inserted.
-/

namespace ParqDB.Cache.Metadata

open Foundations

variable {Index Centroids : Type}

/-! ## The cache -/

structure MetadataCacheConfig where
  maxEntries : ℕ
  maxBytes : ℕ
deriving DecidableEq

inductive CachedDocument (Index Centroids : Type)
  | index (metadata : Index)
  | ivfCentroids (metadata : Centroids)
deriving DecidableEq

namespace CachedDocument

def index? : CachedDocument Index Centroids → Option Index
  | .index metadata => some metadata
  | .ivfCentroids _ => none

def ivfCentroids? : CachedDocument Index Centroids → Option Centroids
  | .index _ => none
  | .ivfCentroids metadata => some metadata

end CachedDocument

structure CachedMetadata (Index Centroids : Type) where
  document : CachedDocument Index Centroids
  serializedBytes : ℕ
deriving DecidableEq

structure Debit where
  amount : ℕ
  before : ℕ
deriving DecidableEq

structure MetadataCache (Index Centroids : Type) where
  config : MetadataCacheConfig
  residentBytes : ℕ
  entries : LinkedMap String (CachedMetadata Index Centroids)
  order : List String
  debits : List Debit

namespace MetadataCache

def new (config : MetadataCacheConfig) : MetadataCache Index Centroids :=
  ⟨config, 0, .empty, [], []⟩

/-- `resident_bytes -= bytes`. -/
def subResident (usizeMax : ℕ) (cache : MetadataCache Index Centroids) (bytes : ℕ) :
    MetadataCache Index Centroids :=
  { cache with
    residentBytes := (cache.residentBytes + (usizeMax + 1) - bytes) % (usizeMax + 1)
    debits := cache.debits ++ [⟨bytes, cache.residentBytes⟩] }

/-- `resident_bytes += bytes`. -/
def addResident (usizeMax : ℕ) (cache : MetadataCache Index Centroids) (bytes : ℕ) :
    MetadataCache Index Centroids :=
  { cache with residentBytes := (cache.residentBytes + bytes) % (usizeMax + 1) }

/-- Takes the entry of a location out of the map and off the bytes. -/
def removeEntry (usizeMax : ℕ) (cache : MetadataCache Index Centroids) (location : String) :
    MetadataCache Index Centroids :=
  match cache.entries.get? location with
  | none => cache
  | some entry =>
      { cache with entries := cache.entries.remove location }.subResident usizeMax
        entry.serializedBytes

def touch (cache : MetadataCache Index Centroids) (location : String) :
    MetadataCache Index Centroids :=
  { cache with order := cache.order.erase location ++ [location] }

/-- A document of one kind, which is touched when it is found. -/
def getDocument {Metadata : Type} (kind : CachedDocument Index Centroids → Option Metadata)
    (cache : MetadataCache Index Centroids) (location : String) :
    Option Metadata × MetadataCache Index Centroids :=
  match (cache.entries.get? location).bind fun entry => kind entry.document with
  | none => (none, cache)
  | some metadata => (some metadata, cache.touch location)

def getIndex (cache : MetadataCache Index Centroids) (location : String) :
    Option Index × MetadataCache Index Centroids :=
  cache.getDocument CachedDocument.index? location

def getIvfCentroids (cache : MetadataCache Index Centroids) (location : String) :
    Option Centroids × MetadataCache Index Centroids :=
  cache.getDocument CachedDocument.ivfCentroids? location

def remove (usizeMax : ℕ) (cache : MetadataCache Index Centroids) (location : String) :
    MetadataCache Index Centroids :=
  let removed := cache.removeEntry usizeMax location
  { removed with order := removed.order.erase location }

/-- One of the limits is exceeded. -/
def Over (cache : MetadataCache Index Centroids) : Prop :=
  cache.config.maxEntries < cache.entries.length ∨ cache.config.maxBytes < cache.residentBytes

instance (cache : MetadataCache Index Centroids) : Decidable cache.Over :=
  inferInstanceAs (Decidable (_ ∨ _))

/-- The loop of `enforce_bounds`, which pops at most the whole queue. -/
def enforceRounds (usizeMax : ℕ) :
    ℕ → MetadataCache Index Centroids → MetadataCache Index Centroids
  | 0, cache => cache
  | rounds + 1, cache =>
      if cache.Over then
        match cache.order with
        | [] => cache
        | evicted :: order =>
            enforceRounds usizeMax rounds
              ({ cache with order := order }.removeEntry usizeMax evicted)
      else cache

def enforceBounds (usizeMax : ℕ) (cache : MetadataCache Index Centroids) :
    MetadataCache Index Centroids :=
  cache.enforceRounds usizeMax cache.order.length

/-- The cache takes documents of this size. -/
def Admits (config : MetadataCacheConfig) (serializedBytes : ℕ) : Prop :=
  ¬ (config.maxEntries = 0 ∨ config.maxBytes = 0 ∨ config.maxBytes < serializedBytes)

instance (config : MetadataCacheConfig) (serializedBytes : ℕ) :
    Decidable (Admits config serializedBytes) :=
  inferInstanceAs (Decidable (¬ _))

/-- A cache with a new entry, before the bounds are enforced. -/
def push (usizeMax : ℕ) (cache : MetadataCache Index Centroids) (location : String)
    (document : CachedDocument Index Centroids) (serializedBytes : ℕ) :
    MetadataCache Index Centroids :=
  let inserted := { cache with entries := cache.entries.insert location ⟨document, serializedBytes⟩ }
  let added := inserted.addResident usizeMax serializedBytes
  { added with order := added.order ++ [location] }

def insert (usizeMax : ℕ) (cache : MetadataCache Index Centroids) (location : String)
    (document : CachedDocument Index Centroids) (serializedBytes : ℕ) :
    MetadataCache Index Centroids :=
  let removed := cache.remove usizeMax location
  if Admits removed.config serializedBytes then
    (removed.push usizeMax location document serializedBytes).enforceBounds usizeMax
  else removed

def setConfig (usizeMax : ℕ) (cache : MetadataCache Index Centroids)
    (config : MetadataCacheConfig) : MetadataCache Index Centroids :=
  { cache with config := config }.enforceBounds usizeMax

end MetadataCache

/-! ## Runs -/

inductive Action (Index Centroids : Type)
  | getIndex (location : String)
  | getIvfCentroids (location : String)
  | insert (location : String) (document : CachedDocument Index Centroids) (serializedBytes : ℕ)
  | remove (location : String)
  | setConfig (config : MetadataCacheConfig)

namespace Action

def location? : Action Index Centroids → Option String
  | .getIndex location | .getIvfCentroids location | .insert location _ _ | .remove location =>
      some location
  | .setConfig _ => none

/-- The location that an action uses: one that is inserted, or found. -/
def used? (cache : MetadataCache Index Centroids) : Action Index Centroids → Option String
  | .getIndex location => (cache.getIndex location).1.map fun _ => location
  | .getIvfCentroids location => (cache.getIvfCentroids location).1.map fun _ => location
  | .insert location _ _ => some location
  | .remove _ | .setConfig _ => none

end Action

def perform (usizeMax : ℕ) (cache : MetadataCache Index Centroids) :
    Action Index Centroids → MetadataCache Index Centroids
  | .getIndex location => (cache.getIndex location).2
  | .getIvfCentroids location => (cache.getIvfCentroids location).2
  | .insert location document serializedBytes =>
      cache.insert usizeMax location document serializedBytes
  | .remove location => cache.remove usizeMax location
  | .setConfig config => cache.setConfig usizeMax config

/-- A cache with the log of uses, and the inserted documents from the last one to the first. -/
structure Journal (Index Centroids : Type) where
  cache : MetadataCache Index Centroids
  uses : List String
  inserted : List (String × CachedDocument Index Centroids)

namespace Journal

def initial (config : MetadataCacheConfig) : Journal Index Centroids := ⟨.new config, [], []⟩

def next (usizeMax : ℕ) (journal : Journal Index Centroids) (action : Action Index Centroids) :
    Journal Index Centroids where
  cache := perform usizeMax journal.cache action
  uses := journal.uses ++ (action.used? journal.cache).toList
  inserted :=
    match action with
    | .insert location document _ => (location, document) :: journal.inserted
    | _ => journal.inserted

def lastInserted (journal : Journal Index Centroids) (location : String) :
    Option (CachedDocument Index Centroids) :=
  (journal.inserted.find? fun pair => pair.1 = location).map Prod.snd

end Journal

/-! ## What an LRU cache promises -/

def Cached (cache : MetadataCache Index Centroids) (location : String) : Prop :=
  cache.entries.get? location ≠ none

/-- The sizes of the documents in the map together. -/
def documentBytes (cache : MetadataCache Index Centroids) : ℕ :=
  (cache.entries.entries.map fun pair => pair.2.serializedBytes).sum

/-- The three representations agree, the limits hold, and what is found was inserted last. -/
structure Coherent (usizeMax : ℕ) (journal : Journal Index Centroids) : Prop where
  orderNodup : journal.cache.order.Nodup
  orderKeys : journal.cache.order.Perm (journal.cache.entries.entries.map Prod.fst)
  byRecency : ByRecency journal.uses journal.cache.order
  resident : journal.cache.residentBytes = documentBytes journal.cache
  addressable : journal.cache.residentBytes ≤ usizeMax
  withinEntries : journal.cache.entries.length ≤ journal.cache.config.maxEntries
  withinBytes : journal.cache.residentBytes ≤ journal.cache.config.maxBytes
  foundIndex : ∀ location metadata, (journal.cache.getIndex location).1 = some metadata ↔
    Cached journal.cache location ∧ journal.lastInserted location = some (.index metadata)
  foundCentroids : ∀ location metadata,
    (journal.cache.getIvfCentroids location).1 = some metadata ↔
      Cached journal.cache location ∧ journal.lastInserted location = some (.ivfCentroids metadata)
  noUnderflow : ∀ debit ∈ journal.cache.debits, debit.amount ≤ debit.before

/-- What leaves without being named by the action was used before everything that stays, and an
admitted document stays. -/
def EvictsOldest (usizeMax : ℕ) (journal : Journal Index Centroids)
    (action : Action Index Centroids) : Prop :=
  (∀ evicted kept, action.location? ≠ some evicted → Cached journal.cache evicted →
    ¬ Cached (journal.next usizeMax action).cache evicted →
    Cached (journal.next usizeMax action).cache kept →
    UsedBefore (journal.next usizeMax action).uses evicted kept) ∧
  ∀ location document bytes, action = .insert location document bytes →
    MetadataCache.Admits journal.cache.config bytes →
    (journal.next usizeMax action).cache.entries.get? location = some ⟨document, bytes⟩

/-- The bytes of an inserted document can be counted with those of the others. -/
def Countable (usizeMax : ℕ) (cache : MetadataCache Index Centroids) :
    Action Index Centroids → Prop
  | .insert location _ bytes => MetadataCache.Admits cache.config bytes →
      (cache.remove usizeMax location).residentBytes + bytes ≤ usizeMax
  | _ => True

end ParqDB.Cache.Metadata
