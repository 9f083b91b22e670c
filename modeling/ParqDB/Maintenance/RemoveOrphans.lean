import Mathlib.Data.List.Sort
import ParqDB.Catalog.Sqlite
import ParqDB.Foundations.Await
import ParqDB.Foundations.Outcome
import ParqDB.Maintenance.Warehouse

/-!
# Orphan discovery and collection

`remove_orphans` and the functions it is made of (`parqdb-local/src/maintenance.rs`),
as a program over the storage and catalog operations it awaits.  The same program is
run in one go by `ParqDB.Maintenance.Collection` and one await at a time, between the
steps of builds, by `ParqDB.Builds.Sessions`.

A `HashSet` of references is a list here: only membership is ever asked for.
-/

namespace ParqDB.Maintenance

open Foundations Meta Storage Catalog

/-- Errors of a collection. -/
inductive MaintenanceError
  | clock (message : String)
  | catalog (error : CatalogError)
  | notFound (location : String)
  | storage (location : String)
  | invalidLocation (location : String)
  | invalidMetadata (message : String)
  | invalidProvider (message : String)
deriving DecidableEq

/-! ## The awaited operations -/

/-- A storage or catalog operation of a collection. -/
inductive Operation
  | listTombstones
  | listAll
  | load (key : String × String)
  | listIvfCentroids
  | loadMetadata (location : String)
  | loadIvfCentroids (location : String)
  | list (directory : String)
  | head (location : String)
  | delete (location : String)
  | invalidate (location : String)
  | purgeTombstone (tombstone : CatalogTombstone)
  | purgeIvfCentroids (entry : IvfCentroidsCatalogEntry)

/-- The response of an operation; a path and its modification time for an object. -/
def Operation.Response : Operation → Type
  | listTombstones => Except MaintenanceError (List CatalogTombstone)
  | listAll => Except MaintenanceError (List (String × String))
  | load _ => Except MaintenanceError IndexRow
  | listIvfCentroids => Except MaintenanceError (List IvfCentroidsCatalogEntry)
  | loadMetadata _ => Except MaintenanceError IndexMetadata
  | loadIvfCentroids _ => Except MaintenanceError IvfCentroidsMetadata
  | list _ => Except MaintenanceError (List (ObjectPath × ℤ))
  | head _ => Except MaintenanceError ℤ
  | delete _ => Except MaintenanceError Unit
  | invalidate _ => Unit
  | purgeTombstone _ => Except MaintenanceError Bool
  | purgeIvfCentroids _ => Except MaintenanceError Bool

/-- A maintenance program. -/
abbrev Collect := Program Operation Operation.Response MaintenanceError

/-! Each operation as a program of one await, its response an outcome to inspect. -/

namespace Await

def listTombstones : Collect (Except MaintenanceError (List CatalogTombstone)) :=
  Program.call Operation.listTombstones

def listAll : Collect (Except MaintenanceError (List (String × String))) :=
  Program.call Operation.listAll

def load (key : String × String) : Collect (Except MaintenanceError IndexRow) :=
  Program.call (Operation.load key)

def listIvfCentroids : Collect (Except MaintenanceError (List IvfCentroidsCatalogEntry)) :=
  Program.call Operation.listIvfCentroids

def loadMetadata (location : String) : Collect (Except MaintenanceError IndexMetadata) :=
  Program.call (Operation.loadMetadata location)

def loadIvfCentroids (location : String) :
    Collect (Except MaintenanceError IvfCentroidsMetadata) :=
  Program.call (Operation.loadIvfCentroids location)

def list (directory : String) : Collect (Except MaintenanceError (List (ObjectPath × ℤ))) :=
  Program.call (Operation.list directory)

def head (location : String) : Collect (Except MaintenanceError ℤ) :=
  Program.call (Operation.head location)

def delete (location : String) : Collect (Except MaintenanceError Unit) :=
  Program.call (Operation.delete location)

def invalidate (location : String) : Collect Unit := Program.call (Operation.invalidate location)

def purgeTombstone (tombstone : CatalogTombstone) : Collect (Except MaintenanceError Bool) :=
  Program.call (Operation.purgeTombstone tombstone)

def purgeIvfCentroids (entry : IvfCentroidsCatalogEntry) :
    Collect (Except MaintenanceError Bool) :=
  Program.call (Operation.purgeIvfCentroids entry)

end Await

/-! ## References -/

section

variable (crates : Crates) (warehouse : Warehouse)

/-- A location that must be below the root. -/
def requireLocation {α : Type} (location : Option α) (text : String) :
    Except MaintenanceError α :=
  match location with
  | some location => .ok location
  | none => .error (.invalidLocation text)

/-- The snapshot root of a location, none outside the layout of snapshots. -/
def snapshotRoot (location : String) : Except MaintenanceError (Option String) :=
  if (warehouse.managed location).isNone then .ok none
  else do
    let (path, _) ← requireLocation (warehouse.relativePath location) location
    match rootPath crates path with
    | none => .ok none
    | some root => (requireLocation (warehouse.locate root true) location).map some

/-- The properties a Parquet index table may have. -/
def validateTableDefinition (table : IndexTableDefinition) : Except MaintenanceError String := do
  if table.definitionVersion ≠ 1 then
    .error (.invalidProvider "unsupported Parquet index table definition version")
  match table.properties.get? "location" with
  | none => .error (.invalidMetadata "index table property is missing: location")
  | some location =>
      let expectedProperties ← match table.properties.get? "layout" with
        | none => .ok 1
        | some layout =>
            if layout = "artifact-manifest" then .ok 2
            else .error (.invalidProvider ("unsupported Parquet index table layout: " ++ layout))
      if table.properties.size ≠ expectedProperties then
        .error (.invalidProvider "unknown Parquet index table properties")
      .ok location

/-- The absolute location of an index table. -/
def tableLocation (table : IndexTableDefinition) : Except MaintenanceError String := do
  let storedLocation ← validateTableDefinition table
  match crates.parseUrl storedLocation with
  | .ok _ => .ok storedLocation
  | .error _ =>
      requireLocation (warehouse.location storedLocation (endsWithSlash storedLocation))
        storedLocation

/-- Opening the provider of a snapshot. -/
def openProvider (definition : IndexProviderDefinition) : Except MaintenanceError Unit :=
  if definition.provider ≠ "parquet" || 0 < definition.properties.size then
    .error (.invalidProvider
      "Parquet index provider v1 requires provider=parquet and no provider properties")
  else .ok ()

/-- The roots of managed tables. -/
def tableReferences (tables : List IndexTableDefinition) :
    Except MaintenanceError (List String) := do
  let locations ← tables.mapM (tableLocation crates warehouse)
  let roots ← locations.mapM (snapshotRoot crates warehouse)
  .ok (roots.filterMap id)

/-- The centroid metadata document a snapshot refers to, if it is a managed one. -/
def centroidReference (snapshot : IndexSnapshot) : Option String :=
  match ivfCentroidsReference crates snapshot with
  | .error _ => none
  | .ok reference =>
      (warehouse.resolveWarehouseLocation reference.metadataLocation).filter fun location =>
        (warehouse.managed location).isSome

/-- What one snapshot refers to. -/
def snapshotReferences (snapshot : IndexSnapshot) : Except MaintenanceError (List String) := do
  openProvider snapshot.indexProvider
  if snapshot.indexTables.keys.any String.isEmpty then
    .error (.invalidProvider "index table role must not be empty")
  let roots ← tableReferences crates warehouse snapshot.indexTables.values
  .ok ((centroidReference crates warehouse snapshot).toList ++ roots)

/-- What a metadata document refers to: centroid documents and snapshot roots. -/
def indexMetadataReferences (metadata : IndexMetadata) :
    Except MaintenanceError (List String) := do
  let references ← metadata.snapshots.mapM (snapshotReferences crates warehouse)
  .ok references.flatten

/-- A managed location, which references are kept for. -/
def ifManaged (location : String) : List String :=
  if (warehouse.managed location).isSome then [location] else []

/-- A tombstone with what its document refers to. -/
structure TombstoneReferences where
  tombstone : CatalogTombstone
  references : List String

/-- What the document of a tombstoned location refers to; a missing document refers to
nothing, and a document that is no index document is one of centroids. -/
def tombstoneDocumentReferences (location : String) : Collect (List String) := do
  match ← Await.loadMetadata location with
  | .ok metadata => Program.ofExcept (indexMetadataReferences crates warehouse metadata)
  | .error (.invalidMetadata _) =>
      let metadata ← Program.ofExcept (← Await.loadIvfCentroids location)
      let centroids ← Program.ofExcept (requireLocation
        (warehouse.location metadata.centroids (endsWithSlash metadata.centroids))
        metadata.centroids)
      let root ← Program.ofExcept (snapshotRoot crates warehouse centroids)
      pure root.toList
  | .error (.notFound _) => pure []
  | .error error => Program.fail error

def tombstoneReferences : Collect (List TombstoneReferences) := do
  let tombstones ← Program.ofExcept (← Await.listTombstones)
  tombstones.foldlM (fun states tombstone => do
    let references ←
      tombstoneDocumentReferences crates warehouse tombstone.metadataLocation
    pure (states ++ [⟨tombstone, ifManaged warehouse tombstone.metadataLocation ++ references⟩])) []

/-- The locations of mapped documents and all they refer to. -/
def reachableLocations : Collect (List String) := do
  let keys ← Program.ofExcept (← Await.listAll)
  keys.foldlM (fun reachable key => do
    let entry ← Program.ofExcept (← Await.load key)
    let metadata ← Program.ofExcept (← Await.loadMetadata entry.metadataLocation)
    let references ← Program.ofExcept (indexMetadataReferences crates warehouse metadata)
    pure (reachable ++ ifManaged warehouse entry.metadataLocation ++ references)) []

end

/-! ## Candidates -/

/-- Category of a maintenance object. -/
inductive MaintenanceKind
  | metadata
  | indexData
deriving DecidableEq

/-- One unreachable object managed by the warehouse. -/
structure MaintenanceObject where
  kind : MaintenanceKind
  reference : String
  modifiedMs : ℤ
deriving DecidableEq

/-- An object or a snapshot prefix that may be deleted, with the objects it consists of. -/
structure Candidate where
  object : MaintenanceObject
  members : List String
  verified : Bool
deriving DecidableEq

section

variable (crates : Crates) (warehouse : Warehouse)

/-- The objects below a directory of the warehouse; none if it does not exist. -/
def listIfPresent (directory : String) : Collect (List (ObjectPath × ℤ)) := do
  match ← Await.list directory with
  | .ok objects => pure objects
  | .error (.notFound _) => pure []
  | .error error => Program.fail error

/-- What makes an unreachable reference a candidate: verified, or old enough. -/
def collectable (reachable verified : List String) (olderThanMs : ℤ) (reference : String)
    (modifiedMs : ℤ) : Bool :=
  !reachable.contains reference && (verified.contains reference || modifiedMs < olderThanMs)

/-- The candidate of one object below `metadata`, if it is one. -/
def metadataCandidate (reachable verified : List String) (olderThanMs : ℤ)
    (object : ObjectPath × ℤ) : Except MaintenanceError (Option Candidate) := do
  let location ← requireLocation (warehouse.locate object.1 false) (relativeText object.1 false)
  let (path, directory) ← requireLocation (warehouse.relativePath location) location
  if isMetadataPath crates path && !directory &&
      collectable reachable verified olderThanMs location object.2 then
    .ok (some ⟨⟨.metadata, location, object.2⟩, [location], verified.contains location⟩)
  else .ok none

def metadataCandidates (reachable verified : List String) (olderThanMs : ℤ) :
    Collect (List Candidate) := do
  let objects ← listIfPresent "metadata"
  let candidates ← Program.ofExcept
    (objects.mapM (metadataCandidate crates warehouse reachable verified olderThanMs))
  pure (candidates.filterMap id)

/-- The location and snapshot root of one object below `indexes`, if it has a root. -/
def indexMember (object : ObjectPath × ℤ) :
    Except MaintenanceError (Option (String × String × ℤ)) := do
  let location ← requireLocation (warehouse.locate object.1 false) (relativeText object.1 false)
  let root ← snapshotRoot crates warehouse location
  .ok (root.map fun root => (root, location, object.2))

/-- The objects of one snapshot root, and the time of the latest change among them. -/
def groupOf (objects : List (String × String × ℤ)) (root : String) : ℤ × List String :=
  let members := objects.filter fun object => object.1 = root
  (members.foldl (fun latest object => max latest object.2.2) (-(2 ^ 63)),
    members.map fun object => object.2.1)

/-- The candidate of one snapshot root, if it is one. -/
def indexCandidate (reachable verified : List String) (olderThanMs : ℤ)
    (objects : List (String × String × ℤ)) (root : String) : Option Candidate :=
  let group := groupOf objects root
  if collectable reachable verified olderThanMs root group.1 then
    some ⟨⟨.indexData, root, group.1⟩, group.2, verified.contains root⟩
  else none

def indexCandidates (reachable verified : List String) (olderThanMs : ℤ) :
    Collect (List Candidate) := do
  let objects ← listIfPresent "indexes"
  let members ← Program.ofExcept (objects.mapM (indexMember crates warehouse))
  let members := members.filterMap id
  let roots := (members.map Prod.fst).dedup
  pure (roots.filterMap (indexCandidate reachable verified olderThanMs members))

def candidates (reachable verified : List String) (olderThanMs : ℤ) :
    Collect (List Candidate) := do
  let metadata ← metadataCandidates crates warehouse reachable verified olderThanMs
  let index ← indexCandidates crates warehouse reachable verified olderThanMs
  pure (metadata ++ index)

/-- The order of deletion: by reference. -/
def sortCandidates (candidates : List Candidate) : List Candidate :=
  candidates.insertionSort fun left right => left.object.reference ≤ right.object.reference

end

/-! ## Deletion -/

/-- Whether all members of an unverified candidate are still old. -/
def stillOld (olderThanMs : ℤ) : List String → Collect Bool
  | [] => pure true
  | member :: members => do
      match ← Await.head member with
      | .ok modifiedMs =>
          if olderThanMs ≤ modifiedMs then pure false else stillOld olderThanMs members
      | .error (.notFound _) => stillOld olderThanMs members
      | .error error => Program.fail error

/-- Deletes one member; it may already be gone. -/
def deleteMember (kind : MaintenanceKind) (member : String) : Collect Unit := do
  match ← Await.delete member with
  | .ok () | .error (.notFound _) =>
      if kind = .metadata then Await.invalidate member
  | .error error => Program.fail error

def deleteCandidate (candidate : Candidate) : Collect Unit :=
  candidate.members.foldlM (fun _ member => deleteMember candidate.object.kind member) ()

/-- Whether a candidate may still be deleted: it is verified or still old. -/
def isOld (olderThanMs : ℤ) (candidate : Candidate) : Collect Bool :=
  if candidate.verified then pure true else stillOld olderThanMs candidate.members

/-- Deletes one candidate unless it is reachable or not old any more. -/
def collectCandidate (reachable : List String) (olderThanMs : ℤ)
    (removed : List MaintenanceObject) (candidate : Candidate) :
    Collect (List MaintenanceObject) := do
  if reachable.contains candidate.object.reference then pure removed
  else
    let old ← isOld olderThanMs candidate
    if old then
      deleteCandidate candidate
      pure (removed ++ [candidate.object])
    else pure removed

/-- Purges what belongs to a document that is gone. -/
def purgeWhenMissing (location : String) (purge : Collect (Except MaintenanceError Bool)) :
    Collect Unit := do
  match ← Await.head location with
  | .error (.notFound _) =>
      let _ ← Program.ofExcept (← purge)
      pure ()
  | .ok _ => pure ()
  | .error error => Program.fail error

/-- Purges one ready centroid entry whose document is gone. -/
def purgeIfMissing (reachable : List String) (entry : IvfCentroidsCatalogEntry) :
    Collect Unit :=
  if reachable.contains entry.metadataLocation then pure ()
  else purgeWhenMissing entry.metadataLocation (Await.purgeIvfCentroids entry)

def purgeMissingIvfCentroids (reachable : List String) : Collect Unit := do
  let entries ← Program.ofExcept (← Await.listIvfCentroids)
  entries.foldlM (fun _ entry => purgeIfMissing reachable entry) ()

/-- Purges one old tombstone whose document is gone. -/
def purgeOldTombstone (reachable : List String) (olderThanMs : ℤ) (state : TombstoneReferences) :
    Collect Unit :=
  if olderThanMs ≤ state.tombstone.unreachableSinceMs ||
      reachable.contains state.tombstone.metadataLocation then pure ()
  else
    purgeWhenMissing state.tombstone.metadataLocation (Await.purgeTombstone state.tombstone)

/-! ## The collection -/

/-- Seven days. -/
def minimumRetentionMs : ℤ := 7 * 24 * 60 * 60 * 1000

/-- The effective age limit: what changed or became unreachable before it is old. -/
def effectiveCutoff (now olderThanMs : ℤ) : ℤ :=
  min olderThanMs (saturateI64 (now - minimumRetentionMs))

/-- The references of old and of young tombstones. -/
def oldReferences (tombstones : List TombstoneReferences) (olderThanMs : ℤ) : List String :=
  (tombstones.filter fun state => state.tombstone.unreachableSinceMs < olderThanMs).flatMap
    TombstoneReferences.references

def youngReferences (tombstones : List TombstoneReferences) (olderThanMs : ℤ) : List String :=
  (tombstones.filter fun state => olderThanMs ≤ state.tombstone.unreachableSinceMs).flatMap
    TombstoneReferences.references

/-- What a collection finds before it deletes anything. -/
structure Survey where
  olderThanMs : ℤ
  tombstones : List TombstoneReferences
  /-- The candidates in the order of deletion. -/
  found : List Candidate

section

variable (crates : Crates) (warehouse : Warehouse) (clock : Clock) (activeRoots : List String)
  (olderThanMs : ℤ)

/-- All that must not be deleted: what mapped documents refer to, the roots of builds in
progress, and the references of young tombstones. -/
def protectedReferences (mapped : List String) (tombstones : List TombstoneReferences)
    (olderThanMs : ℤ) : List String :=
  mapped ++ activeRoots ++ youngReferences tombstones olderThanMs

/-- The first part of `remove_orphans`, up to the sorted candidates. -/
def survey : Collect Survey := do
  let now ← Program.ofExcept (clock.mapError MaintenanceError.clock)
  let olderThanMs := effectiveCutoff now olderThanMs
  let tombstones ← tombstoneReferences crates warehouse
  let mapped ← reachableLocations crates warehouse
  let found ← candidates crates warehouse
    (protectedReferences activeRoots mapped tombstones olderThanMs)
    (oldReferences tombstones olderThanMs) olderThanMs
  pure ⟨olderThanMs, tombstones, sortCandidates found⟩

/-- The second part of `remove_orphans`: deletion, with everything reachable at that time
left alone, and the purge of the catalog. -/
def sweep (survey : Survey) : Collect (List MaintenanceObject) := do
  let mapped ← reachableLocations crates warehouse
  let reachable := protectedReferences activeRoots mapped survey.tombstones survey.olderThanMs
  let removed ← survey.found.foldlM (collectCandidate reachable survey.olderThanMs) []
  purgeMissingIvfCentroids reachable
  survey.tombstones.foldlM
    (fun _ state => purgeOldTombstone reachable survey.olderThanMs state) ()
  pure removed

/-- Finds or removes unreachable objects older than `olderThanMs`. -/
def removeOrphans (dryRun : Bool) : Collect (List MaintenanceObject) := do
  let survey ← survey crates warehouse clock activeRoots olderThanMs
  if dryRun then pure (survey.found.map Candidate.object)
  else sweep crates warehouse activeRoots survey

end

end ParqDB.Maintenance
