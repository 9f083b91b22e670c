import ParqDB.Foundations.KeyedTable
import ParqDB.Foundations.Transaction
import ParqDB.Meta.Metadata

/-!
# The SQLite catalog's tables and statements

The rows of the catalog database and the SQL statements the catalog executes
(`parqdb-catalog/src/sqlite.rs`, `create_schema` and the statement texts).  Every
statement is a `Sql` program of one statement; the operations built from them are in
`ParqDB.Catalog.Sqlite`.

Columns that hold the text of a UUID, of a table definition or of a centroid
descriptor hold the value here: the texts are written by one serializer, so they are
equal exactly when the values are.
-/

namespace ParqDB.Catalog

open Foundations Meta

/-! ## Identifiers -/

/-- A structured index identifier: a namespace and a name, all of them non-empty. -/
structure IndexIdentifier where
  «namespace» : List String
  name : String
  nonempty : name ≠ "" ∧ "" ∉ «namespace»
deriving DecidableEq

/-- Errors returned by catalog operations. -/
inductive CatalogError
  | invalidIdentifier (message : String)
  | indexNotFound (identifier : IndexIdentifier)
  | alreadyExists (identifier : IndexIdentifier)
  | indexUuidMismatch (identifier : IndexIdentifier)
  | commitConflict (identifier : IndexIdentifier)
  | ivfCentroidsClaimLost (fingerprint : String)
  | invalidMetadata (message : String)
  | implementation (message : String)
  | sqlite
deriving DecidableEq

/-- The text under which a namespace is stored. -/
def namespaceKey («namespace» : List String) : Except CatalogError String :=
  if «namespace».any String.isEmpty then
    .error (.invalidIdentifier "namespace segments must be non-empty")
  else .ok (Json.arrayText «namespace»)

/-! ## Rows -/

/-- One mapping from an identifier to its current metadata location. -/
structure IndexRow where
  namespaceKey : String
  name : String
  metadataLocation : String
  indexUuid : Uuid
  sourceIdentity : String
  sourceReference : TableDefinition
deriving DecidableEq

/-- `PRIMARY KEY(namespace, name)`. -/
def IndexRow.key (row : IndexRow) : String × String := (row.namespaceKey, row.name)

/-- A metadata document that lost catalog reachability at a known time. -/
structure CatalogTombstone where
  metadataLocation : String
  unreachableSinceMs : ℤ
deriving DecidableEq

/-- `CHECK(state IN ('building', 'ready', 'failed'))`. -/
inductive CentroidState
  | building
  | ready
  | failed
deriving DecidableEq

/-- One row of `ivf_centroid_artifacts`. -/
structure CentroidRow where
  sourceIdentity : String
  fingerprint : String
  descriptor : IvfCentroidsDescriptor
  state : CentroidState
  owner : Option Uuid
  leaseExpiresMs : Option ℤ
  artifactUuid : Option Uuid
  metadataLocation : Option String
  error : Option String
deriving DecidableEq

/-- `PRIMARY KEY(source_identity, fingerprint)`. -/
def CentroidRow.key (row : CentroidRow) : String × String :=
  (row.sourceIdentity, row.fingerprint)

/-- The catalog database. -/
@[ext]
structure Tables where
  namespaces : KeyedTable (id : String → String)
  indexes : KeyedTable IndexRow.key
  catalogTombstones : KeyedTable CatalogTombstone.metadataLocation
  ivfCentroidArtifacts : KeyedTable CentroidRow.key
deriving DecidableEq

/-- A fresh database: only the root namespace. -/
def createSchema : Tables where
  namespaces := KeyedTable.empty.upsert "[]"
  indexes := KeyedTable.empty
  catalogTombstones := KeyedTable.empty
  ivfCentroidArtifacts := KeyedTable.empty

/-- A catalog program. -/
abbrev CatalogSql := Sql Tables CatalogError

/-! ## Statements -/

/-- Opening a connection and setting its pragmas. -/
def connection : CatalogSql Unit := Sql.query .sqlite fun _ => ()

/-- `INSERT OR IGNORE INTO namespaces`. -/
def insertNamespace (key : String) : CatalogSql Unit :=
  Sql.statement .sqlite fun tables =>
    .ok ((), { tables with namespaces := tables.namespaces.upsert key })

/-- `INSERT INTO indexes`: the primary key and the unique index UUID may be violated; the
foreign key may not, since the namespace was inserted just before. -/
def insertIndex (identifier : IndexIdentifier) (row : IndexRow) : CatalogSql Unit :=
  Sql.statement .sqlite fun tables =>
    if tables.indexes.rows.any fun other => other.indexUuid = row.indexUuid then
      .error (.alreadyExists identifier)
    else
      match tables.indexes.insert? row with
      | none => .error (.alreadyExists identifier)
      | some indexes => .ok ((), { tables with indexes := indexes })

/-- `SELECT … FROM indexes WHERE namespace = ?1 AND name = ?2`. -/
def selectIndex (key : String) (name : String) : CatalogSql (Option IndexRow) :=
  Sql.query .sqlite fun tables => tables.indexes.find? (key, name)

/-- The row is the one of this namespace and name. -/
def IndexRow.isAt (key name : String) (row : IndexRow) : Bool :=
  row.namespaceKey = key && row.name = name

/-- The row still has the location and UUID an update was based on. -/
def IndexRow.isUnchanged (key name base : String) (indexUuid : Uuid) (row : IndexRow) : Bool :=
  row.isAt key name && row.metadataLocation = base && row.indexUuid = indexUuid

theorem IndexRow.isAt_iff {key name : String} {row : IndexRow} :
    row.isAt key name = true ↔ row.key = (key, name) := by
  simp [IndexRow.isAt, IndexRow.key]

theorem IndexRow.isUnchanged_iff {key name base : String} {indexUuid : Uuid} {row : IndexRow} :
    row.isUnchanged key name base indexUuid = true ↔
      row.key = (key, name) ∧ row.metadataLocation = base ∧ row.indexUuid = indexUuid := by
  simp [IndexRow.isUnchanged, IndexRow.isAt_iff, and_assoc]

/-- The columns a commit sets. -/
def IndexRow.advance (newLocation sourceIdentity : String) (source : TableDefinition)
    (row : IndexRow) : IndexRow :=
  { row with
    metadataLocation := newLocation, sourceIdentity := sourceIdentity, sourceReference := source }

theorem IndexRow.advance_key (newLocation sourceIdentity : String) (source : TableDefinition)
    (row : IndexRow) : (row.advance newLocation sourceIdentity source).key = row.key := rfl

/-- `UPDATE indexes … WHERE namespace, name, metadata_location AND index_uuid match`;
returns the number of updated rows. -/
def updateIndex (key name base : String) (indexUuid : Uuid) (newLocation sourceIdentity : String)
    (source : TableDefinition) : CatalogSql ℕ :=
  Sql.statement .sqlite fun tables => .ok
    (tables.indexes.matching (IndexRow.isUnchanged key name base indexUuid),
    { tables with
      indexes := tables.indexes.update (IndexRow.isUnchanged key name base indexUuid)
        (IndexRow.advance newLocation sourceIdentity source)
        (IndexRow.advance_key newLocation sourceIdentity source) })

/-- `DELETE FROM indexes WHERE namespace = ?1 AND name = ?2`. -/
def deleteIndex (key name : String) : CatalogSql ℕ :=
  Sql.statement .sqlite fun tables => .ok (tables.indexes.matching (IndexRow.isAt key name),
    { tables with indexes := tables.indexes.delete (IndexRow.isAt key name) })

/-- `INSERT INTO catalog_tombstones … ON CONFLICT DO UPDATE`. -/
def upsertTombstone (metadataLocation : String) (unreachableSinceMs : ℤ) : CatalogSql Unit :=
  Sql.statement .sqlite fun tables => .ok ((), { tables with
    catalogTombstones := tables.catalogTombstones.upsert ⟨metadataLocation, unreachableSinceMs⟩ })

/-- `DELETE FROM catalog_tombstones WHERE metadata_location = ?1`. -/
def deleteTombstone (metadataLocation : String) : CatalogSql Unit :=
  Sql.statement .sqlite fun tables => .ok ((), { tables with
    catalogTombstones := tables.catalogTombstones.delete fun row =>
      row.metadataLocation = metadataLocation })

/-- `SELECT … FROM ivf_centroid_artifacts WHERE source_identity = ?1 AND fingerprint = ?2`. -/
def selectCentroids (sourceIdentity fingerprint : String) : CatalogSql (Option CentroidRow) :=
  Sql.query .sqlite fun tables =>
    tables.ivfCentroidArtifacts.find? (sourceIdentity, fingerprint)

/-- `UPDATE ivf_centroid_artifacts` on the selected rows; returns their number. -/
def updateCentroids (selected : CentroidRow → Bool) (change : CentroidRow → CentroidRow)
    (hkey : ∀ row, (change row).key = row.key) : CatalogSql ℕ :=
  Sql.statement .sqlite fun tables => .ok (tables.ivfCentroidArtifacts.matching selected,
    { tables with
      ivfCentroidArtifacts := tables.ivfCentroidArtifacts.update selected change hkey })

/-- `INSERT INTO ivf_centroid_artifacts`. -/
def insertCentroids (row : CentroidRow) : CatalogSql Unit :=
  Sql.statement .sqlite fun tables =>
    match tables.ivfCentroidArtifacts.insert? row with
    | none => .error .sqlite
    | some centroids => .ok ((), { tables with ivfCentroidArtifacts := centroids })

/-- `DELETE FROM ivf_centroid_artifacts` on the selected rows; returns their number. -/
def deleteCentroids (selected : CentroidRow → Bool) : CatalogSql ℕ :=
  Sql.statement .sqlite fun tables => .ok (tables.ivfCentroidArtifacts.matching selected,
    { tables with ivfCentroidArtifacts := tables.ivfCentroidArtifacts.delete selected })

/-!
## The SQLite catalog's mutating operations

`register`, `commit`, `drop`, `purge_tombstone` and the five operations on IVF
centroid entries, statement by statement (`parqdb-catalog/src/sqlite.rs`).  An early
return of the source drops the open transaction; here it is a failing program, whose
working copy the call's end discards.

The clock is an argument: `now_ms` fails before the epoch and beyond `i64`.
-/

/-- A value clamped to the range of `i64`, as the saturating operators do. -/
def saturateI64 (value : ℤ) : ℤ := max (-(2 ^ 63)) (min (2 ^ 63 - 1) value)

/-- A reading of the system clock: milliseconds since the epoch, or why there is none. -/
abbrev Clock := Except String ℤ

def nowMs (clock : Clock) : CatalogSql ℤ := Sql.check (clock.mapError .implementation)

/-- A check of the metadata layer, whose error becomes `InvalidMetadata`. -/
def validated {α : Type} (outcome : Except String α) : CatalogSql α :=
  Sql.check (outcome.mapError .invalidMetadata)

def IndexIdentifier.namespaceKey (identifier : IndexIdentifier) : Except CatalogError String :=
  Catalog.namespaceKey identifier.namespace

def validateSourceBinding (source : TableDefinition) (metadata : IndexMetadata) :
    Except CatalogError Unit :=
  match metadata.currentSnapshot with
  | .error message => .error (.invalidMetadata message)
  | .ok snapshot =>
      if snapshot.sourceTable ≠ source then
        .error (.invalidMetadata
          "catalog source does not match the current snapshot source-table")
      else .ok ()

/-! ## Index mappings -/

section

variable (crates : Crates)

/-- Registers a new index if its identifier is absent. -/
def register (identifier : IndexIdentifier) (source : TableDefinition) (metadataLocation : String)
    (metadata : IndexMetadata) : CatalogSql Unit := do
  validated (metadata.validate crates)
  validated source.validate
  Sql.check (validateSourceBinding source metadata)
  validated (validateAbsoluteLocation crates metadataLocation)
  let key ← Sql.check identifier.namespaceKey
  connection
  Sql.beginTransaction .sqlite
  insertNamespace key
  insertIndex identifier ⟨key, identifier.name, metadataLocation, metadata.indexUuid,
    source.exactStateKey crates, source⟩
  deleteTombstone metadataLocation
  Sql.commitTransaction .sqlite

def «exists» (identifier : IndexIdentifier) : CatalogSql Bool := do
  let key ← Sql.check identifier.namespaceKey
  connection
  let row ← selectIndex key identifier.name
  pure row.isSome

/-- Advances an index if `baseLocation` is still its current location. -/
def commit (clock : Clock) (identifier : IndexIdentifier) (source : TableDefinition)
    (baseLocation newLocation : String) (baseMetadata newMetadata : IndexMetadata) :
    CatalogSql Unit := do
  if baseLocation = newLocation then
    Sql.fail (.invalidMetadata "new metadata location must differ from base")
  else
    let key ← Sql.check identifier.namespaceKey
    connection
    Sql.beginTransaction .sqlite
    let current ← selectIndex key identifier.name
    match current with
    | none => Sql.fail (.indexNotFound identifier)
    | some current =>
        if current.metadataLocation ≠ baseLocation then
          Sql.fail (.commitConflict identifier)
        else if newMetadata.indexUuid ≠ current.indexUuid ∨
            newMetadata.indexUuid ≠ baseMetadata.indexUuid then
          Sql.fail (.indexUuidMismatch identifier)
        else
          validated (newMetadata.validateUpdateFrom crates baseMetadata)
          validated source.validate
          Sql.check (validateSourceBinding source newMetadata)
          validated (validateAbsoluteLocation crates newLocation)
          let updated ← updateIndex key identifier.name baseLocation newMetadata.indexUuid
            newLocation (source.exactStateKey crates) source
          if updated = 1 then
            let now ← nowMs clock
            upsertTombstone baseLocation now
            Sql.commitTransaction .sqlite
          else
            Sql.rollback
            let found ← «exists» identifier
            if found then Sql.fail (.commitConflict identifier)
            else Sql.fail (.indexNotFound identifier)

/-- Removes a mapping and remembers when its metadata became unreachable. -/
def drop (clock : Clock) (identifier : IndexIdentifier) : CatalogSql Unit := do
  let key ← Sql.check identifier.namespaceKey
  connection
  Sql.beginTransaction .sqlite
  let current ← selectIndex key identifier.name
  match current with
  | none => Sql.fail (.indexNotFound identifier)
  | some current =>
      let now ← nowMs clock
      upsertTombstone current.metadataLocation now
      let removed ← deleteIndex key identifier.name
      if removed ≠ 1 then
        Sql.fail (.implementation "catalog entry disappeared during drop")
      else
        Sql.commitTransaction .sqlite

end

/-- Removes an unchanged tombstone; returns whether it was there. -/
def purgeTombstone (tombstone : CatalogTombstone) : CatalogSql Bool := do
  connection
  Sql.statement .sqlite fun tables =>
    let selected : CatalogTombstone → Bool := fun row =>
      row.metadataLocation = tombstone.metadataLocation &&
        row.unreachableSinceMs = tombstone.unreachableSinceMs
    .ok (tables.catalogTombstones.matching selected == 1,
      { tables with catalogTombstones := tables.catalogTombstones.delete selected })

/-! ## IVF centroid entries -/

/-- One ready reusable IVF centroid catalog entry. -/
structure IvfCentroidsCatalogEntry where
  sourceIdentity : String
  fingerprint : String
  artifactUuid : Uuid
  metadataLocation : String
deriving DecidableEq

/-- Ownership token for one in-progress IVF centroid build. -/
structure IvfCentroidsClaim where
  sourceIdentity : String
  fingerprint : String
  owner : Uuid
deriving DecidableEq

/-- Result of attempting to claim one IVF centroid descriptor. -/
inductive IvfCentroidsClaimResult
  | ready (entry : IvfCentroidsCatalogEntry)
  | claimed (claim : IvfCentroidsClaim)
  | busy (leaseExpiresMs : ℤ)
deriving DecidableEq

def validateLease (owner : Uuid) (leaseDurationMs : ℤ) : Except CatalogError Unit :=
  if owner = 0 ∨ leaseDurationMs ≤ 0 then
    .error (.implementation "IVF centroid owner and lease duration must be valid")
  else .ok ()

/-- The row is being built by `owner`. -/
def CentroidRow.ownedBy (row : CentroidRow) (claim : IvfCentroidsClaim) : Bool :=
  row.sourceIdentity = claim.sourceIdentity && row.fingerprint = claim.fingerprint &&
    row.state = .building && row.owner = some claim.owner

/-- `lease_expires_ms > now`, false for a `NULL` lease. -/
def CentroidRow.leaseHolds (row : CentroidRow) (now : ℤ) : Bool :=
  row.leaseExpiresMs.any fun expires => now < expires

/-- The unexpired lease of another owner who is building this row. -/
def CentroidRow.foreignLease (row : CentroidRow) (owner : Uuid) (now : ℤ) : Option ℤ :=
  if row.state = .building ∧ row.owner ≠ some owner then
    row.leaseExpiresMs.filter fun expires => now < expires
  else none

/-- The row of one source state and descriptor fingerprint. -/
def CentroidRow.isAt (sourceIdentity fingerprint : String) (row : CentroidRow) : Bool :=
  row.sourceIdentity = sourceIdentity && row.fingerprint = fingerprint

/-- The columns a claim sets. -/
def CentroidRow.taken (descriptor : IvfCentroidsDescriptor) (owner : Uuid) (leaseExpiresMs : ℤ)
    (row : CentroidRow) : CentroidRow :=
  { row with
    descriptor := descriptor, state := .building, owner := some owner,
    leaseExpiresMs := some leaseExpiresMs, artifactUuid := none, metadataLocation := none,
    error := none }

/-- The column a renewal sets. -/
def CentroidRow.renewed (leaseExpiresMs : ℤ) (row : CentroidRow) : CentroidRow :=
  { row with leaseExpiresMs := some leaseExpiresMs }

/-- The columns a publication sets. -/
def CentroidRow.published (artifactUuid : Uuid) (metadataLocation : String) (row : CentroidRow) :
    CentroidRow :=
  { row with
    state := .ready, owner := none, leaseExpiresMs := none, artifactUuid := some artifactUuid,
    metadataLocation := some metadataLocation, error := none }

/-- The columns an abandoned build sets. -/
def CentroidRow.abandoned (error : String) (row : CentroidRow) : CentroidRow :=
  { row with state := .failed, owner := none, leaseExpiresMs := none, error := some error }

theorem CentroidRow.taken_key (descriptor : IvfCentroidsDescriptor) (owner : Uuid)
    (leaseExpiresMs : ℤ) (row : CentroidRow) :
    (row.taken descriptor owner leaseExpiresMs).key = row.key := rfl

theorem CentroidRow.renewed_key (leaseExpiresMs : ℤ) (row : CentroidRow) :
    (row.renewed leaseExpiresMs).key = row.key := rfl

theorem CentroidRow.published_key (artifactUuid : Uuid) (metadataLocation : String)
    (row : CentroidRow) : (row.published artifactUuid metadataLocation).key = row.key := rfl

theorem CentroidRow.abandoned_key (error : String) (row : CentroidRow) :
    (row.abandoned error).key = row.key := rfl

section

variable (crates : Crates) (clock : Clock)

/-- Claims construction or returns the state of one descriptor. -/
def claimIvfCentroids (source : TableDefinition) (descriptor : IvfCentroidsDescriptor)
    (owner : Uuid) (leaseDurationMs : ℤ) : CatalogSql IvfCentroidsClaimResult := do
  validated source.validate
  validated descriptor.validate
  Sql.check (validateLease owner leaseDurationMs)
  let sourceIdentity := source.exactStateKey crates
  let fingerprint ← validated (descriptor.fingerprint crates)
  let now ← nowMs clock
  let leaseExpiresMs := saturateI64 (now + leaseDurationMs)
  connection
  Sql.beginTransaction .sqlite
  let existing ← selectCentroids sourceIdentity fingerprint
  match existing with
  | some row =>
      if !row.descriptor.isCompatibleWith descriptor then
        Sql.fail (.invalidMetadata "IVF centroid fingerprint collision")
      else if row.state = .ready then
        match row.artifactUuid, row.metadataLocation with
        | none, _ =>
            Sql.fail (.implementation "ready IVF centroid artifact has no UUID")
        | some _, none =>
            Sql.fail (.implementation "ready IVF centroid artifact has no metadata location")
        | some artifactUuid, some metadataLocation =>
            Sql.commitTransaction .sqlite
            pure (.ready ⟨sourceIdentity, fingerprint, artifactUuid, metadataLocation⟩)
      else
        match row.foreignLease owner now with
        | some expires =>
            Sql.commitTransaction .sqlite
            pure (.busy expires)
        | none =>
            let _ ← updateCentroids (CentroidRow.isAt sourceIdentity fingerprint)
              (CentroidRow.taken descriptor owner leaseExpiresMs)
              (CentroidRow.taken_key descriptor owner leaseExpiresMs)
            Sql.commitTransaction .sqlite
            pure (.claimed ⟨sourceIdentity, fingerprint, owner⟩)
  | none =>
      insertCentroids ⟨sourceIdentity, fingerprint, descriptor, .building, some owner,
        some leaseExpiresMs, none, none, none⟩
      Sql.commitTransaction .sqlite
      pure (.claimed ⟨sourceIdentity, fingerprint, owner⟩)

/-- What `renew`, `publish` and `abandon` make of the number of updated rows. -/
def claimKept (claim : IvfCentroidsClaim) (updated : ℕ) : Except CatalogError Unit :=
  if updated = 1 then .ok () else .error (.ivfCentroidsClaimLost claim.fingerprint)

/-- Extends a live build lease. -/
def renewIvfCentroidsClaim (claim : IvfCentroidsClaim) (leaseDurationMs : ℤ) :
    CatalogSql Unit := do
  Sql.check (validateLease claim.owner leaseDurationMs)
  let now ← nowMs clock
  connection
  let updated ← updateCentroids (fun row => row.ownedBy claim && row.leaseHolds now)
    (CentroidRow.renewed (saturateI64 (now + leaseDurationMs)))
    (CentroidRow.renewed_key (saturateI64 (now + leaseDurationMs)))
  Sql.check (claimKept claim updated)

/-- Publishes an immutable artifact owned by `claim`. -/
def publishIvfCentroids (claim : IvfCentroidsClaim) (metadataLocation : String)
    (metadata : IvfCentroidsMetadata) : CatalogSql IvfCentroidsCatalogEntry := do
  validated (metadata.validate crates)
  if metadata.fingerprint ≠ claim.fingerprint then
    Sql.fail (.invalidMetadata "published IVF centroid fingerprint does not match claim")
  else
    validated (validateAbsoluteLocation crates metadataLocation)
    let now ← nowMs clock
    connection
    Sql.beginTransaction .sqlite
    let updated ← updateCentroids
      (fun row => row.descriptor = metadata.descriptor && row.ownedBy claim && row.leaseHolds now)
      (CentroidRow.published metadata.artifactUuid metadataLocation)
      (CentroidRow.published_key metadata.artifactUuid metadataLocation)
    Sql.check (claimKept claim updated)
    deleteTombstone metadataLocation
    Sql.commitTransaction .sqlite
    pure ⟨claim.sourceIdentity, claim.fingerprint, metadata.artifactUuid, metadataLocation⟩

end

/-- Records a failed build and releases its claim for retry. -/
def abandonIvfCentroids (claim : IvfCentroidsClaim) (error : String) : CatalogSql Unit := do
  connection
  let updated ← updateCentroids (fun row => row.ownedBy claim) (CentroidRow.abandoned error)
    (CentroidRow.abandoned_key error)
  Sql.check (claimKept claim updated)

/-- The row is ready and unchanged since `entry` was read. -/
def CentroidRow.isEntry (row : CentroidRow) (entry : IvfCentroidsCatalogEntry) : Bool :=
  row.sourceIdentity = entry.sourceIdentity && row.fingerprint = entry.fingerprint &&
    row.state = .ready && row.artifactUuid = some entry.artifactUuid &&
    row.metadataLocation = some entry.metadataLocation

/-- Removes one unchanged ready entry; returns whether it was there. -/
def purgeIvfCentroids (entry : IvfCentroidsCatalogEntry) : CatalogSql Bool := do
  connection
  let removed ← deleteCentroids fun row => row.isEntry entry
  pure (removed == 1)

/-! ## Calls -/

/-- A mutating call of the catalog. -/
inductive CatalogCall
  | register (identifier : IndexIdentifier) (source : TableDefinition) (metadataLocation : String)
      (metadata : IndexMetadata)
  | commit (identifier : IndexIdentifier) (source : TableDefinition)
      (baseLocation newLocation : String) (baseMetadata newMetadata : IndexMetadata)
  | drop (identifier : IndexIdentifier)
  | purgeTombstone (tombstone : CatalogTombstone)
  | claimIvfCentroids (source : TableDefinition) (descriptor : IvfCentroidsDescriptor)
      (owner : Uuid) (leaseDurationMs : ℤ)
  | renewIvfCentroidsClaim (claim : IvfCentroidsClaim) (leaseDurationMs : ℤ)
  | publishIvfCentroids (claim : IvfCentroidsClaim) (metadataLocation : String)
      (metadata : IvfCentroidsMetadata)
  | abandonIvfCentroids (claim : IvfCentroidsClaim) (error : String)
  | purgeIvfCentroids (entry : IvfCentroidsCatalogEntry)
deriving DecidableEq

/-- What a call returns. -/
inductive CatalogResponse
  | done
  | removed (present : Bool)
  | claim (result : IvfCentroidsClaimResult)
  | published (entry : IvfCentroidsCatalogEntry)
deriving DecidableEq

/-- The program of a call. -/
def CatalogCall.program (crates : Crates) (clock : Clock) : CatalogCall → CatalogSql CatalogResponse
  | .register identifier source metadataLocation metadata => do
      Catalog.register crates identifier source metadataLocation metadata
      pure .done
  | .commit identifier source baseLocation newLocation baseMetadata newMetadata => do
      Catalog.commit crates clock identifier source baseLocation newLocation baseMetadata newMetadata
      pure .done
  | .drop identifier => do
      Catalog.drop clock identifier
      pure .done
  | .purgeTombstone tombstone => do
      let present ← Catalog.purgeTombstone tombstone
      pure (.removed present)
  | .claimIvfCentroids source descriptor owner leaseDurationMs => do
      let result ← Catalog.claimIvfCentroids crates clock source descriptor owner leaseDurationMs
      pure (.claim result)
  | .renewIvfCentroidsClaim claim leaseDurationMs => do
      Catalog.renewIvfCentroidsClaim clock claim leaseDurationMs
      pure .done
  | .publishIvfCentroids claim metadataLocation metadata => do
      let entry ← Catalog.publishIvfCentroids crates clock claim metadataLocation metadata
      pure (.published entry)
  | .abandonIvfCentroids claim error => do
      Catalog.abandonIvfCentroids claim error
      pure .done
  | .purgeIvfCentroids entry => do
      let present ← Catalog.purgeIvfCentroids entry
      pure (.removed present)

/-- A call together with what its environment does to it: the clock it reads and the
statement at which the database fails, if any. -/
structure Request where
  call : CatalogCall
  clock : Clock
  fuse : Option ℕ

/-- One call on the catalog: its response and the tables it leaves. -/
def perform (crates : Crates) (request : Request) (tables : Tables) :
    Except CatalogError CatalogResponse × Tables :=
  Sql.call (request.call.program crates request.clock) request.fuse tables

end ParqDB.Catalog
