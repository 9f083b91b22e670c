import ParqDB.Builds.Documents
import ParqDB.Maintenance.Retention

/-!
# Builds, registrations and collections of many sessions

The sessions of one local catalog as a machine whose steps are the awaits of
`create_index` and `refresh_index` (`session/build.rs`), `register_index` and
`drop_index` (`session/catalog.rs`) and `remove_orphans`, in any order, with the lock
files and build leases of `coordination.rs` between them.

**Locks.**  A build in its setup holds the session lock shared; a publication, a
registration, a drop and a collection hold it exclusively.  A step that would wait for a
lock does nothing.

**Names.**  UUIDs and snapshot IDs are inputs.  A document is only written under a name
that was never used before, since the names contain a fresh random UUID or snapshot ID.
`Sessions.written` remembers the documents ever written; a metadata cache answers from it.
-/

namespace ParqDB.Session

open Foundations Meta Storage Catalog Maintenance

/-! ## State -/

/-- The crates and the warehouse of a deployment.  The warehouse is asked for names only that lead
back to their paths, as all names that builds and registrations write do: UUIDs, decimal numbers
and plain texts. -/
structure Site where
  crates : Crates
  warehouse : Warehouse
  readsBack : ∀ path, warehouse.ReadsBack path

theorem Site.managed_locate (site : Site) {path : ObjectPath} {directory : Bool} {location : String}
    (hlocate : site.warehouse.locate path directory = some location) :
    site.warehouse.managed location = some (path, directory) :=
  site.readsBack path directory location hlocate

/-- A location names one path. -/
theorem Site.locate_injective (site : Site) {left right : ObjectPath}
    {leftDirectory rightDirectory : Bool} {location : String}
    (hleft : site.warehouse.locate left leftDirectory = some location)
    (hright : site.warehouse.locate right rightDirectory = some location) :
    left = right ∧ leftDirectory = rightDirectory := by
  have hsame := (site.managed_locate hleft).symm.trans (site.managed_locate hright)
  simpa using hsame

/-- The snapshot a build pins with its lease. -/
structure PinnedSnapshot where
  indexUuid : Uuid
  snapshotId : ℤ
  root : ObjectPath

/-- The centroids of a build: the reference and table it publishes, and the document they were
read from. -/
structure ResolvedIvfCentroids where
  reference : IvfCentroidsReference
  centroidsLocation : String
  metadataLocation : String
  metadata : IvfCentroidsMetadata

/-- How far a build is after it pinned its snapshot root. -/
inductive Progress
  | unresolved
  /-- The claim was granted: `build_ivf_centroids`. -/
  | claimed (claim : IvfCentroidsClaim)
  | training (claim : IvfCentroidsClaim) (artifactUuid : Uuid)
  | centroidsWritten (claim : IvfCentroidsClaim) (artifactUuid : Uuid)
  | rootsWritten (claim : IvfCentroidsClaim) (artifactUuid : Uuid)
  | described (claim : IvfCentroidsClaim) (artifactUuid : Uuid) (metadataLocation : String)
      (metadata : IvfCentroidsMetadata)
  | failed (claim : IvfCentroidsClaim)
  /-- The centroids are ready: `load_ivf_centroids`. -/
  | reusing
  | found (entry : IvfCentroidsCatalogEntry)
  | loaded (entry : IvfCentroidsCatalogEntry) (metadata : IvfCentroidsMetadata)
  | tableRead (entry : IvfCentroidsCatalogEntry) (metadata : IvfCentroidsMetadata)
  | resolved (centroids : ResolvedIvfCentroids)
  | built (centroids : ResolvedIvfCentroids)

inductive Stage
  /-- The lease is reserved and the session lock is held shared. -/
  | setup
  | working (pinned : PinnedSnapshot) (progress : Progress)

/-- One `create_index` or `refresh_index` in progress. -/
structure Build where
  id : ℕ
  identifier : IndexIdentifier
  source : TableDefinition
  vectorField : String
  sourceKeyFields : List String
  config : IvfConfig
  dimension : ℕ
  ntotal : ℕ
  /-- The claim owner of this build. -/
  owner : Uuid
  refresh : Bool
  /-- The document a refresh is based on, once it is loaded. -/
  base : Option (String × IndexMetadata)
  /-- The roots in the lease file. -/
  leaseRoots : List String
  stage : Stage

/-- One `register_index` in progress. -/
structure Registration where
  identifier : IndexIdentifier
  source : TableDefinition
  manifestLocation : String
  manifest : Option ArtifactManifest
  document : Option (String × IndexMetadata)

/-- Who holds the session lock exclusively. -/
inductive Exclusive
  | free
  | publishing (build : ℕ) (document : Option (String × IndexMetadata))
  | registering (registration : Registration)
  | collecting (program : Collect (List MaintenanceObject))

/-- The catalog, the objects, the documents ever written, and the operations in progress. -/
structure Sessions where
  tables : Tables
  store : Store
  written : Store
  builds : KeyedTable Build.id
  exclusive : Exclusive

namespace Sessions

def initial : Sessions :=
  ⟨createSchema, KeyedTable.empty, KeyedTable.empty, KeyedTable.empty, .free⟩

variable (sessions : Sessions)

/-- Whether a build holds the session lock shared. -/
def shared : Bool :=
  sessions.builds.rows.any fun build =>
    match build.stage with
    | .setup => true
    | .working _ _ => false

/-- Whether the session lock can be taken exclusively. -/
def isFree : Bool :=
  match sessions.exclusive with
  | .free => !sessions.shared
  | _ => false

/-- Whether the session lock can be taken shared. -/
def allowsShared : Bool :=
  match sessions.exclusive with
  | .free => true
  | _ => false

/-- The roots in the lease files of running builds. -/
def activeBuildRoots : List String := sessions.builds.rows.flatMap Build.leaseRoots

/-- The build goes on. -/
def withBuild (build : Build) : Sessions :=
  { sessions with builds := sessions.builds.upsert build }

/-- The build ends, by its result, an error or a crash: its lease and its lock are released. -/
def stop (build : Build) : Sessions :=
  { sessions with
    builds := sessions.builds.delete fun other => other.id = build.id
    exclusive :=
      match sessions.exclusive with
      | .publishing id document =>
          if id = build.id then .free else .publishing id document
      | other => other }

/-- Writes an object of a table. -/
def put (path : ObjectPath) (modifiedMs : ℤ) : Sessions :=
  { sessions with store := sessions.store.upsert ⟨path, modifiedMs, .data⟩ }

/-- Writes a new document. -/
def putDocument (document : Object) : Option Sessions :=
  match sessions.store.insert? document, sessions.written.insert? document with
  | some store, some written => some { sessions with store := store, written := written }
  | _, _ => none

/-- The document at a location, from a cache or from the store. -/
def document (warehouse : Warehouse) (location : String) (cached : Bool) : Option Content :=
  match warehouse.managed location with
  | none => none
  | some (path, _) =>
      ((if cached then sessions.written else sessions.store).find? path).map Object.content

end Sessions

/-! ## Paths and locations -/

def snapshotRootPath (indexUuid : Uuid) (snapshotId : ℤ) : ObjectPath :=
  ["indexes", indexUuid.simple, toString snapshotId]

def centroidRootPath (artifactUuid : Uuid) : ObjectPath := ["indexes", artifactUuid.simple, "1"]

def centroidsPath (artifactUuid : Uuid) : ObjectPath :=
  centroidRootPath artifactUuid ++ ["ivf_centroids"]

def rootsPath (artifactUuid : Uuid) : ObjectPath := centroidRootPath artifactUuid ++ ["ivf_roots"]

def metadataPath (crates : Crates) (uuid : Uuid) (filename : String) : ObjectPath :=
  ["metadata", crates.uuidToString uuid, filename]

/-- The file name of a successor document. -/
def updateFilename (metadata : IndexMetadata) : String :=
  "v" ++ toString metadata.lastSequenceNumber ++ "-" ++ toString metadata.currentSnapshotId ++
    ".metadata.json"

/-- The artifact manifest of a build, in the encodings that have one. -/
def artifactManifestPath (encoding : PostingEncoding) (root : ObjectPath) : Option ObjectPath :=
  if encoding.artifactLayout then some (root ++ ["manifest.json"]) else none

/-! ## Builds -/

namespace Build

def descriptor (build : Build) : IvfCentroidsDescriptor :=
  ⟨build.vectorField, build.dimension, build.config.metric, build.config.nlist, 1⟩

def trained (build : Build) : TrainedIvf := ⟨build.dimension, build.config.nlist, build.ntotal⟩

/-- The same build at another point of its work. -/
def moveTo (build : Build) (pinned : PinnedSnapshot) (progress : Progress) : Build :=
  { build with stage := .working pinned progress }

end Build

def ivfCentroidsLeaseMs : ℤ := 30000

section

variable (site : Site) (sessions : Sessions) (build : Build)

/-- `reserve_build`: the lease of an identifier is exclusive. -/
def reserveBuild : Sessions :=
  if sessions.allowsShared &&
      !(sessions.builds.rows.any fun other =>
        other.id = build.id || other.identifier = build.identifier) then
    sessions.withBuild { build with base := none, leaseRoots := [], stage := .setup }
  else sessions

/-- A refresh loads the current document. -/
def loadBase (cached : Bool) : Sessions :=
  match build.stage, build.refresh, build.base with
  | .setup, true, none =>
      match sessions.tables.mapping build.identifier with
      | none => sessions.stop build
      | some row =>
          match sessions.document site.warehouse row.metadataLocation cached with
          | some (.index metadata) =>
              match metadata.currentSnapshot with
              | .error _ => sessions.stop build
              | .ok current =>
                  if row.sourceReference.identityKey site.crates ≠
                      build.source.identityKey site.crates then sessions.stop build
                  else sessions.withBuild { build with
                    base := some (row.metadataLocation, metadata)
                    vectorField := current.vectorField
                    sourceKeyFields := current.sourceKeyFields }
          | _ => sessions.stop build
  | _, _, _ => sessions

/-- The index a build publishes: that of its base, or a new one if there is none of its
name. -/
def Build.indexUuid (newUuid : Uuid) : Option Uuid :=
  match build.refresh, build.base with
  | true, some (_, metadata) => some metadata.indexUuid
  | true, none => none
  | false, _ => if (sessions.tables.mapping build.identifier).isSome then none else some newUuid

/-- `set_snapshot_root`: pins the root and gives the shared lock back. -/
def setSnapshotRoot (newUuid : Uuid) (snapshotId : ℤ) : Sessions :=
  match build.stage with
  | .setup =>
      match build.indexUuid sessions newUuid with
      | none => sessions.stop build
      | some indexUuid =>
          let root := snapshotRootPath indexUuid snapshotId
          match site.warehouse.locate root true with
          | none => sessions.stop build
          | some location =>
              sessions.withBuild { build with
                leaseRoots := build.leaseRoots ++ [location]
                stage := .working ⟨indexUuid, snapshotId, root⟩ .unresolved }
  | _ => sessions

/-- One round of the loop of `resolve_ivf_centroids`. -/
def resolveIvfCentroids (clock : Clock) (fuse : Option ℕ) : Sessions :=
  match build.stage with
  | .working pinned .unresolved =>
      let answer := perform site.crates
        ⟨.claimIvfCentroids build.source build.descriptor build.owner ivfCentroidsLeaseMs, clock,
          fuse⟩ sessions.tables
      let sessions := { sessions with tables := answer.2 }
      match answer.1 with
      | .ok (.claim (.ready _)) => sessions.withBuild (build.moveTo pinned .reusing)
      | .ok (.claim (.claimed claim)) => sessions.withBuild (build.moveTo pinned (.claimed claim))
      | .ok _ => sessions
      | .error _ => sessions.stop build
  | _ => sessions

/-- `load_ivf_centroids`, its catalog lookup. -/
def loadEntry : Sessions :=
  match build.stage with
  | .working pinned .reusing =>
      match build.descriptor.fingerprint site.crates with
      | .error _ => sessions.stop build
      | .ok fingerprint =>
          match sessions.tables.ivfCentroidArtifacts.find?
              (build.source.exactStateKey site.crates, fingerprint) with
          | none => sessions.stop build
          | some row =>
              match row.state, readyEntry row with
              | .ready, .ok entry => sessions.withBuild (build.moveTo pinned (.found entry))
              | _, _ => sessions.stop build
  | _ => sessions

/-- `load_ivf_centroids`, its document. -/
def loadCentroids (cached : Bool) : Sessions :=
  match build.stage with
  | .working pinned (.found entry) =>
      match sessions.document site.warehouse entry.metadataLocation cached with
      | some (.centroids metadata) =>
          if metadata.fingerprint = entry.fingerprint ∧
              metadata.artifactUuid = entry.artifactUuid ∧
              metadata.descriptor.isCompatibleWith build.descriptor = true then
            sessions.withBuild (build.moveTo pinned (.loaded entry metadata))
          else sessions.stop build
      | _ => sessions.stop build
  | _ => sessions

/-- Whether there is an object below a relative location. -/
def hasTable (relative : String) : Bool :=
  match site.warehouse.resolveWarehouseLocation relative with
  | none => false
  | some _ => sessions.store.rows.any fun object =>
      (segments relative).isPrefixOf object.path && (segments relative).length < object.path.length

/-- `load_ivf_centroids`, its read of the centroid table. -/
def readCentroids : Sessions :=
  match build.stage with
  | .working pinned (.loaded entry metadata) =>
      if hasTable site sessions metadata.centroids then
        sessions.withBuild (build.moveTo pinned (.tableRead entry metadata))
      else sessions.stop build
  | _ => sessions

/-- The resolved centroids of an entry and its document. -/
def resolvedCentroids (entry : IvfCentroidsCatalogEntry) (metadata : IvfCentroidsMetadata)
    (centroidsLocation : String) : Option ResolvedIvfCentroids :=
  match site.warehouse.relativeLocation entry.metadataLocation with
  | none => none
  | some relative =>
      match IvfCentroidsReference.new site.crates entry.fingerprint entry.artifactUuid relative with
      | .error _ => none
      | .ok reference =>
          some ⟨reference, centroidsLocation, entry.metadataLocation, metadata⟩

/-- `load_ivf_centroids`, its read of the root table and its result. -/
def readRoots : Sessions :=
  match build.stage with
  | .working pinned (.tableRead entry metadata) =>
      if hasTable site sessions metadata.roots then
        match site.warehouse.resolveWarehouseLocation metadata.centroids with
        | none => sessions.stop build
        | some centroidsLocation =>
            match resolvedCentroids site entry metadata centroidsLocation with
            | none => sessions.stop build
            | some centroids => sessions.withBuild (build.moveTo pinned (.resolved centroids))
      else sessions.stop build
  | _ => sessions

/-- `build_ivf_centroids` up to `add_snapshot_root`, which takes the lock shared. -/
def addSnapshotRoot (artifactUuid : Uuid) : Sessions :=
  match build.stage with
  | .working pinned (.claimed claim) =>
      if sessions.allowsShared then
        match site.warehouse.locate (centroidRootPath artifactUuid) true with
        | none => sessions.withBuild (build.moveTo pinned (.failed claim))
        | some location =>
            sessions.withBuild
              { (build.moveTo pinned (.training claim artifactUuid)) with
                leaseRoots :=
                  if build.leaseRoots.contains location then build.leaseRoots
                  else build.leaseRoots ++ [location] }
      else sessions
  | _ => sessions

/-- Writes the centroid table of an artifact. -/
def writeCentroids (file : String) (modifiedMs : ℤ) : Sessions :=
  match build.stage with
  | .working pinned (.training claim artifactUuid) =>
      (sessions.put (centroidsPath artifactUuid ++ [file]) modifiedMs).withBuild
        (build.moveTo pinned (.centroidsWritten claim artifactUuid))
  | _ => sessions

/-- Writes the root table of an artifact. -/
def writeRoots (file : String) (modifiedMs : ℤ) : Sessions :=
  match build.stage with
  | .working pinned (.centroidsWritten claim artifactUuid) =>
      (sessions.put (rootsPath artifactUuid ++ [file]) modifiedMs).withBuild
        (build.moveTo pinned (.rootsWritten claim artifactUuid))
  | _ => sessions

/-- The document of a trained artifact. -/
def centroidsMetadata (claim : IvfCentroidsClaim) (artifactUuid : Uuid) (createdAtMs : ℤ) :
    IvfCentroidsMetadata where
  formatVersion := 1
  artifactUuid := artifactUuid
  fingerprint := claim.fingerprint
  createdAtMs := createdAtMs
  descriptor := build.descriptor
  centroids := relativeText (centroidsPath artifactUuid) true
  roots := relativeText (rootsPath artifactUuid) true

/-- `write_ivf_centroids` of the metadata store. -/
def writeIvfCentroids (createdAtMs modifiedMs : ℤ) : Sessions :=
  match build.stage with
  | .working pinned (.rootsWritten claim artifactUuid) =>
      let metadata := centroidsMetadata build claim artifactUuid createdAtMs
      let path := metadataPath site.crates artifactUuid "v1.metadata.json"
      match metadata.validate site.crates, site.warehouse.locate (centroidsPath artifactUuid) true,
          site.warehouse.locate path false,
          sessions.putDocument ⟨path, modifiedMs, .centroids metadata⟩ with
      | .ok (), some _, some location, some sessions =>
          sessions.withBuild (build.moveTo pinned (.described claim artifactUuid location metadata))
      | _, _, _, _ => sessions.withBuild (build.moveTo pinned (.failed claim))
  | _ => sessions

/-- `publish_ivf_centroids` and the result of `build_ivf_centroids`. -/
def publishCentroids (clock : Clock) (fuse : Option ℕ) : Sessions :=
  match build.stage with
  | .working pinned (.described claim artifactUuid location metadata) =>
      let answer := perform site.crates ⟨.publishIvfCentroids claim location metadata, clock, fuse⟩
        sessions.tables
      let sessions := { sessions with tables := answer.2 }
      match answer.1, site.warehouse.locate (centroidsPath artifactUuid) true with
      | .ok (.published entry), some centroidsLocation =>
          match resolvedCentroids site entry metadata centroidsLocation with
          | some centroids => sessions.withBuild (build.moveTo pinned (.resolved centroids))
          | none => sessions.withBuild (build.moveTo pinned (.failed claim))
      | _, _ => sessions.withBuild (build.moveTo pinned (.failed claim))
  | _ => sessions

/-- The claim of a build that is training. -/
def Progress.claim? : Progress → Option IvfCentroidsClaim
  | .claimed claim | .training claim _ | .centroidsWritten claim _ | .rootsWritten claim _
  | .described claim _ _ _ => some claim
  | _ => none

/-- The heartbeat of a claim. -/
def renewClaim (clock : Clock) (fuse : Option ℕ) : Sessions :=
  match build.stage with
  | .working _ progress =>
      match progress.claim? with
      | some claim =>
          { sessions with
            tables := Catalog.next site.crates sessions.tables
              ⟨.renewIvfCentroidsClaim claim ivfCentroidsLeaseMs, clock, fuse⟩ }
      | none => sessions
  | .setup => sessions

/-- An error inside `build_ivf_centroids`. -/
def failTraining : Sessions :=
  match build.stage with
  | .working pinned progress =>
      match progress.claim? with
      | some claim => sessions.withBuild (build.moveTo pinned (.failed claim))
      | none => sessions
  | .setup => sessions

/-- After an error the claim is abandoned, and the centroids may be ready by now. -/
def abandonClaim (message : String) (clock : Clock) (fuse : Option ℕ) : Sessions :=
  match build.stage with
  | .working pinned (.failed claim) =>
      { sessions with
        tables := Catalog.next site.crates sessions.tables
          ⟨.abandonIvfCentroids claim message, clock, fuse⟩ }.withBuild (build.moveTo pinned .reusing)
  | _ => sessions

/-- Writes one object of the postings. -/
def writePostings (file : List String) (modifiedMs : ℤ) : Sessions :=
  match build.stage with
  | .working pinned (.resolved _) => sessions.put (pinned.root ++ file) modifiedMs
  | _ => sessions

/-- Writes the last object of the postings, the manifest. -/
def writeManifest (modifiedMs : ℤ) : Sessions :=
  match build.stage with
  | .working pinned (.resolved centroids) =>
      let path := (artifactManifestPath build.config.postingEncoding pinned.root).getD
        (pinned.root ++ ["ivf_postings", "manifest.json"])
      (sessions.put path modifiedMs).withBuild (build.moveTo pinned (.built centroids))
  | _ => sessions

/-- The artifacts of a build, with relative locations.  (The name of the artifact UUID is the
snapshot ID, here as its decimal text.) -/
def Build.artifacts (pinned : PinnedSnapshot) (centroids : ResolvedIvfCentroids) :
    Option IndexArtifacts :=
  match site.warehouse.locate (pinned.root ++ ["ivf_postings"]) true with
  | none => none
  | some postingsLocation =>
      let publish := fun manifestLocation => prepareParquetIndexArtifacts site.warehouse
        (ivfIndexArtifacts site.crates (site.crates.newV5 pinned.indexUuid
            (toString pinned.snapshotId)) build.config build.trained centroids.reference
          (parquetIndexTable centroids.centroidsLocation) postingsLocation manifestLocation)
      match artifactManifestPath build.config.postingEncoding pinned.root with
      | none => publish none
      | some path => (site.warehouse.locate path false).bind fun location => publish (some location)

/-- The document of a publication with its path, provided it is valid. -/
def Build.publication (pinned : PinnedSnapshot) (centroids : ResolvedIvfCentroids) (nowMs : ℤ) :
    Option (ObjectPath × IndexMetadata) :=
  let publication : Publication :=
    ⟨build.source, build.vectorField, build.sourceKeyFields, pinned.snapshotId⟩
  (build.artifacts site pinned centroids).bind fun artifacts =>
    match build.refresh, build.base with
    | true, some (_, base) =>
        (refreshedMetadata publication base nowMs artifacts).bind fun metadata =>
          match metadata.validateUpdateFrom site.crates base with
          | .ok () =>
              some (metadataPath site.crates metadata.indexUuid (updateFilename metadata), metadata)
          | .error _ => none
    | false, _ =>
        (initialMetadata publication pinned.indexUuid nowMs artifacts).bind fun metadata =>
          match metadata.validate site.crates with
          | .ok () =>
              some (metadataPath site.crates metadata.indexUuid "v1.metadata.json", metadata)
          | .error _ => none
    | true, none => none

/-- A finished build takes the lock for its publication. -/
def lockForPublication : Sessions :=
  match build.stage with
  | .working _ (.built _) =>
      if sessions.isFree then { sessions with exclusive := .publishing build.id none }
      else sessions
  | _ => sessions

/-- `write_initial` or `write_update`. -/
def writeMetadata (nowMs modifiedMs : ℤ) : Sessions :=
  match build.stage, sessions.exclusive with
  | .working pinned (.built centroids), .publishing id none =>
      if id = build.id then
        match build.publication site pinned centroids nowMs with
        | none => sessions.stop build
        | some (path, metadata) =>
            match site.warehouse.locate path false,
                sessions.putDocument ⟨path, modifiedMs, .index metadata⟩ with
            | some location, some sessions =>
                { sessions with exclusive := .publishing build.id (some (location, metadata)) }
            | _, _ => sessions.stop build
      else sessions
  | _, _ => sessions

/-- `register` or `commit`, the end of a build. -/
def publish (clock : Clock) (fuse : Option ℕ) : Sessions :=
  match sessions.exclusive with
  | .publishing id (some (location, metadata)) =>
      if id = build.id then
        let call :=
          match build.refresh, build.base with
          | true, some (baseLocation, base) =>
              CatalogCall.commit build.identifier build.source baseLocation location base metadata
          | _, _ => CatalogCall.register build.identifier build.source location metadata
        { sessions with
          tables := Catalog.next site.crates sessions.tables ⟨call, clock, fuse⟩ }.stop build
      else sessions
  | _ => sessions

end

/-- One await of a build. -/
inductive BuildStep
  | loadBase (cached : Bool)
  | setSnapshotRoot (newUuid : Uuid) (snapshotId : ℤ)
  | resolveIvfCentroids (clock : Clock) (fuse : Option ℕ)
  | loadEntry
  | loadCentroids (cached : Bool)
  | readCentroids
  | readRoots
  | addSnapshotRoot (artifactUuid : Uuid)
  | writeCentroids (file : String) (modifiedMs : ℤ)
  | writeRoots (file : String) (modifiedMs : ℤ)
  | writeIvfCentroids (createdAtMs modifiedMs : ℤ)
  | publishCentroids (clock : Clock) (fuse : Option ℕ)
  | renewClaim (clock : Clock) (fuse : Option ℕ)
  | failTraining
  | abandonClaim (message : String) (clock : Clock) (fuse : Option ℕ)
  | writePostings (file : List String) (modifiedMs : ℤ)
  | writeManifest (modifiedMs : ℤ)
  | lockForPublication
  | writeMetadata (nowMs modifiedMs : ℤ)
  | publish (clock : Clock) (fuse : Option ℕ)
  /-- The build returns an error, or its process ends. -/
  | stop

def Build.step (site : Site) (sessions : Sessions) (build : Build) : BuildStep → Sessions
  | .loadBase cached => loadBase site sessions build cached
  | .setSnapshotRoot newUuid snapshotId => setSnapshotRoot site sessions build newUuid snapshotId
  | .resolveIvfCentroids clock fuse => resolveIvfCentroids site sessions build clock fuse
  | .loadEntry => loadEntry site sessions build
  | .loadCentroids cached => loadCentroids site sessions build cached
  | .readCentroids => readCentroids site sessions build
  | .readRoots => readRoots site sessions build
  | .addSnapshotRoot artifactUuid => addSnapshotRoot site sessions build artifactUuid
  | .writeCentroids file modifiedMs => writeCentroids sessions build file modifiedMs
  | .writeRoots file modifiedMs => writeRoots sessions build file modifiedMs
  | .writeIvfCentroids createdAtMs modifiedMs =>
      writeIvfCentroids site sessions build createdAtMs modifiedMs
  | .publishCentroids clock fuse => publishCentroids site sessions build clock fuse
  | .renewClaim clock fuse => renewClaim site sessions build clock fuse
  | .failTraining => failTraining sessions build
  | .abandonClaim message clock fuse => abandonClaim site sessions build message clock fuse
  | .writePostings file modifiedMs => writePostings sessions build file modifiedMs
  | .writeManifest modifiedMs => writeManifest sessions build modifiedMs
  | .lockForPublication => lockForPublication sessions build
  | .writeMetadata nowMs modifiedMs => writeMetadata site sessions build nowMs modifiedMs
  | .publish clock fuse => publish site sessions build clock fuse
  | .stop => sessions.stop build

/-! ## Drops, registrations and collections -/

section

variable (site : Site) (sessions : Sessions)

/-- `drop_index`, one transaction under the exclusive lock. -/
def dropIndex (identifier : IndexIdentifier) (clock : Clock) (fuse : Option ℕ) : Sessions :=
  if sessions.isFree then
    { sessions with
      tables := Catalog.next site.crates sessions.tables ⟨.drop identifier, clock, fuse⟩ }
  else sessions

/-- `register_index` takes the lock and looks for the name. -/
def beginRegistration (identifier : IndexIdentifier) (source : TableDefinition)
    (manifestLocation : String) : Sessions :=
  if sessions.isFree && (sessions.tables.mapping identifier).isNone then
    { sessions with exclusive := .registering ⟨identifier, source, manifestLocation, none, none⟩ }
  else sessions

/-- `register_index` reads the manifest, from the warehouse or from elsewhere; a metadata
document is no manifest. -/
def loadManifest (manifest : ArtifactManifest) : Sessions :=
  match sessions.exclusive with
  | .registering registration =>
      let present : Bool :=
        match site.warehouse.managed registration.manifestLocation with
        | none => true
        | some (path, _) => (sessions.store.find? path).any fun object => object.content = .data
      if present then
        { sessions with exclusive := .registering { registration with manifest := some manifest } }
      else { sessions with exclusive := .free }
  | _ => sessions

/-- `register_index` writes its document. -/
def writeRegistration (indexUuid : Uuid) (snapshotId nowMs modifiedMs : ℤ) : Sessions :=
  match sessions.exclusive with
  | .registering ⟨identifier, source, manifestLocation, some manifest, none⟩ =>
      let metadata := registeredArtifactMetadata site.crates source manifest manifestLocation
        indexUuid snapshotId nowMs
      let path := metadataPath site.crates indexUuid "v1.metadata.json"
      match validateAbsoluteLocation site.crates manifestLocation, metadata.validate site.crates,
          site.warehouse.locate path false,
          sessions.putDocument ⟨path, modifiedMs, .index metadata⟩ with
      | .ok (), .ok (), some location, some sessions =>
          { sessions with
            exclusive := .registering
              ⟨identifier, source, manifestLocation, some manifest, some (location, metadata)⟩ }
      | _, _, _, _ => { sessions with exclusive := .free }
  | _ => sessions

/-- `register_index` registers its document. -/
def finishRegistration (clock : Clock) (fuse : Option ℕ) : Sessions :=
  match sessions.exclusive with
  | .registering ⟨identifier, source, _, _, some (location, metadata)⟩ =>
      { sessions with
        tables := Catalog.next site.crates sessions.tables
          ⟨.register identifier source location metadata, clock, fuse⟩
        exclusive := .free }
  | _ => sessions

/-- `remove_orphans` takes the lock and reads the lease files. -/
def beginCollection (clock : Clock) (olderThanMs : ℤ) (dryRun : Bool) : Sessions :=
  if sessions.isFree then
    { sessions with
      exclusive := .collecting (removeOrphans site.crates site.warehouse clock
        sessions.activeBuildRoots olderThanMs dryRun) }
  else sessions

/-- What a collection meets at one await. -/
def setting (session : SessionState) : Setting where
  crates := site.crates
  warehouse := site.warehouse
  external := session.external
  cached := fun location =>
    if session.cached location then sessions.document site.warehouse location true else none
  faults := session.faults

/-- One await of a collection; when there is none left the lock is released. -/
def collect (session : SessionState) : Sessions :=
  match sessions.exclusive with
  | .collecting (.await operation next) =>
      let answer := (setting site sessions session).respond operation
        ⟨sessions.tables, sessions.store⟩
      { sessions with
        tables := answer.2.tables
        store := answer.2.store
        exclusive := .collecting (next answer.1) }
  | .collecting _ => { sessions with exclusive := .free }
  | _ => sessions

/-- A registration or a collection returns an error, or its process ends. -/
def abort : Sessions :=
  match sessions.exclusive with
  | .registering _ | .collecting _ => { sessions with exclusive := .free }
  | _ => sessions

end

/-- One step of the sessions. -/
inductive Step
  | reserve (build : Build)
  | build (id : ℕ) (step : BuildStep)
  | drop (identifier : IndexIdentifier) (clock : Clock) (fuse : Option ℕ)
  | beginRegistration (identifier : IndexIdentifier) (source : TableDefinition)
      (manifestLocation : String)
  | loadManifest (manifest : ArtifactManifest)
  | writeRegistration (indexUuid : Uuid) (snapshotId nowMs modifiedMs : ℤ)
  | finishRegistration (clock : Clock) (fuse : Option ℕ)
  | beginCollection (clock : Clock) (olderThanMs : ℤ) (dryRun : Bool)
  | collect (session : SessionState)
  | abort

/-- The sessions after a step; a build that is not running takes none. -/
def next (site : Site) (sessions : Sessions) : Step → Sessions
  | .reserve build => reserveBuild sessions build
  | .build id step =>
      match sessions.builds.find? id with
      | none => sessions
      | some build => build.step site sessions step
  | .drop identifier clock fuse => dropIndex site sessions identifier clock fuse
  | .beginRegistration identifier source manifestLocation =>
      beginRegistration sessions identifier source manifestLocation
  | .loadManifest manifest => loadManifest site sessions manifest
  | .writeRegistration indexUuid snapshotId nowMs modifiedMs =>
      writeRegistration site sessions indexUuid snapshotId nowMs modifiedMs
  | .finishRegistration clock fuse => finishRegistration site sessions clock fuse
  | .beginCollection clock olderThanMs dryRun =>
      beginCollection site sessions clock olderThanMs dryRun
  | .collect session => collect site sessions session
  | .abort => abort sessions

end ParqDB.Session
