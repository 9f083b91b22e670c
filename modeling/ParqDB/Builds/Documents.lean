import ParqDB.Maintenance.Contract

/-!
# The documents a session publishes

The metadata documents that `create_index`, `refresh_index` and `register_index` write:
the artifacts of a build (`parqdb-local/src/builder/mod.rs`, `ivf_index_artifacts`), their
locations made relative (`session/build.rs`, `prepare_parquet_index_artifacts`), and the
documents around them (`parqdb-index/src/publication.rs`, `session/catalog.rs`).

**Results.**  What the new snapshot refers to: in the source encoding its tables and the
centroid document its build resolved (`prepare_sourceArtifacts`, `centroidReference_source`);
as an artifact only its manifest (`prepare_manifestArtifacts`, `centroidReference_artifact`).
-/

namespace ParqDB.Session

open Foundations Meta Storage Maintenance

/-! ## Artifacts of a build -/

/-- Logical IVF construction options. -/
structure IvfConfig where
  nlist : ℕ
  postingEncoding : PostingEncoding
  metric : DistanceMetric
deriving DecidableEq

/-- The shape of a trained model. -/
structure TrainedIvf where
  dimension : ℕ
  nlist : ℕ
  ntotal : ℕ
deriving DecidableEq

/-- The tables and parameters a build produces. -/
structure IndexArtifacts where
  metric : DistanceMetric
  parameters : Properties
  indexProvider : IndexProviderDefinition
  indexTables : SortedMap IndexTableDefinition

def parquetIndexProvider : IndexProviderDefinition := ⟨"parquet", SortedMap.empty⟩

def parquetIndexTable (location : String) : IndexTableDefinition :=
  ⟨1, ⟨[("location", location)], by simp⟩⟩

def parquetArtifactTable (location : String) : IndexTableDefinition :=
  ⟨1, ⟨[("layout", "artifact-manifest"), ("location", location)], by
    simp only [List.map_cons, List.map_nil]
    decide⟩⟩

/-- The two tables of an IVF index. -/
def ivfTables (centroids postings : IndexTableDefinition) : SortedMap IndexTableDefinition :=
  ⟨[("ivf_centroids", centroids), ("ivf_postings", postings)], by
    simp only [List.map_cons, List.map_nil]
    decide⟩

/-- The parameters of a self-contained artifact. -/
def artifactParameters (artifactUuid dimension nlist ntotal postingEncoding : String) :
    Properties :=
  ⟨[("artifact_uuid", artifactUuid), ("dimension", dimension), ("nlist", nlist),
    ("ntotal", ntotal), ("posting_encoding", postingEncoding)], by
    simp only [List.map_cons, List.map_nil]
    decide⟩

/-- The parameters of an index that shares its centroids. -/
def sourceParameters (dimension nlist ntotal postingEncoding fingerprint centroidsUuid
    metadataLocation : String) : Properties :=
  ⟨[("dimension", dimension), ("ivf_centroids_fingerprint", fingerprint),
    ("ivf_centroids_metadata_location", metadataLocation), ("ivf_centroids_uuid", centroidsUuid),
    ("nlist", nlist), ("ntotal", ntotal), ("posting_encoding", postingEncoding)], by
    simp only [List.map_cons, List.map_nil]
    decide⟩

def ivfIndexArtifacts (crates : Crates) (artifactUuid : Uuid) (config : IvfConfig)
    (trained : TrainedIvf) (ivfCentroids : IvfCentroidsReference) (centroids : IndexTableDefinition)
    (postingsLocation : String) (artifactManifest : Option String) : IndexArtifacts where
  metric := config.metric
  parameters :=
    match artifactManifest with
    | some _ => artifactParameters (crates.uuidToString artifactUuid) (toString trained.dimension)
        (toString trained.nlist) (toString trained.ntotal) config.postingEncoding.asStr
    | none => sourceParameters (toString trained.dimension) (toString trained.nlist)
        (toString trained.ntotal) config.postingEncoding.asStr ivfCentroids.fingerprint
        (crates.uuidToString ivfCentroids.artifactUuid) ivfCentroids.metadataLocation
  indexProvider := parquetIndexProvider
  indexTables :=
    match artifactManifest with
    | some manifestLocation =>
        ivfTables (parquetArtifactTable manifestLocation) (parquetArtifactTable manifestLocation)
    | none => ivfTables centroids (parquetIndexTable postingsLocation)

/-- A table with its location made relative to the warehouse. -/
def relativeTable (warehouse : Warehouse) (table : IndexTableDefinition) :
    Option IndexTableDefinition :=
  match table.properties.get? "location" with
  | none => none
  | some location =>
      (warehouse.relativeLocation location).map fun relative =>
        { table with properties := table.properties.replace "location" relative }

def prepareParquetIndexArtifacts (warehouse : Warehouse) (build : IndexArtifacts) :
    Option IndexArtifacts :=
  if build.indexProvider.provider ≠ "parquet" then none
  else (build.indexTables.traverse? (relativeTable warehouse)).map fun tables =>
    { build with indexTables := tables }

/-! ## Documents -/

/-- The number of indexed rows among the parameters, if it is positive. -/
def indexedRows (parameters : Properties) : Option ℤ :=
  ((parameters.get? "ntotal").bind fun text => parseUnsigned text.toList).bind fun value =>
    if 0 < value && value < 2 ^ 63 then some value else none

def summary (operation builder : String) : Properties :=
  ⟨[("builder", builder), ("operation", operation)], by
    simp only [List.map_cons, List.map_nil]
    decide⟩

/-- What a publication is given besides its artifacts. -/
structure Publication where
  source : TableDefinition
  vectorField : String
  sourceKeyFields : List String
  snapshotId : ℤ

/-- The snapshot a publication adds. -/
def newSnapshot (publication : Publication) (operation : String)
    (sequenceNumber timestampMs rows : ℤ) (build : IndexArtifacts) : IndexSnapshot where
  snapshotId := publication.snapshotId
  sequenceNumber := sequenceNumber
  timestampMs := timestampMs
  summary := summary operation "local"
  sourceTable := publication.source
  vectorField := publication.vectorField
  sourceKeyFields := publication.sourceKeyFields
  indexedRows := rows
  indexFamily := "ivf"
  indexSchemaVersion := ivfSchemaVersion
  metric := build.metric.asStr
  parameters := build.parameters
  indexProvider := build.indexProvider
  indexTables := build.indexTables

/-- The document of a first snapshot. -/
def firstMetadata (indexUuid : Uuid) (snapshot : IndexSnapshot) : IndexMetadata where
  formatVersion := 1
  indexUuid := indexUuid
  lastUpdatedMs := snapshot.timestampMs
  lastSequenceNumber := 1
  currentSnapshotId := snapshot.snapshotId
  snapshots := [snapshot]
  snapshotLog := [⟨snapshot.timestampMs, snapshot.snapshotId⟩]
  properties := SortedMap.empty

/-- The document of `publish_initial`. -/
def initialMetadata (publication : Publication) (indexUuid : Uuid) (timestampMs : ℤ)
    (build : IndexArtifacts) : Option IndexMetadata :=
  (indexedRows build.parameters).map fun rows =>
    firstMetadata indexUuid (newSnapshot publication "create" 1 timestampMs rows build)

/-- The document of `publish_refresh`; the base has the vector and key fields. -/
def refreshedMetadata (publication : Publication) (base : IndexMetadata) (nowMs : ℤ)
    (build : IndexArtifacts) : Option IndexMetadata :=
  match base.currentSnapshot, indexedRows build.parameters with
  | .ok current, some rows =>
      if base.lastSequenceNumber + 1 < 2 ^ 63 then
        let timestampMs := max nowMs base.lastUpdatedMs
        let snapshot := newSnapshot
          { publication with
            vectorField := current.vectorField, sourceKeyFields := current.sourceKeyFields }
          "refresh" (base.lastSequenceNumber + 1) timestampMs rows build
        some { base with
          lastUpdatedMs := timestampMs
          lastSequenceNumber := base.lastSequenceNumber + 1
          currentSnapshotId := publication.snapshotId
          snapshots := base.snapshots ++ [snapshot]
          snapshotLog := base.snapshotLog ++ [⟨timestampMs, publication.snapshotId⟩] }
      else none
  | _, _ => none

/-- The parts of an artifact manifest that its registration reads. -/
structure ArtifactManifest where
  artifactUuid : Uuid
  vectorField : String
  metric : DistanceMetric
  postingEncoding : PostingEncoding
  dimension : ℤ
  nlist : ℤ
  ntotal : ℤ
  sourceKeyFields : List String
deriving DecidableEq

/-- The document of `register_index`. -/
def registeredArtifactMetadata (crates : Crates) (source : TableDefinition)
    (manifest : ArtifactManifest) (manifestLocation : String) (indexUuid : Uuid)
    (snapshotId timestampMs : ℤ) : IndexMetadata :=
  firstMetadata indexUuid
    { snapshotId := snapshotId
      sequenceNumber := 1
      timestampMs := timestampMs
      summary := ⟨[("operation", "register")], by simp⟩
      sourceTable := source
      vectorField := manifest.vectorField
      sourceKeyFields := manifest.sourceKeyFields
      indexedRows := manifest.ntotal
      indexFamily := "ivf"
      indexSchemaVersion := ivfSchemaVersion
      metric := manifest.metric.asStr
      parameters := artifactParameters (crates.uuidToString manifest.artifactUuid)
        (toString manifest.dimension) (toString manifest.nlist) (toString manifest.ntotal)
        manifest.postingEncoding.asStr
      indexProvider := parquetIndexProvider
      indexTables := ivfTables (parquetArtifactTable manifestLocation)
        (parquetArtifactTable manifestLocation) }

/-! ## What the new snapshots refer to -/

section

variable {crates : Crates} {warehouse : Warehouse}

/-- A URL has a scheme: a path that starts with `indexes/` is none. -/
def NeedsScheme (crates : Crates) : Prop :=
  ∀ text : String, "indexes/".toList <+: text.toList → ∃ message, crates.parseUrl text = .error message

/-- The layout of a snapshot root: `indexes/<uuid>/<snapshot id>`. -/
structure IsRoot (root : ObjectPath) : Prop where
  length : root.length = 3
  head : root.head? = some "indexes"

variable {path root : ObjectPath} {directory : Bool} {location : String}
  {centroids : IndexTableDefinition} {ivfCentroids : IvfCentroidsReference}
  {postingsLocation : String}

/-- The root of a path below a root is that root, if it has one. -/
theorem IsRoot.rootPath_eq {found : ObjectPath} (hroot : IsRoot root) (hbelow : root <+: path)
    (hfound : rootPath crates path = some found) : found = root := by
  obtain ⟨rest, hpath, hlength, -⟩ := rootPath_eq_some hfound
  obtain ⟨more, rfl⟩ := hbelow
  have hsame : root.length = found.length := hroot.length.trans hlength.symm
  exact (List.append_inj_left hpath hsame).symm

private theorem indexes_relativeText (hroot : IsRoot root) (hbelow : root <+: path)
    (directory : Bool) : "indexes/".toList <+: (relativeText path directory).toList := by
  obtain ⟨rest, rfl⟩ := hbelow
  match root, hroot.length, hroot.head with
  | [first, uuid, snapshot], _, hhead =>
      obtain rfl : first = "indexes" := by simpa using hhead
      have htext : (relativeText (["indexes", uuid, snapshot] ++ rest) directory).toList =
          "indexes/".toList ++ (['/'].intercalate ((uuid :: snapshot :: rest).map String.toList) ++
            if directory then ['/'] else []) := by
        unfold relativeText
        rw [String.toList_ofList, List.cons_append, List.cons_append, List.map_cons, List.map_cons,
          List.intercalate_cons_cons]
        simp
      rw [htext]
      exact List.prefix_append _ _

theorem validateTableDefinition_parquetIndexTable (location : String) :
    validateTableDefinition (parquetIndexTable location) = .ok location := by
  simp [validateTableDefinition, parquetIndexTable, SortedMap.get?, SortedMap.size, bind,
    Except.bind]

theorem validateTableDefinition_parquetArtifactTable (location : String) :
    validateTableDefinition (parquetArtifactTable location) = .ok location := by
  simp [validateTableDefinition, parquetArtifactTable, SortedMap.get?, SortedMap.size, List.lookup_cons,
    bind, Except.bind]

/-- A table whose stored location is relative to the warehouse. -/
theorem tableLocation_relative (hscheme : NeedsScheme crates) {table : IndexTableDefinition}
    (htable : validateTableDefinition table = .ok (relativeText path directory))
    (hroot : IsRoot root) (hbelow : root <+: path)
    (hlocate : warehouse.locate path directory = some location) :
    tableLocation crates warehouse table = .ok location := by
  obtain ⟨message, hparse⟩ := hscheme _ (indexes_relativeText hroot hbelow directory)
  unfold tableLocation
  rw [htable]
  simp only [bind, Except.bind, hparse, Warehouse.location_relativeText hlocate, requireLocation]

theorem relativeTable_parquetIndexTable (hback : warehouse.ReadsBack path)
    (hlocate : warehouse.locate path directory = some location) :
    relativeTable warehouse (parquetIndexTable location) =
      some (parquetIndexTable (relativeText path directory)) := by
  have hrelative := hback.relativeLocation hlocate
  simp [relativeTable, parquetIndexTable, SortedMap.get?, SortedMap.replace, hrelative]

theorem relativeTable_parquetArtifactTable (hback : warehouse.ReadsBack path)
    (hlocate : warehouse.locate path directory = some location) :
    relativeTable warehouse (parquetArtifactTable location) =
      some (parquetArtifactTable (relativeText path directory)) := by
  have hrelative := hback.relativeLocation hlocate
  simp [relativeTable, parquetArtifactTable, SortedMap.get?, SortedMap.replace, hrelative,
    List.lookup_cons]

theorem traverse_ivfTables {change : IndexTableDefinition → Option IndexTableDefinition}
    {postings centroids' postings' : IndexTableDefinition}
    (hcentroids : change centroids = some centroids') (hpostings : change postings = some postings') :
    (ivfTables centroids postings).traverse? change = some (ivfTables centroids' postings') := by
  simp [SortedMap.traverse?, ivfTables, hcentroids, hpostings]

variable {config : IvfConfig} {trained : TrainedIvf} {encoding : String}

/-- The artifacts of a build in the source encoding. -/
theorem prepare_sourceArtifacts (hback : ∀ path, warehouse.ReadsBack path) {artifactUuid : Uuid} {centroidsPath postingsPath : ObjectPath}
    {centroidsLocation : String}
    (hcentroids : warehouse.locate centroidsPath true = some centroidsLocation)
    (hpostings : warehouse.locate postingsPath true = some postingsLocation) :
    prepareParquetIndexArtifacts warehouse (ivfIndexArtifacts crates artifactUuid config trained
        ivfCentroids (parquetIndexTable centroidsLocation) postingsLocation none) =
      some
        { metric := config.metric
          parameters := sourceParameters (toString trained.dimension) (toString trained.nlist)
            (toString trained.ntotal) config.postingEncoding.asStr ivfCentroids.fingerprint
            (crates.uuidToString ivfCentroids.artifactUuid) ivfCentroids.metadataLocation
          indexProvider := parquetIndexProvider
          indexTables := ivfTables (parquetIndexTable (relativeText centroidsPath true))
            (parquetIndexTable (relativeText postingsPath true)) } := by
  have htables := traverse_ivfTables (relativeTable_parquetIndexTable (hback _) hcentroids)
    (relativeTable_parquetIndexTable (hback _) hpostings)
  simp [prepareParquetIndexArtifacts, ivfIndexArtifacts, parquetIndexProvider, htables]

/-- The artifacts of a build in an encoding with a manifest. -/
theorem prepare_manifestArtifacts (hback : ∀ path, warehouse.ReadsBack path)
    {artifactUuid : Uuid} {manifestLocation : String} {manifestPath : ObjectPath}
    (hmanifest : warehouse.locate manifestPath false = some manifestLocation) :
    prepareParquetIndexArtifacts warehouse (ivfIndexArtifacts crates artifactUuid config trained
        ivfCentroids centroids postingsLocation (some manifestLocation)) =
      some
        { metric := config.metric
          parameters := artifactParameters (crates.uuidToString artifactUuid)
            (toString trained.dimension) (toString trained.nlist) (toString trained.ntotal)
            config.postingEncoding.asStr
          indexProvider := parquetIndexProvider
          indexTables := ivfTables (parquetArtifactTable (relativeText manifestPath false))
            (parquetArtifactTable (relativeText manifestPath false)) } := by
  have htables := traverse_ivfTables (relativeTable_parquetArtifactTable (hback _) hmanifest)
    (relativeTable_parquetArtifactTable (hback _) hmanifest)
  simp [prepareParquetIndexArtifacts, ivfIndexArtifacts, parquetIndexProvider, htables]

variable {snapshot : IndexSnapshot}

/-- The parameters a reference is read from. -/
theorem ivfCentroidsReference_eq_ok {reference : IvfCentroidsReference}
    (hreference : ivfCentroidsReference crates snapshot = .ok reference) :
    (∃ fingerprint,
      requiredParameter snapshot.parameters "ivf_centroids_fingerprint" = .ok fingerprint) ∧
    requiredParameter snapshot.parameters "ivf_centroids_metadata_location" =
      .ok reference.metadataLocation := by
  unfold ivfCentroidsReference at hreference
  dsimp only at hreference
  split at hreference
  · cases hreference
  obtain ⟨fingerprint, hfingerprint, hreference⟩ := bind_eq_ok.mp hreference
  obtain ⟨artifactUuid, -, hreference⟩ := bind_eq_ok.mp hreference
  obtain ⟨metadataLocation, hmetadataLocation, hreference⟩ := bind_eq_ok.mp hreference
  obtain ⟨_, -, hnew⟩ := bind_eq_ok.mp hreference
  cases hnew
  exact ⟨⟨fingerprint, hfingerprint⟩, hmetadataLocation⟩

/-- The centroid document of a snapshot in the source encoding is the one its build resolved. -/
theorem centroidReference_source {dimension nlist ntotal fingerprint uuid : String} {found : String}
    (hparameters : snapshot.parameters = sourceParameters dimension nlist ntotal encoding
      fingerprint uuid (relativeText path false))
    (hlocate : warehouse.locate path false = some location)
    (hfound : centroidReference crates warehouse snapshot = some found) : found = location := by
  unfold centroidReference at hfound
  split at hfound
  · cases hfound
  · rename_i reference hreference
    have hread := (ivfCentroidsReference_eq_ok hreference).2
    rw [hparameters] at hread
    obtain hlocation : relativeText path false = reference.metadataLocation := Except.ok.inj hread
    have hresolved := (Option.filter_eq_some_iff.mp hfound).1
    unfold Warehouse.resolveWarehouseLocation at hresolved
    rw [← hlocation] at hresolved
    split at hresolved
    · cases hresolved
    · exact Option.some.inj (hresolved.symm.trans (Warehouse.location_relativeText hlocate))

/-- A self-contained artifact refers to no centroid document. -/
theorem centroidReference_artifact {artifactUuid dimension nlist ntotal : String}
    (hparameters : snapshot.parameters = artifactParameters artifactUuid dimension nlist ntotal
      encoding) : centroidReference crates warehouse snapshot = none := by
  unfold centroidReference
  split
  · rfl
  · rename_i reference hreference
    obtain ⟨fingerprint, hfingerprint⟩ := (ivfCentroidsReference_eq_ok hreference).1
    rw [hparameters] at hfingerprint
    cases hfingerprint

end

end ParqDB.Session
