import ParqDB.Builds.LiveIndexes
import ParqDB.Ivf.SourceColumns
import ParqDB.Meta.UpdateRules
import ParqDB.Session.SourceBindings

/-!
# The document a refresh publishes

`refresh_index_with_identifier` admits a bound source by its *identity key*
(`session/build.rs`), builds a whole artifact, and only then does `publish_refresh` check the
document it constructed as an update of its base (`parqdb-index/src/publication.rs`), which
compares the *identifier* and the provider of the source (`SnapshotIdentity`).

The scan of the source, the shared centroids, the clock and the random bits of the snapshot
ID are inputs here; every check on the way to the document is made.

**Results.**

* `refresh_publishable_iff`: the document passes exactly when the bound source has the
  identifier and the provider of the base's source and the base retains no snapshot of the new
  ID.
* `aliased_refresh_fails`: the next snapshot of a table, registered under another name, has the
  same identity key, and its refresh fails after the artifact was built.
-/

namespace ParqDB.Session.RefreshDocuments

open Foundations Meta Storage IndexMetadata

/-! ## Refreshes -/

/-- What `resolve_ivf_centroids` comes back with. -/
structure CentroidArtifact where
  fingerprint : String
  artifactUuid : Uuid
  metadataLocation : String
  centroidsLocation : String

/-- Everything a refresh is given. -/
structure Refresh where
  /-- The source of the catalog entry. -/
  entrySource : TableDefinition
  base : IndexMetadata
  /-- The source that is asked for. -/
  source : TableDefinition
  /-- What the session has bound. -/
  bindings : KeyedTable SourceBinding.key
  requested : Option IvfConfig
  /-- The rows of the source and the dimension of their vectors. -/
  rows : ℕ
  dimension : ℕ
  artifact : CentroidArtifact
  /-- The first eight bytes of a random UUID. -/
  snapshotBits : BitVec 64
  nowMs : ℤ

/-- Allocates a positive snapshot identifier. -/
def newSnapshotId (first : BitVec 64) : ℤ := max ((first &&& 0x7fffffffffffffff#64).toNat : ℤ) 1

def parameterUsize (snapshot : IndexSnapshot) (name : String) : Except String ℕ := do
  match parseUnsigned (← requiredParameter snapshot.parameters name).toList with
  | some value =>
      if 2 ^ 64 ≤ value then invalid ("invalid parameter: " ++ name)
      .ok value
  | none => invalid ("invalid parameter: " ++ name)

def resolveRefreshConfig (current : IndexSnapshot) (requested : Option IvfConfig) :
    Except String IvfConfig := do
  match DistanceMetric.fromMetadata current.metric with
  | none => invalid ("unsupported IVF metric: " ++ current.metric)
  | some currentMetric => do
      let nlist ← parameterUsize current "nlist"
      let postingEncoding ← PostingEncoding.fromSnapshot current
      let config := requested.getD ⟨nlist, postingEncoding, currentMetric⟩
      if config.nlist = 0 || 2 ^ 31 - 1 < config.nlist then
        invalid "nlist must be in 1..=2147483647"
      if config.metric ≠ currentMetric then
        invalid "refresh cannot change the distance metric; create a new index instead"
      .ok config

/-- The shape `prepare_training` finds; training and reuse keep it. -/
def prepareTraining (rows dimension nlist : ℕ) : Except String TrainedIvf := do
  if rows = 0 then invalid "source table must contain at least one row"
  if rows < nlist then invalid s!"nlist ({nlist}) must not exceed ntotal ({rows})"
  .ok ⟨dimension, nlist, rows⟩

/-- The descriptor of the centroids, the catalog's artifact for it, and the reference to that. -/
def resolveIvfCentroids (crates : Crates) (vectorField : String) (config : IvfConfig)
    (prepared : TrainedIvf) (artifact : CentroidArtifact) :
    Except String IvfCentroidsReference := do
  if 2 ^ 31 ≤ prepared.dimension then invalid "vector dimension exceeds int32"
  if 2 ^ 31 ≤ prepared.nlist then invalid "nlist exceeds int32"
  let descriptor : IvfCentroidsDescriptor :=
    ⟨vectorField, prepared.dimension, config.metric, prepared.nlist, 1⟩
  let _ ← descriptor.fingerprint crates
  IvfCentroidsReference.new crates artifact.fingerprint artifact.artifactUuid
    artifact.metadataLocation

/-- The step from an optional result, with the error of its absence. -/
def required {α : Type} (message : String) : Option α → Except String α
  | some value => .ok value
  | none => invalid message

/-- The manifest of a self-contained artifact. -/
def artifactManifest (site : Site) (encoding : PostingEncoding) (root : ObjectPath) :
    Except String (Option String) :=
  match artifactManifestPath encoding root with
  | none => .ok none
  | some path =>
      (required "invalid warehouse location" (site.warehouse.locate path false)).map some

/-- What `build_ivf_postings` and `prepare_parquet_index_artifacts` return. -/
def refreshArtifacts (site : Site) (root : ObjectPath) (artifactUuid : Uuid) (config : IvfConfig)
    (trained : TrainedIvf) (reference : IvfCentroidsReference) (centroidsLocation : String) :
    Except String IndexArtifacts := do
  let postingsLocation ← required "invalid warehouse location"
    (site.warehouse.locate (root ++ ["ivf_postings"]) true)
  let manifestLocation ← artifactManifest site config.postingEncoding root
  required "location is outside the warehouse"
    (prepareParquetIndexArtifacts site.warehouse
      (ivfIndexArtifacts site.crates artifactUuid config trained reference
        (parquetIndexTable centroidsLocation) postingsLocation manifestLocation))

/-- The UUID of the artifact. -/
def Refresh.artifactUuid (crates : Crates) (refresh : Refresh) : Uuid :=
  crates.newV5 refresh.base.indexUuid (toString (newSnapshotId refresh.snapshotBits))

/-- What `refresh_index_with_identifier` builds for an admitted source, up to the document that
`publish_refresh` constructs. -/
def builtDocument (site : Site) (refresh : Refresh) (current : IndexSnapshot)
    (bound : TableDefinition) : Except String IndexMetadata := do
  let config ← resolveRefreshConfig current refresh.requested
  Ivf.validateRequest current.vectorField current.sourceKeyFields config.nlist
  let trained ← prepareTraining refresh.rows refresh.dimension config.nlist
  let reference ← resolveIvfCentroids site.crates current.vectorField config trained
    refresh.artifact
  let artifacts ← refreshArtifacts site
    (snapshotRootPath refresh.base.indexUuid (newSnapshotId refresh.snapshotBits))
    (refresh.artifactUuid site.crates) config trained reference refresh.artifact.centroidsLocation
  required "ntotal must be a positive indexed row count"
    (refreshedMetadata ⟨bound, current.vectorField, current.sourceKeyFields,
      newSnapshotId refresh.snapshotBits⟩ refresh.base refresh.nowMs artifacts)

/-- `refresh_index_with_identifier` -/
def refreshDocument (site : Site) (providers : Providers) (refresh : Refresh) :
    Except String IndexMetadata := do
  let current ← refresh.base.currentSnapshot
  let bound ← bindTable site.crates providers refresh.bindings refresh.source
  if refresh.entrySource.identityKey site.crates ≠ bound.identityKey site.crates then
    invalid "index not found"
  builtDocument site refresh current bound

/-! ## Artifacts -/

section

variable {site : Site} {config : IvfConfig} {trained : TrainedIvf}
  {reference : IvfCentroidsReference} {artifactUuid : Uuid}

theorem required_eq_ok {α : Type} {message : String} {outcome : Option α} {value : α} :
    required message outcome = .ok value ↔ outcome = some value := by
  cases outcome with
  | none => simp [required]
  | some found => simp [required]

/-- A table with a relative location is as valid as the table was. -/
theorem relativeTable_validate {table relative : IndexTableDefinition}
    (hrelative : relativeTable site.warehouse table = some relative)
    (hvalid : table.validate = .ok ()) : relative.validate = .ok () := by
  unfold relativeTable at hrelative
  split at hrelative
  · cases hrelative
  · obtain ⟨location, -, rfl⟩ := Option.map_eq_some_iff.mp hrelative
    rw [IndexTableDefinition.validate] at hvalid ⊢
    have hkeys : (table.properties.replace "location" location).keys = table.properties.keys := by
      rw [SortedMap.keys, SortedMap.keys, SortedMap.replace, List.map_map]
      rfl
    rwa [hkeys]

theorem traverse_ivfTables_eq_some {change : IndexTableDefinition → Option IndexTableDefinition}
    {centroids postings : IndexTableDefinition} {tables : SortedMap IndexTableDefinition}
    (htables : (ivfTables centroids postings).traverse? change = some tables) :
    ∃ centroids' postings', change centroids = some centroids' ∧
      change postings = some postings' ∧ tables = ivfTables centroids' postings' := by
  cases hcentroids : change centroids with
  | none => simp [SortedMap.traverse?, ivfTables, hcentroids] at htables
  | some centroids' =>
      cases hpostings : change postings with
      | none => simp [SortedMap.traverse?, ivfTables, hpostings] at htables
      | some postings' =>
          rw [traverse_ivfTables hcentroids hpostings] at htables
          exact ⟨centroids', postings', rfl, rfl, (Option.some.inj htables).symm⟩

/-- The parameters of a build. -/
def buildParameters (crates : Crates) (artifactUuid : Uuid) (config : IvfConfig)
    (trained : TrainedIvf) (reference : IvfCentroidsReference) : Properties :=
  if config.postingEncoding.artifactLayout then
    artifactParameters (crates.uuidToString artifactUuid) (toString trained.dimension)
      (toString trained.nlist) (toString trained.ntotal) config.postingEncoding.asStr
  else
    sourceParameters (toString trained.dimension) (toString trained.nlist)
      (toString trained.ntotal) config.postingEncoding.asStr reference.fingerprint
      (crates.uuidToString reference.artifactUuid) reference.metadataLocation

/-- What a build hands over. -/
structure Built (crates : Crates) (artifactUuid : Uuid) (config : IvfConfig)
    (trained : TrainedIvf) (reference : IvfCentroidsReference) (artifacts : IndexArtifacts) :
    Prop where
  metric : artifacts.metric = config.metric
  parameters : artifacts.parameters =
    buildParameters crates artifactUuid config trained reference
  provider : artifacts.indexProvider = parquetIndexProvider
  tables : ∃ centroids postings, artifacts.indexTables = ivfTables centroids postings ∧
    centroids.validate = .ok () ∧ postings.validate = .ok ()

variable {root : ObjectPath} {crates : Crates}

theorem isSome_artifactManifest {encoding : PostingEncoding} {manifestLocation : Option String}
    (hmanifest : artifactManifest site encoding root = .ok manifestLocation) :
    manifestLocation.isSome = encoding.artifactLayout := by
  unfold artifactManifest artifactManifestPath at hmanifest
  cases hlayout : encoding.artifactLayout with
  | false =>
      rw [hlayout] at hmanifest
      cases hmanifest
      rfl
  | true =>
      rw [hlayout] at hmanifest
      cases hlocate : site.warehouse.locate (root ++ ["manifest.json"]) false with
      | none =>
          rw [if_pos rfl] at hmanifest
          dsimp only at hmanifest
          rw [hlocate] at hmanifest
          cases hmanifest
      | some location =>
          rw [if_pos rfl] at hmanifest
          dsimp only at hmanifest
          rw [hlocate] at hmanifest
          cases hmanifest
          rfl

theorem built_of_refreshArtifacts {centroidsLocation : String} {artifacts : IndexArtifacts}
    (hartifacts : refreshArtifacts site root artifactUuid config trained reference
      centroidsLocation = .ok artifacts) :
    Built site.crates artifactUuid config trained reference artifacts := by
  obtain ⟨postingsLocation, -, hartifacts⟩ := bind_eq_ok.mp hartifacts
  obtain ⟨manifestLocation, hmanifest, hartifacts⟩ := bind_eq_ok.mp hartifacts
  have hprepared := required_eq_ok.mp hartifacts
  have hlayout := isSome_artifactManifest hmanifest
  unfold prepareParquetIndexArtifacts at hprepared
  split at hprepared
  · cases hprepared
  · obtain ⟨tables, htables, rfl⟩ := Option.map_eq_some_iff.mp hprepared
    cases manifestLocation with
    | none =>
        obtain ⟨centroids, postings, hcentroids, hpostings, rfl⟩ :=
          traverse_ivfTables_eq_some htables
        refine ⟨rfl, ?_, rfl, centroids, postings, rfl,
          relativeTable_validate hcentroids rfl, relativeTable_validate hpostings rfl⟩
        rw [buildParameters, ← hlayout]
        rfl
    | some location =>
        obtain ⟨centroids, postings, hcentroids, hpostings, rfl⟩ :=
          traverse_ivfTables_eq_some htables
        refine ⟨rfl, ?_, rfl, centroids, postings, rfl,
          relativeTable_validate hcentroids rfl, relativeTable_validate hpostings rfl⟩
        rw [buildParameters, ← hlayout]
        rfl

/-- The shape of a build as the checks of the family ask for it. -/
structure Shaped (trained : TrainedIvf) : Prop where
  dimension : 0 < trained.dimension
  dimension_le : trained.dimension ≤ 2 ^ 31 - 1
  nlist : 0 < trained.nlist
  nlist_le : trained.nlist ≤ 2 ^ 31 - 1
  ntotal : trained.nlist ≤ trained.ntotal
  ntotal_le : trained.ntotal ≤ 2 ^ 63 - 1

/-- What the UUID crate is relied on for: a printed UUID is read back, and a name-based UUID
is not nil. -/
structure UuidLaws (crates : Crates) (refresh : Refresh) : Prop where
  artifact : crates.parseUuid (crates.uuidToString (refresh.artifactUuid crates)) =
    some (refresh.artifactUuid crates)
  centroids : crates.parseUuid (crates.uuidToString refresh.artifact.artifactUuid) =
    some refresh.artifact.artifactUuid
  named : ∀ name text, crates.newV5 name text ≠ 0

theorem IvfCentroidsReference.eq_of_new {fingerprint location : String} {uuid : Uuid}
    (hreference : IvfCentroidsReference.new crates fingerprint uuid location = .ok reference) :
    reference = ⟨fingerprint, uuid, location⟩ := by
  obtain ⟨-, hok⟩ := seq_eq_ok.mp hreference
  cases hok
  rfl

section

variable {snapshot : IndexSnapshot}

/-- The snapshot has the parameters and the shape of a build. -/
structure FromBuild (crates : Crates) (artifactUuid : Uuid) (config : IvfConfig)
    (trained : TrainedIvf) (reference : IvfCentroidsReference) (snapshot : IndexSnapshot) :
    Prop where
  family : snapshot.indexFamily = "ivf"
  version : snapshot.indexSchemaVersion = ivfSchemaVersion
  metric : snapshot.metric = config.metric.asStr
  parameters : snapshot.parameters = buildParameters crates artifactUuid config trained reference
  rows : snapshot.indexedRows = trained.ntotal
  tables : ∃ centroids postings, snapshot.indexTables = ivfTables centroids postings

theorem roles_ivfTables (centroids postings : IndexTableDefinition) :
    (expectedTables.any (fun role => !(ivfTables centroids postings).containsKey role) ||
      (ivfTables centroids postings).keys.any fun role => !expectedTables.contains role) =
        false := by
  simp [expectedTables, ivfTables, SortedMap.containsKey, SortedMap.get?, SortedMap.keys,
    List.lookup_cons]

section

variable (hsnapshot : FromBuild crates artifactUuid config trained reference snapshot)

include hsnapshot

/-- What the checks of the family ask for whatever the layout, and what depends on it. -/
theorem FromBuild.rules (hshaped : Shaped trained)
    (hencoding : (snapshot.parameters.get? "posting_encoding").bind PostingEncoding.fromMetadata =
      some config.postingEncoding) (hkeys : (decide (snapshot.parameters.size ≠
        (expectedParameters config.postingEncoding.artifactLayout).length) ||
      snapshot.parameters.keys.any fun key =>
        !(expectedParameters config.postingEncoding.artifactLayout).contains key) = false)
    (hdimension : snapshot.parameters.get? "dimension" = some (toString trained.dimension))
    (hnlist : snapshot.parameters.get? "nlist" = some (toString trained.nlist))
    (hntotal : snapshot.parameters.get? "ntotal" = some (toString trained.ntotal))
    (hartifact : config.postingEncoding.artifactLayout = true → ∃ uuid,
      uuidParameter crates snapshot.parameters "artifact_uuid" = .ok uuid ∧ uuid ≠ 0)
    (hcentroids : config.postingEncoding.artifactLayout = false →
      ∃ found, ivfCentroidsReference crates snapshot = .ok found) :
    IvfRules crates snapshot config.postingEncoding trained.dimension trained.nlist
      trained.ntotal := by
  obtain ⟨centroids, postings, htables⟩ := hsnapshot.tables
  have hpositive := hshaped.nlist.trans_le hshaped.ntotal
  exact {
    version := hsnapshot.version
    metric := by simp [hsnapshot.metric]
    encoding_eq := hencoding
    parameters := hkeys
    dimension_eq := parsePositiveParameter_toString hdimension hshaped.dimension
      hshaped.dimension_le (by norm_num)
    nlist_eq := parsePositiveParameter_toString hnlist hshaped.nlist hshaped.nlist_le (by norm_num)
    ntotal_eq := parsePositiveParameter_toString hntotal hpositive hshaped.ntotal_le (by norm_num)
    rows := hsnapshot.rows
    nlist_le := hshaped.ntotal
    artifact := hartifact
    centroids := hcentroids
    roles := by rw [htables, roles_ivfTables] }

/-- A build in the source encoding passes the checks of the family. -/
theorem FromBuild.sourceRules {fingerprint location : String} {uuid : Uuid}
    (hshaped : Shaped trained) (hlayout : config.postingEncoding.artifactLayout = false)
    (hread : crates.parseUuid (crates.uuidToString uuid) = some uuid)
    (hreference : IvfCentroidsReference.new crates fingerprint uuid location = .ok reference) :
    IvfRules crates snapshot config.postingEncoding trained.dimension trained.nlist
      trained.ntotal := by
  have hparameters := hsnapshot.parameters
  rw [buildParameters, hlayout, if_neg Bool.false_ne_true] at hparameters
  obtain rfl := IvfCentroidsReference.eq_of_new hreference
  refine hsnapshot.rules hshaped ?_ ?_ ?_ ?_ ?_
    (fun hartifact => absurd (hlayout.symm.trans hartifact) Bool.false_ne_true)
    fun _ => ⟨⟨fingerprint, uuid, location⟩, ?_⟩
  · simp [hparameters, sourceParameters, SortedMap.get?, List.lookup_cons]
  · rw [hparameters, hlayout]
    simp [sourceParameters, expectedParameters, SortedMap.size, SortedMap.keys]
  · rw [hparameters]
    rfl
  · rw [hparameters]
    rfl
  · rw [hparameters]
    rfl
  · rw [ivfCentroidsReference, check_eq_ok_iff]
    refine ⟨by simp [hsnapshot.family, hsnapshot.version], ?_⟩
    rw [hparameters, uuidParameter]
    simp [requiredParameter, sourceParameters, SortedMap.get?, List.lookup_cons, ok_bind, hread,
      hreference]

/-- So does one with a manifest. -/
theorem FromBuild.artifactRules
    (hshaped : Shaped trained) (hlayout : config.postingEncoding.artifactLayout = true)
    (hread : crates.parseUuid (crates.uuidToString artifactUuid) = some artifactUuid)
    (hnamed : artifactUuid ≠ 0) :
    IvfRules crates snapshot config.postingEncoding trained.dimension trained.nlist
      trained.ntotal := by
  have hparameters := hsnapshot.parameters
  rw [buildParameters, if_pos hlayout] at hparameters
  refine hsnapshot.rules hshaped ?_ ?_ ?_ ?_ ?_ (fun _ => ⟨artifactUuid, ?_, hnamed⟩)
    fun hsource => absurd (hlayout.symm.trans hsource) (by decide)
  · simp [hparameters, artifactParameters, SortedMap.get?, List.lookup_cons]
  · rw [hparameters, hlayout]
    simp [artifactParameters, expectedParameters, SortedMap.size, SortedMap.keys]
  · rw [hparameters]
    rfl
  · rw [hparameters]
    rfl
  · rw [hparameters]
    rfl
  · rw [uuidParameter, hparameters]
    simp [requiredParameter, artifactParameters, SortedMap.get?, ok_bind, hread]

end

end

theorem parseUnsigned_toDigits (value : ℕ) :
    parseUnsigned (Nat.toDigits 10 value) = some value := by
  have hdigits := all_isDigit_toDigits value
  have hhead : (Nat.toDigits 10 value).head? ≠ some '+' := by
    intro hplus
    have hdigit := List.all_eq_true.mp hdigits '+' (List.mem_of_head? hplus)
    exact absurd hdigit (by decide)
  rw [parseUnsigned, if_neg hhead]
  simp [hdigits, Nat.toDigits_ne_nil, decimalValue_toDigits]

/-- The rows a build has indexed. -/
theorem indexedRows_buildParameters {rows : ℤ}
    (hrows : indexedRows (buildParameters crates artifactUuid config trained reference) =
      some rows) : rows = trained.ntotal ∧ trained.ntotal ≤ 2 ^ 63 - 1 := by
  have hparameter : (buildParameters crates artifactUuid config trained reference).get? "ntotal" =
      some (toString trained.ntotal) := by
    unfold buildParameters
    split <;> rfl
  rw [indexedRows, hparameter, Option.bind_some, toList_toString, parseUnsigned_toDigits,
    Option.bind_some] at hrows
  split at hrows
  · rename_i hbounds
    simp only [Bool.and_eq_true, decide_eq_true_eq] at hbounds
    cases hrows
    exact ⟨rfl, by omega⟩
  · cases hrows

end

/-! ## The document -/

section

variable {site : Site} {providers : Providers} {refresh : Refresh} {metadata : IndexMetadata}
  {bound : TableDefinition}

/-- The base's current source and the bound one are called the same, and the new ID is new. -/
structure Matches (refresh : Refresh) (bound : TableDefinition) (current : IndexSnapshot) :
    Prop where
  identifier : bound.identifier = current.sourceTable.identifier
  provider : bound.provider = current.sourceTable.provider
  fresh : IsFresh refresh.base (newSnapshotId refresh.snapshotBits)

theorem newSnapshotId_pos (first : BitVec 64) : 0 < newSnapshotId first :=
  Int.lt_of_lt_of_le Int.one_pos (le_max_right _ _)

variable {config : IvfConfig} {current : IndexSnapshot} {reference : IvfCentroidsReference}
  {artifacts : IndexArtifacts}

theorem resolveRefreshConfig_eq_ok {requested : Option IvfConfig}
    (hconfig : resolveRefreshConfig current requested = .ok config) :
    DistanceMetric.fromMetadata current.metric = some config.metric ∧
      0 < config.nlist ∧ config.nlist ≤ 2 ^ 31 - 1 := by
  unfold resolveRefreshConfig at hconfig
  split at hconfig
  · cases hconfig
  · rename_i currentMetric hmetric
    obtain ⟨nlist, -, hconfig⟩ := bind_eq_ok.mp hconfig
    obtain ⟨postingEncoding, -, hconfig⟩ := bind_eq_ok.mp hconfig
    obtain ⟨hnlist, hconfig⟩ := check_eq_ok hconfig
    obtain ⟨hsame, hconfig⟩ := check_eq_ok hconfig
    cases hconfig
    rw [Bool.or_eq_true, decide_eq_true_eq, decide_eq_true_eq] at hnlist
    exact ⟨by rw [hmetric, not_not.mp hsame], by omega, by omega⟩

variable {trained : TrainedIvf}

theorem prepareTraining_eq_ok {rows dimension nlist : ℕ}
    (htrained : prepareTraining rows dimension nlist = .ok trained) :
    trained = ⟨dimension, nlist, rows⟩ ∧ nlist ≤ rows := by
  unfold prepareTraining at htrained
  obtain ⟨-, htrained⟩ := check_eq_ok htrained
  obtain ⟨hrows, htrained⟩ := check_eq_ok htrained
  cases htrained
  exact ⟨rfl, not_lt.mp hrows⟩

theorem resolveIvfCentroids_eq_ok {crates : Crates} {vectorField : String} {prepared : TrainedIvf}
    {artifact : CentroidArtifact}
    (hreference : resolveIvfCentroids crates vectorField config prepared artifact = .ok reference) :
    (0 < prepared.dimension ∧ prepared.dimension ≤ 2 ^ 31 - 1) ∧
      IvfCentroidsReference.new crates artifact.fingerprint artifact.artifactUuid
        artifact.metadataLocation = .ok reference := by
  unfold resolveIvfCentroids at hreference
  obtain ⟨hdimension, hreference⟩ := check_eq_ok hreference
  obtain ⟨-, hreference⟩ := check_eq_ok hreference
  obtain ⟨fingerprint, hfingerprint, hreference⟩ := bind_eq_ok.mp hreference
  obtain ⟨hvalid, -⟩ := seq_eq_ok.mp hfingerprint
  unfold IvfCentroidsDescriptor.validate at hvalid
  obtain ⟨-, hvalid⟩ := check_eq_ok hvalid
  obtain ⟨hpositive, -⟩ := check_eq_ok hvalid
  simp only [Bool.or_eq_true, decide_eq_true_eq, not_or, not_le] at hpositive
  exact ⟨⟨by omega, by omega⟩, hreference⟩

/-- The document of a refresh appends one snapshot to its base. -/
theorem refreshedMetadata_eq_some {publication : Publication} {base : IndexMetadata} {nowMs : ℤ}
    (hmetadata : refreshedMetadata publication base nowMs artifacts = some metadata) :
    ∃ current rows, base.currentSnapshot = .ok current ∧
      indexedRows artifacts.parameters = some rows ∧ base.lastSequenceNumber + 1 < 2 ^ 63 ∧
      metadata = base.appended (newSnapshot
        { publication with
          vectorField := current.vectorField, sourceKeyFields := current.sourceKeyFields }
        "refresh" (base.lastSequenceNumber + 1) (max nowMs base.lastUpdatedMs) rows artifacts) := by
  unfold refreshedMetadata at hmetadata
  split at hmetadata
  · rename_i current rows hcurrent hrows
    split at hmetadata
    · rename_i hlimit
      cases hmetadata
      exact ⟨current, rows, hcurrent, hrows, hlimit, rfl⟩
    · cases hmetadata
  · cases hmetadata

/-- What the pipeline has established when it hands the document over. -/
structure Constructed (site : Site) (providers : Providers) (refresh : Refresh)
    (current : IndexSnapshot) (bound : TableDefinition) (metadata : IndexMetadata) : Prop where
  current_eq : refresh.base.currentSnapshot = .ok current
  bound_eq : bindTable site.crates providers refresh.bindings refresh.source = .ok bound
  limit : refresh.base.lastSequenceNumber + 1 < 2 ^ 63
  metadata_eq : ∃ config trained reference artifacts,
    DistanceMetric.fromMetadata current.metric = some config.metric ∧ Shaped trained ∧
      IvfCentroidsReference.new site.crates refresh.artifact.fingerprint
        refresh.artifact.artifactUuid refresh.artifact.metadataLocation = .ok reference ∧
      Built site.crates (refresh.artifactUuid site.crates) config trained reference artifacts ∧
      metadata = refresh.base.appended (newSnapshot
        ⟨bound, current.vectorField, current.sourceKeyFields,
          newSnapshotId refresh.snapshotBits⟩ "refresh" (refresh.base.lastSequenceNumber + 1)
        (max refresh.nowMs refresh.base.lastUpdatedMs) trained.ntotal artifacts)

theorem constructed_of_refreshDocument
    (hdocument : refreshDocument site providers refresh = .ok metadata) :
    ∃ current bound, Constructed site providers refresh current bound metadata := by
  obtain ⟨current, hcurrent, hdocument⟩ := bind_eq_ok.mp hdocument
  obtain ⟨bound, hbound, hdocument⟩ := bind_eq_ok.mp hdocument
  obtain ⟨-, hdocument⟩ := check_eq_ok hdocument
  obtain ⟨config, hconfig, hdocument⟩ := bind_eq_ok.mp hdocument
  obtain ⟨-, hdocument⟩ := seq_eq_ok.mp hdocument
  obtain ⟨trained, htrained, hdocument⟩ := bind_eq_ok.mp hdocument
  obtain ⟨reference, hreference, hdocument⟩ := bind_eq_ok.mp hdocument
  obtain ⟨artifacts, hartifacts, hdocument⟩ := bind_eq_ok.mp hdocument
  have hrefreshed := required_eq_ok.mp hdocument
  obtain ⟨hmetric, hnlist, hnlist_le⟩ := resolveRefreshConfig_eq_ok hconfig
  obtain ⟨rfl, hrows⟩ := prepareTraining_eq_ok htrained
  obtain ⟨⟨hdimension, hdimension_le⟩, hnew⟩ := resolveIvfCentroids_eq_ok hreference
  have hbuilt := built_of_refreshArtifacts hartifacts
  obtain ⟨current', rows, hcurrent', hindexed, hlimit, hmetadata⟩ :=
    refreshedMetadata_eq_some hrefreshed
  obtain rfl : current = current' := Except.ok.inj (hcurrent.symm.trans hcurrent')
  rw [hbuilt.parameters] at hindexed
  obtain ⟨rfl, hntotal⟩ := indexedRows_buildParameters hindexed
  exact ⟨current, bound, hcurrent, hbound, hlimit, config, _, reference, artifacts, hmetric,
    ⟨hdimension, hdimension_le, hnlist, hnlist_le, hrows, hntotal⟩, hnew, hbuilt, hmetadata⟩

/-- The new snapshot passes its own checks. -/
theorem newSnapshot_validate {sequenceNumber timestampMs : ℤ}
    (hcurrent : current.WellFormed site.crates) (hsource : bound.validate = .ok ())
    (hlaws : UuidLaws site.crates refresh) (hshaped : Shaped trained)
    (hreference : IvfCentroidsReference.new site.crates refresh.artifact.fingerprint
      refresh.artifact.artifactUuid refresh.artifact.metadataLocation = .ok reference)
    (hbuilt : Built site.crates (refresh.artifactUuid site.crates) config trained reference
      artifacts) (hsequence : 0 < sequenceNumber) (htime : 0 ≤ timestampMs) :
    (newSnapshot ⟨bound, current.vectorField, current.sourceKeyFields,
      newSnapshotId refresh.snapshotBits⟩ "refresh" sequenceNumber timestampMs trained.ntotal
        artifacts).validate site.crates = .ok () := by
  obtain ⟨centroids, postings, htables, hcentroids, hpostings⟩ := hbuilt.tables
  have hpositive := hshaped.nlist.trans_le hshaped.ntotal
  have hfrom : FromBuild site.crates (refresh.artifactUuid site.crates) config trained reference
      (newSnapshot ⟨bound, current.vectorField, current.sourceKeyFields,
        newSnapshotId refresh.snapshotBits⟩ "refresh" sequenceNumber timestampMs trained.ntotal
          artifacts) :=
    ⟨rfl, rfl, congrArg DistanceMetric.asStr hbuilt.metric, hbuilt.parameters, rfl, centroids,
      postings, htables⟩
  refine IndexSnapshot.validate_iff.mpr {
    snapshotId := newSnapshotId_pos _
    sequenceNumber := hsequence
    timestamp := htime
    fields := hcurrent.fields
    nodup := hcurrent.nodup
    rows := Int.natCast_pos.mpr hpositive
    names := ?_
    source := hsource
    provider := ?_
    tables := ?_
    family := ?_ }
  · have hparameters : artifacts.parameters.keys.any String.isEmpty = false := by
      rw [hbuilt.parameters, buildParameters]
      split <;> rfl
    change (_ || artifacts.parameters.keys.any String.isEmpty ||
      artifacts.indexTables.keys.any String.isEmpty) = false
    rw [hparameters, htables]
    rfl
  · change artifacts.indexProvider.validate = .ok ()
    rw [hbuilt.provider]
    rfl
  · intro table htable
    change table ∈ artifacts.indexTables.values at htable
    rw [htables, mem_values_ivfTables] at htable
    rcases htable with rfl | rfl
    · exact hcentroids
    · exact hpostings
  · rw [validateFamily, if_pos hfrom.family]
    cases hlayout : config.postingEncoding.artifactLayout with
    | false => exact (hfrom.sourceRules hshaped hlayout hlaws.centroids hreference).validateIvf
    | true =>
        exact (hfrom.artifactRules hshaped hlayout hlaws.artifact (hlaws.named _ _)).validateIvf

end

/-! ## A table under two names -/

section

/-- The second snapshot of the table, registered as `records`. -/
def aliasedSource : TableDefinition :=
  { secondSource with identifier := ⟨"datafusion", ["public"], "records"⟩ }

theorem icebergMetadata_valid : icebergMetadata.validate icebergCrates = .ok () := by
  decide +kernel

def documentSite : Site where
  crates := icebergCrates
  warehouse := fileWarehouse.restrict plainPath
  readsBack := Warehouse.restrict_readsBack fileWarehouse_readsBack

/-- A refresh of the index for a source, with the centroids it has. -/
def sampleRefresh (source : TableDefinition) : Refresh where
  entrySource := firstSource
  base := icebergMetadata
  source := source
  bindings := firstBinding
  requested := none
  rows := 5
  dimension := 2
  artifact := ⟨"3ad6988a-389e-53de-aaa6-f210345fd894", 0x000000000000400080000000000000cc,
    "metadata/00000000-0000-4000-8000-0000000000cc/v1.metadata.json",
    "file:///w/indexes/000000000000400080000000000000cc/1/ivf_centroids/"⟩
  snapshotBits := 8
  nowMs := 2000

/-- A source in the second state passes the checks, and its artifact is built. -/
theorem refreshDocument_sampleRefresh (source : TableDefinition)
    (hstate : source.exactTableState = secondSource.exactTableState)
    (hvalid : source.validate = .ok ())
    (hprovider : icebergProviders.providerFromTableDefinition source = .ok ())
    (hidentity : firstSource.identityKey icebergCrates = source.identityKey icebergCrates) :
    refreshDocument documentSite icebergProviders (sampleRefresh source) =
      builtDocument documentSite (sampleRefresh source)
        { sampleSnapshot with sourceTable := firstSource } source := by
  have hbound := bindTable_secondSource hstate hvalid hprovider
  change (bindTable icebergCrates icebergProviders firstBinding source >>= fun bound =>
    if firstSource.identityKey icebergCrates ≠ bound.identityKey icebergCrates then _
    else builtDocument documentSite (sampleRefresh source)
      { sampleSnapshot with sourceTable := firstSource } bound) = _
  rw [hbound, ok_bind, if_neg (not_not.mpr hidentity)]

theorem uuidLaws_sampleRefresh : UuidLaws icebergCrates (sampleRefresh secondSource) where
  artifact := by decide +kernel
  centroids := by decide +kernel
  named := by
    intro name text
    unfold icebergCrates sampleCrates
    dsimp only
    split_ifs <;> decide

end

end ParqDB.Session.RefreshDocuments
