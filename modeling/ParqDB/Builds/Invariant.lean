import ParqDB.Builds.Sessions

/-!
# What keeps an index live

An index is live while its document, something at the location of each of its tables, and
the document and table of its centroids are stored.  This module states the invariant of
the sessions behind that (`Safe`) and how its parts survive writes and deletions.

**Strategy.**  Every part of the invariant asks for objects by their path and content, so
it survives writes (`Keeps` with no condition), and deletions that spare the paths it asks
for.  What a deletion of the collector spares follows from the references it protects:
roots of tables and leases (`Protected.root`), and locations of documents
(`Protected.document`).
-/

namespace ParqDB.Session

open Foundations Meta Storage Catalog Maintenance

/-! ## Live indexes -/

section

variable (site : Site) (store : Store)

/-- Something is stored at or below a path. -/
def stored (path : ObjectPath) : Bool :=
  store.rows.any fun object => path.isPrefixOf object.path

/-- The location of a table resolves, and if the warehouse manages it something is stored
there. -/
def tableLive (table : IndexTableDefinition) : Bool :=
  match tableLocation site.crates site.warehouse table with
  | .error _ => false
  | .ok location =>
      match site.warehouse.managed location with
      | none => true
      | some (path, _) => stored store path

/-- The centroid document at a location and the table it names are stored. -/
def centroidsLive (location : String) : Bool :=
  store.rows.any fun object =>
    site.warehouse.locate object.path false = some location &&
      match object.content with
      | .centroids metadata => stored store (segments metadata.centroids)
      | _ => false

def snapshotLive (snapshot : IndexSnapshot) : Bool :=
  snapshot.indexTables.values.all (tableLive site store) &&
    (centroidReference site.crates site.warehouse snapshot).all (centroidsLive site store)

/-- The document at a location is stored, and so is all it refers to. -/
def indexLive (location : String) : Bool :=
  store.rows.any fun object =>
    site.warehouse.locate object.path false = some location &&
      match object.content with
      | .index metadata => metadata.snapshots.all (snapshotLive site store)
      | _ => false

/-- Every mapped index is live. -/
def Sessions.Live (sessions : Sessions) : Prop :=
  ∀ row ∈ sessions.tables.indexes, indexLive site sessions.store row.metadataLocation = true

instance (sessions : Sessions) : Decidable (sessions.Live site) :=
  inferInstanceAs (Decidable (∀ row ∈ sessions.tables.indexes.rows,
    indexLive site sessions.store row.metadataLocation = true))

end

/-! ## Stored objects -/

section

variable (site : Site)

/-- The objects whose path satisfies a condition are still there. -/
def Keeps (store kept : Store) (condition : ObjectPath → Prop) : Prop :=
  ∀ object ∈ store, condition object.path →
    ∃ other ∈ kept, other.path = object.path ∧ other.content = object.content

/-- A document is stored at a location. -/
def StoredAt (store : Store) (location : String) (content : Content) : Prop :=
  ∃ object ∈ store, site.warehouse.locate object.path false = some location ∧
    object.content = content

/-- Something is stored below a path. -/
def StoredBelow (store : Store) (path : ObjectPath) : Prop :=
  ∃ object ∈ store, path <+: object.path

/-- The table of a snapshot: outside the warehouse, or below a snapshot root with something
stored at its location. -/
def TableSafe (store : Store) (table : IndexTableDefinition) : Prop :=
  ∃ location, tableLocation site.crates site.warehouse table = .ok location ∧
    (site.warehouse.managed location = none ∨
      ∃ path directory root, site.warehouse.managed location = some (path, directory) ∧
        IsRoot root ∧ root <+: path ∧ StoredBelow store path)

/-- The layout of a centroid artifact. -/
structure CentroidLayout (metadata : IvfCentroidsMetadata) (root : ObjectPath) : Prop where
  isRoot : IsRoot root
  centroids : metadata.centroids = relativeText (root ++ ["ivf_centroids"]) true
  located : ∃ location, site.warehouse.locate (root ++ ["ivf_centroids"]) true = some location

/-- The document of a centroid artifact and its table are stored. -/
structure CentroidsStored (store : Store) (location : String) (metadata : IvfCentroidsMetadata)
    (root : ObjectPath) : Prop where
  document : StoredAt site store location (.centroids metadata)
  layout : CentroidLayout site metadata root
  data : StoredBelow store (root ++ ["ivf_centroids"])

/-- All that a snapshot refers to is stored, and the table of its centroid document is one of
its own. -/
structure SnapshotSafe (store : Store) (snapshot : IndexSnapshot) : Prop where
  tables : ∀ table ∈ snapshot.indexTables.values, TableSafe site store table
  centroids : ∀ location, centroidReference site.crates site.warehouse snapshot = some location →
    ∃ metadata root, CentroidsStored site store location metadata root ∧
      ∃ table ∈ snapshot.indexTables.values, ∃ centroidsLocation,
        tableLocation site.crates site.warehouse table = .ok centroidsLocation ∧
        site.warehouse.locate (root ++ ["ivf_centroids"]) true = some centroidsLocation

variable {site} {store kept : Store}

theorem Keeps.mono {condition weaker : ObjectPath → Prop} (hkeeps : Keeps store kept weaker)
    (hmore : ∀ path, condition path → weaker path) : Keeps store kept condition :=
  fun object hobject hpath => hkeeps object hobject (hmore object.path hpath)

variable {location : String} {table : IndexTableDefinition} {metadata : IvfCentroidsMetadata}
  {snapshot : IndexSnapshot}

theorem StoredAt.keep {content : Content} (hstored : StoredAt site store location content)
    (hkeeps : Keeps store kept fun path => site.warehouse.locate path false = some location) :
    StoredAt site kept location content := by
  obtain ⟨object, hobject, hlocate, hcontent⟩ := hstored
  obtain ⟨other, hother, hpath, hsame⟩ := hkeeps object hobject hlocate
  exact ⟨other, hother, hpath ▸ hlocate, hsame.trans hcontent⟩

variable {path root : ObjectPath}

theorem StoredBelow.keep (hstored : StoredBelow store path)
    (hkeeps : Keeps store kept fun other => path <+: other) : StoredBelow kept path := by
  obtain ⟨object, hobject, hbelow⟩ := hstored
  obtain ⟨other, hother, hpath, -⟩ := hkeeps object hobject hbelow
  exact ⟨other, hother, hpath ▸ hbelow⟩

theorem TableSafe.keep (hsafe : TableSafe site store table)
    (hkeeps : ∀ location path directory root,
      tableLocation site.crates site.warehouse table = .ok location →
      site.warehouse.managed location = some (path, directory) → IsRoot root → root <+: path →
      Keeps store kept fun other => root <+: other) : TableSafe site kept table := by
  obtain ⟨location, hlocation, houtside | ⟨path, directory, root, hmanaged, hroot, hbelow, hdata⟩⟩ :=
    hsafe
  · exact ⟨location, hlocation, Or.inl houtside⟩
  · refine ⟨location, hlocation, Or.inr ⟨path, directory, root, hmanaged, hroot, hbelow, ?_⟩⟩
    exact hdata.keep ((hkeeps location path directory root hlocation hmanaged hroot hbelow).mono
      fun other hother => hbelow.trans hother)

theorem CentroidsStored.keep (hstored : CentroidsStored site store location metadata root)
    (hdocument : Keeps store kept fun path => site.warehouse.locate path false = some location)
    (hdata : Keeps store kept fun path => root <+: path) :
    CentroidsStored site kept location metadata root where
  document := hstored.document.keep hdocument
  layout := hstored.layout
  data := hstored.data.keep (hdata.mono fun _ hbelow => (List.prefix_append _ _).trans hbelow)

/-- Only the roots of a snapshot's tables and its centroid document have to be kept. -/
theorem SnapshotSafe.keep (hsafe : SnapshotSafe site store snapshot)
    (hroots : ∀ table ∈ snapshot.indexTables.values, ∀ location path directory root,
      tableLocation site.crates site.warehouse table = .ok location →
      site.warehouse.managed location = some (path, directory) → IsRoot root → root <+: path →
      Keeps store kept fun other => root <+: other) (hdocuments : ∀ location,
      centroidReference site.crates site.warehouse snapshot = some location →
      Keeps store kept fun path => site.warehouse.locate path false = some location) :
    SnapshotSafe site kept snapshot where
  tables := fun table htable => (hsafe.tables table htable).keep (hroots table htable)
  centroids := by
    intro location hlocation
    obtain ⟨metadata, root, hstored, table, htable, centroidsLocation, htableLocation, hlocate⟩ :=
      hsafe.centroids location hlocation
    have hroot : Keeps store kept fun other => root <+: other :=
      hroots table htable centroidsLocation _ true root htableLocation
        (site.managed_locate hlocate) hstored.layout.isRoot (List.prefix_append _ _)
    exact ⟨metadata, root, hstored.keep (hdocuments location hlocation) hroot, table, htable,
      centroidsLocation, htableLocation, hlocate⟩

/-- Keeping everything keeps a snapshot safe. -/
theorem SnapshotSafe.grow (hsafe : SnapshotSafe site store snapshot)
    (hkeeps : Keeps store kept fun _ => True) : SnapshotSafe site kept snapshot :=
  hsafe.keep (fun _ _ _ _ _ _ _ _ _ _ => hkeeps.mono fun _ _ => trivial)
    fun _ _ => hkeeps.mono fun _ _ => trivial

theorem StoredBelow.stored (hbelow : StoredBelow store path) : stored store path = true := by
  obtain ⟨object, hobject, hinitial⟩ := hbelow
  exact List.any_eq_true.mpr ⟨object, hobject, List.isPrefixOf_iff_prefix.mpr hinitial⟩

theorem TableSafe.live (hsafe : TableSafe site store table) :
    tableLive site store table = true := by
  obtain ⟨location, hlocation, houtside | ⟨path, directory, root, hmanaged, -, -, hdata⟩⟩ := hsafe
  · simp [tableLive, hlocation, houtside]
  · simp [tableLive, hlocation, hmanaged, hdata.stored]

theorem CentroidsStored.live (hstored : CentroidsStored site store location metadata root) :
    centroidsLive site store location = true := by
  obtain ⟨object, hobject, hlocate, hcontent⟩ := hstored.document
  obtain ⟨centroidsLocation, hcentroids⟩ := hstored.layout.located
  have hvalid := Warehouse.validPath_of_locate hcentroids
  refine List.any_eq_true.mpr ⟨object, hobject, ?_⟩
  rw [hcontent]
  dsimp only
  rw [hstored.layout.centroids, segments_relativeText hvalid, hstored.data.stored]
  simpa using hlocate

theorem SnapshotSafe.live (hsafe : SnapshotSafe site store snapshot) :
    snapshotLive site store snapshot = true := by
  unfold snapshotLive
  rw [Bool.and_eq_true]
  constructor
  · exact List.all_eq_true.mpr fun table htable => (hsafe.tables table htable).live
  · cases hreference : centroidReference site.crates site.warehouse snapshot with
    | none => rfl
    | some location =>
        obtain ⟨metadata, root, hstored, -⟩ := hsafe.centroids location hreference
        exact hstored.live

end

/-! ## What a deletion spares -/

section

variable {crates : Crates} {warehouse : Warehouse} {store : Store} {setting : Setting}
  {location reference : String} {references : List String}

theorem keeps_without {condition : ObjectPath → Prop}
    (hspared : ∀ path directory, setting.warehouse.managed location = some (path, directory) →
      ¬ condition path) : Keeps store (setting.without store location) condition := by
  intro object hobject hcondition
  refine ⟨object, setting.mem_without.mpr ⟨hobject, fun directory hmanaged => ?_⟩, rfl, rfl⟩
  exact hspared object.path directory hmanaged hcondition

variable {path root : ObjectPath}

theorem head_of_isMetadataPath (hmetadata : isMetadataPath crates path = true) :
    path.head? = some "metadata" := by
  unfold isMetadataPath at hmetadata
  split at hmetadata
  · simp only [Bool.and_eq_true, decide_eq_true_eq] at hmetadata
    exact congrArg some hmetadata.1.1
  · cases hmetadata

theorem IsRoot.head_of_prefix (hroot : IsRoot root) (hbelow : root <+: path) :
    path.head? = some "indexes" := by
  obtain ⟨rest, rfl⟩ := hbelow
  have hhead := hroot.head
  cases root with
  | nil => cases hhead
  | cons first others => exact hhead

variable {directory : Bool} {listedPath : ObjectPath}

/-- An object below a root is handled under the location of that root. -/
theorem IsRoot.handledAs (hroot : IsRoot root) (hbelow : root <+: path)
    (hmanaged : warehouse.managed location = some (path, directory))
    (hhandled : HandledAs crates warehouse listedPath location reference) :
    rootPath crates path = some root ∧ warehouse.locate root true = some reference := by
  obtain ⟨-, other, _, hother, hnamed⟩ := hhandled
  obtain ⟨rfl, -⟩ : other = path ∧ _ = directory := by simpa using hother.symm.trans hmanaged
  rcases hnamed with ⟨hmetadata, -⟩ | ⟨found, hfound, hreference⟩
  · have hhead := (hroot.head_of_prefix hbelow).symm.trans (head_of_isMetadataPath hmetadata)
    simp at hhead
  · obtain rfl := hroot.rootPath_eq hbelow hfound
    exact ⟨hfound, hreference⟩

variable (setting) (hhandled : HandledAs setting.crates setting.warehouse listedPath location reference)
  (hunprotected : reference ∉ references)

include hhandled hunprotected

/-- A root whose location is protected keeps all below it. -/
theorem keeps_root {rootLocation : String} (hroot : IsRoot root)
    (hlocate : setting.warehouse.locate root true = some rootLocation)
    (hprotected : rootLocation ∈ references) :
    Keeps store (setting.without store location) fun path => root <+: path := by
  refine keeps_without fun path directory hmanaged hbelow => ?_
  have hreference := (hroot.handledAs hbelow hmanaged hhandled).2
  obtain rfl := Option.some.inj (hlocate.symm.trans hreference)
  exact hunprotected hprotected

/-- A root is also kept when the tables below it protect the location of their root. -/
theorem keeps_tableRoot {tableLocation : String} (hroot : IsRoot root) (hbelow : root <+: path)
    (htable : setting.warehouse.managed tableLocation = some (path, directory))
    (hprotected : ∀ found,
      snapshotRoot setting.crates setting.warehouse tableLocation = .ok (some found) →
      found ∈ references) :
    Keeps store (setting.without store location) fun other => root <+: other := by
  refine keeps_without fun other otherDirectory hmanaged hother => ?_
  obtain ⟨hfound, hlocate⟩ := hroot.handledAs hother hmanaged hhandled
  refine hunprotected (hprotected reference ?_)
  obtain ⟨rest, rfl⟩ := hbelow
  have hne : root ++ rest ≠ [] := by
    have hlength := hroot.length
    cases root <;> simp_all
  have hrelative : setting.warehouse.relativePath tableLocation = some (root ++ rest, directory) := by
    simp [Warehouse.relativePath, htable, hne]
  unfold snapshotRoot
  rw [if_neg (by simp [htable]), hrelative]
  simp only [requireLocation, ok_bind, rootPath_append rest hfound, hlocate]
  rfl

/-- A document whose location is protected is kept. -/
theorem keeps_document (hback : setting.warehouse.ReadsBack listedPath) {documentLocation : String}
    (hrootless : ∀ path, setting.warehouse.locate path false = some documentLocation →
      rootPath setting.crates path = none)
    (hprotected : documentLocation ∈ references) :
    Keeps store (setting.without store location) fun path =>
      setting.warehouse.locate path false = some documentLocation := by
  refine keeps_without fun path directory hmanaged hlocate => ?_
  obtain ⟨hother, ⟨-, rfl⟩ | ⟨found, hfound, -⟩⟩ := hhandled.of_readsBack hback hmanaged
  · obtain rfl := Option.some.inj (hother.symm.trans hlocate)
    exact hunprotected hprotected
  · rw [hrootless path hlocate] at hfound
    cases hfound

end

/-! ## References of a snapshot -/

section

variable {crates : Crates} {warehouse : Warehouse} {references : List String}
  {snapshot : IndexSnapshot}

/-- The references of a document include the roots of its tables and its centroid documents. -/
theorem mem_of_snapshotReferences
    (hreferences : snapshotReferences crates warehouse snapshot = .ok references) :
    (∀ location, centroidReference crates warehouse snapshot = some location →
      location ∈ references) ∧
    ∀ table ∈ snapshot.indexTables.values, ∀ location found,
      tableLocation crates warehouse table = .ok location →
      snapshotRoot crates warehouse location = .ok (some found) → found ∈ references := by
  unfold snapshotReferences at hreferences
  obtain ⟨_, -, hreferences⟩ := bind_eq_ok.mp hreferences
  dsimp only at hreferences
  split at hreferences
  · cases hreferences
  obtain ⟨roots, hroots, hall⟩ := bind_eq_ok.mp hreferences
  obtain rfl := Except.ok.inj hall
  obtain ⟨locations, hlocations, hrest⟩ := bind_eq_ok.mp hroots
  obtain ⟨found, hfound, hfilter⟩ := bind_eq_ok.mp hrest
  obtain rfl := Except.ok.inj hfilter
  refine ⟨fun location hlocation => by simp [hlocation], ?_⟩
  intro table htable location root hlocation hroot
  obtain ⟨other, hother, hsame⟩ := exists_result_of_mapM hlocations htable
  obtain rfl := Except.ok.inj (hlocation.symm.trans hsame)
  obtain ⟨result, hresult, hsameRoot⟩ := exists_result_of_mapM hfound hother
  obtain rfl := Except.ok.inj (hroot.symm.trans hsameRoot)
  exact List.mem_append_right _ (List.mem_filterMap.mpr ⟨some root, hresult, rfl⟩)

theorem snapshotReferences_of_metadata {metadata : IndexMetadata}
    (hreferences : indexMetadataReferences crates warehouse metadata = .ok references)
    (hsnapshot : snapshot ∈ metadata.snapshots) :
    ∃ found, snapshotReferences crates warehouse snapshot = .ok found ∧
      ∀ reference ∈ found, reference ∈ references := by
  obtain ⟨all, hall, hflatten⟩ := bind_eq_ok.mp hreferences
  obtain rfl := Except.ok.inj hflatten
  obtain ⟨found, hfound, hsnapshot⟩ := exists_result_of_mapM hall hsnapshot
  exact ⟨found, hsnapshot, fun reference hreference =>
    List.mem_flatten.mpr ⟨found, hfound, hreference⟩⟩

end

/-! ## The invariant -/

section

variable (site : Site) (sessions : Sessions)

/-- A document was once written at a location. -/
def WrittenAt (location : String) (content : Content) : Prop :=
  ∃ document ∈ sessions.written, site.warehouse.locate document.path false = some location ∧
    document.content = content

/-- A root is pinned by the lease of a build. -/
def Leased (build : Build) (root : ObjectPath) : Prop :=
  ∃ location ∈ build.leaseRoots, site.warehouse.locate root true = some location

/-- The centroid artifact a build relies on, if it publishes a reference to it, is stored. -/
def Relied (build : Build) (location : String) (metadata : IvfCentroidsMetadata)
    (root : ObjectPath) : Prop :=
  CentroidLayout site metadata root ∧ WrittenAt site sessions location (.centroids metadata) ∧
    (build.config.postingEncoding = .source →
      CentroidsStored site sessions.store location metadata root)

/-- The centroids a build has resolved. -/
structure ResolvedSafe (build : Build) (centroids : ResolvedIvfCentroids) : Prop where
  relied : ∃ root,
    Relied site sessions build centroids.metadataLocation centroids.metadata root ∧
    site.warehouse.locate (root ++ ["ivf_centroids"]) true = some centroids.centroidsLocation
  reference : ∃ path, site.warehouse.locate path false = some centroids.metadataLocation ∧
    centroids.reference.metadataLocation = relativeText path false

/-- What holds at each point of a build's work. -/
def ProgressSafe (build : Build) (pinned : PinnedSnapshot) : Progress → Prop
  | .unresolved | .claimed _ | .failed _ | .reusing => True
  | .training _ artifactUuid => Leased site build (centroidRootPath artifactUuid)
  | .centroidsWritten _ artifactUuid | .rootsWritten _ artifactUuid =>
      Leased site build (centroidRootPath artifactUuid) ∧
        StoredBelow sessions.store (centroidsPath artifactUuid)
  | .described _ artifactUuid location metadata =>
      Relied site sessions build location metadata (centroidRootPath artifactUuid)
  | .found entry => ∃ path, site.warehouse.locate path false = some entry.metadataLocation
  | .loaded entry metadata =>
      (∃ root, CentroidLayout site metadata root) ∧
        WrittenAt site sessions entry.metadataLocation (.centroids metadata) ∧
        (build.config.postingEncoding = .source →
          StoredAt site sessions.store entry.metadataLocation (.centroids metadata))
  | .tableRead entry metadata =>
      ∃ root, Relied site sessions build entry.metadataLocation metadata root
  | .resolved centroids => ResolvedSafe site sessions build centroids
  | .built centroids =>
      ResolvedSafe site sessions build centroids ∧
        StoredBelow sessions.store
          ((artifactManifestPath build.config.postingEncoding pinned.root).getD
            (pinned.root ++ ["ivf_postings"]))

structure BuildSafe (build : Build) : Prop where
  base : ∀ location metadata, build.base = some (location, metadata) →
    WrittenAt site sessions location (.index metadata)
  working : ∀ pinned progress, build.stage = .working pinned progress →
    IsRoot pinned.root ∧ Leased site build pinned.root ∧
      ProgressSafe site sessions build pinned progress

/-- The snapshots a refresh retains. -/
def Build.retained (build : Build) : List IndexSnapshot :=
  match build.refresh, build.base with
  | true, some (_, metadata) => metadata.snapshots
  | _, _ => []

/-- What a document written at the start of a collection says. -/
def DocumentOf (written : Store) (location : String) (metadata : IndexMetadata) : Prop :=
  ∀ document ∈ written, site.warehouse.locate document.path false = some location →
    document.content = .index metadata

/-- The answers of a collection: as the frozen mappings and written documents say. -/
def Answers (indexes : KeyedTable IndexRow.key) (written : Store) :
    (operation : Operation) → operation.Response → Prop
  | .listAll, response => ∀ keys, response = .ok keys → ∀ row ∈ indexes, row.key ∈ keys
  | .load key, response => ∀ row, response = .ok row → indexes.find? key = some row
  | .loadMetadata location, response =>
      ∀ metadata, response = .ok metadata → DocumentOf site written location metadata
  | _, _ => True

/-- The operations of a collection: only unprotected objects are deleted. -/
def Allowed (indexes : KeyedTable IndexRow.key) (written : Store) (activeRoots : List String) :
    Operation → Prop
  | .delete location => ∃ reference references,
      ListedAs site.crates site.warehouse (fun _ => True) location reference ∧
      reference ∉ references ∧
      CoversMapped site.crates site.warehouse indexes (DocumentOf site written) references ∧
      ∀ root ∈ activeRoots, root ∈ references
  | _ => True

/-- What the holder of the exclusive lock relies on. -/
def ExclusiveSafe : Exclusive → Prop
  | .free | .publishing _ none => True
  | .publishing id (some (location, metadata)) =>
      StoredAt site sessions.store location (.index metadata) ∧
      ∀ build ∈ sessions.builds, build.id = id →
        (∃ pinned centroids, build.stage = .working pinned (.built centroids)) ∧
        ∃ snapshot, metadata.snapshots = build.retained ++ [snapshot] ∧
          SnapshotSafe site sessions.store snapshot
  | .registering registration =>
      (∀ manifest, registration.manifest = some manifest → ∀ path directory,
        site.warehouse.managed registration.manifestLocation = some (path, directory) →
        (∃ root, IsRoot root ∧ root <+: path) ∧ StoredBelow sessions.store path) ∧
      ∀ location metadata, registration.document = some (location, metadata) →
        StoredAt site sessions.store location (.index metadata) ∧
        ∀ snapshot ∈ metadata.snapshots, SnapshotSafe site sessions.store snapshot
  | .collecting program => ∃ written activeRoots,
      (∀ document ∈ written, document ∈ sessions.written) ∧
      (∀ row ∈ sessions.tables.indexes, ∃ document ∈ written,
        site.warehouse.locate document.path false = some row.metadataLocation) ∧
      (∀ build ∈ sessions.builds, ∀ root ∈ build.leaseRoots, root ∈ activeRoots) ∧
      Program.Meets (Allowed site sessions.tables.indexes written activeRoots)
        (Answers site sessions.tables.indexes written) (fun _ => True) program

/-- The invariant of the sessions. -/
structure Safe : Prop where
  data : ∀ object ∈ sessions.store, object.content = .data →
    ∃ root, IsRoot root ∧ root <+: object.path
  faithful : ∀ object ∈ sessions.store, object.content ≠ .data →
    ∃ document ∈ sessions.written, document.path = object.path ∧
      document.content = object.content
  names : ∀ document ∈ sessions.written, document.path.head? = some "metadata" ∧
    document.content ≠ .data
  layout : ∀ document ∈ sessions.written, ∀ metadata, document.content = .centroids metadata →
    ∃ root, CentroidLayout site metadata root
  entries : ∀ row ∈ sessions.tables.ivfCentroidArtifacts, ∀ location,
    row.metadataLocation = some location →
      ∃ path, site.warehouse.locate path false = some location
  mapped : ∀ row ∈ sessions.tables.indexes, ∃ metadata,
    StoredAt site sessions.store row.metadataLocation (.index metadata) ∧
      ∀ snapshot ∈ metadata.snapshots, SnapshotSafe site sessions.store snapshot
  builds : ∀ build ∈ sessions.builds, BuildSafe site sessions build
  exclusion : sessions.exclusive ≠ .free → ∀ build ∈ sessions.builds, build.stage ≠ .setup
  exclusive : ExclusiveSafe site sessions sessions.exclusive

end

theorem Safe.live {site : Site} {sessions : Sessions} (hsafe : Safe site sessions) :
    sessions.Live site := by
  intro row hrow
  obtain ⟨metadata, ⟨object, hobject, hlocate, hcontent⟩, hsnapshots⟩ := hsafe.mapped row hrow
  refine List.any_eq_true.mpr ⟨object, hobject, ?_⟩
  rw [hcontent]
  have hlive : metadata.snapshots.all (snapshotLive site sessions.store) = true :=
    List.all_eq_true.mpr fun snapshot hsnapshot => (hsnapshots snapshot hsnapshot).live
  simpa [hlive] using hlocate

end ParqDB.Session
