import ParqDB.Builds.Publications

/-!
# Collections and live indexes

Whether the interleaving of builds, registrations, drops and collections keeps every
mapped index live.

**Strategy.**  `Safe` is kept by every step (`Safe.next`): writes only add, catalog calls
map documents whose parts are stored, and a collection deletes only what no mapped document
and no lease protects.  The centroid artifact that a build has loaded or written is neither
mapped nor is its document in the lease, so for it the step has to spare it (`spares`).

**Results.**

* `collections_keep_indexes_live`: in a run whose steps all spare the centroids of builds in
  progress, every index is live in every state.
* `collected_centroids_are_published`: a build that reuses old centroids publishes them
  after a collection has deleted them.
-/

namespace ParqDB.Session

open Foundations Meta Storage Catalog Maintenance

variable {site : Site} {sessions after : Sessions} {build : Build}

/-! ## Centroids in use -/

/-- The centroid document a build has loaded or written. -/
def Progress.document? : Progress → Option String
  | .described _ _ location _ => some location
  | .loaded entry _ | .tableRead entry _ => some entry.metadataLocation
  | .resolved centroids | .built centroids => some centroids.metadataLocation
  | _ => none

/-- The centroid artifact whose table a build has read or written. -/
def Progress.artifact? : Progress → Option IvfCentroidsMetadata
  | .described _ _ _ metadata | .tableRead _ metadata => some metadata
  | .resolved centroids | .built centroids => some centroids.metadata
  | _ => none

/-- The object at a path is not part of the centroids a build is going to publish. -/
def Build.spared (site : Site) (build : Build) (path : ObjectPath) : Bool :=
  match build.config.postingEncoding, build.stage with
  | .source, .working _ progress =>
      (progress.document?.all fun location =>
        (site.warehouse.managed location).all fun found => found.1 ≠ path) &&
      progress.artifact?.all fun metadata =>
        !((segments metadata.centroids).take 3).isPrefixOf path
  | _, _ => true

/-- The step deletes no centroids in use, and loads no deleted ones from a cache. -/
def spares (site : Site) (sessions : Sessions) : Step → Bool
  | .collect _ =>
      match sessions.exclusive with
      | .collecting (.await (.delete location) _) =>
          (site.warehouse.managed location).all fun found =>
            sessions.builds.rows.all fun build => build.spared site found.1
      | _ => true
  | .build id (.loadCentroids true) =>
      (sessions.builds.find? id).all fun build =>
        match build.config.postingEncoding, build.stage with
        | .source, .working _ (.found entry) =>
            (site.warehouse.managed entry.metadataLocation).all fun found =>
              (sessions.store.find? found.1).isSome
        | _, _ => true
  | _ => true

variable {location : String} {path : ObjectPath} {pinned : PinnedSnapshot} {progress : Progress}

theorem Build.spared_document (hspared : build.spared site path = true)
    (hsource : build.config.postingEncoding = .source)
    (hstage : build.stage = .working pinned progress)
    (hdocument : progress.document? = some location) :
    ¬ site.warehouse.locate path false = some location := by
  intro hlocate
  simp only [spared, hsource, hstage, hdocument, Bool.and_eq_true, Option.all_some,
    site.managed_locate hlocate] at hspared
  simp at hspared

theorem Build.spared_artifact {root : ObjectPath} (hspared : build.spared site path = true)
    (hsource : build.config.postingEncoding = .source)
    (hstage : build.stage = .working pinned progress) {metadata : IvfCentroidsMetadata}
    (hartifact : progress.artifact? = some metadata) (hlayout : CentroidLayout site metadata root) :
    ¬ root <+: path := by
  intro hbelow
  obtain ⟨location, hlocate⟩ := hlayout.located
  have hroot : (segments metadata.centroids).take 3 = root := by
    rw [hlayout.centroids, segments_relativeText (Warehouse.validPath_of_locate hlocate),
      ← hlayout.isRoot.length, List.take_left]
  simp only [spared, hsource, hstage, hartifact, Bool.and_eq_true, Option.all_some, hroot] at hspared
  rw [List.isPrefixOf_iff_prefix.mpr hbelow] at hspared
  exact absurd hspared.2 (by simp)

/-! ## Deletions -/

/-- A document is not below a root. -/
theorem rootPath_of_metadata {crates : Crates} (hhead : path.head? = some "metadata") :
    rootPath crates path = none := by
  cases hroot : rootPath crates path with
  | none => rfl
  | some root =>
      obtain ⟨rest, rfl, hlength, hindexes⟩ := rootPath_eq_some hroot
      have hisRoot : IsRoot root := ⟨hlength, hindexes⟩
      rw [hisRoot.head_of_prefix (List.prefix_append root rest)] at hhead
      simp at hhead

/-- A stored document was written under its location. -/
theorem Safe.writtenAt (hsafe : Safe site sessions) {content : Content}
    (hstored : StoredAt site sessions.store location content) (hcontent : content ≠ .data) :
    WrittenAt site sessions location content := by
  obtain ⟨object, hobject, hlocate, rfl⟩ := hstored
  obtain ⟨document, hdocument, hpath, hsame⟩ := hsafe.faithful object hobject hcontent
  exact ⟨document, hdocument, hpath ▸ hlocate, hsame⟩

section

variable (hsafe : Safe site sessions) {session : SessionState} {reference : String}
  {references : List String} {listedPath : ObjectPath}
  (hhandled : HandledAs site.crates site.warehouse listedPath location reference)
  (hunprotected : reference ∉ references)

include hsafe hhandled hunprotected

theorem Safe.keeps_documentAt {documentLocation : String} {content : Content}
    (hstored : StoredAt site sessions.store documentLocation content) (hcontent : content ≠ .data)
    (hprotected : documentLocation ∈ references) :
    Keeps sessions.store ((setting site sessions session).without sessions.store location)
      fun path => site.warehouse.locate path false = some documentLocation := by
  obtain ⟨document, hdocument, hlocate, -⟩ := hsafe.writtenAt hstored hcontent
  have hrootless : ∀ path, site.warehouse.locate path false = some documentLocation →
      rootPath site.crates path = none := by
    intro path hpath
    obtain ⟨rfl, -⟩ := site.locate_injective hlocate hpath
    exact rootPath_of_metadata (hsafe.names document hdocument).1
  exact keeps_document (setting site sessions session) hhandled hunprotected
    (site.readsBack listedPath) hrootless hprotected

/-- A snapshot whose references are protected stays safe. -/
theorem Safe.keeps_snapshot {metadata : IndexMetadata} {found : List String}
    (hreferences : indexMetadataReferences site.crates site.warehouse metadata = .ok found)
    (hprotected : ∀ reference ∈ found, reference ∈ references) {snapshot : IndexSnapshot}
    (hsnapshot : snapshot ∈ metadata.snapshots)
    (hsnapshotSafe : SnapshotSafe site sessions.store snapshot) :
    SnapshotSafe site ((setting site sessions session).without sessions.store location)
      snapshot := by
  obtain ⟨own, hown, hmore⟩ := snapshotReferences_of_metadata hreferences hsnapshot
  obtain ⟨hcentroids, hroots⟩ := mem_of_snapshotReferences hown
  refine hsnapshotSafe.keep ?_ ?_
  · intro table htable tableLocation path directory root htableLocation hmanaged hroot hbelow
    refine keeps_tableRoot (setting site sessions session) hhandled hunprotected hroot hbelow
      hmanaged ?_
    intro foundRoot hfoundRoot
    exact hprotected _ (hmore _ (hroots table htable tableLocation foundRoot htableLocation
      hfoundRoot))
  · intro documentLocation hlocation
    obtain ⟨document, _, hstored, -⟩ := hsnapshotSafe.centroids documentLocation hlocation
    exact hsafe.keeps_documentAt hhandled hunprotected hstored.document (by simp)
      (hprotected _ (hmore _ (hcentroids documentLocation hlocation)))

omit hsafe in
/-- A leased root keeps all below it. -/
theorem keeps_leased {root : ObjectPath} (hroot : IsRoot root)
    (hleased : Leased site build root)
    (hactive : ∀ root ∈ build.leaseRoots, root ∈ references) :
    Keeps sessions.store ((setting site sessions session).without sessions.store location)
      fun path => root <+: path := by
  obtain ⟨rootLocation, hmember, hlocate⟩ := hleased
  exact keeps_root (setting site sessions session) hhandled hunprotected hroot hlocate
    (hactive rootLocation hmember)

end

section

variable {kept : Store}

/-- A deletion that spares the centroids in use keeps what a build relies on. -/
theorem Relied.keep {metadata : IvfCentroidsMetadata} {root : ObjectPath}
    (hrelied : Relied site sessions build location metadata root)
    (hdocument : build.config.postingEncoding = .source →
      Keeps sessions.store kept fun path => site.warehouse.locate path false = some location)
    (hdata : build.config.postingEncoding = .source →
      Keeps sessions.store kept fun path => root <+: path) :
    Relied site { sessions with store := kept } build location metadata root :=
  ⟨hrelied.1, hrelied.2.1, fun hsource =>
    (hrelied.2.2 hsource).keep (hdocument hsource) (hdata hsource)⟩

theorem ProgressSafe.keep (hprogress : ProgressSafe site sessions build pinned progress)
    (hdocument : build.config.postingEncoding = .source → ∀ location,
      progress.document? = some location →
      Keeps sessions.store kept fun path => site.warehouse.locate path false = some location)
    (hartifact : build.config.postingEncoding = .source → ∀ metadata root,
      progress.artifact? = some metadata → CentroidLayout site metadata root →
      Keeps sessions.store kept fun path => root <+: path)
    (hleased : ∀ root, IsRoot root → Leased site build root →
      Keeps sessions.store kept fun path => root <+: path)
    (hroot : IsRoot pinned.root) (hpinned : Leased site build pinned.root) :
    ProgressSafe site { sessions with store := kept } build pinned progress := by
  have hwritten : ∀ artifactUuid, Leased site build (centroidRootPath artifactUuid) ∧
      StoredBelow sessions.store (centroidsPath artifactUuid) →
      Leased site build (centroidRootPath artifactUuid) ∧
        StoredBelow kept (centroidsPath artifactUuid) := by
    rintro artifactUuid ⟨hlease, hstored⟩
    refine ⟨hlease, hstored.keep ?_⟩
    exact (hleased _ (isRoot_centroidRootPath artifactUuid) hlease).mono fun _ hbelow =>
      (List.prefix_append _ _).trans hbelow
  have hresolved : ∀ centroids, progress.document? = some centroids.metadataLocation →
      progress.artifact? = some centroids.metadata → ResolvedSafe site sessions build centroids →
      ResolvedSafe site { sessions with store := kept } build centroids := by
    intro centroids hlocation hmetadata hsafe
    obtain ⟨root, hrelied, hlocate⟩ := hsafe.relied
    refine ⟨⟨root, hrelied.keep (fun hsource => hdocument hsource _ hlocation) fun hsource => ?_,
      hlocate⟩, hsafe.reference⟩
    exact hartifact hsource _ root hmetadata hrelied.1
  cases progress with
  | unresolved => trivial
  | claimed claim => trivial
  | training claim artifactUuid => exact hprogress
  | centroidsWritten claim artifactUuid => exact hwritten artifactUuid hprogress
  | rootsWritten claim artifactUuid => exact hwritten artifactUuid hprogress
  | described claim artifactUuid location metadata =>
      exact Relied.keep hprogress (fun hsource => hdocument hsource location rfl) fun hsource =>
        hartifact hsource metadata _ rfl hprogress.1
  | failed claim => trivial
  | reusing => trivial
  | found entry => exact hprogress
  | loaded entry metadata =>
      exact ⟨hprogress.1, hprogress.2.1, fun hsource =>
        (hprogress.2.2 hsource).keep (hdocument hsource _ rfl)⟩
  | tableRead entry metadata =>
      obtain ⟨root, hrelied⟩ := hprogress
      exact ⟨root, hrelied.keep (fun hsource => hdocument hsource _ rfl) fun hsource =>
        hartifact hsource metadata root rfl hrelied.1⟩
  | resolved centroids => exact hresolved centroids rfl rfl hprogress
  | built centroids =>
      refine ⟨hresolved centroids rfl rfl hprogress.1, hprogress.2.keep ?_⟩
      refine (hleased pinned.root hroot hpinned).mono fun path hbelow => ?_
      cases hmanifest : artifactManifestPath build.config.postingEncoding pinned.root with
      | none =>
          rw [hmanifest] at hbelow
          exact (List.prefix_append _ _).trans hbelow
      | some manifest =>
          rw [hmanifest] at hbelow
          exact (artifactManifestPath_below hmanifest).trans hbelow

end

/-- What the references of a collection protect. -/
structure Protecting (site : Site) (sessions : Sessions) (written : Store)
    (references : List String) : Prop where
  old : ∀ document ∈ written, document ∈ sessions.written
  rows : ∀ row ∈ sessions.tables.indexes, ∃ document ∈ written,
    site.warehouse.locate document.path false = some row.metadataLocation
  mapped : CoversMapped site.crates site.warehouse sessions.tables.indexes
    (DocumentOf site written) references
  active : ∀ build ∈ sessions.builds, ∀ root ∈ build.leaseRoots, root ∈ references

variable {written : Store}

/-- An allowed deletion that spares the centroids in use. -/
theorem Safe.delete (hsafe : Safe site sessions) (session : SessionState)
    {program : Collect (List MaintenanceObject)}
    (hcollecting : sessions.exclusive = .collecting program) {reference : String}
    {references : List String} (hprotecting : Protecting site sessions written references)
    {listedPath : ObjectPath}
    (hhandled : HandledAs site.crates site.warehouse listedPath location reference)
    (hunprotected : reference ∉ references)
    (hspared : ∀ path directory, site.warehouse.managed location = some (path, directory) →
      ∀ build ∈ sessions.builds, build.spared site path = true) :
    Safe site { sessions with
      store := (setting site sessions session).without sessions.store location } where
  data := fun object hobject => hsafe.data object (Setting.mem_without.mp hobject).1
  faithful := fun object hobject => hsafe.faithful object (Setting.mem_without.mp hobject).1
  names := hsafe.names
  layout := hsafe.layout
  entries := hsafe.entries
  mapped := by
    intro row hrow
    obtain ⟨metadata, hstored, hsnapshots⟩ := hsafe.mapped row hrow
    obtain ⟨covered, hdocument, found, hfound, hall⟩ := hprotecting.mapped row hrow
    -- the document the collection has read is the stored one
    obtain ⟨document, hmember, hlocate⟩ := hprotecting.rows row hrow
    have hread : WrittenAt site sessions row.metadataLocation (.index covered) :=
      ⟨document, hprotecting.old document hmember, hlocate, hdocument document hmember hlocate⟩
    obtain rfl := Content.index.inj (hread.unique (hsafe.writtenAt hstored (by simp)))
    have hprotected : row.metadataLocation ∈ references := by
      refine hall _ (List.mem_append_left _ ?_)
      simp [ifManaged, site.managed_locate hlocate]
    refine ⟨covered, hstored.keep (hsafe.keeps_documentAt hhandled hunprotected hstored (by simp)
      hprotected), fun snapshot hsnapshot => ?_⟩
    exact hsafe.keeps_snapshot hhandled hunprotected hfound
      (fun reference hreference => hall reference (List.mem_append_right _ hreference)) hsnapshot
      (hsnapshots snapshot hsnapshot)
  builds := by
    intro build hbuild
    refine ⟨(hsafe.builds build hbuild).base, fun pinned progress hstage => ?_⟩
    obtain ⟨hroot, hleased, hprogress⟩ := (hsafe.builds build hbuild).working pinned progress hstage
    refine ⟨hroot, hleased, hprogress.keep ?_ ?_ ?_ hroot hleased⟩
    · intro hsource documentLocation hdocument
      refine keeps_without fun path directory hmanaged => ?_
      exact Build.spared_document (hspared path directory hmanaged build hbuild) hsource hstage
        hdocument
    · intro hsource metadata root hartifact hlayout
      refine keeps_without fun path directory hmanaged => ?_
      exact Build.spared_artifact (hspared path directory hmanaged build hbuild) hsource hstage
        hartifact hlayout
    · intro root hisRoot hlease
      exact keeps_leased hhandled hunprotected hisRoot hlease (hprotecting.active build hbuild)
  exclusion := hsafe.exclusion
  exclusive := by
    have hexclusive := hsafe.exclusive
    change ExclusiveSafe site _ sessions.exclusive
    rw [hcollecting] at hexclusive ⊢
    exact hexclusive

/-! ## Collections -/

/-- The answers of one collection suffice for its contract. -/
theorem answering {indexes : KeyedTable IndexRow.key} :
    Answering (Answers site indexes written) indexes [] (DocumentOf site written) (fun _ => True)
      fun _ => True where
  listAll := fun keys hanswer => hanswer keys rfl
  load := fun key row hanswer => hanswer row rfl
  listTombstones := by simp
  loaded := fun location metadata hanswer => hanswer metadata rfl
  missing := fun _ _ _ => trivial
  list := fun _ _ _ _ _ => trivial

theorem Safe.beginCollection (hsafe : Safe site sessions) (clock : Clock) (olderThanMs : ℤ)
    (dryRun : Bool) : Safe site (beginCollection site sessions clock olderThanMs dryRun) := by
  unfold Session.beginCollection
  split
  · rename_i hfree
    refine hsafe.acquire hfree ⟨sessions.written, sessions.activeBuildRoots, ?_, ?_, ?_, ?_⟩
    · exact fun document hdocument => hdocument
    · intro row hrow
      obtain ⟨metadata, hstored, -⟩ := hsafe.mapped row hrow
      obtain ⟨document, hdocument, hlocate, -⟩ := hsafe.writtenAt hstored (by simp)
      exact ⟨document, hdocument, hlocate⟩
    · exact fun build hbuild root hroot => List.mem_flatMap.mpr ⟨build, hbuild, hroot⟩
    · refine meets_removeOrphans ?_ (fun _ => trivial) (fun _ => trivial) answering olderThanMs
        dryRun ?_
      · intro operation hreads
        cases operation with
        | delete location => exact hreads.elim
        | _ => trivial
      · intro location reference references cutoff hhandled hunprotected hprotects
        exact ⟨reference, references, hhandled, hunprotected, hprotects.mapped, hprotects.active⟩
  · exact hsafe

/-- A collection loads a managed document from the cache or the store. -/
theorem document_of_loadMetadata {session : SessionState} {metadata : IndexMetadata}
    (hlocate : site.warehouse.locate path false = some location)
    (hloaded : (setting site sessions session).loadMetadata sessions.store location =
      .ok metadata) :
    ∃ cached, sessions.document site.warehouse location cached = some (.index metadata) := by
  have hmanaged := site.managed_locate hlocate
  unfold Setting.loadMetadata at hloaded
  split at hloaded
  · rename_i hcached
    cases hloaded
    simp only [setting] at hcached
    split at hcached
    · exact ⟨true, hcached⟩
    · cases hcached
  · split at hloaded
    · rename_i hread
      cases hloaded
      refine ⟨false, ?_⟩
      simp only [Setting.read, setting, hmanaged] at hread
      split at hread
      · rename_i object hfound
        simp only [Sessions.document, hmanaged, hfound, Except.ok.inj hread, Bool.false_eq_true,
          if_false, Option.map_some]
      · cases hread
    · cases hloaded
    · cases hloaded

/-- A collection reads what was written. -/
theorem Safe.answers (hsafe : Safe site sessions) (session : SessionState)
    (hold : ∀ document ∈ written, document ∈ sessions.written) (operation : Operation) :
    Answers site sessions.tables.indexes written operation
      ((setting site sessions session).respond operation ⟨sessions.tables, sessions.store⟩).1 := by
  cases operation with
  | listAll =>
      intro keys hkeys row hrow
      cases hkeys
      exact (List.mem_insertionSort _).mpr (List.mem_map.mpr ⟨row, hrow, rfl⟩)
  | load key =>
      intro row hrow
      simp only [Setting.respond] at hrow
      split at hrow
      · cases hrow
        assumption
      · cases hrow
  | loadMetadata location =>
      intro metadata hmetadata document hdocument hlocate
      obtain ⟨cached, hread⟩ := document_of_loadMetadata hlocate hmetadata
      have hwritten : WrittenAt site sessions location document.content :=
        ⟨document, hold document hdocument, hlocate, rfl⟩
      exact hwritten.unique (hsafe.writtenAt_of_document hlocate hread (by simp))
  | _ => trivial

theorem delete_store (setting : Setting) (store : Store) (location : String) :
    (setting.delete store location).2 = store ∨
      (setting.delete store location).2 = setting.without store location := by
  unfold Setting.delete
  split
  · exact Or.inl rfl
  · split
    · rename_i applied hfault
      cases applied with
      | true => exact Or.inr rfl
      | false => exact Or.inl rfl
    · split
      · exact Or.inr rfl
      · exact Or.inl rfl

theorem Safe.collect (hsafe : Safe site sessions) (session : SessionState)
    (hspares : spares site sessions (.collect session) = true) :
    Safe site (collect site sessions session) := by
  unfold Session.collect
  split
  · rename_i operation next hcollecting
    have hheld : sessions.exclusive ≠ .free := by simp [hcollecting]
    have hexclusive := hsafe.exclusive
    rw [hcollecting] at hexclusive
    obtain ⟨written, activeRoots, hwritten, hrows, hroots, hallowed, hmeets⟩ := hexclusive
    have hnext := hmeets _ (hsafe.answers session hwritten operation)
    dsimp only
    -- what the state becomes, apart from the program that is left
    have hstate : Safe site { sessions with
        tables := ((setting site sessions session).respond operation
          ⟨sessions.tables, sessions.store⟩).2.tables
        store := ((setting site sessions session).respond operation
          ⟨sessions.tables, sessions.store⟩).2.store } ∧
        ((setting site sessions session).respond operation
          ⟨sessions.tables, sessions.store⟩).2.tables.indexes = sessions.tables.indexes := by
      cases operation with
      | delete location =>
          refine ⟨?_, rfl⟩
          obtain ⟨reference, references, ⟨_, -, hhandled⟩, hunprotected, hmapped, hactive⟩ := hallowed
          have hprotecting : Protecting site sessions written references :=
            ⟨hwritten, hrows, hmapped, fun build hbuild root hroot =>
              hactive root (hroots build hbuild root hroot)⟩
          have hspared : ∀ path directory, site.warehouse.managed location = some (path, directory) →
              ∀ build ∈ sessions.builds, build.spared site path = true := by
            intro path directory hmanaged
            simp only [spares, hcollecting, hmanaged, Option.all_some, List.all_eq_true] at hspares
            exact hspares
          rcases delete_store (setting site sessions session) sessions.store location with
            hkept | hdeleted
          · simp only [Setting.respond, hkept]
            exact hsafe
          · simp only [Setting.respond, hdeleted]
            exact hsafe.delete session hcollecting hprotecting hhandled hunprotected hspared
      | purgeTombstone tombstone =>
          exact ⟨hsafe.withTables rfl hsafe.entries, rfl⟩
      | purgeIvfCentroids entry =>
          refine ⟨hsafe.withTables rfl fun row hrow => ?_, rfl⟩
          exact hsafe.entries row (KeyedTable.mem_delete.mp hrow).1
      | _ => exact ⟨hsafe, rfl⟩
    refine hstate.1.goOn hheld ⟨written, activeRoots, hwritten, ?_, hroots, ?_⟩
    · intro row hrow
      dsimp only at hrow
      rw [hstate.2] at hrow
      exact hrows row hrow
    · dsimp only
      rw [hstate.2]
      exact hnext
  · exact hsafe.release
  · exact hsafe

/-! ## Runs -/

theorem Safe.initial : Safe site Sessions.initial where
  data := by simp [Sessions.initial]
  faithful := by simp [Sessions.initial]
  names := by simp [Sessions.initial]
  layout := by simp [Sessions.initial]
  entries := by simp [Sessions.initial, createSchema]
  mapped := by simp [Sessions.initial, createSchema]
  builds := by simp [Sessions.initial]
  exclusion := by simp [Sessions.initial]
  exclusive := trivial

theorem Safe.buildStep (hscheme : NeedsScheme site.crates) (hsafe : Safe site sessions)
    (hmember : build ∈ sessions.builds) (step : BuildStep)
    (hspares : spares site sessions (.build build.id step) = true) :
    Safe site (build.step site sessions step) := by
  cases step with
  | loadBase cached => exact hsafe.loadBase hmember cached
  | setSnapshotRoot newUuid snapshotId => exact hsafe.setSnapshotRoot hmember newUuid snapshotId
  | resolveIvfCentroids clock fuse => exact hsafe.resolveIvfCentroids hmember clock fuse
  | loadEntry => exact hsafe.loadEntry hmember
  | loadCentroids cached =>
      refine hsafe.loadCentroids hmember fun hcached hsource pinned entry hstage path directory
        hmanaged => ?_
      subst hcached
      simpa only [spares, KeyedTable.find?_key hmember, Option.all_some, hsource, hstage, hmanaged]
        using hspares
  | readCentroids => exact hsafe.readCentroids hmember
  | readRoots => exact hsafe.readRoots hmember
  | addSnapshotRoot artifactUuid => exact hsafe.addSnapshotRoot hmember artifactUuid
  | writeCentroids file modifiedMs => exact hsafe.writeCentroids hmember file modifiedMs
  | writeRoots file modifiedMs => exact hsafe.writeRoots hmember file modifiedMs
  | writeIvfCentroids createdAtMs modifiedMs =>
      exact hsafe.writeIvfCentroids hmember createdAtMs modifiedMs
  | publishCentroids clock fuse => exact hsafe.publishCentroids hmember clock fuse
  | renewClaim clock fuse => exact hsafe.renewClaim clock fuse
  | failTraining => exact hsafe.failTraining hmember
  | abandonClaim message clock fuse => exact hsafe.abandonClaim hmember message clock fuse
  | writePostings file modifiedMs => exact hsafe.writePostings hmember file modifiedMs
  | writeManifest modifiedMs => exact hsafe.writeManifest hmember modifiedMs
  | lockForPublication => exact hsafe.lockForPublication
  | writeMetadata nowMs modifiedMs => exact hsafe.writeMetadata hmember hscheme nowMs modifiedMs
  | publish clock fuse => exact hsafe.publish hmember clock fuse
  | stop => exact hsafe.stop build

/-- Every step that spares the centroids in use keeps the sessions safe. -/
theorem Safe.next (hscheme : NeedsScheme site.crates) (hsafe : Safe site sessions) (step : Step)
    (hspares : spares site sessions step = true) : Safe site (next site sessions step) := by
  cases step with
  | reserve build => exact hsafe.reserveBuild
  | build id step =>
      unfold Session.next
      dsimp only
      split
      · exact hsafe
      · rename_i build hbuild
        obtain ⟨hmember, rfl⟩ := KeyedTable.find?_eq_some_iff.mp hbuild
        exact hsafe.buildStep hscheme hmember step hspares
  | drop identifier clock fuse => exact hsafe.dropIndex identifier clock fuse
  | beginRegistration identifier source manifestLocation =>
      exact hsafe.beginRegistration identifier source manifestLocation
  | loadManifest manifest => exact hsafe.loadManifest manifest
  | writeRegistration indexUuid snapshotId nowMs modifiedMs =>
      exact hsafe.writeRegistration indexUuid snapshotId nowMs modifiedMs
  | finishRegistration clock fuse => exact hsafe.finishRegistration clock fuse
  | beginCollection clock olderThanMs dryRun =>
      exact hsafe.beginCollection clock olderThanMs dryRun
  | collect session => exact hsafe.collect session hspares
  | abort => exact hsafe.abort

/-- While collections spare the centroids that builds in progress have loaded or written,
every interleaving keeps every mapped index live: its document, something at the location of
each of its tables, and the document and table of its centroids are stored. -/
theorem collections_keep_indexes_live (site : Site) (hscheme : NeedsScheme site.crates)
    (steps : List Step)
    (hspares : ∀ pair ∈ stepsOf (next site) Sessions.initial steps,
      spares site pair.1 pair.2 = true) :
    ∀ sessions ∈ statesOf (next site) Sessions.initial steps, sessions.Live site := by
  have hstep : ∀ state step, Safe site state → spares site state step = true →
      Safe site (next site state step) := fun state step hsafe hgood => hsafe.next hscheme step hgood
  intro sessions hsessions
  exact (forall_mem_statesOf hstep Safe.initial hspares sessions hsessions).live

/-! ## Centroids that are reused, collected and published -/

section

def sampleSite : Site where
  crates := sampleCrates
  warehouse := fileWarehouse.restrict plainPath
  readsBack := Warehouse.restrict_readsBack fileWarehouse_readsBack

theorem needsScheme_sampleCrates : NeedsScheme sampleCrates := by
  rintro text ⟨rest, hrest⟩
  refine ⟨"relative URL without a base", ?_⟩
  simp only [sampleCrates, ← hrest]
  rfl

/-- A build in the source encoding. -/
def trainer : Build where
  id := 1
  identifier := ⟨[], "first", by decide⟩
  source := sampleSource
  vectorField := "embedding"
  sourceKeyFields := ["id"]
  config := ⟨2, .source, .l2Squared⟩
  dimension := 2
  ntotal := 2
  owner := 1
  refresh := false
  base := none
  leaseRoots := []
  stage := .setup

/-- A second build with the same centroids. -/
def reuser : Build := { trainer with id := 2, identifier := sampleIdentifier, owner := 2 }

/-- The first build trains its centroids. -/
def training (nowMs : ℤ) : List Step :=
  [.reserve trainer, .build 1 (.setSnapshotRoot 0x400080000000000000bb 5),
    .build 1 (.resolveIvfCentroids (.ok nowMs) none),
    .build 1 (.addSnapshotRoot 0x400080000000000000cc),
    .build 1 (.writeCentroids "part-0.parquet" nowMs),
    .build 1 (.writeRoots "part-0.parquet" nowMs), .build 1 (.writeIvfCentroids nowMs nowMs),
    .build 1 (.publishCentroids (.ok nowMs) none)]

/-- The second build finds them eight days later. -/
def reuse : List Step :=
  [.reserve reuser, .build 2 (.setSnapshotRoot 0x400080000000000000aa 7),
    .build 2 (.resolveIvfCentroids (.ok 691200000) none), .build 2 .loadEntry,
    .build 2 (.loadCentroids false), .build 2 .readCentroids, .build 2 .readRoots]

/-- A collection of so many awaits. -/
def collection (awaits : ℕ) : List Step :=
  .beginCollection (.ok 691200000) 691200000 false ::
    List.replicate awaits (.collect (failingAt none))

/-- A build writes its postings and publishes them. -/
def publication (id : ℕ) : List Step :=
  [.build id (.writeManifest 691200000), .build id .lockForPublication,
    .build id (.writeMetadata 691200000 691200000), .build id (.publish (.ok 691200000) none)]

/-- The first build fails after its training, and the centroids are collected while the second
build encodes its postings. -/
def collectedReuse : List Step :=
  training 1000 ++ .build 1 .stop :: reuse ++ collection 16 ++ publication 2

/-- The published index refers to centroids that are gone. -/
theorem collected_centroids_are_published :
    ∃ sessions ∈ statesOf (next sampleSite) Sessions.initial collectedReuse,
      ¬ sessions.Live sampleSite := by
  have hlast : ¬ (collectedReuse.foldl (next sampleSite) Sessions.initial).Live sampleSite := by
    decide +kernel
  exact ⟨_, foldl_mem_statesOf, hlast⟩

/-- The second build fails and leaves an object. The first trains and publishes eight days later,
and a collection between the two deletes the object. -/
def collectedOrphan : List Step :=
  [.reserve reuser, .build 2 (.setSnapshotRoot 0x400080000000000000aa 7),
    .build 2 (.resolveIvfCentroids (.ok 1000) none),
    .build 2 (.addSnapshotRoot 0x400080000000000000dd),
    .build 2 (.writeCentroids "part-0.parquet" 1000), .build 2 .stop] ++
    training 691200000 ++ collection 10 ++ publication 1

theorem trained_index_is_live :
    (∀ pair ∈ stepsOf (next sampleSite) Sessions.initial collectedOrphan,
        spares sampleSite pair.1 pair.2 = true) ∧
      ∀ sessions ∈ statesOf (next sampleSite) Sessions.initial collectedOrphan,
        sessions.Live sampleSite := by
  have hspares : ∀ pair ∈ stepsOf (next sampleSite) Sessions.initial collectedOrphan,
      spares sampleSite pair.1 pair.2 = true := by
    decide +kernel
  exact ⟨hspares, collections_keep_indexes_live sampleSite needsScheme_sampleCrates _ hspares⟩

end

end ParqDB.Session
