import ParqDB.Builds.BuildSteps

/-!
# Publications, registrations and drops

`Safe` is kept by the operations that change the mappings, all of them under the exclusive
lock: the publication of a finished build, `register_index` and `drop_index`.

**Strategy.**  The snapshot a publication adds is safe when its document is written, since
its root is leased and stored and its centroids are those the build relies on.  The
snapshots a refresh retains are safe when `commit` succeeds, since the base is then the
mapped document.
-/

namespace ParqDB.Session

open Foundations Meta Storage Catalog Maintenance

variable {site : Site} {sessions after : Sessions} {build : Build}

/-! ## The exclusive lock -/

theorem exclusive_of_isFree (hfree : sessions.isFree = true) :
    sessions.exclusive = .free ∧ ∀ build ∈ sessions.builds, build.stage ≠ .setup := by
  unfold Sessions.isFree at hfree
  split at hfree
  · rename_i hexclusive
    refine ⟨hexclusive, fun build hbuild hsetup => ?_⟩
    have hshared : sessions.shared = true :=
      List.any_eq_true.mpr ⟨build, hbuild, by rw [hsetup]⟩
    rw [hshared] at hfree
    cases hfree
  · cases hfree

variable {exclusive : Exclusive} {path root : ObjectPath} {table : IndexTableDefinition}
  {encoding : PostingEncoding} {centroids : ResolvedIvfCentroids} {pinned : PinnedSnapshot}

section

variable (hsafe : Safe site sessions)

include hsafe

/-- The holder of the exclusive lock changes. -/
theorem Safe.hold (hexclusion : exclusive ≠ .free → ∀ build ∈ sessions.builds, build.stage ≠ .setup)
    (hexclusive : ExclusiveSafe site sessions exclusive) :
    Safe site { sessions with exclusive := exclusive } where
  data := hsafe.data
  faithful := hsafe.faithful
  names := hsafe.names
  layout := hsafe.layout
  entries := hsafe.entries
  mapped := hsafe.mapped
  builds := fun build hbuild =>
    (hsafe.builds build hbuild).grow keeps_rfl fun _ hdocument => hdocument
  exclusion := hexclusion
  exclusive := hexclusive.grow keeps_rfl (fun _ hdocument => hdocument) rfl rfl

theorem Safe.release :
    Safe site { sessions with exclusive := .free } :=
  hsafe.hold (fun hheld => absurd rfl hheld) trivial

theorem Safe.acquire (hfree : sessions.isFree = true)
    (hexclusive : ExclusiveSafe site sessions exclusive) :
    Safe site { sessions with exclusive := exclusive } :=
  hsafe.hold (fun _ => (exclusive_of_isFree hfree).2) hexclusive

/-- The holder of the exclusive lock goes on. -/
theorem Safe.goOn (hheld : sessions.exclusive ≠ .free)
    (hexclusive : ExclusiveSafe site sessions exclusive) :
    Safe site { sessions with exclusive := exclusive } :=
  hsafe.hold (fun _ => hsafe.exclusion hheld) hexclusive

/-- A change of the mappings and of nothing else, by a holder of the lock that is no
collection. -/
theorem Safe.withMappings {tables : Tables}
    (hcollecting : ∀ program, sessions.exclusive ≠ .collecting program)
    (hcentroids : tables.ivfCentroidArtifacts = sessions.tables.ivfCentroidArtifacts)
    (hmapped : ∀ row ∈ tables.indexes, ∃ metadata,
      StoredAt site sessions.store row.metadataLocation (.index metadata) ∧
        ∀ snapshot ∈ metadata.snapshots, SnapshotSafe site sessions.store snapshot) :
    Safe site { sessions with tables := tables } where
  data := hsafe.data
  faithful := hsafe.faithful
  names := hsafe.names
  layout := hsafe.layout
  entries := by
    intro row hrow
    rw [hcentroids] at hrow
    exact hsafe.entries row hrow
  mapped := hmapped
  builds := fun build hbuild =>
    (hsafe.builds build hbuild).grow keeps_rfl fun _ hdocument => hdocument
  exclusion := hsafe.exclusion
  exclusive := by
    have hexclusive := hsafe.exclusive
    change ExclusiveSafe site { sessions with tables := tables } sessions.exclusive
    cases hholder : sessions.exclusive with
    | free => trivial
    | publishing id document =>
        rw [hholder] at hexclusive
        cases document with
        | none => trivial
        | some pair => exact hexclusive
    | registering registration =>
        rw [hholder] at hexclusive
        exact hexclusive
    | collecting program => exact absurd hholder (hcollecting program)

end

/-! ## The snapshot a publication adds -/

/-- A table with a relative location below a root. -/
theorem tableSafe_of_relative (hscheme : NeedsScheme site.crates) {store : Store} {directory : Bool}
    {location : String} (htable : validateTableDefinition table = .ok (relativeText path directory))
    (hroot : IsRoot root) (hbelow : root <+: path)
    (hlocate : site.warehouse.locate path directory = some location)
    (hstored : StoredBelow store path) : TableSafe site store table :=
  ⟨location, tableLocation_relative hscheme htable hroot hbelow hlocate,
    Or.inr ⟨path, directory, root, site.managed_locate hlocate, hroot, hbelow, hstored⟩⟩

theorem mem_values_ivfTables {centroids postings : IndexTableDefinition} :
    table ∈ (ivfTables centroids postings).values ↔ table = centroids ∨ table = postings := by
  simp [ivfTables, SortedMap.values]

theorem artifactManifestPath_below (hpath : artifactManifestPath encoding root = some path) :
    root <+: path := by
  unfold artifactManifestPath at hpath
  split at hpath
  · cases hpath
    exact List.prefix_append _ _
  · cases hpath

theorem source_of_artifactManifestPath (hpath : artifactManifestPath encoding root = none) :
    encoding = .source := by
  cases encoding with
  | source => rfl
  | lvq4 => cases hpath
  | lvq8 => cases hpath

/-- The snapshot of a finished build is safe. -/
theorem ResolvedSafe.snapshotSafe (hscheme : NeedsScheme site.crates)
    (hresolved : ResolvedSafe site sessions build centroids) (hroot : IsRoot pinned.root)
    (hstored : StoredBelow sessions.store
      ((artifactManifestPath build.config.postingEncoding pinned.root).getD
        (pinned.root ++ ["ivf_postings"]))) {artifacts : IndexArtifacts}
    (hartifacts : build.artifacts site pinned centroids = some artifacts) {snapshot : IndexSnapshot}
    (htables : snapshot.indexTables = artifacts.indexTables)
    (hparameters : snapshot.parameters = artifacts.parameters) :
    SnapshotSafe site sessions.store snapshot := by
  unfold Build.artifacts at hartifacts
  split at hartifacts
  · cases hartifacts
  rename_i postingsLocation hpostings
  dsimp only at hartifacts
  split at hartifacts
  · -- the centroids stay where they are, and the snapshot refers to their document
    rename_i hmanifest
    obtain ⟨⟨root, ⟨hlayout, -, hcentroidsStored⟩, hcentroids⟩, path, hlocate, hreference⟩ :=
      hresolved
    have hcentroidsStored := hcentroidsStored (source_of_artifactManifestPath hmanifest)
    rw [hmanifest] at hstored
    rw [prepare_sourceArtifacts site.readsBack hcentroids hpostings] at hartifacts
    cases hartifacts
    have hcentroidTable := tableLocation_relative hscheme
      (validateTableDefinition_parquetIndexTable _) hlayout.isRoot (List.prefix_append _ _)
      hcentroids
    constructor
    · intro table htable
      rw [htables, mem_values_ivfTables] at htable
      rcases htable with rfl | rfl
      · exact tableSafe_of_relative hscheme (validateTableDefinition_parquetIndexTable _)
          hlayout.isRoot (List.prefix_append _ _) hcentroids hcentroidsStored.data
      · exact tableSafe_of_relative hscheme (validateTableDefinition_parquetIndexTable _) hroot
          (List.prefix_append _ _) hpostings hstored
    · intro location hfound
      rw [hreference] at hparameters
      obtain rfl := centroidReference_source hparameters hlocate hfound
      refine ⟨centroids.metadata, root, hcentroidsStored, _, ?_, centroids.centroidsLocation,
        hcentroidTable, hcentroids⟩
      rw [htables, mem_values_ivfTables]
      exact Or.inl rfl
  · -- a self-contained artifact has only its manifest
    rename_i path hmanifest
    rw [hmanifest] at hstored
    obtain ⟨manifestLocation, hlocate, hprepare⟩ := Option.bind_eq_some_iff.mp hartifacts
    rw [prepare_manifestArtifacts site.readsBack hlocate] at hprepare
    cases hprepare
    constructor
    · intro table htable
      rw [htables, mem_values_ivfTables, or_self] at htable
      subst htable
      exact tableSafe_of_relative hscheme (validateTableDefinition_parquetArtifactTable _) hroot
        (artifactManifestPath_below hmanifest) hlocate hstored
    · intro location hfound
      rw [centroidReference_artifact hparameters] at hfound
      cases hfound

/-- The document of a publication: the retained snapshots and the new one. -/
theorem publication_eq_some {nowMs : ℤ} {metadata : IndexMetadata}
    (hpublication : build.publication site pinned centroids nowMs = some (path, metadata)) :
    path.head? = some "metadata" ∧
      ∃ artifacts snapshot, build.artifacts site pinned centroids = some artifacts ∧
        snapshot.indexTables = artifacts.indexTables ∧
        snapshot.parameters = artifacts.parameters ∧
        metadata.snapshots = build.retained ++ [snapshot] := by
  unfold Build.publication at hpublication
  dsimp only at hpublication
  obtain ⟨artifacts, hartifacts, hpublication⟩ := Option.bind_eq_some_iff.mp hpublication
  unfold Build.retained
  split at hpublication
  · rename_i baseLocation base hrefresh hbase
    obtain ⟨document, hdocument, hpublication⟩ := Option.bind_eq_some_iff.mp hpublication
    split at hpublication
    · cases hpublication
      unfold refreshedMetadata at hdocument
      split at hdocument
      · split at hdocument
        · cases hdocument
          rw [hrefresh, hbase]
          exact ⟨rfl, artifacts, _, hartifacts, rfl, rfl, rfl⟩
        · cases hdocument
      · cases hdocument
    · cases hpublication
  · rename_i hrefresh
    obtain ⟨document, hdocument, hpublication⟩ := Option.bind_eq_some_iff.mp hpublication
    split at hpublication
    · cases hpublication
      obtain ⟨rows, -, rfl⟩ := Option.map_eq_some_iff.mp hdocument
      rw [hrefresh]
      exact ⟨rfl, artifacts, _, hartifacts, rfl, rfl, rfl⟩
    · cases hpublication
  · cases hpublication

/-! ## Publications -/

section

variable (hsafe : Safe site sessions) (hmember : build ∈ sessions.builds)

include hsafe in
theorem Safe.lockForPublication : Safe site (lockForPublication sessions build) := by
  unfold Session.lockForPublication
  split
  · split
    · rename_i hfree
      exact hsafe.acquire hfree trivial
    · exact hsafe
  · exact hsafe

include hsafe hmember in
theorem Safe.writeMetadata (hscheme : NeedsScheme site.crates) (nowMs modifiedMs : ℤ) :
    Safe site (writeMetadata site sessions build nowMs modifiedMs) := by
  unfold Session.writeMetadata
  split
  · rename_i pinned centroids id hstage hexclusive
    split
    · split
      · exact hsafe.stop build
      · rename_i path metadata hpublication
        obtain ⟨hhead, artifacts, snapshot, hartifacts, htables, hparameters, hsnapshots⟩ :=
          publication_eq_some hpublication
        obtain ⟨hroot, -, hresolved, hstored⟩ :=
          (hsafe.builds build hmember).working pinned _ hstage
        have hsnapshot : SnapshotSafe site sessions.store snapshot :=
          hresolved.snapshotSafe hscheme hroot hstored hartifacts htables hparameters
        split
        · rename_i location written hlocate hput
          obtain ⟨hwritten, hdocument⟩ := hsafe.putDocument hput hhead (by simp) (by
            rintro found hfound
            cases hfound)
          refine hwritten.goOn ?_ ⟨⟨_, hdocument.stored, hlocate, rfl⟩, ?_⟩
          · rw [hdocument.exclusive, hexclusive]
            simp
          · intro other hother hid
            rw [hdocument.builds] at hother
            obtain rfl := KeyedTable.eq_of_key_eq hother hmember hid
            exact ⟨⟨pinned, centroids, hstage⟩, snapshot, hsnapshots,
              hsnapshot.grow hdocument.keeps⟩
        · exact hsafe.stop build
    · exact hsafe
  · exact hsafe

variable {metadata : IndexMetadata}

/-- `register` maps a document that is stored with all it refers to. -/
theorem Safe.register (hsafe : Safe site sessions)
    (hcollecting : ∀ program, sessions.exclusive ≠ .collecting program)
    (identifier : IndexIdentifier) (source : TableDefinition) {location : String} (clock : Clock)
    (fuse : Option ℕ) (hstored : StoredAt site sessions.store location (.index metadata))
    (hsnapshots : ∀ snapshot ∈ metadata.snapshots, SnapshotSafe site sessions.store snapshot) :
    Safe site { sessions with
      tables := Catalog.next site.crates sessions.tables
        ⟨.register identifier source location metadata, clock, fuse⟩ } := by
  unfold Catalog.next
  rcases hperform : perform site.crates ⟨.register identifier source location metadata, clock, fuse⟩
    sessions.tables with ⟨outcome, tables⟩
  cases outcome with
  | error error =>
      obtain rfl : tables = sessions.tables := perform_error hperform
      exact hsafe
  | ok response =>
      have hregistered : Registered site.crates identifier source location metadata
        sessions.tables tables := perform_ok hperform
      obtain ⟨row, -, hlocation, -, hinsert⟩ := hregistered.mapped
      refine hsafe.withMappings hcollecting hregistered.centroids fun other hother => ?_
      rcases ((KeyedTable.insert?_eq_some hinsert).2 other).mp hother with rfl | hold
      · rw [hlocation]
        exact ⟨metadata, hstored, hsnapshots⟩
      · exact hsafe.mapped other hold

/-- `commit` maps the new document in place of the base, whose snapshots it may retain. -/
theorem Safe.commit (hsafe : Safe site sessions)
    (hcollecting : ∀ program, sessions.exclusive ≠ .collecting program)
    {identifier : IndexIdentifier} {source : TableDefinition} {baseLocation location : String}
    {base : IndexMetadata} {clock : Clock} {fuse : Option ℕ}
    (hbase : WrittenAt site sessions baseLocation (.index base))
    (hstored : StoredAt site sessions.store location (.index metadata))
    (hsnapshots : ∀ snapshot ∈ metadata.snapshots, snapshot ∈ base.snapshots ∨
      SnapshotSafe site sessions.store snapshot) :
    Safe site { sessions with
      tables := Catalog.next site.crates sessions.tables
        ⟨.commit identifier source baseLocation location base metadata, clock, fuse⟩ } := by
  unfold Catalog.next
  rcases hperform : perform site.crates
    ⟨.commit identifier source baseLocation location base metadata, clock, fuse⟩
    sessions.tables with ⟨outcome, tables⟩
  cases outcome with
  | error error =>
      obtain rfl : tables = sessions.tables := perform_error hperform
      exact hsafe
  | ok response =>
      have hcommitted : Committed site.crates clock identifier source baseLocation location base
        metadata sessions.tables tables := perform_ok hperform
      obtain ⟨current, hcurrent, hcurrentLocation, -⟩ := hcommitted.current
      -- the base is the document mapped now, so its snapshots are safe
      have hretained : ∀ snapshot ∈ base.snapshots, SnapshotSafe site sessions.store snapshot := by
        obtain ⟨mapped, ⟨object, hobject, hlocate, hcontent⟩, hmapped⟩ :=
          hsafe.mapped current (KeyedTable.find?_eq_some_iff.mp hcurrent).1
        rw [hcurrentLocation] at hlocate
        obtain ⟨document, hdocument, hpath, hsame⟩ :=
          hsafe.faithful object hobject (by rw [hcontent]; simp)
        have hwritten : WrittenAt site sessions baseLocation (.index mapped) :=
          ⟨document, hdocument, hpath ▸ hlocate, hsame.trans hcontent⟩
        obtain rfl := Content.index.inj (hwritten.unique hbase)
        exact hmapped
      refine hsafe.withMappings hcollecting hcommitted.centroids fun other hother => ?_
      rcases hcommitted.mem_indexes.mp hother with ⟨old, -, rfl⟩ | ⟨hold, -⟩
      · refine ⟨metadata, hstored, fun snapshot hsnapshot => ?_⟩
        rcases hsnapshots snapshot hsnapshot with hold | hnew
        · exact hretained snapshot hold
        · exact hnew
      · exact hsafe.mapped other hold

include hsafe hmember in
theorem Safe.publish (clock : Clock) (fuse : Option ℕ) :
    Safe site (publish site sessions build clock fuse) := by
  unfold Session.publish
  split
  · rename_i id location metadata hexclusive
    split
    · rename_i hid
      subst hid
      have hcollecting : ∀ program, sessions.exclusive ≠ .collecting program := by
        simp [hexclusive]
      have hpublishing := hsafe.exclusive
      rw [hexclusive] at hpublishing
      obtain ⟨hstored, hbuild⟩ := hpublishing
      obtain ⟨-, snapshot, hsnapshots, hsnapshot⟩ := hbuild build hmember rfl
      refine Safe.stop ?_ build
      unfold Build.retained at hsnapshots
      have hregister (hempty : metadata.snapshots = [snapshot]) :
          ∀ other ∈ metadata.snapshots, SnapshotSafe site sessions.store other := by
        intro other hother
        rw [hempty, List.mem_singleton] at hother
        exact hother ▸ hsnapshot
      cases hrefresh : build.refresh with
      | false =>
          rw [hrefresh] at hsnapshots
          exact hsafe.register hcollecting _ _ _ _ hstored (hregister hsnapshots)
      | true =>
          rw [hrefresh] at hsnapshots
          cases hbase : build.base with
          | none =>
              rw [hbase] at hsnapshots
              exact hsafe.register hcollecting _ _ _ _ hstored (hregister hsnapshots)
          | some described =>
              obtain ⟨baseLocation, base⟩ := described
              rw [hbase] at hsnapshots
              refine hsafe.commit hcollecting ((hsafe.builds build hmember).base _ _ hbase)
                hstored ?_
              intro other hother
              rw [hsnapshots, List.mem_append, List.mem_singleton] at hother
              rcases hother with hold | rfl
              · exact Or.inl hold
              · exact Or.inr hsnapshot
    · exact hsafe
  · exact hsafe

include hsafe in
theorem Safe.dropIndex (identifier : IndexIdentifier) (clock : Clock) (fuse : Option ℕ) :
    Safe site (dropIndex site sessions identifier clock fuse) := by
  unfold Session.dropIndex
  split
  · rename_i hfree
    have hcollecting : ∀ program, sessions.exclusive ≠ .collecting program := by
      simp [(exclusive_of_isFree hfree).1]
    unfold Catalog.next
    rcases hperform : perform site.crates ⟨.drop identifier, clock, fuse⟩ sessions.tables with
      ⟨outcome, tables⟩
    cases outcome with
    | error error =>
        obtain rfl : tables = sessions.tables := perform_error hperform
        exact hsafe
    | ok response =>
        have hdropped : Dropped clock identifier sessions.tables tables := perform_ok hperform
        exact hsafe.withMappings hcollecting hdropped.centroids fun row hrow =>
          hsafe.mapped row (hdropped.mem_indexes.mp hrow).1
  · exact hsafe

end

/-! ## Registrations -/

section

variable (hsafe : Safe site sessions)

include hsafe in
theorem Safe.beginRegistration (identifier : IndexIdentifier) (source : TableDefinition)
    (manifestLocation : String) :
    Safe site (beginRegistration sessions identifier source manifestLocation) := by
  unfold Session.beginRegistration
  split
  · rename_i hfree
    rw [Bool.and_eq_true] at hfree
    refine hsafe.acquire hfree.1 ⟨?_, ?_⟩
    · intro manifest hmanifest
      cases hmanifest
    · intro location metadata hdocument
      cases hdocument
  · exact hsafe

include hsafe in
theorem Safe.loadManifest (manifest : ArtifactManifest) :
    Safe site (loadManifest site sessions manifest) := by
  unfold Session.loadManifest
  split
  · rename_i registration hexclusive
    dsimp only
    split_ifs with hpresent
    · have hregistering := hsafe.exclusive
      rw [hexclusive] at hregistering
      refine hsafe.goOn (by simp [hexclusive]) ⟨fun _ _ path directory hmanaged => ?_,
        hregistering.2⟩
      dsimp only at hmanaged
      rw [hmanaged] at hpresent
      obtain ⟨object, hfound, hdata⟩ := (Option.any_eq_true _ _).mp hpresent
      obtain ⟨hobject, rfl⟩ := KeyedTable.find?_eq_some_iff.mp hfound
      exact ⟨hsafe.data object hobject (of_decide_eq_true hdata), object, hobject,
        List.prefix_rfl⟩
    · exact hsafe.release
  · exact hsafe

/-- The snapshot of a registered artifact refers to its manifest only. -/
theorem snapshotSafe_of_manifest {store : Store} {snapshot : IndexSnapshot}
    {artifactUuid dimension nlist ntotal encoding manifestLocation : String}
    (htables : snapshot.indexTables = ivfTables (parquetArtifactTable manifestLocation)
      (parquetArtifactTable manifestLocation))
    (hparameters : snapshot.parameters = artifactParameters artifactUuid dimension nlist ntotal
      encoding)
    (habsolute : validateAbsoluteLocation site.crates manifestLocation = .ok ())
    (hstored : ∀ path directory,
      site.warehouse.managed manifestLocation = some (path, directory) →
        (∃ root, IsRoot root ∧ root <+: path) ∧ StoredBelow store path) :
    SnapshotSafe site store snapshot := by
  obtain ⟨parsed, hparsed, -⟩ := bind_eq_ok.mp habsolute
  have hlocation : tableLocation site.crates site.warehouse (parquetArtifactTable manifestLocation) =
      .ok manifestLocation := by
    unfold tableLocation
    rw [validateTableDefinition_parquetArtifactTable]
    simp only [bind, Except.bind, hparsed]
  constructor
  · intro table htable
    rw [htables, mem_values_ivfTables, or_self] at htable
    subst htable
    refine ⟨manifestLocation, hlocation, ?_⟩
    cases hmanaged : site.warehouse.managed manifestLocation with
    | none => exact Or.inl rfl
    | some found =>
        obtain ⟨path, directory⟩ := found
        obtain ⟨⟨root, hroot, hbelow⟩, hdata⟩ := hstored path directory hmanaged
        exact Or.inr ⟨path, directory, root, rfl, hroot, hbelow, hdata⟩
  · intro location hfound
    rw [centroidReference_artifact hparameters] at hfound
    cases hfound

include hsafe in
theorem Safe.writeRegistration (indexUuid : Uuid) (snapshotId nowMs modifiedMs : ℤ) :
    Safe site (writeRegistration site sessions indexUuid snapshotId nowMs modifiedMs) := by
  unfold Session.writeRegistration
  split
  · rename_i identifier source manifestLocation manifest hexclusive
    have hregistering := hsafe.exclusive
    rw [hexclusive] at hregistering
    dsimp only
    split
    · rename_i location written habsolute hvalid hlocate hput
      obtain ⟨hwritten, hdocument⟩ := hsafe.putDocument hput rfl (by simp) (by
        rintro found hfound
        cases hfound)
      have hmanifest : ∀ path directory,
          site.warehouse.managed manifestLocation = some (path, directory) →
            (∃ root, IsRoot root ∧ root <+: path) ∧ StoredBelow written.store path := by
        intro path directory hmanaged
        obtain ⟨hroot, hstored⟩ := hregistering.1 manifest rfl path directory hmanaged
        exact ⟨hroot, hstored.keep (hdocument.keeps.mono fun _ _ => trivial)⟩
      refine hwritten.goOn (by simp [hdocument.exclusive, hexclusive]) ⟨fun _ _ => hmanifest, ?_⟩
      intro found metadata hfound
      cases hfound
      refine ⟨⟨_, hdocument.stored, hlocate, rfl⟩, fun snapshot hsnapshot => ?_⟩
      obtain rfl := List.mem_singleton.mp hsnapshot
      exact snapshotSafe_of_manifest rfl rfl habsolute hmanifest
    · exact hsafe.release
  · exact hsafe

include hsafe in
theorem Safe.finishRegistration (clock : Clock) (fuse : Option ℕ) :
    Safe site (finishRegistration site sessions clock fuse) := by
  unfold Session.finishRegistration
  split
  · rename_i identifier source manifestLocation manifest location metadata hexclusive
    have hregistering := hsafe.exclusive
    rw [hexclusive] at hregistering
    obtain ⟨hstored, hsnapshots⟩ := hregistering.2 location metadata rfl
    have hregistered := hsafe.register (by simp [hexclusive]) identifier source clock fuse hstored
      hsnapshots
    exact hregistered.release
  · exact hsafe

include hsafe in
theorem Safe.abort : Safe site (abort sessions) := by
  unfold Session.abort
  split
  · exact hsafe.release
  · exact hsafe.release
  · exact hsafe

end

end ParqDB.Session
