import ParqDB.Builds.Invariant

/-!
# The steps of a build

`Safe` is kept by every await of a build up to its publication: writes only add objects
and documents, calls on centroid entries leave the mappings alone, and a build moves on to
a point whose own part of the invariant (`ProgressSafe`) holds.
-/

namespace ParqDB.Session

open Foundations Meta Storage Catalog Maintenance

variable {site : Site} {sessions after : Sessions} {build : Build}

/-! ## Writes -/

variable {location : String} {root : ObjectPath} {pinned : PinnedSnapshot} {progress : Progress}

theorem WrittenAt.grow {content : Content} (hwritten : WrittenAt site sessions location content)
    (hmore : ∀ document ∈ sessions.written, document ∈ after.written) :
    WrittenAt site after location content := by
  obtain ⟨document, hdocument, hlocate, hcontent⟩ := hwritten
  exact ⟨document, hmore document hdocument, hlocate, hcontent⟩

/-- A document written at a location is the only one. -/
theorem WrittenAt.unique {left right : Content} (hleft : WrittenAt site sessions location left)
    (hright : WrittenAt site sessions location right) : left = right := by
  obtain ⟨first, hfirst, hlocate, rfl⟩ := hleft
  obtain ⟨second, hsecond, hother, rfl⟩ := hright
  have hpath := (site.locate_injective hlocate hother).1
  rw [KeyedTable.eq_of_key_eq hfirst hsecond hpath]

theorem Relied.grow {metadata : IvfCentroidsMetadata}
    (hrelied : Relied site sessions build location metadata root)
    (hkeeps : Keeps sessions.store after.store fun _ => True)
    (hmore : ∀ document ∈ sessions.written, document ∈ after.written) :
    Relied site after build location metadata root := by
  refine ⟨hrelied.1, hrelied.2.1.grow hmore, fun hsource => ?_⟩
  exact (hrelied.2.2 hsource).keep (hkeeps.mono fun _ _ => trivial) (hkeeps.mono fun _ _ => trivial)

theorem ResolvedSafe.grow {centroids : ResolvedIvfCentroids}
    (hresolved : ResolvedSafe site sessions build centroids)
    (hkeeps : Keeps sessions.store after.store fun _ => True)
    (hmore : ∀ document ∈ sessions.written, document ∈ after.written) :
    ResolvedSafe site after build centroids := by
  obtain ⟨root, hrelied, hlocate⟩ := hresolved.relied
  exact ⟨⟨root, hrelied.grow hkeeps hmore, hlocate⟩, hresolved.reference⟩

theorem ProgressSafe.grow (hprogress : ProgressSafe site sessions build pinned progress)
    (hkeeps : Keeps sessions.store after.store fun _ => True)
    (hmore : ∀ document ∈ sessions.written, document ∈ after.written) :
    ProgressSafe site after build pinned progress := by
  have hbelow : ∀ path, StoredBelow sessions.store path → StoredBelow after.store path :=
    fun path hstored => hstored.keep (hkeeps.mono fun _ _ => trivial)
  cases progress with
  | unresolved => trivial
  | claimed claim => trivial
  | training claim artifactUuid => exact hprogress
  | centroidsWritten claim artifactUuid => exact ⟨hprogress.1, hbelow _ hprogress.2⟩
  | rootsWritten claim artifactUuid => exact ⟨hprogress.1, hbelow _ hprogress.2⟩
  | described claim artifactUuid location metadata => exact Relied.grow hprogress hkeeps hmore
  | failed claim => trivial
  | reusing => trivial
  | found entry => exact hprogress
  | loaded entry metadata =>
      refine ⟨hprogress.1, hprogress.2.1.grow hmore, fun hsource => ?_⟩
      exact (hprogress.2.2 hsource).keep (hkeeps.mono fun _ _ => trivial)
  | tableRead entry metadata =>
      obtain ⟨root, hrelied⟩ := hprogress
      exact ⟨root, hrelied.grow hkeeps hmore⟩
  | resolved centroids => exact ResolvedSafe.grow hprogress hkeeps hmore
  | built centroids => exact ⟨hprogress.1.grow hkeeps hmore, hbelow _ hprogress.2⟩

theorem BuildSafe.grow (hbuild : BuildSafe site sessions build)
    (hkeeps : Keeps sessions.store after.store fun _ => True)
    (hmore : ∀ document ∈ sessions.written, document ∈ after.written) :
    BuildSafe site after build where
  base := fun location metadata hbase => (hbuild.base location metadata hbase).grow hmore
  working := by
    intro pinned progress hstage
    obtain ⟨hroot, hleased, hprogress⟩ := hbuild.working pinned progress hstage
    exact ⟨hroot, hleased, hprogress.grow hkeeps hmore⟩

theorem ExclusiveSafe.grow {exclusive : Exclusive} (hsafe : ExclusiveSafe site sessions exclusive)
    (hkeeps : Keeps sessions.store after.store fun _ => True)
    (hmore : ∀ document ∈ sessions.written, document ∈ after.written)
    (hbuilds : after.builds = sessions.builds)
    (hindexes : after.tables.indexes = sessions.tables.indexes) :
    ExclusiveSafe site after exclusive := by
  cases exclusive with
  | free => trivial
  | publishing id document =>
      cases document with
      | none => trivial
      | some pair =>
          obtain ⟨hstored, hbuild⟩ := hsafe
          refine ⟨hstored.keep (hkeeps.mono fun _ _ => trivial), fun build hbuilt hid => ?_⟩
          obtain ⟨hstage, snapshot, hsnapshots, hsnapshot⟩ := hbuild build (hbuilds ▸ hbuilt) hid
          exact ⟨hstage, snapshot, hsnapshots, hsnapshot.grow hkeeps⟩
  | registering registration =>
      obtain ⟨hmanifest, hdocument⟩ := hsafe
      constructor
      · intro manifest hloaded path directory hmanaged
        obtain ⟨hroot, hstored⟩ := hmanifest manifest hloaded path directory hmanaged
        exact ⟨hroot, hstored.keep (hkeeps.mono fun _ _ => trivial)⟩
      · intro location metadata hwritten
        obtain ⟨hstored, hsnapshots⟩ := hdocument location metadata hwritten
        exact ⟨hstored.keep (hkeeps.mono fun _ _ => trivial),
          fun snapshot hsnapshot => (hsnapshots snapshot hsnapshot).grow hkeeps⟩
  | collecting program =>
      obtain ⟨written, activeRoots, hwritten, hrows, hroots, hmeets⟩ := hsafe
      unfold ExclusiveSafe
      rw [hbuilds, hindexes]
      exact ⟨written, activeRoots, fun document hdocument => hmore document (hwritten document
        hdocument), hrows, hroots, hmeets⟩

/-- What only adds objects, documents and usable entries keeps the sessions safe. -/
theorem Safe.grow (hsafe : Safe site sessions)
    (hkeeps : Keeps sessions.store after.store fun _ => True)
    (hmore : ∀ document ∈ sessions.written, document ∈ after.written)
    (hbuilds : after.builds = sessions.builds)
    (hexclusive : after.exclusive = sessions.exclusive)
    (hindexes : after.tables.indexes = sessions.tables.indexes)
    (hdata : ∀ object ∈ after.store, object.content = .data →
      ∃ root, IsRoot root ∧ root <+: object.path)
    (hfaithful : ∀ object ∈ after.store, object.content ≠ .data →
      ∃ document ∈ after.written, document.path = object.path ∧
        document.content = object.content)
    (hnames : ∀ document ∈ after.written, document.path.head? = some "metadata" ∧
      document.content ≠ .data)
    (hlayout : ∀ document ∈ after.written, ∀ metadata, document.content = .centroids metadata →
      ∃ root, CentroidLayout site metadata root)
    (hentries : ∀ row ∈ after.tables.ivfCentroidArtifacts, ∀ location,
      row.metadataLocation = some location →
        ∃ path, site.warehouse.locate path false = some location) : Safe site after where
  data := hdata
  faithful := hfaithful
  names := hnames
  layout := hlayout
  entries := hentries
  mapped := by
    intro row hrow
    rw [hindexes] at hrow
    obtain ⟨metadata, hstored, hsnapshots⟩ := hsafe.mapped row hrow
    exact ⟨metadata, hstored.keep (hkeeps.mono fun _ _ => trivial),
      fun snapshot hsnapshot => (hsnapshots snapshot hsnapshot).grow hkeeps⟩
  builds := fun build hbuild => (hsafe.builds build (hbuilds ▸ hbuild)).grow hkeeps hmore
  exclusion := by
    rw [hexclusive, hbuilds]
    exact hsafe.exclusion
  exclusive := by
    rw [hexclusive]
    exact hsafe.exclusive.grow hkeeps hmore hbuilds hindexes

variable {condition : ObjectPath → Prop} {store : Store} {path : ObjectPath}

theorem keeps_rfl :
    Keeps store store condition := fun object hobject _ => ⟨object, hobject, rfl, rfl⟩

theorem keeps_insert {store' : Store} {object : Object}
    (hinsert : store.insert? object = some store') : Keeps store store' condition :=
  fun other hother _ => ⟨other, ((KeyedTable.insert?_eq_some hinsert).2 other).mpr (Or.inr hother),
    rfl, rfl⟩

/-- Catalog calls that leave the mappings alone. -/
theorem Safe.withTables {tables : Tables} (hsafe : Safe site sessions)
    (hindexes : tables.indexes = sessions.tables.indexes)
    (hentries : ∀ row ∈ tables.ivfCentroidArtifacts, ∀ location,
      row.metadataLocation = some location →
        ∃ path, site.warehouse.locate path false = some location) :
    Safe site { sessions with tables := tables } :=
  hsafe.grow keeps_rfl (fun _ hdocument => hdocument) rfl rfl hindexes hsafe.data hsafe.faithful
    hsafe.names hsafe.layout hentries

/-- The object of a table does not replace a document. -/
theorem Safe.keeps_put (hsafe : Safe site sessions) {modifiedMs : ℤ} (hroot : IsRoot root)
    (hbelow : root <+: path) :
    Keeps sessions.store (sessions.put path modifiedMs).store fun _ => True := by
  intro object hobject _
  by_cases hpath : object.path = path
  · refine ⟨⟨path, modifiedMs, .data⟩, KeyedTable.mem_upsert.mpr (Or.inl rfl), hpath.symm, ?_⟩
    by_contra hdocument
    obtain ⟨document, hwritten, hsame, -⟩ := hsafe.faithful object hobject (Ne.symm hdocument)
    have hhead := (hsafe.names document hwritten).1
    rw [hsame, hpath, hroot.head_of_prefix hbelow] at hhead
    simp at hhead
  · exact ⟨object, KeyedTable.mem_upsert.mpr (Or.inr ⟨hobject, hpath⟩), rfl, rfl⟩

theorem Safe.put (hsafe : Safe site sessions) (modifiedMs : ℤ) (hroot : IsRoot root)
    (hbelow : root <+: path) : Safe site (sessions.put path modifiedMs) := by
  refine hsafe.grow (hsafe.keeps_put hroot hbelow) (fun _ hdocument => hdocument) rfl rfl rfl ?_ ?_
    hsafe.names hsafe.layout hsafe.entries
  · intro object hobject hcontent
    rcases KeyedTable.mem_upsert.mp hobject with rfl | ⟨hold, -⟩
    · exact ⟨root, hroot, hbelow⟩
    · exact hsafe.data object hold hcontent
  · intro object hobject hcontent
    rcases KeyedTable.mem_upsert.mp hobject with rfl | ⟨hold, -⟩
    · exact absurd rfl hcontent
    · exact hsafe.faithful object hold hcontent

/-- What writing a new document leaves. -/
structure DocumentPut (sessions after : Sessions) (document : Object) : Prop where
  tables : after.tables = sessions.tables
  builds : after.builds = sessions.builds
  exclusive : after.exclusive = sessions.exclusive
  keeps : Keeps sessions.store after.store fun _ => True
  more : ∀ other ∈ sessions.written, other ∈ after.written
  stored : document ∈ after.store
  written : document ∈ after.written

theorem Safe.putDocument (hsafe : Safe site sessions) {document : Object}
    (hput : sessions.putDocument document = some after)
    (hhead : document.path.head? = some "metadata") (hcontent : document.content ≠ .data)
    (hlayout : ∀ metadata, document.content = .centroids metadata →
      ∃ root, CentroidLayout site metadata root) :
    Safe site after ∧ DocumentPut sessions after document := by
  unfold Sessions.putDocument at hput
  split at hput
  · rename_i store written hstore hwritten
    cases hput
    have hobjects := (KeyedTable.insert?_eq_some hstore).2
    have hdocuments := (KeyedTable.insert?_eq_some hwritten).2
    have hput : DocumentPut sessions { sessions with store := store, written := written } document :=
      ⟨rfl, rfl, rfl, keeps_insert hstore, fun other hother => (hdocuments other).mpr (Or.inr hother),
        (hobjects document).mpr (Or.inl rfl), (hdocuments document).mpr (Or.inl rfl)⟩
    refine ⟨hsafe.grow hput.keeps hput.more rfl rfl rfl ?_ ?_ ?_ ?_ hsafe.entries, hput⟩
    · intro object hobject hdata
      rcases (hobjects object).mp hobject with rfl | hold
      · exact absurd hdata hcontent
      · exact hsafe.data object hold hdata
    · intro object hobject hother
      rcases (hobjects object).mp hobject with rfl | hold
      · exact ⟨object, hput.written, rfl, rfl⟩
      · obtain ⟨other, hfound, hpath, hsame⟩ := hsafe.faithful object hold hother
        exact ⟨other, hput.more other hfound, hpath, hsame⟩
    · intro other hother
      rcases (hdocuments other).mp hother with rfl | hold
      · exact ⟨hhead, hcontent⟩
      · exact hsafe.names other hold
    · intro other hother metadata hmetadata
      rcases (hdocuments other).mp hother with rfl | hold
      · exact hlayout metadata hmetadata
      · exact hsafe.layout other hold metadata hmetadata
  · cases hput

/-! ## Builds move on and end -/

section

variable (hsafe : Safe site sessions)

include hsafe

theorem Safe.builds_withBuild (hbuild : BuildSafe site sessions build) :
    ∀ other ∈ (sessions.withBuild build).builds,
      BuildSafe site (sessions.withBuild build) other := by
  intro other hother
  rcases KeyedTable.mem_upsert.mp hother with rfl | ⟨hold, -⟩
  · exact hbuild.grow keeps_rfl fun _ hdocument => hdocument
  · exact (hsafe.builds other hold).grow keeps_rfl fun _ hdocument => hdocument

theorem Safe.withBuild_free (hfree : sessions.exclusive = .free)
    (hbuild : BuildSafe site sessions build) : Safe site (sessions.withBuild build) where
  data := hsafe.data
  faithful := hsafe.faithful
  names := hsafe.names
  layout := hsafe.layout
  entries := hsafe.entries
  mapped := hsafe.mapped
  builds := hsafe.builds_withBuild hbuild
  exclusion := fun hheld => absurd hfree hheld
  exclusive := by
    rw [show (sessions.withBuild build).exclusive = .free from hfree]
    trivial

/-- A build that holds no lock and adds no lease may move on at any time. -/
theorem Safe.withBuild {old : Build} (hold : old ∈ sessions.builds)
    (hid : build.id = old.id) (hlease : ∀ root ∈ build.leaseRoots, root ∈ old.leaseRoots)
    (hbuilt : ∀ pinned centroids, old.stage ≠ .working pinned (.built centroids))
    (hworking : build.stage ≠ .setup) (hbuild : BuildSafe site sessions build) :
    Safe site (sessions.withBuild build) where
  data := hsafe.data
  faithful := hsafe.faithful
  names := hsafe.names
  layout := hsafe.layout
  entries := hsafe.entries
  mapped := hsafe.mapped
  builds := hsafe.builds_withBuild hbuild
  exclusion := by
    intro hheld other hother
    rcases KeyedTable.mem_upsert.mp hother with rfl | ⟨hold, -⟩
    · exact hworking
    · exact hsafe.exclusion hheld other hold
  exclusive := by
    have hexclusive := hsafe.exclusive
    change ExclusiveSafe site (sessions.withBuild build) sessions.exclusive
    cases hholder : sessions.exclusive with
    | free => trivial
    | publishing id document =>
        rw [hholder] at hexclusive
        cases document with
        | none => trivial
        | some pair =>
            refine ⟨hexclusive.1, fun other hother hsame => ?_⟩
            rcases KeyedTable.mem_upsert.mp hother with rfl | ⟨hkept, -⟩
            · -- the publishing build is finished, this one is not
              obtain ⟨⟨pinned, centroids, hstage⟩, -⟩ :=
                hexclusive.2 old hold (hid.symm.trans hsame)
              exact absurd hstage (hbuilt pinned centroids)
            · exact hexclusive.2 other hkept hsame
    | registering registration =>
        rw [hholder] at hexclusive
        exact hexclusive
    | collecting program =>
        rw [hholder] at hexclusive
        obtain ⟨written, activeRoots, hwritten, hrows, hroots, hmeets⟩ := hexclusive
        refine ⟨written, activeRoots, hwritten, hrows, fun other hother root hroot => ?_, hmeets⟩
        rcases KeyedTable.mem_upsert.mp hother with rfl | ⟨hkept, -⟩
        · exact hroots old hold root (hlease root hroot)
        · exact hroots other hkept root hroot

theorem Safe.stop (build : Build) :
    Safe site (sessions.stop build) where
  data := hsafe.data
  faithful := hsafe.faithful
  names := hsafe.names
  layout := hsafe.layout
  entries := hsafe.entries
  mapped := hsafe.mapped
  builds := fun other hother =>
    (hsafe.builds other (KeyedTable.mem_delete.mp hother).1).grow keeps_rfl
      fun _ hdocument => hdocument
  exclusion := by
    intro hheld other hother
    refine hsafe.exclusion (fun hfree => hheld ?_) other (KeyedTable.mem_delete.mp hother).1
    simp [Sessions.stop, hfree]
  exclusive := by
    have hexclusive := hsafe.exclusive
    unfold Sessions.stop
    cases hholder : sessions.exclusive with
    | free => trivial
    | publishing id document =>
        rw [hholder] at hexclusive
        dsimp only
        split
        · trivial
        · cases document with
          | none => trivial
          | some pair =>
              exact ⟨hexclusive.1, fun other hother hsame =>
                hexclusive.2 other (KeyedTable.mem_delete.mp hother).1 hsame⟩
    | registering registration =>
        rw [hholder] at hexclusive
        exact hexclusive
    | collecting program =>
        rw [hholder] at hexclusive
        obtain ⟨written, activeRoots, hwritten, hrows, hroots, hmeets⟩ := hexclusive
        exact ⟨written, activeRoots, hwritten, hrows, fun other hother =>
          hroots other (KeyedTable.mem_delete.mp hother).1, hmeets⟩

end

variable {old : Progress}

theorem BuildSafe.moveTo (hbuild : BuildSafe site sessions build)
    (hstage : build.stage = .working pinned old)
    (hprogress : ProgressSafe site sessions build pinned progress) :
    BuildSafe site sessions (build.moveTo pinned progress) where
  base := hbuild.base
  working := by
    intro other next hnext
    obtain ⟨rfl, rfl⟩ := Stage.working.inj hnext
    obtain ⟨hroot, hleased, -⟩ := hbuild.working pinned old hstage
    refine ⟨hroot, hleased, ?_⟩
    cases progress with
    | resolved centroids => exact ⟨hprogress.relied, hprogress.reference⟩
    | built centroids => exact ⟨⟨hprogress.1.relied, hprogress.1.reference⟩, hprogress.2⟩
    | _ => exact hprogress

/-- A build moves on to a point where it is safe. -/
theorem Safe.moveTo (hsafe : Safe site sessions) (hmember : build ∈ sessions.builds)
    (hstage : build.stage = .working pinned old) (hbuilt : ∀ centroids, old ≠ .built centroids)
    (hprogress : ProgressSafe site sessions build pinned progress) :
    Safe site (sessions.withBuild (build.moveTo pinned progress)) := by
  refine hsafe.withBuild hmember rfl (fun root hroot => hroot) ?_ ?_
    ((hsafe.builds build hmember).moveTo hstage hprogress)
  · intro other centroids hsame
    obtain ⟨-, hfinished⟩ := Stage.working.inj (hstage.symm.trans hsame)
    exact hbuilt centroids hfinished
  · intro hsetup
    cases hsetup

/-! ## Calls on centroid entries -/

/-- The calls a build makes about centroids; a location that becomes ready is canonical. -/
def CentroidCall (site : Site) : CatalogCall → Prop
  | .claimIvfCentroids .. | .renewIvfCentroidsClaim .. | .abandonIvfCentroids .. => True
  | .publishIvfCentroids _ location _ =>
      ∃ path, site.warehouse.locate path false = some location
  | _ => False

/-- The entries after a change of one of them. -/
theorem mem_of_find?_eq {key : String × String} {changed row : CentroidRow}
    {entries rest : KeyedTable CentroidRow.key}
    (hentries : ∀ other, entries.find? other = if other = key then some changed else rest.find? other)
    (hrow : row ∈ entries) : row = changed ∨ row ∈ rest := by
  have hfind := KeyedTable.find?_key hrow
  rw [hentries row.key] at hfind
  split at hfind
  · exact Or.inl (Option.some.inj hfind).symm
  · exact Or.inr (KeyedTable.find?_eq_some_iff.mp hfind).1

theorem CentroidCall.tables {call : CatalogCall} {clock : Clock} {fuse : Option ℕ} {tables : Tables}
    (hcall : CentroidCall site call)
    (hentries : ∀ row ∈ tables.ivfCentroidArtifacts, ∀ location,
      row.metadataLocation = some location →
        ∃ path, site.warehouse.locate path false = some location) :
    (Catalog.next site.crates tables ⟨call, clock, fuse⟩).indexes = tables.indexes ∧
      ∀ row ∈ (Catalog.next site.crates tables ⟨call, clock, fuse⟩).ivfCentroidArtifacts,
        ∀ location, row.metadataLocation = some location →
          ∃ path, site.warehouse.locate path false = some location := by
  unfold Catalog.next
  rcases hperform : perform site.crates ⟨call, clock, fuse⟩ tables with ⟨outcome, after⟩
  cases outcome with
  | error error =>
      obtain rfl : after = tables := perform_error hperform
      exact ⟨rfl, hentries⟩
  | ok response =>
      have hdid := perform_ok hperform
      cases call with
      | claimIvfCentroids source descriptor owner leaseDurationMs =>
          obtain ⟨result, -, fingerprint, now, -, -, -, houtcome⟩ := hdid
          cases houtcome with
          | ready row artifactUuid metadataLocation hrow hstate huuid hlocation hsame =>
              subst hsame
              exact ⟨rfl, hentries⟩
          | busy row expires hrow hlease hsame =>
              subst hsame
              exact ⟨rfl, hentries⟩
          | claimed hfree hchange =>
              refine ⟨hchange.indexes, fun row hrow location hlocation => ?_⟩
              rcases mem_of_find?_eq hchange.entry hrow with rfl | hold
              · cases hlocation
              · exact hentries row hold location hlocation
      | renewIvfCentroidsClaim claim leaseDurationMs =>
          obtain ⟨old, now, -, hold, -, -, hchange⟩ := hdid
          refine ⟨hchange.indexes, fun row hrow location hlocation => ?_⟩
          rcases mem_of_find?_eq hchange.entry hrow with rfl | hkept
          · exact hentries old (KeyedTable.find?_eq_some_iff.mp hold).1 location hlocation
          · exact hentries row hkept location hlocation
      | publishIvfCentroids claim metadataLocation metadata =>
          obtain ⟨old, now, -, -, -, -, hindexes, -, hchange⟩ := hdid
          refine ⟨hindexes, fun row hrow location hlocation => ?_⟩
          rcases mem_of_find?_eq hchange hrow with rfl | hkept
          · obtain rfl : metadataLocation = location := Option.some.inj hlocation
            exact hcall
          · exact hentries row hkept location hlocation
      | abandonIvfCentroids claim message =>
          obtain ⟨old, hold, -, hchange⟩ := hdid
          refine ⟨hchange.indexes, fun row hrow location hlocation => ?_⟩
          rcases mem_of_find?_eq hchange.entry hrow with rfl | hkept
          · exact hentries old (KeyedTable.find?_eq_some_iff.mp hold).1 location hlocation
          · exact hentries row hkept location hlocation
      | _ => exact hcall.elim

theorem Safe.centroidCall (hsafe : Safe site sessions) (call : CatalogCall) (clock : Clock)
    (fuse : Option ℕ) (hcall : CentroidCall site call) :
    Safe site { sessions with tables := Catalog.next site.crates sessions.tables ⟨call, clock, fuse⟩ } :=
  have htables := CentroidCall.tables hcall hsafe.entries
  hsafe.withTables htables.1 htables.2

/-! ## The steps of a build -/

section

variable (hsafe : Safe site sessions) (hmember : build ∈ sessions.builds)

include hsafe in
theorem Safe.reserveBuild : Safe site (reserveBuild sessions build) := by
  unfold Session.reserveBuild
  split
  · rename_i hreserve
    have hfree : sessions.exclusive = .free := by
      simp only [Bool.and_eq_true, Sessions.allowsShared] at hreserve
      cases hholder : sessions.exclusive with
      | free => rfl
      | _ => simp [hholder] at hreserve
    refine hsafe.withBuild_free hfree ⟨?_, ?_⟩
    · intro location metadata hbase
      cases hbase
    · intro pinned progress hstage
      cases hstage
  · exact hsafe

variable {cached : Bool}

/-- A loaded document is one that was written. -/
theorem Safe.writtenAt_of_document (hsafe : Safe site sessions) {content : Content}
    (hlocate : site.warehouse.locate path false = some location)
    (hdocument : sessions.document site.warehouse location cached = some content)
    (hcontent : content ≠ .data) : WrittenAt site sessions location content := by
  unfold Sessions.document at hdocument
  rw [site.managed_locate hlocate] at hdocument
  dsimp only at hdocument
  obtain ⟨object, hfound, rfl⟩ := Option.map_eq_some_iff.mp hdocument
  cases cached with
  | true =>
      obtain ⟨hobject, rfl⟩ := KeyedTable.find?_eq_some_iff.mp hfound
      exact ⟨object, hobject, hlocate, rfl⟩
  | false =>
      obtain ⟨hobject, rfl⟩ := KeyedTable.find?_eq_some_iff.mp hfound
      obtain ⟨document, hwritten, hpath, hsame⟩ := hsafe.faithful object hobject hcontent
      exact ⟨document, hwritten, hpath ▸ hlocate, hsame⟩

/-- A build in its setup has the shared lock, so nobody has it exclusively. -/
theorem Safe.free_of_setup (hsafe : Safe site sessions) (hmember : build ∈ sessions.builds)
    (hstage : build.stage = .setup) : sessions.exclusive = .free := by
  by_contra hheld
  exact hsafe.exclusion hheld build hmember hstage

include hsafe hmember in
theorem Safe.loadBase (cached : Bool) : Safe site (loadBase site sessions build cached) := by
  unfold Session.loadBase
  split
  · rename_i hstage hrefresh hbase
    split
    · exact hsafe.stop build
    · rename_i row hmapping
      split
      · rename_i metadata hdocument
        split
        · exact hsafe.stop build
        · rename_i current hcurrent
          split
          · exact hsafe.stop build
          · -- the mapped document was written under its location
            have hrow := (KeyedTable.find?_eq_some_iff.mp hmapping).1
            obtain ⟨_, ⟨object, -, hlocate, -⟩, -⟩ := hsafe.mapped row hrow
            have hwritten := hsafe.writtenAt_of_document hlocate hdocument (by simp)
            refine hsafe.withBuild_free (hsafe.free_of_setup hmember hstage) ⟨?_, ?_⟩
            · intro location other hother
              obtain ⟨rfl, rfl⟩ : row.metadataLocation = location ∧ metadata = other := by
                simpa using hother
              exact hwritten
            · intro pinned progress hworking
              rw [show build.stage = .working pinned progress from hworking] at hstage
              cases hstage
      · exact hsafe.stop build
  · exact hsafe

theorem isRoot_snapshotRootPath (indexUuid : Uuid) (snapshotId : ℤ) :
    IsRoot (snapshotRootPath indexUuid snapshotId) := ⟨rfl, rfl⟩

theorem isRoot_centroidRootPath (artifactUuid : Uuid) : IsRoot (centroidRootPath artifactUuid) :=
  ⟨rfl, rfl⟩

include hsafe hmember in
theorem Safe.setSnapshotRoot (newUuid : Uuid) (snapshotId : ℤ) :
    Safe site (setSnapshotRoot site sessions build newUuid snapshotId) := by
  unfold Session.setSnapshotRoot
  split
  · rename_i hstage
    split
    · exact hsafe.stop build
    · rename_i indexUuid hindex
      dsimp only
      split
      · exact hsafe.stop build
      · rename_i location hlocate
        refine hsafe.withBuild_free (hsafe.free_of_setup hmember hstage)
          ⟨(hsafe.builds build hmember).base, ?_⟩
        intro pinned progress hworking
        obtain ⟨rfl, rfl⟩ := Stage.working.inj hworking
        exact ⟨isRoot_snapshotRootPath _ _, ⟨location, by simp, hlocate⟩, trivial⟩
  · exact hsafe

include hsafe hmember in
theorem Safe.resolveIvfCentroids (clock : Clock) (fuse : Option ℕ) :
    Safe site (resolveIvfCentroids site sessions build clock fuse) := by
  unfold Session.resolveIvfCentroids
  split
  · rename_i pinned hstage
    have hcalled := hsafe.centroidCall
      (.claimIvfCentroids build.source build.descriptor build.owner ivfCentroidsLeaseMs) clock fuse
      trivial
    dsimp only
    split
    · exact hcalled.moveTo hmember hstage (by simp) trivial
    · exact hcalled.moveTo hmember hstage (by simp) trivial
    · exact hcalled
    · exact hcalled.stop build
  · exact hsafe

include hsafe hmember in
theorem Safe.loadEntry : Safe site (loadEntry site sessions build) := by
  unfold Session.loadEntry
  split
  · rename_i pinned hstage
    split
    · exact hsafe.stop build
    · split
      · exact hsafe.stop build
      · rename_i row hrow
        split
        · rename_i entry hready hentry
          refine hsafe.moveTo hmember hstage (by simp) ?_
          unfold readyEntry at hentry
          split at hentry
          · rename_i artifactUuid location huuid hlocation
            cases hentry
            exact hsafe.entries row (KeyedTable.find?_eq_some_iff.mp hrow).1 location hlocation
          · cases hentry
        · exact hsafe.stop build
  · exact hsafe

include hsafe hmember in
theorem Safe.loadCentroids (hfresh : cached = true → build.config.postingEncoding = .source →
      ∀ pinned entry, build.stage = .working pinned (.found entry) →
      ∀ path directory, site.warehouse.managed entry.metadataLocation = some (path, directory) →
        (sessions.store.find? path).isSome) :
    Safe site (loadCentroids site sessions build cached) := by
  unfold Session.loadCentroids
  split
  · rename_i pinned entry hstage
    split
    · rename_i metadata hdocument
      split
      · refine hsafe.moveTo hmember hstage (by simp) ?_
        obtain ⟨-, -, path, hlocate⟩ := (hsafe.builds build hmember).working pinned _ hstage
        have hwritten := hsafe.writtenAt_of_document hlocate hdocument (by simp)
        obtain ⟨document, hmem, hlocated, hcontent⟩ := hwritten
        refine ⟨hsafe.layout document hmem metadata hcontent,
          ⟨document, hmem, hlocated, hcontent⟩, fun hsource => ?_⟩
        have hmanaged := site.managed_locate hlocate
        -- the object at the location has the content of the document
        have hpresent : ∃ object, sessions.store.find? path = some object := by
          cases cached with
          | true => exact Option.isSome_iff_exists.mp (hfresh rfl hsource pinned entry hstage _ _ hmanaged)
          | false =>
              simp only [Sessions.document, hmanaged] at hdocument
              obtain ⟨object, hfound, -⟩ := Option.map_eq_some_iff.mp hdocument
              exact ⟨object, hfound⟩
        obtain ⟨object, hfound⟩ := hpresent
        obtain ⟨hobject, rfl⟩ := KeyedTable.find?_eq_some_iff.mp hfound
        refine ⟨object, hobject, hlocate, ?_⟩
        have hpath := (site.locate_injective hlocated hlocate).1
        have hdata : object.content ≠ .data := by
          intro hdata
          obtain ⟨root, hroot, hbelow⟩ := hsafe.data object hobject hdata
          have hhead := (hsafe.names document hmem).1
          rw [hpath, hroot.head_of_prefix hbelow] at hhead
          simp at hhead
        obtain ⟨other, hother, hotherPath, hsame⟩ := hsafe.faithful object hobject hdata
        obtain rfl := KeyedTable.eq_of_key_eq hother hmem (hotherPath.trans hpath.symm)
        exact hsame.symm.trans hcontent
      · exact hsafe.stop build
    · exact hsafe.stop build
  · exact hsafe

theorem storedBelow_of_hasTable {relative : String}
    (htable : hasTable site sessions relative = true) :
    StoredBelow sessions.store (segments relative) := by
  unfold hasTable at htable
  split at htable
  · cases htable
  · obtain ⟨object, hobject, hbelow⟩ := List.any_eq_true.mp htable
    rw [Bool.and_eq_true] at hbelow
    exact ⟨object, hobject, List.isPrefixOf_iff_prefix.mp hbelow.1⟩

include hsafe hmember in
theorem Safe.readCentroids : Safe site (readCentroids site sessions build) := by
  unfold Session.readCentroids
  split
  · rename_i pinned entry metadata hstage
    split
    · rename_i htable
      refine hsafe.moveTo hmember hstage (by simp) ?_
      obtain ⟨-, -, ⟨root, hlayout⟩, hwritten, hstored⟩ :=
        (hsafe.builds build hmember).working pinned _ hstage
      refine ⟨root, hlayout, hwritten, fun hsource => ⟨hstored hsource, hlayout, ?_⟩⟩
      obtain ⟨location, hlocate⟩ := hlayout.located
      have hbelow := storedBelow_of_hasTable htable
      rwa [hlayout.centroids, segments_relativeText (Warehouse.validPath_of_locate hlocate)]
        at hbelow
    · exact hsafe.stop build
  · exact hsafe

variable {centroids : ResolvedIvfCentroids} {centroidsLocation : String}
  {entry : IvfCentroidsCatalogEntry} {metadata : IvfCentroidsMetadata}

/-- The parts of resolved centroids. -/
theorem resolvedCentroids_eq_some
    (hlocate : site.warehouse.locate path false = some entry.metadataLocation)
    (hresolved : resolvedCentroids site entry metadata centroidsLocation = some centroids) :
    centroids.metadataLocation = entry.metadataLocation ∧ centroids.metadata = metadata ∧
      centroids.centroidsLocation = centroidsLocation ∧
      centroids.reference.metadataLocation = relativeText path false := by
  unfold resolvedCentroids at hresolved
  rw [(site.readsBack path).relativeLocation hlocate] at hresolved
  dsimp only at hresolved
  split at hresolved
  · cases hresolved
  · rename_i reference hreference
    cases hresolved
    obtain ⟨_, -, hnew⟩ := bind_eq_ok.mp hreference
    cases hnew
    exact ⟨rfl, rfl, rfl, rfl⟩

/-- Centroids resolved from an artifact the build relies on. -/
theorem Relied.resolved (hrelied : Relied site sessions build entry.metadataLocation metadata root)
    (hcentroids : site.warehouse.locate (root ++ ["ivf_centroids"]) true = some centroidsLocation)
    (hresolved : resolvedCentroids site entry metadata centroidsLocation = some centroids) :
    ResolvedSafe site sessions build centroids := by
  obtain ⟨document, -, hlocate, -⟩ := hrelied.2.1
  obtain ⟨hlocation, hmetadata, hcentroidsLocation, hreference⟩ :=
    resolvedCentroids_eq_some hlocate hresolved
  refine ⟨⟨root, ?_, ?_⟩, document.path, ?_, hreference⟩
  · rw [hlocation, hmetadata]
    exact hrelied
  · rw [hcentroidsLocation]
    exact hcentroids
  · rw [hlocation]
    exact hlocate

include hsafe hmember in
theorem Safe.readRoots : Safe site (readRoots site sessions build) := by
  unfold Session.readRoots
  split
  · rename_i pinned entry metadata hstage
    split
    · split
      · exact hsafe.stop build
      · rename_i centroidsLocation hlocation
        split
        · exact hsafe.stop build
        · rename_i centroids hresolved
          refine hsafe.moveTo hmember hstage (by simp) ?_
          obtain ⟨-, -, root, hrelied⟩ := (hsafe.builds build hmember).working pinned _ hstage
          refine hrelied.resolved ?_ hresolved
          -- the resolved location of the document's table is that of its layout
          obtain ⟨location, hlocate⟩ := hrelied.1.located
          unfold Warehouse.resolveWarehouseLocation at hlocation
          rw [hrelied.1.centroids] at hlocation
          split at hlocation
          · cases hlocation
          · rw [hlocate]
            exact (Warehouse.location_relativeText hlocate).symm.trans hlocation
    · exact hsafe.stop build
  · exact hsafe

theorem Leased.mono {more : Build} (hleased : Leased site build root)
    (hmore : ∀ location ∈ build.leaseRoots, location ∈ more.leaseRoots) :
    Leased site more root := by
  obtain ⟨location, hlocation, hlocate⟩ := hleased
  exact ⟨location, hmore location hlocation, hlocate⟩

theorem exclusive_of_allowsShared (hshared : sessions.allowsShared = true) :
    sessions.exclusive = .free := by
  unfold Sessions.allowsShared at hshared
  split at hshared
  · assumption
  · cases hshared

include hsafe hmember in
theorem Safe.addSnapshotRoot (artifactUuid : Uuid) :
    Safe site (addSnapshotRoot site sessions build artifactUuid) := by
  unfold Session.addSnapshotRoot
  split
  · rename_i pinned claim hstage
    split
    · rename_i hshared
      split
      · exact hsafe.moveTo hmember hstage (by simp) trivial
      · rename_i location hlocate
        have hbuild := hsafe.builds build hmember
        obtain ⟨hroot, hleased, -⟩ := hbuild.working pinned _ hstage
        refine hsafe.withBuild_free (exclusive_of_allowsShared hshared) ⟨hbuild.base, ?_⟩
        intro other progress hworking
        obtain ⟨rfl, rfl⟩ := Stage.working.inj hworking
        refine ⟨hroot, hleased.mono fun root hroot => ?_, location, ?_, hlocate⟩
        · dsimp only
          split
          · exact hroot
          · exact List.mem_append_left _ hroot
        · dsimp only
          split
          · rename_i hcontains
            exact List.contains_iff_mem.mp hcontains
          · exact List.mem_append_right _ List.mem_cons_self
    · exact hsafe
  · exact hsafe

theorem centroidRootPath_below (artifactUuid : Uuid) (table : String) (rest : List String) :
    centroidRootPath artifactUuid <+: centroidRootPath artifactUuid ++ [table] ++ rest :=
  (List.prefix_append _ _).trans (List.prefix_append _ _)

include hsafe hmember in
theorem Safe.writeCentroids (file : String) (modifiedMs : ℤ) :
    Safe site (writeCentroids sessions build file modifiedMs) := by
  unfold Session.writeCentroids
  split
  · rename_i pinned claim artifactUuid hstage
    have hput : Safe site (sessions.put (centroidsPath artifactUuid ++ [file]) modifiedMs) :=
      hsafe.put modifiedMs (isRoot_centroidRootPath artifactUuid) (centroidRootPath_below _ _ _)
    refine hput.moveTo hmember hstage (by simp) ⟨?_, ?_⟩
    · exact ((hsafe.builds build hmember).working pinned _ hstage).2.2
    · exact ⟨_, KeyedTable.mem_upsert.mpr (Or.inl rfl), List.prefix_append _ _⟩
  · exact hsafe

include hsafe hmember in
theorem Safe.writeRoots (file : String) (modifiedMs : ℤ) :
    Safe site (writeRoots sessions build file modifiedMs) := by
  unfold Session.writeRoots
  split
  · rename_i pinned claim artifactUuid hstage
    have hput : Safe site (sessions.put (rootsPath artifactUuid ++ [file]) modifiedMs) :=
      hsafe.put modifiedMs (isRoot_centroidRootPath artifactUuid) (centroidRootPath_below _ _ _)
    refine hput.moveTo hmember hstage (by simp) ?_
    exact ((hput.builds build hmember).working pinned _ hstage).2.2
  · exact hsafe

include hsafe hmember in
theorem Safe.writeIvfCentroids (createdAtMs modifiedMs : ℤ) :
    Safe site (writeIvfCentroids site sessions build createdAtMs modifiedMs) := by
  unfold Session.writeIvfCentroids
  split
  · rename_i pinned claim artifactUuid hstage
    dsimp only
    split
    · rename_i centroidsLocation location written hvalid hcentroids hlocate hput
      obtain ⟨-, -, hleased, hdata⟩ := (hsafe.builds build hmember).working pinned _ hstage
      have hlayout : CentroidLayout site (centroidsMetadata build claim artifactUuid createdAtMs)
          (centroidRootPath artifactUuid) :=
        ⟨isRoot_centroidRootPath artifactUuid, rfl, centroidsLocation, hcentroids⟩
      obtain ⟨hwritten, hdocument⟩ := hsafe.putDocument hput rfl (by simp) (by
        rintro metadata hmetadata
        cases hmetadata
        exact ⟨_, hlayout⟩)
      refine hwritten.moveTo (hdocument.builds ▸ hmember) hstage (by simp) ⟨hlayout, ?_, fun _ => ?_⟩
      · exact ⟨_, hdocument.written, hlocate, rfl⟩
      · exact ⟨⟨_, hdocument.stored, hlocate, rfl⟩, hlayout,
          hdata.keep (hdocument.keeps.mono fun _ _ => trivial)⟩
    · exact hsafe.moveTo hmember hstage (by simp) trivial
  · exact hsafe

include hsafe hmember in
theorem Safe.publishCentroids (clock : Clock) (fuse : Option ℕ) :
    Safe site (publishCentroids site sessions build clock fuse) := by
  unfold Session.publishCentroids
  split
  · rename_i pinned claim artifactUuid location metadata hstage
    obtain ⟨-, -, hrelied⟩ := (hsafe.builds build hmember).working pinned _ hstage
    have hcanonical : ∃ path, site.warehouse.locate path false = some location := by
      obtain ⟨document, -, hlocate, -⟩ := hrelied.2.1
      exact ⟨document.path, hlocate⟩
    have hcalled := hsafe.centroidCall (.publishIvfCentroids claim location metadata) clock fuse
      hcanonical
    dsimp only
    split
    · rename_i entry centroidsLocation hresponse hcentroids
      split
      · rename_i centroids hresolved
        refine hcalled.moveTo hmember hstage (by simp) ?_
        have hentry := entry_of_published (Prod.ext hresponse rfl)
        subst hentry
        have hnow : Relied site _ build location metadata (centroidRootPath artifactUuid) :=
          Relied.grow hrelied keeps_rfl fun _ hdocument => hdocument
        exact hnow.resolved hcentroids hresolved
      · exact hcalled.moveTo hmember hstage (by simp) trivial
    · exact hcalled.moveTo hmember hstage (by simp) trivial
  · exact hsafe

include hsafe in
theorem Safe.renewClaim (clock : Clock) (fuse : Option ℕ) :
    Safe site (renewClaim site sessions build clock fuse) := by
  unfold Session.renewClaim
  split
  · split
    · exact hsafe.centroidCall _ clock fuse trivial
    · exact hsafe
  · exact hsafe

include hsafe hmember in
theorem Safe.failTraining : Safe site (failTraining sessions build) := by
  unfold Session.failTraining
  split
  · rename_i pinned progress hstage
    split
    · rename_i claim hclaim
      refine hsafe.moveTo hmember hstage (fun centroids hbuilt => ?_) trivial
      rw [hbuilt] at hclaim
      cases hclaim
    · exact hsafe
  · exact hsafe

include hsafe hmember in
theorem Safe.abandonClaim (message : String) (clock : Clock) (fuse : Option ℕ) :
    Safe site (abandonClaim site sessions build message clock fuse) := by
  unfold Session.abandonClaim
  split
  · rename_i pinned claim hstage
    have hcalled := hsafe.centroidCall (.abandonIvfCentroids claim message) clock fuse trivial
    exact hcalled.moveTo hmember hstage (by simp) trivial
  · exact hsafe

include hsafe hmember in
theorem Safe.writePostings (file : List String) (modifiedMs : ℤ) :
    Safe site (writePostings sessions build file modifiedMs) := by
  unfold Session.writePostings
  split
  · rename_i pinned centroids hstage
    exact hsafe.put modifiedMs ((hsafe.builds build hmember).working pinned _ hstage).1
      (List.prefix_append _ _)
  · exact hsafe

include hsafe hmember in
theorem Safe.writeManifest (modifiedMs : ℤ) :
    Safe site (writeManifest sessions build modifiedMs) := by
  unfold Session.writeManifest
  split
  · rename_i pinned centroids hstage
    have hroot := ((hsafe.builds build hmember).working pinned _ hstage).1
    cases hmanifest : artifactManifestPath build.config.postingEncoding pinned.root with
    | none =>
        have hput := hsafe.put modifiedMs hroot
          (List.prefix_append pinned.root ["ivf_postings", "manifest.json"])
        refine hput.moveTo hmember hstage (by simp) ⟨?_, ?_⟩
        · exact ((hput.builds build hmember).working pinned _ hstage).2.2
        · rw [hmanifest]
          exact ⟨_, KeyedTable.mem_upsert.mpr (Or.inl rfl), ["manifest.json"], by simp⟩
    | some path =>
        have hbelow : pinned.root <+: path := by
          unfold artifactManifestPath at hmanifest
          split at hmanifest
          · cases hmanifest
            exact List.prefix_append _ _
          · cases hmanifest
        have hput := hsafe.put modifiedMs hroot hbelow
        refine hput.moveTo hmember hstage (by simp) ⟨?_, ?_⟩
        · exact ((hput.builds build hmember).working pinned _ hstage).2.2
        · rw [hmanifest]
          exact ⟨_, KeyedTable.mem_upsert.mpr (Or.inl rfl), List.prefix_rfl⟩
  · exact hsafe

end

end ParqDB.Session
