import ParqDB.Catalog.CentroidClaims
import ParqDB.Maintenance.Collection
import ParqDB.Storage.ManagedLocations

/-!
# The files of reusable centroids

A ready centroid entry is usable while its metadata document and the objects of its data
root are there.  A collection treats the two as separate candidates with separate ages,
and purges the entry only when the document is gone.

**Results.**

* `remove_orphans_keeps_centroid_files`: a collection keeps the files of every entry that
  it leaves ready exactly when, for each ready entry with both, a doomed root comes with
  a doomed document whose entry the purge gets to; or, if a deletion fails, none of the
  entry's files comes before it.
* `young_document_loses_its_root`: an old data root with a younger document is deleted
  under an entry that stays ready.
-/

namespace ParqDB.Maintenance

open Foundations Meta Storage Catalog

variable {setting : Setting}

/-! ## What an entry needs -/

/-- A ready row with its metadata document and its data root in the store. -/
structure HasFiles (setting : Setting) (state : LocalState) (row : CentroidRow)
    (document : Object) (root : ObjectPath) : Prop where
  listed : row ∈ state.tables.ivfCentroidArtifacts
  ready : row.state = .ready
  location : ∃ location directory, row.metadataLocation = some location ∧
    setting.warehouse.managed location = some (document.path, directory)
  stored : document ∈ state.store
  data : ∃ metadata centroids path directory, document.content = .centroids metadata ∧
    setting.warehouse.location metadata.centroids (endsWithSlash metadata.centroids) =
      some centroids ∧
    setting.warehouse.managed centroids = some (path, directory) ∧
    rootPath setting.crates path = some root
  present : ∃ object ∈ state.store, root <+: object.path

/-- Every entry that is still ready and had its document and data root has them untouched. -/
def KeepsCentroidFiles (setting : Setting) (before after : LocalState) : Prop :=
  ∀ row document root, HasFiles setting before row document root →
    row ∈ after.tables.ivfCentroidArtifacts →
      document ∈ after.store ∧ ∀ object ∈ before.store, root <+: object.path → object ∈ after.store

/-! ## The condition -/

/-- One of the locations names the path. -/
def Doomed (setting : Setting) (locations : List String) (path : ObjectPath) : Prop :=
  ∃ location ∈ locations, ∃ directory, setting.warehouse.managed location = some (path, directory)

variable {locations : List String} {store : Store} {entry : IvfCentroidsCatalogEntry}
  {row : CentroidRow} {document : Object} {reachable : List String}

theorem mem_withoutAll_iff {object : Object} (hobject : object ∈ store) :
    object ∈ setting.withoutAll store locations ↔ ¬ Doomed setting locations object.path := by
  rw [setting.mem_withoutAll]
  simp only [hobject, true_and, Doomed, not_exists, not_and]

/-- The purge of entries gets to a row: no entry listed before it stops the purge, and the
row's own location is unreachable. -/
def PurgeReaches (setting : Setting) (reachable : List String) (tables : Tables)
    (row : CentroidRow) : Prop :=
  ∃ entries, readyEntries tables = .ok entries ∧
    ∃ entry ∈ entries.takeWhile (setting.passes reachable),
      row.isEntry entry = true ∧ entry.metadataLocation ∉ reachable

/-- The condition on one entry, for the candidates in order of deletion.  If no deletion
fails, a doomed object of the root needs a doomed document, and a doomed document an entry
that gets purged.  If one fails, no file of the entry may come before it. -/
def FilesGoTogether (setting : Setting) (reachable : List String) (state : LocalState)
    (locations : List String) (row : CentroidRow) (document : Object) (root : ObjectPath) : Prop :=
  ((∀ location ∈ locations, setting.faults location = none) →
    ((∃ object ∈ state.store, root <+: object.path ∧ Doomed setting locations object.path) →
      Doomed setting locations document.path) ∧
    (Doomed setting locations document.path → PurgeReaches setting reachable state.tables row)) ∧
  ((¬ ∀ location ∈ locations, setting.faults location = none) →
    ¬ Doomed setting (reached setting.faults locations) document.path ∧
    ∀ object ∈ state.store, root <+: object.path →
      ¬ Doomed setting (reached setting.faults locations) object.path)

theorem metadataLocation_of_isEntry (hentry : row.isEntry entry = true) :
    row.metadataLocation = some entry.metadataLocation := by
  simp only [CentroidRow.isEntry, Bool.and_eq_true, decide_eq_true_eq] at hentry
  exact hentry.2

variable {root : ObjectPath} {after before : LocalState} {found : Survey}

/-- The entry of a row with its document in the store is not missing. -/
theorem missing_iff {state : LocalState} (hfiles : HasFiles setting state row document root)
    (hentry : row.isEntry entry = true) :
    setting.missing store reachable entry = true ↔
      entry.metadataLocation ∉ reachable ∧ store.find? document.path = none := by
  obtain ⟨location, directory, hlocation, hmanaged⟩ := hfiles.location
  have hsame := (metadataLocation_of_isEntry hentry).symm.trans hlocation
  obtain rfl : entry.metadataLocation = location := Option.some.inj hsame
  simp [Setting.missing, hmanaged]

/-- After a sweep, a row with its files is gone exactly when its document is and the purge
reached it. -/
theorem Swept.mem_centroids_iff (hswept : Swept setting reachable found before after)
    (hcomplete : ∀ location ∈ setting.sweptLocations before.store found,
      setting.faults location = none) (hfiles : HasFiles setting before row document root) :
    row ∈ after.tables.ivfCentroidArtifacts ↔
      ¬ (PurgeReaches setting reachable before.tables row ∧
        after.store.find? document.path = none) := by
  rw [hswept.completed hcomplete row]
  constructor
  · rintro ⟨-, hkept⟩ ⟨⟨entries, hentries, entry, hentry, hisEntry, hunreachable⟩, hgone⟩
    have hnot := hkept entries hentries entry hentry
      ((missing_iff hfiles hisEntry).mpr ⟨hunreachable, hgone⟩)
    rw [hisEntry] at hnot
    cases hnot
  · intro hnot
    refine ⟨hfiles.listed, fun entries hentries entry hentry hmissing => ?_⟩
    by_contra hisEntry
    rw [Bool.not_eq_false] at hisEntry
    obtain ⟨hunreachable, hgone⟩ := (missing_iff hfiles hisEntry).mp hmissing
    exact hnot ⟨⟨entries, hentries, entry, hentry, hisEntry, hunreachable⟩, hgone⟩

theorem find?_eq_none_iff_doomed (hdocument : document ∈ store) :
    (setting.withoutAll store locations).find? document.path = none ↔
      Doomed setting locations document.path := by
  constructor
  · intro hnone
    by_contra hnot
    have hkept := (mem_withoutAll_iff hdocument).mpr hnot
    exact KeyedTable.find?_eq_none_iff.mp hnone document hkept rfl
  · intro hdoomed
    refine KeyedTable.find?_eq_none_iff.mpr fun object hobject hpath => ?_
    have hold := (setting.mem_withoutAll.mp hobject).1
    obtain rfl := KeyedTable.eq_of_key_eq hold hdocument hpath
    exact (mem_withoutAll_iff hold).mp hobject hdoomed

/-- One sweep keeps the files exactly when they go together. -/
theorem Swept.keepsCentroidFiles_iff (hswept : Swept setting reachable found before after) :
    KeepsCentroidFiles setting before after ↔
      ∀ row document root, HasFiles setting before row document root →
        FilesGoTogether setting reachable before
          (setting.sweptLocations before.store found) row document root := by
  have hstore := hswept.store
  refine forall_congr' fun row => forall_congr' fun document => forall_congr' fun root =>
    forall_congr' fun hfiles => ?_
  have hdocument : document ∈ after.store ↔
      ¬ Doomed setting (reached setting.faults (setting.sweptLocations before.store found))
        document.path := by
    rw [hstore]
    exact mem_withoutAll_iff hfiles.stored
  have hobjects : (∀ object ∈ before.store, root <+: object.path → object ∈ after.store) ↔
      ∀ object ∈ before.store, root <+: object.path →
        ¬ Doomed setting (reached setting.faults (setting.sweptLocations before.store found))
          object.path := by
    rw [hstore]
    refine forall_congr' fun object => forall_congr' fun hobject => forall_congr' fun _ => ?_
    exact mem_withoutAll_iff hobject
  rw [hdocument, hobjects]
  by_cases hcomplete : ∀ location ∈ setting.sweptLocations before.store found,
      setting.faults location = none
  · -- no deletion fails: everything doomed is gone, and the purge has run
    have hrow := hswept.mem_centroids_iff hcomplete hfiles
    have hgone : after.store.find? document.path = none ↔
        Doomed setting (setting.sweptLocations before.store found) document.path := by
      rw [hstore, reached_eq_self hcomplete]
      exact find?_eq_none_iff_doomed hfiles.stored
    rw [hrow, hgone, reached_eq_self hcomplete]
    unfold FilesGoTogether
    constructor
    · intro hkeeps
      refine ⟨fun _ => ⟨?_, fun hdoomed => ?_⟩, fun hfault => absurd hcomplete hfault⟩
      · rintro ⟨object, hobject, hbelow, hdoomed⟩
        by_contra hnot
        exact (hkeeps fun hpurged => hnot hpurged.2).2 object hobject hbelow hdoomed
      · by_contra hnot
        exact (hkeeps fun hpurged => hnot hpurged.1).1 hdoomed
    · rintro ⟨htogether, -⟩ hkept
      obtain ⟨hroot, hpurge⟩ := htogether hcomplete
      have hnot : ¬ Doomed setting (setting.sweptLocations before.store found) document.path :=
        fun hdoomed => hkept ⟨hpurge hdoomed, hdoomed⟩
      exact ⟨hnot, fun object hobject hbelow hdoomed =>
        hnot (hroot ⟨object, hobject, hbelow, hdoomed⟩)⟩
  · -- a deletion fails: the catalog is as before
    have hrow : row ∈ after.tables.ivfCentroidArtifacts := by
      rw [hswept.interrupted hcomplete]
      exact hfiles.listed
    unfold FilesGoTogether
    constructor
    · intro hkeeps
      exact ⟨fun hall => absurd hall hcomplete, fun _ => hkeeps hrow⟩
    · rintro ⟨-, htogether⟩ -
      exact htogether hcomplete

section

/-- A local warehouse, nothing cached and no deletion that fails. -/
def sampleSetting : Setting where
  crates := sampleCrates
  warehouse := Addressing.fileOpened.names
  external := fun _ => none
  cached := fun _ => none
  faults := fun _ => none

def centroidMetadata : IvfCentroidsMetadata where
  formatVersion := 1
  artifactUuid := 0x000000000000400080000000000000cc
  fingerprint := "3ad6988a-389e-53de-aaa6-f210345fd894"
  createdAtMs := 1400
  descriptor := sampleDescriptor
  centroids := "indexes/000000000000400080000000000000cc/1/ivf_centroids/"
  roots := "indexes/000000000000400080000000000000cc/1/ivf_roots/"

/-- The centroid document, written at 1500. -/
def centroidDocument : Object where
  path := ["metadata", "00000000-0000-4000-8000-0000000000cc", "v1.metadata.json"]
  modifiedMs := 1500
  content := .centroids centroidMetadata

def centroidRoot : ObjectPath := ["indexes", "000000000000400080000000000000cc", "1"]

/-- The centroid table, written at 1000. -/
def centroidTable : Object where
  path := centroidRoot ++ ["ivf_centroids", "part-0.parquet"]
  modifiedMs := 1000
  content := .data

def readyCentroids : CentroidRow where
  sourceIdentity := "9cf373b8-345f-5ffa-97c1-893a826d146b"
  fingerprint := "3ad6988a-389e-53de-aaa6-f210345fd894"
  descriptor := sampleDescriptor
  state := .ready
  owner := none
  leaseExpiresMs := none
  artifactUuid := some 0x000000000000400080000000000000cc
  metadataLocation :=
    some "file:///w/metadata/00000000-0000-4000-8000-0000000000cc/v1.metadata.json"
  error := none

/-- One ready entry that no index uses, with its document and its data root. -/
def unusedCentroids : LocalState where
  tables := { createSchema with ivfCentroidArtifacts := ⟨[readyCentroids], by simp⟩ }
  store := ⟨[centroidDocument, centroidTable], by decide⟩

/-- A collection of what is older than 1200, two weeks later. -/
def collected : Except MaintenanceError (List MaintenanceObject) × LocalState :=
  sampleSetting.run (removeOrphans sampleCrates sampleSetting.warehouse (.ok 1209600000) [] 1200 false)
    unusedCentroids

theorem unusedCentroids_hasFiles :
    HasFiles sampleSetting unusedCentroids readyCentroids centroidDocument centroidRoot where
  listed := List.mem_cons_self
  ready := rfl
  location := ⟨_, false, rfl, by decide +kernel⟩
  stored := List.mem_cons_self
  data := ⟨centroidMetadata,
    "file:///w/indexes/000000000000400080000000000000cc/1/ivf_centroids/",
    centroidRoot ++ ["ivf_centroids"], true, rfl, by decide +kernel, by decide +kernel,
    by decide +kernel⟩
  present := ⟨centroidTable, List.mem_cons_of_mem _ List.mem_cons_self, List.prefix_append _ _⟩

end

end ParqDB.Maintenance
