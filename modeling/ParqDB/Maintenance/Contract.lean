import ParqDB.Maintenance.RemoveOrphans

/-!
# What a collection may delete

Contracts of the collector's parts, in terms of what its environment answers.  They hold
for a collection run in one go as well as for one whose awaits interleave with builds,
as long as the answers about catalog mappings and documents stay the same.

* `meets_reachableLocations`, `meets_tombstoneReferences`: the collected references
  include those of every mapped and every tombstoned document.
* `meets_candidates`: a candidate is unreachable and consists of the objects that have
  its reference.
* `meets_removeOrphans`: the only objects a collection deletes have a reference that no
  mapped document, no active build and no young tombstone protects.
-/

namespace ParqDB.Maintenance

open Foundations Meta Storage Catalog

/-- Operations that change nothing. -/
def Operation.Reads : Operation → Prop
  | .delete _ | .purgeTombstone _ | .purgeIvfCentroids _ => False
  | _ => True

/-- The answers about one list of mappings, one set of readable documents and the objects
that may be listed. -/
structure Answering (answers : (operation : Operation) → operation.Response → Prop)
    (indexes : KeyedTable IndexRow.key) (tombstones : List CatalogTombstone)
    (document : String → IndexMetadata → Prop) (absent : String → Prop)
    (listed : ObjectPath → Prop) : Prop where
  listAll : ∀ keys, answers .listAll (.ok keys) → ∀ row ∈ indexes, row.key ∈ keys
  load : ∀ key row, answers (.load key) (.ok row) → indexes.find? key = some row
  listTombstones : ∀ found, answers .listTombstones (.ok found) →
    ∀ tombstone ∈ tombstones, tombstone ∈ found
  loaded : ∀ location metadata, answers (.loadMetadata location) (.ok metadata) →
    document location metadata
  missing : ∀ location error, answers (.loadMetadata location) (.error error) → absent location
  list : ∀ directory objects, answers (.list directory) (.ok objects) →
    ∀ object ∈ objects, listed object.1

variable {crates : Crates} {warehouse : Warehouse}
  {allowed : Operation → Prop} {answers : (operation : Operation) → operation.Response → Prop}
  {indexes : KeyedTable IndexRow.key} {tombstones : List CatalogTombstone}
  {document : String → IndexMetadata → Prop} {absent : String → Prop}
  {listed : ObjectPath → Prop}

/-! ## Reachable locations -/

variable (crates warehouse) in
/-- Everything a document at a location protects is among the references. -/
def Covers (references : List String) (location : String) (metadata : IndexMetadata) : Prop :=
  ∃ found, indexMetadataReferences crates warehouse metadata = .ok found ∧
    ∀ reference ∈ ifManaged warehouse location ++ found, reference ∈ references

variable {location : String} {references more : List String}

theorem Covers.mono {metadata : IndexMetadata}
    (hcovers : Covers crates warehouse references location metadata)
    (hmore : ∀ reference ∈ references, reference ∈ more) :
    Covers crates warehouse more location metadata := by
  obtain ⟨found, hfound, hall⟩ := hcovers
  exact ⟨found, hfound, fun reference hreference => hmore reference (hall reference hreference)⟩

variable (crates warehouse) in
/-- The references include those of every mapped document. -/
def CoversMapped (indexes : KeyedTable IndexRow.key) (document : String → IndexMetadata → Prop)
    (references : List String) : Prop :=
  ∀ row ∈ indexes, ∃ metadata, document row.metadataLocation metadata ∧
    Covers crates warehouse references row.metadataLocation metadata

variable (crates warehouse) in
theorem meets_reachableLocations (hreads : ∀ operation, operation.Reads → allowed operation)
    (hanswers : Answering answers indexes tombstones document absent listed) :
    Program.Meets allowed answers (CoversMapped crates warehouse indexes document)
      (reachableLocations crates warehouse) := by
  refine (Program.meets_call (hreads .listAll trivial)).bind fun listed hlisted => ?_
  refine Program.meets_ofExcept.bind fun keys hkeys => ?_
  subst hkeys
  -- after each key, the rows with the keys done so far are covered
  refine (Program.meets_foldlM
    (fun done reachable => ∀ key ∈ done, ∀ row, indexes.find? key = some row →
      ∃ metadata, document row.metadataLocation metadata ∧
        Covers crates warehouse reachable row.metadataLocation metadata) ?_ ?_).mono ?_
  · intro key hkey
    cases hkey
  · intro before key after reachable hkeys hbefore
    refine (Program.meets_call (hreads (.load key) trivial)).bind fun loaded hloaded => ?_
    refine Program.meets_ofExcept.bind fun entry hentry => ?_
    subst hentry
    refine (Program.meets_call (hreads (.loadMetadata entry.metadataLocation) trivial)).bind
      fun read hread => ?_
    refine Program.meets_ofExcept.bind fun metadata hmetadata => ?_
    subst hmetadata
    refine Program.meets_ofExcept.bind fun references hreferences => ?_
    intro other hother row hrow
    rcases List.mem_append.mp hother with hold | hnew
    · obtain ⟨found, hfound, hcovers⟩ := hbefore other hold row hrow
      exact ⟨found, hfound, hcovers.mono fun reference hreference => by simp [hreference]⟩
    · obtain rfl : other = key := by simpa using hnew
      have hentry := hanswers.load other entry hloaded
      obtain rfl : row = entry := Option.some.inj (hrow.symm.trans hentry)
      refine ⟨metadata, hanswers.loaded _ _ hread, references, hreferences, ?_⟩
      intro reference hreference
      rcases List.mem_append.mp hreference with hlocation | hfound
      · simp [hlocation]
      · simp [hfound]
  · intro reachable hreachable row hrow
    exact hreachable row.key (hanswers.listAll keys hlisted row hrow) row
      (KeyedTable.find?_key hrow)

/-! ## Tombstones -/

variable (crates warehouse) in
/-- The states include the tombstones, each with the references of its document unless it is
absent. -/
def CoversTombstones (tombstones : List CatalogTombstone)
    (document : String → IndexMetadata → Prop) (absent : String → Prop)
    (states : List TombstoneReferences) : Prop :=
  ∀ tombstone ∈ tombstones, ∃ state ∈ states, state.tombstone = tombstone ∧
    (∀ reference ∈ ifManaged warehouse tombstone.metadataLocation,
      reference ∈ state.references) ∧
    (absent tombstone.metadataLocation ∨
      ∃ metadata, document tombstone.metadataLocation metadata ∧
        Covers crates warehouse state.references tombstone.metadataLocation metadata)

theorem meets_tombstoneDocumentReferences
    (hreads : ∀ operation, operation.Reads → allowed operation)
    (hanswers : Answering answers indexes tombstones document absent listed) (location : String) :
    Program.Meets allowed answers (fun references => absent location ∨
        ∃ metadata, document location metadata ∧
          indexMetadataReferences crates warehouse metadata = .ok references)
      (tombstoneDocumentReferences crates warehouse location) := by
  refine (Program.meets_call (hreads (.loadMetadata location) trivial)).bind
    fun loaded hloaded => ?_
  split
  · rename_i metadata
    refine Program.meets_ofExcept.mono fun references hreferences => ?_
    exact Or.inr ⟨metadata, hanswers.loaded _ _ hloaded, hreferences⟩
  · have habsent := hanswers.missing _ _ hloaded
    refine (Program.meets_call (hreads (.loadIvfCentroids location) trivial)).bind
      fun centroids _ => ?_
    refine Program.meets_ofExcept.bind fun metadata _ => ?_
    refine Program.meets_ofExcept.bind fun centroidsLocation _ => ?_
    exact Program.meets_ofExcept.bind fun root _ => Or.inl habsent
  · exact Or.inl (hanswers.missing _ _ hloaded)
  · trivial

variable (crates warehouse) in
theorem meets_tombstoneReferences (hreads : ∀ operation, operation.Reads → allowed operation)
    (hanswers : Answering answers indexes tombstones document absent listed) :
    Program.Meets allowed answers (CoversTombstones crates warehouse tombstones document absent)
      (tombstoneReferences crates warehouse) := by
  refine (Program.meets_call (hreads .listTombstones trivial)).bind fun listed hlisted => ?_
  refine Program.meets_ofExcept.bind fun found hfound => ?_
  subst hfound
  refine (Program.meets_foldlM (fun done states =>
    CoversTombstones crates warehouse done document absent states) ?_ ?_).mono ?_
  · intro tombstone htombstone
    cases htombstone
  · intro before tombstone after states _ hbefore
    refine (meets_tombstoneDocumentReferences hreads hanswers _).bind fun references hread => ?_
    intro other hother
    rcases List.mem_append.mp hother with hold | hnew
    · obtain ⟨state, hstate, hcovered⟩ := hbefore other hold
      exact ⟨state, List.mem_append_left _ hstate, hcovered⟩
    · obtain rfl := List.mem_singleton.mp hnew
      refine ⟨_, List.mem_append_right _ List.mem_cons_self, rfl, ?_, ?_⟩
      · intro reference hreference
        exact List.mem_append_left _ hreference
      · rcases hread with habsent | ⟨metadata, hdocument, hreferences⟩
        · exact Or.inl habsent
        · exact Or.inr ⟨metadata, hdocument, references, hreferences, fun _ h => h⟩
  · intro states hstates tombstone htombstone
    exact hstates tombstone (hanswers.listTombstones found hlisted tombstone htombstone)

/-! ## Candidates -/

theorem requireLocation_eq_ok {α : Type} {location : Option α} {text : String} {found : α}
    (hrequire : requireLocation location text = .ok found) : location = some found := by
  cases location with
  | none => cases hrequire
  | some location => exact congrArg some (Except.ok.inj hrequire)

variable {reference : String} {path listedPath : ObjectPath} {object : ObjectPath × ℤ}
  {reachable verified : List String}

theorem managed_of_relativePath {directory : Bool}
    (hrelative : warehouse.relativePath location = some (path, directory)) :
    warehouse.managed location = some (path, directory) :=
  (Option.filter_eq_some_iff.mp hrelative).1

/-- A snapshot root is the location of the root of a managed path. -/
theorem snapshotRoot_eq_some (hroot : snapshotRoot crates warehouse location = .ok (some reference)) :
    ∃ path directory root, warehouse.managed location = some (path, directory) ∧
      rootPath crates path = some root ∧ warehouse.locate root true = some reference := by
  unfold snapshotRoot at hroot
  split at hroot
  · cases hroot
  · obtain ⟨⟨path, directory⟩, hpath, hroot⟩ := bind_eq_ok.mp hroot
    have hmanaged := managed_of_relativePath (requireLocation_eq_ok hpath)
    dsimp only at hroot
    split at hroot
    · cases hroot
    · rename_i root hrootPath
      cases hrequire : requireLocation (warehouse.locate root true) location with
      | error error =>
          rw [hrequire] at hroot
          cases hroot
      | ok found =>
          rw [hrequire] at hroot
          cases hroot
          exact ⟨path, directory, root, hmanaged, hrootPath, requireLocation_eq_ok hrequire⟩

variable (crates warehouse) in
/-- The objects at a path are named by a reference: the location of a metadata document, or
the location of the root of index data. -/
def NamedBy (path : ObjectPath) (location reference : String) : Prop :=
  isMetadataPath crates path = true ∧ location = reference ∨
    ∃ root, rootPath crates path = some root ∧ warehouse.locate root true = some reference

variable (crates warehouse) in
/-- An object that is listed at a path has a location and is handled under a reference, which
names the object that the location leads back to. -/
def HandledAs (listedPath : ObjectPath) (location reference : String) : Prop :=
  warehouse.locate listedPath false = some location ∧
    ∃ path directory, warehouse.managed location = some (path, directory) ∧
      NamedBy crates warehouse path location reference

variable (crates warehouse) in
/-- The references name the object at a path: by the location of a metadata document, or by
the location of the root it lies below. -/
def RefersTo (references : List String) (path : ObjectPath) : Prop :=
  isMetadataPath crates path = true ∧
      (∃ location ∈ references, warehouse.locate path false = some location) ∨
    ∃ root, rootPath crates path = some root ∧
      ∃ location ∈ references, warehouse.locate root true = some location

/-- A metadata document does not lie below a snapshot root. -/
theorem rootPath_of_isMetadataPath {root : ObjectPath}
    (hmetadata : isMetadataPath crates path = true) : rootPath crates path ≠ some root := by
  intro hroot
  obtain ⟨rest, rfl, hlength, hhead⟩ := rootPath_eq_some hroot
  unfold isMetadataPath at hmetadata
  split at hmetadata
  · rename_i metadata uuid filename hpath
    simp only [Bool.and_eq_true, decide_eq_true_eq] at hmetadata
    have hfirst : (root ++ rest).head? = some "indexes" := by
      cases root with
      | nil => cases hhead
      | cons first others => exact hhead
    rw [hpath, hmetadata.1.1] at hfirst
    simp at hfirst
  · cases hmetadata

/-- The name of an object that reads back: the location of its own path, and a reference that
names it. -/
theorem HandledAs.of_readsBack {directory : Bool}
    (hhandled : HandledAs crates warehouse listedPath location reference)
    (hback : warehouse.ReadsBack listedPath)
    (hmanaged : warehouse.managed location = some (path, directory)) :
    warehouse.locate path false = some location ∧
      NamedBy crates warehouse path location reference := by
  obtain ⟨hlocate, found, _, hfound, hnamed⟩ := hhandled
  obtain ⟨rfl, -⟩ : listedPath = path ∧ false = directory := by
    simpa using (hback _ _ hlocate).symm.trans hmanaged
  obtain ⟨rfl, -⟩ : found = listedPath ∧ _ = directory := by
    simpa using hfound.symm.trans hmanaged
  exact ⟨hlocate, hnamed⟩

/-- References that name an object contain the reference it is handled under. -/
theorem NamedBy.mem_of_refersTo (hnamed : NamedBy crates warehouse path location reference)
    (hlocate : warehouse.locate path false = some location)
    (hrefers : RefersTo crates warehouse references path) : reference ∈ references := by
  rcases hnamed with ⟨hmetadata, rfl⟩ | ⟨root, hroot, hreference⟩ <;>
    rcases hrefers with ⟨hother, named, hnamed, hlocated⟩ | ⟨other, hother, named, hnamed, hlocated⟩
  · obtain rfl := Option.some.inj (hlocate.symm.trans hlocated)
    exact hnamed
  · exact absurd hother (rootPath_of_isMetadataPath hmetadata)
  · exact absurd hroot (rootPath_of_isMetadataPath hother)
  · obtain rfl := Option.some.inj (hroot.symm.trans hother)
    obtain rfl := Option.some.inj (hreference.symm.trans hlocated)
    exact hnamed

theorem RefersTo.mono (hrefers : RefersTo crates warehouse references path)
    (hmore : ∀ reference ∈ references, reference ∈ more) : RefersTo crates warehouse more path := by
  rcases hrefers with ⟨hmetadata, location, hlocation, hlocate⟩ |
    ⟨root, hroot, location, hlocation, hlocate⟩
  · exact Or.inl ⟨hmetadata, location, hmore location hlocation, hlocate⟩
  · exact Or.inr ⟨root, hroot, location, hmore location hlocation, hlocate⟩

variable (crates warehouse) in
/-- An object that is listed is handled under a reference. -/
def ListedAs (listed : ObjectPath → Prop) (location reference : String) : Prop :=
  ∃ path, listed path ∧ HandledAs crates warehouse path location reference

variable (crates warehouse) in
/-- A candidate is unreachable, and all its members are handled under its reference. -/
structure Candidate.Sound (listed : ObjectPath → Prop) (reachable : List String)
    (candidate : Candidate) : Prop where
  unreachable : candidate.object.reference ∉ reachable
  members : ∀ member ∈ candidate.members,
    ListedAs crates warehouse listed member candidate.object.reference

variable {candidate : Candidate} {objects : List (String × String × ℤ)} {olderThanMs : ℤ}

theorem metadataCandidate_sound (hlisted : listed object.1)
    (hcandidate : metadataCandidate crates warehouse reachable verified olderThanMs object =
      .ok (some candidate)) : candidate.Sound crates warehouse listed reachable := by
  obtain ⟨location, hlocation, hcandidate⟩ := bind_eq_ok.mp hcandidate
  obtain ⟨⟨path, directory⟩, hpath, hcheck⟩ := bind_eq_ok.mp hcandidate
  dsimp only at hcheck
  split at hcheck
  · rename_i hvalid
    cases hcheck
    simp only [Bool.and_eq_true, collectable] at hvalid
    refine ⟨by simpa using hvalid.2.1, fun member hmember => ?_⟩
    obtain rfl : member = location := by simpa using hmember
    exact ⟨object.1, hlisted, requireLocation_eq_ok hlocation, path, directory,
      managed_of_relativePath (requireLocation_eq_ok hpath), Or.inl ⟨hvalid.1.1, rfl⟩⟩
  · cases hcheck

theorem indexMember_listed {member : String × String × ℤ} (hlisted : listed object.1)
    (hmember : indexMember crates warehouse object = .ok (some member)) :
    ListedAs crates warehouse listed member.2.1 member.1 := by
  obtain ⟨found, hfound, hrest⟩ := bind_eq_ok.mp hmember
  obtain ⟨reference, hreference, hok⟩ := bind_eq_ok.mp hrest
  cases reference with
  | none => cases hok
  | some reference =>
      cases hok
      obtain ⟨path, directory, root, hmanaged, hroot, hlocate⟩ := snapshotRoot_eq_some hreference
      exact ⟨object.1, hlisted, requireLocation_eq_ok hfound, path, directory, hmanaged,
        Or.inr ⟨root, hroot, hlocate⟩⟩

theorem indexCandidate_sound {root : String}
    (hobjects : ∀ object ∈ objects, ListedAs crates warehouse listed object.2.1 object.1)
    (hcandidate : indexCandidate reachable verified olderThanMs objects root = some candidate) :
    candidate.Sound crates warehouse listed reachable := by
  simp only [indexCandidate] at hcandidate
  split at hcandidate
  · rename_i hcheck
    cases hcandidate
    simp only [collectable, Bool.and_eq_true] at hcheck
    refine ⟨by simpa using hcheck.1, fun member hmember => ?_⟩
    obtain ⟨object, hobject, rfl⟩ := List.mem_map.mp hmember
    obtain ⟨hmem, hroot⟩ := List.mem_filter.mp hobject
    obtain rfl : object.1 = root := by simpa using hroot
    exact hobjects object hmem
  · cases hcandidate

theorem meets_listIfPresent (hreads : ∀ operation, operation.Reads → allowed operation)
    (hanswers : Answering answers indexes tombstones document absent listed)
    (directory : String) :
    Program.Meets allowed answers (fun objects => ∀ object ∈ objects, listed object.1)
      (listIfPresent directory) := by
  refine (Program.meets_call (hreads (.list directory) trivial)).bind fun found hfound => ?_
  split
  · exact hanswers.list directory _ hfound
  · intro object hobject
    cases hobject
  · trivial

theorem meets_candidates (hreads : ∀ operation, operation.Reads → allowed operation)
    (hanswers : Answering answers indexes tombstones document absent listed)
    (reachable verified : List String) (olderThanMs : ℤ) :
    Program.Meets allowed answers
      (fun found => ∀ candidate ∈ found,
        candidate.Sound crates warehouse listed reachable)
      (candidates crates warehouse reachable verified olderThanMs) := by
  have hmetadata : Program.Meets allowed answers
      (fun found => ∀ candidate ∈ found,
        candidate.Sound crates warehouse listed reachable)
      (metadataCandidates crates warehouse reachable verified olderThanMs) := by
    refine (meets_listIfPresent hreads hanswers _).bind fun objects hobjects => ?_
    refine Program.meets_ofExcept.bind fun found hfound => ?_
    intro candidate hcandidate
    obtain ⟨_, hmem, rfl⟩ := List.mem_filterMap.mp hcandidate
    obtain ⟨object, hobject, hsome⟩ := exists_of_mem_mapM hfound hmem
    exact metadataCandidate_sound (hobjects object hobject) hsome
  have hindex : Program.Meets allowed answers
      (fun found => ∀ candidate ∈ found,
        candidate.Sound crates warehouse listed reachable)
      (indexCandidates crates warehouse reachable verified olderThanMs) := by
    refine (meets_listIfPresent hreads hanswers _).bind fun objects hobjects => ?_
    refine Program.meets_ofExcept.bind fun members hmembers => ?_
    intro candidate hcandidate
    obtain ⟨root, -, hroot⟩ := List.mem_filterMap.mp hcandidate
    refine indexCandidate_sound (fun member hmember => ?_) hroot
    obtain ⟨_, hmem, rfl⟩ := List.mem_filterMap.mp hmember
    obtain ⟨object, hobject, hsome⟩ := exists_of_mem_mapM hmembers hmem
    exact indexMember_listed (hobjects object hobject) hsome
  refine hmetadata.bind fun metadata hmetadata => ?_
  refine hindex.bind fun index hindex => ?_
  intro candidate hcandidate
  rcases List.mem_append.mp hcandidate with hleft | hright
  · exact hmetadata candidate hleft
  · exact hindex candidate hright

theorem mem_sortCandidates {found : List Candidate} :
    candidate ∈ sortCandidates found ↔ candidate ∈ found :=
  List.mem_insertionSort _

/-! ## The whole collection -/

variable {clock : Clock} {activeRoots : List String}

variable (crates warehouse activeRoots) in
/-- References that protect every mapped document, every active root and every tombstone not
older than the cutoff. -/
structure Protects (indexes : KeyedTable IndexRow.key) (tombstones : List CatalogTombstone)
    (document : String → IndexMetadata → Prop) (absent : String → Prop) (cutoff : ℤ)
    (references : List String) : Prop where
  mapped : CoversMapped crates warehouse indexes document references
  active : ∀ root ∈ activeRoots, root ∈ references
  young : ∀ tombstone ∈ tombstones, cutoff ≤ tombstone.unreachableSinceMs →
    (∀ reference ∈ ifManaged warehouse tombstone.metadataLocation, reference ∈ references) ∧
    (absent tombstone.metadataLocation ∨
      ∃ metadata, document tombstone.metadataLocation metadata ∧
        Covers crates warehouse references tombstone.metadataLocation metadata)

theorem mem_youngReferences {states : List TombstoneReferences} {cutoff : ℤ} :
    reference ∈ youngReferences states cutoff ↔
      ∃ state ∈ states, cutoff ≤ state.tombstone.unreachableSinceMs ∧
        reference ∈ state.references := by
  simp [youngReferences, and_assoc]

theorem protects_protectedReferences {mapped : List String} {states : List TombstoneReferences}
    (hmapped : CoversMapped crates warehouse indexes document mapped)
    (hstates : CoversTombstones crates warehouse tombstones document absent states) (cutoff : ℤ) :
    Protects crates warehouse activeRoots indexes tombstones document absent cutoff
      (protectedReferences activeRoots mapped states cutoff) where
  mapped := by
    intro row hrow
    obtain ⟨metadata, hdocument, hcovers⟩ := hmapped row hrow
    refine ⟨metadata, hdocument, hcovers.mono fun reference hreference => ?_⟩
    simp [protectedReferences, hreference]
  active := by
    intro root hroot
    simp [protectedReferences, hroot]
  young := by
    intro tombstone htombstone hyoung
    obtain ⟨state, hstate, rfl, hlocation, hdocument⟩ := hstates tombstone htombstone
    have hinto : ∀ reference ∈ state.references,
        reference ∈ protectedReferences activeRoots mapped states cutoff := by
      intro reference hreference
      exact List.mem_append_right _ (mem_youngReferences.mpr ⟨state, hstate, hyoung, hreference⟩)
    refine ⟨fun reference hreference => hinto reference (hlocation reference hreference), ?_⟩
    rcases hdocument with habsent | ⟨metadata, hdocument, hcovers⟩
    · exact Or.inl habsent
    · exact Or.inr ⟨metadata, hdocument, hcovers.mono hinto⟩

variable (crates warehouse activeRoots) in
/-- A survey whose candidates are unprotected and whose tombstones are complete. -/
structure Survey.Sound (indexes : KeyedTable IndexRow.key) (tombstones : List CatalogTombstone)
    (document : String → IndexMetadata → Prop) (absent : String → Prop)
    (listed : ObjectPath → Prop) (survey : Survey) : Prop where
  states : CoversTombstones crates warehouse tombstones document absent survey.tombstones
  found : ∃ references,
    Protects crates warehouse activeRoots indexes tombstones document absent survey.olderThanMs
      references ∧
    ∀ candidate ∈ survey.found,
      candidate.Sound crates warehouse listed references

section

variable (hreads : ∀ operation, operation.Reads → allowed operation)

include hreads

theorem meets_survey
    (hanswers : Answering answers indexes tombstones document absent listed) (olderThanMs : ℤ) :
    Program.Meets allowed answers
      (fun survey => (∃ now, clock = .ok now ∧
          survey.olderThanMs = effectiveCutoff now olderThanMs) ∧
        survey.Sound crates warehouse activeRoots indexes tombstones document absent listed)
      (survey crates warehouse clock activeRoots olderThanMs) := by
  refine Program.meets_ofExcept.bind fun now hnow => ?_
  refine (meets_tombstoneReferences crates warehouse hreads hanswers).bind fun states hstates => ?_
  refine (meets_reachableLocations crates warehouse hreads hanswers).bind fun mapped hmapped => ?_
  refine (meets_candidates hreads hanswers _ _ _).bind fun found hfound => ?_
  have hclock : clock = .ok now := by
    cases hclock : clock with
    | ok value =>
        rw [hclock] at hnow
        cases hnow
        rfl
    | error message =>
        rw [hclock] at hnow
        cases hnow
  refine ⟨⟨now, hclock, rfl⟩, hstates, _, protects_protectedReferences hmapped hstates _, ?_⟩
  intro candidate hcandidate
  exact hfound candidate (mem_sortCandidates.mp hcandidate)

theorem meets_stillOld (olderThanMs : ℤ) (members : List String) :
    Program.Meets allowed answers (fun _ => True) (stillOld olderThanMs members) := by
  induction members with
  | nil => trivial
  | cons member members ih =>
      refine (Program.meets_call (hreads (.head member) trivial)).bind fun outcome _ => ?_
      split
      · split
        · trivial
        · exact ih
      · exact ih
      · trivial

theorem meets_deleteCandidate (hdelete : ∀ member ∈ candidate.members, allowed (.delete member)) :
    Program.Meets allowed answers (fun _ => True) (deleteCandidate candidate) := by
  refine Program.meets_foldlM_const trivial fun member hmember _ _ => ?_
  refine (Program.meets_call (hdelete member hmember)).bind fun outcome _ => ?_
  split
  · split
    · exact (Program.meets_call (hreads (.invalidate member) trivial)).mono fun _ _ => trivial
    · trivial
  · split
    · exact (Program.meets_call (hreads (.invalidate member) trivial)).mono fun _ _ => trivial
    · trivial
  · trivial

theorem meets_collectCandidate (hdelete : candidate.object.reference ∉ reachable →
      ∀ member ∈ candidate.members, allowed (.delete member)) (olderThanMs : ℤ)
    (removed : List MaintenanceObject) :
    Program.Meets allowed answers (fun _ => True)
      (collectCandidate reachable olderThanMs removed candidate) := by
  unfold collectCandidate
  split
  · trivial
  · rename_i hunreachable
    have hfree : candidate.object.reference ∉ reachable := by simpa using hunreachable
    have hold : Program.Meets allowed answers (fun _ => True) (isOld olderThanMs candidate) := by
      unfold isOld
      split
      · trivial
      · exact meets_stillOld hreads _ _
    refine hold.andThen fun old => ?_
    split
    · exact (meets_deleteCandidate hreads (hdelete hfree)).andThen fun _ => trivial
    · trivial

theorem meets_purgeWhenMissing {purge : Collect (Except MaintenanceError Bool)}
    (hpurge : Program.Meets allowed answers (fun _ => True) purge) :
    Program.Meets allowed answers (fun _ => True) (purgeWhenMissing location purge) := by
  refine (Program.meets_call (hreads (.head location) trivial)).bind fun outcome _ => ?_
  split
  · exact hpurge.andThen fun purged => Program.meets_ofExcept.bind fun _ _ => trivial
  · trivial
  · trivial

/-- The contract of a collection: it only deletes objects handled under a reference that
is not among references protecting all that is mapped, active or young. -/
theorem meets_sweep (hpurgeTombstone : ∀ tombstone, allowed (.purgeTombstone tombstone))
    (hpurgeCentroids : ∀ entry, allowed (.purgeIvfCentroids entry))
    (hanswers : Answering answers indexes tombstones document absent listed) {survey : Survey}
    (hsurvey : survey.Sound crates warehouse activeRoots indexes tombstones document absent listed)
    (hdelete : ∀ location reference references,
      ListedAs crates warehouse listed location reference → reference ∉ references →
      Protects crates warehouse activeRoots indexes tombstones document absent
        survey.olderThanMs references →
      allowed (.delete location)) :
    Program.Meets allowed answers (fun _ => True)
      (sweep crates warehouse activeRoots survey) := by
  refine (meets_reachableLocations crates warehouse hreads hanswers).bind fun mapped hmapped => ?_
  have hprotects : Protects crates warehouse activeRoots indexes tombstones document absent
      survey.olderThanMs
      (protectedReferences activeRoots mapped survey.tombstones survey.olderThanMs) :=
    protects_protectedReferences hmapped hsurvey.states survey.olderThanMs
  obtain ⟨_, _, hfound⟩ := hsurvey.found
  refine Program.Meets.andThen ?_ fun removed => ?_
  · refine Program.meets_foldlM_const trivial fun candidate hcandidate removed _ => ?_
    refine meets_collectCandidate hreads (fun hfree member hmember => ?_) _ _
    exact hdelete member _ _ ((hfound candidate hcandidate).members member hmember) hfree hprotects
  refine Program.Meets.andThen ?_ fun _ => ?_
  · refine (Program.meets_call (hreads .listIvfCentroids trivial)).bind fun listed _ => ?_
    refine Program.meets_ofExcept.bind fun entries _ => ?_
    refine Program.meets_foldlM_const trivial fun entry _ _ _ => ?_
    unfold purgeIfMissing
    split
    · trivial
    · exact meets_purgeWhenMissing hreads
        ((Program.meets_call (hpurgeCentroids entry)).mono fun _ _ => trivial)
  refine Program.Meets.andThen ?_ fun _ => trivial
  refine Program.meets_foldlM_const trivial fun state _ _ _ => ?_
  unfold purgeOldTombstone
  split
  · trivial
  · exact meets_purgeWhenMissing hreads
      ((Program.meets_call (hpurgeTombstone state.tombstone)).mono fun _ _ => trivial)

theorem meets_removeOrphans (hpurgeTombstone : ∀ tombstone, allowed (.purgeTombstone tombstone))
    (hpurgeCentroids : ∀ entry, allowed (.purgeIvfCentroids entry))
    (hanswers : Answering answers indexes tombstones document absent listed)
    (olderThanMs : ℤ) (dryRun : Bool)
    (hdelete : ∀ location reference references cutoff,
      ListedAs crates warehouse listed location reference → reference ∉ references →
      Protects crates warehouse activeRoots indexes tombstones document absent cutoff references →
      allowed (.delete location)) :
    Program.Meets allowed answers (fun _ => True)
      (removeOrphans crates warehouse clock activeRoots olderThanMs dryRun) := by
  refine (meets_survey hreads hanswers olderThanMs).bind fun survey hsurvey => ?_
  split
  · trivial
  · exact meets_sweep hreads hpurgeTombstone hpurgeCentroids hanswers hsurvey.2
      fun location reference references => hdelete location reference references _

end

end ParqDB.Maintenance
