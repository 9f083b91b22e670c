import ParqDB.Maintenance.CentroidFiles

/-!
# Retention over whole runs

A run is a sequence of `register`, `commit`, `drop` and `remove_orphans` calls, each at a
reading of one non-decreasing clock, together with the uploads of immutable objects in
between.  A collection may stop at any deletion and be repeated.

**Strategy.**  Protection of an object is carried by the location of a document that
refers to it: the location is mapped, or it is tombstoned since a time not before the
object was last referenced.  Catalog calls hand a location over from the one to the other
(`LiveOrBuried.next`); a collection keeps both the location and what its document refers
to, unless its cutoff has passed the tombstone.

**Results.**

* `orphan_retention`: an object referenced until `t` is not deleted before some
  collection's cutoff has passed `t`, and tombstones only disappear when their location
  becomes current again or its object is gone.
* `early_deletion_and_lost_tombstone`: the cutoff that counts need not be that of the
  deleting call, and a registration removes a tombstone whose object is there.
-/

namespace ParqDB.Maintenance

open Foundations Meta Storage Catalog

/-! ## Timed runs -/

/-- What a session brings to a collection: documents outside the warehouse, the locations its
metadata cache holds, and the deletions that fail. -/
structure SessionState where
  external : String → Option Content
  cached : String → Bool
  faults : String → Option Bool

/-- A call of a run.  Documents are named by their path below the warehouse root. -/
inductive Call
  | upload (path : ObjectPath) (modifiedMs : ℤ)
  | register (identifier : IndexIdentifier) (source : TableDefinition) (document : ObjectPath)
  | commit (identifier : IndexIdentifier) (source : TableDefinition)
      (base new : ObjectPath)
  | drop (identifier : IndexIdentifier)
  | removeOrphans (session : SessionState) (activeRoots : List String) (olderThanMs : ℤ)
      (dryRun : Bool)

/-- A call, the clock it reads, and the statement at which the catalog fails, if any. -/
structure TimedCall where
  atMs : ℤ
  call : Call
  fuse : Option ℕ

/-- The world of a run: the crates, the warehouse, and the content every path has once and for
all, since objects are immutable. -/
structure World where
  crates : Crates
  warehouse : Warehouse
  contents : ObjectPath → Content

namespace World

variable (world : World)

/-- The location and the index document of a path. -/
def document (path : ObjectPath) : Option (String × IndexMetadata) :=
  match world.warehouse.locate path false, world.contents path with
  | some location, .index metadata => some (location, metadata)
  | _, _ => none

variable {world} in
theorem locate_of_document {path : ObjectPath} {location : String} {metadata : IndexMetadata}
    (hdocument : world.document path = some (location, metadata)) :
    world.warehouse.locate path false = some location := by
  unfold document at hdocument
  split at hdocument
  · rename_i found content hlocate hcontent
    obtain ⟨rfl, -⟩ : found = location ∧ content = metadata := by simpa using hdocument
    exact hlocate
  · cases hdocument

/-- The setting of a collection by a session. -/
def setting (session : SessionState) : Setting where
  crates := world.crates
  warehouse := world.warehouse
  external := session.external
  cached := fun location =>
    if session.cached location then
      (world.warehouse.managed location).map fun resolved => world.contents resolved.1
    else none
  faults := session.faults

/-- The catalog after a call at a time. -/
def catalog (tables : Tables) (timed : TimedCall) (call : CatalogCall) : Tables :=
  Catalog.next world.crates tables ⟨call, .ok timed.atMs, timed.fuse⟩

/-- The state after a call. -/
def next (state : LocalState) (timed : TimedCall) : LocalState :=
  match timed.call with
  | .upload path modifiedMs =>
      match state.store.insert? ⟨path, modifiedMs, world.contents path⟩ with
      | some store => { state with store := store }
      | none => state
  | .register identifier source document =>
      match world.document document with
      | some (location, metadata) =>
          { state with
            tables := world.catalog state.tables timed
              (.register identifier source location metadata) }
      | none => state
  | .commit identifier source base new =>
      match world.document base, world.document new with
      | some (baseLocation, baseMetadata), some (newLocation, newMetadata) =>
          { state with
            tables := world.catalog state.tables timed
              (.commit identifier source baseLocation newLocation baseMetadata newMetadata) }
      | _, _ => state
  | .drop identifier =>
      { state with tables := world.catalog state.tables timed (.drop identifier) }
  | .removeOrphans session activeRoots olderThanMs dryRun =>
      ((world.setting session).run (Maintenance.removeOrphans world.crates world.warehouse
        (.ok timed.atMs) activeRoots olderThanMs dryRun) state).2

/-- An empty catalog and an empty warehouse. -/
def initial : LocalState := ⟨createSchema, KeyedTable.empty⟩

end World

/-- The effective age limit of a collection; none for other calls. -/
def TimedCall.cutoff (timed : TimedCall) : Option ℤ :=
  match timed.call with
  | .removeOrphans _ _ olderThanMs _ => some (effectiveCutoff timed.atMs olderThanMs)
  | _ => none

/-! ## References -/

section

variable (world : World)

/-- The stored index document at a location refers to the object at a path, or is it.  Documents
do not lie below snapshot roots. -/
def RefersFrom (state : LocalState) (location : String) (path : ObjectPath) : Prop :=
  ∃ document metadata, rootPath world.crates document = none ∧
    world.document document = some (location, metadata) ∧
    (∃ object ∈ state.store, object.path = document) ∧
    ∃ references, indexMetadataReferences world.crates world.warehouse metadata = .ok references ∧
      RefersTo world.crates world.warehouse
        (ifManaged world.warehouse location ++ references) path

/-- A registered metadata document refers to the object at a path, or is it. -/
def Referenced (state : LocalState) (path : ObjectPath) : Prop :=
  ∃ row ∈ state.tables.indexes, RefersFrom world state row.metadataLocation path

/-- The location is current, or tombstoned since a time not before `since`. -/
def LiveOrBuried (tables : Tables) (location : String) (since : ℤ) : Prop :=
  (∃ row ∈ tables.indexes, row.metadataLocation = location) ∨
    ∃ tombstone ∈ tables.catalogTombstones, tombstone.metadataLocation = location ∧
      since ≤ tombstone.unreachableSinceMs

/-- An object is protected since `since`: the location of a document that refers to it is
current or tombstoned since then. -/
def ProtectedSince (state : LocalState) (since : ℤ) (path : ObjectPath) : Prop :=
  ∃ location, LiveOrBuried state.tables location since ∧ RefersFrom world state location path

/-- The stored objects have the content of their paths, and their locations lead back to them. -/
def Faithful (state : LocalState) : Prop :=
  ∀ object ∈ state.store, object.content = world.contents object.path ∧
    world.warehouse.ReadsBack object.path

variable {world}

theorem RefersFrom.mono {before after : LocalState} {location : String} {path : ObjectPath}
    (hrefers : RefersFrom world before location path)
    (hmore : ∀ object ∈ before.store, world.document object.path ≠ none → object ∈ after.store) :
    RefersFrom world after location path := by
  obtain ⟨document, metadata, houtside, hdocument, ⟨object, hobject, rfl⟩, hreferences⟩ := hrefers
  refine ⟨object.path, metadata, houtside, hdocument, ⟨object, hmore object hobject ?_, rfl⟩,
    hreferences⟩
  rw [hdocument]
  exact Option.some_ne_none _

end

/-! ## Catalog calls hand protection over -/

variable {crates : Crates} {location : String} {since now : ℤ} {after : Tables}
  {identifier : IndexIdentifier} {source : TableDefinition}

theorem liveOrBuried_of_registered {metadataLocation : String} {metadata : IndexMetadata}
    {before : Tables}
    (h : Registered crates identifier source metadataLocation metadata before after)
    (hlive : LiveOrBuried before location since) : LiveOrBuried after location since := by
  obtain ⟨new, -, rfl, -, hinsert⟩ := h.mapped
  have hrows := (KeyedTable.insert?_eq_some hinsert).2
  rcases hlive with ⟨row, hrow, hlocation⟩ | ⟨tombstone, htombstone, hlocation, hsince⟩
  · exact Or.inl ⟨row, (hrows row).mpr (Or.inr hrow), hlocation⟩
  · by_cases hsame : location = new.metadataLocation
    · exact Or.inl ⟨new, (hrows new).mpr (Or.inl rfl), hsame.symm⟩
    · refine Or.inr ⟨tombstone, ?_, hlocation, hsince⟩
      rw [h.tombstones, KeyedTable.mem_delete]
      exact ⟨htombstone, by simpa [hlocation] using hsame⟩

/-- A tombstone written now keeps a location buried. -/
private theorem upsert_buried {tombstones : KeyedTable CatalogTombstone.metadataLocation}
    {tombstone : CatalogTombstone} {written : String} (hsince : since ≤ now)
    (htombstone : tombstone ∈ tombstones) (hlocation : tombstone.metadataLocation = location)
    (hold : since ≤ tombstone.unreachableSinceMs) :
    ∃ found ∈ tombstones.upsert ⟨written, now⟩, found.metadataLocation = location ∧
      since ≤ found.unreachableSinceMs := by
  by_cases hsame : location = written
  · exact ⟨⟨written, now⟩, KeyedTable.mem_upsert.mpr (Or.inl rfl), hsame.symm, hsince⟩
  · refine ⟨tombstone, KeyedTable.mem_upsert.mpr (Or.inr ⟨htombstone, ?_⟩), hlocation, hold⟩
    rw [hlocation]
    exact hsame

/-- The row of one key changes, and its location is buried. -/
private theorem liveOrBuried_of_upsert {before : Tables} {current : IndexRow}
    {key : String × String} (hcurrent : before.indexes.find? key = some current)
    (htombstones : after.catalogTombstones =
      before.catalogTombstones.upsert ⟨current.metadataLocation, now⟩)
    (hothers : ∀ row ∈ before.indexes, row.key ≠ key → row ∈ after.indexes) (hsince : since ≤ now)
    (hlive : LiveOrBuried before location since) : LiveOrBuried after location since := by
  rcases hlive with ⟨row, hrow, hlocation⟩ | ⟨tombstone, htombstone, hlocation, hold⟩
  · by_cases hkey : row.key = key
    · obtain ⟨hmem, hcurrentKey⟩ := KeyedTable.find?_eq_some_iff.mp hcurrent
      obtain rfl := KeyedTable.eq_of_key_eq hrow hmem (hkey.trans hcurrentKey.symm)
      refine Or.inr ⟨⟨row.metadataLocation, now⟩, ?_, hlocation, hsince⟩
      rw [htombstones, KeyedTable.mem_upsert]
      exact Or.inl rfl
    · exact Or.inl ⟨row, hothers row hrow hkey, hlocation⟩
  · refine Or.inr ?_
    rw [htombstones]
    exact upsert_buried hsince htombstone hlocation hold

theorem liveOrBuried_of_committed {baseLocation newLocation : String}
    {baseMetadata newMetadata : IndexMetadata} {before : Tables}
    (h : Committed crates (.ok now) identifier source baseLocation newLocation baseMetadata
      newMetadata before after) (hsince : since ≤ now) (hlive : LiveOrBuried before location since) :
    LiveOrBuried after location since := by
  obtain ⟨time, htime, htombstones⟩ := h.tombstones
  obtain rfl : now = time := Except.ok.inj htime
  obtain ⟨current, hcurrent, rfl, -⟩ := h.current
  exact liveOrBuried_of_upsert hcurrent htombstones
    (fun row hrow hkey => h.mem_indexes.mpr (Or.inr ⟨hrow, hkey⟩)) hsince hlive

theorem liveOrBuried_of_dropped {before : Tables} (h : Dropped (.ok now) identifier before after)
    (hsince : since ≤ now) (hlive : LiveOrBuried before location since) :
    LiveOrBuried after location since := by
  obtain ⟨current, hcurrent, time, htime, htombstones⟩ := h.current
  obtain rfl : now = time := Except.ok.inj htime
  exact liveOrBuried_of_upsert hcurrent htombstones
    (fun row hrow hkey => h.mem_indexes.mpr ⟨hrow, hkey⟩) hsince hlive

/-! ## Collections keep what is protected -/

section

variable {world : World} {session : SessionState} {activeRoots : List String} {olderThanMs : ℤ}
  {before after : LocalState} {found : Survey} {mapped : List String} {path : ObjectPath}
  {metadata : IndexMetadata}

section

variable (hfaithful : Faithful world before)

include hfaithful

/-- A stored document is loaded with its content, from the cache or from the store. -/
theorem Faithful.loadMetadata {document : ObjectPath}
    (hdocument : world.document document = some (location, metadata))
    (hstored : ∃ object ∈ before.store, object.path = document) :
    (world.setting session).loadMetadata before.store location = .ok metadata := by
  obtain ⟨object, hobject, rfl⟩ := hstored
  unfold World.document at hdocument
  split at hdocument
  · rename_i found content hlocate hcontent
    obtain ⟨rfl, rfl⟩ : found = location ∧ content = metadata := by simpa using hdocument
    obtain ⟨hsame, hback⟩ := hfaithful object hobject
    have hmanaged := hback _ _ hlocate
    have hread : (world.setting session).read before.store found = .ok (.index content) := by
      have hfind := KeyedTable.find?_key hobject
      rw [hcontent] at hsame
      simp only [Setting.read, World.setting, hmanaged, hfind, hsame]
    have hcached : (world.setting session).cached found =
        if session.cached found then some (.index content) else none := by
      simp only [World.setting, hmanaged, Option.map_some, hcontent]
    unfold Setting.loadMetadata
    rw [hcached, hread]
    split <;> simp_all
  · cases hdocument

variable (hsurveyed : (world.setting session).Surveyed (.ok now) activeRoots olderThanMs before
  found mapped)

include hsurveyed

/-- What the document of a current or buried location refers to is protected from a collection
whose cutoff has not passed it. -/
theorem Setting.Surveyed.covers (hyoung : found.olderThanMs ≤ since)
    (hlive : LiveOrBuried before.tables location since) {document : ObjectPath}
    (hdocument : world.document document = some (location, metadata))
    (hstored : ∃ object ∈ before.store, object.path = document) :
    Covers world.crates world.warehouse
      (protectedReferences activeRoots mapped found.tombstones found.olderThanMs) location
      metadata := by
  have hload : (world.setting session).loadMetadata before.store location = .ok metadata :=
    hfaithful.loadMetadata hdocument hstored
  rcases hlive with ⟨row, hrow, rfl⟩ | ⟨tombstone, htombstone, rfl, hsince⟩
  · obtain ⟨loaded, hloaded, hcovers⟩ := hsurveyed.covered row hrow
    obtain rfl : metadata = loaded := Except.ok.inj (hload.symm.trans hloaded)
    refine hcovers.mono fun reference hreference => ?_
    simp [protectedReferences, hreference]
  · obtain ⟨state, hstate, rfl, -, habsent | ⟨loaded, hloaded, hcovers⟩⟩ :=
      hsurveyed.states tombstone htombstone
    · exact absurd hload (habsent metadata)
    · obtain rfl : metadata = loaded := Except.ok.inj (hload.symm.trans hloaded)
      refine hcovers.mono fun reference hreference => ?_
      have hreferences : reference ∈ youngReferences found.tombstones found.olderThanMs := by
        refine List.mem_flatMap.mpr ⟨state, List.mem_filter.mpr ⟨hstate, ?_⟩, hreference⟩
        simpa using hyoung.trans hsince
      simp [protectedReferences, hreferences]

variable (hswept : Swept (world.setting session)
  (protectedReferences activeRoots mapped found.tombstones found.olderThanMs) found before after)

include hswept

/-- An object that is deleted is named by a reference that is not protected. -/
theorem Swept.named
    {object : Object} (hobject : object ∈ before.store) (hgone : object ∉ after.store) :
    ∃ member reference, world.warehouse.locate object.path false = some member ∧
      NamedBy world.crates world.warehouse object.path member reference ∧
      reference ∉ protectedReferences activeRoots mapped found.tombstones found.olderThanMs := by
  rw [hswept.store, mem_withoutAll_iff hobject, not_not] at hgone
  obtain ⟨member, hmember, directory, hmanaged⟩ := hgone
  have hcandidate : member ∈ found.found.flatMap Candidate.members :=
    (world.setting session).deletions_subset before.store found.found member
      ((reached_initial _ _).subset hmember)
  obtain ⟨candidate, hfound, hmember⟩ := List.mem_flatMap.mp hcandidate
  have hsound := hsurveyed.candidates candidate hfound
  -- the location was written for a listed object, to which it leads back
  obtain ⟨_, ⟨other, hother, rfl⟩, hhandled⟩ := hsound.members member hmember
  obtain ⟨hlocate, hnamed⟩ := hhandled.of_readsBack (hfaithful other hother).2 hmanaged
  exact ⟨member, candidate.object.reference, hlocate, hnamed, hsound.unreachable⟩

/-- A sweep keeps protection, and the objects it is for, unless its cutoff has passed. -/
theorem Swept.keeps
    (hyoung : found.olderThanMs ≤ since) (hlive : LiveOrBuried before.tables location since)
    (hrefers : RefersFrom world before location path) :
    LiveOrBuried after.tables location since ∧ RefersFrom world after location path ∧
      ∀ object ∈ before.store, object.path = path → object ∈ after.store := by
  obtain ⟨document, metadata, houtside, hdocument, hstored, references, hreferences, hpath⟩ :=
    hrefers
  obtain ⟨references', hreferences', hcovered⟩ :=
    hsurveyed.covers hfaithful hyoung hlive hdocument hstored
  obtain rfl : references = references' := Except.ok.inj (hreferences.symm.trans hreferences')
  refine ⟨?_, ⟨document, metadata, houtside, hdocument, ?_, references, hreferences, hpath⟩, ?_⟩
  · rcases hlive with ⟨row, hrow, hlocation⟩ | ⟨tombstone, htombstone, hlocation, hsince⟩
    · exact Or.inl ⟨row, hswept.indexes ▸ hrow, hlocation⟩
    · refine Or.inr ⟨tombstone, ?_, hlocation, hsince⟩
      by_contra hgone
      have hpassed := (hswept.removed tombstone htombstone hgone).1
      omega
  · obtain ⟨object, hobject, rfl⟩ := hstored
    refine ⟨object, ?_, rfl⟩
    by_contra hgone
    obtain ⟨member, reference, hlocate, ⟨-, rfl⟩ | ⟨root, hroot, -⟩, hunprotected⟩ :=
      hswept.named hfaithful hsurveyed hobject hgone
    · have hlocation := World.locate_of_document hdocument
      obtain rfl := Option.some.inj (hlocate.symm.trans hlocation)
      refine hunprotected (hcovered _ (List.mem_append_left _ ?_))
      simp [ifManaged, (hfaithful object hobject).2 _ _ hlocate]
    · rw [houtside] at hroot
      cases hroot
  · rintro object hobject rfl
    by_contra hgone
    obtain ⟨member, reference, hlocate, hnamed, hunprotected⟩ :=
      hswept.named hfaithful hsurveyed hobject hgone
    exact hunprotected (hnamed.mem_of_refersTo hlocate (hpath.mono hcovered))

end

end

/-! ## One call -/

section

variable {world : World} {state : LocalState} {timed : TimedCall} {path : ObjectPath}
  {tables : Tables}

theorem World.liveOrBuried_catalog {call : CatalogCall}
    (hcall : match call with | .register .. | .commit .. | .drop .. => True | _ => False)
    (hsince : since ≤ timed.atMs) (hlive : LiveOrBuried tables location since) :
    LiveOrBuried (world.catalog tables timed call) location since := by
  unfold World.catalog Catalog.next
  rcases hperform : perform world.crates ⟨call, .ok timed.atMs, timed.fuse⟩ tables with
    ⟨outcome, after⟩
  cases outcome with
  | error error =>
      obtain rfl : after = tables := perform_error hperform
      exact hlive
  | ok response =>
      have hdid := perform_ok hperform
      cases call with
      | register identifier source metadataLocation metadata => exact liveOrBuried_of_registered hdid hlive
      | commit identifier source baseLocation newLocation baseMetadata newMetadata =>
          exact liveOrBuried_of_committed hdid hsince hlive
      | drop identifier => exact liveOrBuried_of_dropped hdid hsince hlive
      | _ => exact hcall.elim

/-- Only a collection changes the stored objects, uploads apart. -/
theorem World.mem_store_next (hcollection : timed.cutoff = none) {object : Object}
    (hobject : object ∈ state.store) : object ∈ (world.next state timed).store := by
  unfold World.next
  cases hcall : timed.call with
  | upload uploaded modifiedMs =>
      dsimp only
      split
      · rename_i store hinsert
        exact ((KeyedTable.insert?_eq_some hinsert).2 object).mpr (Or.inr hobject)
      · exact hobject
  | register identifier source document =>
      dsimp only
      split <;> exact hobject
  | commit identifier source base new =>
      dsimp only
      split <;> exact hobject
  | drop identifier => exact hobject
  | removeOrphans session activeRoots olderThanMs dryRun =>
      simp [TimedCall.cutoff, hcall] at hcollection

theorem World.liveOrBuried_next (hcollection : timed.cutoff = none) (hsince : since ≤ timed.atMs)
    (hlive : LiveOrBuried state.tables location since) :
    LiveOrBuried (world.next state timed).tables location since := by
  unfold World.next
  cases hcall : timed.call with
  | upload uploaded modifiedMs =>
      dsimp only
      split <;> exact hlive
  | register identifier source document =>
      dsimp only
      split
      · exact World.liveOrBuried_catalog trivial hsince hlive
      · exact hlive
  | commit identifier source base new =>
      dsimp only
      split
      · exact World.liveOrBuried_catalog trivial hsince hlive
      · exact hlive
  | drop identifier => exact World.liveOrBuried_catalog trivial hsince hlive
  | removeOrphans session activeRoots olderThanMs dryRun =>
      simp [TimedCall.cutoff, hcall] at hcollection

/-- A collection either changes nothing, or sweeps what its survey found. -/
theorem World.next_collection {cutoff : ℤ} (hcutoff : timed.cutoff = some cutoff) :
    world.next state timed = state ∨
      ∃ session activeRoots olderThanMs found mapped,
        (world.setting session).Surveyed (.ok timed.atMs) activeRoots olderThanMs state found
          mapped ∧
        found.olderThanMs = cutoff ∧
        Swept (world.setting session)
          (protectedReferences activeRoots mapped found.tombstones found.olderThanMs) found state
          (world.next state timed) := by
  unfold TimedCall.cutoff at hcutoff
  split at hcutoff
  · rename_i session activeRoots olderThanMs dryRun hcall
    obtain rfl := Option.some.inj hcutoff
    unfold World.next
    rw [hcall]
    rcases (world.setting session).run_removeOrphans (.ok timed.atMs) activeRoots olderThanMs
      dryRun state with ⟨-, hsame⟩ | ⟨-, found, mapped, -, hsurveyed, hswept⟩
    · exact Or.inl hsame
    · refine Or.inr ⟨session, activeRoots, olderThanMs, found, mapped, hsurveyed, ?_, hswept⟩
      obtain ⟨time, htime, hcutoff⟩ := hsurveyed.cutoff
      obtain rfl := Except.ok.inj htime
      exact hcutoff
  · cases hcutoff

/-- The path of an uploaded object is read back from its location. -/
def World.Uploads (world : World) (timed : TimedCall) : Prop :=
  ∀ path modifiedMs, timed.call = .upload path modifiedMs → world.warehouse.ReadsBack path

/-- Stored objects keep the content of their paths. -/
theorem Faithful.next (hfaithful : Faithful world state) (huploads : world.Uploads timed) :
    Faithful world (world.next state timed) := by
  cases hcutoff : timed.cutoff with
  | some cutoff =>
      rcases World.next_collection hcutoff with hsame | ⟨session, _, _, found, _, -, -, hswept⟩
      · rwa [hsame]
      · intro object hobject
        rw [hswept.store] at hobject
        exact hfaithful object ((world.setting session).mem_withoutAll.mp hobject).1
  | none =>
      unfold World.next
      cases hcall : timed.call with
      | upload uploaded modifiedMs =>
          dsimp only
          split
          · rename_i store hinsert
            intro object hobject
            rcases ((KeyedTable.insert?_eq_some hinsert).2 object).mp hobject with rfl | hold
            · exact ⟨rfl, huploads uploaded modifiedMs hcall⟩
            · exact hfaithful object hold
          · exact hfaithful
      | register identifier source document =>
          dsimp only
          split <;> exact hfaithful
      | commit identifier source base new =>
          dsimp only
          split <;> exact hfaithful
      | drop identifier => exact hfaithful
      | removeOrphans session activeRoots olderThanMs dryRun =>
          simp [TimedCall.cutoff, hcall] at hcutoff

/-- One call keeps protection and the protected object, unless it is a collection whose cutoff
has passed. -/
theorem ProtectedSince.next (hfaithful : Faithful world state)
    (hyoung : ∀ cutoff, timed.cutoff = some cutoff → cutoff ≤ since) (hsince : since ≤ timed.atMs)
    (hprotected : ProtectedSince world state since path) :
    ProtectedSince world (world.next state timed) since path ∧
      ∀ object ∈ state.store, object.path = path → object ∈ (world.next state timed).store := by
  obtain ⟨location, hlive, hrefers⟩ := hprotected
  cases hcutoff : timed.cutoff with
  | none =>
      have hstore : ∀ object ∈ state.store, object ∈ (world.next state timed).store :=
        fun object hobject => World.mem_store_next hcutoff hobject
      have hmore := hrefers.mono fun object hobject _ => hstore object hobject
      exact ⟨⟨location, World.liveOrBuried_next hcutoff hsince hlive, hmore⟩,
        fun object hobject _ => hstore object hobject⟩
  | some cutoff =>
      rcases World.next_collection hcutoff with
        hsame | ⟨session, activeRoots, olderThanMs, found, mapped, hsurveyed, hfound, hswept⟩
      · rw [hsame]
        exact ⟨⟨location, hlive, hrefers⟩, fun object hobject _ => hobject⟩
      · have hpassed : found.olderThanMs ≤ since := by
          rw [hfound]
          exact hyoung cutoff hcutoff
        obtain ⟨hlive', hrefers', hkept⟩ :=
          hswept.keeps hfaithful hsurveyed hpassed hlive hrefers
        exact ⟨⟨location, hlive', hrefers'⟩, hkept⟩

variable {tombstone : CatalogTombstone}

/-- Commits and drops only add tombstones, or renew them. -/
theorem World.buried_catalog (call : CatalogCall)
    (hcall : match call with | .commit .. | .drop .. => True | _ => False)
    (htombstone : tombstone ∈ tables.catalogTombstones) :
    ∃ found ∈ (world.catalog tables timed call).catalogTombstones,
      found.metadataLocation = tombstone.metadataLocation := by
  unfold World.catalog Catalog.next
  rcases hperform : perform world.crates ⟨call, .ok timed.atMs, timed.fuse⟩ tables with
    ⟨outcome, after⟩
  have hmin := min_le_right tombstone.unreachableSinceMs timed.atMs
  have hold := min_le_left tombstone.unreachableSinceMs timed.atMs
  cases outcome with
  | error error =>
      obtain rfl : after = tables := perform_error hperform
      exact ⟨tombstone, htombstone, rfl⟩
  | ok response =>
      have hdid := perform_ok hperform
      cases call with
      | commit identifier source baseLocation newLocation baseMetadata newMetadata =>
          obtain ⟨time, htime, htombstones⟩ := Committed.tombstones hdid
          obtain rfl : timed.atMs = time := Except.ok.inj htime
          obtain ⟨found, hfound, hlocation, -⟩ := upsert_buried hmin htombstone rfl hold
          exact ⟨found, htombstones ▸ hfound, hlocation⟩
      | drop identifier =>
          obtain ⟨current, -, time, htime, htombstones⟩ := Dropped.current hdid
          obtain rfl : timed.atMs = time := Except.ok.inj htime
          obtain ⟨found, hfound, hlocation, -⟩ := upsert_buried hmin htombstone rfl hold
          exact ⟨found, htombstones ▸ hfound, hlocation⟩
      | _ => exact hcall.elim

/-- How the tombstone of a location can go: the location is registered again, or a collection
whose cutoff has passed the tombstone leaves no object there. -/
theorem World.tombstone_gone (htombstone : tombstone ∈ state.tables.catalogTombstones)
    (hgone : ∀ found ∈ (world.next state timed).tables.catalogTombstones,
      found.metadataLocation ≠ tombstone.metadataLocation) :
    ((∃ identifier source document, timed.call = .register identifier source document) ∧
        ∃ row ∈ (world.next state timed).tables.indexes,
          row.metadataLocation = tombstone.metadataLocation) ∨
      ∃ cutoff, timed.cutoff = some cutoff ∧ tombstone.unreachableSinceMs < cutoff ∧
        ∃ path directory, world.warehouse.managed tombstone.metadataLocation =
          some (path, directory) ∧ (world.next state timed).store.find? path = none := by
  cases hcutoff : timed.cutoff with
  | some cutoff =>
      rcases World.next_collection hcutoff with
        hsame | ⟨session, activeRoots, olderThanMs, found, mapped, -, hfound, hswept⟩
      · rw [hsame] at hgone
        exact absurd rfl (hgone tombstone htombstone)
      · have hremoved : tombstone ∉ (world.next state timed).tables.catalogTombstones :=
          fun hkept => hgone tombstone hkept rfl
        obtain ⟨hpassed, -, habsent⟩ := hswept.removed tombstone htombstone hremoved
        exact Or.inr ⟨cutoff, rfl, hfound ▸ hpassed, habsent⟩
  | none =>
      have hburied : LiveOrBuried state.tables tombstone.metadataLocation
          (min tombstone.unreachableSinceMs timed.atMs) :=
        Or.inr ⟨tombstone, htombstone, rfl, min_le_left _ _⟩
      have hnext : LiveOrBuried (world.next state timed).tables tombstone.metadataLocation
          (min tombstone.unreachableSinceMs timed.atMs) :=
        World.liveOrBuried_next hcutoff (min_le_right _ _) hburied
      rcases hnext with
        ⟨row, hrow, hlocation⟩ | ⟨found, hfound, hlocation, -⟩
      · refine Or.inl ⟨?_, row, hrow, hlocation⟩
        -- any other call leaves a tombstone of the location behind
        unfold World.next at hgone
        cases hcall : timed.call with
        | register identifier source document => exact ⟨identifier, source, document, rfl⟩
        | upload uploaded modifiedMs =>
            rw [hcall] at hgone
            dsimp only at hgone
            split at hgone <;> exact absurd rfl (hgone tombstone htombstone)
        | commit identifier source base new =>
            rw [hcall] at hgone
            dsimp only at hgone
            split at hgone
            · obtain ⟨found, hfound, hsame⟩ :=
                World.buried_catalog (.commit identifier source _ _ _ _) trivial htombstone
              exact absurd hsame (hgone found hfound)
            · exact absurd rfl (hgone tombstone htombstone)
        | drop identifier =>
            rw [hcall] at hgone
            obtain ⟨found, hfound, hsame⟩ :=
              World.buried_catalog (.drop identifier) trivial htombstone
            exact absurd hsame (hgone found hfound)
        | removeOrphans session activeRoots olderThanMs dryRun =>
            simp [TimedCall.cutoff, hcall] at hcutoff
      · exact absurd hlocation (hgone found hfound)

end

/-! ## Whole runs -/

section

variable (world : World) (calls : List TimedCall)

/-- The state before the call at a position of a run, the last state for its length. -/
def World.before (position : ℕ) : LocalState :=
  (calls.take position).foldl world.next World.initial

/-- The call at a position removes an object at a path. -/
def World.Deletes (position : ℕ) (path : ObjectPath) : Prop :=
  ∃ object ∈ (world.before calls position).store, object.path = path ∧
    object ∉ (world.before calls (position + 1)).store

/-- No object is deleted before the cutoff of some collection has passed the time at which a
registered document last referred to it, which takes at least the minimum retention. -/
def RetainsReferenced : Prop :=
  ∀ last (hlast : last < calls.length) first (hfirst : first ≤ last) path,
    Referenced world (world.before calls first) path → world.Deletes calls last path →
      ∃ position, ∃ hposition : position ≤ last, first ≤ position ∧
        ∃ cutoff, calls[position].cutoff = some cutoff ∧ calls[first].atMs < cutoff ∧
          (-(2 ^ 63) ≤ calls[first].atMs →
            calls[first].atMs + minimumRetentionMs < calls[position].atMs)

/-- A tombstone goes only when its location is registered again, or in a collection whose cutoff
has passed it and after which there is no object at its location. -/
def KeepsTombstones : Prop :=
  ∀ position (hposition : position < calls.length),
    ∀ tombstone ∈ (world.before calls position).tables.catalogTombstones,
      (∀ found ∈ (world.before calls (position + 1)).tables.catalogTombstones,
        found.metadataLocation ≠ tombstone.metadataLocation) →
      ((∃ identifier source document, calls[position].call = .register identifier source document) ∧
        ∃ row ∈ (world.before calls (position + 1)).tables.indexes,
          row.metadataLocation = tombstone.metadataLocation) ∨
      ∃ cutoff, calls[position].cutoff = some cutoff ∧ tombstone.unreachableSinceMs < cutoff ∧
        ∃ path directory, world.warehouse.managed tombstone.metadataLocation =
          some (path, directory) ∧ (world.before calls (position + 1)).store.find? path = none

/-- A collection deletes nothing that the document of a tombstone refers to unless its cutoff
has passed the tombstone. -/
def ProtectsBuried : Prop :=
  ∀ position (hposition : position < calls.length) cutoff,
    calls[position].cutoff = some cutoff →
    ∀ tombstone ∈ (world.before calls position).tables.catalogTombstones,
      cutoff ≤ tombstone.unreachableSinceMs →
      ∀ path, RefersFrom world (world.before calls position) tombstone.metadataLocation path →
        ¬ world.Deletes calls position path

variable {world calls} {position : ℕ}

theorem World.before_succ (hposition : position < calls.length) :
    world.before calls (position + 1) =
      world.next (world.before calls position) calls[position] := by
  unfold World.before
  rw [List.take_succ_eq_append_getElem hposition, List.foldl_append]
  rfl

theorem World.before_faithful (huploads : ∀ timed ∈ calls, world.Uploads timed) (position : ℕ)
    (hposition : position ≤ calls.length) : Faithful world (world.before calls position) := by
  induction position with
  | zero =>
      intro object hobject
      cases hobject
  | succ position ih =>
      rw [World.before_succ hposition]
      exact (ih (by omega)).next (huploads _ (List.getElem_mem hposition))

/-- A cutoff is at least seven days behind the clock. -/
theorem TimedCall.retains_of_cutoff {timed : TimedCall} {cutoff time : ℤ}
    (hcutoff : timed.cutoff = some cutoff) (hrange : -(2 ^ 63) ≤ time) (hpassed : time < cutoff) :
    time + minimumRetentionMs < timed.atMs := by
  unfold TimedCall.cutoff at hcutoff
  split at hcutoff
  · obtain rfl := Option.some.inj hcutoff
    unfold effectiveCutoff saturateI64 at hpassed
    omega
  · cases hcutoff

/-- Until the cutoff of some collection has passed, protection lasts. -/
theorem World.protected_before
    (hclocks : calls.Pairwise fun earlier later => earlier.atMs ≤ later.atMs)
    (huploads : ∀ timed ∈ calls, world.Uploads timed) {first : ℕ}
    (hfirst : first < calls.length) {path : ObjectPath}
    (hreferenced : Referenced world (world.before calls first) path) (hle : first ≤ position)
    (hposition : position ≤ calls.length) :
    ProtectedSince world (world.before calls position) calls[first].atMs path ∨
      ∃ collection, ∃ hcollection : collection < position, first ≤ collection ∧
        ∃ cutoff, calls[collection].cutoff = some cutoff ∧ calls[first].atMs < cutoff := by
  induction position, hle using Nat.le_induction with
  | base =>
      obtain ⟨row, hrow, hrefers⟩ := hreferenced
      exact Or.inl ⟨row.metadataLocation, Or.inl ⟨row, hrow, rfl⟩, hrefers⟩
  | succ position hle ih =>
      have hlt : position < calls.length := hposition
      rcases ih hlt.le with hprotected | ⟨collection, hcollection, hfound⟩
      · by_cases hpassed : ∃ cutoff, calls[position].cutoff = some cutoff ∧
            calls[first].atMs < cutoff
        · exact Or.inr ⟨position, Nat.lt_succ_self position, hle, hpassed⟩
        · have hyoung : ∀ cutoff, calls[position].cutoff = some cutoff →
              cutoff ≤ calls[first].atMs := by
            intro cutoff hcutoff
            by_contra hnot
            exact hpassed ⟨cutoff, hcutoff, not_le.mp hnot⟩
          have hsince : calls[first].atMs ≤ calls[position].atMs := by
            rcases hle.eq_or_lt with rfl | hbefore
            · exact le_rfl
            · exact List.pairwise_iff_getElem.mp hclocks first position hfirst hlt hbefore
          rw [World.before_succ hlt]
          exact Or.inl (hprotected.next (World.before_faithful huploads position hlt.le) hyoung
            hsince).1
      · exact Or.inr ⟨collection, by omega, hfound⟩

theorem World.retainsReferenced
    (hclocks : calls.Pairwise fun earlier later => earlier.atMs ≤ later.atMs)
    (huploads : ∀ timed ∈ calls, world.Uploads timed) :
    RetainsReferenced world calls := by
  intro last hlast first hfirst path hreferenced hdeletes
  suffices hfound : ∃ collection, ∃ hcollection : collection ≤ last, first ≤ collection ∧
      ∃ cutoff, calls[collection].cutoff = some cutoff ∧ calls[first].atMs < cutoff by
    obtain ⟨collection, hcollection, hle, cutoff, hcutoff, hpassed⟩ := hfound
    exact ⟨collection, hcollection, hle, cutoff, hcutoff, hpassed,
      fun hrange => TimedCall.retains_of_cutoff hcutoff hrange hpassed⟩
  rcases World.protected_before hclocks huploads (by omega) hreferenced hfirst hlast.le with
    hprotected | ⟨collection, hcollection, hfound⟩
  · by_contra hnone
    have hyoung : ∀ cutoff, calls[last].cutoff = some cutoff → cutoff ≤ calls[first].atMs := by
      intro cutoff hcutoff
      by_contra hnot
      exact hnone ⟨last, le_rfl, hfirst, cutoff, hcutoff, not_le.mp hnot⟩
    have hsince : calls[first].atMs ≤ calls[last].atMs := by
      rcases hfirst.eq_or_lt with rfl | hbefore
      · exact le_rfl
      · exact List.pairwise_iff_getElem.mp hclocks first last (by omega) hlast hbefore
    obtain ⟨object, hobject, hpath, hgone⟩ := hdeletes
    rw [World.before_succ hlast] at hgone
    exact hgone ((hprotected.next (World.before_faithful huploads last hlast.le) hyoung hsince).2
      object hobject hpath)
  · exact ⟨collection, hcollection.le, hfound⟩

theorem World.keepsTombstones : KeepsTombstones world calls := by
  intro position hposition tombstone htombstone hgone
  rw [World.before_succ hposition] at hgone ⊢
  exact World.tombstone_gone htombstone hgone

theorem World.protectsBuried (huploads : ∀ timed ∈ calls, world.Uploads timed) :
    ProtectsBuried world calls := by
  rintro position hposition cutoff hcutoff tombstone htombstone hyoung path hrefers
    ⟨object, hobject, hpath, hgone⟩
  rw [World.before_succ hposition] at hgone
  rcases World.next_collection hcutoff with
    hsame | ⟨session, activeRoots, olderThanMs, found, mapped, hsurveyed, hfound, hswept⟩
  · rw [hsame] at hgone
    exact hgone hobject
  · have hfaithful : Faithful world (world.before calls position) :=
      World.before_faithful huploads position hposition.le
    have hburied : LiveOrBuried (world.before calls position).tables tombstone.metadataLocation
        tombstone.unreachableSinceMs := Or.inr ⟨tombstone, htombstone, rfl, le_rfl⟩
    have hkept := hswept.keeps hfaithful hsurveyed (hfound ▸ hyoung) hburied hrefers
    exact hgone (hkept.2.2 object hobject hpath)

/-- **Orphan retention.**  In every run with non-decreasing clocks, of objects whose locations
lead back to them, objects outlive their last reference until a cutoff has passed it, tombstones go
only with their object or when their location becomes current, and young tombstones protect what
they refer to. -/
theorem orphan_retention (world : World) (calls : List TimedCall)
    (hclocks : calls.Pairwise fun earlier later => earlier.atMs ≤ later.atMs)
    (huploads : ∀ timed ∈ calls, world.Uploads timed) :
    RetainsReferenced world calls ∧ KeepsTombstones world calls ∧ ProtectsBuried world calls :=
  ⟨World.retainsReferenced hclocks huploads, World.keepsTombstones,
    World.protectsBuried huploads⟩

end

/-! ## An interrupted collection, and a location registered again -/

section

def indexDocument : ObjectPath :=
  ["metadata", "00000000-0000-4000-8000-0000000000aa", "v1.metadata.json"]

/-- An object whose name in a URI is read as that of `indexDocument`. -/
def aliasDocument : ObjectPath :=
  ["metadata", "00000000-0000-4000-8000-0000000000aa", "v%31.metadata.json"]

/-- A document below a snapshot root. -/
def misplacedDocument : ObjectPath :=
  ["indexes", "000000000000400080000000000000dd", "1", "v1.metadata.json"]

/-- One index document, and the centroid document it refers to. -/
def sampleWorld : World where
  crates := sampleCrates
  warehouse := fileWarehouse
  contents := fun path =>
    if path = indexDocument ∨ path = misplacedDocument then .index sampleMetadata
    else if path = centroidDocument.path then .centroids centroidMetadata
    else .data

/-- The same objects, with the URL parser and the registry in place. -/
def urlWorld : World := { sampleWorld with warehouse := Addressing.fileOpened.names }

/-- A session that reads every document, and whose deletion of one location fails. -/
def failingAt (location : Option String) : SessionState where
  external := fun _ => none
  cached := fun _ => false
  faults := fun deleted => if location = some deleted then some false else none

/-- The index is dropped at 3000.  Seven days and a second later a collection deletes the index
document and stops at the centroid document, and one with the longer retention that ends
at 2000 follows. -/
def interruptedRun : List TimedCall :=
  [⟨1000, .upload centroidDocument.path 1000, none⟩,
   ⟨1000, .upload indexDocument 1000, none⟩,
   ⟨2000, .register sampleIdentifier sampleSource indexDocument, none⟩,
   ⟨3000, .drop sampleIdentifier, none⟩,
   ⟨604804000, .removeOrphans (failingAt readyCentroids.metadataLocation) [] 604804000 false, none⟩,
   ⟨604804000, .removeOrphans (failingAt none) [] 2000 false, none⟩]

/-- The dropped location is registered again. -/
def registeredAgain : List TimedCall :=
  [⟨1000, .upload indexDocument 1000, none⟩,
   ⟨2000, .register sampleIdentifier sampleSource indexDocument, none⟩,
   ⟨3000, .drop sampleIdentifier, none⟩,
   ⟨4000, .register sampleIdentifier sampleSource indexDocument, none⟩]

/-- A collection meets the alias of a registered document. -/
def aliasedRun : List TimedCall :=
  [⟨1000, .upload indexDocument 1000, none⟩,
   ⟨1000, .upload aliasDocument 1000, none⟩,
   ⟨2000, .register sampleIdentifier sampleSource indexDocument, none⟩,
   ⟨604804000, .removeOrphans (failingAt none) [] 4000 false, none⟩]

/-- A collection finds a registered document among index data. -/
def misplacedRun : List TimedCall :=
  [⟨1000, .upload misplacedDocument 1000, none⟩,
   ⟨2000, .register sampleIdentifier sampleSource misplacedDocument, none⟩,
   ⟨604804000, .removeOrphans (failingAt none) [] 4000 false, none⟩]

theorem centroidDocument_referenced :
    Referenced sampleWorld (sampleWorld.before interruptedRun 3) centroidDocument.path := by
  have hbefore : (sampleWorld.before interruptedRun 3).tables.indexes.rows.map
        IndexRow.metadataLocation = [firstLocation] ∧
      (sampleWorld.before interruptedRun 3).store.rows.map Object.path =
        [indexDocument, centroidDocument.path] := by decide +kernel
  have hrow : firstLocation ∈ (sampleWorld.before interruptedRun 3).tables.indexes.rows.map
      IndexRow.metadataLocation := by
    rw [hbefore.1]
    exact List.mem_cons_self
  have hstored : indexDocument ∈
      (sampleWorld.before interruptedRun 3).store.rows.map Object.path := by
    rw [hbefore.2]
    exact List.mem_cons_self
  have hreferences : indexMetadataReferences sampleCrates fileWarehouse sampleMetadata =
      .ok ["file:///w/metadata/00000000-0000-4000-8000-0000000000cc/v1.metadata.json",
        "file:///w/indexes/000000000000400080000000000000cc/1/",
        "file:///w/indexes/000000000000400080000000000000aa/7/"] := by decide +kernel
  obtain ⟨row, hmem, hlocation⟩ := List.mem_map.mp hrow
  refine ⟨row, hmem, ?_⟩
  rw [hlocation]
  refine ⟨indexDocument, sampleMetadata, by decide +kernel, by decide +kernel,
    List.mem_map.mp hstored, _, hreferences, Or.inl ⟨by decide +kernel,
      "file:///w/metadata/00000000-0000-4000-8000-0000000000cc/v1.metadata.json",
      List.mem_append_right _ List.mem_cons_self, by decide +kernel⟩⟩

/-- An object of a run is gone after a call. -/
theorem World.deletes_of_paths {world : World} {calls : List TimedCall} {position : ℕ}
    {path : ObjectPath} {stored kept : List ObjectPath}
    (hpaths : (world.before calls position).store.rows.map Object.path = stored ∧
      (world.before calls (position + 1)).store.rows.map Object.path = kept)
    (hstored : path ∈ stored) (hgone : path ∉ kept) : world.Deletes calls position path := by
  obtain ⟨rfl, rfl⟩ := hpaths
  obtain ⟨object, hobject, rfl⟩ := List.mem_map.mp hstored
  exact ⟨object, hobject, rfl, fun hkept => hgone (List.mem_map_of_mem hkept)⟩

theorem interruptedRun_paths :
    (sampleWorld.before interruptedRun 5).store.rows.map Object.path = [centroidDocument.path] ∧
      (sampleWorld.before interruptedRun (5 + 1)).store.rows.map Object.path = [] := by
  decide +kernel

theorem aliasedRun_states :
    (urlWorld.before aliasedRun 3).store.rows.map Object.path =
        [aliasDocument, indexDocument] ∧
      (urlWorld.before aliasedRun (3 + 1)).store.rows.map Object.path = [aliasDocument] ∧
      (urlWorld.before aliasedRun 4).tables.indexes.rows.map IndexRow.metadataLocation =
        [firstLocation] := by
  decide +kernel

theorem misplacedRun_states :
    (sampleWorld.before misplacedRun 2).store.rows.map Object.path = [misplacedDocument] ∧
      (sampleWorld.before misplacedRun (2 + 1)).store.rows.map Object.path = [] ∧
      (sampleWorld.before misplacedRun 3).tables.indexes.rows.map IndexRow.metadataLocation =
        ["file:///w/indexes/000000000000400080000000000000dd/1/v1.metadata.json"] := by
  decide +kernel

/-- The second collection, whose cutoff is 2000, deletes the centroid document that was
referenced until 3000; and a registration removes a tombstone whose object is there.  A document
that is registered is deleted under the name of another object, and as index data. -/
theorem early_deletion_and_lost_tombstone :
    (interruptedRun.Pairwise (fun earlier later => earlier.atMs ≤ later.atMs) ∧
      Referenced sampleWorld (sampleWorld.before interruptedRun 3) centroidDocument.path ∧
      interruptedRun.map TimedCall.cutoff = [none, none, none, none, some 4000, some 2000] ∧
      interruptedRun.map TimedCall.atMs = [1000, 1000, 2000, 3000, 604804000, 604804000] ∧
      sampleWorld.Deletes interruptedRun 5 centroidDocument.path) ∧
    ((sampleWorld.before registeredAgain 3).tables.catalogTombstones.rows =
        [⟨firstLocation, 3000⟩] ∧
      (sampleWorld.before registeredAgain 4).tables.catalogTombstones.rows = [] ∧
      (sampleWorld.before registeredAgain 4).store.rows.map Object.path = [indexDocument]) ∧
    (urlWorld.Deletes aliasedRun 3 indexDocument ∧
      (urlWorld.before aliasedRun 4).tables.indexes.rows.map IndexRow.metadataLocation =
        [firstLocation]) ∧
    sampleWorld.Deletes misplacedRun 2 misplacedDocument ∧
      (sampleWorld.before misplacedRun 3).tables.indexes.rows.map IndexRow.metadataLocation =
        ["file:///w/indexes/000000000000400080000000000000dd/1/v1.metadata.json"] := by
  refine ⟨⟨by decide, centroidDocument_referenced, by decide, by decide, ?_⟩, by decide +kernel,
    ⟨?_, aliasedRun_states.2.2⟩, ?_, misplacedRun_states.2.2⟩
  · exact World.deletes_of_paths interruptedRun_paths (by decide) (by decide)
  · exact World.deletes_of_paths ⟨aliasedRun_states.1, aliasedRun_states.2.1⟩ (by decide) (by decide)
  · exact World.deletes_of_paths ⟨misplacedRun_states.1, misplacedRun_states.2.1⟩ (by decide)
      (by decide)

/-- The run with the interrupted collection has non-decreasing clocks. -/
theorem interruptedRun_retention :
    interruptedRun.Pairwise (fun earlier later => earlier.atMs ≤ later.atMs) ∧
      RetainsReferenced sampleWorld interruptedRun ∧ KeepsTombstones sampleWorld interruptedRun ∧
      ProtectsBuried sampleWorld interruptedRun := by
  have hclocks : interruptedRun.Pairwise fun earlier later => earlier.atMs ≤ later.atMs := by
    decide
  refine ⟨hclocks, orphan_retention sampleWorld interruptedRun hclocks ?_⟩
  intro timed htimed path modifiedMs hcall
  refine fileWarehouse_readsBack path ?_
  simp only [interruptedRun, List.mem_cons, List.not_mem_nil, or_false] at htimed
  rcases htimed with rfl | rfl | rfl | rfl | rfl | rfl <;> cases hcall <;> decide

end

end ParqDB.Maintenance
