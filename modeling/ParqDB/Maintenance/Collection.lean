import ParqDB.Maintenance.Contract

/-!
# A collection run in one go

The exclusive session lock keeps catalog mappings and other collections away from a
running `remove_orphans`.  This module runs the program against the catalog tables and
the object store and says exactly what it deletes and purges.

**Results.**

* Everything up to the first deletion only reads, so the second look at the mapped
  documents finds what the first one found.
* The members of the candidates that are verified or still old are deleted in order, up to the
  first deletion that fails (`Setting.deletions`, `reached`).
* Only if none fails are catalog rows purged.
-/

namespace ParqDB.Maintenance

open Foundations Meta Storage Catalog

/-! ## The environment of a call -/

/-- The catalog and the objects of one warehouse. -/
structure LocalState where
  tables : Tables
  store : Store

/-- What a collection meets besides the state: the crates and the warehouse, documents outside
the warehouse, the session's metadata cache, and the deletions that fail, each with whether
the object was removed before the failure. -/
structure Setting where
  crates : Crates
  warehouse : Warehouse
  external : String → Option Content
  cached : String → Option Content
  faults : String → Option Bool

/-- `ORDER BY` two text columns. -/
def keyLe (left right : String × String) : Prop :=
  left.1 < right.1 ∨ left.1 = right.1 ∧ left.2 ≤ right.2

instance : DecidableRel keyLe := fun left right =>
  inferInstanceAs (Decidable (left.1 < right.1 ∨ left.1 = right.1 ∧ left.2 ≤ right.2))

/-- A ready row as an entry; a ready row without artifact or document cannot be read. -/
def readyEntry (row : CentroidRow) : Except MaintenanceError IvfCentroidsCatalogEntry :=
  match row.artifactUuid, row.metadataLocation with
  | some artifactUuid, some metadataLocation =>
      .ok ⟨row.sourceIdentity, row.fingerprint, artifactUuid, metadataLocation⟩
  | _, _ => .error (.catalog .sqlite)

/-- `list_ivf_centroids`. -/
def readyEntries (tables : Tables) : Except MaintenanceError (List IvfCentroidsCatalogEntry) :=
  ((tables.ivfCentroidArtifacts.rows.filter fun row => row.state = .ready).insertionSort
    fun left right => keyLe left.key right.key).mapM readyEntry

namespace Setting

variable (setting : Setting)

/-- Reads an absolute location. -/
def read (store : Store) (location : String) : Except MaintenanceError Content :=
  match setting.warehouse.managed location with
  | some (path, _) =>
      match store.find? path with
      | some object => .ok object.content
      | none => .error (.notFound location)
  | none =>
      match setting.external location with
      | some content => .ok content
      | none => .error (.notFound location)

/-- Loads and decodes one index document. -/
def loadMetadata (store : Store) (location : String) : Except MaintenanceError IndexMetadata :=
  match setting.cached location with
  | some (.index metadata) => .ok metadata
  | _ =>
      match setting.read store location with
      | .ok (.index metadata) => .ok metadata
      | .ok _ => .error (.invalidMetadata location)
      | .error error => .error error

/-- Loads and decodes one centroid document. -/
def loadIvfCentroids (store : Store) (location : String) :
    Except MaintenanceError IvfCentroidsMetadata :=
  match setting.cached location with
  | some (.centroids metadata) => .ok metadata
  | _ =>
      match setting.read store location with
      | .ok (.centroids metadata) => .ok metadata
      | .ok _ => .error (.invalidMetadata location)
      | .error error => .error error

/-- The modification time of a managed object. -/
def head (store : Store) (location : String) : Except MaintenanceError ℤ :=
  match setting.warehouse.managed location with
  | none => .error (.invalidLocation location)
  | some (path, _) =>
      match store.find? path with
      | some object => .ok object.modifiedMs
      | none => .error (.notFound location)

/-- The store without the object at a location. -/
def without (store : Store) (location : String) : Store :=
  store.delete fun object =>
    (setting.warehouse.managed location).any fun resolved => resolved.1 = object.path

/-- Deletes a managed object. -/
def delete (store : Store) (location : String) : Except MaintenanceError Unit × Store :=
  match setting.warehouse.managed location with
  | none => (.error (.invalidLocation location), store)
  | some (path, _) =>
      match setting.faults location with
      | some applied =>
          (.error (.storage location), if applied then setting.without store location else store)
      | none =>
          if (store.find? path).isSome then (.ok (), setting.without store location)
          else (.error (.notFound location), store)

/-- Answers one operation of a collection. -/
def respond : (operation : Operation) → LocalState → operation.Response × LocalState
  | .listTombstones, state =>
      (.ok (state.tables.catalogTombstones.rows.insertionSort fun left right =>
        left.metadataLocation ≤ right.metadataLocation), state)
  | .listAll, state =>
      (.ok ((state.tables.indexes.rows.map IndexRow.key).insertionSort keyLe), state)
  | .load key, state =>
      (match state.tables.indexes.find? key with
        | some row => .ok row
        | none => .error (.catalog (.implementation "index not found")), state)
  | .listIvfCentroids, state => (readyEntries state.tables, state)
  | .loadMetadata location, state => (setting.loadMetadata state.store location, state)
  | .loadIvfCentroids location, state => (setting.loadIvfCentroids state.store location, state)
  | .list directory, state =>
      (.ok ((state.store.rows.filter fun object => object.path.head? = some directory).map
        fun object => (object.path, object.modifiedMs)), state)
  | .head location, state => (setting.head state.store location, state)
  | .delete location, state =>
      let deleted := setting.delete state.store location
      (deleted.1, { state with store := deleted.2 })
  | .invalidate _, state => ((), state)
  | .purgeTombstone tombstone, state =>
      let purged := Sql.call (Catalog.purgeTombstone tombstone) none state.tables
      (purged.1.mapError .catalog, { state with tables := purged.2 })
  | .purgeIvfCentroids entry, state =>
      let purged := Sql.call (Catalog.purgeIvfCentroids entry) none state.tables
      (purged.1.mapError .catalog, { state with tables := purged.2 })

end Setting

variable {setting : Setting}

/-- Runs a maintenance program on a state. -/
def Setting.run {α : Type} (setting : Setting) (program : Collect α) (state : LocalState) :
    Except MaintenanceError α × LocalState :=
  program.run setting.respond state

/-! ## Everything before the first deletion only reads -/

/-- The answers of a fixed state. -/
def Setting.Answers (setting : Setting) (state : LocalState) (operation : Operation)
    (response : operation.Response) : Prop :=
  response = (setting.respond operation state).1

/-- The index document a location is read as. -/
def Setting.Document (setting : Setting) (state : LocalState) (location : String)
    (metadata : IndexMetadata) : Prop :=
  setting.loadMetadata state.store location = .ok metadata

/-- No index document is read at the location. -/
def Setting.Absent (setting : Setting) (state : LocalState) (location : String) : Prop :=
  ∀ metadata, ¬ setting.Document state location metadata

/-- An object is listed at the path. -/
def LocalState.Listed (state : LocalState) (path : ObjectPath) : Prop :=
  ∃ object ∈ state.store, object.path = path

theorem Setting.respond_reads (setting : Setting) (state : LocalState) (operation : Operation)
    (hreads : operation.Reads) : (setting.respond operation state).2 = state := by
  cases operation with
  | delete location => exact hreads.elim
  | purgeTombstone tombstone => exact hreads.elim
  | purgeIvfCentroids entry => exact hreads.elim
  | _ => rfl

theorem Setting.answering (setting : Setting) (state : LocalState) :
    Answering (setting.Answers state) state.tables.indexes state.tables.catalogTombstones.rows
      (setting.Document state) (setting.Absent state) state.Listed where
  listAll := by
    intro keys hkeys row hrow
    cases hkeys
    exact (List.mem_insertionSort _).mpr (List.mem_map.mpr ⟨row, hrow, rfl⟩)
  load := by
    intro key row hrow
    simp only [Answers, respond] at hrow
    cases hfound : state.tables.indexes.find? key with
    | none =>
        rw [hfound] at hrow
        cases hrow
    | some found =>
        rw [hfound] at hrow
        cases hrow
        rfl
  listTombstones := by
    intro found hfound tombstone htombstone
    cases hfound
    exact (List.mem_insertionSort _).mpr htombstone
  loaded := by
    intro location metadata hloaded
    exact hloaded.symm
  missing := by
    intro location error herror metadata hdocument
    have hsame : Except.error error = Except.ok metadata := Eq.trans herror hdocument
    cases hsame
  list := by
    intro directory objects hobjects pair hpair
    cases hobjects
    obtain ⟨object, hobject, rfl⟩ := List.mem_map.mp hpair
    exact ⟨object, (List.mem_filter.mp hobject).1, rfl⟩

variable {state : LocalState} {activeRoots : List String} {olderThanMs : ℤ} {α : Type}
  {clock : Clock} {found : Survey} {location : String} {object : Object}

/-- A program whose contract allows it to read only leaves the state alone. -/
theorem Setting.run_of_meets {post : α → Prop} {program : Collect α}
    (hmeets : Program.Meets Operation.Reads (setting.Answers state) post program) :
    (setting.run program state).2 = state ∧
      ∀ value, (setting.run program state).1 = .ok value → post value := by
  refine hmeets.run_reads fun operation hreads => ?_
  exact ⟨rfl, setting.respond_reads state operation hreads⟩

/-- What a survey that succeeded found. -/
structure Setting.Surveyed (setting : Setting) (clock : Clock) (activeRoots : List String)
    (olderThanMs : ℤ) (state : LocalState) (found : Survey) (mapped : List String) : Prop where
  cutoff : ∃ now, clock = .ok now ∧ found.olderThanMs = effectiveCutoff now olderThanMs
  reachable : setting.run (reachableLocations setting.crates setting.warehouse) state =
    (.ok mapped, state)
  covered : CoversMapped setting.crates setting.warehouse state.tables.indexes
    (setting.Document state) mapped
  states : CoversTombstones setting.crates setting.warehouse state.tables.catalogTombstones.rows
    (setting.Document state) (setting.Absent state) found.tombstones
  candidates : ∀ candidate ∈ found.found,
    candidate.Sound setting.crates setting.warehouse state.Listed
      (protectedReferences activeRoots mapped found.tombstones found.olderThanMs)

/-- The survey only reads. -/
theorem Setting.run_survey (setting : Setting) (clock : Clock) (activeRoots : List String)
    (olderThanMs : ℤ) (state : LocalState) :
    (setting.run (survey setting.crates setting.warehouse clock activeRoots olderThanMs) state).2 =
      state :=
  (setting.run_of_meets (meets_survey (fun _ hreads => hreads) (setting.answering state)
    olderThanMs)).1

theorem Setting.surveyed
    (hsurvey : (setting.run (survey setting.crates setting.warehouse clock activeRoots olderThanMs)
      state).1 = .ok found) :
    ∃ mapped, setting.Surveyed clock activeRoots olderThanMs state found mapped := by
  have hreads : ∀ operation : Operation, operation.Reads → operation.Reads := fun _ h => h
  have hrun : setting.run
      (survey setting.crates setting.warehouse clock activeRoots olderThanMs) state =
      (.ok found, state) := Prod.ext hsurvey (setting.run_survey clock activeRoots olderThanMs state)
  obtain ⟨⟨now, hclock, hcutoff⟩, -⟩ := (setting.run_of_meets (meets_survey hreads
    (setting.answering state) olderThanMs)).2 found hsurvey
  obtain ⟨now', first, hnow, hrest⟩ := Program.run_bind_eq_ok hrun
  obtain ⟨tombstones, second, htombstones, hrest⟩ := Program.run_bind_eq_ok hrest
  obtain ⟨mapped, third, hmapped, hrest⟩ := Program.run_bind_eq_ok hrest
  obtain ⟨listed, fourth, hlisted, hrest⟩ := Program.run_bind_eq_ok hrest
  cases hrest
  -- none of the parts changed the state
  have hfirst : first = state := by
    subst hclock
    exact (congrArg Prod.snd hnow).symm
  subst hfirst
  have htombstonesRun := setting.run_of_meets (meets_tombstoneReferences setting.crates
    setting.warehouse hreads (setting.answering first))
  obtain rfl : second = first := (congrArg Prod.snd htombstones).symm.trans htombstonesRun.1
  have hmappedRun := setting.run_of_meets (meets_reachableLocations setting.crates
    setting.warehouse hreads (setting.answering second))
  obtain rfl : third = second := (congrArg Prod.snd hmapped).symm.trans hmappedRun.1
  refine ⟨mapped, ⟨now, hclock, hcutoff⟩, hmapped, ?_, ?_, ?_⟩
  · exact hmappedRun.2 mapped (congrArg Prod.fst hmapped)
  · exact htombstonesRun.2 tombstones (congrArg Prod.fst htombstones)
  · intro candidate hcandidate
    exact (setting.run_of_meets (meets_candidates hreads (setting.answering third) _ _ _)).2
      listed (congrArg Prod.fst hlisted) candidate (mem_sortCandidates.mp hcandidate)

/-! ## Deletions -/

theorem Setting.mem_without {store : Store} :
    object ∈ setting.without store location ↔
      object ∈ store ∧ ∀ directory, setting.warehouse.managed location ≠
        some (object.path, directory) := by
  unfold without
  rw [KeyedTable.mem_delete]
  refine and_congr_right fun _ => ?_
  cases hmanaged : setting.warehouse.managed location with
  | none => simp
  | some resolved =>
      obtain ⟨path, directory⟩ := resolved
      simp

theorem Setting.without_of_absent {store : Store} {path : ObjectPath} {directory : Bool}
    (hmanaged : setting.warehouse.managed location = some (path, directory))
    (habsent : store.find? path = none) : setting.without store location = store := by
  apply KeyedTable.ext
  refine List.filter_eq_self.mpr fun object hobject => ?_
  have hother := KeyedTable.find?_eq_none_iff.mp habsent object hobject
  simp [hmanaged, Ne.symm hother]

theorem Setting.run_delete_bind (member : String) (rest : Except MaintenanceError Unit → Collect α)
    (state : LocalState) :
    setting.run (Await.delete member >>= rest) state =
      setting.run (rest (setting.delete state.store member).1)
        { state with store := (setting.delete state.store member).2 } :=
  rfl

theorem Setting.run_head_bind (location : String) (rest : Except MaintenanceError ℤ → Collect α)
    (state : LocalState) :
    setting.run (Await.head location >>= rest) state =
      setting.run (rest (setting.head state.store location)) state :=
  rfl

theorem Setting.run_deleteMember {member : String}
    (hmanaged : (setting.warehouse.managed member).isSome) (kind : MaintenanceKind)
    (state : LocalState) :
    setting.run (deleteMember kind member) state =
      match setting.faults member with
      | none => (.ok (), { state with store := setting.without state.store member })
      | some applied => (.error (.storage member),
          { state with
            store := if applied then setting.without state.store member else state.store }) := by
  obtain ⟨⟨path, directory⟩, hresolved⟩ := Option.isSome_iff_exists.mp hmanaged
  have hdelete : setting.delete state.store member =
      match setting.faults member with
      | some applied => (.error (.storage member),
          if applied then setting.without state.store member else state.store)
      | none =>
          if (state.store.find? path).isSome then (.ok (), setting.without state.store member)
          else (.error (.notFound member), state.store) := by
    simp only [delete, hresolved]
  have hdone : ∀ after : LocalState, Program.run setting.respond
      (if kind = .metadata then Await.invalidate member else pure ()) after = (.ok (), after) := by
    intro after
    split <;> rfl
  rw [deleteMember, run_delete_bind, hdelete]
  cases setting.faults member with
  | some applied => rfl
  | none =>
      cases hfound : state.store.find? path with
      | some object => exact hdone _
      | none =>
          rw [setting.without_of_absent hresolved hfound]
          exact hdone _

/-- The deletions that take effect, up to the first one that fails. -/
def reached (faults : String → Option Bool) : List String → List String
  | [] => []
  | member :: members =>
      match faults member with
      | none => member :: reached faults members
      | some true => [member]
      | some false => []

/-- The store without the objects at some locations. -/
def Setting.withoutAll (setting : Setting) (store : Store) (locations : List String) : Store :=
  locations.foldl setting.without store

theorem Setting.mem_withoutAll {store : Store} {locations : List String} :
    object ∈ setting.withoutAll store locations ↔
      object ∈ store ∧ ∀ location ∈ locations, ∀ directory,
        setting.warehouse.managed location ≠ some (object.path, directory) := by
  induction locations generalizing store with
  | nil => simp [withoutAll]
  | cons location locations ih =>
      have hstep : setting.withoutAll store (location :: locations) =
          setting.withoutAll (setting.without store location) locations := rfl
      rw [hstep, ih, mem_without]
      simp only [List.forall_mem_cons, and_assoc]

theorem reached_initial (faults : String → Option Bool) (members : List String) :
    reached faults members <+: members := by
  induction members with
  | nil => exact List.prefix_rfl
  | cons member members ih =>
      unfold reached
      split
      · exact (List.prefix_cons_inj member).mpr ih
      · exact ⟨members, rfl⟩
      · exact List.nil_prefix

theorem reached_append {faults : String → Option Bool} {left right : List String} :
    reached faults (left ++ right) =
      if ∀ member ∈ left, faults member = none then left ++ reached faults right
      else reached faults left := by
  induction left with
  | nil => simp
  | cons member members ih =>
      cases hfault : faults member with
      | none =>
          simp only [List.cons_append, reached, hfault, ih, List.forall_mem_cons, true_and]
          split <;> rfl
      | some applied =>
          have hnot : ¬ ∀ other ∈ member :: members, faults other = none := by
            intro hall
            have := hall member List.mem_cons_self
            rw [hfault] at this
            cases this
          rw [if_neg hnot]
          cases applied <;> simp [reached, hfault]

variable {members : List String}

theorem reached_eq_self {faults : String → Option Bool}
    (hnone : ∀ member ∈ members, faults member = none) : reached faults members = members := by
  have happend := @reached_append faults members []
  rw [List.append_nil, if_pos hnone] at happend
  simpa [reached] using happend

/-- Deleting some locations in order. -/
theorem Setting.run_deleteMembers (kind : MaintenanceKind)
    (hmanaged : ∀ member ∈ members, (setting.warehouse.managed member).isSome) (state : LocalState) :
    ∃ outcome, setting.run (members.foldlM (fun _ member => deleteMember kind member) ()) state =
        (outcome, { state with
          store := setting.withoutAll state.store (reached setting.faults members) }) ∧
      (outcome = .ok () ↔ ∀ member ∈ members, setting.faults member = none) := by
  induction members generalizing state with
  | nil => exact ⟨.ok (), rfl, by simp⟩
  | cons member members ih =>
      have hmember := setting.run_deleteMember (hmanaged member List.mem_cons_self) kind state
      rw [List.foldlM_cons]
      cases hfault : setting.faults member with
      | none =>
          rw [hfault] at hmember
          obtain ⟨outcome, hrun, houtcome⟩ := ih
            (fun other hother => hmanaged other (List.mem_cons_of_mem _ hother))
            { state with store := setting.without state.store member }
          refine ⟨outcome, (Program.run_bind_ok hmember).trans ?_, ?_⟩
          · simp only [reached, hfault]
            exact hrun
          · simp only [List.forall_mem_cons, hfault, true_and]
            exact houtcome
      | some applied =>
          rw [hfault] at hmember
          refine ⟨.error (.storage member), (Program.run_bind_error hmember).trans ?_, ?_⟩
          · simp only [reached, hfault]
            cases applied <;> rfl
          · simp [hfault]

theorem Setting.withoutAll_append (store : Store) (left right : List String) :
    setting.withoutAll store (left ++ right) =
      setting.withoutAll (setting.withoutAll store left) right :=
  List.foldl_append

variable {candidate : Candidate}

/-- The object at a location, if there is one, is old. -/
def Setting.isOldAt (setting : Setting) (store : Store) (olderThanMs : ℤ) (location : String) :
    Bool :=
  (setting.warehouse.managed location).all fun resolved =>
    (store.find? resolved.1).all fun object => object.modifiedMs < olderThanMs

/-- The candidate is deleted: it is verified, or none of its locations leads to an object that
changed after the cutoff. -/
def Setting.isDoomed (setting : Setting) (store : Store) (olderThanMs : ℤ) (candidate : Candidate) :
    Bool :=
  candidate.verified || candidate.members.all (setting.isOldAt store olderThanMs)

/-- The locations that are deleted, in order, while no deletion fails. -/
def Setting.deletions (setting : Setting) (olderThanMs : ℤ) : Store → List Candidate → List String
  | _, [] => []
  | store, candidate :: found =>
      if setting.isDoomed store olderThanMs candidate then
        candidate.members ++
          deletions setting olderThanMs (setting.withoutAll store candidate.members) found
      else deletions setting olderThanMs store found

/-- The locations that a sweep deletes. -/
def Setting.sweptLocations (setting : Setting) (store : Store) (survey : Survey) : List String :=
  setting.deletions survey.olderThanMs store survey.found

theorem Setting.deletions_subset (store : Store) (found : List Candidate) :
    ∀ location ∈ setting.deletions olderThanMs store found,
      location ∈ found.flatMap Candidate.members := by
  induction found generalizing store with
  | nil => exact fun location hlocation => hlocation
  | cons candidate found ih =>
      intro location hlocation
      rw [List.flatMap_cons, List.mem_append]
      unfold deletions at hlocation
      split at hlocation
      · exact (List.mem_append.mp hlocation).imp_right (ih _ location)
      · exact Or.inr (ih _ location hlocation)

/-- The members of a candidate are managed, so that the collection can look at them. -/
def Candidate.Managed (setting : Setting) (candidate : Candidate) : Prop :=
  ∀ member ∈ candidate.members, (setting.warehouse.managed member).isSome

theorem Setting.run_stillOld
    (hmanaged : ∀ member ∈ members, (setting.warehouse.managed member).isSome) :
    setting.run (stillOld olderThanMs members) state =
      (.ok (members.all (setting.isOldAt state.store olderThanMs)), state) := by
  induction members with
  | nil => rfl
  | cons member members ih =>
      have hrest := ih fun other hother => hmanaged other (List.mem_cons_of_mem _ hother)
      obtain ⟨⟨path, directory⟩, hresolved⟩ :=
        Option.isSome_iff_exists.mp (hmanaged member List.mem_cons_self)
      rw [stillOld, run_head_bind, List.all_cons]
      simp only [head, isOldAt, hresolved, Option.all_some]
      cases hfound : state.store.find? path with
      | none => simpa using hrest
      | some object =>
          dsimp only
          by_cases hyoung : olderThanMs ≤ object.modifiedMs
          · rw [if_pos hyoung]
            simp [not_lt.mpr hyoung]
            rfl
          · rw [if_neg hyoung]
            simpa [not_le.mp hyoung] using hrest

theorem Setting.run_isOld (olderThanMs : ℤ) (state : LocalState)
    (hmanaged : candidate.Managed setting) :
    setting.run (isOld olderThanMs candidate) state =
      (.ok (setting.isDoomed state.store olderThanMs candidate), state) := by
  unfold isOld isDoomed
  cases candidate.verified with
  | true => rfl
  | false => exact setting.run_stillOld hmanaged

variable {reachable : List String}

/-- One unreachable candidate: if it is doomed, its members are deleted in order. -/
theorem Setting.run_collectCandidate (olderThanMs : ℤ) (state : LocalState) (removed : List MaintenanceObject)
    (hfree : candidate.object.reference ∉ reachable) (hmanaged : candidate.Managed setting) :
    ∃ outcome, setting.run (collectCandidate reachable olderThanMs removed candidate) state =
        (outcome, { state with
          store := setting.withoutAll state.store (reached setting.faults
            (if setting.isDoomed state.store olderThanMs candidate then candidate.members
              else [])) }) ∧
      ((∃ objects, outcome = .ok objects) ↔
        ∀ member ∈ if setting.isDoomed state.store olderThanMs candidate then candidate.members
          else [], setting.faults member = none) := by
  obtain ⟨outcome, hdelete, houtcome⟩ :=
    setting.run_deleteMembers candidate.object.kind hmanaged state
  have hnot : reachable.contains candidate.object.reference = false := by simpa using hfree
  have hold := setting.run_isOld olderThanMs state hmanaged
  unfold collectCandidate
  rw [hnot]
  cases hdoomed : setting.isDoomed state.store olderThanMs candidate with
  | false =>
      rw [hdoomed] at hold
      exact ⟨.ok removed, Program.run_bind_ok hold, by simp⟩
  | true =>
      rw [hdoomed] at hold
      simp only [if_true]
      cases outcome with
      | ok value =>
          refine ⟨.ok (removed ++ [candidate.object]), ?_, ?_⟩
          · exact (Program.run_bind_ok hold).trans (Program.run_bind_ok hdelete)
          · exact ⟨fun _ => houtcome.mp rfl, fun _ => ⟨_, rfl⟩⟩
      | error error =>
          refine ⟨.error error, ?_, ?_⟩
          · exact (Program.run_bind_ok hold).trans (Program.run_bind_error hdelete)
          · rw [← houtcome]
            simp

/-- The deletion loop: the locations of the doomed candidates in order, up to the first
failure. -/
theorem Setting.run_collectCandidates {found : List Candidate}
    (removed : List MaintenanceObject)
    (hfree : ∀ candidate ∈ found, candidate.object.reference ∉ reachable)
    (hmanaged : ∀ candidate ∈ found, candidate.Managed setting) :
    ∃ outcome, setting.run (found.foldlM (collectCandidate reachable olderThanMs) removed) state =
        (outcome, { state with
          store := setting.withoutAll state.store
            (reached setting.faults (setting.deletions olderThanMs state.store found)) }) ∧
      ((∃ objects, outcome = .ok objects) ↔
        ∀ member ∈ setting.deletions olderThanMs state.store found,
          setting.faults member = none) := by
  induction found generalizing state removed with
  | nil => exact ⟨.ok removed, rfl, by simp [deletions]⟩
  | cons candidate found ih =>
      obtain ⟨outcome, hcollect, houtcome⟩ := setting.run_collectCandidate olderThanMs
        state removed (hfree candidate List.mem_cons_self) (hmanaged candidate List.mem_cons_self)
      have hrest := fun store objects => @ih { state with store := store } objects
        (fun other hother => hfree other (List.mem_cons_of_mem _ hother))
        fun other hother => hmanaged other (List.mem_cons_of_mem _ hother)
      rw [List.foldlM_cons, deletions]
      cases hdoomed : setting.isDoomed state.store olderThanMs candidate with
      | false =>
          rw [hdoomed] at hcollect houtcome
          obtain ⟨objects, rfl⟩ := houtcome.mpr (by simp)
          obtain ⟨final, hfinal, hcount⟩ := hrest state.store objects
          exact ⟨final, (Program.run_bind_ok hcollect).trans hfinal, hcount⟩
      | true =>
          rw [hdoomed, if_pos rfl] at hcollect
          rw [hdoomed, if_pos rfl] at houtcome
          simp only [if_true, reached_append]
          cases outcome with
          | ok objects =>
              have hnone := houtcome.mp ⟨objects, rfl⟩
              rw [reached_eq_self hnone] at hcollect
              obtain ⟨final, hfinal, hcount⟩ :=
                hrest (setting.withoutAll state.store candidate.members) objects
              refine ⟨final, (Program.run_bind_ok hcollect).trans ?_, ?_⟩
              · rw [if_pos hnone, setting.withoutAll_append]
                exact hfinal
              · rw [hcount]
                simp only [List.mem_append, or_imp, forall_and]
                exact ⟨fun hright => ⟨hnone, hright⟩, fun hboth => hboth.2⟩
          | error error =>
              have hfault : ¬ ∀ member ∈ candidate.members, setting.faults member = none := by
                intro hnone
                obtain ⟨objects, hobjects⟩ := houtcome.mpr hnone
                cases hobjects
              refine ⟨.error error, (Program.run_bind_error hcollect).trans ?_, ?_⟩
              · rw [if_neg hfault]
              · constructor
                · rintro ⟨objects, hobjects⟩
                  cases hobjects
                · intro hall
                  exact absurd (fun member hmember =>
                    hall member (List.mem_append_left _ hmember)) hfault

/-! ## Purging the catalog -/

/-- The purge gets past an entry: it is reachable, or its location is a managed one. -/
def Setting.passes (setting : Setting) (reachable : List String)
    (entry : IvfCentroidsCatalogEntry) : Bool :=
  reachable.contains entry.metadataLocation ||
    (setting.warehouse.managed entry.metadataLocation).isSome

/-- The document of an unreachable entry is gone. -/
def Setting.missing (setting : Setting) (store : Store) (reachable : List String)
    (entry : IvfCentroidsCatalogEntry) : Bool :=
  !reachable.contains entry.metadataLocation &&
    (setting.warehouse.managed entry.metadataLocation).any fun resolved =>
      (store.find? resolved.1).isNone

/-- The tables without the rows of an entry. -/
def withoutEntry (tables : Tables) (entry : IvfCentroidsCatalogEntry) : Tables :=
  { tables with
    ivfCentroidArtifacts := tables.ivfCentroidArtifacts.delete fun row => row.isEntry entry }

theorem Setting.run_purgeWhenMissing (location : String)
    (purge : Collect (Except MaintenanceError Bool)) (state : LocalState) :
    setting.run (purgeWhenMissing location purge) state =
      match setting.warehouse.managed location with
      | none => (.error (.invalidLocation location), state)
      | some (path, _) =>
          match state.store.find? path with
          | some _ => (.ok (), state)
          | none => setting.run (do
              let _ ← Program.ofExcept (← purge)
              pure ()) state := by
  rw [purgeWhenMissing, run_head_bind]
  cases hmanaged : setting.warehouse.managed location with
  | none =>
      simp only [head, hmanaged]
      rfl
  | some resolved =>
      obtain ⟨path, directory⟩ := resolved
      cases hfound : state.store.find? path with
      | none =>
          simp only [head, hmanaged, hfound]
      | some object =>
          simp only [head, hmanaged, hfound]
          rfl

theorem Setting.run_purgeIfMissing (reachable : List String) (entry : IvfCentroidsCatalogEntry)
    (state : LocalState) :
    setting.run (purgeIfMissing reachable entry) state =
      if setting.passes reachable entry then
        (.ok (), if setting.missing state.store reachable entry then
          { state with tables := withoutEntry state.tables entry } else state)
      else (.error (.invalidLocation entry.metadataLocation), state) := by
  unfold purgeIfMissing passes missing
  cases hreachable : reachable.contains entry.metadataLocation with
  | true => rfl
  | false =>
      refine (setting.run_purgeWhenMissing _ _ state).trans ?_
      cases hmanaged : setting.warehouse.managed entry.metadataLocation with
      | none => rfl
      | some resolved =>
          obtain ⟨path, directory⟩ := resolved
          dsimp only
          cases hfound : state.store.find? path with
          | none =>
              simp only [Option.any_some, hfound]
              rfl
          | some object =>
              simp only [Option.any_some, hfound]
              rfl

/-- The purge of centroid entries: up to the first location it cannot look at, the rows of
missing entries are removed. -/
theorem Setting.run_purgeEntries (reachable : List String) (entries : List IvfCentroidsCatalogEntry)
    (state : LocalState) :
    ∃ outcome after, setting.run
        (entries.foldlM (fun _ entry => purgeIfMissing reachable entry) ()) state =
          (outcome, after) ∧
      after.store = state.store ∧ after.tables.indexes = state.tables.indexes ∧
      after.tables.catalogTombstones = state.tables.catalogTombstones ∧
      ∀ row, row ∈ after.tables.ivfCentroidArtifacts ↔
        row ∈ state.tables.ivfCentroidArtifacts ∧
          ∀ entry ∈ entries.takeWhile (setting.passes reachable),
            setting.missing state.store reachable entry = true → row.isEntry entry = false := by
  induction entries generalizing state with
  | nil => exact ⟨.ok (), state, rfl, rfl, rfl, rfl, by simp⟩
  | cons entry entries ih =>
      have hentry := setting.run_purgeIfMissing reachable entry state
      rw [List.foldlM_cons]
      cases hpasses : setting.passes reachable entry with
      | false =>
          rw [hpasses] at hentry
          refine ⟨_, _, Program.run_bind_error hentry, rfl, rfl, rfl, ?_⟩
          simp [hpasses]
      | true =>
          rw [hpasses, if_pos rfl] at hentry
          rw [List.takeWhile_cons_of_pos hpasses]
          cases hmissing : setting.missing state.store reachable entry with
          | false =>
              rw [hmissing] at hentry
              obtain ⟨outcome, after, hrun, hstore, hindexes, htombstones, hrows⟩ := ih state
              refine ⟨outcome, after, (Program.run_bind_ok hentry).trans hrun, hstore, hindexes,
                htombstones, fun row => ?_⟩
              rw [hrows]
              simp [hmissing]
          | true =>
              rw [hmissing] at hentry
              obtain ⟨outcome, after, hrun, hstore, hindexes, htombstones, hrows⟩ :=
                ih { state with tables := withoutEntry state.tables entry }
              refine ⟨outcome, after, (Program.run_bind_ok hentry).trans hrun, hstore, hindexes,
                htombstones, fun row => ?_⟩
              rw [hrows]
              simp only [withoutEntry, KeyedTable.mem_delete, List.forall_mem_cons, hmissing,
                forall_const, and_assoc]

theorem Setting.run_purgeMissing (reachable : List String) (state : LocalState) :
    ∃ outcome after, setting.run (purgeMissingIvfCentroids reachable) state = (outcome, after) ∧
      after.store = state.store ∧ after.tables.indexes = state.tables.indexes ∧
      after.tables.catalogTombstones = state.tables.catalogTombstones ∧
      ∀ row, row ∈ after.tables.ivfCentroidArtifacts ↔
        row ∈ state.tables.ivfCentroidArtifacts ∧
          ∀ entries, readyEntries state.tables = .ok entries →
            ∀ entry ∈ entries.takeWhile (setting.passes reachable),
              setting.missing state.store reachable entry = true → row.isEntry entry = false := by
  have hstep : setting.run (purgeMissingIvfCentroids reachable) state =
      setting.run (do
        let entries ← Program.ofExcept (readyEntries state.tables)
        entries.foldlM (fun _ entry => purgeIfMissing reachable entry) ()) state := rfl
  rw [hstep]
  cases hentries : readyEntries state.tables with
  | error error => exact ⟨.error error, state, rfl, rfl, rfl, rfl, by simp⟩
  | ok entries =>
      obtain ⟨outcome, after, hrun, hstore, hindexes, htombstones, hrows⟩ :=
        setting.run_purgeEntries reachable entries state
      refine ⟨outcome, after, hrun, hstore, hindexes, htombstones, fun row => ?_⟩
      rw [hrows]
      simp

/-- What the purge of tombstones leaves alone and what it may remove. -/
structure TombstonesPurged (setting : Setting) (reachable : List String) (olderThanMs : ℤ)
    (before after : LocalState) : Prop where
  store : after.store = before.store
  indexes : after.tables.indexes = before.tables.indexes
  centroids : after.tables.ivfCentroidArtifacts = before.tables.ivfCentroidArtifacts
  subset : ∀ tombstone ∈ after.tables.catalogTombstones,
    tombstone ∈ before.tables.catalogTombstones
  removed : ∀ tombstone ∈ before.tables.catalogTombstones,
    tombstone ∉ after.tables.catalogTombstones →
      tombstone.unreachableSinceMs < olderThanMs ∧
        tombstone.metadataLocation ∉ reachable ∧
        ∃ path directory, setting.warehouse.managed tombstone.metadataLocation =
          some (path, directory) ∧ before.store.find? path = none

theorem TombstonesPurged.refl (reachable : List String) (olderThanMs : ℤ) (state : LocalState) :
    TombstonesPurged setting reachable olderThanMs state state :=
  ⟨rfl, rfl, rfl, fun _ h => h, fun _ hin hout => absurd hin hout⟩

theorem TombstonesPurged.trans {first middle last : LocalState}
    (hleft : TombstonesPurged setting reachable olderThanMs first middle)
    (hright : TombstonesPurged setting reachable olderThanMs middle last) :
    TombstonesPurged setting reachable olderThanMs first last where
  store := hright.store.trans hleft.store
  indexes := hright.indexes.trans hleft.indexes
  centroids := hright.centroids.trans hleft.centroids
  subset := fun tombstone htombstone => hleft.subset tombstone (hright.subset tombstone htombstone)
  removed := by
    intro tombstone hin hout
    by_cases hmiddle : tombstone ∈ middle.tables.catalogTombstones
    · have hremoved := hright.removed tombstone hmiddle hout
      rwa [hleft.store] at hremoved
    · exact hleft.removed tombstone hin hmiddle

theorem Setting.run_purgeOldTombstone (reachable : List String) (olderThanMs : ℤ)
    (state : TombstoneReferences) (before : LocalState) :
    TombstonesPurged setting reachable olderThanMs before
      (setting.run (purgeOldTombstone reachable olderThanMs state) before).2 := by
  unfold purgeOldTombstone
  cases hskip : (decide (olderThanMs ≤ state.tombstone.unreachableSinceMs) ||
      reachable.contains state.tombstone.metadataLocation) with
  | true => exact TombstonesPurged.refl reachable olderThanMs before
  | false =>
      have hrun := setting.run_purgeWhenMissing state.tombstone.metadataLocation
        (Await.purgeTombstone state.tombstone) before
      simp only [Bool.or_eq_false_iff, decide_eq_false_iff_not, not_le] at hskip
      cases hmanaged : setting.warehouse.managed state.tombstone.metadataLocation with
      | none =>
          rw [hmanaged] at hrun
          refine (congrArg Prod.snd hrun).symm ▸ ?_
          exact TombstonesPurged.refl reachable olderThanMs before
      | some resolved =>
          obtain ⟨path, directory⟩ := resolved
          cases hfound : before.store.find? path with
          | some object =>
              simp only [hmanaged, hfound] at hrun
              refine (congrArg Prod.snd hrun).symm ▸ ?_
              exact TombstonesPurged.refl reachable olderThanMs before
          | none =>
              simp only [hmanaged, hfound] at hrun
              refine (congrArg Prod.snd hrun).symm ▸ ?_
              refine ⟨rfl, rfl, rfl, fun tombstone htombstone => ?_,
                fun tombstone hin hout => ?_⟩
              · exact (KeyedTable.mem_delete.mp htombstone).1
              · -- the purge removes exactly this tombstone
                have hsame : tombstone.metadataLocation = state.tombstone.metadataLocation ∧
                    tombstone.unreachableSinceMs = state.tombstone.unreachableSinceMs := by
                  by_contra hother
                  refine hout (KeyedTable.mem_delete.mpr ⟨hin, ?_⟩)
                  simpa using hother
                rw [hsame.1, hsame.2]
                exact ⟨hskip.1, by simpa using hskip.2, path, directory, hmanaged, hfound⟩

theorem Setting.run_purgeTombstones (reachable : List String) (olderThanMs : ℤ)
    (states : List TombstoneReferences) (before : LocalState) :
    TombstonesPurged setting reachable olderThanMs before
      (setting.run (states.foldlM
        (fun _ state => purgeOldTombstone reachable olderThanMs state) ()) before).2 := by
  induction states generalizing before with
  | nil => exact TombstonesPurged.refl reachable olderThanMs before
  | cons state states ih =>
      have hstate := setting.run_purgeOldTombstone reachable olderThanMs state before
      rw [List.foldlM_cons]
      rcases hrun : setting.run (purgeOldTombstone reachable olderThanMs state) before with
        ⟨outcome, middle⟩
      rw [hrun] at hstate
      cases outcome with
      | ok value =>
          refine (congrArg Prod.snd (Program.run_bind_ok hrun)).symm ▸ ?_
          exact hstate.trans (ih middle)
      | error error =>
          refine (congrArg Prod.snd (Program.run_bind_error hrun)).symm ▸ ?_
          exact hstate

/-! ## The whole collection -/

theorem Candidate.Sound.managed
    (hsound : candidate.Sound setting.crates setting.warehouse state.Listed reachable) :
    candidate.Managed setting := by
  intro member hmember
  obtain ⟨_, -, -, path, directory, hmanaged, -⟩ := hsound.members member hmember
  rw [hmanaged]
  rfl

/-- What a collection that got past its survey did. -/
structure Swept (setting : Setting) (reachable : List String) (found : Survey)
    (before after : LocalState) : Prop where
  store : after.store = setting.withoutAll before.store
    (reached setting.faults (setting.sweptLocations before.store found))
  indexes : after.tables.indexes = before.tables.indexes
  subset : ∀ tombstone ∈ after.tables.catalogTombstones,
    tombstone ∈ before.tables.catalogTombstones
  removed : ∀ tombstone ∈ before.tables.catalogTombstones,
    tombstone ∉ after.tables.catalogTombstones →
      tombstone.unreachableSinceMs < found.olderThanMs ∧
        tombstone.metadataLocation ∉ reachable ∧
        ∃ path directory, setting.warehouse.managed tombstone.metadataLocation =
          some (path, directory) ∧ after.store.find? path = none
  interrupted : (¬ ∀ member ∈ setting.sweptLocations before.store found,
    setting.faults member = none) → after.tables = before.tables
  completed : (∀ member ∈ setting.sweptLocations before.store found,
    setting.faults member = none) → ∀ row, row ∈ after.tables.ivfCentroidArtifacts ↔
      row ∈ before.tables.ivfCentroidArtifacts ∧
        ∀ entries, readyEntries before.tables = .ok entries →
          ∀ entry ∈ entries.takeWhile (setting.passes reachable),
            setting.missing after.store reachable entry = true → row.isEntry entry = false

/-- The run of the second part of a collection. -/
theorem Setting.run_sweep {mapped : List String}
    (hsurveyed : setting.Surveyed clock activeRoots olderThanMs state found mapped) :
    Swept setting (protectedReferences activeRoots mapped found.tombstones found.olderThanMs) found
      state (setting.run (sweep setting.crates setting.warehouse activeRoots found) state).2 := by
  obtain ⟨outcome, hcollect, houtcome⟩ := setting.run_collectCandidates []
    (fun candidate hcandidate => (hsurveyed.candidates candidate hcandidate).unreachable)
    (fun candidate hcandidate => (hsurveyed.candidates candidate hcandidate).managed)
  refine (congrArg Prod.snd (Program.run_bind_ok hsurveyed.reachable)).symm ▸ ?_
  cases outcome with
  | error error =>
      have hfault : ¬ ∀ member ∈ setting.sweptLocations state.store found,
          setting.faults member = none := by
        intro hnone
        obtain ⟨objects, hobjects⟩ := houtcome.mpr hnone
        cases hobjects
      refine (congrArg Prod.snd (Program.run_bind_error hcollect)).symm ▸ ?_
      exact ⟨rfl, rfl, fun _ h => h, fun _ hin hout => absurd hin hout, fun _ => rfl,
        fun hnone => absurd hnone hfault⟩
  | ok objects =>
      have hnone := houtcome.mp ⟨objects, rfl⟩
      refine (congrArg Prod.snd (Program.run_bind_ok hcollect)).symm ▸ ?_
      obtain ⟨purged, middle, hpurge, hstore, hindexes, htombstones, hrows⟩ :=
        setting.run_purgeMissing
          (protectedReferences activeRoots mapped found.tombstones found.olderThanMs)
          { state with
            store := setting.withoutAll state.store (reached setting.faults
              (setting.sweptLocations state.store found)) }
      cases purged with
      | error error =>
          refine (congrArg Prod.snd (Program.run_bind_error hpurge)).symm ▸ ?_
          refine ⟨hstore, hindexes, fun tombstone htombstone => ?_, fun tombstone hin hout => ?_,
            fun hfault => absurd hnone hfault, fun _ row => ?_⟩
          · rwa [htombstones] at htombstone
          · rw [htombstones] at hout
            exact absurd hin hout
          · rw [hstore]
            exact hrows row
      | ok value =>
          refine (congrArg Prod.snd (Program.run_bind_ok hpurge)).symm ▸ ?_
          have hlast := setting.run_purgeTombstones
            (protectedReferences activeRoots mapped found.tombstones found.olderThanMs)
            found.olderThanMs found.tombstones middle
          have hafter : (Program.run setting.respond (do
              found.tombstones.foldlM (fun _ state => purgeOldTombstone
                (protectedReferences activeRoots mapped found.tombstones found.olderThanMs)
                found.olderThanMs state) ()
              pure objects) middle).2 = (setting.run (found.tombstones.foldlM (fun _ state =>
                purgeOldTombstone
                  (protectedReferences activeRoots mapped found.tombstones found.olderThanMs)
                  found.olderThanMs state) ()) middle).2 := Program.run_bind_pure_snd _ _
          rw [hafter]
          refine ⟨hlast.store.trans hstore, hlast.indexes.trans hindexes,
            fun tombstone htombstone => ?_, fun tombstone hin hout => ?_,
            fun hfault => absurd hnone hfault, fun _ row => ?_⟩
          · have hmiddle := hlast.subset tombstone htombstone
            rwa [htombstones] at hmiddle
          · rw [hlast.store]
            exact hlast.removed tombstone (htombstones ▸ hin) hout
          · rw [hlast.centroids, hlast.store, hstore]
            exact hrows row

/-- A collection whose survey fails, or a dry run, changes nothing; any other collection
sweeps. -/
theorem Setting.run_removeOrphans (setting : Setting) (clock : Clock) (activeRoots : List String)
    (olderThanMs : ℤ) (dryRun : Bool) (state : LocalState) :
    (((∃ error, (setting.run (survey setting.crates setting.warehouse clock activeRoots olderThanMs)
          state).1 = .error error) ∨ dryRun = true) ∧
        (setting.run (removeOrphans setting.crates setting.warehouse clock activeRoots olderThanMs
          dryRun) state).2 = state) ∨
      dryRun = false ∧ ∃ found mapped,
        (setting.run (survey setting.crates setting.warehouse clock activeRoots olderThanMs)
          state).1 = .ok found ∧
        setting.Surveyed clock activeRoots olderThanMs state found mapped ∧
        Swept setting (protectedReferences activeRoots mapped found.tombstones found.olderThanMs)
          found state (setting.run (removeOrphans setting.crates setting.warehouse clock
            activeRoots olderThanMs dryRun) state).2 := by
  have hreads := setting.run_survey clock activeRoots olderThanMs state
  cases houtcome : (setting.run
      (survey setting.crates setting.warehouse clock activeRoots olderThanMs) state).1 with
  | error error =>
      have hrun : setting.run
          (survey setting.crates setting.warehouse clock activeRoots olderThanMs) state =
          (.error error, state) := Prod.ext houtcome hreads
      refine Or.inl ⟨Or.inl ⟨error, rfl⟩, ?_⟩
      exact congrArg Prod.snd (Program.run_bind_error hrun)
  | ok found =>
      have hrun : setting.run
          (survey setting.crates setting.warehouse clock activeRoots olderThanMs) state =
          (.ok found, state) := Prod.ext houtcome hreads
      cases dryRun with
      | true => exact Or.inl ⟨Or.inr rfl, congrArg Prod.snd (Program.run_bind_ok hrun)⟩
      | false =>
          obtain ⟨mapped, hsurveyed⟩ := setting.surveyed houtcome
          refine Or.inr ⟨rfl, found, mapped, rfl, hsurveyed, ?_⟩
          refine (congrArg Prod.snd (Program.run_bind_ok hrun)).symm ▸ ?_
          exact setting.run_sweep hsurveyed

end ParqDB.Maintenance
