import ParqDB.Catalog.Sqlite

/-!
# What a catalog call does

Two facts about every operation, from which everything else about the catalog is
derived without looking at statements again:

* a call that fails leaves the tables exactly as they were (`perform_error`), whatever
  the reason for the failure and whatever statement it hits;
* a call that succeeds passed its checks and changed the tables in one stated way
  (`…_effect`).
-/

namespace ParqDB.Catalog

open Foundations Meta

/-! ## Identifiers as table keys -/

/-- The primary key under which an identifier is stored. -/
def IndexIdentifier.tableKey (identifier : IndexIdentifier) : String × String :=
  (Json.arrayText identifier.namespace, identifier.name)

theorem IndexIdentifier.namespaceKey_eq (identifier : IndexIdentifier) :
    identifier.namespaceKey = .ok (Json.arrayText identifier.namespace) := by
  have hsegments : identifier.namespace.any String.isEmpty = false := by
    rw [List.any_eq_false]
    intro segment hsegment hempty
    rw [String.isEmpty_iff] at hempty
    exact identifier.nonempty.2 (hempty ▸ hsegment)
  simp [IndexIdentifier.namespaceKey, Catalog.namespaceKey, hsegments]

theorem IndexIdentifier.tableKey_injective : Function.Injective IndexIdentifier.tableKey := by
  rintro ⟨leftNamespace, leftName, _⟩ ⟨rightNamespace, rightName, _⟩ h
  obtain ⟨hnamespace, hname⟩ := Prod.mk.inj h
  obtain rfl : leftNamespace = rightNamespace := Json.arrayText_injective hnamespace
  obtain rfl : leftName = rightName := hname
  rfl

/-- The row an identifier is mapped to. -/
def Tables.mapping (tables : Tables) (identifier : IndexIdentifier) : Option IndexRow :=
  tables.indexes.find? identifier.tableKey

variable {α : Type}

/-- A passed check passed before its error was translated. -/
private theorem mapError_ok {Err Err' : Type} {outcome : Except Err α} {translate : Err → Err'}
    {value : α} (h : outcome.mapError translate = .ok value) : outcome = .ok value := by
  cases outcome with
  | error error => cases h
  | ok value' => exact congrArg Except.ok (Except.ok.inj h)

/-! ## Failing calls -/

private theorem failsClean_exists (identifier : IndexIdentifier) {next : Bool → CatalogSql α}
    (hnext : ∀ found, Sql.FailsClean (next found)) :
    Sql.FailsClean («exists» identifier >>= next) := by
  intro tables error hclosed herror
  obtain ⟨durable, working, fuse⟩ := tables
  obtain rfl : working = none := hclosed
  unfold «exists» at herror ⊢
  rw [IndexIdentifier.namespaceKey_eq] at herror ⊢
  -- two reads on the second connection, each of which may be the one that fails
  rcases fuse with _ | _ | _ | remaining
  · exact hnext _ ⟨durable, none, none⟩ error rfl herror
  · rfl
  · rfl
  · exact hnext _ ⟨durable, none, some remaining⟩ error rfl herror

theorem register_failsClean (crates : Crates) (identifier : IndexIdentifier)
    (source : TableDefinition) (metadataLocation : String) (metadata : IndexMetadata) :
    Sql.FailsClean (register crates identifier source metadataLocation metadata) := by
  unfold register
  refine Sql.failsClean_check_bind fun _ => Sql.failsClean_check_bind fun _ =>
    Sql.failsClean_check_bind fun _ => Sql.failsClean_check_bind fun _ =>
    Sql.failsClean_check_bind fun key => Sql.failsClean_query_bind fun _ =>
    Sql.failsClean_begin_bind ?_
  exact Sql.atomic_bind (Sql.quiet_statement _ _) fun _ =>
    Sql.atomic_bind (Sql.quiet_statement _ _) fun _ =>
    Sql.atomic_bind (Sql.quiet_statement _ _) fun _ => Sql.atomic_commit _

theorem commit_failsClean (crates : Crates) (clock : Clock) (identifier : IndexIdentifier)
    (source : TableDefinition) (baseLocation newLocation : String)
    (baseMetadata newMetadata : IndexMetadata) :
    Sql.FailsClean (commit crates clock identifier source baseLocation newLocation baseMetadata
      newMetadata) := by
  unfold commit
  split
  · exact Sql.failsClean_fail _
  refine Sql.failsClean_check_bind fun key => Sql.failsClean_query_bind fun _ =>
    Sql.failsClean_begin_bind ?_
  refine Sql.atomic_bind (Sql.quiet_query _ _) fun current => ?_
  cases current with
  | none => exact (Sql.quiet_fail _).atomic
  | some current =>
      dsimp only
      split
      · exact (Sql.quiet_fail _).atomic
      split
      · exact (Sql.quiet_fail _).atomic
      refine Sql.atomic_bind (Sql.quiet_check _) fun _ => Sql.atomic_bind (Sql.quiet_check _) fun _ =>
        Sql.atomic_bind (Sql.quiet_check _) fun _ => Sql.atomic_bind (Sql.quiet_check _) fun _ =>
        Sql.atomic_bind (Sql.quiet_statement _ _) fun updated => ?_
      split
      · exact Sql.atomic_bind (Sql.quiet_check _) fun _ =>
          Sql.atomic_bind (Sql.quiet_statement _ _) fun _ => Sql.atomic_commit _
      · refine Sql.atomic_rollback_bind (failsClean_exists identifier fun found => ?_)
        split <;> exact Sql.failsClean_fail _

theorem drop_failsClean (clock : Clock) (identifier : IndexIdentifier) :
    Sql.FailsClean (drop clock identifier) := by
  unfold drop
  refine Sql.failsClean_check_bind fun key => Sql.failsClean_query_bind fun _ =>
    Sql.failsClean_begin_bind ?_
  refine Sql.atomic_bind (Sql.quiet_query _ _) fun current => ?_
  cases current with
  | none => exact (Sql.quiet_fail _).atomic
  | some current =>
      refine Sql.atomic_bind (Sql.quiet_check _) fun _ =>
        Sql.atomic_bind (Sql.quiet_statement _ _) fun _ =>
        Sql.atomic_bind (Sql.quiet_statement _ _) fun removed => ?_
      split
      · exact (Sql.quiet_fail _).atomic
      · exact Sql.atomic_commit _

theorem claimIvfCentroids_failsClean (crates : Crates) (clock : Clock) (source : TableDefinition)
    (descriptor : IvfCentroidsDescriptor) (owner : Uuid) (leaseDurationMs : ℤ) :
    Sql.FailsClean (claimIvfCentroids crates clock source descriptor owner leaseDurationMs) := by
  unfold claimIvfCentroids
  refine Sql.failsClean_check_bind fun _ => Sql.failsClean_check_bind fun _ =>
    Sql.failsClean_check_bind fun _ => Sql.failsClean_check_bind fun fingerprint =>
    Sql.failsClean_check_bind fun now => Sql.failsClean_query_bind fun _ =>
    Sql.failsClean_begin_bind ?_
  refine Sql.atomic_bind (Sql.quiet_query _ _) fun existing => ?_
  cases existing with
  | none =>
      exact Sql.atomic_bind (Sql.quiet_statement _ _) fun _ =>
        (Sql.atomic_commit _).bind_pure _
  | some row =>
      dsimp only
      split
      · exact (Sql.quiet_fail _).atomic
      split
      · split
        · exact (Sql.quiet_fail _).atomic
        · exact (Sql.quiet_fail _).atomic
        · exact (Sql.atomic_commit _).bind_pure _
      · split
        · exact (Sql.atomic_commit _).bind_pure _
        · exact Sql.atomic_bind (Sql.quiet_statement _ _) fun _ =>
            (Sql.atomic_commit _).bind_pure _

variable {claim : IvfCentroidsClaim} {selected : CentroidRow → Bool} {after before : Tables}
  {crates : Crates} {request : Request} {identifier : IndexIdentifier} {metadataLocation : String}
  {source : TableDefinition} {working : Option Tables}

theorem ownedBy_key {row : CentroidRow} (howned : row.ownedBy claim = true) :
    row.key = (claim.sourceIdentity, claim.fingerprint) := by
  simp only [CentroidRow.ownedBy, Bool.and_eq_true, decide_eq_true_eq] at howned
  exact Prod.ext howned.1.1.1 howned.1.1.2

private theorem updateCentroids_failsClean (claim : IvfCentroidsClaim)
    {change : CentroidRow → CentroidRow} {hkey : ∀ row, (change row).key = row.key}
    (hselected : ∀ row, selected row = true → row.ownedBy claim = true) :
    Sql.FailsClean (updateCentroids selected change hkey >>= fun updated =>
      Sql.check (claimKept claim updated)) := by
  refine Sql.failsClean_statement_check fun tables updated tables' error hchange hverdict => ?_
  obtain ⟨rfl, rfl⟩ := Prod.mk.inj (Except.ok.inj hchange)
  have hcount : tables.ivfCentroidArtifacts.matching selected ≠ 1 := by
    intro hone
    simp [claimKept, hone] at hverdict
  rw [KeyedTable.update_eq_self (fun row hsel => ownedBy_key (hselected row hsel)) hcount]

theorem renewIvfCentroidsClaim_failsClean (clock : Clock) (claim : IvfCentroidsClaim)
    (leaseDurationMs : ℤ) :
    Sql.FailsClean (renewIvfCentroidsClaim clock claim leaseDurationMs) := by
  unfold renewIvfCentroidsClaim
  refine Sql.failsClean_check_bind fun _ => Sql.failsClean_check_bind fun now =>
    Sql.failsClean_query_bind fun _ => updateCentroids_failsClean claim fun row hsel => ?_
  exact (Bool.and_eq_true _ _ ▸ hsel).1

theorem publishIvfCentroids_failsClean (crates : Crates) (clock : Clock)
    (claim : IvfCentroidsClaim) (metadataLocation : String) (metadata : IvfCentroidsMetadata) :
    Sql.FailsClean (publishIvfCentroids crates clock claim metadataLocation metadata) := by
  unfold publishIvfCentroids
  refine Sql.failsClean_check_bind fun _ => ?_
  split
  · exact Sql.failsClean_fail _
  refine Sql.failsClean_check_bind fun _ => Sql.failsClean_check_bind fun now =>
    Sql.failsClean_query_bind fun _ => Sql.failsClean_begin_bind ?_
  exact Sql.atomic_bind (Sql.quiet_statement _ _) fun _ =>
    Sql.atomic_bind (Sql.quiet_check _) fun _ =>
    Sql.atomic_bind (Sql.quiet_statement _ _) fun _ => (Sql.atomic_commit _).bind_pure _

theorem abandonIvfCentroids_failsClean (claim : IvfCentroidsClaim) (error : String) :
    Sql.FailsClean (abandonIvfCentroids claim error) := by
  unfold abandonIvfCentroids
  exact Sql.failsClean_query_bind fun _ => updateCentroids_failsClean claim fun _ hsel => hsel

theorem CatalogCall.failsClean (crates : Crates) (clock : Clock) (call : CatalogCall) :
    Sql.FailsClean (call.program crates clock) := by
  cases call with
  | register identifier source metadataLocation metadata =>
      exact (register_failsClean crates identifier source metadataLocation metadata).bind_pure _
  | commit identifier source baseLocation newLocation baseMetadata newMetadata =>
      exact (commit_failsClean crates clock identifier source baseLocation newLocation
        baseMetadata newMetadata).bind_pure _
  | drop identifier => exact (drop_failsClean clock identifier).bind_pure _
  | purgeTombstone tombstone =>
      exact (Sql.failsClean_query_bind fun _ => Sql.failsClean_statement).bind_pure _
  | claimIvfCentroids source descriptor owner leaseDurationMs =>
      exact (claimIvfCentroids_failsClean crates clock source descriptor owner
        leaseDurationMs).bind_pure _
  | renewIvfCentroidsClaim claim leaseDurationMs =>
      exact (renewIvfCentroidsClaim_failsClean clock claim leaseDurationMs).bind_pure _
  | publishIvfCentroids claim metadataLocation metadata =>
      exact (publishIvfCentroids_failsClean crates clock claim metadataLocation
        metadata).bind_pure _
  | abandonIvfCentroids claim message =>
      exact (abandonIvfCentroids_failsClean claim message).bind_pure _
  | purgeIvfCentroids entry =>
      exact (Sql.failsClean_query_bind fun _ => Sql.failsClean_statement.bind_pure _).bind_pure _

/-- **Failed calls leave no trace.**  Whatever makes a call fail (a check, the clock, or the
database at any statement), all tables are as before. -/
theorem perform_error {error : CatalogError}
    (h : perform crates request before = (.error error, after)) : after = before := by
  have hclean : (perform crates request before).2 = before := by
    refine Sql.FailsClean.call ?_ (congrArg Prod.fst h)
    exact request.call.failsClean crates request.clock
  rwa [h] at hclean

/-! ## Successful calls -/

/-- What a successful `register` checked and did. -/
structure Registered (crates : Crates) (identifier : IndexIdentifier) (source : TableDefinition)
    (metadataLocation : String) (metadata : IndexMetadata) (before after : Tables) : Prop where
  validMetadata : metadata.validate crates = .ok ()
  validSource : source.validate = .ok ()
  boundSource : validateSourceBinding source metadata = .ok ()
  validLocation : validateAbsoluteLocation crates metadataLocation = .ok ()
  absent : before.mapping identifier = none
  freshUuid : ∀ row ∈ before.indexes, row.indexUuid ≠ metadata.indexUuid
  mapped : ∃ row, row.key = identifier.tableKey ∧ row.metadataLocation = metadataLocation ∧
    row.indexUuid = metadata.indexUuid ∧ before.indexes.insert? row = some after.indexes
  reference : ∀ row ∈ after.indexes, row ∉ before.indexes → row.sourceReference = source
  tombstones : after.catalogTombstones = before.catalogTombstones.delete fun row =>
    row.metadataLocation = metadataLocation
  centroids : after.ivfCentroidArtifacts = before.ivfCentroidArtifacts

theorem register_effect {metadata : IndexMetadata}
    (h : Sql.Effect (register crates identifier source metadataLocation metadata) (before, none) ()
      (after, working)) :
    Registered crates identifier source metadataLocation metadata before after := by
  unfold register at h
  rw [IndexIdentifier.namespaceKey_eq] at h
  obtain ⟨_, hmetadata, h⟩ := Sql.effect_check_bind h
  obtain ⟨_, hsource, h⟩ := Sql.effect_check_bind h
  obtain ⟨_, hbinding, h⟩ := Sql.effect_check_bind h
  obtain ⟨_, hlocation, h⟩ := Sql.effect_check_bind h
  obtain ⟨key, hkey, h⟩ := Sql.effect_check_bind h
  cases hkey
  replace h := Sql.effect_query_alone_bind h
  replace h := Sql.effect_begin_bind h
  obtain ⟨_, _, hnamespace, h⟩ := Sql.effect_statement_bind h
  cases hnamespace
  obtain ⟨_, _, hinsert, h⟩ := Sql.effect_statement_bind h
  obtain ⟨_, _, hdelete, h⟩ := Sql.effect_statement_bind h
  cases hdelete
  obtain ⟨rfl, rfl⟩ := Prod.mk.inj (Sql.effect_commit h)
  simp only at hinsert
  split at hinsert
  · cases hinsert
  rename_i huuid
  split at hinsert
  · cases hinsert
  rename_i indexes hrow
  cases hinsert
  exact {
    validMetadata := mapError_ok hmetadata
    validSource := mapError_ok hsource
    boundSource := hbinding
    validLocation := mapError_ok hlocation
    absent := (KeyedTable.insert?_eq_some hrow).1
    freshUuid := by simpa [KeyedTable.mem_def] using huuid
    mapped := ⟨_, rfl, rfl, rfl, hrow⟩
    reference := fun row hafter hnew => by
      rcases ((KeyedTable.insert?_eq_some hrow).2 row).mp hafter with rfl | hold
      · rfl
      · exact absurd hold hnew
    tombstones := rfl
    centroids := rfl }

/-- The checks of `commit`, on the call's arguments and the tables before it. -/
structure CommitAccepted (crates : Crates) (clock : Clock) (identifier : IndexIdentifier)
    (source : TableDefinition) (baseLocation newLocation : String)
    (baseMetadata newMetadata : IndexMetadata) (tables : Tables) : Prop where
  distinct : baseLocation ≠ newLocation
  current : ∃ row, tables.mapping identifier = some row ∧ row.metadataLocation = baseLocation ∧
    row.indexUuid = newMetadata.indexUuid
  sameUuid : newMetadata.indexUuid = baseMetadata.indexUuid
  validUpdate : newMetadata.validateUpdateFrom crates baseMetadata = .ok ()
  validSource : source.validate = .ok ()
  boundSource : validateSourceBinding source newMetadata = .ok ()
  validLocation : validateAbsoluteLocation crates newLocation = .ok ()
  clockReads : ∃ now, clock = .ok now

/-- What a successful `commit` checked and did. -/
structure Committed (crates : Crates) (clock : Clock) (identifier : IndexIdentifier)
    (source : TableDefinition) (baseLocation newLocation : String)
    (baseMetadata newMetadata : IndexMetadata) (before after : Tables) : Prop
    extends CommitAccepted crates clock identifier source baseLocation newLocation baseMetadata
      newMetadata before where
  mapped : after.indexes = before.indexes.update
    (IndexRow.isUnchanged (Json.arrayText identifier.namespace) identifier.name baseLocation
      newMetadata.indexUuid)
    (IndexRow.advance newLocation (source.exactStateKey crates) source)
    (IndexRow.advance_key newLocation (source.exactStateKey crates) source)
  tombstones : ∃ now, clock = .ok now ∧
    after.catalogTombstones = before.catalogTombstones.upsert ⟨baseLocation, now⟩
  centroids : after.ivfCentroidArtifacts = before.ivfCentroidArtifacts

variable {baseMetadata : IndexMetadata} {clock : Clock} {newMetadata : IndexMetadata}
  {tables : Tables} {baseLocation newLocation : String}

theorem commit_effect
    (h : Sql.Effect (commit crates clock identifier source baseLocation newLocation baseMetadata
      newMetadata) (before, none) () (after, working)) :
    Committed crates clock identifier source baseLocation newLocation baseMetadata newMetadata
      before after := by
  unfold commit at h
  split at h
  · exact absurd h Sql.not_effect_fail
  rename_i hdistinct
  rw [IndexIdentifier.namespaceKey_eq] at h
  obtain ⟨key, hkey, h⟩ := Sql.effect_check_bind h
  cases hkey
  replace h := Sql.effect_query_alone_bind h
  replace h := Sql.effect_begin_bind h
  replace h := Sql.effect_query_bind h
  cases hcurrent : before.indexes.find? (Json.arrayText identifier.namespace, identifier.name) with
  | none =>
      rw [hcurrent] at h
      exact absurd h Sql.not_effect_fail
  | some current =>
      rw [hcurrent] at h
      dsimp only at h
      split at h
      · exact absurd h Sql.not_effect_fail
      rename_i hbase
      split at h
      · exact absurd h Sql.not_effect_fail
      rename_i huuid
      obtain ⟨_, hupdate, h⟩ := Sql.effect_check_bind h
      obtain ⟨_, hsource, h⟩ := Sql.effect_check_bind h
      obtain ⟨_, hbinding, h⟩ := Sql.effect_check_bind h
      obtain ⟨_, hlocation, h⟩ := Sql.effect_check_bind h
      obtain ⟨_, _, hstatement, h⟩ := Sql.effect_statement_bind h
      cases hstatement
      push Not at hbase huuid
      split at h
      · obtain ⟨now, hclock, h⟩ := Sql.effect_check_bind h
        obtain ⟨_, _, htombstone, h⟩ := Sql.effect_statement_bind h
        cases htombstone
        obtain ⟨rfl, rfl⟩ := Prod.mk.inj (Sql.effect_commit h)
        exact {
          distinct := hdistinct
          current := ⟨current, hcurrent, hbase, huuid.1.symm⟩
          sameUuid := huuid.2
          validUpdate := mapError_ok hupdate
          validSource := mapError_ok hsource
          boundSource := hbinding
          validLocation := mapError_ok hlocation
          clockReads := ⟨now, mapError_ok hclock⟩
          mapped := rfl
          tombstones := ⟨now, mapError_ok hclock, rfl⟩
          centroids := rfl }
      · -- no row was updated: both ends of this branch are errors
        obtain ⟨_, _, _, h⟩ := Sql.effect_bind h
        obtain ⟨found, _, _, h⟩ := Sql.effect_bind h
        split at h <;> exact absurd h Sql.not_effect_fail

/-- Without a failure of the database, a commit that passes its checks succeeds. -/
theorem commit_succeeds
    (h : CommitAccepted crates clock identifier source baseLocation newLocation baseMetadata
      newMetadata tables) :
    (Sql.call (commit crates clock identifier source baseLocation newLocation baseMetadata
      newMetadata) none tables).1 = .ok () := by
  obtain ⟨row, hrow, hbase, huuid⟩ := h.current
  obtain ⟨now, hclock⟩ := h.clockReads
  have hselected : row.isUnchanged (Json.arrayText identifier.namespace) identifier.name
      baseLocation newMetadata.indexUuid = true :=
    IndexRow.isUnchanged_iff.mpr ⟨(KeyedTable.find?_eq_some_iff.mp hrow).2, hbase, huuid⟩
  have hfind : tables.indexes.find? (Json.arrayText identifier.namespace, identifier.name) =
      some row := hrow
  have hcount : tables.indexes.matching
      (IndexRow.isUnchanged (Json.arrayText identifier.namespace) identifier.name baseLocation
        newMetadata.indexUuid) = 1 := by
    rw [KeyedTable.matching_eq_of_key fun other hother => (IndexRow.isUnchanged_iff.mp hother).1,
      hfind]
    simp [hselected]
  rw [h.sameUuid] at hcount huuid
  simp [Sql.call, commit, if_neg h.distinct, Sql.bind_apply, IndexIdentifier.namespaceKey_eq,
    Sql.check, connection, Sql.query, Sql.statement, Sql.beginTransaction, selectIndex, hfind,
    hbase, huuid, h.sameUuid, validated, h.validUpdate, h.validSource, h.boundSource,
    h.validLocation, updateIndex, hcount, nowMs, hclock, Except.mapError, upsertTombstone,
    Sql.commitTransaction]

/-- What a successful `drop` checked and did. -/
structure Dropped (clock : Clock) (identifier : IndexIdentifier) (before after : Tables) :
    Prop where
  current : ∃ row, before.mapping identifier = some row ∧
    ∃ now, clock = .ok now ∧
      after.catalogTombstones = before.catalogTombstones.upsert ⟨row.metadataLocation, now⟩
  mapped : after.indexes = before.indexes.delete
    (IndexRow.isAt (Json.arrayText identifier.namespace) identifier.name)
  centroids : after.ivfCentroidArtifacts = before.ivfCentroidArtifacts

theorem drop_effect (h : Sql.Effect (drop clock identifier) (before, none) () (after, working)) :
    Dropped clock identifier before after := by
  unfold drop at h
  rw [IndexIdentifier.namespaceKey_eq] at h
  obtain ⟨key, hkey, h⟩ := Sql.effect_check_bind h
  cases hkey
  replace h := Sql.effect_query_alone_bind h
  replace h := Sql.effect_begin_bind h
  replace h := Sql.effect_query_bind h
  cases hcurrent : before.indexes.find? (Json.arrayText identifier.namespace, identifier.name) with
  | none =>
      rw [hcurrent] at h
      exact absurd h Sql.not_effect_fail
  | some current =>
      rw [hcurrent] at h
      obtain ⟨now, hclock, h⟩ := Sql.effect_check_bind h
      obtain ⟨_, _, htombstone, h⟩ := Sql.effect_statement_bind h
      cases htombstone
      obtain ⟨_, _, hdelete, h⟩ := Sql.effect_statement_bind h
      cases hdelete
      split at h
      · exact absurd h Sql.not_effect_fail
      obtain ⟨rfl, rfl⟩ := Prod.mk.inj (Sql.effect_commit h)
      exact {
        current := ⟨current, hcurrent, now, mapError_ok hclock, rfl⟩
        mapped := rfl
        centroids := rfl }

/-- Without a failure of the database, dropping a mapped identifier succeeds. -/
theorem drop_succeeds {row : IndexRow} {now : ℤ} (hrow : tables.mapping identifier = some row)
    (hclock : clock = .ok now) : (Sql.call (drop clock identifier) none tables).1 = .ok () := by
  have hfind : tables.indexes.find? (Json.arrayText identifier.namespace, identifier.name) =
      some row := hrow
  have hselected : row.isAt (Json.arrayText identifier.namespace) identifier.name = true :=
    IndexRow.isAt_iff.mpr (KeyedTable.find?_eq_some_iff.mp hrow).2
  have hcount : tables.indexes.matching
      (IndexRow.isAt (Json.arrayText identifier.namespace) identifier.name) = 1 := by
    rw [KeyedTable.matching_eq_of_key fun other hother => IndexRow.isAt_iff.mp hother, hfind]
    simp [hselected]
  simp [Sql.call, drop, Sql.bind_apply, IndexIdentifier.namespaceKey_eq, Sql.check, connection,
    Sql.query, Sql.statement, Sql.beginTransaction, selectIndex, hfind, nowMs, hclock,
    Except.mapError, upsertTombstone, deleteIndex, hcount, Sql.commitTransaction]

/-! ### Tombstones and centroid entries -/

/-- A purge removes the tombstone it names unless it changed meanwhile. -/
def PurgedTombstone (tombstone : CatalogTombstone) (before after : Tables) : Prop :=
  after = { before with catalogTombstones := before.catalogTombstones.delete fun row =>
    row.metadataLocation = tombstone.metadataLocation &&
      row.unreachableSinceMs = tombstone.unreachableSinceMs }

variable {present : Bool} {leaseDurationMs : ℤ}

theorem purgeTombstone_effect {tombstone : CatalogTombstone}
    (h : Sql.Effect (purgeTombstone tombstone) (before, none) present (after, working)) :
    PurgedTombstone tombstone before after := by
  unfold purgeTombstone at h
  replace h := Sql.effect_query_alone_bind h
  obtain ⟨_, hdelete, hafter⟩ := Sql.effect_statement_alone h
  cases hdelete
  exact (Prod.mk.inj hafter).1

/-- The tables differ at most in the centroid entry stored under `key`. -/
structure CentroidChange (key : String × String) (row : Option CentroidRow)
    (before after : Tables) : Prop where
  indexes : after.indexes = before.indexes
  tombstones : after.catalogTombstones = before.catalogTombstones
  entry : ∀ other, after.ivfCentroidArtifacts.find? other =
    if other = key then row else before.ivfCentroidArtifacts.find? other

/-- The row a successful claim leaves. -/
def claimedRow (sourceIdentity fingerprint : String) (descriptor : IvfCentroidsDescriptor)
    (owner : Uuid) (leaseExpiresMs : ℤ) : CentroidRow where
  sourceIdentity := sourceIdentity
  fingerprint := fingerprint
  descriptor := descriptor
  state := .building
  owner := some owner
  leaseExpiresMs := some leaseExpiresMs
  artifactUuid := none
  metadataLocation := none
  error := none

/-- What a successful `claim` found and did. -/
inductive ClaimOutcome (sourceIdentity fingerprint : String) (descriptor : IvfCentroidsDescriptor)
    (owner : Uuid) (now leaseDurationMs : ℤ) (before after : Tables) :
    IvfCentroidsClaimResult → Prop
  | ready (row : CentroidRow) (artifactUuid : Uuid) (metadataLocation : String)
      (hrow : before.ivfCentroidArtifacts.find? (sourceIdentity, fingerprint) = some row)
      (hstate : row.state = .ready) (huuid : row.artifactUuid = some artifactUuid)
      (hlocation : row.metadataLocation = some metadataLocation) (hsame : after = before) :
      ClaimOutcome sourceIdentity fingerprint descriptor owner now leaseDurationMs before after
        (.ready ⟨sourceIdentity, fingerprint, artifactUuid, metadataLocation⟩)
  | busy (row : CentroidRow) (expires : ℤ)
      (hrow : before.ivfCentroidArtifacts.find? (sourceIdentity, fingerprint) = some row)
      (hlease : row.foreignLease owner now = some expires) (hsame : after = before) :
      ClaimOutcome sourceIdentity fingerprint descriptor owner now leaseDurationMs before after
        (.busy expires)
  | claimed
      (hfree : ∀ old, before.ivfCentroidArtifacts.find? (sourceIdentity, fingerprint) = some old →
        old.state ≠ .ready ∧ old.foreignLease owner now = none)
      (hchange : CentroidChange (sourceIdentity, fingerprint)
        (some (claimedRow sourceIdentity fingerprint descriptor owner
          (saturateI64 (now + leaseDurationMs)))) before after) :
      ClaimOutcome sourceIdentity fingerprint descriptor owner now leaseDurationMs before after
        (.claimed ⟨sourceIdentity, fingerprint, owner⟩)

/-- A successful claim by descriptor. -/
def AnsweredClaim (crates : Crates) (clock : Clock) (source : TableDefinition)
    (descriptor : IvfCentroidsDescriptor) (owner : Uuid) (leaseDurationMs : ℤ)
    (before after : Tables) (result : IvfCentroidsClaimResult) : Prop :=
  ∃ fingerprint now, descriptor.fingerprint crates = .ok fingerprint ∧ clock = .ok now ∧
    validateLease owner leaseDurationMs = .ok () ∧
    ClaimOutcome (source.exactStateKey crates) fingerprint descriptor owner now leaseDurationMs
      before after result

variable {result : IvfCentroidsClaimResult}

theorem claimIvfCentroids_effect {descriptor : IvfCentroidsDescriptor} {owner : Uuid}
    (h : Sql.Effect (claimIvfCentroids crates clock source descriptor owner leaseDurationMs)
      (before, none) result (after, working)) :
    AnsweredClaim crates clock source descriptor owner leaseDurationMs before after result := by
  unfold claimIvfCentroids at h
  obtain ⟨_, -, h⟩ := Sql.effect_check_bind h
  obtain ⟨_, -, h⟩ := Sql.effect_check_bind h
  obtain ⟨_, hlease, h⟩ := Sql.effect_check_bind h
  obtain ⟨fingerprint, hfingerprint, h⟩ := Sql.effect_check_bind h
  obtain ⟨now, hclock, h⟩ := Sql.effect_check_bind h
  replace h := Sql.effect_query_alone_bind h
  replace h := Sql.effect_begin_bind h
  replace h := Sql.effect_query_bind h
  refine ⟨fingerprint, now, mapError_ok hfingerprint, mapError_ok hclock, hlease, ?_⟩
  cases hexisting :
      before.ivfCentroidArtifacts.find? (source.exactStateKey crates, fingerprint) with
  | none =>
      rw [hexisting] at h
      obtain ⟨_, _, hinsert, h⟩ := Sql.effect_statement_bind h
      obtain ⟨_, _, hcommit, h⟩ := Sql.effect_bind h
      obtain rfl := Sql.effect_commit hcommit
      obtain ⟨rfl, hafter⟩ := Sql.effect_pure h
      obtain ⟨rfl, -⟩ := Prod.mk.inj hafter
      split at hinsert
      · cases hinsert
      rename_i inserted hrow
      cases hinsert
      refine .claimed (by simp [hexisting]) ⟨rfl, rfl, fun other => ?_⟩
      rw [KeyedTable.find?_insert? hrow]
      exact if_congr eq_comm rfl rfl
  | some row =>
      rw [hexisting] at h
      dsimp only at h
      split at h
      · exact absurd h Sql.not_effect_fail
      split at h
      · rename_i hstate
        split at h
        · exact absurd h Sql.not_effect_fail
        · exact absurd h Sql.not_effect_fail
        · rename_i artifactUuid metadataLocation huuid hlocation
          obtain ⟨_, _, hcommit, h⟩ := Sql.effect_bind h
          obtain rfl := Sql.effect_commit hcommit
          obtain ⟨rfl, hafter⟩ := Sql.effect_pure h
          exact .ready row artifactUuid metadataLocation hexisting hstate huuid hlocation
            (Prod.mk.inj hafter).1
      · rename_i hstate
        split at h
        · rename_i expires hforeign
          obtain ⟨_, _, hcommit, h⟩ := Sql.effect_bind h
          obtain rfl := Sql.effect_commit hcommit
          obtain ⟨rfl, hafter⟩ := Sql.effect_pure h
          exact .busy row expires hexisting hforeign (Prod.mk.inj hafter).1
        · rename_i hforeign
          obtain ⟨_, _, hupdate, h⟩ := Sql.effect_statement_bind h
          cases hupdate
          obtain ⟨_, _, hcommit, h⟩ := Sql.effect_bind h
          obtain rfl := Sql.effect_commit hcommit
          obtain ⟨rfl, hafter⟩ := Sql.effect_pure h
          obtain ⟨rfl, -⟩ := Prod.mk.inj hafter
          refine .claimed ?_ ⟨rfl, rfl, fun other => ?_⟩
          · intro old hold
            obtain rfl : row = old := Option.some.inj (hexisting.symm.trans hold)
            exact ⟨hstate, hforeign⟩
          · have hkey := (KeyedTable.find?_eq_some_iff.mp hexisting).2
            obtain ⟨hidentity, hprint⟩ := Prod.mk.inj hkey
            have hat : row.isAt (source.exactStateKey crates) fingerprint = true := by
              simp [CentroidRow.isAt, hidentity, hprint]
            refine (KeyedTable.find?_update_of_selected (CentroidRow.taken_key _ _ _)
              (by simp [CentroidRow.isAt, CentroidRow.key]) hexisting hat other).trans ?_
            simp [claimedRow, CentroidRow.taken, hidentity, hprint]

/-- A statement on the row a claim names, and that row. -/
private theorem updateCentroids_change {result : Unit} (change : CentroidRow → CentroidRow)
    (hkey : ∀ row, (change row).key = row.key)
    (hselected : ∀ row, selected row = true → row.ownedBy claim = true)
    (hkept : claimKept claim (tables.ivfCentroidArtifacts.matching selected) = .ok result) :
    ∃ row, tables.ivfCentroidArtifacts.find? (claim.sourceIdentity, claim.fingerprint) = some row ∧
      selected row = true ∧ ∀ other,
        (tables.ivfCentroidArtifacts.update selected change hkey).find? other =
          if other = (claim.sourceIdentity, claim.fingerprint) then some (change row)
          else tables.ivfCentroidArtifacts.find? other := by
  have hcount : tables.ivfCentroidArtifacts.matching selected = 1 := by
    by_contra hnot
    simp [claimKept, hnot] at hkept
  have hpinned := fun row hsel => ownedBy_key (hselected row hsel)
  obtain ⟨row, hfind, hrow⟩ := KeyedTable.exists_selected_of_matching hpinned hcount
  exact ⟨row, hfind, hrow, KeyedTable.find?_update_of_selected hkey hpinned hfind hrow⟩

/-- A renewal needs the unexpired building row of its own claim. -/
def RenewedClaim (clock : Clock) (claim : IvfCentroidsClaim) (leaseDurationMs : ℤ)
    (before after : Tables) : Prop :=
  ∃ row now, clock = .ok now ∧
    before.ivfCentroidArtifacts.find? (claim.sourceIdentity, claim.fingerprint) = some row ∧
    row.ownedBy claim = true ∧ row.leaseHolds now = true ∧
    CentroidChange (claim.sourceIdentity, claim.fingerprint)
      (some (row.renewed (saturateI64 (now + leaseDurationMs)))) before after

theorem renewIvfCentroidsClaim_effect
    (h : Sql.Effect (renewIvfCentroidsClaim clock claim leaseDurationMs) (before, none) ()
      (after, working)) : RenewedClaim clock claim leaseDurationMs before after := by
  unfold renewIvfCentroidsClaim at h
  obtain ⟨_, -, h⟩ := Sql.effect_check_bind h
  obtain ⟨now, hclock, h⟩ := Sql.effect_check_bind h
  replace h := Sql.effect_query_alone_bind h
  obtain ⟨_, _, hupdate, h⟩ := Sql.effect_statement_alone_bind h
  cases hupdate
  obtain ⟨hkept, hafter⟩ := Sql.effect_check h
  obtain ⟨rfl, -⟩ := Prod.mk.inj hafter
  obtain ⟨row, hfind, hrow, hother⟩ := updateCentroids_change _
    (CentroidRow.renewed_key _) (fun row hsel => (Bool.and_eq_true _ _ ▸ hsel).1) hkept
  obtain ⟨howned, hlease⟩ := Bool.and_eq_true _ _ ▸ hrow
  exact ⟨row, now, mapError_ok hclock, hfind, howned, hlease, rfl, rfl, hother⟩

/-- A publication needs the unexpired building row of its own claim, makes it ready and
clears the tombstone of the published location. -/
def PublishedCentroids (clock : Clock) (claim : IvfCentroidsClaim) (metadataLocation : String)
    (metadata : IvfCentroidsMetadata) (before after : Tables) : Prop :=
  ∃ row now, clock = .ok now ∧
    before.ivfCentroidArtifacts.find? (claim.sourceIdentity, claim.fingerprint) = some row ∧
    row.ownedBy claim = true ∧ row.leaseHolds now = true ∧
    after.indexes = before.indexes ∧
    after.catalogTombstones = before.catalogTombstones.delete (fun tombstone =>
      tombstone.metadataLocation = metadataLocation) ∧
    ∀ other, after.ivfCentroidArtifacts.find? other =
      if other = (claim.sourceIdentity, claim.fingerprint) then
        some (row.published metadata.artifactUuid metadataLocation)
      else before.ivfCentroidArtifacts.find? other

variable {metadata : IvfCentroidsMetadata} {entry : IvfCentroidsCatalogEntry}

theorem publishIvfCentroids_effect
    (h : Sql.Effect (publishIvfCentroids crates clock claim metadataLocation metadata)
      (before, none) entry (after, working)) :
    entry = ⟨claim.sourceIdentity, claim.fingerprint, metadata.artifactUuid, metadataLocation⟩ ∧
    PublishedCentroids clock claim metadataLocation metadata before after := by
  unfold publishIvfCentroids at h
  obtain ⟨_, -, h⟩ := Sql.effect_check_bind h
  split at h
  · exact absurd h Sql.not_effect_fail
  obtain ⟨_, -, h⟩ := Sql.effect_check_bind h
  obtain ⟨now, hclock, h⟩ := Sql.effect_check_bind h
  replace h := Sql.effect_query_alone_bind h
  replace h := Sql.effect_begin_bind h
  obtain ⟨_, _, hupdate, h⟩ := Sql.effect_statement_bind h
  cases hupdate
  obtain ⟨_, hkept, h⟩ := Sql.effect_check_bind h
  obtain ⟨_, _, hdelete, h⟩ := Sql.effect_statement_bind h
  cases hdelete
  obtain ⟨_, _, hcommit, h⟩ := Sql.effect_bind h
  obtain rfl := Sql.effect_commit hcommit
  obtain ⟨rfl, hafter⟩ := Sql.effect_pure h
  obtain ⟨rfl, -⟩ := Prod.mk.inj hafter
  obtain ⟨row, hfind, hrow, hother⟩ := updateCentroids_change _
    (CentroidRow.published_key _ _)
    (fun row hsel => (Bool.and_eq_true _ _ ▸ (Bool.and_eq_true _ _ ▸ hsel).1).2) hkept
  simp only [Bool.and_eq_true] at hrow
  exact ⟨rfl, row, now, mapError_ok hclock, hfind, hrow.1.2, hrow.2, rfl, rfl, hother⟩

/-- Abandoning needs the building row of its own claim, expired or not. -/
def AbandonedClaim (claim : IvfCentroidsClaim) (message : String) (before after : Tables) : Prop :=
  ∃ row,
    before.ivfCentroidArtifacts.find? (claim.sourceIdentity, claim.fingerprint) = some row ∧
    row.ownedBy claim = true ∧
    CentroidChange (claim.sourceIdentity, claim.fingerprint) (some (row.abandoned message))
      before after

theorem abandonIvfCentroids_effect {message : String}
    (h : Sql.Effect (abandonIvfCentroids claim message) (before, none) () (after, working)) :
    AbandonedClaim claim message before after := by
  unfold abandonIvfCentroids at h
  replace h := Sql.effect_query_alone_bind h
  obtain ⟨_, _, hupdate, h⟩ := Sql.effect_statement_alone_bind h
  cases hupdate
  obtain ⟨hkept, hafter⟩ := Sql.effect_check h
  obtain ⟨rfl, -⟩ := Prod.mk.inj hafter
  obtain ⟨row, hfind, hrow, hother⟩ := updateCentroids_change _
    (CentroidRow.abandoned_key _) (fun _ hsel => hsel) hkept
  exact ⟨row, hfind, hrow, rfl, rfl, hother⟩

/-- A purge removes the ready row it names unless it changed meanwhile. -/
def PurgedCentroids (entry : IvfCentroidsCatalogEntry) (before after : Tables) : Prop :=
  after = { before with
    ivfCentroidArtifacts := before.ivfCentroidArtifacts.delete fun row => row.isEntry entry }

theorem purgeIvfCentroids_effect
    (h : Sql.Effect (purgeIvfCentroids entry) (before, none) present (after, working)) :
    PurgedCentroids entry before after := by
  unfold purgeIvfCentroids at h
  replace h := Sql.effect_query_alone_bind h
  obtain ⟨_, _, hdelete, h⟩ := Sql.effect_statement_alone_bind h
  cases hdelete
  obtain ⟨-, hafter⟩ := Sql.effect_pure h
  exact (Prod.mk.inj hafter).1

/-! ### All calls -/

/-- What a successful call did, by kind of call. -/
def CatalogCall.Did (crates : Crates) (clock : Clock) (before after : Tables)
    (response : CatalogResponse) : CatalogCall → Prop
  | .register identifier source metadataLocation metadata =>
      Registered crates identifier source metadataLocation metadata before after
  | .commit identifier source baseLocation newLocation baseMetadata newMetadata =>
      Committed crates clock identifier source baseLocation newLocation baseMetadata newMetadata
        before after
  | .drop identifier => Dropped clock identifier before after
  | .purgeTombstone tombstone => PurgedTombstone tombstone before after
  | .claimIvfCentroids source descriptor owner leaseDurationMs =>
      ∃ result, response = .claim result ∧
        AnsweredClaim crates clock source descriptor owner leaseDurationMs before after result
  | .renewIvfCentroidsClaim claim leaseDurationMs =>
      RenewedClaim clock claim leaseDurationMs before after
  | .publishIvfCentroids claim metadataLocation metadata =>
      PublishedCentroids clock claim metadataLocation metadata before after
  | .abandonIvfCentroids claim message => AbandonedClaim claim message before after
  | .purgeIvfCentroids entry => PurgedCentroids entry before after

variable {fuse : Option ℕ}

private theorem effect_of_call_pure {program : CatalogSql α} {response : α → CatalogResponse}
    {result : CatalogResponse}
    (h : Sql.call (program >>= fun value => pure (response value)) fuse before =
      (.ok result, after)) :
    ∃ value working, result = response value ∧
      Sql.Effect program (before, none) value (after, working) := by
  obtain ⟨working, heffect⟩ := Sql.effect_of_call h
  obtain ⟨value, middle, hprogram, hpure⟩ := Sql.effect_bind heffect
  obtain ⟨rfl, rfl⟩ := Sql.effect_pure hpure
  exact ⟨value, working, rfl, hprogram⟩

/-- **Successful calls.**  What a call that returned a response checked and did. -/
theorem perform_ok {response : CatalogResponse}
    (h : perform crates request before = (.ok response, after)) :
    request.call.Did crates request.clock before after response := by
  unfold perform at h
  cases hcall : request.call with
  | register identifier source metadataLocation metadata =>
      rw [hcall] at h
      obtain ⟨_, _, -, heffect⟩ := effect_of_call_pure h
      exact register_effect heffect
  | commit identifier source baseLocation newLocation baseMetadata newMetadata =>
      rw [hcall] at h
      obtain ⟨_, _, -, heffect⟩ := effect_of_call_pure h
      exact commit_effect heffect
  | drop identifier =>
      rw [hcall] at h
      obtain ⟨_, _, -, heffect⟩ := effect_of_call_pure h
      exact drop_effect heffect
  | purgeTombstone tombstone =>
      rw [hcall] at h
      obtain ⟨_, _, -, heffect⟩ := effect_of_call_pure h
      exact purgeTombstone_effect heffect
  | claimIvfCentroids source descriptor owner leaseDurationMs =>
      rw [hcall] at h
      obtain ⟨result, _, hresponse, heffect⟩ := effect_of_call_pure h
      exact ⟨result, hresponse, claimIvfCentroids_effect heffect⟩
  | renewIvfCentroidsClaim claim leaseDurationMs =>
      rw [hcall] at h
      obtain ⟨_, _, -, heffect⟩ := effect_of_call_pure h
      exact renewIvfCentroidsClaim_effect heffect
  | publishIvfCentroids claim metadataLocation metadata =>
      rw [hcall] at h
      obtain ⟨_, _, -, heffect⟩ := effect_of_call_pure h
      exact (publishIvfCentroids_effect heffect).2
  | abandonIvfCentroids claim message =>
      rw [hcall] at h
      obtain ⟨_, _, -, heffect⟩ := effect_of_call_pure h
      exact abandonIvfCentroids_effect heffect
  | purgeIvfCentroids entry =>
      rw [hcall] at h
      obtain ⟨_, _, -, heffect⟩ := effect_of_call_pure h
      exact purgeIvfCentroids_effect heffect

/-- Only claims are answered with a claim result. -/
theorem call_of_claim_response (h : perform crates request before = (.ok (.claim result), after)) :
    ∃ source descriptor owner leaseDurationMs,
      request.call = .claimIvfCentroids source descriptor owner leaseDurationMs := by
  unfold perform at h
  cases hcall : request.call with
  | claimIvfCentroids source descriptor owner leaseDurationMs => exact ⟨_, _, _, _, rfl⟩
  | _ =>
      rw [hcall] at h
      obtain ⟨_, _, hresponse, -⟩ := effect_of_call_pure h
      cases hresponse

/-- The entry a publication of centroids answers with. -/
theorem entry_of_published
    (h : perform crates ⟨.publishIvfCentroids claim metadataLocation metadata, clock, fuse⟩ before =
      (.ok (.published entry), after)) :
    entry = ⟨claim.sourceIdentity, claim.fingerprint, metadata.artifactUuid, metadataLocation⟩ := by
  unfold perform at h
  obtain ⟨value, _, hresponse, heffect⟩ := effect_of_call_pure h
  obtain rfl : entry = value := CatalogResponse.published.inj hresponse
  exact (publishIvfCentroids_effect heffect).1

end ParqDB.Catalog
