import ParqDB.Catalog.Tombstones

/-!
# Drops of table indexes

`drop_table_index_in` (`session/catalog.rs`) removes the index of one exact source
table: it loads the catalog entry of the name, checks the source state of the entry, and
drops the name.  The three are separate awaits, and only the last one holds the session
lock, so other clients may rebind the name between them.

Every other operation is a document written under a new location and one transaction of
the catalog: a registration, the commit of a refresh, or a drop.

**Results.**

* `drops_spare_other_tables`: as long as nobody publishes another source state under the
  name of a call that has read a matching entry, a call only ever removes an index of its
  own source state.
* `rebound_index_dropped`: the removal does not look again.
-/

namespace ParqDB.Session.TableDrops

open Foundations Meta Catalog

/-! ## Calls and steps -/

/-- Where a call stands. -/
inductive Stage
  | started
  /-- The catalog has answered; the metadata document is being loaded. -/
  | found (row : IndexRow)
  /-- The source state has been checked; the call waits for the session lock. -/
  | verified
deriving DecidableEq

/-- One `drop_table_index_in` in progress. -/
structure DropCall where
  id : ℕ
  identifier : IndexIdentifier
  source : TableDefinition
  stage : Stage
deriving DecidableEq

/-- A metadata document, which is never rewritten. -/
structure Document where
  location : String
  metadata : IndexMetadata
deriving DecidableEq

/-- The catalog, the documents, and the calls in progress. -/
structure State where
  tables : Tables
  documents : KeyedTable Document.location
  calls : KeyedTable DropCall.id

def initial : State := ⟨createSchema, KeyedTable.empty, KeyedTable.empty⟩

inductive Step
  | start (id : ℕ) (identifier : IndexIdentifier) (source : TableDefinition)
  /-- `load_entry`, its catalog lookup. -/
  | lookUp (id : ℕ)
  /-- `load_entry`, its document, and the check of the source state. -/
  | verify (id : ℕ)
  /-- The drop under the session lock. -/
  | remove (id : ℕ) (clock : Clock) (fuse : Option ℕ)
  /-- The call returns an error, or its client goes away. -/
  | stop (id : ℕ)
  /-- Another operation writes a document. -/
  | write (document : Document)
  /-- Another operation calls the catalog. -/
  | request (request : Request)

/-- What a registration or a commit makes current. -/
structure Published where
  identifier : IndexIdentifier
  source : TableDefinition
  location : String
  metadata : IndexMetadata

def published? : CatalogCall → Option Published
  | .register identifier source location metadata
  | .commit identifier source _ location _ metadata => some ⟨identifier, source, location, metadata⟩
  | _ => none

/-- A document is written before it is published. -/
def isWritten (documents : KeyedTable Document.location) (call : CatalogCall) : Bool :=
  (published? call).all fun published =>
    (documents.find? published.location).map Document.metadata = some published.metadata

section

variable (crates : Crates) (state : State)

/-- The call goes on. -/
def State.withCall (call : DropCall) : State := { state with calls := state.calls.upsert call }

/-- The call ends. -/
def State.endCall (id : ℕ) : State :=
  { state with calls := state.calls.delete fun call => call.id = id }

def lookUp (call : DropCall) : State :=
  match call.stage, state.tables.mapping call.identifier with
  | .started, some row => state.withCall { call with stage := .found row }
  | .started, none => state.endCall call.id
  | _, _ => state

def verify (call : DropCall) : State :=
  match call.stage with
  | .found row =>
      if (state.documents.find? row.metadataLocation).isNone then state.endCall call.id
      else if row.sourceReference.exactStateKey crates ≠ call.source.exactStateKey crates then
        state.endCall call.id
      else state.withCall { call with stage := .verified }
  | _ => state

def remove (call : DropCall) (clock : Clock) (fuse : Option ℕ) : State :=
  match call.stage with
  | .verified =>
      { state with
        tables := Catalog.next crates state.tables ⟨.drop call.identifier, clock, fuse⟩ }.endCall
          call.id
  | _ => state

/-- A step of the call with an ID, if there is one. -/
def State.advance (id : ℕ) (change : DropCall → State) : State :=
  match state.calls.find? id with
  | none => state
  | some call => change call

def start (id : ℕ) (identifier : IndexIdentifier) (source : TableDefinition) : State :=
  match source.validate, state.calls.find? id with
  | .ok (), none => state.withCall ⟨id, identifier, source, .started⟩
  | _, _ => state

def write (document : Document) : State :=
  match state.documents.insert? document with
  | none => state
  | some documents => { state with documents := documents }

def submit (request : Request) : State :=
  if isWritten state.documents request.call then
    { state with tables := Catalog.next crates state.tables request }
  else state

/-- The state after a step. -/
def next : Step → State
  | .start id identifier source => start state id identifier source
  | .lookUp id => state.advance id (lookUp state)
  | .verify id => state.advance id (verify crates state)
  | .remove id clock fuse => state.advance id fun call => remove crates state call clock fuse
  | .stop id => state.endCall id
  | .write document => write state document
  | .request request => submit crates state request

/-- The law of one step: a call that removes a mapping removes one whose document is of the
source state the call was made for. -/
def RemovesOwn : Step → Prop
  | .remove id clock fuse =>
      ∀ call row, state.calls.find? id = some call →
        state.tables.mapping call.identifier = some row →
          (next crates state (.remove id clock fuse)).tables.mapping call.identifier = none →
            ∃ document snapshot,
              state.documents.find? row.metadataLocation = some document ∧
                document.metadata.currentSnapshot = .ok snapshot ∧
                  snapshot.sourceTable.exactStateKey crates = call.source.exactStateKey crates
  | _ => True

/-- The call has read an entry of its own source state. -/
def DropCall.Trusts (call : DropCall) : Prop :=
  match call.stage with
  | .started => False
  | .found row => row.sourceReference.exactStateKey crates = call.source.exactStateKey crates
  | .verified => True

instance (call : DropCall) : Decidable (call.Trusts crates) :=
  match call with
  | ⟨_, _, _, .started⟩ => isFalse id
  | ⟨_, _, source, .found row⟩ =>
      inferInstanceAs (Decidable
        (row.sourceReference.exactStateKey crates = source.exactStateKey crates))
  | ⟨_, _, _, .verified⟩ => isTrue trivial

/-- Nobody publishes another source state under the name of a call that has read a matching
entry. -/
def Spares : Step → Prop
  | .request request =>
      ∀ call ∈ state.calls.rows, call.Trusts crates →
        ∀ published ∈ published? request.call, published.identifier = call.identifier →
          (perform crates request state.tables).1.isOk = true →
            published.source.exactStateKey crates = call.source.exactStateKey crates
  | _ => True

instance (step : Step) : Decidable (Spares crates state step) :=
  match step with
  | .request request =>
      inferInstanceAs (Decidable (∀ call ∈ state.calls.rows, call.Trusts crates →
        ∀ published ∈ published? request.call, published.identifier = call.identifier →
          (perform crates request state.tables).1.isOk = true →
            published.source.exactStateKey crates = call.source.exactStateKey crates))
  | .start _ _ _ | .lookUp _ | .verify _ | .remove _ _ _ | .stop _ | .write _ => isTrue trivial

end

/-! ## What a step keeps -/

variable {crates : Crates} {state : State}

theorem sourceTable_of_validateSourceBinding {source : TableDefinition} {metadata : IndexMetadata}
    (hbinding : validateSourceBinding source metadata = .ok ()) :
    ∃ snapshot, metadata.currentSnapshot = .ok snapshot ∧ snapshot.sourceTable = source := by
  unfold validateSourceBinding at hbinding
  split at hbinding
  · cases hbinding
  · rename_i snapshot hsnapshot
    split at hbinding
    · cases hbinding
    · rename_i hsame
      exact ⟨snapshot, hsnapshot, not_not.mp hsame⟩

/-- The row of a publication. -/
structure IsRowOf (row : IndexRow) (published : Published) : Prop where
  key : row.key = published.identifier.tableKey
  location : row.metadataLocation = published.location
  source : row.sourceReference = published.source
  bound : validateSourceBinding published.source published.metadata = .ok ()

/-- A row after a call is an old one or that of its publication. -/
theorem mem_indexes_of_perform {request : Request} {before after : Tables}
    {response : CatalogResponse} (hperform : perform crates request before = (.ok response, after))
    {row : IndexRow} (hrow : row ∈ after.indexes) :
    row ∈ before.indexes ∨
      ∃ published, published? request.call = some published ∧ IsRowOf row published := by
  have hdid := perform_ok hperform
  cases hcall : request.call with
  | register identifier source location metadata =>
      rw [hcall] at hdid
      by_cases hold : row ∈ before.indexes
      · exact .inl hold
      have hregistered : Registered crates identifier source location metadata before after := hdid
      obtain ⟨added, hkey, hlocation, -, hinsert⟩ := hregistered.mapped
      have hsource := hregistered.reference row hrow hold
      rcases ((KeyedTable.insert?_eq_some hinsert).2 row).mp hrow with rfl | hmem
      · exact .inr ⟨_, rfl, hkey, hlocation, hsource, hregistered.boundSource⟩
      · exact absurd hmem hold
  | commit identifier source base location baseMetadata metadata =>
      rw [hcall] at hdid
      have hcommitted : Committed crates request.clock identifier source base location baseMetadata
        metadata before after := hdid
      rcases hcommitted.mem_indexes.mp hrow with ⟨old, hmapped, rfl⟩ | ⟨hold, -⟩
      · refine .inr ⟨_, rfl, ?_, rfl, rfl, hcommitted.boundSource⟩
        exact (IndexRow.advance_key _ _ _ old).trans (KeyedTable.find?_eq_some_iff.mp hmapped).2
      · exact .inl hold
  | drop identifier =>
      rw [hcall] at hdid
      have hdropped : Dropped request.clock identifier before after := hdid
      rw [hdropped.mapped] at hrow
      exact .inl (KeyedTable.mem_delete.mp hrow).1
  | purgeTombstone | claimIvfCentroids | renewIvfCentroidsClaim | publishIvfCentroids
  | abandonIvfCentroids | purgeIvfCentroids =>
      rw [hcall] at hdid
      rw [(hdid.keeps trivial).1] at hrow
      exact .inl hrow

/-- Every mapping is to a written document of its source, and nobody whose entry matched is
left with a mapping of another source state. -/
structure Consistent (crates : Crates) (state : State) : Prop where
  mapped : ∀ row ∈ state.tables.indexes, ∃ document snapshot,
    state.documents.find? row.metadataLocation = some document ∧
      document.metadata.currentSnapshot = .ok snapshot ∧ snapshot.sourceTable = row.sourceReference
  trusted : ∀ call ∈ state.calls, call.Trusts crates →
    ∀ row ∈ state.tables.indexes, row.key = call.identifier.tableKey →
      row.sourceReference.exactStateKey crates = call.source.exactStateKey crates

namespace Consistent

variable (hconsistent : Consistent crates state)
include hconsistent

/-- A call goes on whose trust is justified. -/
theorem withCall {call : DropCall}
    (hcall : call.Trusts crates → ∀ row ∈ state.tables.indexes,
      row.key = call.identifier.tableKey →
        row.sourceReference.exactStateKey crates = call.source.exactStateKey crates) :
    Consistent crates (state.withCall call) where
  mapped := hconsistent.mapped
  trusted := by
    intro other hother
    rcases KeyedTable.mem_upsert.mp hother with rfl | ⟨hold, -⟩
    · exact hcall
    · exact hconsistent.trusted other hold

theorem endCall (id : ℕ) : Consistent crates (state.endCall id) where
  mapped := hconsistent.mapped
  trusted := fun call hcall => hconsistent.trusted call (KeyedTable.mem_delete.mp hcall).1

/-- A call of the catalog that spares the calls in progress. -/
theorem request {request : Request} (hwritten : isWritten state.documents request.call = true)
    (hspares : Spares crates state (.request request)) :
    Consistent crates { state with tables := Catalog.next crates state.tables request } := by
  unfold Catalog.next
  rcases hperform : perform crates request state.tables with ⟨outcome, tables⟩
  cases outcome with
  | error error =>
      obtain rfl : tables = state.tables := perform_error hperform
      exact hconsistent
  | ok response =>
      refine ⟨?_, ?_⟩
      · intro row hrow
        rcases mem_indexes_of_perform hperform hrow with hold | ⟨published, hpublished, hof⟩
        · exact hconsistent.mapped row hold
        · rw [isWritten, hpublished, Option.all_some, decide_eq_true_eq,
            Option.map_eq_some_iff] at hwritten
          obtain ⟨document, hdocument, hmetadata⟩ := hwritten
          obtain ⟨snapshot, hsnapshot, hsource⟩ := sourceTable_of_validateSourceBinding hof.bound
          rw [← hmetadata] at hsnapshot
          exact ⟨document, snapshot, hof.location ▸ hdocument, hsnapshot,
            hsource.trans hof.source.symm⟩
      · intro call hcall htrusts row hrow hkey
        rcases mem_indexes_of_perform hperform hrow with hold | ⟨published, hpublished, hof⟩
        · exact hconsistent.trusted call hcall htrusts row hold hkey
        · rw [hof.source]
          apply hspares call hcall htrusts published hpublished
          · exact IndexIdentifier.tableKey_injective (hof.key.symm.trans hkey)
          · rw [hperform]
            rfl

theorem lookUp {call : DropCall} : Consistent crates (lookUp state call) := by
  unfold TableDrops.lookUp
  split
  · rename_i row _ hmapped
    apply hconsistent.withCall
    intro htrusts other hother hkey
    -- the row just read is the only one of the name
    have hrow := KeyedTable.find?_eq_some_iff.mp hmapped
    rw [KeyedTable.eq_of_key_eq hother hrow.1 (hkey.trans hrow.2.symm)]
    exact htrusts
  · exact hconsistent.endCall call.id
  · exact hconsistent

theorem verify {call : DropCall} (hcall : call ∈ state.calls) :
    Consistent crates (verify crates state call) := by
  unfold TableDrops.verify
  split
  · rename_i row hstage
    split
    · exact hconsistent.endCall call.id
    · split
      · exact hconsistent.endCall call.id
      · rename_i _ hmatches
        apply hconsistent.withCall
        intro _ other hother hkey
        apply hconsistent.trusted call hcall _ other hother hkey
        rw [DropCall.Trusts, hstage]
        exact not_not.mp hmatches
  · exact hconsistent

theorem remove (call : DropCall) (clock : Clock) (fuse : Option ℕ) :
    Consistent crates (remove crates state call clock fuse) := by
  unfold TableDrops.remove
  split
  · apply Consistent.endCall
    apply hconsistent.request rfl
    intro _ _ _ published hpublished
    cases hpublished
  · exact hconsistent

theorem advance {id : ℕ} {change : DropCall → State}
    (hchange : ∀ call ∈ state.calls, Consistent crates (change call)) :
    Consistent crates (state.advance id change) := by
  unfold State.advance
  split
  · exact hconsistent
  · rename_i call hcall
    exact hchange call (KeyedTable.find?_eq_some_iff.mp hcall).1

theorem start (id : ℕ) (identifier : IndexIdentifier) (source : TableDefinition) :
    Consistent crates (start state id identifier source) := by
  unfold TableDrops.start
  split
  · apply hconsistent.withCall
    intro htrusts
    cases htrusts
  · exact hconsistent

theorem write (document : Document) : Consistent crates (write state document) := by
  unfold TableDrops.write
  split
  · exact hconsistent
  · rename_i documents hinsert
    refine ⟨?_, hconsistent.trusted⟩
    intro row hrow
    obtain ⟨stored, snapshot, hstored, hsnapshot, hsource⟩ := hconsistent.mapped row hrow
    refine ⟨stored, snapshot, ?_, hsnapshot, hsource⟩
    have hfound := KeyedTable.find?_eq_some_iff.mp hstored
    exact KeyedTable.find?_eq_some_iff.mpr
      ⟨((KeyedTable.insert?_eq_some hinsert).2 stored).mpr (.inr hfound.1), hfound.2⟩

theorem submit {request : Request} (hspares : Spares crates state (.request request)) :
    Consistent crates (submit crates state request) := by
  unfold TableDrops.submit
  split
  · rename_i hwritten
    exact hconsistent.request hwritten hspares
  · exact hconsistent

/-- One step. -/
theorem next {step : Step} (hspares : Spares crates state step) :
    Consistent crates (next crates state step) := by
  cases step with
  | start id identifier source => exact hconsistent.start id identifier source
  | lookUp id => exact hconsistent.advance fun _ _ => hconsistent.lookUp
  | verify id => exact hconsistent.advance fun _ hcall => hconsistent.verify hcall
  | remove id clock fuse => exact hconsistent.advance fun call _ => hconsistent.remove call clock fuse
  | stop id => exact hconsistent.endCall id
  | write document => exact hconsistent.write document
  | request request => exact hconsistent.submit hspares

/-- What a call removes is of its source state. -/
theorem removesOwn (step : Step) : RemovesOwn crates state step := by
  cases step with
  | remove id clock fuse =>
      intro call row hcall hmapped hremoved
      have hrow := KeyedTable.find?_eq_some_iff.mp hmapped
      have hmember := (KeyedTable.find?_eq_some_iff.mp hcall).1
      have htrusts : call.Trusts crates := by
        rw [TableDrops.next, State.advance, hcall] at hremoved
        dsimp only at hremoved
        cases hstage : call.stage with
        | verified =>
            rw [DropCall.Trusts, hstage]
            trivial
        | started | found =>
            rw [TableDrops.remove, hstage, hmapped] at hremoved
            cases hremoved
      obtain ⟨document, snapshot, hdocument, hsnapshot, hsource⟩ := hconsistent.mapped row hrow.1
      refine ⟨document, snapshot, hdocument, hsnapshot, ?_⟩
      rw [hsource]
      exact hconsistent.trusted call hmember htrusts row hrow.1 hrow.2
  | start | lookUp | verify | stop | write | request => trivial

end Consistent

theorem consistent_initial : Consistent crates initial where
  mapped := fun _ hrow => absurd hrow List.not_mem_nil
  trusted := fun _ hcall => absurd hcall List.not_mem_nil

/-- As long as nobody publishes another source state under the name of a call that has read a
matching entry, a call only removes indexes of its own source state, in every interleaving. -/
theorem drops_spare_other_tables (crates : Crates) (steps : List Step)
    (hspares : ∀ pair ∈ stepsOf (next crates) initial steps, Spares crates pair.1 pair.2) :
    ∀ pair ∈ stepsOf (next crates) initial steps, RemovesOwn crates pair.1 pair.2 := by
  have hstep : ∀ state step, Consistent crates state → Spares crates state step →
      Consistent crates (next crates state step) := fun _ _ hconsistent => hconsistent.next
  intro pair hpair
  have hstates := forall_mem_statesOf hstep consistent_initial hspares
  exact (hstates pair.1 (fst_mem_statesOf hpair)).removesOwn pair.2

/-! ## A name that is rebound -/

section

/-- The table after it moved. -/
def movedSource : TableDefinition :=
  { sampleSource with
    properties := ⟨[("definition-version", "1"), ("location", "file:///tmp/next.parquet")],
      by decide⟩ }

/-- The sample crates with the fingerprints of both states. -/
def movingCrates : Crates :=
  { sampleCrates with
    newV5 := fun name text =>
      if text = movedSource.exactTableState then 0xae2c1502c9165053a6a34768bf197b26
      else sampleCrates.newV5 name text }

def movedMetadata : IndexMetadata :=
  { sampleMetadata with
    indexUuid := 0x000000000000400080000000000000bb
    snapshots := [{ sampleSnapshot with sourceTable := movedSource }] }

def movedLocation : String :=
  "file:///w/metadata/00000000-0000-4000-8000-0000000000bb/v1.metadata.json"

/-- An index is published, and a call for its source checks it. -/
def checkedDrop : List Step :=
  [.write ⟨firstLocation, sampleMetadata⟩,
    .request ⟨.register sampleIdentifier sampleSource firstLocation sampleMetadata, .ok 2000, none⟩,
    .start 1 sampleIdentifier sampleSource, .lookUp 1, .verify 1]

/-- Before the call gets the lock, the index is dropped and another table's takes its name. -/
def reboundDrop : List Step :=
  checkedDrop ++
    [.request ⟨.drop sampleIdentifier, .ok 3000, none⟩, .write ⟨movedLocation, movedMetadata⟩,
      .request ⟨.register sampleIdentifier movedSource movedLocation movedMetadata, .ok 4000, none⟩]

/-- The call drops the index of the other table. -/
theorem rebound_index_dropped :
    ¬ ∀ pair ∈ stepsOf (next movingCrates) initial (reboundDrop ++ [.remove 1 (.ok 5000) none]),
      RemovesOwn movingCrates pair.1 pair.2 := by
  intro hlaw
  have hlast : (reboundDrop.foldl (next movingCrates) initial, Step.remove 1 (.ok 5000) none) ∈
      stepsOf (next movingCrates) initial (reboundDrop ++ [.remove 1 (.ok 5000) none]) := by
    rw [stepsOf_append]
    exact List.mem_append_right _ List.mem_cons_self
  have hstate : (reboundDrop.foldl (next movingCrates) initial).calls.find? 1 =
        some ⟨1, sampleIdentifier, sampleSource, .verified⟩ ∧
      ((reboundDrop.foldl (next movingCrates) initial).tables.mapping sampleIdentifier).map
        IndexRow.metadataLocation = some movedLocation ∧
      (next movingCrates (reboundDrop.foldl (next movingCrates) initial)
        (.remove 1 (.ok 5000) none)).tables.mapping sampleIdentifier = none ∧
      (reboundDrop.foldl (next movingCrates) initial).documents.find? movedLocation =
        some ⟨movedLocation, movedMetadata⟩ := by
    decide +kernel
  have hkeys : movedSource.exactStateKey movingCrates ≠
      sampleSource.exactStateKey movingCrates := by
    decide +kernel
  obtain ⟨hcall, hmapped, hgone, hdocument⟩ := hstate
  obtain ⟨row, hrow, hlocation⟩ := Option.map_eq_some_iff.mp hmapped
  have hown := hlaw _ hlast
  generalize reboundDrop.foldl (next movingCrates) initial = state at *
  obtain ⟨document, snapshot, hfound, hsnapshot, hkey⟩ := hown _ row hcall hrow hgone
  rw [hlocation, hdocument] at hfound
  cases hfound
  cases hsnapshot
  exact hkeys hkey

/-- A call that nobody crosses drops its own index. -/
theorem checked_index_dropped :
    (∀ pair ∈ stepsOf (next movingCrates) initial (checkedDrop ++ [.remove 1 (.ok 5000) none]),
        Spares movingCrates pair.1 pair.2) ∧
      ∀ pair ∈ stepsOf (next movingCrates) initial (checkedDrop ++ [.remove 1 (.ok 5000) none]),
        RemovesOwn movingCrates pair.1 pair.2 := by
  have hspares : ∀ pair ∈ stepsOf (next movingCrates) initial
      (checkedDrop ++ [.remove 1 (.ok 5000) none]), Spares movingCrates pair.1 pair.2 := by
    decide +kernel
  exact ⟨hspares, drops_spare_other_tables movingCrates _ hspares⟩

end

end ParqDB.Session.TableDrops
