import ParqDB.Catalog.Effects
import ParqDB.Foundations.Runs
import ParqDB.Meta.History

/-!
# No lost update

A history of the catalog is a sequence of calls by any number of clients, each of them
one transaction, in the order in which the database serializes them.  The module
follows the mapping of one identifier through a history.

**Strategy.**

* `Event.mappingChange` says once what a call can do to the mapping of an identifier:
  nothing, register it, advance it, or drop it.
* A successful commit finds its base as the current location and leaves another one, so
  two commits on one base need a call in between that made the base current again.
* Between a registration and the next drop the current location and UUID are those of
  the last successful commit, so the commits form a chain.
-/

namespace ParqDB.Catalog

open Foundations Meta

variable {crates : Crates}

/-! ## Histories -/

/-- A performed call with its outcome and the tables around it. -/
structure Event where
  request : Request
  outcome : Except CatalogError CatalogResponse
  before : Tables
  after : Tables

/-- The event is what the catalog does with the request on these tables. -/
def Event.Occurs (crates : Crates) (first : Tables) (event : Event) (last : Tables) : Prop :=
  event.before = first ∧ event.after = last ∧
    perform crates event.request event.before = (event.outcome, event.after)

/-- The calls of a history, performed one after the other. -/
def history (crates : Crates) : Tables → List Request → List Event
  | _, [] => []
  | tables, request :: rest =>
      let result := perform crates request tables
      ⟨request, result.1, tables, result.2⟩ :: history crates result.2 rest

theorem history_run (crates : Crates) (tables : Tables) (requests : List Request) :
    ∃ last, Run (Event.Occurs crates) tables (history crates tables requests) last := by
  induction requests generalizing tables with
  | nil => exact ⟨tables, rfl⟩
  | cons request rest ih =>
      obtain ⟨last, hrun⟩ := ih (perform crates request tables).2
      exact ⟨last, _, ⟨rfl, rfl, rfl⟩, hrun⟩

/-! ## What an event does to one identifier -/

/-- A publication of a metadata location under an identifier. -/
structure Publication where
  /-- The location the commit was based on; none for a registration. -/
  base : Option String
  location : String
  indexUuid : Uuid
deriving DecidableEq

/-- The successful registration of `identifier`, if the event is one. -/
def Event.registration (identifier : IndexIdentifier) (event : Event) : Option Publication :=
  match event.outcome, event.request.call with
  | .ok _, .register target _ metadataLocation metadata =>
      if target = identifier then some ⟨none, metadataLocation, metadata.indexUuid⟩ else none
  | _, _ => none

/-- The successful commit of `identifier`, if the event is one. -/
def Event.commitOf (identifier : IndexIdentifier) (event : Event) : Option Publication :=
  match event.outcome, event.request.call with
  | .ok _, .commit target _ baseLocation newLocation _ newMetadata =>
      if target = identifier then some ⟨some baseLocation, newLocation, newMetadata.indexUuid⟩
      else none
  | _, _ => none

/-- The event is a successful drop of `identifier`. -/
def Event.drops (identifier : IndexIdentifier) (event : Event) : Bool :=
  match event.outcome, event.request.call with
  | .ok _, .drop target => target = identifier
  | _, _ => false

/-- The location and UUID an identifier is mapped to. -/
def Tables.current (tables : Tables) (identifier : IndexIdentifier) : Option (String × Uuid) :=
  (tables.mapping identifier).map fun row => (row.metadataLocation, row.indexUuid)

/-- All that an event can do to the mapping of an identifier. -/
inductive Event.MappingChange (identifier : IndexIdentifier) (event : Event) : Prop
  | unchanged (hregistration : event.registration identifier = none)
      (hcommit : event.commitOf identifier = none) (hdrop : event.drops identifier = false)
      (hsame : event.after.current identifier = event.before.current identifier)
  | registered (publication : Publication)
      (hregistration : event.registration identifier = some publication)
      (hcommit : event.commitOf identifier = none) (hdrop : event.drops identifier = false)
      (habsent : event.before.current identifier = none)
      (hafter : event.after.current identifier =
        some (publication.location, publication.indexUuid))
  | committed (base location : String) (indexUuid : Uuid)
      (hregistration : event.registration identifier = none)
      (hcommit : event.commitOf identifier = some ⟨some base, location, indexUuid⟩)
      (hdrop : event.drops identifier = false) (hdistinct : base ≠ location)
      (hbefore : event.before.current identifier = some (base, indexUuid))
      (hafter : event.after.current identifier = some (location, indexUuid))
  | dropped (hregistration : event.registration identifier = none)
      (hcommit : event.commitOf identifier = none) (hdrop : event.drops identifier = true)
      (hafter : event.after.current identifier = none)

variable {identifier : IndexIdentifier} {source : TableDefinition} {clock : Clock}
  {first last : Tables}

variable {before after : Tables} {metadataLocation : String} {metadata : IndexMetadata}

theorem Registered.currentAfter
    (h : Registered crates identifier source metadataLocation metadata before after)
    (other : IndexIdentifier) :
    after.current other = if identifier = other then some (metadataLocation, metadata.indexUuid)
      else before.current other := by
  obtain ⟨row, hkey, rfl, huuid, hinsert⟩ := h.mapped
  unfold Tables.current Tables.mapping
  rw [KeyedTable.find?_insert? hinsert, hkey]
  by_cases hsame : identifier = other
  · simp [hsame, huuid]
  · rw [if_neg fun heq => hsame (IndexIdentifier.tableKey_injective heq), if_neg hsame]

theorem Committed.currentAfter {baseLocation newLocation : String}
    {baseMetadata newMetadata : IndexMetadata}
    (h : Committed crates clock identifier source baseLocation newLocation baseMetadata newMetadata
      before after) (other : IndexIdentifier) :
    after.current other = if identifier = other then some (newLocation, newMetadata.indexUuid)
      else before.current other := by
  obtain ⟨row, hrow, hbase, huuid⟩ := h.current
  have hselected : row.isUnchanged (Json.arrayText identifier.namespace) identifier.name
      baseLocation newMetadata.indexUuid = true :=
    IndexRow.isUnchanged_iff.mpr ⟨(KeyedTable.find?_eq_some_iff.mp hrow).2, hbase, huuid⟩
  unfold Tables.current Tables.mapping
  rw [h.mapped, KeyedTable.find?_update_of_selected (k := identifier.tableKey)
    (IndexRow.advance_key _ _ _) (fun other hother => (IndexRow.isUnchanged_iff.mp hother).1) hrow hselected]
  by_cases hsame : identifier = other
  · simp [hsame, IndexRow.advance, huuid]
  · rw [if_neg fun heq => hsame (IndexIdentifier.tableKey_injective heq.symm), if_neg hsame]

theorem Dropped.currentAfter (h : Dropped clock identifier before after)
    (other : IndexIdentifier) :
    after.current other = if identifier = other then none else before.current other := by
  unfold Tables.current Tables.mapping
  rw [h.mapped, KeyedTable.find?_delete]
  by_cases hsame : identifier = other
  · subst hsame
    cases hfound : before.indexes.find? identifier.tableKey with
    | none => simp
    | some row =>
        have hselected : row.isAt (Json.arrayText identifier.namespace) identifier.name = true :=
          IndexRow.isAt_iff.mpr (KeyedTable.find?_eq_some_iff.mp hfound).2
        simp [hselected]
  · rw [if_neg hsame]
    cases hfound : before.indexes.find? other.tableKey with
    | none => rfl
    | some row =>
        have hnot : row.isAt (Json.arrayText identifier.namespace) identifier.name = false := by
          rw [Bool.eq_false_iff]
          intro hselected
          have hkey := IndexRow.isAt_iff.mp hselected
          rw [(KeyedTable.find?_eq_some_iff.mp hfound).2] at hkey
          exact hsame (IndexIdentifier.tableKey_injective hkey.symm)
        simp [hnot]

/-- Calls that are no register, commit or drop leave every mapping alone and add no tombstone. -/
theorem CatalogCall.Did.keeps {response : CatalogResponse}
    {call : CatalogCall} (hdid : call.Did crates clock before after response)
    (hcall : match call with | .register .. | .commit .. | .drop .. => False | _ => True) :
    after.indexes = before.indexes ∧
      ∀ tombstone ∈ after.catalogTombstones, tombstone ∈ before.catalogTombstones := by
  have hdeleted : ∀ {taken : CatalogTombstone → Bool} {tombstone},
      tombstone ∈ before.catalogTombstones.delete taken → tombstone ∈ before.catalogTombstones :=
    fun hfound => (KeyedTable.mem_delete.mp hfound).1
  cases call with
  | register => exact hcall.elim
  | commit => exact hcall.elim
  | drop => exact hcall.elim
  | purgeTombstone tombstone =>
      obtain rfl : after = _ := hdid
      exact ⟨rfl, fun _ => hdeleted⟩
  | claimIvfCentroids source descriptor owner leaseDurationMs =>
      obtain ⟨result, -, fingerprint, now, -, -, -, houtcome⟩ := hdid
      cases houtcome with
      | ready row artifactUuid metadataLocation _ _ _ _ hsame =>
          exact hsame ▸ ⟨rfl, fun _ => id⟩
      | busy row expires _ _ hsame => exact hsame ▸ ⟨rfl, fun _ => id⟩
      | claimed _ hchange => exact ⟨hchange.indexes, fun _ => (hchange.tombstones ▸ ·)⟩
  | renewIvfCentroidsClaim claim leaseDurationMs =>
      obtain ⟨row, now, -, -, -, -, hchange⟩ := hdid
      exact ⟨hchange.indexes, fun _ => (hchange.tombstones ▸ ·)⟩
  | publishIvfCentroids claim metadataLocation metadata =>
      obtain ⟨row, now, -, -, -, -, hindexes, htombstones, -⟩ := hdid
      exact ⟨hindexes, fun _ hfound => hdeleted (htombstones ▸ hfound)⟩
  | abandonIvfCentroids claim message =>
      obtain ⟨row, -, -, hchange⟩ := hdid
      exact ⟨hchange.indexes, fun _ => (hchange.tombstones ▸ ·)⟩
  | purgeIvfCentroids entry =>
      obtain rfl : after = _ := hdid
      exact ⟨rfl, fun _ => id⟩

variable {event : Event}

theorem Event.mappingChange (hoccurs : event.Occurs crates first last)
    (identifier : IndexIdentifier) : event.MappingChange identifier := by
  obtain ⟨-, -, hperform⟩ := hoccurs
  obtain ⟨⟨call, clock, fuse⟩, outcome, before, after⟩ := event
  dsimp only at hperform
  cases outcome with
  | error error =>
      obtain rfl : after = before := perform_error hperform
      exact .unchanged rfl rfl rfl rfl
  | ok response =>
      have hdid := perform_ok hperform
      cases call with
      | register target source metadataLocation metadata =>
          have hcurrent := hdid.currentAfter identifier
          by_cases htarget : target = identifier
          · subst htarget
            refine .registered ⟨none, metadataLocation, metadata.indexUuid⟩ ?_ rfl rfl ?_ ?_
            · simp [Event.registration]
            · simp [Tables.current, hdid.absent]
            · simpa using hcurrent
          · rw [if_neg htarget] at hcurrent
            exact .unchanged (by simp [Event.registration, htarget]) rfl rfl hcurrent
      | commit target source baseLocation newLocation baseMetadata newMetadata =>
          have hcurrent := hdid.currentAfter identifier
          by_cases htarget : target = identifier
          · subst htarget
            obtain ⟨row, hrow, hbase, huuid⟩ := hdid.current
            refine .committed baseLocation newLocation newMetadata.indexUuid rfl ?_ rfl
              hdid.distinct ?_ ?_
            · simp [Event.commitOf]
            · simp [Tables.current, hrow, hbase, huuid]
            · simpa using hcurrent
          · rw [if_neg htarget] at hcurrent
            exact .unchanged rfl (by simp [Event.commitOf, htarget]) rfl hcurrent
      | drop target =>
          have hcurrent := hdid.currentAfter identifier
          by_cases htarget : target = identifier
          · subst htarget
            exact .dropped rfl rfl (by simp [Event.drops]) (by simpa using hcurrent)
          · rw [if_neg htarget] at hcurrent
            exact .unchanged rfl rfl (by simp [Event.drops, htarget]) hcurrent
      | _ =>
          refine .unchanged rfl rfl rfl ?_
          simp only [Tables.current, Tables.mapping, (hdid.keeps trivial).1]

/-! ## Commits on one base -/

/-- The current location of an identifier. -/
def Tables.currentLocation (tables : Tables) (identifier : IndexIdentifier) : Option String :=
  (tables.current identifier).map Prod.fst

variable {publication : Publication}

/-- A successful commit moves its identifier from its base to another location. -/
theorem currentLocation_commit (hoccurs : event.Occurs crates first last)
    (hcommit : event.commitOf identifier = some publication) :
    ∃ base, publication.base = some base ∧ first.currentLocation identifier = some base ∧
      last.currentLocation identifier ≠ some base := by
  have hchange := event.mappingChange hoccurs identifier
  obtain ⟨rfl, rfl, -⟩ := hoccurs
  cases hchange with
  | unchanged _ hnone => simp [hnone] at hcommit
  | registered _ _ hnone => simp [hnone] at hcommit
  | dropped _ hnone => simp [hnone] at hcommit
  | committed base location indexUuid _ hsome _ hdistinct hbefore hafter =>
      obtain rfl := Option.some.inj (hcommit.symm.trans hsome)
      refine ⟨base, rfl, by simp [Tables.currentLocation, hbefore], ?_⟩
      simpa [Tables.currentLocation, hafter] using hdistinct.symm

/-- Between two successful commits on one base, some call made the base current again. -/
theorem base_restored_between {earlier later : Event} {between : List Event}
    {left right : Publication}
    (hrun : Run (Event.Occurs crates) first (earlier :: (between ++ [later])) last)
    (hearlier : earlier.commitOf identifier = some left)
    (hlater : later.commitOf identifier = some right) (hbase : left.base = right.base) :
    ∃ event ∈ between, event.before.currentLocation identifier ≠ left.base ∧
      event.after.currentLocation identifier = left.base := by
  obtain ⟨afterEarlier, hfirstStep, hrest⟩ := hrun
  obtain ⟨beforeLater, hbetween, _, hlaterStep, -⟩ := Run.append_iff.mp hrest
  obtain ⟨base, hleft, -, hmoved⟩ := currentLocation_commit hfirstStep hearlier
  obtain ⟨base', hright, hcurrent, -⟩ := currentLocation_commit hlaterStep hlater
  obtain rfl : base = base' := Option.some.inj (hleft.symm.trans (hbase.trans hright))
  obtain ⟨event, hmem, before, after, ⟨rfl, rfl, -⟩, hnot, hagain⟩ :=
    hbetween.exists_step (fun tables => tables.currentLocation identifier = some base)
      hmoved hcurrent
  exact ⟨event, hmem, by rwa [hleft], by rwa [hleft]⟩

/-! ## The chain of an index -/

/-- The next commit is based on the previous publication and keeps the UUID. -/
def Publication.Follows (previous next : Publication) : Prop :=
  next.base = some previous.location ∧ next.indexUuid = previous.indexUuid

theorem commits_follow {events : List Event}
    (hcurrent : first.current identifier = some (publication.location, publication.indexUuid))
    (hrun : Run (Event.Occurs crates) first events last)
    (hdrops : ∀ event ∈ events, event.drops identifier = false) :
    (publication :: events.filterMap (Event.commitOf identifier)).IsChain
      Publication.Follows := by
  -- along the events, `publication` is the one the mapping points to
  induction events generalizing first publication with
  | nil => exact List.IsChain.singleton _
  | cons event events ih =>
      obtain ⟨next, ⟨rfl, rfl, hperform⟩, hrest⟩ := hrun
      have hrestDrops := fun later hlater => hdrops later (List.mem_cons_of_mem event hlater)
      cases Event.mappingChange ⟨rfl, rfl, hperform⟩ identifier with
      | unchanged _ hcommit _ hsame =>
          rw [List.filterMap_cons_none hcommit]
          exact ih (hsame.trans hcurrent) hrest hrestDrops
      | registered _ _ _ _ habsent =>
          rw [habsent] at hcurrent
          cases hcurrent
      | committed base location indexUuid _ hcommit _ _ hbefore hafter =>
          rw [List.filterMap_cons_some hcommit]
          obtain ⟨hlocation, huuid⟩ := Prod.mk.inj (Option.some.inj (hbefore.symm.trans hcurrent))
          have hchain : (⟨some base, location, indexUuid⟩ ::
              events.filterMap (Event.commitOf identifier)).IsChain Publication.Follows :=
            ih hafter hrest hrestDrops
          exact List.IsChain.cons_cons ⟨congrArg some hlocation, huuid⟩ hchain
      | dropped _ _ hdrop =>
          rw [hdrops event List.mem_cons_self] at hdrop
          cases hdrop

/-- **No lost update.**  For every history of calls from any catalog state:

* two successful commits of one identifier on the same base location are separated by a
  call that made that location current again;
* from a successful registration on, as long as the identifier is not dropped, its
  successful commits form one chain of base and new locations with a constant UUID;
* a call that returned an error left every table as it was. -/
theorem catalog_no_lost_update (crates : Crates) (tables : Tables) (requests : List Request) :
    (∀ (identifier : IndexIdentifier) (earlier later : Event) (left right : Publication)
        (before between after : List Event),
      history crates tables requests = before ++ earlier :: (between ++ later :: after) →
      earlier.commitOf identifier = some left → later.commitOf identifier = some right →
      left.base = right.base →
      ∃ event ∈ between, event.before.currentLocation identifier ≠ left.base ∧
        event.after.currentLocation identifier = left.base) ∧
    (∀ (identifier : IndexIdentifier) (registration : Event) (publication : Publication)
        (before events after : List Event),
      history crates tables requests = before ++ registration :: (events ++ after) →
      registration.registration identifier = some publication →
      (∀ event ∈ events, event.drops identifier = false) →
      (publication :: events.filterMap (Event.commitOf identifier)).IsChain
        Publication.Follows) ∧
    (∀ event ∈ history crates tables requests, ∀ error, event.outcome = .error error →
      event.after = event.before) := by
  obtain ⟨last, hrun⟩ := history_run crates tables requests
  refine ⟨?_, ?_, ?_⟩
  · intro identifier earlier later left right before between after hsplit hearlier hlater hbase
    rw [hsplit] at hrun
    obtain ⟨start, -, hrest⟩ := Run.append_iff.mp hrun
    have hsegment : earlier :: (between ++ later :: after) =
        (earlier :: (between ++ [later])) ++ after := by simp
    rw [hsegment] at hrest
    obtain ⟨stop, hmiddle, -⟩ := Run.append_iff.mp hrest
    exact base_restored_between hmiddle hearlier hlater hbase
  · intro identifier registration publication before events after hsplit hregistration hdrops
    rw [hsplit] at hrun
    obtain ⟨start, -, next, hstep, hrest⟩ := Run.append_iff.mp hrun
    obtain ⟨stop, hevents, -⟩ := Run.append_iff.mp hrest
    refine commits_follow ?_ hevents hdrops
    have hchange := registration.mappingChange hstep identifier
    obtain ⟨-, rfl, -⟩ := hstep
    cases hchange with
    | unchanged hnone => simp [hnone] at hregistration
    | committed _ _ _ hnone => simp [hnone] at hregistration
    | dropped hnone => simp [hnone] at hregistration
    | registered found hfound _ _ _ hafter =>
        obtain rfl := Option.some.inj (hregistration.symm.trans hfound)
        exact hafter
  · intro event hevent error herror
    obtain ⟨before, after, hsplit⟩ := List.append_of_mem hevent
    obtain ⟨_, _, -, ⟨-, -, hperform⟩, -⟩ := hrun.split hsplit
    rw [herror] at hperform
    exact perform_error hperform

/-!
## Live and tombstoned metadata

`register`, `commit` and `drop` move metadata locations between the mappings and the
tombstones.  A registration clears the tombstone of its location and so does the
publication of a centroid artifact; a commit tombstones its base but does not clear the
tombstone of the location it makes current.

**Results.**

* `catalog_live_tombstoned_disjoint`: no location is both current and tombstoned in any
  state of a run exactly when no step of it is a commit onto a tombstoned location, nor a
  commit or drop that tombstones a location another identifier still has.
* `commit_back_is_tombstoned`: a run of one registration and two commits that ends with
  its current location tombstoned.
-/

/-- The tables after a call, whatever it returned. -/
def next (crates : Crates) (tables : Tables) (request : Request) : Tables :=
  (perform crates request tables).2

/-- The calls of a history that failed can be struck from it: the others are answered as before
and lead to the same tables. -/
theorem failed_calls_leave_no_trace (crates : Crates) (tables : Tables) (requests : List Request) :
    let succeeded := (history crates tables requests).filter (·.outcome.isOk)
    history crates tables (succeeded.map Event.request) = succeeded ∧
      (succeeded.map Event.request).foldl (next crates) tables =
        requests.foldl (next crates) tables := by
  induction requests generalizing tables with
  | nil => exact ⟨rfl, rfl⟩
  | cons request rest ih =>
      rcases hperform : perform crates request tables with ⟨outcome, after⟩
      rw [List.foldl_cons, history, next, hperform]
      cases outcome with
      | error error =>
          obtain rfl := perform_error hperform
          exact ih after
      | ok response =>
          obtain ⟨hsame, hlast⟩ := ih after
          dsimp only at hsame hlast ⊢
          rw [List.filter_cons_of_pos rfl, List.map_cons, List.foldl_cons, history, next, hperform]
          exact ⟨congrArg _ hsame, hlast⟩

/-- No metadata location is both current and tombstoned. -/
def Tables.LiveDisjoint (tables : Tables) : Prop :=
  ∀ row ∈ tables.indexes, ∀ tombstone ∈ tables.catalogTombstones,
    tombstone.metadataLocation ≠ row.metadataLocation

instance (tables : Tables) : Decidable tables.LiveDisjoint :=
  inferInstanceAs (Decidable (∀ row ∈ tables.indexes.rows,
    ∀ tombstone ∈ tables.catalogTombstones.rows,
      tombstone.metadataLocation ≠ row.metadataLocation))

/-- No other identifier is mapped to the location. -/
def Tables.SoleAt (tables : Tables) (identifier : IndexIdentifier) (location : String) : Prop :=
  ∀ row ∈ tables.indexes, row.metadataLocation = location → row.key = identifier.tableKey

/-- What a call must not do: a commit that passes its checks must not make a tombstoned
location current, and neither it nor a drop may tombstone a location that another
identifier is mapped to. -/
def KeepsApart (crates : Crates) (tables : Tables) (request : Request) : Prop :=
  match request.call with
  | .commit identifier source baseLocation newLocation baseMetadata newMetadata =>
      CommitAccepted crates request.clock identifier source baseLocation newLocation baseMetadata
        newMetadata tables →
      (∀ tombstone ∈ tables.catalogTombstones, tombstone.metadataLocation ≠ newLocation) ∧
        tables.SoleAt identifier baseLocation
  | .drop identifier =>
      ∀ row now, tables.mapping identifier = some row → request.clock = .ok now →
        tables.SoleAt identifier row.metadataLocation
  | _ => True

/-! ## Steps -/

variable {baseMetadata : IndexMetadata} {newMetadata : IndexMetadata}

theorem Registered.liveDisjoint
    (h : Registered crates identifier source metadataLocation metadata before after)
    (hdisjoint : before.LiveDisjoint) : after.LiveDisjoint := by
  obtain ⟨new, -, rfl, -, hinsert⟩ := h.mapped
  intro row hrow tombstone htombstone
  rw [h.tombstones, KeyedTable.mem_delete] at htombstone
  rcases ((KeyedTable.insert?_eq_some hinsert).2 row).mp hrow with rfl | hold
  · simpa using htombstone.2
  · exact hdisjoint row hold tombstone htombstone.1

variable {baseLocation newLocation : String} {row : IndexRow} {tables : Tables}

section

variable (h : Committed crates clock identifier source baseLocation newLocation baseMetadata newMetadata before after)

include h

/-- The rows after a commit: the committed identifier's row and the rows of the others. -/
theorem Committed.mem_indexes :
    row ∈ after.indexes ↔
      (∃ old, before.mapping identifier = some old ∧
        row = old.advance newLocation (source.exactStateKey crates) source) ∨
      row ∈ before.indexes ∧ row.key ≠ identifier.tableKey := by
  obtain ⟨current, hcurrent, hbase, huuid⟩ := h.current
  obtain ⟨hmem, hkey⟩ := KeyedTable.find?_eq_some_iff.mp hcurrent
  have hunchanged : ∀ old ∈ before.indexes,
      old.isUnchanged (Json.arrayText identifier.namespace) identifier.name baseLocation
        newMetadata.indexUuid = true ↔ old.key = identifier.tableKey := by
    intro old hold
    rw [IndexRow.isUnchanged_iff]
    refine ⟨fun hold => hold.1, fun hsame => ?_⟩
    obtain rfl := KeyedTable.eq_of_key_eq hold hmem (hsame.trans hkey.symm)
    exact ⟨hkey, hbase, huuid⟩
  rw [h.mapped, KeyedTable.mem_update]
  constructor
  · rintro ⟨old, hold, rfl⟩
    by_cases hsame : old.key = identifier.tableKey
    · rw [if_pos ((hunchanged old hold).mpr hsame)]
      exact Or.inl ⟨old, KeyedTable.find?_eq_some_iff.mpr ⟨hold, hsame⟩, rfl⟩
    · rw [if_neg fun hsel => hsame ((hunchanged old hold).mp hsel)]
      exact Or.inr ⟨hold, hsame⟩
  · rintro (⟨old, hold, rfl⟩ | ⟨hold, hother⟩)
    · obtain ⟨holdMem, holdKey⟩ := KeyedTable.find?_eq_some_iff.mp hold
      exact ⟨old, holdMem, (if_pos ((hunchanged old holdMem).mpr holdKey)).symm⟩
    · exact ⟨row, hold, (if_neg fun hsel => hother ((hunchanged row hold).mp hsel)).symm⟩

theorem Committed.liveDisjoint_iff (hdisjoint : before.LiveDisjoint) :
    after.LiveDisjoint ↔
      (∀ tombstone ∈ before.catalogTombstones, tombstone.metadataLocation ≠ newLocation) ∧
        before.SoleAt identifier baseLocation := by
  obtain ⟨current, hcurrent, hbase, huuid⟩ := h.current
  obtain ⟨now, -, htombstones⟩ := h.tombstones
  constructor
  · intro hafter
    constructor
    · -- the committed row now has the new location
      intro tombstone htombstone hlocation
      have hrow : current.advance newLocation (source.exactStateKey crates) source ∈
          after.indexes := h.mem_indexes.mpr (Or.inl ⟨current, hcurrent, rfl⟩)
      refine hafter _ hrow tombstone ?_ hlocation
      rw [htombstones, KeyedTable.mem_upsert]
      exact Or.inr ⟨htombstone, fun heq => h.distinct (heq.symm.trans hlocation)⟩
    · -- and the base location is tombstoned
      intro row hrow hlocation
      by_contra hother
      refine hafter row (h.mem_indexes.mpr (Or.inr ⟨hrow, hother⟩)) ⟨baseLocation, now⟩ ?_
        hlocation.symm
      rw [htombstones, KeyedTable.mem_upsert]
      exact Or.inl rfl
  · rintro ⟨hfresh, hsole⟩ row hrow tombstone htombstone
    rw [htombstones, KeyedTable.mem_upsert] at htombstone
    rcases h.mem_indexes.mp hrow with ⟨old, -, rfl⟩ | ⟨hold, hother⟩ <;>
      rcases htombstone with rfl | ⟨htombstone, -⟩
    · exact h.distinct
    · exact hfresh tombstone htombstone
    · exact fun heq => hother (hsole row hold heq.symm)
    · exact hdisjoint row hold tombstone htombstone

end

/-- The rows after a drop: those of the other identifiers. -/
theorem Dropped.mem_indexes (h : Dropped clock identifier before after) :
    row ∈ after.indexes ↔ row ∈ before.indexes ∧ row.key ≠ identifier.tableKey := by
  rw [h.mapped, KeyedTable.mem_delete, ← Bool.not_eq_true, IndexRow.isAt_iff]
  rfl

theorem Dropped.liveDisjoint_iff (h : Dropped clock identifier before after)
    (hdisjoint : before.LiveDisjoint) :
    after.LiveDisjoint ↔
      ∀ row, before.mapping identifier = some row →
        before.SoleAt identifier row.metadataLocation := by
  obtain ⟨current, hcurrent, now, -, htombstones⟩ := h.current
  constructor
  · intro hafter dropped hdropped row hrow hlocation
    obtain rfl := Option.some.inj (hcurrent.symm.trans hdropped)
    by_contra hother
    refine hafter row (h.mem_indexes.mpr ⟨hrow, hother⟩) ⟨current.metadataLocation, now⟩ ?_
      hlocation.symm
    rw [htombstones, KeyedTable.mem_upsert]
    exact Or.inl rfl
  · intro hsole row hrow tombstone htombstone
    obtain ⟨hold, hother⟩ := h.mem_indexes.mp hrow
    rw [htombstones, KeyedTable.mem_upsert] at htombstone
    rcases htombstone with rfl | ⟨htombstone, -⟩
    · exact fun heq => hother (hsole current hcurrent row hold heq.symm)
    · exact hdisjoint row hold tombstone htombstone

/-- One step keeps live and tombstoned locations apart if it meets the condition. -/
theorem liveDisjoint_next {request : Request} (hdisjoint : tables.LiveDisjoint)
    (hkeeps : KeepsApart crates tables request) : (next crates tables request).LiveDisjoint := by
  unfold next
  rcases hperform : perform crates request tables with ⟨outcome, after⟩
  cases outcome with
  | error error =>
      obtain rfl : after = tables := perform_error hperform
      exact hdisjoint
  | ok response =>
      have hdid := perform_ok hperform
      obtain ⟨call, clock, fuse⟩ := request
      cases call with
      | register identifier source metadataLocation metadata => exact hdid.liveDisjoint hdisjoint
      | commit identifier source baseLocation newLocation baseMetadata newMetadata =>
          exact (hdid.liveDisjoint_iff hdisjoint).mpr (hkeeps hdid.toCommitAccepted)
      | drop identifier =>
          obtain ⟨current, hcurrent, now, hclock, -⟩ := hdid.current
          exact (hdid.liveDisjoint_iff hdisjoint).mpr fun row hrow => hkeeps row now hrow hclock
      | _ =>
          intro row hrow tombstone htombstone
          rw [(hdid.keeps trivial).1] at hrow
          exact hdisjoint row hrow tombstone ((hdid.keeps trivial).2 tombstone htombstone)

/-- A call that the database does not disturb. -/
def Request.Undisturbed (request : Request) : Prop := request.fuse = none

/-- An undisturbed step that keeps live and tombstoned locations apart meets the condition. -/
theorem keepsApart_of_next {request : Request} (hfuse : request.Undisturbed)
    (hdisjoint : tables.LiveDisjoint) (hnext : (next crates tables request).LiveDisjoint) :
    KeepsApart crates tables request := by
  obtain ⟨call, clock, fuse⟩ := request
  obtain rfl : fuse = none := hfuse
  unfold next at hnext
  cases call with
  | commit identifier source baseLocation newLocation baseMetadata newMetadata =>
      intro haccepted
      have hok := Sql.call_bind_pure (commit_succeeds haccepted) fun _ => CatalogResponse.done
      have hperform : perform crates ⟨.commit identifier source baseLocation newLocation
          baseMetadata newMetadata, clock, none⟩ tables = (.ok .done, _) := Prod.ext hok rfl
      have hdid := perform_ok hperform
      exact (hdid.liveDisjoint_iff hdisjoint).mp hnext
  | drop identifier =>
      intro row now hrow hclock
      have hok := Sql.call_bind_pure (drop_succeeds hrow hclock) fun _ => CatalogResponse.done
      have hperform : perform crates ⟨.drop identifier, clock, none⟩ tables = (.ok .done, _) :=
        Prod.ext hok rfl
      have hdid := perform_ok hperform
      exact (hdid.liveDisjoint_iff hdisjoint).mp hnext row hrow
  | _ => trivial

/-- **Live and tombstoned metadata.**  From an empty catalog, a run all of whose steps keep
apart what the calls may mix up keeps live and tombstoned locations disjoint in every
state, whatever fails on the way; and in a run the database does not disturb this is also
necessary. -/
theorem catalog_live_tombstoned_disjoint (crates : Crates) (requests : List Request) :
    ((∀ step ∈ stepsOf (next crates) createSchema requests, KeepsApart crates step.1 step.2) →
      ∀ tables ∈ statesOf (next crates) createSchema requests, tables.LiveDisjoint) ∧
    ((∀ request ∈ requests, request.Undisturbed) →
      (∀ tables ∈ statesOf (next crates) createSchema requests, tables.LiveDisjoint) →
      ∀ step ∈ stepsOf (next crates) createSchema requests, KeepsApart crates step.1 step.2) := by
  constructor
  · intro hkeeps
    have hempty : createSchema.LiveDisjoint := by
      intro row hrow
      exact absurd hrow (KeyedTable.not_mem_empty row)
    exact forall_mem_statesOf (fun _ _ hdisjoint hgood => liveDisjoint_next hdisjoint hgood)
      hempty hkeeps
  · intro hundisturbed hdisjoint
    refine forall_mem_stepsOf ?_ hundisturbed hdisjoint
    intro tables request hfuse hbefore hafter
    exact keepsApart_of_next hfuse hbefore hafter

/-! ## UUIDs -/

/-- No two indexes have one UUID. -/
def Tables.UuidsDiffer (tables : Tables) : Prop :=
  ∀ row ∈ tables.indexes, ∀ other ∈ tables.indexes, row.indexUuid = other.indexUuid → row = other

theorem uuidsDiffer_next (hdiffer : tables.UuidsDiffer) (request : Request) :
    (next crates tables request).UuidsDiffer := by
  unfold next
  rcases hperform : perform crates request tables with ⟨outcome, after⟩
  cases outcome with
  | error error =>
      obtain rfl : after = tables := perform_error hperform
      exact hdiffer
  | ok response =>
      have hdid := perform_ok hperform
      obtain ⟨call, clock, fuse⟩ := request
      cases call with
      | register identifier source metadataLocation metadata =>
          obtain ⟨new, -, -, hnew, hinsert⟩ := hdid.mapped
          have hmem := (KeyedTable.insert?_eq_some hinsert).2
          intro row hrow other hother huuid
          rcases (hmem row).mp hrow with rfl | hrow
          · rcases (hmem other).mp hother with rfl | hother
            · rfl
            · exact absurd (huuid.symm.trans hnew) (hdid.freshUuid other hother)
          · rcases (hmem other).mp hother with rfl | hother
            · exact absurd (huuid.trans hnew) (hdid.freshUuid row hrow)
            · exact hdiffer row hrow other hother huuid
      | commit identifier source baseLocation newLocation baseMetadata newMetadata =>
          intro row hrow other hother huuid
          rw [hdid.mapped, KeyedTable.mem_update] at hrow hother
          obtain ⟨old, hold, rfl⟩ := hrow
          obtain ⟨old', hold', rfl⟩ := hother
          have hsame : old.indexUuid = old'.indexUuid := by
            split_ifs at huuid <;> exact huuid
          rw [hdiffer old hold old' hold' hsame]
      | drop identifier =>
          exact fun row hrow other hother =>
            hdiffer row (hdid.mem_indexes.mp hrow).1 other (hdid.mem_indexes.mp hother).1
      | _ =>
          change after.UuidsDiffer
          rw [Tables.UuidsDiffer, (hdid.keeps trivial).1]
          exact hdiffer

/-- A registration with a UUID that an index has is refused. -/
theorem register_error_of_uuid
    {fuse : Option ℕ} (hused : ∃ row ∈ tables.indexes, row.indexUuid = metadata.indexUuid) :
    ∃ error, perform crates ⟨.register identifier source metadataLocation metadata, clock, fuse⟩
      tables = (.error error, tables) := by
  obtain ⟨row, hrow, huuid⟩ := hused
  rcases hperform : perform crates ⟨.register identifier source metadataLocation metadata, clock,
    fuse⟩ tables with ⟨outcome, after⟩
  cases outcome with
  | error error =>
      obtain rfl : after = tables := perform_error hperform
      exact ⟨error, rfl⟩
  | ok response => exact absurd huuid ((perform_ok hperform).freshUuid row hrow)

/-- An index that outlives a call keeps its UUID. -/
theorem indexUuid_next (request : Request) {row later : IndexRow}
    (hrow : tables.mapping identifier = some row)
    (hlater : (next crates tables request).mapping identifier = some later) :
    later.indexUuid = row.indexUuid := by
  unfold next at hlater
  rcases hperform : perform crates request tables with ⟨outcome, after⟩
  rw [hperform] at hlater
  cases outcome with
  | error error =>
      obtain rfl : after = tables := perform_error hperform
      rw [Option.some.inj (hlater.symm.trans hrow)]
  | ok response =>
      have hdid := perform_ok hperform
      obtain ⟨hmem, hkey⟩ := KeyedTable.find?_eq_some_iff.mp hlater
      have honly : ∀ old ∈ tables.indexes, old.key = identifier.tableKey → old = row := by
        intro old hold hsame
        have hfound := KeyedTable.find?_key hold
        rw [hsame] at hfound
        exact Option.some.inj (hfound.symm.trans hrow)
      obtain ⟨call, clock, fuse⟩ := request
      cases call with
      | register other source metadataLocation metadata =>
          obtain ⟨new, -, -, -, hinsert⟩ := hdid.mapped
          obtain ⟨habsent, hafter⟩ := KeyedTable.insert?_eq_some hinsert
          rcases (hafter later).mp hmem with rfl | hold
          · rw [hkey] at habsent
            cases habsent.symm.trans hrow
          · rw [honly later hold hkey]
      | commit other source baseLocation newLocation baseMetadata newMetadata =>
          rw [hdid.mapped, KeyedTable.mem_update] at hmem
          obtain ⟨old, hold, rfl⟩ := hmem
          split_ifs at hkey ⊢ <;> rw [← honly old hold hkey]
          rfl
      | drop other => rw [honly later (hdid.mem_indexes.mp hmem).1 hkey]
      | _ =>
          rw [(hdid.keeps trivial).1] at hmem
          rw [honly later hmem hkey]

/-- After every history of an empty catalog, whatever fails, no two indexes share a UUID.  A call
that registers a UUID in use is refused then, and no call changes the UUID of an index. -/
theorem index_uuids_stay_unique (crates : Crates) (requests : List Request) :
    (requests.foldl (next crates) createSchema).UuidsDiffer ∧
    (∀ identifier source metadataLocation metadata clock fuse,
      (∃ row ∈ (requests.foldl (next crates) createSchema).indexes,
        row.indexUuid = metadata.indexUuid) →
      ∃ error, perform crates ⟨.register identifier source metadataLocation metadata, clock, fuse⟩
        (requests.foldl (next crates) createSchema) =
          (.error error, requests.foldl (next crates) createSchema)) ∧
    ∀ request identifier row later,
      (requests.foldl (next crates) createSchema).mapping identifier = some row →
      (next crates (requests.foldl (next crates) createSchema) request).mapping identifier =
        some later → later.indexUuid = row.indexUuid := by
  have hempty : createSchema.UuidsDiffer :=
    fun row hrow => absurd hrow (KeyedTable.not_mem_empty row)
  have hstep : ∀ tables, tables.UuidsDiffer → ∀ request ∈ requests,
      (next crates tables request).UuidsDiffer :=
    fun _ hdiffer request _ => uuidsDiffer_next hdiffer request
  exact ⟨List.foldlRecOn requests _ hempty hstep,
    fun _ _ _ _ _ _ hused => register_error_of_uuid hused,
    fun request _ _ _ hrow hlater => indexUuid_next request hrow hlater⟩

/-! ## A run that ends with its current location tombstoned -/

section

def sampleIdentifier : IndexIdentifier := ⟨[], "documents", by decide⟩

def firstLocation : String :=
  "file:///w/metadata/00000000-0000-4000-8000-0000000000aa/v1.metadata.json"

def secondLocation : String :=
  "file:///w/metadata/00000000-0000-4000-8000-0000000000aa/v1-7.metadata.json"

/-- Register at one location, commit to a second one, commit back. -/
def commitBack : List Request :=
  [⟨.register sampleIdentifier sampleSource firstLocation sampleMetadata, .ok 2000, none⟩,
   ⟨.commit sampleIdentifier sampleSource firstLocation secondLocation sampleMetadata
     sampleMetadata, .ok 3000, none⟩,
   ⟨.commit sampleIdentifier sampleSource secondLocation firstLocation sampleMetadata
     sampleMetadata, .ok 4000, none⟩]

/-- The first location is current again, and its tombstone is still there. -/
theorem commit_back_is_tombstoned :
    ∃ tables ∈ statesOf (next sampleCrates) createSchema commitBack, ¬ tables.LiveDisjoint := by
  decide +kernel

end

end ParqDB.Catalog
