import Mathlib.Data.List.Sort
import ParqDB.Session.SourceBindings
import ParqDB.Session.TableDrops

/-!
# Admission of background refreshes

A refresh is checked against its source twice (`session/build.rs`).  The background entry
point `submit_refresh_index` looks the index up among those published for the *exact
state* of the table; the build it starts, `refresh_index_with_identifier`, binds the table and
asks that it has the *identity* of the one the index was built for.

**Results.**

* `admission_agrees_iff`: the two accept the same refreshes of an index exactly when the
  table can be bound and has the identity of the index just if its state is that of the index
  too, and the documents of all indexes of that state can be loaded.
* `advanced_table_refused`: a table that moved on since its index was published, which is
  what a refresh is for, is refused in the background.

Both entry points validate the writer options and the partition count in the same way.
-/

namespace ParqDB.Session.RefreshAdmission

open Foundations Meta Catalog

/-! ## What a session reads -/

inductive RefreshError
  | invalid (message : String)
  | namespaceNotFound («namespace» : List String)
  | indexNotFound (name : String)
  | document (message : String)
deriving DecidableEq

/-- The catalog, the metadata store, and the providers and bindings of the session. -/
structure LocalSession where
  crates : Crates
  tables : Tables
  documents : String → Except String IndexMetadata
  providers : Providers
  bindings : KeyedTable SourceBinding.key

/-- A catalog entry with its document. -/
structure LoadedIndex where
  entry : IndexRow
  metadata : IndexMetadata

/-- What a listing tells of an index. -/
structure IndexInfo where
  name : String
  column : String
  family : String
  metric : String
  parameters : Properties
  currentSnapshotId : ℤ

def invalidSource {α : Type} (outcome : Except String α) : Except RefreshError α :=
  outcome.mapError .invalid

/-- Names match `[A-Za-z_][A-Za-z0-9_]*`. -/
def validateIndexName (name : String) : Except RefreshError Unit :=
  let first := name.toList.head?.any fun character => character = '_' || character.isAlpha
  if !first || !name.toList.all fun character => character = '_' || character.isAlphanum then
    .error (.invalid ("index name must match [A-Za-z_][A-Za-z0-9_]*: " ++ name))
  else .ok ()

def namespacedIndexIdentifier («namespace» : List String) (name : String) :
    Except RefreshError IndexIdentifier := do
  validateIndexName name
  if hnonempty : name ≠ "" ∧ "" ∉ «namespace» then .ok ⟨«namespace», name, hnonempty⟩
  else .error (.invalid "index identifiers must be non-empty")

namespace LocalSession

variable (session : LocalSession)

/-- `IndexRepository::load` of an entry that was read. -/
def loadDocument (row : IndexRow) : Except RefreshError LoadedIndex := do
  let metadata ← (session.documents row.metadataLocation).mapError .document
  .ok ⟨row, metadata⟩

def currentSnapshot (loaded : LoadedIndex) : Except RefreshError IndexSnapshot :=
  loaded.metadata.currentSnapshot.mapError .invalid

def indexInfo (loaded : LoadedIndex) : Except RefreshError IndexInfo := do
  let snapshot ← currentSnapshot loaded
  .ok ⟨loaded.entry.name, snapshot.vectorField, snapshot.indexFamily, snapshot.metric,
    snapshot.parameters, snapshot.snapshotId⟩

/-- The entries of a namespace that were published for a source state, by name. -/
def entriesOf (namespaceKey sourceIdentity : String) : List IndexRow :=
  (session.tables.indexes.rows.filter fun row =>
    row.namespaceKey = namespaceKey && row.sourceIdentity = sourceIdentity).insertionSort
      fun left right => left.name ≤ right.name

def findBySource («namespace» : List String) (source : TableDefinition) :
    Except RefreshError (List LoadedIndex) := do
  let key ← (namespaceKey «namespace»).mapError fun _ => .invalid "invalid namespace"
  if session.tables.namespaces.find? key = none then .error (.namespaceNotFound «namespace»)
  else (session.entriesOf key (source.exactStateKey session.crates)).mapM session.loadDocument

def listTableIndexesIn («namespace» : List String) (source : TableDefinition) :
    Except RefreshError (List IndexInfo) := do
  invalidSource source.validate
  let loaded ←
    match session.findBySource «namespace» source with
    | .ok loaded => .ok loaded
    | .error (.namespaceNotFound _) => .ok []
    | .error error => .error error
  loaded.mapM indexInfo

/-- `submit_refresh_index` up to the build it hands over: its identifier and base snapshot. -/
def submitRefreshIndex (source : TableDefinition) («namespace» : List String) (name : String) :
    Except RefreshError (IndexIdentifier × ℤ) := do
  invalidSource source.validate
  let infos ← session.listTableIndexesIn «namespace» source
  match infos.find? fun info => info.name = name with
  | none => .error (.indexNotFound name)
  | some published => do
      let identifier ← namespacedIndexIdentifier «namespace» name
      .ok (identifier, published.currentSnapshotId)

/-- `bind_table` -/
def bind (source : TableDefinition) : Except String TableDefinition :=
  bindTable session.crates session.providers session.bindings source

/-- `refresh_index_with_identifier` up to its check of the source. -/
def refreshSourceCheck (source : TableDefinition) (identifier : IndexIdentifier) :
    Except RefreshError IndexSnapshot := do
  match session.tables.mapping identifier with
  | none => .error (.indexNotFound identifier.name)
  | some row => do
      let loaded ← session.loadDocument row
      let current ← currentSnapshot loaded
      let bound ← invalidSource (session.bind source)
      if row.sourceReference.identityKey session.crates ≠ bound.identityKey session.crates then
        .error (.indexNotFound identifier.name)
      else .ok current

/-- The table can be bound, and an entry is for the same table. -/
def BindsTo (source : TableDefinition) (row : IndexRow) : Prop :=
  ∃ bound, session.bind source = .ok bound ∧
    row.sourceReference.identityKey session.crates = bound.identityKey session.crates

/-- The document of an entry can be loaded. -/
def Loads (row : IndexRow) : Prop :=
  ∃ metadata snapshot, session.documents row.metadataLocation = .ok metadata ∧
    metadata.currentSnapshot = .ok snapshot

/-- The foreign key of the catalog: the namespace of every index exists. -/
def NamespacesExist : Prop :=
  ∀ row ∈ session.tables.indexes, session.tables.namespaces.find? row.namespaceKey ≠ none

variable {session} {«namespace» : List String} {name : String} {source : TableDefinition}
  {identifier : IndexIdentifier}

theorem isOk_iff {ε α : Type} {outcome : Except ε α} :
    outcome.isOk = true ↔ ∃ value, outcome = .ok value := by
  cases outcome with
  | ok value => exact ⟨fun _ => ⟨value, rfl⟩, fun _ => rfl⟩
  | error error =>
      constructor
      · intro hok
        cases hok
      · rintro ⟨_, hok⟩
        cases hok

theorem mapError_eq_ok {ε ε' α : Type} {outcome : Except ε α} {translate : ε → ε'} {value : α} :
    outcome.mapError translate = .ok value ↔ outcome = .ok value := by
  cases outcome with
  | ok other =>
      constructor
      · intro hok
        exact congrArg Except.ok (Except.ok.inj hok)
      · intro hok
        exact congrArg Except.ok (Except.ok.inj hok)
  | error error =>
      constructor
      · intro hok
        cases hok
      · intro hok
        cases hok

/-- The document of an entry and what the listing tells of it. -/
theorem loads_iff {row : IndexRow} :
    session.Loads row ↔ ∃ loaded, session.loadDocument row = .ok loaded ∧ loaded.entry = row ∧
      ∃ snapshot, currentSnapshot loaded = .ok snapshot := by
  constructor
  · rintro ⟨metadata, snapshot, hdocument, hsnapshot⟩
    refine ⟨⟨row, metadata⟩, ?_, rfl, snapshot, mapError_eq_ok.mpr hsnapshot⟩
    rw [loadDocument, hdocument]
    rfl
  · rintro ⟨loaded, hload, -, snapshot, hsnapshot⟩
    obtain ⟨metadata, hdocument, heq⟩ := bind_eq_ok.mp hload
    cases heq
    exact ⟨metadata, snapshot, mapError_eq_ok.mp hdocument, mapError_eq_ok.mp hsnapshot⟩

theorem indexInfo_eq_ok {loaded : LoadedIndex} {info : IndexInfo} :
    indexInfo loaded = .ok info → info.name = loaded.entry.name ∧
      ∃ snapshot, currentSnapshot loaded = .ok snapshot := by
  intro hinfo
  obtain ⟨snapshot, hsnapshot, heq⟩ := bind_eq_ok.mp hinfo
  cases heq
  exact ⟨rfl, snapshot, hsnapshot⟩

theorem mem_entriesOf {key sourceIdentity : String} {row : IndexRow} :
    row ∈ session.entriesOf key sourceIdentity ↔ row ∈ session.tables.indexes ∧
      row.namespaceKey = key ∧ row.sourceIdentity = sourceIdentity := by
  rw [entriesOf, List.mem_insertionSort, List.mem_filter, Bool.and_eq_true, decide_eq_true_eq,
    decide_eq_true_eq]
  rfl

/-- The listing of a namespace that exists. -/
theorem listTableIndexesIn_eq {key : String} (hkey : namespaceKey «namespace» = .ok key)
    (hexists : session.tables.namespaces.find? key ≠ none) (hvalid : source.validate = .ok ()) :
    session.listTableIndexesIn «namespace» source =
      ((session.entriesOf key (source.exactStateKey session.crates)).mapM session.loadDocument >>=
        fun loaded => loaded.mapM indexInfo) := by
  have hfind : session.findBySource «namespace» source =
      (session.entriesOf key (source.exactStateKey session.crates)).mapM session.loadDocument := by
    rw [findBySource, hkey]
    change (if session.tables.namespaces.find? key = none then _ else _) = _
    rw [if_neg hexists]
  rw [listTableIndexesIn, invalidSource, hvalid, hfind]
  cases hload : (session.entriesOf key (source.exactStateKey session.crates)).mapM
      session.loadDocument with
  | ok loaded => rfl
  | error error =>
      -- a document that cannot be loaded is no missing namespace
      obtain ⟨row, -, herror⟩ := exists_of_mapM_eq_error hload
      unfold loadDocument at herror
      cases hdocument : session.documents row.metadataLocation with
      | ok metadata =>
          rw [hdocument] at herror
          cases herror
      | error message =>
          rw [hdocument] at herror
          cases herror
          rfl

/-- The listing of a namespace that does not exist. -/
theorem listTableIndexesIn_of_missing {key : String} (hkey : namespaceKey «namespace» = .ok key)
    (hmissing : session.tables.namespaces.find? key = none) (hvalid : source.validate = .ok ()) :
    session.listTableIndexesIn «namespace» source = .ok [] := by
  have hfind : session.findBySource «namespace» source =
      .error (.namespaceNotFound «namespace») := by
    rw [findBySource, hkey]
    change (if session.tables.namespaces.find? key = none then _ else _) = _
    rw [if_pos hmissing]
  rw [listTableIndexesIn, invalidSource, hvalid, hfind]
  rfl

/-- A listing names an entry if there is one and all documents can be loaded. -/
theorem listed_iff {rows : List IndexRow} :
    (∃ infos, (rows.mapM session.loadDocument >>= fun loaded => loaded.mapM indexInfo) =
        .ok infos ∧ ∃ info ∈ infos, info.name = name) ↔
      (∃ row ∈ rows, row.name = name) ∧ ∀ row ∈ rows, session.Loads row := by
  constructor
  · rintro ⟨infos, hlist, info, hinfo, hname⟩
    obtain ⟨loaded, hload, hinfos⟩ := bind_eq_ok.mp hlist
    have hentry : ∀ row ∈ rows, session.Loads row := by
      intro row hrow
      obtain ⟨index, hindex, hdocument⟩ := exists_result_of_mapM hload hrow
      obtain ⟨found, -, hfound⟩ := exists_result_of_mapM hinfos hindex
      obtain ⟨metadata, -, heq⟩ := bind_eq_ok.mp hdocument
      refine loads_iff.mpr ⟨index, hdocument, ?_, (indexInfo_eq_ok hfound).2⟩
      cases heq
      rfl
    refine ⟨?_, hentry⟩
    obtain ⟨index, hindex, hfound⟩ := exists_of_mem_mapM hinfos hinfo
    obtain ⟨row, hrow, hdocument⟩ := exists_of_mem_mapM hload hindex
    obtain ⟨metadata, -, heq⟩ := bind_eq_ok.mp hdocument
    cases heq
    exact ⟨row, hrow, (indexInfo_eq_ok hfound).1.symm.trans hname⟩
  · rintro ⟨⟨row, hrow, hname⟩, hloads⟩
    have hdocuments : ∀ other ∈ rows, ∀ error, session.loadDocument other ≠ .error error := by
      intro other hother error herror
      obtain ⟨index, hindex, -⟩ := loads_iff.mp (hloads other hother)
      rw [hindex] at herror
      cases herror
    have hmap := mapM_of_forall_ok hdocuments
    generalize rows.filterMap (fun other => (session.loadDocument other).toOption) = loaded at hmap
    have hinfos : ∀ index ∈ loaded, ∀ error, indexInfo index ≠ .error error := by
      intro index hindex error herror
      obtain ⟨other, hother, hdocument⟩ := exists_of_mem_mapM hmap hindex
      obtain ⟨found, hfound, -, snapshot, hsnapshot⟩ := loads_iff.mp (hloads other hother)
      obtain rfl := Except.ok.inj (hdocument.symm.trans hfound)
      rw [indexInfo, hsnapshot] at herror
      cases herror
    have hlist := mapM_of_forall_ok hinfos
    refine ⟨_, bind_eq_ok.mpr ⟨loaded, hmap, hlist⟩, ?_⟩
    obtain ⟨index, hindex, hdocument⟩ := exists_result_of_mapM hmap hrow
    obtain ⟨info, hinfo, hfound⟩ := exists_result_of_mapM hlist hindex
    obtain ⟨metadata, -, heq⟩ := bind_eq_ok.mp hdocument
    cases heq
    exact ⟨info, hinfo, (indexInfo_eq_ok hfound).1.trans hname⟩

theorem parts_of_namespacedIndexIdentifier
    (hidentifier : namespacedIndexIdentifier «namespace» name = .ok identifier) :
    identifier.namespace = «namespace» ∧ identifier.name = name := by
  rw [namespacedIndexIdentifier, seq_eq_ok] at hidentifier
  obtain ⟨-, hidentifier⟩ := hidentifier
  split at hidentifier
  · cases hidentifier
    exact ⟨rfl, rfl⟩
  · cases hidentifier

/-- The background entry point accepts what its listing names. -/
theorem submitRefreshIndex_isOk
    (hidentifier : namespacedIndexIdentifier «namespace» name = .ok identifier) :
    (session.submitRefreshIndex source «namespace» name).isOk = true ↔
      source.validate = .ok () ∧ ∃ infos, session.listTableIndexesIn «namespace» source = .ok infos ∧
        ∃ info ∈ infos, info.name = name := by
  rw [isOk_iff]
  constructor
  · rintro ⟨published, hsubmit⟩
    rw [submitRefreshIndex, seq_eq_ok] at hsubmit
    obtain ⟨hvalid, hsubmit⟩ := hsubmit
    obtain ⟨infos, hlist, hfind⟩ := bind_eq_ok.mp hsubmit
    refine ⟨mapError_eq_ok.mp hvalid, infos, hlist, ?_⟩
    split at hfind
    · cases hfind
    · rename_i info hinfo
      exact ⟨info, List.mem_of_find?_eq_some hinfo, of_decide_eq_true (List.find?_some hinfo :)⟩
  · rintro ⟨hvalid, infos, hlist, info, hinfo, hname⟩
    cases hfind : infos.find? fun info => info.name = name with
    | none => exact absurd (List.find?_eq_none.mp hfind info hinfo) (by simp [hname])
    | some found =>
        refine ⟨(identifier, found.currentSnapshotId), ?_⟩
        rw [submitRefreshIndex, invalidSource, hvalid, hlist]
        change (match infos.find? fun info => info.name = name with
          | none => _
          | some published => _) = _
        rw [hfind, hidentifier]
        rfl

/-- What the background entry point asks for. -/
theorem submitRefreshIndex_isOk_iff (hforeign : session.NamespacesExist)
    (hidentifier : namespacedIndexIdentifier «namespace» name = .ok identifier) :
    (session.submitRefreshIndex source «namespace» name).isOk = true ↔
      source.validate = .ok () ∧ ∃ row, session.tables.mapping identifier = some row ∧
        row.sourceIdentity = source.exactStateKey session.crates ∧
          ∀ other ∈ session.tables.indexes, other.namespaceKey = row.namespaceKey →
            other.sourceIdentity = source.exactStateKey session.crates → session.Loads other := by
  rw [submitRefreshIndex_isOk hidentifier]
  obtain ⟨rfl, rfl⟩ := parts_of_namespacedIndexIdentifier hidentifier
  have hkey : namespaceKey identifier.namespace = .ok (Json.arrayText identifier.namespace) :=
    identifier.namespaceKey_eq
  apply and_congr_right
  intro hvalid
  by_cases hexists : session.tables.namespaces.find? (Json.arrayText identifier.namespace) = none
  · rw [listTableIndexesIn_of_missing hkey hexists hvalid]
    constructor
    · rintro ⟨infos, hnil, info, hinfo, -⟩
      cases hnil
      cases hinfo
    · rintro ⟨row, hmapped, -⟩
      have hrow := KeyedTable.find?_eq_some_iff.mp hmapped
      have hnamespace : row.namespaceKey = Json.arrayText identifier.namespace :=
        congrArg Prod.fst hrow.2
      exact absurd (hnamespace ▸ hexists) (hforeign row hrow.1)
  · rw [listTableIndexesIn_eq hkey hexists hvalid, listed_iff]
    constructor
    · rintro ⟨⟨row, hrow, hname⟩, hloads⟩
      obtain ⟨hmem, hnamespace, hstate⟩ := mem_entriesOf.mp hrow
      refine ⟨row, KeyedTable.find?_eq_some_iff.mpr ⟨hmem, Prod.ext hnamespace hname⟩, hstate, ?_⟩
      intro other hother hsame hotherState
      exact hloads other (mem_entriesOf.mpr ⟨hother, hsame.trans hnamespace, hotherState⟩)
    · rintro ⟨row, hmapped, hstate, hloads⟩
      have hrow := KeyedTable.find?_eq_some_iff.mp hmapped
      have hnamespace : row.namespaceKey = Json.arrayText identifier.namespace :=
        congrArg Prod.fst hrow.2
      refine ⟨⟨row, mem_entriesOf.mpr ⟨hrow.1, hnamespace, hstate⟩, congrArg Prod.snd hrow.2⟩, ?_⟩
      intro other hother
      obtain ⟨hmem, hsame, hotherState⟩ := mem_entriesOf.mp hother
      exact hloads other hmem (hsame.trans hnamespace.symm) hotherState

/-- What the build asks for. -/
theorem refreshSourceCheck_isOk_iff :
    (session.refreshSourceCheck source identifier).isOk = true ↔
      ∃ row, session.tables.mapping identifier = some row ∧ session.Loads row ∧
        session.BindsTo source row := by
  rw [isOk_iff]
  constructor
  · rintro ⟨current, hcheck⟩
    unfold refreshSourceCheck at hcheck
    cases hmapped : session.tables.mapping identifier with
    | none =>
        rw [hmapped] at hcheck
        cases hcheck
    | some row =>
        rw [hmapped] at hcheck
        obtain ⟨loaded, hload, hcheck⟩ := bind_eq_ok.mp hcheck
        obtain ⟨snapshot, hsnapshot, hcheck⟩ := bind_eq_ok.mp hcheck
        obtain ⟨bound, hbound, hcheck⟩ := bind_eq_ok.mp hcheck
        obtain ⟨metadata, -, heq⟩ := bind_eq_ok.mp hload
        refine ⟨row, rfl, loads_iff.mpr ⟨loaded, hload, by cases heq; rfl, snapshot, hsnapshot⟩,
          bound, mapError_eq_ok.mp hbound, ?_⟩
        by_contra hdiffer
        rw [if_pos hdiffer] at hcheck
        cases hcheck
  · rintro ⟨row, hmapped, hloads, bound, hbound, hidentity⟩
    obtain ⟨loaded, hload, -, snapshot, hsnapshot⟩ := loads_iff.mp hloads
    refine ⟨snapshot, ?_⟩
    rw [refreshSourceCheck, hmapped]
    change (session.loadDocument row >>= _) = _
    rw [hload, ok_bind, hsnapshot, ok_bind, invalidSource, hbound]
    change (if row.sourceReference.identityKey session.crates ≠ _ then _ else _) = _
    rw [if_neg (not_not.mpr hidentity)]

/-- The index was published for the state the table is in, and so were no indexes with
unreadable documents. -/
def IsCurrent (session : LocalSession) (source : TableDefinition) (row : IndexRow) : Prop :=
  row.sourceIdentity = source.exactStateKey session.crates ∧
    ∀ other ∈ session.tables.indexes, other.namespaceKey = row.namespaceKey →
      other.sourceIdentity = source.exactStateKey session.crates → session.Loads other

/-- Both entry points accept the same refreshes of an index exactly when it is an index of the
table, which can be bound, just if it is one of its current state. -/
theorem admission_agrees_iff (hforeign : session.NamespacesExist)
    (hidentifier : namespacedIndexIdentifier «namespace» name = .ok identifier) :
    ((session.submitRefreshIndex source «namespace» name).isOk = true ↔
        (session.refreshSourceCheck source identifier).isOk = true) ↔
      (source.validate = .ok () → ∀ row, session.tables.mapping identifier = some row →
        session.Loads row → (session.BindsTo source row ↔ session.IsCurrent source row)) := by
  rw [submitRefreshIndex_isOk_iff hforeign hidentifier, refreshSourceCheck_isOk_iff]
  constructor
  · intro hagree hvalid row hmapped hloads
    constructor
    · intro hbinds
      obtain ⟨-, other, hother, hcurrent⟩ := hagree.mpr ⟨row, hmapped, hloads, hbinds⟩
      obtain rfl := Option.some.inj (hmapped.symm.trans hother)
      exact hcurrent
    · intro hcurrent
      obtain ⟨other, hother, -, hbinds⟩ := hagree.mp ⟨hvalid, row, hmapped, hcurrent⟩
      obtain rfl := Option.some.inj (hmapped.symm.trans hother)
      exact hbinds
  · intro hagree
    constructor
    · rintro ⟨hvalid, row, hmapped, hstate, hall⟩
      have hloads : session.Loads row :=
        hall row (KeyedTable.find?_eq_some_iff.mp hmapped).1 rfl hstate
      exact ⟨row, hmapped, hloads, (hagree hvalid row hmapped hloads).mpr ⟨hstate, hall⟩⟩
    · rintro ⟨row, hmapped, hloads, hbinds⟩
      have hvalid : source.validate = .ok () := by
        obtain ⟨bound, hbound, -⟩ := hbinds
        exact (bindTable_validate hbound).1
      exact ⟨hvalid, row, hmapped, (hagree hvalid row hmapped hloads).mp hbinds⟩

end LocalSession

/-! ## A table that moved on -/

section

/-- The catalog after one publication. -/
def publishedTables : Tables :=
  Catalog.next icebergCrates createSchema
    ⟨.register sampleIdentifier firstSource firstLocation icebergMetadata, .ok 2000, none⟩

def sampleSession : LocalSession where
  crates := icebergCrates
  tables := publishedTables
  documents := fun location =>
    if location = firstLocation then .ok icebergMetadata else .error "not found"
  providers := icebergProviders
  bindings := firstBinding

/-- The build would refresh the index for the second snapshot, but nobody can submit it. -/
theorem advanced_table_refused :
    ¬ ((sampleSession.submitRefreshIndex secondSource [] "documents").isOk = true ↔
        (sampleSession.refreshSourceCheck secondSource sampleIdentifier).isOk = true) := by
  have hsubmit : (sampleSession.submitRefreshIndex secondSource [] "documents").isOk = false := by
    decide +kernel
  have hcheck : (sampleSession.refreshSourceCheck secondSource sampleIdentifier).isOk = true := by
    decide +kernel
  rw [hsubmit, hcheck]
  decide

/-- For the state it was published for, both accept the refresh. -/
theorem unmoved_table_agrees :
    ((sampleSession.submitRefreshIndex firstSource [] "documents").isOk = true ↔
        (sampleSession.refreshSourceCheck firstSource sampleIdentifier).isOk = true) ↔
      (firstSource.validate = .ok () →
        ∀ row, sampleSession.tables.mapping sampleIdentifier = some row →
          sampleSession.Loads row →
            (sampleSession.BindsTo firstSource row ↔ sampleSession.IsCurrent firstSource row)) :=
  LocalSession.admission_agrees_iff
    (by
      intro row hrow
      have hroot : ∀ other ∈ publishedTables.indexes.rows,
          publishedTables.namespaces.find? other.namespaceKey ≠ none := by
        decide +kernel
      exact hroot row hrow)
    (by decide +kernel)

end

end ParqDB.Session.RefreshAdmission
