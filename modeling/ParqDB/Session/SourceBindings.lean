import ParqDB.Foundations.KeyedTable
import ParqDB.Meta.History

/-!
# Bound sources

`bind_table` (`session/source.rs`) looks a table up by its exact state.  A state that was bound
before keeps the definition it was bound with; for any other a provider is made from the
definition, and the definition is bound.

**What is a parameter.**  What Arrow and Serde decode, reading Parquet files, and the registered
factories of providers.  Nobody else binds the same state while a provider is made.
-/

namespace ParqDB.Session

open Foundations Meta

/-- `TableReference::full`. -/
structure FullReference where
  catalog : String
  schema : String
  table : String

structure PersistentParquetDefinition (Schema : Type) where
  location : String
  partitionSchema : Schema
  parquetPruning : Bool
  fileExtension : String
  skipMetadata : Bool
  providedSchema : Option Schema
  resolvedSchema : Schema
  fileSortOrder : List (List String)

structure CreateExternalTable (Schema : Type) where
  name : FullReference
  location : String
  fileType : String
  schema : Schema
  partitionSchema : Schema
  orderExprs : List (List String)
  options : List (String × String)

/-- What other crates make of a definition. -/
structure Providers where
  Schema : Type
  emptySchema : Schema
  decodeSchema : String → Except String Schema
  /-- `DFSchema::try_from` -/
  dfSchema : Schema → Except String Unit
  sortOrder : String → Except String (List (List String))
  readParquet : PersistentParquetDefinition Schema → Except String Unit
  factories : String → Option (CreateExternalTable Schema → Except String Unit)

def requiredProperty (definition : TableDefinition) (name : String) : Except String String :=
  match definition.properties.get? name with
  | some value => .ok value
  | none => .error ("missing persistent property: " ++ name)

def decodeBool (value name : String) : Except String Bool :=
  if value = "true" then .ok true
  else if value = "false" then .ok false
  else .error ("persistent property " ++ name ++ " must be true or false")

def tableReference (identifier : TableIdentifier) : Except String FullReference :=
  match identifier.namespace with
  | [schema] => .ok ⟨identifier.catalog, schema, identifier.name⟩
  | _ => .error "DataFusion tables require exactly one schema namespace segment"

namespace Providers

variable (providers : Providers)

/-- `PersistentParquetDefinition::from_table_definition` -/
def fromTableDefinition (definition : TableDefinition) :
    Except String (PersistentParquetDefinition providers.Schema) := do
  let version ← requiredProperty definition "definition-version"
  rejectIf (version ≠ "1") "unsupported persistent Parquet definition version"
  let location ← requiredProperty definition "location"
  let partitionSchema ← providers.decodeSchema (← requiredProperty definition "partition-schema")
  let pruning ← decodeBool (← requiredProperty definition "option.format.pruning")
    "option.format.pruning"
  let fileExtension ← requiredProperty definition "file-extension"
  let skipMetadata ← decodeBool (← requiredProperty definition "option.format.skip_metadata")
    "option.format.skip_metadata"
  let providedSchema ← (definition.properties.get? "provided-schema").mapM providers.decodeSchema
  let resolvedSchema ← providers.decodeSchema (← requiredProperty definition "resolved-schema")
  let fileSortOrder ← providers.sortOrder (← requiredProperty definition "file-sort-order")
  .ok ⟨location, partitionSchema, pruning, fileExtension, skipMetadata, providedSchema,
    resolvedSchema, fileSortOrder⟩

def externalTableCommand (definition : TableDefinition) :
    Except String (CreateExternalTable providers.Schema) := do
  let version ← requiredProperty definition "definition-version"
  rejectIf (version ≠ "1") ("unsupported persistent table definition version: " ++ version)
  let location ← requiredProperty definition "location"
  let schema ← (definition.properties.get? "resolved-schema").mapM providers.decodeSchema
  let partitions ← (definition.properties.get? "partition-schema").mapM providers.decodeSchema
  let orders ← (definition.properties.get? "file-sort-order").mapM providers.sortOrder
  providers.dfSchema (schema.getD providers.emptySchema)
  let name ← tableReference definition.identifier
  .ok ⟨name, location, definition.provider, schema.getD providers.emptySchema,
    partitions.getD providers.emptySchema, orders.getD [],
    definition.properties.entries.filterMap fun entry =>
      if "option.".toList.isPrefixOf entry.1.toList then
        some (String.ofList (entry.1.toList.drop 7), entry.2)
      else none⟩

def providerFromTableDefinition (definition : TableDefinition) : Except String Unit :=
  if definition.provider = "parquet" then
    providers.fromTableDefinition definition >>= providers.readParquet
  else
    match providers.factories (definition.provider.map Char.toUpper) with
    | none => .error ("table provider factory is not registered: " ++ definition.provider)
    | some create => providers.externalTableCommand definition >>= create

end Providers

/-- A bound source of a session. -/
structure SourceBinding where
  key : String
  reference : TableDefinition
  valid : reference.validate = .ok ()

/-- The definition that a table is bound to. -/
def bindTable (crates : Crates) (providers : Providers) (bindings : KeyedTable SourceBinding.key)
    (reference : TableDefinition) : Except String TableDefinition := do
  reference.validate
  match bindings.find? (reference.exactStateKey crates) with
  | some binding => .ok binding.reference
  | none => do
      providers.providerFromTableDefinition reference
      .ok reference

variable {crates : Crates} {providers : Providers} {bindings : KeyedTable SourceBinding.key}
  {reference bound : TableDefinition}

theorem bindTable_validate (hbound : bindTable crates providers bindings reference = .ok bound) :
    reference.validate = .ok () ∧ bound.validate = .ok () := by
  unfold bindTable at hbound
  obtain ⟨hvalid, hbound⟩ := seq_eq_ok.mp hbound
  refine ⟨hvalid, ?_⟩
  split at hbound
  · next binding _ =>
      cases hbound
      exact binding.valid
  · obtain ⟨-, hbound⟩ := seq_eq_ok.mp hbound
    cases hbound
    exact hvalid

/-! ## An Iceberg table that advances -/

/-- The table `items` at its first snapshot. -/
def firstSource : TableDefinition where
  identifier := ⟨"datafusion", ["public"], "items"⟩
  provider := "iceberg"
  properties := ⟨[("definition-version", "1"), ("location", "file:///tmp/items/v1.metadata.json"),
    ("option.snapshot-id", "1"), ("option.table-uuid", "00000000-0000-4000-8000-0000000000ee"),
    ("table-identity", "00000000-0000-4000-8000-0000000000ee")], by decide⟩

/-- The table at its second snapshot. -/
def secondSource : TableDefinition :=
  { firstSource with
    properties := ⟨[("definition-version", "1"),
      ("location", "file:///tmp/items/v2.metadata.json"), ("option.snapshot-id", "2"),
      ("option.table-uuid", "00000000-0000-4000-8000-0000000000ee"),
      ("table-identity", "00000000-0000-4000-8000-0000000000ee")], by decide⟩ }

/-- The index document for the first snapshot. -/
def icebergMetadata : IndexMetadata :=
  { sampleMetadata with snapshots := [{ sampleSnapshot with sourceTable := firstSource }] }

/-- The sample crates with the fingerprints of both states, and of the identity. -/
def icebergCrates : Crates :=
  { sampleCrates with
    newV5 := fun name text =>
      if name ≠ TableDefinition.definitionFingerprintNamespace then sampleCrates.newV5 name text
      else if text = firstSource.exactTableState then 0x26a424d345615d6a9c9e13c0e455332a
      else if text = secondSource.exactTableState then 0xd8a0296e04345a1aae969dba92c08772
      else 0xff3e07220d4b565f91c01aec24157267 }

/-- A session with the Iceberg factory, which finds both metadata files. -/
def icebergProviders : Providers where
  Schema := Unit
  emptySchema := ()
  decodeSchema _ := .error "invalid Arrow schema"
  dfSchema _ := .ok ()
  sortOrder _ := .error "invalid file sort order"
  readParquet _ := .error "no such file"
  factories name :=
    if name = "ICEBERG" then some fun command =>
      rejectIf (command.location ∉
        ["file:///tmp/items/v1.metadata.json", "file:///tmp/items/v2.metadata.json"])
        "Iceberg error: no such file"
    else none

/-- The first snapshot was bound when the index was built. -/
def firstBinding : KeyedTable SourceBinding.key where
  rows := [⟨firstSource.exactStateKey icebergCrates, firstSource, rfl⟩]
  uniqueKeys := by simp

theorem bindTable_secondSource {source : TableDefinition}
    (hstate : source.exactTableState = secondSource.exactTableState)
    (hvalid : source.validate = .ok ())
    (hprovider : icebergProviders.providerFromTableDefinition source = .ok ()) :
    bindTable icebergCrates icebergProviders firstBinding source = .ok source := by
  have hother : firstSource.exactTableState ≠ secondSource.exactTableState := by
    intro hsame
    exact absurd (String.ofList_injective hsame) (by decide +kernel)
  have hfirst : firstSource.exactStateKey icebergCrates =
      Uuid.hyphenated 0x26a424d345615d6a9c9e13c0e455332a := by
    unfold TableDefinition.exactStateKey icebergCrates
    dsimp only
    rw [if_neg (not_not.mpr rfl), if_pos rfl]
    rfl
  have hsecond : source.exactStateKey icebergCrates =
      Uuid.hyphenated 0xd8a0296e04345a1aae969dba92c08772 := by
    unfold TableDefinition.exactStateKey icebergCrates
    dsimp only
    rw [hstate, if_neg (not_not.mpr rfl), if_neg hother.symm, if_pos rfl]
    rfl
  have hunbound : firstBinding.find? (source.exactStateKey icebergCrates) = none := by
    rw [KeyedTable.find?_eq_none_iff]
    intro binding hbinding
    obtain rfl := List.mem_singleton.mp hbinding
    rw [hsecond]
    exact hfirst.trans_ne (by decide +kernel)
  rw [bindTable, hvalid, hunbound, hprovider]
  rfl

end ParqDB.Session
