import Mathlib.Algebra.Order.Ring.Int
import ParqDB.Foundations.Json
import ParqDB.Foundations.SortedMap

/-!
# Table identifiers and definitions

The portable description of one source table, as index metadata and the catalog
store it (`parqdb-meta/src/table.rs`), and the functions of third-party crates the
metadata layer calls.

**What is a parameter.**  A `Crates` value stands for the `uuid` and `url` crates:
parsing and printing a UUID, name-based UUIDs, and parsing a URL.  Everything the
repository itself computes from their results is a definition below.
-/

namespace ParqDB.Meta

open Foundations

/-- The 128 bits of a UUID. -/
abbrev Uuid := BitVec 128

/-- A string map as the documents store it. -/
abbrev Properties := SortedMap String

/-- The parts of a parsed URL that the metadata layer looks at. -/
structure Url where
  scheme : String
  hasHost : Bool
  username : String
  password : Option String
  query : Option String
  fragment : Option String
deriving DecidableEq

/-- The functions of the `uuid` and `url` crates. -/
structure Crates where
  parseUuid : String → Option Uuid
  uuidToString : Uuid → String
  newV5 : Uuid → String → Uuid
  parseUrl : String → Except String Url

/-! ## The texts of a UUID

The hyphenated form `uuidToString` prints, and two of the forms `parseUuid` accepts. -/

/-- The 32 lower-case hexadecimal digits of a UUID. -/
def Uuid.simpleChars (uuid : Uuid) : List Char :=
  (List.range 32).map fun index => Json.hexDigit (uuid.toNat / 16 ^ (31 - index) % 16)

/-- The digits alone. -/
def Uuid.simple (uuid : Uuid) : String := String.ofList uuid.simpleChars

/-- The lower-case `8-4-4-4-12` form. -/
def Uuid.hyphenated (uuid : Uuid) : String :=
  let digits := uuid.simpleChars
  String.ofList (digits.take 8 ++ '-' :: ((digits.drop 8).take 4 ++ '-' ::
    ((digits.drop 12).take 4 ++ '-' :: ((digits.drop 16).take 4 ++ '-' :: digits.drop 20))))

/-- Reads 32 lower-case hexadecimal digits. -/
def Uuid.ofSimple (digits : List Char) : Option Uuid :=
  let values := digits.map Json.hexValue
  if values.length = 32 ∧ values.all Option.isSome then
    some (BitVec.ofNat 128 (values.foldl (fun value digit => 16 * value + digit.getD 0) 0))
  else none

/-- Reads the lower-case `8-4-4-4-12` form, or the digits alone. -/
def Uuid.ofText (text : String) : Option Uuid :=
  let groups := text.toList.splitOn '-'
  if groups.map List.length = [8, 4, 4, 4, 12] ∨ groups.length = 1 then
    Uuid.ofSimple groups.flatten
  else none

/-- An error that only carries its message. -/
abbrev invalid {α : Type} (message : String) : Except String α := .error message

/-- A fully qualified logical table identifier. -/
structure TableIdentifier where
  catalog : String
  «namespace» : List String
  name : String
deriving DecidableEq

def TableIdentifier.validate (identifier : TableIdentifier) : Except String Unit :=
  if identifier.catalog.isEmpty || identifier.name.isEmpty ||
      identifier.namespace.any String.isEmpty then
    invalid "catalog, namespace segments, and name must be non-empty"
  else .ok ()

/-- The JSON text of an identifier. -/
def TableIdentifier.json (identifier : TableIdentifier) : List Char :=
  "\x7b\"catalog\":".toList ++ Json.stringChars identifier.catalog ++
    ",\"namespace\":".toList ++ Json.arrayChars identifier.namespace ++
    ",\"name\":".toList ++ Json.stringChars identifier.name ++ "\x7d".toList

/-- An exact, provider-neutral definition of one table state. -/
structure TableDefinition where
  identifier : TableIdentifier
  provider : String
  properties : Properties
deriving DecidableEq

namespace TableDefinition

def validate (definition : TableDefinition) : Except String Unit := do
  definition.identifier.validate
  if definition.provider.isEmpty then invalid "table provider must not be empty"
  if definition.properties.keys.any String.isEmpty then
    invalid "table property names must not be empty"
  .ok ()

/-- The identity a table keeps across revisions of its provider state. -/
def semanticIdentity (definition : TableDefinition) : String :=
  match definition.properties.get? "table-identity" with
  | some identity => identity
  | none => String.ofList definition.identifier.json

def definitionFingerprintNamespace : Uuid := 0x8fddf2df5b304675917ce99f4332a591

/-- The JSON text of a string map. -/
def propertiesJson (properties : Properties) : List Char :=
  "\x7b".toList ++
    ([','].intercalate (properties.entries.map fun entry =>
      Json.stringChars entry.1 ++ [':'] ++ Json.stringChars entry.2)) ++ "\x7d".toList

/-- The canonical text of the exact table state. -/
def exactTableState (definition : TableDefinition) : String :=
  String.ofList ("\x7b\"provider\":".toList ++ Json.stringChars definition.provider ++
    ",\"identity\":".toList ++ Json.stringChars definition.semanticIdentity ++
    ",\"properties\":".toList ++ propertiesJson definition.properties ++ "\x7d".toList)

/-- The deterministic exact-state fingerprint. -/
def fingerprint (crates : Crates) (definition : TableDefinition) : Except String String := do
  definition.validate
  .ok (crates.uuidToString (crates.newV5 definitionFingerprintNamespace definition.exactTableState))

/-- The key of the table across revisions. -/
def identityKey (crates : Crates) (definition : TableDefinition) : String :=
  crates.uuidToString (crates.newV5 definitionFingerprintNamespace
    (String.ofList (Json.arrayChars [definition.provider, definition.semanticIdentity])))

/-- The exact-state key used for catalog matching.  The source panics on an invalid
definition; every caller modelled here has validated it before. -/
def exactStateKey (crates : Crates) (definition : TableDefinition) : String :=
  crates.uuidToString (crates.newV5 definitionFingerprintNamespace definition.exactTableState)

end TableDefinition

/-!
## Metadata of shared IVF centroid artifacts

The descriptor that identifies a reusable centroid model, the metadata document of
one trained artifact and the reference an index snapshot keeps to it
(`parqdb-meta/src/ivf_centroids.rs`), with the location checks of
`parqdb-meta/src/metadata.rs` they rest on.
-/

/-! ## Locations -/

/-- A canonical path below the warehouse root. -/
def validateRelativeLocation (location : String) : Except String Unit :=
  let chars := location.toList
  let path := if chars.getLast? = some '/' then chars.dropLast else chars
  if chars.isEmpty || chars.head? = some '/' || chars.contains '\\' || chars.contains '?' ||
      chars.contains '#' || path.isEmpty ||
      (path.splitOn '/').any fun segment =>
        segment.isEmpty || segment = ['.'] || segment = ['.', '.'] then
    invalid ("invalid warehouse-relative location: " ++ location)
  else .ok ()

/-- A deployment-owned absolute storage URI. -/
def validateAbsoluteLocation (crates : Crates) (location : String) : Except String Unit := do
  let parsed ← crates.parseUrl location
  if (!parsed.hasHost && parsed.scheme ≠ "file") || parsed.username ≠ "" ||
      parsed.password.isSome || parsed.query.isSome || parsed.fragment.isSome then
    invalid "location must be an absolute URI without user information, query, or fragment"
  .ok ()

/-! ## The descriptor of a centroid model -/

/-- Distance metrics supported by the IVF family. -/
inductive DistanceMetric
  | l2Squared
  | cosine
deriving DecidableEq

namespace DistanceMetric

def asStr : DistanceMetric → String
  | l2Squared => "l2_squared"
  | cosine => "cosine"

def fromMetadata (value : String) : Option DistanceMetric :=
  if value = "l2_squared" then some l2Squared
  else if value = "cosine" then some cosine
  else none

@[simp] theorem fromMetadata_asStr (metric : DistanceMetric) :
    fromMetadata metric.asStr = some metric := by
  cases metric <;> decide

end DistanceMetric

/-- Semantic identity of one reusable IVF centroid model. -/
structure IvfCentroidsDescriptor where
  vectorField : String
  dimension : ℤ
  metric : DistanceMetric
  nlist : ℤ
  clusteringProfileVersion : ℤ
deriving DecidableEq

namespace IvfCentroidsDescriptor

def validate (descriptor : IvfCentroidsDescriptor) : Except String Unit := do
  if descriptor.vectorField.isEmpty then
    invalid "IVF centroids vector-field must be non-empty"
  if descriptor.dimension ≤ 0 || descriptor.nlist ≤ 0 ||
      descriptor.clusteringProfileVersion ≤ 0 then
    invalid "IVF centroids dimension, nlist, and profile version must be positive"
  .ok ()

def fingerprintNamespace : Uuid := 0x2fb71e63a27c4fc59d6d5070698dc398

/-- The canonical text whose name-based UUID is the lookup fingerprint. -/
def fingerprintDescriptor (descriptor : IvfCentroidsDescriptor) : String :=
  String.ofList ("\x7b\"vector-field\":".toList ++ Json.stringChars descriptor.vectorField ++
    ",\"dimension\":".toList ++ (toString descriptor.dimension).toList ++
    ",\"metric\":".toList ++ Json.stringChars descriptor.metric.asStr ++
    ",\"nlist\":".toList ++ (toString descriptor.nlist).toList ++
    ",\"clustering-profile-version\":".toList ++
    (toString descriptor.clusteringProfileVersion).toList ++ "\x7d".toList)

def fingerprint (crates : Crates) (descriptor : IvfCentroidsDescriptor) :
    Except String String := do
  descriptor.validate
  .ok (crates.uuidToString (crates.newV5 fingerprintNamespace descriptor.fingerprintDescriptor))

def isCompatibleWith (descriptor other : IvfCentroidsDescriptor) : Bool :=
  descriptor.vectorField = other.vectorField && descriptor.dimension = other.dimension &&
    descriptor.metric = other.metric && descriptor.nlist = other.nlist &&
    descriptor.clusteringProfileVersion = other.clusteringProfileVersion

end IvfCentroidsDescriptor

/-! ## The metadata document of an artifact -/

/-- Immutable metadata document for one reusable IVF centroid artifact. -/
structure IvfCentroidsMetadata where
  formatVersion : ℤ
  artifactUuid : Uuid
  fingerprint : String
  createdAtMs : ℤ
  descriptor : IvfCentroidsDescriptor
  centroids : String
  roots : String
deriving DecidableEq

def IvfCentroidsMetadata.validate (crates : Crates) (metadata : IvfCentroidsMetadata) :
    Except String Unit := do
  if metadata.formatVersion ≠ 1 then
    invalid s!"unsupported IVF centroids format-version {metadata.formatVersion}"
  if metadata.artifactUuid = 0 then
    invalid "IVF centroid artifact UUID must not be nil"
  if metadata.createdAtMs < 0 then
    invalid "IVF centroids creation time must be non-negative"
  metadata.descriptor.validate
  let expected ← metadata.descriptor.fingerprint crates
  if metadata.fingerprint ≠ expected then
    invalid "IVF centroid fingerprint does not match its descriptor"
  validateRelativeLocation metadata.centroids
  validateRelativeLocation metadata.roots
  if metadata.centroids = metadata.roots then
    invalid "IVF centroid and root locations must be different"
  .ok ()

/-- Reference to an IVF centroid artifact stored in logical-index parameters. -/
structure IvfCentroidsReference where
  fingerprint : String
  artifactUuid : Uuid
  metadataLocation : String
deriving DecidableEq

namespace IvfCentroidsReference

def validate (crates : Crates) (reference : IvfCentroidsReference) : Except String Unit := do
  if reference.artifactUuid = 0 then
    invalid "IVF centroid artifact UUID must not be nil"
  match crates.parseUuid reference.fingerprint with
  | none => invalid "IVF centroid fingerprint must be a lowercase UUID"
  | some parsed =>
      if crates.uuidToString parsed ≠ reference.fingerprint then
        invalid "IVF centroid fingerprint must be a lowercase UUID"
      validateRelativeLocation reference.metadataLocation

/-- Creates and validates a reference. -/
def new (crates : Crates) (fingerprint : String) (artifactUuid : Uuid)
    (metadataLocation : String) : Except String IvfCentroidsReference := do
  let reference : IvfCentroidsReference := ⟨fingerprint, artifactUuid, metadataLocation⟩
  reference.validate crates
  .ok reference

end IvfCentroidsReference

/-!
## Index snapshots

One immutable snapshot of an index, its provider and table definitions
(`parqdb-meta/src/metadata.rs`), and the checks of the built-in IVF family
(`parqdb-meta/src/family.rs`).
-/

/-- Persistent provider selection for physical index tables. -/
structure IndexProviderDefinition where
  provider : String
  properties : Properties
deriving DecidableEq

def IndexProviderDefinition.validate (definition : IndexProviderDefinition) :
    Except String Unit := do
  if definition.provider.isEmpty then invalid "index provider name must not be empty"
  if definition.properties.keys.any String.isEmpty then
    invalid "index provider property names must not be empty"
  .ok ()

/-- Provider-defined location and layout of one physical index table. -/
structure IndexTableDefinition where
  definitionVersion : ℤ
  properties : Properties
deriving DecidableEq

def IndexTableDefinition.validate (definition : IndexTableDefinition) : Except String Unit := do
  if definition.definitionVersion ≤ 0 then
    invalid "index table definition version must be positive"
  if definition.properties.keys.any String.isEmpty then
    invalid "index table property names must not be empty"
  .ok ()

/-- Entry recording when an index snapshot became current. -/
structure SnapshotLogEntry where
  timestampMs : ℤ
  snapshotId : ℤ
deriving DecidableEq

/-- Immutable logical state of one index. -/
structure IndexSnapshot where
  snapshotId : ℤ
  sequenceNumber : ℤ
  timestampMs : ℤ
  summary : Properties
  sourceTable : TableDefinition
  vectorField : String
  sourceKeyFields : List String
  indexedRows : ℤ
  indexFamily : String
  indexSchemaVersion : ℤ
  metric : String
  parameters : Properties
  indexProvider : IndexProviderDefinition
  indexTables : SortedMap IndexTableDefinition
deriving DecidableEq

/-! ## The IVF family -/

def ivfSchemaVersion : ℤ := 1

/-- Vector representation stored in IVF postings. -/
inductive PostingEncoding
  | source
  | lvq4
  | lvq8
deriving DecidableEq

namespace PostingEncoding

def asStr : PostingEncoding → String
  | source => "source"
  | lvq4 => "lvq4"
  | lvq8 => "lvq8"

def fromMetadata (value : String) : Option PostingEncoding :=
  if value = "source" then some source
  else if value = "lvq4" then some lvq4
  else if value = "lvq8" then some lvq8
  else none

@[simp] theorem fromMetadata_asStr (encoding : PostingEncoding) :
    fromMetadata encoding.asStr = some encoding := by
  cases encoding <;> decide

/-- The postings encoding declared by an IVF snapshot. -/
def fromSnapshot (snapshot : IndexSnapshot) : Except String PostingEncoding := do
  if snapshot.indexFamily ≠ "ivf" then
    invalid "posting encoding is defined only for IVF indexes"
  if snapshot.indexSchemaVersion ≠ ivfSchemaVersion then
    invalid "unsupported IVF index schema version; rebuild the index"
  match (snapshot.parameters.get? "posting_encoding").bind fromMetadata with
  | some encoding => .ok encoding
  | none => invalid "invalid IVF posting_encoding parameter"

end PostingEncoding

/-- A parameter that must be present. -/
def requiredParameter (parameters : Properties) (name : String) : Except String String :=
  match parameters.get? name with
  | some value => .ok value
  | none => invalid ("missing parameter: " ++ name)

/-- The value of a non-empty list of decimal digits. -/
def decimalValue (digits : List Char) : ℕ :=
  digits.foldl (fun value digit => 10 * value + (digit.toNat - 48)) 0

/-- Reads a canonical positive integer of at most `maximum`. -/
def parsePositiveParameter (parameters : Properties) (name : String) (maximum : ℕ) :
    Except String ℕ := do
  let value := (← requiredParameter parameters name).toList
  if value.isEmpty || (1 < value.length && value.head? = some '0') ||
      !value.all Char.isDigit then
    invalid (name ++ " is not a canonical positive integer")
  if 2 ^ 64 ≤ decimalValue value then invalid (name ++ " is out of range")
  if decimalValue value = 0 || maximum < decimalValue value then
    invalid (name ++ " is out of range")
  .ok (decimalValue value)

/-- A UUID stored as a parameter. -/
def uuidParameter (crates : Crates) (parameters : Properties) (name : String) :
    Except String Uuid := do
  match crates.parseUuid (← requiredParameter parameters name) with
  | some uuid => .ok uuid
  | none => invalid ("invalid parameter: " ++ name)

/-- The IVF-centroids reference declared by an IVF snapshot. -/
def ivfCentroidsReference (crates : Crates) (snapshot : IndexSnapshot) :
    Except String IvfCentroidsReference := do
  if snapshot.indexFamily ≠ "ivf" || snapshot.indexSchemaVersion ≠ ivfSchemaVersion then
    invalid "IVF centroids reference requires IVF schema version 1"
  let fingerprint ← requiredParameter snapshot.parameters "ivf_centroids_fingerprint"
  let artifactUuid ← uuidParameter crates snapshot.parameters "ivf_centroids_uuid"
  let metadataLocation ←
    requiredParameter snapshot.parameters "ivf_centroids_metadata_location"
  IvfCentroidsReference.new crates fingerprint artifactUuid metadataLocation

/-- Whether the encoding stores the index as a self-contained artifact. -/
def PostingEncoding.artifactLayout : PostingEncoding → Bool
  | .source => false
  | .lvq4 | .lvq8 => true

def expectedParameters (artifactLayout : Bool) : List String :=
  if artifactLayout then
    ["artifact_uuid", "dimension", "nlist", "ntotal", "posting_encoding"]
  else
    ["dimension", "nlist", "ntotal", "posting_encoding", "ivf_centroids_fingerprint",
      "ivf_centroids_uuid", "ivf_centroids_metadata_location"]

def expectedTables : List String := ["ivf_centroids", "ivf_postings"]

def validateIvf (crates : Crates) (snapshot : IndexSnapshot) : Except String Unit := do
  if snapshot.indexSchemaVersion ≠ ivfSchemaVersion then
    invalid "unsupported IVF index schema version; rebuild the index"
  if (DistanceMetric.fromMetadata snapshot.metric).isNone then
    invalid "IVF metric must be l2_squared or cosine"
  match (snapshot.parameters.get? "posting_encoding").bind PostingEncoding.fromMetadata with
  | none => invalid "invalid IVF posting_encoding parameter"
  | some encoding =>
      let expected := expectedParameters encoding.artifactLayout
      if snapshot.parameters.size ≠ expected.length ||
          snapshot.parameters.keys.any (fun key => !expected.contains key) then
        invalid "IVF parameters do not match the declared index schema version"
      let _ ← parsePositiveParameter snapshot.parameters "dimension" (2 ^ 31 - 1)
      let nlist ← parsePositiveParameter snapshot.parameters "nlist" (2 ^ 31 - 1)
      let ntotal ← parsePositiveParameter snapshot.parameters "ntotal" (2 ^ 63 - 1)
      if snapshot.indexedRows ≠ (ntotal : ℤ) then
        invalid "indexed-rows must match the IVF ntotal parameter"
      if ntotal < nlist then invalid "nlist must not exceed ntotal"
      if encoding.artifactLayout then
        let artifactUuid ← uuidParameter crates snapshot.parameters "artifact_uuid"
        if artifactUuid = 0 then invalid "artifact_uuid must not be nil"
      else
        let _ ← ivfCentroidsReference crates snapshot
      if expectedTables.any (fun role => !snapshot.indexTables.containsKey role) ||
          snapshot.indexTables.keys.any (fun role => !expectedTables.contains role) then
        invalid "invalid IVF index table roles"
      .ok ()

def validateFamily (crates : Crates) (snapshot : IndexSnapshot) : Except String Unit :=
  if snapshot.indexFamily = "ivf" then validateIvf crates snapshot
  else invalid ("unsupported index family: " ++ snapshot.indexFamily)

/-! ## Snapshot validation -/

def IndexSnapshot.validate (crates : Crates) (snapshot : IndexSnapshot) : Except String Unit := do
  if snapshot.snapshotId ≤ 0 || snapshot.sequenceNumber ≤ 0 || snapshot.timestampMs < 0 then
    invalid ("snapshot IDs and sequence numbers must be positive and timestamps must be " ++
      "non-negative")
  if snapshot.vectorField.isEmpty || snapshot.sourceKeyFields.isEmpty ||
      snapshot.sourceKeyFields.any String.isEmpty then
    invalid "vector-field and source-key-fields must be non-empty"
  if ¬ snapshot.sourceKeyFields.Nodup then
    invalid "source-key-fields must not contain duplicates"
  if snapshot.indexedRows ≤ 0 then invalid "indexed-rows must be positive"
  if snapshot.summary.keys.any String.isEmpty || snapshot.parameters.keys.any String.isEmpty ||
      snapshot.indexTables.keys.any String.isEmpty then
    invalid "map keys must be non-empty"
  snapshot.sourceTable.validate
  snapshot.indexProvider.validate
  snapshot.indexTables.values.forM IndexTableDefinition.validate
  validateFamily crates snapshot

/-!
## Index metadata documents

The complete metadata document of a logical index, its validation on its own and as
an update of a base document (`parqdb-meta/src/metadata.rs`).

The source collects IDs in hash sets while it walks over the snapshots and stops at
the first violation; the two loops below carry the same accumulators.
-/

/-- The fields that all snapshots of an index share. -/
structure SnapshotIdentity where
  sourceIdentifier : TableIdentifier
  sourceProvider : String
  vectorField : String
  sourceKeyFields : List String
  indexFamily : String
  metric : String
deriving DecidableEq

def SnapshotIdentity.fromSnapshot (snapshot : IndexSnapshot) : SnapshotIdentity where
  sourceIdentifier := snapshot.sourceTable.identifier
  sourceProvider := snapshot.sourceTable.provider
  vectorField := snapshot.vectorField
  sourceKeyFields := snapshot.sourceKeyFields
  indexFamily := snapshot.indexFamily
  metric := snapshot.metric

/-- Complete immutable metadata document for a logical index. -/
structure IndexMetadata where
  formatVersion : ℤ
  indexUuid : Uuid
  lastUpdatedMs : ℤ
  lastSequenceNumber : ℤ
  currentSnapshotId : ℤ
  snapshots : List IndexSnapshot
  snapshotLog : List SnapshotLogEntry
  properties : Properties
deriving DecidableEq

namespace IndexMetadata

/-- The current retained snapshot. -/
def currentSnapshot (metadata : IndexMetadata) : Except String IndexSnapshot :=
  match metadata.snapshots.find? fun snapshot =>
      snapshot.snapshotId = metadata.currentSnapshotId with
  | some snapshot => .ok snapshot
  | none => invalid "current-snapshot-id is not retained"

/-- The walk over the snapshots; returns the snapshot IDs seen. -/
def validateSnapshots (crates : Crates) (metadata : IndexMetadata) (identity : SnapshotIdentity) :
    List IndexSnapshot → List ℤ → List ℤ → Except String (List ℤ)
  | [], snapshotIds, _ => .ok snapshotIds
  | snapshot :: rest, snapshotIds, sequenceNumbers => do
      snapshot.validate crates
      if SnapshotIdentity.fromSnapshot snapshot ≠ identity then
        invalid "logical identity fields must remain equal across snapshots"
      if snapshotIds.contains snapshot.snapshotId ||
          sequenceNumbers.contains snapshot.sequenceNumber ||
          metadata.lastSequenceNumber < snapshot.sequenceNumber ||
          metadata.lastUpdatedMs < snapshot.timestampMs then
        invalid "invalid or duplicate snapshot identity"
      validateSnapshots crates metadata identity rest (snapshot.snapshotId :: snapshotIds)
        (snapshot.sequenceNumber :: sequenceNumbers)

/-- The walk over the snapshot log. -/
def validateLog (metadata : IndexMetadata) (snapshotIds : List ℤ) :
    List SnapshotLogEntry → Option ℤ → Except String Unit
  | [], _ => .ok ()
  | entry :: rest, previousTimestamp => do
      if entry.timestampMs < 0 || metadata.lastUpdatedMs < entry.timestampMs ||
          !snapshotIds.contains entry.snapshotId ||
          previousTimestamp.any (fun previous => entry.timestampMs < previous) then
        invalid "invalid snapshot-log"
      validateLog metadata snapshotIds rest (some entry.timestampMs)

/-- Validates the document independently. -/
def validate (crates : Crates) (metadata : IndexMetadata) : Except String Unit := do
  if metadata.formatVersion ≠ 1 then
    invalid s!"unsupported format-version {metadata.formatVersion}"
  if metadata.lastUpdatedMs < 0 || metadata.lastSequenceNumber ≤ 0 ||
      metadata.currentSnapshotId ≤ 0 || metadata.snapshots.isEmpty ||
      metadata.snapshotLog.isEmpty then
    invalid "invalid metadata timestamps, sequence, or snapshot state"
  if metadata.properties.keys.any String.isEmpty then invalid "map keys must be non-empty"
  match metadata.snapshots with
  | [] => invalid "invalid metadata timestamps, sequence, or snapshot state"
  | first :: _ =>
      let snapshotIds ← validateSnapshots crates metadata (SnapshotIdentity.fromSnapshot first)
        metadata.snapshots [] []
      if !snapshotIds.contains metadata.currentSnapshotId then
        invalid "current-snapshot-id is not retained"
      validateLog metadata snapshotIds metadata.snapshotLog none
      if metadata.snapshotLog.getLast?.map (·.snapshotId) ≠ some metadata.currentSnapshotId then
        invalid "snapshot-log must end at current-snapshot-id"
      .ok ()

/-- The snapshots of the new document that the base does not retain, provided the
retained ones are unchanged. -/
def addedSnapshots (base : IndexMetadata) : List IndexSnapshot → Except String (List IndexSnapshot)
  | [] => .ok []
  | snapshot :: rest =>
      match base.snapshots.find? fun old => old.snapshotId = snapshot.snapshotId with
      | some old =>
          if old ≠ snapshot then invalid "retained snapshots are immutable"
          else addedSnapshots base rest
      | none => do
          let added ← addedSnapshots base rest
          .ok (snapshot :: added)

/-- Validates the document as a legal update from `base`. -/
def validateUpdateFrom (crates : Crates) (metadata base : IndexMetadata) : Except String Unit := do
  base.validate crates
  metadata.validate crates
  if metadata.indexUuid ≠ base.indexUuid then invalid "index-uuid must remain unchanged"
  if metadata.lastUpdatedMs < base.lastUpdatedMs then
    invalid "last-updated-ms must not decrease"
  if metadata.lastSequenceNumber < base.lastSequenceNumber then
    invalid "last-sequence-number must not decrease"
  let baseIdentity := SnapshotIdentity.fromSnapshot (← base.currentSnapshot)
  if metadata.snapshots.any fun snapshot =>
      SnapshotIdentity.fromSnapshot snapshot ≠ baseIdentity then
    invalid "logical identity fields must remain equal to the base metadata"
  let added ← addedSnapshots base metadata.snapshots
  match added with
  | [] =>
      if metadata.lastSequenceNumber ≠ base.lastSequenceNumber then
        invalid "last-sequence-number changed without a new snapshot"
  | [snapshot] =>
      if 2 ^ 63 - 1 < base.lastSequenceNumber + 1 then
        invalid "last-sequence-number is exhausted"
      if snapshot.sequenceNumber ≠ base.lastSequenceNumber + 1 ||
          metadata.lastSequenceNumber ≠ base.lastSequenceNumber + 1 ||
          metadata.currentSnapshotId ≠ snapshot.snapshotId then
        invalid "a new snapshot must use the next sequence number and become current"
  | _ => invalid "one metadata update may add at most one snapshot"
  let retainedSnapshotIds := metadata.snapshots.map (·.snapshotId)
  let retainedBaseLog := base.snapshotLog.filter fun entry =>
    retainedSnapshotIds.contains entry.snapshotId
  if metadata.snapshotLog.length < retainedBaseLog.length ||
      (metadata.snapshotLog.zip retainedBaseLog).any (fun pair => pair.1 ≠ pair.2) then
    invalid "snapshot-log history for retained snapshots is immutable"
  let appendedLog := metadata.snapshotLog.drop retainedBaseLog.length
  if metadata.currentSnapshotId = base.currentSnapshotId then
    if !appendedLog.isEmpty then
      invalid "snapshot-log changed without changing the current snapshot"
  else if appendedLog.map (·.snapshotId) ≠ [metadata.currentSnapshotId] then
    invalid "changing the current snapshot must append one snapshot-log entry"
  .ok ()

end IndexMetadata

end ParqDB.Meta
