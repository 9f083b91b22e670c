import Mathlib.Data.Bool.AllAny
import ParqDB.Meta.PostingsManifest

/-!
# Manifests of index artifacts

The self-contained manifest of an immutable index that readers open over HTTP, and its
validation (`parqdb-meta/src/artifact_manifest.rs`).

The walk over the postings files is a second copy of the one in the postings manifest: the
paths lie one directory higher, sizes and rows are bounded by what a JavaScript number
represents, and some checks share an error.  `ObjectsAccepted` states its result in the
words of the other one.
-/

namespace ParqDB.Meta

open Foundations

/-! ## The document -/

/-- Largest integer represented exactly by every conforming JavaScript number. -/
def jsonSafeIntegerMax : ℕ := 2 ^ 53 - 1

/-- One source-key field returned by an index artifact query. -/
structure StaticSourceKeyField where
  name : String
  dataType : String
deriving DecidableEq

/-- Logical query contract declared by an index artifact. -/
structure StaticIndexDescriptor where
  vectorField : String
  metric : DistanceMetric
  postingEncoding : PostingEncoding
  dimension : ℤ
  nlist : ℤ
  ntotal : ℤ
  sourceKeyFields : List StaticSourceKeyField
deriving DecidableEq

/-- One immutable object referenced by an index artifact. -/
structure StaticIndexObject where
  path : String
  size : ℕ
  sha256 : String
deriving DecidableEq

/-- Persisted root-to-leaf routing topology and centroid objects. -/
structure StaticIndexHierarchy where
  cidOffsets : List ℤ
  centroidEncoding : PostingEncoding
  centroids : StaticIndexObject
deriving DecidableEq

/-- One immutable source Parquet object and its global row interval. -/
structure StaticSourceFile where
  path : String
  size : ℕ
  sha256 : String
  rowBegin : ℕ
  rowEnd : ℕ
deriving DecidableEq

/-- Optional immutable source table used for payload lookup. -/
structure StaticSourceDescriptor where
  rows : ℕ
  rowGroupRows : ℕ
  key : StaticSourceKeyField
  columns : List String
  files : List StaticSourceFile
deriving DecidableEq

/-- Query and embedding parity probe for one published model. -/
structure StaticEmbeddingParityProbe where
  text : String
  vector : List Float32
  maxAbsoluteError : Float32

/-- Optional immutable embedding-model contract. -/
structure StaticEmbeddingDescriptor where
  repository : String
  revision : String
  runtime : String
  onnxFile : String
  dimension : ℤ
  maxLength : ℤ
  pooling : String
  normalize : Bool
  inputTemplate : String
  parityProbe : StaticEmbeddingParityProbe
  assets : List StaticIndexObject

/-- One postings Parquet object in an index artifact. -/
structure StaticPostingsFile where
  path : String
  cidBucket : ℤ
  minCid : ℤ
  maxCid : ℤ
  rows : ℕ
  size : ℕ
  sha256 : String
deriving DecidableEq

/-- Immutable, self-contained IVF artifact manifest. -/
structure IndexArtifactManifest where
  formatVersion : ℤ
  artifactUuid : Uuid
  index : StaticIndexDescriptor
  hierarchy : StaticIndexHierarchy
  postings : List StaticPostingsFile
  source : Option StaticSourceDescriptor
  embedding : Option StaticEmbeddingDescriptor

/-! ## The checks -/

/-- A 32-bit number as `parse` accepts it: an optional plus sign and digits. -/
def parseU32 (chars : List Char) : Option ℕ :=
  let digits := if chars.head? = some '+' then chars.tail else chars
  if !digits.isEmpty && digits.all Char.isDigit && decimalValue digits < 2 ^ 32 then
    some (decimalValue digits)
  else none

/-- The text after a fixed start. -/
def stripStart (start text : List Char) : Option (List Char) :=
  if start.isPrefixOf text then some (text.drop start.length) else none

/-- The text before a fixed end. -/
def stripEnd (finish text : List Char) : Option (List Char) :=
  if finish.isSuffixOf text then some (text.take (text.length - finish.length)) else none

def validateSourceKeyType (value : String) : Except String Unit := do
  if value ∈ ["boolean", "int", "long", "binary", "string", "date"] then .ok ()
  else
    match (stripStart "fixed(".toList value.toList).bind (stripEnd ")".toList) with
    | none => invalid "unsupported index artifact source-key type"
    | some length =>
        rejectIf (((parseU32 length).filter fun parsed =>
            0 < parsed && (toString parsed).toList = length).isNone)
          "invalid index artifact fixed source-key type"

def validateSha256 (value : String) : Except String Unit :=
  rejectIf (!isSha256 value)
    "index artifact sha256 must be 64 lowercase hexadecimal characters"

/-- Whether a text names a Parquet file. -/
def isParquet (path : String) : Bool := ".parquet".toList.isSuffixOf path.toList

/-- An object of the index. -/
def validateObject (object : StaticIndexObject) : Except String Unit := do
  validateRelativeLocation object.path
  validateSha256 object.sha256
  rejectIf (!isParquet object.path ∨ object.size = 0 ∨ jsonSafeIntegerMax < object.size)
    "invalid index artifact Parquet object"

/-- An object of the embedding model. -/
def validateAsset (object : StaticIndexObject) : Except String Unit := do
  validateRelativeLocation object.path
  validateSha256 object.sha256
  rejectIf (object.size = 0 ∨ jsonSafeIntegerMax < object.size)
    "invalid static publication asset"

namespace StaticPostingsFile

def key (file : StaticPostingsFile) : ℤ × ℤ × ℤ × String :=
  (file.cidBucket, file.minCid, file.maxCid, file.path)

/-- The bucket and the range of one file. -/
def validate (cidOffsets : List ℤ) (file : StaticPostingsFile) : Except String Unit := do
  match bucketIndex cidOffsets file.cidBucket with
  | none => invalid "index artifact cid-bucket is out of range"
  | some bucket =>
      rejectIf (!("ivf_postings/".toList ++ bucketDirectory bucket).isPrefixOf file.path.toList ∨
          file.minCid < cidOffsets[bucket]?.getD 0 ∨ file.maxCid < file.minCid ∨
          cidOffsets[bucket + 1]?.getD 0 ≤ file.maxCid)
        "index artifact postings range is outside its bucket"

/-- The comparison with the file before. -/
def validateAfter (file : StaticPostingsFile) : Option StaticPostingsFile → Except String Unit
  | none => .ok ()
  | some previous =>
      rejectIf (!keyBefore previous.key file.key ∨
          (previous.cidBucket = file.cidBucket ∧ file.minCid < previous.maxCid))
        "index artifact postings files are not canonically ordered"

end StaticPostingsFile

namespace IndexArtifactManifest

/-- The walk over the source-key fields, with the names seen. -/
def validateKeyFields : List StaticSourceKeyField → List String → Except String Unit
  | [], _ => .ok ()
  | field :: rest, names => do
      rejectIf (field.name = "" ∨ field.name = "_distance" ∨ field.name ∈ names)
        "index artifact source-key field names must be non-empty and unique"
      validateSourceKeyType field.dataType
      validateKeyFields rest (field.name :: names)

def validateIndex (manifest : IndexArtifactManifest) : Except String Unit := do
  let index := manifest.index
  rejectIf (index.vectorField = "" ∨ index.vectorField = "_distance")
    "index artifact vector-field must be non-empty and non-reserved"
  rejectIf (index.postingEncoding ≠ .lvq4 ∧ index.postingEncoding ≠ .lvq8)
    "index artifact version 1 requires lvq4 or lvq8 postings"
  rejectIf (index.dimension ≤ 0 ∨ index.nlist ≤ 0 ∨ index.ntotal ≤ 0 ∨
      index.ntotal < index.nlist ∨ jsonSafeIntegerMax < index.ntotal.toNat)
    "invalid or non-portable index artifact index cardinality"
  rejectIf (index.sourceKeyFields = []) "index artifact source-key-fields must not be empty"
  validateKeyFields index.sourceKeyFields []

def validateHierarchy (manifest : IndexArtifactManifest) : Except String Unit := do
  rejectIf (manifest.hierarchy.centroidEncoding ≠ .lvq8)
    "index artifact version 1 requires lvq8 leaf centroids"
  rejectIf (!partitions manifest.hierarchy.cidOffsets manifest.index.nlist)
    "index artifact cid-offsets must partition [0, nlist)"
  validateObject manifest.hierarchy.centroids

/-- The walk over the postings files, with the paths seen, the file before and the rows so
far. -/
def validateFiles (cidOffsets : List ℤ) :
    List StaticPostingsFile → List String → Option StaticPostingsFile → ℕ → Except String ℕ
  | [], _, _, rows => .ok rows
  | file :: rest, paths, previous, rows => do
      validateRelativeLocation file.path
      validateSha256 file.sha256
      rejectIf (!isParquet file.path ∨ file.path ∈ paths ∨ file.rows = 0 ∨ file.size = 0 ∨
          jsonSafeIntegerMax < file.rows ∨ jsonSafeIntegerMax < file.size)
        "invalid index artifact postings object"
      file.validate cidOffsets
      rejectIf (2 ^ 64 ≤ rows + file.rows) "index artifact row count overflows"
      file.validateAfter previous
      validateFiles cidOffsets rest (file.path :: paths) (some file) (rows + file.rows)

def validateObjects (manifest : IndexArtifactManifest) : Except String Unit := do
  rejectIf (manifest.postings = []) "index artifact must contain postings files"
  let rows ← validateFiles manifest.hierarchy.cidOffsets manifest.postings
    [manifest.hierarchy.centroids.path] none 0
  rejectIf (rows ≠ manifest.index.ntotal.toNat)
    "index artifact postings rows do not sum to ntotal"

/-- The walk over the source files, with the first row expected and the paths seen. -/
def validateSourceFiles (rows : ℕ) :
    List StaticSourceFile → ℕ → List String → Except String ℕ
  | [], expectedBegin, _ => .ok expectedBegin
  | file :: rest, expectedBegin, paths => do
      validateRelativeLocation file.path
      validateSha256 file.sha256
      rejectIf (!isParquet file.path ∨ file.size = 0 ∨ jsonSafeIntegerMax < file.size ∨
          file.rowBegin ≠ expectedBegin ∨ file.rowEnd ≤ file.rowBegin ∨ rows < file.rowEnd ∨
          file.path ∈ paths)
        "invalid static publication source file"
      validateSourceFiles rows rest file.rowEnd (file.path :: paths)

def validateSource (manifest : IndexArtifactManifest) : Except String Unit :=
  match manifest.source with
  | none => .ok ()
  | some source => do
      rejectIf (source.rows = 0 ∨ jsonSafeIntegerMax < source.rows ∨
          source.rows ≠ manifest.index.ntotal.toNat ∨ source.rowGroupRows = 0 ∨
          jsonSafeIntegerMax < source.rowGroupRows ∨ source.key.dataType ≠ "long" ∨
          manifest.index.sourceKeyFields ≠ [source.key] ∨ source.columns = [] ∨
          "" ∈ source.columns ∨ source.key.name ∉ source.columns ∨ ¬ source.columns.Nodup ∨
          source.files = [])
        "invalid static publication source descriptor"
      let expectedBegin ← validateSourceFiles source.rows source.files 0 []
      rejectIf (expectedBegin ≠ source.rows)
        "static publication source files do not partition its rows"

/-- The walk over the assets, with the paths seen. -/
def validateAssets : List StaticIndexObject → List String → Except String (List String)
  | [], paths => .ok paths
  | asset :: rest, paths => do
      validateAsset asset
      rejectIf (asset.path ∈ paths) "embedding asset paths must be unique"
      validateAssets rest (asset.path :: paths)

def validateEmbedding (manifest : IndexArtifactManifest) : Except String Unit :=
  match manifest.embedding with
  | none => .ok ()
  | some embedding => do
      let probe := embedding.parityProbe
      rejectIf (embedding.repository = "" ∨ embedding.revision = "" ∨ embedding.runtime ≠ "onnx" ∨
          embedding.dimension ≠ manifest.index.dimension ∨ embedding.maxLength ≤ 0 ∨
          embedding.pooling = "" ∨ embedding.inputTemplate = "" ∨ probe.text = "" ∨
          probe.vector.length ≠ embedding.dimension.toNat ∨
          probe.vector.any (fun value => !value.isFinite) ∨ !probe.maxAbsoluteError.isFinite ∨
          probe.maxAbsoluteError ≤ 0 ∨ embedding.assets = [])
        "invalid static publication embedding descriptor"
      validateRelativeLocation embedding.onnxFile
      let paths ← validateAssets embedding.assets []
      rejectIf (embedding.onnxFile ∉ paths)
        "embedding ONNX file is missing from the asset inventory"

/-- The paths of all objects, in the order in which the source inserts them in a set. -/
def objectPaths (manifest : IndexArtifactManifest) : List String :=
  manifest.hierarchy.centroids.path :: (manifest.postings.map (·.path) ++
    (manifest.source.toList.flatMap fun source => source.files.map (·.path)) ++
    manifest.embedding.toList.flatMap fun embedding => embedding.assets.map (·.path))

def validateUniquePaths (manifest : IndexArtifactManifest) : Except String Unit :=
  rejectIf (¬ manifest.objectPaths.Nodup) "publication object paths must be globally unique"

/-- Validates the complete artifact contract without performing object I/O. -/
def validate (manifest : IndexArtifactManifest) : Except String Unit := do
  rejectIf (manifest.formatVersion ≠ 1)
    s!"unsupported index artifact format-version {manifest.formatVersion}"
  rejectIf (manifest.artifactUuid = 0) "index artifact UUID must not be nil"
  manifest.validateIndex
  manifest.validateHierarchy
  manifest.validateObjects
  manifest.validateSource
  manifest.validateEmbedding
  manifest.validateUniquePaths

end IndexArtifactManifest

/-! ## What the checks of the postings say -/

/-- What holds of a file on its own. -/
structure StaticPostingsFile.Accepted (cidOffsets : List ℤ) (file : StaticPostingsFile) :
    Prop where
  location : validateRelativeLocation file.path = .ok ()
  parquet : ".parquet".toList <:+ file.path.toList
  directory : "ivf_postings/".toList ++ bucketDirectory file.cidBucket.toNat <+: file.path.toList
  bucketed : Bucketed cidOffsets file.cidBucket file.minCid file.maxCid
  rows_pos : 0 < file.rows
  size_pos : 0 < file.size
  rows_safe : file.rows ≤ jsonSafeIntegerMax
  size_safe : file.size ≤ jsonSafeIntegerMax
  digest : isSha256 file.sha256 = true

variable {file : StaticPostingsFile}

theorem StaticPostingsFile.validate_iff {cidOffsets : List ℤ} :
    file.validate cidOffsets = .ok () ↔
      "ivf_postings/".toList ++ bucketDirectory file.cidBucket.toNat <+: file.path.toList ∧
        Bucketed cidOffsets file.cidBucket file.minCid file.maxCid := by
  rw [bucketed_iff]
  unfold validate
  cases hindex : bucketIndex cidOffsets file.cidBucket with
  | none =>
      refine iff_of_false (fun hok => by cases hok) ?_
      rintro ⟨-, hsome, -⟩
      cases hsome
  | some bucket =>
      obtain rfl := bucketIndex_eq_some hindex
      simp only [rejectIf_eq_ok, Bool.not_eq_true', Bool.not_eq_false, not_or, not_lt, not_le,
        List.isPrefixOf_iff_prefix, true_and]

/-- What holds of a file and the one before. -/
structure StaticPostingsFile.Precedes (previous current : StaticPostingsFile) : Prop where
  ordered : keyBefore previous.key current.key = true
  overlap : previous.cidBucket = current.cidBucket → previous.maxCid ≤ current.minCid

theorem StaticPostingsFile.validateAfter_iff {previous : Option StaticPostingsFile} :
    file.validateAfter previous = .ok () ↔ ∀ other ∈ previous, other.Precedes file := by
  cases previous with
  | none => simp [validateAfter]
  | some previous =>
      simp only [validateAfter, rejectIf_eq_ok, Bool.not_eq_true', Bool.not_eq_false, not_or,
        not_and, not_lt, Option.mem_some_iff, forall_eq']
      exact ⟨fun ⟨hordered, hoverlap⟩ => ⟨hordered, hoverlap⟩,
        fun ⟨hordered, hoverlap⟩ => ⟨hordered, hoverlap⟩⟩

/-- What the walk over the postings files says of all of them. -/
abbrev ObjectsAccepted (cidOffsets : List ℤ) (files : List StaticPostingsFile) : Prop :=
  Inventory (StaticPostingsFile.Accepted cidOffsets) (·.path) StaticPostingsFile.Precedes files

namespace IndexArtifactManifest

theorem validateFiles_isWalk (cidOffsets : List ℤ) :
    IsWalk (StaticPostingsFile.Accepted cidOffsets) (·.path) StaticPostingsFile.Precedes (·.rows)
      (validateFiles cidOffsets) where
  nil _ _ _ := rfl
  cons file rest paths previous rows result := by
    simp only [validateFiles, validateSha256, isParquet, seq_eq_ok, rejectIf_eq_ok,
      StaticPostingsFile.validate_iff, StaticPostingsFile.validateAfter_iff, Bool.not_eq_true',
      Bool.not_eq_false, not_or, List.isSuffixOf_iff_suffix, not_le, not_lt]
    constructor
    · rintro ⟨hlocation, hdigest, ⟨hparquet, hnew, hpositive, hsize, hrowsSafe, hsizeSafe⟩,
        ⟨hdirectory, hbucketed⟩, hrest⟩
      exact ⟨⟨hlocation, hparquet, hdirectory, hbucketed, Nat.pos_of_ne_zero hpositive,
        Nat.pos_of_ne_zero hsize, hrowsSafe, hsizeSafe, hdigest⟩, hnew, hrest⟩
    · rintro ⟨hfile, hnew, hrest⟩
      exact ⟨hfile.location, hfile.digest, ⟨hfile.parquet, hnew,
        Nat.pos_iff_ne_zero.mp hfile.rows_pos, Nat.pos_iff_ne_zero.mp hfile.size_pos,
        hfile.rows_safe, hfile.size_safe⟩, ⟨hfile.directory, hfile.bucketed⟩, hrest⟩

end IndexArtifactManifest

/-!
## The two manifests agree

A reader of a published index derives the manifest of the postings table from the artifact
manifest: it takes the first directory off the paths and validates the result again
(`load_postings_manifest` in `parqdb-local/src/session/index_table/manifested_cid.rs`).

What the artifact's validation accepts is accepted a second time
(`postingsManifest_accepted`), so every reader, by either way, has the bounds of a valid
postings manifest.
-/

/-! ## The derived manifest -/

/-- One file below the root of the postings table. -/
def StaticPostingsFile.relative (file : StaticPostingsFile) : Except String IvfPostingsFile :=
  match stripStart "ivf_postings/".toList file.path.toList with
  | none => invalid "invalid artifact postings path"
  | some path => .ok {
      path := String.ofList path
      cidBucket := file.cidBucket
      minCid := file.minCid
      maxCid := file.maxCid
      rows := file.rows
      size := file.size
      sha256 := file.sha256 }

/-- The manifest of the postings table of an artifact. -/
def IndexArtifactManifest.postingsManifest (artifact : IndexArtifactManifest) :
    Except String IvfPostingsManifest := do
  let files ← artifact.postings.mapM StaticPostingsFile.relative
  .ok {
    formatVersion := 1
    nlist := artifact.index.nlist
    ntotal := artifact.index.ntotal
    cidOffsets := artifact.hierarchy.cidOffsets
    files := files }

/-- What `load_postings_manifest` makes of an artifact manifest it has read. -/
def loadPostingsManifest (artifact : IndexArtifactManifest) :
    Except String IvfPostingsManifest := do
  artifact.validate
  let manifest ← artifact.postingsManifest
  manifest.validate
  .ok manifest

/-! ## Paths one directory down -/

theorem stripStart_append (start rest : List Char) :
    stripStart start (start ++ rest) = some rest := by
  simp [stripStart]

/-- What `validate_relative_location` looks at. -/
structure RelativeText (chars : List Char) : Prop where
  nonempty : chars ≠ []
  relative : chars.head? ≠ some '/'
  clean : ∀ char ∈ ['\\', '?', '#'], char ∉ chars
  segments : ∀ segment ∈ (if chars.getLast? = some '/' then chars.dropLast else chars).splitOn '/',
    segment ≠ [] ∧ segment ≠ ['.'] ∧ segment ≠ ['.', '.']

theorem validateRelativeLocation_iff {location : String} :
    validateRelativeLocation location = .ok () ↔ RelativeText location.toList := by
  unfold validateRelativeLocation
  dsimp only
  constructor
  · intro hvalid
    generalize hpath : (if location.toList.getLast? = some '/' then location.toList.dropLast
      else location.toList) = path at hvalid
    split at hvalid
    · cases hvalid
    · next haccepted =>
        simp only [Bool.or_eq_true, not_or, List.contains_iff_mem, List.any_eq_true,
          decide_eq_true_eq, List.isEmpty_iff, not_exists, not_and, and_assoc] at haccepted
        obtain ⟨hnonempty, hrelative, hbackslash, hquestion, hhash, -, hsegments⟩ := haccepted
        refine ⟨hnonempty, hrelative, ?_, by rw [hpath]; exact hsegments⟩
        simp only [List.mem_cons, List.not_mem_nil, or_false, forall_eq_or_imp, forall_eq]
        exact ⟨hbackslash, hquestion, hhash⟩
  · rintro ⟨hnonempty, hrelative, hclean, hsegments⟩
    generalize (if location.toList.getLast? = some '/' then location.toList.dropLast
      else location.toList) = path at hsegments
    simp only [List.mem_cons, List.not_mem_nil, or_false, forall_eq_or_imp, forall_eq] at hclean
    obtain ⟨hbackslash, hquestion, hhash⟩ := hclean
    have hpath : path ≠ [] := by
      rintro rfl
      exact (hsegments [] (by simp)).1 rfl
    rw [if_neg]
    simp only [Bool.or_eq_true, not_or, List.contains_iff_mem, List.any_eq_true,
      decide_eq_true_eq, List.isEmpty_iff, not_exists, not_and, and_assoc]
    exact ⟨hnonempty, hrelative, hbackslash, hquestion, hhash, hpath, hsegments⟩

theorem splitOn_directory {directory path : List Char}
    (hdirectory : ∀ char ∈ directory, char ≠ '/') :
    (directory ++ '/' :: path).splitOn '/' = directory :: path.splitOn '/' :=
  List.splitOnP_append_cons_of_forall_mem (by simpa using hdirectory) _ (by simp) _

/-- A relative path stays one when its first directory is taken off. -/
theorem RelativeText.tail {directory rest : List Char} (hdirectory : ∀ char ∈ directory, char ≠ '/')
    (hrest : rest ≠ []) (htext : RelativeText (directory ++ '/' :: rest)) : RelativeText rest := by
  have hlast : (directory ++ '/' :: rest).getLast? = rest.getLast? := by
    rw [List.getLast?_append_of_ne_nil _ (List.cons_ne_nil _ _)]
    exact List.getLast?_cons_of_ne_nil hrest
  have hdrop : (directory ++ '/' :: rest).dropLast = directory ++ '/' :: rest.dropLast := by
    rw [List.dropLast_append_of_ne_nil (List.cons_ne_nil _ _), List.dropLast_cons_of_ne_nil hrest]
  have hsegments : ∀ segment ∈ (if rest.getLast? = some '/' then rest.dropLast else rest).splitOn
      '/', segment ≠ [] ∧ segment ≠ ['.'] ∧ segment ≠ ['.', '.'] := by
    intro segment hsegment
    refine htext.segments segment ?_
    rw [hlast, hdrop]
    split at hsegment
    · next hslash =>
        rw [if_pos hslash, splitOn_directory hdirectory]
        exact List.mem_cons_of_mem _ hsegment
    · next hslash =>
        rw [if_neg hslash, splitOn_directory hdirectory]
        exact List.mem_cons_of_mem _ hsegment
  refine ⟨hrest, ?_, fun char hchar hmem => htext.clean char hchar (by simp [hmem]), hsegments⟩
  -- a leading slash would leave an empty segment at the front
  intro hhead
  obtain ⟨tail, rfl⟩ : ∃ tail, rest = '/' :: tail := by
    cases rest with
    | nil => exact absurd rfl hrest
    | cons char tail =>
        cases hhead
        exact ⟨tail, rfl⟩
  have hsplit : ∀ path : List Char, [] ∈ ('/' :: path).splitOn '/' := by
    intro path
    have hempty := @splitOn_directory [] path (by simp)
    rw [List.nil_append] at hempty
    rw [hempty]
    exact List.mem_cons_self
  refine (hsegments [] ?_).1 rfl
  cases tail with
  | nil => simp
  | cons char tail =>
      split
      · rw [List.dropLast_cons_of_ne_nil (List.cons_ne_nil _ _)]
        exact hsplit _
      · exact hsplit _

/-- Texts that start alike are ordered by their ends. -/
theorem append_lt_append_iff (start : List Char) {first second : List Char} :
    start ++ first < start ++ second ↔ first < second := by
  induction start with
  | nil => rfl
  | cons char start ih => simp [ih]

/-! ## Files of the derived manifest -/

/-- The file below the root of the postings table, whatever its path starts with. -/
def StaticPostingsFile.below (file : StaticPostingsFile) : IvfPostingsFile where
  path := String.ofList (file.path.toList.drop "ivf_postings/".toList.length)
  cidBucket := file.cidBucket
  minCid := file.minCid
  maxCid := file.maxCid
  rows := file.rows
  size := file.size
  sha256 := file.sha256

theorem length_bucketDirectory (bucket : ℕ) : 11 ≤ (bucketDirectory bucket).length := by
  have hstart : "cid_bucket=".toList.length = 11 := by decide
  unfold bucketDirectory
  generalize (toString bucket).toList = digits
  simp only [List.length_append, hstart]
  omega

section

variable {cidOffsets : List ℤ} {previous current : StaticPostingsFile}

section

variable (haccepted : file.Accepted cidOffsets)

include haccepted

theorem path_below :
    file.path.toList = "ivf_postings/".toList ++ file.below.path.toList := by
  obtain ⟨rest, hrest⟩ := haccepted.directory
  rw [List.append_assoc] at hrest
  simp only [StaticPostingsFile.below, ← hrest, List.drop_left, String.toList_ofList]

theorem relative_eq_below :
    file.relative = .ok file.below := by
  have hpath := path_below haccepted
  unfold StaticPostingsFile.relative
  rw [hpath, stripStart_append]
  simp [StaticPostingsFile.below]

theorem directory_below :
    bucketDirectory file.cidBucket.toNat <+: file.below.path.toList := by
  have hdirectory := haccepted.directory
  rw [path_below haccepted] at hdirectory
  exact (List.prefix_append_right_inj _).mp hdirectory

/-- The directory of the bucket is longer than the file extension, so the extension is not
cut. -/
theorem parquet_below :
    ".parquet".toList <:+ file.below.path.toList := by
  have hparquet := haccepted.parquet
  rw [path_below haccepted] at hparquet
  refine List.suffix_of_suffix_length_le hparquet (List.suffix_append _ _) ?_
  have hextension : ".parquet".toList.length = 8 := by decide
  have hlong := length_bucketDirectory file.cidBucket.toNat
  rw [hextension]
  have hlength := (directory_below haccepted).length_le
  omega

theorem Accepted.below : file.below.Accepted cidOffsets where
  location := by
    have hlocation := validateRelativeLocation_iff.mp haccepted.location
    have hstart : "ivf_postings/".toList = "ivf_postings".toList ++ ['/'] := by decide
    rw [path_below haccepted, hstart, List.append_assoc, List.singleton_append] at hlocation
    refine validateRelativeLocation_iff.mpr
      (hlocation.tail (List.all_iff_forall_prop.mp (by decide)) ?_)
    have hparquet := parquet_below haccepted
    intro hempty
    rw [hempty] at hparquet
    exact absurd (List.suffix_nil.mp hparquet) (by decide)
  parquet := parquet_below haccepted
  directory := directory_below haccepted
  bucketed := haccepted.bucketed
  rows_pos := haccepted.rows_pos
  size_pos := haccepted.size_pos
  digest := haccepted.digest

end

/-- Taking the first directory off leaves the order of the files as it is. -/
theorem keyBefore_below (hprevious : previous.Accepted cidOffsets)
    (hcurrent : current.Accepted cidOffsets) :
    keyBefore previous.below.key current.below.key = keyBefore previous.key current.key := by
  have hpath : previous.path < current.path ↔ previous.below.path < current.below.path := by
    rw [String.lt_iff_toList_lt, String.lt_iff_toList_lt, path_below hprevious,
      path_below hcurrent, append_lt_append_iff]
  simp only [keyBefore, StaticPostingsFile.key, IvfPostingsFile.key, hpath]
  rfl

theorem path_below_injective (hprevious : previous.Accepted cidOffsets)
    (hcurrent : current.Accepted cidOffsets) (heq : previous.below.path = current.below.path) :
    previous.path = current.path := by
  rw [← String.toList_inj, path_below hprevious, path_below hcurrent, heq]

/-- The files of the derived manifest pass its walk. -/
theorem filesAccepted_below {files : List StaticPostingsFile}
    (haccepted : ObjectsAccepted cidOffsets files) :
    IvfPostingsManifest.FilesAccepted cidOffsets (files.map StaticPostingsFile.below) where
  each := by
    intro derived hderived
    obtain ⟨file, hfile, rfl⟩ := List.mem_map.mp hderived
    exact Accepted.below (haccepted.each file hfile)
  paths := by
    rw [List.map_map]
    refine List.Nodup.map_on ?_ (List.Nodup.of_map _ haccepted.paths)
    intro first hfirst second hsecond heq
    have hpath := path_below_injective (haccepted.each first hfirst)
      (haccepted.each second hsecond) heq
    exact List.inj_on_of_nodup_map haccepted.paths hfirst hsecond hpath
  neighbours := by
    rw [List.isChain_map]
    refine haccepted.neighbours.imp_of_mem_imp ?_
    intro previous current hprevious hcurrent hprecedes
    refine ⟨?_, hprecedes.overlap⟩
    rw [keyBefore_below (haccepted.each previous hprevious) (haccepted.each current hcurrent)]
    exact hprecedes.ordered

end

/-! ## The derived manifest is valid -/

namespace IndexArtifactManifest

variable {artifact : IndexArtifactManifest}

/-- What an accepted artifact says of its postings. -/
structure PostingsAccepted (artifact : IndexArtifactManifest) : Prop where
  nlist_pos : 0 < artifact.index.nlist
  ntotal_pos : 0 < artifact.index.ntotal
  partitioned : Partitioned artifact.hierarchy.cidOffsets artifact.index.nlist
  nonempty : artifact.postings ≠ []
  files : ObjectsAccepted artifact.hierarchy.cidOffsets artifact.postings
  rows : (artifact.postings.map (·.rows)).sum = artifact.index.ntotal.toNat
  rows_bound : (artifact.postings.map (·.rows)).sum < 2 ^ 64

theorem postingsAccepted_of_validate (hvalid : artifact.validate = .ok ()) :
    artifact.PostingsAccepted := by
  have hwalk : ∀ {rows}, validateFiles artifact.hierarchy.cidOffsets artifact.postings
      [artifact.hierarchy.centroids.path] none 0 = .ok rows →
      ObjectsAccepted artifact.hierarchy.cidOffsets artifact.postings ∧
        (artifact.postings.map (·.rows)).sum = rows ∧ rows < 2 ^ 64 := by
    intro rows hfiles
    obtain ⟨haccepted, -, -, hsum, hbound⟩ :=
      ((validateFiles_isWalk _).eq_ok_iff (Nat.two_pow_pos 64)).mp hfiles
    exact ⟨haccepted, by omega, hbound⟩
  simp only [validate, validateIndex, validateHierarchy, validateObjects, seq_eq_ok,
    rejectIf_eq_ok, not_or, not_le, Bool.not_eq_true', Bool.not_eq_false, partitions_iff] at hvalid
  obtain ⟨-, -, ⟨-, -, ⟨-, hlists, htotal, -⟩, -⟩, ⟨-, hpartitioned, -⟩, ⟨hnonempty, hobjects⟩,
    -⟩ := hvalid
  obtain ⟨rows, hfiles, hrows⟩ := bind_eq_ok.mp hobjects
  obtain ⟨haccepted, hsum, hbound⟩ := hwalk hfiles
  rw [rejectIf_eq_ok, not_not] at hrows
  exact ⟨hlists, htotal, hpartitioned, hnonempty, haccepted, hsum.trans hrows, hsum ▸ hbound⟩

/-- The derived manifest of an accepted artifact is accepted. -/
theorem postingsManifest_accepted (hvalid : artifact.validate = .ok ()) :
    ∃ manifest, artifact.postingsManifest = .ok manifest ∧ manifest.Accepted := by
  have haccepted := postingsAccepted_of_validate hvalid
  have hfiles := mapM_of_forall_eq_ok fun file hfile =>
    relative_eq_below (haccepted.files.each file hfile)
  have hrows : ((artifact.postings.map StaticPostingsFile.below).map (·.rows)).sum =
      artifact.index.ntotal.toNat := by
    rw [List.map_map]
    exact haccepted.rows
  refine ⟨_, bind_eq_ok.mpr ⟨_, hfiles, rfl⟩, ?_⟩
  have htotal := haccepted.ntotal_pos
  exact {
    version := rfl
    nlist_pos := haccepted.nlist_pos
    ntotal_pos := htotal
    partitioned := haccepted.partitioned
    nonempty := by simpa using haccepted.nonempty
    files := filesAccepted_below haccepted.files
    rows := by
      rw [IvfPostingsManifest.totalRows, hrows]
      exact Int.toNat_of_nonneg htotal.le
    rows_bound := by
      rw [IvfPostingsManifest.totalRows, hrows, ← haccepted.rows]
      exact haccepted.rows_bound }

end IndexArtifactManifest

/-- The manifest derived from an accepted artifact is valid, and a valid manifest bounds
every scan of its files. -/
theorem manifests_agree_and_bound_scans :
    (∀ artifact : IndexArtifactManifest, artifact.validate = .ok () →
      ∃ manifest, artifact.postingsManifest = .ok manifest ∧ manifest.validate = .ok () ∧
        loadPostingsManifest artifact = .ok manifest) ∧
    ∀ manifest : IvfPostingsManifest, manifest.validate = .ok () → ScanBounds manifest := by
  constructor
  · intro artifact hvalid
    obtain ⟨manifest, hderived, haccepted⟩ :=
      IndexArtifactManifest.postingsManifest_accepted hvalid
    have hmanifest := IvfPostingsManifest.validate_iff.mpr haccepted
    refine ⟨manifest, hderived, hmanifest, ?_⟩
    unfold loadPostingsManifest
    rw [hvalid, hderived]
    show (manifest.validate >>= fun _ => Except.ok manifest) = .ok manifest
    rw [hmanifest]
    rfl
  · intro manifest hvalid
    exact IvfPostingsManifest.scanBounds_of_validate hvalid

/-- An artifact of three lists and three files, two of which share the list of CID 1. -/
def smallArtifact : IndexArtifactManifest where
  formatVersion := 1
  artifactUuid := 1
  index := {
    vectorField := "embedding"
    metric := .l2Squared
    postingEncoding := .lvq8
    dimension := 2
    nlist := 3
    ntotal := 6
    sourceKeyFields := [{ name := "document_id", dataType := "long" }] }
  hierarchy := {
    cidOffsets := [0, 2, 3]
    centroidEncoding := .lvq8
    centroids := {
      path := "centroids.parquet"
      size := 200
      sha256 := String.ofList (List.replicate 64 'b') } }
  postings := [
    ⟨"ivf_postings/cid_bucket=000000/part-00000.parquet", 0, 0, 1, 2, 300,
      String.ofList (List.replicate 64 'c')⟩,
    ⟨"ivf_postings/cid_bucket=000000/part-00001.parquet", 0, 1, 1, 1, 300,
      String.ofList (List.replicate 64 'd')⟩,
    ⟨"ivf_postings/cid_bucket=000001/part-00000.parquet", 1, 2, 2, 3, 300,
      String.ofList (List.replicate 64 'e')⟩]
  source := none
  embedding := none

theorem smallArtifact_valid : smallArtifact.validate = .ok () := by decide +kernel

/-- The theorem at a manifest: derived, loaded and bounded. -/
theorem smallArtifact_bounds :
    ∃ manifest, loadPostingsManifest smallArtifact = .ok manifest ∧ ScanBounds manifest := by
  obtain ⟨manifest, -, hvalid, hload⟩ := manifests_agree_and_bound_scans.1 smallArtifact
    smallArtifact_valid
  exact ⟨manifest, hload, manifests_agree_and_bound_scans.2 manifest hvalid⟩

/-! ## The source files of an artifact -/

/-- The interval of a file has the row. -/
def StaticSourceFile.Holds (file : StaticSourceFile) (row : ℕ) : Prop :=
  file.rowBegin ≤ row ∧ row < file.rowEnd

/-- The walk accepts consecutive intervals only. -/
theorem partition_of_validateSourceFiles {rows first last : ℕ} {files : List StaticSourceFile}
    {paths : List String}
    (hvalid : IndexArtifactManifest.validateSourceFiles rows files first paths = .ok last) :
    first ≤ last ∧ (∀ file ∈ files, first ≤ file.rowBegin ∧ file.rowEnd ≤ last) ∧
      ∀ row, first ≤ row → row < last → ∃! file, file ∈ files ∧ file.Holds row := by
  induction files generalizing first paths with
  | nil =>
      cases hvalid
      exact ⟨le_rfl, by simp, fun row hfirst hlast => absurd hfirst (Nat.not_le.mpr hlast)⟩
  | cons file files ih =>
      simp only [IndexArtifactManifest.validateSourceFiles, seq_eq_ok, rejectIf_eq_ok, not_or,
        not_not, not_le] at hvalid
      obtain ⟨-, -, ⟨-, -, -, rfl, hlt, -⟩, hrest⟩ := hvalid
      obtain ⟨hlast, hwithin, hunique⟩ := ih hrest
      refine ⟨hlt.le.trans hlast, ?_, fun row hrow hstop => ?_⟩
      · rw [List.forall_mem_cons]
        refine ⟨⟨le_rfl, hlast⟩, fun other hother => ?_⟩
        exact ⟨hlt.le.trans (hwithin other hother).1, (hwithin other hother).2⟩
      · rcases Nat.lt_or_ge row file.rowEnd with hin | hout
        · refine ⟨file, ⟨List.mem_cons_self, hrow, hin⟩, ?_⟩
          rintro other ⟨hother, hholds⟩
          rcases List.mem_cons.mp hother with rfl | hother
          · rfl
          · exact absurd (hholds.1.trans_lt hin) (Nat.not_lt.mpr (hwithin other hother).1)
        · obtain ⟨found, ⟨hfound, hholds⟩, honly⟩ := hunique row hout hstop
          refine ⟨found, ⟨List.mem_cons_of_mem file hfound, hholds⟩, ?_⟩
          rintro other ⟨hother, hfits⟩
          rcases List.mem_cons.mp hother with rfl | hother
          · exact absurd hfits.2 (Nat.not_lt.mpr hout)
          · exact honly other ⟨hother, hfits⟩

/-- Every row that an accepted artifact indexes is in exactly one of its source files, and the
files have no other rows. -/
theorem source_files_partition_rows {artifact : IndexArtifactManifest}
    (hvalid : artifact.validate = .ok ()) :
    ∀ source ∈ artifact.source, source.rows = artifact.index.ntotal.toNat ∧
      (∀ row < source.rows, ∃! file, file ∈ source.files ∧ file.Holds row) ∧
      ∀ file ∈ source.files, file.rowEnd ≤ source.rows := by
  intro source hsource
  simp only [IndexArtifactManifest.validate, seq_eq_ok] at hvalid
  obtain ⟨-, -, -, -, -, hvalid, -⟩ := hvalid
  rw [IndexArtifactManifest.validateSource, Option.mem_def.mp hsource] at hvalid
  simp only [seq_eq_ok, rejectIf_eq_ok, not_or, not_not] at hvalid
  obtain ⟨⟨-, -, htotal, -⟩, hvalid⟩ := hvalid
  obtain ⟨last, hfiles, hlast⟩ := bind_eq_ok.mp hvalid
  obtain rfl : last = source.rows := by simpa using hlast
  obtain ⟨-, hwithin, hunique⟩ := partition_of_validateSourceFiles hfiles
  exact ⟨htotal, fun row => hunique row row.zero_le, fun file hfile => (hwithin file hfile).2⟩

/-- Two files with the six rows of the small artifact. -/
def smallSource : StaticSourceDescriptor :=
  ⟨6, 4, ⟨"document_id", "long"⟩, ["document_id"],
    [⟨"rows/0.parquet", 9, String.ofList (List.replicate 64 'd'), 0, 4⟩,
      ⟨"rows/1.parquet", 9, String.ofList (List.replicate 64 'e'), 4, 6⟩]⟩

theorem last_row_found : ∃! file, file ∈ smallSource.files ∧ file.Holds 5 :=
  ((@source_files_partition_rows { smallArtifact with source := some smallSource }
    (by decide +kernel)) smallSource rfl).2.1 5 (by decide)

end ParqDB.Meta
