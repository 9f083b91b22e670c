import ParqDB.Foundations.Frames
import ParqDB.Ivf.Buckets
import ParqDB.Kernels.CodeRows
import ParqDB.Meta.ArtifactManifest
import ParqDB.Storage.Addressing

/-!
# The columns of a build

`validate_request`, `validate_source_schema`, `prepare_ivf_datafusion`, `prepare_training` and
`project_postings` of `parqdb-local/src/builder/mod.rs`, and `canonical_vector_type` of `vector.rs`:
what the columns of the training sample and of the postings are computed from.  What a column
contains is kept as an expression over the fields of the source.

The query engine is given by what it does to a name, what types a function of one exact type takes,
and how it displays a type.  The source may have any qualifier.
-/

namespace ParqDB.Parquet

/-- The types of a source column, as far as they are told apart. -/
inductive DataType
  | boolean
  | int32
  | int64
  | binary
  | binaryView
  | largeBinary
  | fixedSizeBinary (length : ℤ)
  | utf8
  | utf8View
  | largeUtf8
  | date32
  | other (name : String)
deriving DecidableEq

end ParqDB.Parquet

namespace ParqDB.Ivf

open Foundations Kernels Meta Parquet

/-! ## Types -/

inductive ListLayout
  | list
  | largeList
  | fixedSizeList (size : ℤ)
deriving DecidableEq

/-- The type of a column of the source or of the plan. -/
inductive ColumnType
  | scalar (type : DataType)
  | vector (layout : ListLayout) (item : String) (element : DataType) (nullable : Bool)
  | struct (fields : List (String × DataType))
deriving DecidableEq

def float32 : DataType := .other "Float32"

def float64 : DataType := .other "Float64"

def canonicalVectorTypeWithNullability (type : ColumnType) (elementNullable : Bool) :
    Option ColumnType :=
  match type with
  | .vector (.fixedSizeList size) item element _ =>
      if 0 < size ∧ (element = float32 ∨ element = float64) then
        some (.vector (.fixedSizeList size) item float32 elementNullable)
      else none
  | .vector layout item element _ =>
      if element = float32 ∨ element = float64 then
        some (.vector layout item float32 elementNullable)
      else none
  | _ => none

/-- Returns the canonical Arrow vector type for a supported source type. -/
def canonicalVectorType (type : ColumnType) : Option ColumnType :=
  canonicalVectorTypeWithNullability type false

def supportedKeyType : ColumnType → Bool
  | .scalar (.other _) => false
  | .scalar _ => true
  | _ => false

/-! ## Expressions -/

/-- The functions of a build plan. -/
inductive PlanFunction
  | transformVector (metric : DistanceMetric)
  | assignIvf
  | cidBucket
  | requireNonNull
  | encodeLvq (bits : LvqBits)
  | cast
  | getField (name : String)
deriving DecidableEq

/-- What a column is computed from. -/
inductive Computed
  | field (name : String) (type : ColumnType)
  | call (function : PlanFunction) (argument : Computed) (type : ColumnType)
deriving DecidableEq

namespace Computed

def type : Computed → ColumnType
  | .field _ type => type
  | .call _ _ type => type

/-- The fields of the source that are read. -/
def reads : Computed → List String
  | .field name _ => [name]
  | .call _ argument _ => argument.reads

end Computed

/-- The query engine. -/
structure Engine where
  parser : NameParser
  /-- Whether a function of this exact type takes an argument of that type. -/
  accepts : ColumnType → ColumnType → Bool
  accepts_self : ∀ type, accepts type type = true
  display : ColumnType → String

namespace Engine

variable (engine : Engine)

/-- `col(name)` -/
def col (name : String) : ColumnName := engine.parser.column name

theorem col_of_plain {name : String} (hname : isPlainName name = true) :
    engine.col name = ColumnName.verbatim name := engine.parser.plain name hname

/-- A function with the signature `exact(declared)`. -/
def call (function : PlanFunction) (declared returned : ColumnType) :
    List Computed → Except String Computed
  | [argument] =>
      if engine.accepts declared argument.type then .ok (.call function argument returned)
      else .error "Failed to coerce arguments"
  | _ => .error "Function expects one argument"

end Engine

def transformName : DistanceMetric → String
  | .l2Squared => "parqdb_vector_f32"
  | .cosine => "parqdb_normalize_vector"

/-- `transform_vector_udf`, with its `return_type` -/
def transformVector (metric : DistanceMetric) : List Computed → Except String Computed
  | [argument] =>
      match canonicalVectorType argument.type with
      | some type => .ok (.call (.transformVector metric) argument type)
      | none =>
          .error (transformName metric ++ " requires a list<float> or list<double> argument")
  | _ => .error (transformName metric ++ " requires exactly one argument")

def castTo (type : ColumnType) : List Computed → Except String Computed
  | [argument] => .ok (.call .cast argument type)
  | _ => .error "CAST expects one argument"

def getField (name : String) : List Computed → Except String Computed
  | [argument] =>
      match argument.type with
      | .struct fields =>
          match fields.find? fun field => field.1 = name with
          | some field => .ok (.call (.getField name) argument (.scalar field.2))
          | none => .error ("Field " ++ name ++ " not found in struct")
      | _ => .error "The expression to get an indexed field is only valid for struct types"
  | _ => .error "get_field expects one expression"

/-! ## Validation -/

/-- The fields of a source. -/
structure SourceSchema where
  fields : List (String × ColumnType)
  distinct : (fields.map Prod.fst).Nodup

def SourceSchema.fieldWithName (schema : SourceSchema) (name : String) : Option ColumnType :=
  (schema.fields.find? fun field => field.1 = name).map Prod.snd

def validateRequest (vectorField : String) (sourceKeyFields : List String) (nlist : ℕ) :
    Except String Unit := do
  rejectIf (vectorField = "") "vector column must not be empty"
  rejectIf (sourceKeyFields = [] ∨ "" ∈ sourceKeyFields ∨ ¬ sourceKeyFields.Nodup)
    "key must contain unique, non-empty column names"
  rejectIf (nlist = 0 ∨ 2147483647 < nlist) "nlist must be in 1..=2147483647"

def validateSourceSchema (display : ColumnType → String) (schema : SourceSchema)
    (vectorField : String) (sourceKeyFields : List String) : Except String Unit := do
  match schema.fieldWithName vectorField with
  | none => .error ("vector column not found: " ++ vectorField)
  | some vector =>
      rejectIf (canonicalVectorType vector = none)
        "source vector column must be list<float> or list<double>"
  sourceKeyFields.forM fun key =>
    match schema.fieldWithName key with
    | none => .error ("key column not found: " ++ key)
    | some type =>
        rejectIf (supportedKeyType type = false)
          ("unsupported source key type: " ++ display type)

/-! ## The names of the key columns -/

def keyName (position : ℕ) : String := "key_" ++ toString (position + 1)

theorem isPlainName_keyName (position : ℕ) : isPlainName (keyName position) = true := by
  have hchars : (keyName position).toList =
      'k' :: ('e' :: 'y' :: '_' :: Nat.toDigits 10 (position + 1)) := by
    rw [keyName, String.toList_append, Nat.toString_eq_repr, Nat.toList_repr]
    rfl
  rw [isPlainName, hchars]
  have hdigits : (Nat.toDigits 10 (position + 1)).all
      (fun c => lowerLetter c || c.isDigit) = true := by
    rw [List.all_eq_true]
    intro c hc
    rw [Nat.isDigit_of_mem_toDigits (by decide) (by decide) hc, Bool.or_true]
  simp only [List.all_cons, hdigits]
  decide

theorem keyName_injective : Function.Injective keyName := by
  intro first second hsame
  have hdigits : (position : ℕ) → (keyName position).toList.drop 4 =
      Nat.toDigits 10 (position + 1) := by
    intro position
    rw [keyName, String.toList_append, Nat.toString_eq_repr, Nat.toList_repr]
    rfl
  have hvalue : first + 1 = second + 1 := by
    rw [← Nat.ofDigitChars_ten_toDigits (n := first + 1), ← hdigits, hsame, hdigits,
      Nat.ofDigitChars_ten_toDigits]
  exact Nat.succ_injective hvalue

theorem keyName_ne {position : ℕ} {name : String} (hname : name.toList.take 4 ≠ "key_".toList) :
    keyName position ≠ name := by
  rintro rfl
  apply hname
  rw [keyName, String.toList_append]
  rfl

/-- The columns of stored postings with codes. -/
def postingColumns (keyCount : ℕ) : List String :=
  ["cid_bucket", "cid"] ++ (List.range keyCount).map keyName ++ ["offset", "scale", "code"]

theorem nodup_postingColumns (keyCount : ℕ) : (postingColumns keyCount).Nodup := by
  have hkeys : ((List.range keyCount).map keyName).Nodup :=
    List.nodup_range.map keyName_injective
  have hcid (position : ℕ) : keyName position ≠ "cid" := keyName_ne (by decide)
  have hbucket (position : ℕ) : keyName position ≠ "cid_bucket" := keyName_ne (by decide)
  have hoffset (position : ℕ) : keyName position ≠ "offset" := keyName_ne (by decide)
  have hscale (position : ℕ) : keyName position ≠ "scale" := keyName_ne (by decide)
  have hcode (position : ℕ) : keyName position ≠ "code" := keyName_ne (by decide)
  rw [postingColumns]
  simp [List.nodup_append, hkeys, hcid, hbucket, hoffset, hscale, hcode]

/-! ## The plan -/

section

variable (engine : Engine)

def sourceFrame (qualifier : List String) (schema : SourceSchema) : Frame Computed :=
  Frame.ofFields qualifier
    (schema.fields.map fun field => (field.1, .field field.1 field.2)) (by
      rw [List.map_map]
      exact schema.distinct)

theorem entries_sourceFrame (qualifier : List String) (schema : SourceSchema) :
    (sourceFrame qualifier schema).entries =
      schema.fields.map fun field => (⟨qualifier, field.1⟩, .field field.1 field.2) := by
  show List.map _ (List.map _ schema.fields) = _
  rw [List.map_map]
  rfl

def typeWithName (source : Frame Computed) (name : String) : Option ColumnType :=
  (source.entries.find? fun entry => entry.1.name = name).map fun entry => entry.2.type

/-- The transformed source, and the columns that the training sample is read from. -/
def prepareIvf (qualifier : List String) (schema : SourceSchema) (vectorField : String)
    (sourceKeyFields : List String) (nlist : ℕ) (metric : DistanceMetric) :
    Except String (Frame Computed × Frame Computed) := do
  validateRequest vectorField sourceKeyFields nlist
  validateSourceSchema engine.display schema vectorField sourceKeyFields
  let source ← (sourceFrame qualifier schema).withColumn vectorField [engine.col vectorField]
    (transformVector metric)
  let training ← source.selectColumns [vectorField]
  pure (source, training)

def keyOutputType : ColumnType → ColumnType
  | .scalar .utf8View | .scalar .largeUtf8 => .scalar .utf8
  | .scalar .binaryView | .scalar .largeBinary => .scalar .binary
  | other => other

def lvqType : ColumnType :=
  .struct [("offset", float32), ("scale", float32), ("code", .binaryView)]

def int32Type : ColumnType := .scalar .int32

/-- One column of the source key, which the source is known to have. -/
def keyItem (source : Frame Computed) (position : ℕ) (key : String) :
    Except String (Frame.Item Computed) :=
  match typeWithName source key with
  | none => .error "source key schema was validated"
  | some keyType =>
      let outputType := keyOutputType keyType
      let nonNull := engine.call .requireNonNull outputType outputType
      .ok (.computed [engine.col key] (fun arguments =>
        if keyType = outputType then nonNull arguments
        else do
          let converted ← castTo outputType arguments
          nonNull [converted]) (keyName position))

/-- The width of the codes, if there are any. -/
def lvqBits : PostingEncoding → Option LvqBits
  | .source => none
  | .lvq4 => some .four
  | .lvq8 => some .eight

/-- The cluster of each row, its key and, if there are any, its codes. -/
def postingsItems (vectorType : ColumnType) (vectorField : String)
    (keys : List (Frame.Item Computed)) (bits : Option LvqBits) : List (Frame.Item Computed) :=
  .computed [engine.col vectorField] (engine.call .assignIvf vectorType int32Type) "cid" ::
    keys ++ bits.toList.map fun bits =>
      .computed [engine.col vectorField] (engine.call (.encodeLvq bits) vectorType lvqType)
        "__parqdb_lvq"

/-- The columns of the postings with codes. -/
def lvqItems (keyCount : ℕ) : List (Frame.Item Computed) :=
  let codeField (name : String) :=
    Frame.Item.computed [engine.col "__parqdb_lvq"] (getField name) name
  [.column (engine.col "cid_bucket"), .column (engine.col "cid")] ++
    (List.range keyCount).map (fun position => .column (engine.col (keyName position))) ++
    [codeField "offset", codeField "scale", codeField "code"]

def projectPostings (source : Frame Computed) (vectorField : String)
    (sourceKeyFields : List String) (postingEncoding : PostingEncoding) :
    Except String (Frame Computed) :=
  match typeWithName source vectorField with
  | none => .error ("vector column not found: " ++ vectorField)
  | some vectorType => do
      let keys ← sourceKeyFields.zipIdx.mapM fun key => keyItem engine source key.2 key.1
      let postings ← source.select
        (postingsItems engine vectorType vectorField keys (lvqBits postingEncoding))
      let postings ← postings.withColumn "cid_bucket" [engine.col "cid"]
        (engine.call .cidBucket int32Type int32Type)
      match lvqBits postingEncoding with
      | none => pure postings
      | some _ => postings.select (lvqItems engine sourceKeyFields.length)

end

end ParqDB.Ivf
