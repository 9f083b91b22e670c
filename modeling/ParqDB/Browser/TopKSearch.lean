import ParqDB.Browser.MapConcurrent
import ParqDB.Browser.PostingsPlans
import ParqDB.Foundations.Smallest
import ParqDB.Kernels.ScalarRows
import ParqDB.Query.Selector

/-!
# The top rows of a batch

`lvq_topk` and `bounded_topk` of `parqdb-browser-kernels/src/lib.rs`, behind `WasmKernel.lvqTopk`
(`src/browser/src/kernel.ts`).  WebAssembly has the scalar kernel only.  Copying buffers into its
memory and out of it is left out.

A heap holds at most `k` rows and lets the worst one go; rows are compared by `total_cmp` of their
distances and then by their places.

**Results.** `boundedTopk_eq`: the heap ends with the `k` least rows.  `distance_unsigned`: a finite
distance is a sum of squares and no negative zero, so that `total_cmp` compares numbers.
-/

namespace ParqDB.Browser

open Foundations Kernels
open Query (Distance)

/-! ## Numbers -/

/-- A sign bit occurs in NaN only. -/
def Unsigned (distance : Distance) : Prop :=
  distance.negative = true → Distance.infinity.magnitude < distance.magnitude

/-- Numbers with the bits of an `f32`.  What IEEE 754 says of signs: those of zero, of a square and
of a sum of such numbers are positive, unless the number is NaN. -/
class Ieee (F : Type) extends Numbers F where
  bits : F → Distance
  zero_unsigned : Unsigned (bits (ofCode 0))
  square_unsigned : ∀ value : F, Unsigned (bits (value * value))
  add_unsigned : ∀ left right : F, Unsigned (bits left) → Unsigned (bits right) →
    Unsigned (bits (left + right))

variable {F : Type} [Ieee F]

/-- The rank of a distance among numbers. -/
def rank (distance : F) : ℤ := (Ieee.bits distance).value

theorem distance_unsigned {bits : LvqBits} {dimension : ℕ} {query : List F} {item : EncodedRow F}
    (hvalid : ValidRow bits dimension item) (hquery : query.length = dimension)
    (hfinite : (Ieee.bits (rowDistance bits dimension query item)).Finite) :
    (Ieee.bits (rowDistance bits dimension query item)).negative = false := by
  obtain ⟨distance, hdistance, hunsigned⟩ := exists_rowScalar hvalid.codes hquery
    (fun sum => Unsigned (Ieee.bits sum)) Ieee.zero_unsigned
    fun sum delta hsum => Ieee.add_unsigned _ _ hsum (Ieee.square_unsigned delta)
  have hrow : rowDistance bits dimension query item = distance := by
    rw [rowDistance, hdistance]
    rfl
  rw [hrow] at hfinite ⊢
  by_contra hnegative
  exact absurd hfinite (Nat.lt_asymm (hunsigned (by simpa using hnegative)))

/-- Among numbers without a sign, `total_cmp` compares ranks. -/
theorem totalKey_eq_rank {distance : F} (hunsigned : (Ieee.bits distance).negative = false) :
    (Ieee.bits distance).totalKey = rank distance := by
  rw [rank, Distance.totalKey, Distance.value, hunsigned]
  rfl

/-! ## The heap -/

structure Candidate (F : Type) where
  row : ℕ
  distance : F
deriving DecidableEq

/-- What `Candidate::cmp` compares. -/
def Candidate.key (candidate : Candidate F) : ℤ ×ₗ ℕ :=
  toLex ((Ieee.bits candidate.distance).totalKey, candidate.row)

/-- A `BinaryHeap` by what it gives: its candidates in ascending order. -/
abbrev Heap (F : Type) := List (Candidate F)

namespace Heap

def push (heap : Heap F) (candidate : Candidate F) : Heap F :=
  heap.orderedInsert (fun left right => left.key ≤ right.key) candidate

def peek (heap : Heap F) : Option (Candidate F) := heap.getLast?

def pop (heap : Heap F) : Heap F := heap.dropLast

end Heap

/-- One row of `bounded_topk`. -/
def offer (k : ℕ) (heap : Heap F) (candidate : Candidate F) : Heap F :=
  if heap.length < k then heap.push candidate
  else if heap.peek.any fun worst => candidate.key < worst.key then heap.pop.push candidate
  else heap

/-- The rows of a batch, as they are offered. -/
def offered (distances : List F) : List (Candidate F) :=
  distances.zipIdx.map fun pair => ⟨pair.2, pair.1⟩

def boundedTopk (distances : List F) (k : ℕ) : List (Candidate F) :=
  ((offered distances).foldl (offer k) []).insertionSort fun left right => left.key ≤ right.key

/-- `u32::MAX` -/
def rowsMax : ℕ := 2 ^ 32 - 1

/-- `lvq_topk` -/
def kernelTopk (bits : LvqBits) (dimension : ℕ) (codes : List UInt8) (offsets scales query : List F)
    (k : ℕ) : Option (List (Candidate F)) :=
  if k = 0 ∨ rowsMax < offsets.length then none
  else
    match LvqBatchView.tryNew bits dimension codes offsets scales with
    | .error _ => none
    | .ok view =>
        match view.lvqSquaredL2Rows .scalar query
          (List.replicate offsets.length (Numbers.ofCode 0)) with
        | .ok (some distances) => some (boundedTopk distances (min k offsets.length))
        | _ => none

/-- `WasmKernel.lvqTopk` -/
def lvqTopk (codes : List UInt8) (offsets scales query : List F) (bits : LvqBits) (k : ℕ) :
    Except String (List (Candidate F)) :=
  if offsets.length ≠ scales.length then .error "LVQ offset and scale row counts differ"
  else if codes.length ≠ offsets.length * bits.codeSize query.length then
    .error "LVQ code matrix has the wrong shape"
  else if min offsets.length k = 0 then .error "top-k must be positive"
  else
    match kernelTopk bits query.length codes offsets scales query k with
    | none => .error "ParqDB kernel rejected query (-1)"
    | some candidates => .ok candidates

/-! ## What the heap keeps -/

theorem map_key_push (heap : Heap F) (candidate : Candidate F) :
    (heap.push candidate).map Candidate.key =
      (heap.map Candidate.key).orderedInsert (· ≤ ·) candidate.key :=
  List.map_orderedInsert (fun left right : Candidate F => left.key ≤ right.key) (· ≤ ·)
    Candidate.key heap candidate (fun _ _ => Iff.rfl) (fun _ _ => Iff.rfl)

/-- A better candidate goes before the worst one, which then may as well leave first. -/
theorem orderedInsert_dropLast {α : Type} [LinearOrder α] {kept : List α} {item worst : α}
    (hworst : kept.getLast? = some worst) (hbetter : item < worst) :
    kept.dropLast.orderedInsert (· ≤ ·) item = (kept.orderedInsert (· ≤ ·) item).dropLast := by
  induction kept with
  | nil => cases hworst
  | cons first kept ih =>
      cases kept with
      | nil =>
          rw [List.getLast?_singleton, Option.some.injEq] at hworst
          subst hworst
          rw [List.orderedInsert_cons_of_le _ _ hbetter.le]
          rfl
      | cons second kept =>
          rw [List.getLast?_cons_cons] at hworst
          have hrest := ih hworst
          by_cases hle : item ≤ first
          · rw [List.orderedInsert_cons_of_le _ _ hle, List.dropLast_cons_cons,
              List.orderedInsert_cons_of_le _ _ hle]
            rfl
          · have hne : (second :: kept).orderedInsert (· ≤ ·) item ≠ [] :=
              List.ne_nil_of_length_pos (by
                rw [List.orderedInsert_length]
                exact Nat.succ_pos _)
            have hinsert : ∀ others : List α, (first :: others).orderedInsert (· ≤ ·) item =
                first :: others.orderedInsert (· ≤ ·) item := by
              intro others
              rw [List.orderedInsert_cons, if_neg hle]
            calc (first :: second :: kept).dropLast.orderedInsert (· ≤ ·) item
                = first :: (second :: kept).dropLast.orderedInsert (· ≤ ·) item := by
                  rw [List.dropLast_cons_cons, hinsert]
              _ = first :: ((second :: kept).orderedInsert (· ≤ ·) item).dropLast := by rw [hrest]
              _ = ((first :: second :: kept).orderedInsert (· ≤ ·) item).dropLast := by
                  rw [hinsert, List.dropLast_cons_of_ne_nil hne]

/-- The heap after another row holds the least rows again. -/
theorem map_key_offer {k : ℕ} {heap : Heap F} {keys : List (ℤ ×ₗ ℕ)}
    (hheap : heap.map Candidate.key = smallest k keys) (candidate : Candidate F) :
    (offer k heap candidate).map Candidate.key = smallest k (candidate.key :: keys) := by
  have hlength : heap.length = (smallest k keys).length := by
    rw [← hheap, List.length_map]
  have hle : heap.length ≤ k := by
    rw [hlength, length_smallest]
    exact Nat.min_le_left _ _
  have hworst : (heap.peek.any fun worst => candidate.key < worst.key) = true ↔
      ∃ worst ∈ (smallest k keys).getLast?, candidate.key < worst := by
    rw [← hheap, List.getLast?_map, Heap.peek]
    cases heap.getLast? <;> simp
  have hinserted := List.orderedInsert_length (· ≤ ·) (smallest k keys) candidate.key
  rw [smallest_cons_eq, ← hlength]
  unfold offer
  by_cases hroom : heap.length < k
  · rw [if_pos hroom, if_pos (.inl hroom), if_neg (by omega), map_key_push, hheap]
  · rw [if_neg hroom]
    by_cases hbetter : (heap.peek.any fun worst => candidate.key < worst.key) = true
    · obtain ⟨worst, hlast, hlt⟩ := hworst.mp hbetter
      rw [if_pos hbetter, if_pos (.inr ⟨worst, hlast, hlt⟩), if_pos (by omega), map_key_push,
        Heap.pop, List.map_dropLast, hheap, orderedInsert_dropLast hlast hlt]
    · rw [if_neg hbetter, if_neg (fun henters => henters.elim hroom fun hexists =>
        hbetter (hworst.mpr hexists)), hheap]

theorem map_key_foldl_offer {k : ℕ} (candidates : List (Candidate F)) {heap : Heap F}
    {keys : List (ℤ ×ₗ ℕ)} (hheap : heap.map Candidate.key = smallest k keys) :
    (candidates.foldl (offer k) heap).map Candidate.key =
      smallest k (keys ++ candidates.map Candidate.key) := by
  induction candidates generalizing heap keys with
  | nil => rw [List.map_nil, List.append_nil, List.foldl_nil, hheap]
  | cons candidate candidates ih =>
      rw [List.foldl_cons, ih (map_key_offer hheap candidate), List.map_cons]
      exact smallest_perm List.perm_middle.symm

/-- No candidate is made up. -/
theorem mem_foldl_offer {k : ℕ} {candidates : List (Candidate F)} {heap : Heap F}
    {candidate : Candidate F} (hmem : candidate ∈ candidates.foldl (offer k) heap) :
    candidate ∈ heap ∨ candidate ∈ candidates := by
  induction candidates generalizing heap with
  | nil => exact .inl hmem
  | cons first candidates ih =>
      rw [List.foldl_cons] at hmem
      rcases ih hmem with hheap | hrest
      · have hcases : candidate ∈ heap ∨ candidate = first := by
          unfold offer at hheap
          split at hheap
          · exact (List.mem_orderedInsert _).mp hheap |>.symm
          · split at hheap
            · rcases (List.mem_orderedInsert _).mp hheap with hnew | hold
              · exact .inr hnew
              · exact .inl (List.mem_of_mem_dropLast hold)
            · exact .inl hheap
        rcases hcases with hold | rfl
        · exact .inl hold
        · exact .inr List.mem_cons_self
      · exact .inr (List.mem_cons_of_mem _ hrest)

/-- A batch yields its `k` least rows, in order. -/
theorem boundedTopk_eq (distances : List F) (k : ℕ) :
    (boundedTopk distances k).map Candidate.key =
        smallest k ((offered distances).map Candidate.key) ∧
      ∀ candidate ∈ boundedTopk distances k,
        distances[candidate.row]? = some candidate.distance := by
  constructor
  · have hheap := @map_key_foldl_offer F _ k (offered distances) [] [] (by simp [smallest])
    rw [List.nil_append] at hheap
    have hsorted := List.map_insertionSort (fun left right : Candidate F => left.key ≤ right.key)
      (· ≤ ·) Candidate.key ((offered distances).foldl (offer k) []) (fun _ _ _ _ => Iff.rfl)
    rw [boundedTopk, hsorted, hheap, (pairwise_smallest k _).insertionSort_eq]
  · intro candidate hcandidate
    rw [boundedTopk, List.mem_insertionSort] at hcandidate
    have hoffered := (mem_foldl_offer hcandidate).resolve_left List.not_mem_nil
    obtain ⟨⟨distance, row⟩, hpair, rfl⟩ := List.mem_map.mp hoffered
    exact List.mk_mem_zipIdx_iff_getElem?.mp hpair

/-! ## Batches -/

/-- What the kernel returns for a batch of valid rows. -/
theorem lvqTopk_eq {bits : LvqBits} {query : List F} {encoded : List (EncodedRow F)} {k : ℕ}
    (hquery : 0 < query.length) (hfinite : query.all Numbers.isFinite = true) (hk : 0 < k)
    (hne : encoded ≠ []) (hrows : encoded.length ≤ rowsMax)
    (hvalid : ∀ item ∈ encoded, ValidRow bits query.length item) :
    lvqTopk (encoded.map EncodedRow.codes).flatten (encoded.map EncodedRow.offset)
        (encoded.map EncodedRow.scale) query bits k =
      .ok (boundedTopk (encoded.map (rowDistance bits query.length query))
        (min k encoded.length)) := by
  have huniform : Uniform (bits.codeSize query.length) (encoded.map EncodedRow.codes) := by
    intro row hrow
    obtain ⟨item, hitem, rfl⟩ := List.mem_map.mp hrow
    exact (hvalid item hitem).codes
  have hpos := List.length_pos_of_ne_nil hne
  obtain ⟨view, hview, hscores⟩ := scoreRows_eq hquery hvalid rfl hfinite
    (List.length_replicate (n := encoded.length) (a := (Numbers.ofCode 0 : F)))
  have hkernel : kernelTopk bits query.length (encoded.map EncodedRow.codes).flatten
      (encoded.map EncodedRow.offset) (encoded.map EncodedRow.scale) query k =
        some (boundedTopk (encoded.map (rowDistance bits query.length query))
          (min k encoded.length)) := by
    unfold kernelTopk
    rw [List.length_map, if_neg (by omega), hview]
    dsimp only
    rw [hscores]
  unfold lvqTopk
  rw [List.length_map, List.length_map, if_neg (by omega), length_flatten huniform, List.length_map,
    if_neg (by omega), if_neg (by omega), hkernel]

/-!
## The search of the browser client

`ParqDB.search` of `src/browser/src/index.ts`, with what it calls: it finds the nearest centroids,
plans the postings files of their clusters, reads the planned spans with `mapConcurrent`, scores
each batch of rows by itself and merges the candidates.

The Parquet library is what a search is given (`Remote`).  Its requests, caches, abort signals and
traces are left out.  The metadata of the files is awaited all at once; if several files are
rejected, the first of them stands for whichever comes first.
-/

variable {F : Type}

/-! ## The manifest -/

inductive Metric
  | l2Squared
  | cosine
deriving DecidableEq

inductive KeyType
  | boolean
  | int
  | long
  | binary
  | string
  | date
  | fixed (length : ℕ)
deriving DecidableEq

def KeyType.text : KeyType → String
  | .boolean => "boolean"
  | .int => "int"
  | .long => "long"
  | .binary => "binary"
  | .string => "string"
  | .date => "date"
  | .fixed length => "fixed(" ++ toString length ++ ")"

structure SourceKeyField where
  name : String
  type : KeyType

/-- The index of a manifest; `parseManifest` accepts no other. -/
structure Index where
  metric : Metric
  postingEncoding : LvqBits
  dimension : ℕ
  nlist : ℕ
  ntotal : ℕ
  sourceKeyFields : List SourceKeyField
  dimension_pos : 0 < dimension
  nlist_pos : 0 < nlist
  nlist_le : nlist ≤ ntotal

structure Hierarchy where
  rootCount : ℕ
  cidOffsets : List ℕ

structure Manifest where
  index : Index
  hierarchy : Hierarchy
  files : List PostingsFile

/-! ## What is read -/

/-- A centroid; a float that is no number is `none`. -/
structure CentroidRow (F : Type) where
  cid : Value
  cidBucket : Value
  offset : Option F
  scale : Option F
  code : Value
deriving DecidableEq

/-- A row of a postings file, with the values of its `key_1`, `key_2`, … -/
structure Row (F : Type) where
  cid : Value
  keys : List Value
  offset : Option F
  scale : Option F
  code : Value
deriving DecidableEq

/-- An object without properties. -/
def Row.empty : Row F := ⟨.undefined, [], none, none, .undefined⟩

/-- The Parquet files, as they are read. -/
structure Remote (F : Type) where
  centroids : Except String (FileMetaData × List (CentroidRow F))
  metadata : PostingsFile → Except String FileMetaData
  read : PostingsFile → RowSpan → Except String (List (Row F))

/-! ## Checks of rows -/

/-- What `Object.prototype.toString` calls a value. -/
def Value.kind : Value → String
  | .undefined => "[object Undefined]"
  | .null => "[object Null]"
  | .boolean _ => "[object Boolean]"
  | .number _ => "[object Number]"
  | .notFinite => "[object Number]"
  | .bigint _ => "[object BigInt]"
  | .string _ => "[object String]"
  | .date _ => "[object Date]"
  | .bytes _ => "[object Uint8Array]"

def Value.lengthText : Value → String
  | .bytes value => toString value.length
  | _ => "missing"

section

variable [Numbers F]

def requiredFloat (value : Option F) (label : String) : Except String F :=
  match value with
  | none => .error (label ++ " must be finite")
  | some number =>
      if Numbers.isFinite number then .ok number else .error (label ++ " must be finite")

/-- The element that an `Int32Array` keeps. -/
def int32 (value : ℤ) : ℤ := value.bmod (2 ^ 32)

/-- One row of `readCentroids`: its vector and its CID. -/
def readCentroid (manifest : Manifest) (row : CentroidRow F) (position : ℕ) :
    Except String (EncodedRow F × ℤ) := do
  let cid ← requiredInteger row.cid "centroid cid"
  let bucket ← requiredInteger row.cidBucket "centroid cid_bucket"
  let offsets := manifest.hierarchy.cidOffsets
  rejectIf (cid ≠ position ∨ bucket < 0 ∨ manifest.hierarchy.rootCount ≤ bucket ∨
      cid < offsets.getD bucket.toNat 0 ∨ offsets.getD (bucket.toNat + 1) 0 ≤ cid)
    "centroid rows do not follow manifest CID topology"
  let offset ← requiredFloat row.offset "centroid LVQ offset"
  let scale ← requiredFloat row.scale "centroid LVQ scale"
  rejectIf (Numbers.isNegative scale = true) "centroid LVQ scale must be non-negative"
  match row.code with
  | .bytes code =>
      rejectIf (code.length ≠ manifest.index.dimension)
        ("centroid LVQ8 code has the wrong shape (" ++ row.code.kind ++ ", length " ++
          row.code.lengthText ++ ")")
      pure (⟨code, offset, scale⟩, int32 cid)
  | _ => .error ("centroid LVQ8 code has the wrong shape (" ++ row.code.kind ++ ", length " ++
      row.code.lengthText ++ ")")

def readCentroids (manifest : Manifest) (remote : Remote F) :
    Except String (List (EncodedRow F × ℤ)) := do
  let (metadata, rows) ← remote.centroids
  rejectIf (metadata.numRows ≠ manifest.index.nlist)
    "leaf centroid count does not match manifest nlist"
  rejectIf (metadata.rowGroups.length ≠ manifest.hierarchy.rootCount)
    "leaf centroid row groups do not match cid-offsets"
  rows.zipIdx.mapM fun entry => readCentroid manifest entry.1 entry.2

/-- One row of `lvqBatch`. -/
def batchRow (index : Index) (selected : List ℤ) (row : Row F) : Except String (EncodedRow F) := do
  let cid ← requiredInteger row.cid "posting cid"
  rejectIf (cid ∉ selected) "decoded postings contain an unselected CID"
  match row.code with
  | .bytes code =>
      rejectIf (code.length ≠ index.postingEncoding.codeSize index.dimension) "invalid LVQ code"
      let offset ← requiredFloat row.offset "LVQ offset"
      let scale ← requiredFloat row.scale "LVQ scale"
      rejectIf (Numbers.isNegative scale = true) "LVQ scale must be non-negative"
      pure ⟨code, offset, scale⟩
  | _ => .error "invalid LVQ code"

def lvqBatch (index : Index) (selected : List ℤ) (rows : List (Row F)) :
    Except String (List (EncodedRow F)) :=
  rows.mapM (batchRow index selected)

end

def validSourceKey (value : Value) : KeyType → Bool
  | .boolean => match value with | .boolean _ => true | _ => false
  | .int => match value with | .number number => number.den = 1 | _ => false
  | .long => match value with | .bigint _ => true | _ => false
  | .string => match value with | .string _ => true | _ => false
  | .date => match value with | .date _ => true | _ => false
  | .binary => match value with | .bytes _ => true | _ => false
  | .fixed length => match value with | .bytes bytes => bytes.length = length | _ => false

def validateSourceKey (value : Value) (field : SourceKeyField) : Except String Unit :=
  rejectIf (validSourceKey value field.type = false)
    ("source key " ++ field.name ++ " does not match " ++ field.type.text)

/-- A hit: its key, by name, and its distance with the factor of the metric. -/
structure SearchHit (F : Type) where
  keys : List (String × Value)
  distance : F
  scale : ℚ
deriving DecidableEq

def resultRow (row : Row F) (fields : List SourceKeyField) (distance : F) (scale : ℚ) :
    Except String (SearchHit F) := do
  let keys ← fields.zipIdx.mapM fun entry => do
    let value := row.keys.getD entry.2 .undefined
    validateSourceKey value entry.1
    pure (entry.1.name, value)
  pure ⟨keys, distance, scale⟩

/-! ## Before the reads -/

structure SearchOptions where
  nprobe : ℤ
  k : ℤ
  maxCandidateRows : Option ℕ
  maxConcurrentReads : Option ℤ

/-- `normalize`, which the client computes in `f64`: as many numbers as it gets, none of them
larger than 1. -/
structure Normalizer (F : Type) [Numbers F] where
  normalize : List F → Except String (List F)
  length_eq : ∀ query normalized, normalize query = .ok normalized →
    normalized.length = query.length
  finite : ∀ query normalized, query.all Numbers.isFinite = true →
    normalize query = .ok normalized → normalized.all Numbers.isFinite = true

structure ReadJob where
  file : PostingsFile
  span : RowSpan

/-- What a search has when its reads begin. -/
structure SearchPlan (F : Type) where
  query : List F
  selected : List ℤ
  readJobs : List ReadJob
  maxConcurrentReads : ℕ
  effectiveK : ℕ

section

variable [Ieee F]

def selectCids (manifest : Manifest) (remote : Remote F) (query : List F) (nprobe : ℕ) :
    Except String (List ℤ) := do
  let centroids ← readCentroids manifest remote
  let encoded := centroids.map Prod.fst
  let hits ← lvqTopk (encoded.map EncodedRow.codes).flatten (encoded.map EncodedRow.offset)
    (encoded.map EncodedRow.scale) query .eight nprobe
  pure (hits.map fun hit => (centroids.map Prod.snd).getD hit.row 0)

def transformQuery (index : Index) (normalizer : Normalizer F) (query : List F) :
    Except String (List F) :=
  match index.metric with
  | .cosine => normalizer.normalize query
  | .l2Squared => .ok query

/-- `Number.isSafeInteger(value) && value > 0` -/
def PositiveInteger (value : ℤ) : Prop := 0 < value ∧ value ≤ maxSafeInteger

instance (value : ℤ) : Decidable (PositiveInteger value) := inferInstanceAs (Decidable (_ ∧ _))

/-- `ParqDB.search` as far as the reads. -/
def planSearch (manifest : Manifest) (remote : Remote F) (normalizer : Normalizer F)
    (query : List F) (options : SearchOptions) : Except String (SearchPlan F) := do
  rejectIf (¬ PositiveInteger options.nprobe) "nprobe must be a positive portable integer"
  rejectIf (¬ PositiveInteger options.k) "k must be a positive portable integer"
  let maxConcurrentReads := options.maxConcurrentReads.getD 8
  rejectIf (¬ PositiveInteger maxConcurrentReads ∨ 64 < maxConcurrentReads)
    "maxConcurrentReads must be a portable integer in [1, 64]"
  let effectiveNprobe := min options.nprobe.toNat manifest.index.nlist
  let effectiveK := min (min options.k.toNat manifest.index.ntotal) 100
  rejectIf (query.length ≠ manifest.index.dimension ∨ query.all Numbers.isFinite = false)
    ("query must contain " ++ toString manifest.index.dimension ++ " finite values")
  let transformed ← transformQuery manifest.index normalizer query
  let selected ← selectCids manifest remote transformed effectiveNprobe
  let plannedFiles ← (manifest.files.filter (intersects · selected)).mapM fun file => do
    let metadata ← remote.metadata file
    let spans ← planPostings file metadata selected
    pure (spans.map (ReadJob.mk file))
  let readJobs := plannedFiles.flatten
  rejectIf (options.maxCandidateRows.getD 10000000 < (readJobs.map fun job => job.span.count).sum)
    "selected postings rows exceed client limit"
  pure ⟨transformed, selected, readJobs, maxConcurrentReads.toNat, effectiveK⟩

/-! ## After the reads -/

structure ScoredRow (F : Type) where
  row : Row F
  distance : F
  order : ℕ

/-- The candidates so far, and the order of the next one. -/
structure Scored (F : Type) where
  candidates : List (ScoredRow F)
  order : ℕ

def scoreBatch (index : Index) (plan : SearchPlan F) (scored : Scored F) (rows : List (Row F)) :
    Except String (Scored F) := do
  let batch ← lvqBatch index plan.selected rows
  let hits ← lvqTopk (batch.map EncodedRow.codes).flatten (batch.map EncodedRow.offset)
    (batch.map EncodedRow.scale) plan.query index.postingEncoding plan.effectiveK
  pure {
    candidates := scored.candidates ++ (hits.zipIdx scored.order).map fun entry =>
      ⟨rows.getD entry.1.row Row.empty, entry.1.distance, entry.2⟩
    order := scored.order + hits.length }

/-- What the sort of the candidates compares. -/
def ScoredRow.key (candidate : ScoredRow F) : ℤ ×ₗ ℕ :=
  toLex (rank candidate.distance, candidate.order)

def Metric.scale : Metric → ℚ
  | .cosine => 1 / 2
  | .l2Squared => 1

def finishSearch (index : Index) (plan : SearchPlan F) (batches : List (List (Row F))) :
    Except String (List (SearchHit F)) := do
  let scored ← batches.foldlM (scoreBatch index plan) ⟨[], 0⟩
  let sorted := scored.candidates.insertionSort fun left right => left.key ≤ right.key
  (sorted.take plan.effectiveK).mapM fun candidate =>
    resultRow candidate.row index.sourceKeyFields candidate.distance index.metric.scale

/-- The mapper of the reads. -/
def readJob (remote : Remote F) (job : ReadJob) : Except String (List (Row F)) :=
  remote.read job.file job.span

/-- What a search returns, if its reads are done. -/
def searchResult (index : Index) (plan : SearchPlan F) (reads : Mapping (List (Row F)) String) :
    Option (Except String (List (SearchHit F))) :=
  reads.outcome.map fun outcome =>
    outcome.bind fun batches => finishSearch index plan (batches.map fun batch => batch.getD [])

end

end ParqDB.Browser
