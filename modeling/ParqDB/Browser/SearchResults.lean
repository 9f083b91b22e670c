import ParqDB.Browser.ScoredBatches

/-!
# What a search of the browser client returns

**Layout.** The postings files hold row groups of one cluster each, in any number and of any size;
the Parquet library returns the rows of a span in their order (`Layout`).

**Result.** A search returns the nearest of the rows whose clusters were selected, in the order of
their distances and then of their places, whichever spans are read and in whatever order the reads
settle (`search_returns_nearest`).
-/

namespace ParqDB.Browser

open Foundations Kernels
open Query (Distance)

variable {F : Type} [Ieee F]

/-! ## Stored files -/

/-- A postings file, by the rows of its row groups. -/
structure StoredFile (F : Type) where
  file : PostingsFile
  metadata : FileMetaData
  groups : List (List (Row F))

def StoredFile.rows (stored : StoredFile F) : List (Row F) := stored.groups.flatten

def Row.cluster (row : Row F) : Option ℤ := row.cid.safeInteger

/-- The metadata and the manifest describe the rows, which the client can score. -/
structure StoredFile.Sound (index : Index) (stored : StoredFile F) : Prop where
  counted : stored.metadata.numRows = stored.file.rows
  covered : stored.rows.length = stored.file.rows
  /-- The kernel takes no more rows at once. -/
  bounded : stored.rows.length ≤ rowsMax
  groups : List.Forall₂ (fun rowGroup group =>
    ∃ cid, OneCluster stored.file Row.cluster rowGroup group cid) stored.metadata.rowGroups
      stored.groups
  rows : ∀ row ∈ stored.rows, row.Sound index

/-- What the files of a manifest hold, and what the Parquet library returns of them. -/
structure Layout (manifest : Manifest) (remote : Remote F) (stored : List (StoredFile F)) :
    Prop where
  files : manifest.files = stored.map StoredFile.file
  metadata : ∀ entry ∈ stored, remote.metadata entry.file = .ok entry.metadata
  read : ∀ entry ∈ stored, ∀ span : RowSpan, span.stop ≤ entry.rows.length →
    remote.read entry.file span = .ok (span.rows entry.rows)
  sound : ∀ entry ∈ stored, entry.Sound manifest.index
  centroids : ∃ centroids, readCentroids manifest remote = .ok centroids ∧
    centroids.length = manifest.index.nlist ∧
    ∀ centroid ∈ centroids, ValidRow .eight manifest.index.dimension centroid.1
  nlist_le : manifest.index.nlist ≤ rowsMax

/-- The rows of the selected clusters, in the order of the manifest. -/
def selectedRows (stored : List (StoredFile F)) (selected : List ℤ) : List (Row F) :=
  (stored.flatMap StoredFile.rows).filter (ofSelected Row.cluster selected)

/-- Options that pass the checks. -/
structure SearchOptions.Accepted (options : SearchOptions) : Prop where
  nprobe : PositiveInteger options.nprobe
  k : PositiveInteger options.k
  maxConcurrentReads : PositiveInteger (options.maxConcurrentReads.getD 8)
  maxConcurrentReads_le : options.maxConcurrentReads.getD 8 ≤ 64

variable {manifest : Manifest} {remote : Remote F} {stored : List (StoredFile F)}

/-! ## Routing -/

variable {query : List F} {selected : List ℤ}

/-- The clusters of the nearest centroids. -/
theorem exists_selectCids (hlayout : Layout manifest remote stored)
    (hquery : query.length = manifest.index.dimension) (hfinite : query.all Numbers.isFinite = true)
    {nprobe : ℕ} (hnprobe : 0 < nprobe) :
    ∃ centroids, readCentroids manifest remote = .ok centroids ∧
      selectCids manifest remote query nprobe =
        .ok ((boundedTopk (centroids.map fun centroid =>
            rowDistance .eight manifest.index.dimension query centroid.1)
          (min nprobe manifest.index.nlist)).map fun hit =>
            (centroids.map Prod.snd).getD hit.row 0) := by
  obtain ⟨centroids, hcentroids, hlength, hvalid⟩ := hlayout.centroids
  refine ⟨centroids, hcentroids, ?_⟩
  have hitems : ∀ item ∈ centroids.map Prod.fst, ValidRow .eight query.length item := by
    intro item hitem
    obtain ⟨centroid, hcentroid, rfl⟩ := List.mem_map.mp hitem
    rw [hquery]
    exact hvalid centroid hcentroid
  have hne : centroids.map Prod.fst ≠ [] :=
    List.ne_nil_of_length_pos (by
      rw [List.length_map, hlength]
      exact manifest.index.nlist_pos)
  have hkernel := lvqTopk_eq (hquery ▸ manifest.index.dimension_pos) hfinite hnprobe hne
    (by rw [List.length_map, hlength]; exact hlayout.nlist_le) hitems
  rw [List.length_map, hlength, hquery] at hkernel
  unfold selectCids
  rw [hcentroids, ok_bind]
  dsimp only
  rw [hkernel, ok_bind, List.map_map]
  rfl

/-! ## Reads -/

variable {entry : StoredFile F} {index : Index}

/-- The spans of a file, as the jobs of a search. -/
theorem exists_jobs (hlayout : Layout manifest remote stored) (selected : List ℤ)
    (hentry : entry ∈ stored) :
    ∃ spans, (do
        let metadata ← remote.metadata entry.file
        let spans ← planPostings entry.file metadata selected
        pure (spans.map (ReadJob.mk entry.file)) : Except String (List ReadJob)) =
          .ok (spans.map (ReadJob.mk entry.file)) ∧
      SpansTo entry.rows.length spans ∧
      spans.flatMap (RowSpan.rows · entry.rows) =
        entry.rows.filter (ofSelected Row.cluster selected) := by
  have hsound := hlayout.sound entry hentry
  obtain ⟨spans, hspans, hto, hrows⟩ :=
    planPostings_eq hsound.groups hsound.counted hsound.covered selected
  refine ⟨spans, ?_, hto, hrows⟩
  rw [hlayout.metadata entry hentry, ok_bind, hspans, ok_bind]
  rfl

/-- A batch that a search reads. -/
structure Batch (remote : Remote F) (index : Index) (selected : List ℤ) (job : ReadJob)
    (rows : List (Row F)) : Prop where
  read : readJob remote job = .ok rows
  count : job.span.count = rows.length
  nonempty : rows ≠ []
  bounded : rows.length ≤ rowsMax
  rows : ∀ row ∈ rows, row.Sound index ∧ ofSelected Row.cluster selected row = true

/-- The batches of one file. -/
theorem exists_batches (hlayout : Layout manifest remote stored) (hentry : entry ∈ stored)
    {spans : List RowSpan} (hto : SpansTo entry.rows.length spans)
    (hrows : spans.flatMap (RowSpan.rows · entry.rows) =
      entry.rows.filter (ofSelected Row.cluster selected)) :
    List.Forall₂ (Batch remote manifest.index selected) (spans.map (ReadJob.mk entry.file))
      (spans.map (RowSpan.rows · entry.rows)) := by
  have hsound := hlayout.sound entry hentry
  rw [List.forall₂_map_left_iff, List.forall₂_map_right_iff]
  refine List.forall₂_same.mpr fun span hspan => ?_
  obtain ⟨hlt, hstop⟩ := hto span hspan
  have hlength := @RowSpan.length_rows _ entry.rows span hstop
  have hcount : span.count = span.stop - span.start := rfl
  refine ⟨hlayout.read entry hentry span hstop, hlength.symm, ?_, ?_, ?_⟩
  · refine List.ne_nil_of_length_pos ?_
    rw [hlength, hcount]
    omega
  · have hbounded := hsound.bounded
    rw [hlength, hcount]
    omega
  · intro row hrow
    have hselected : row ∈ entry.rows.filter (ofSelected Row.cluster selected) := by
      rw [← hrows]
      exact List.mem_flatMap.mpr ⟨span, hspan, hrow⟩
    obtain ⟨hmem, hcluster⟩ := List.mem_filter.mp hselected
    exact ⟨hsound.rows row hmem, hcluster⟩

/-- The files that meet the selected clusters are planned, and their batches are the rows of these
clusters. -/
theorem exists_readJobs (hlayout : Layout manifest remote stored) (selected : List ℤ)
    {entries : List (StoredFile F)} (hentries : ∀ entry ∈ entries, entry ∈ stored) :
    ∃ (planned : List (List ReadJob)) (batches : List (List (Row F))),
      (((entries.map StoredFile.file).filter (intersects · selected)).mapM fun file => (do
        let metadata ← remote.metadata file
        let spans ← planPostings file metadata selected
        pure (spans.map (ReadJob.mk file)) : Except String (List ReadJob))) = .ok planned ∧
      List.Forall₂ (Batch remote manifest.index selected) planned.flatten batches ∧
      batches.flatten = selectedRows entries selected := by
  induction entries with
  | nil => exact ⟨[], [], rfl, List.Forall₂.nil, rfl⟩
  | cons entry entries ih =>
      obtain ⟨planned, batches, hplanned, hbatches, hflatten⟩ :=
        ih fun other hother => hentries other (List.mem_cons_of_mem _ hother)
      have hentry := hentries entry List.mem_cons_self
      have hrest : selectedRows (entry :: entries) selected =
          entry.rows.filter (ofSelected Row.cluster selected) ++ selectedRows entries selected := by
        rw [selectedRows, List.flatMap_cons, List.filter_append]
        rfl
      by_cases hmeets : intersects entry.file selected = true
      · obtain ⟨spans, hspans, hto, hrows⟩ := exists_jobs hlayout selected hentry
        refine ⟨spans.map (ReadJob.mk entry.file) :: planned,
          spans.map (RowSpan.rows · entry.rows) ++ batches, ?_, ?_, ?_⟩
        · rw [List.map_cons, @List.filter_cons_of_pos _ (intersects · selected) _ _ hmeets,
            List.mapM_cons, hspans, ok_bind, hplanned, ok_bind]
          rfl
        · rw [List.flatten_cons]
          exact List.rel_append (exists_batches hlayout hentry hto hrows) hbatches
        · rw [List.flatten_append, hflatten, hrest, ← hrows, List.flatMap_def]
      · have hnone := filter_eq_nil_of_not_intersects (hlayout.sound entry hentry).groups
          (Bool.eq_false_iff.mpr hmeets)
        refine ⟨planned, batches, ?_, hbatches, ?_⟩
        · rw [List.map_cons, @List.filter_cons_of_neg _ (intersects · selected) _ _ hmeets]
          exact hplanned
        · rw [hrest, hflatten]
          show _ = entry.groups.flatten.filter _ ++ _
          rw [hnone, List.nil_append]

/-! ## Plans -/

/-- The candidate rows are counted by their spans. -/
theorem sum_count_eq {jobs : List ReadJob} {batches : List (List (Row F))}
    (hbatches : List.Forall₂ (Batch remote index selected) jobs batches) :
    (jobs.map fun job => job.span.count).sum = batches.flatten.length := by
  induction hbatches with
  | nil => rfl
  | cons hbatch _ ih =>
      rw [List.map_cons, List.sum_cons, List.flatten_cons, List.length_append, ih, hbatch.count]

variable {normalizer : Normalizer F} {transformed : List F}

/-- A search with accepted options comes to its reads. -/
theorem exists_planSearch (hlayout : Layout manifest remote stored) {options : SearchOptions}
    (hoptions : options.Accepted) (hlength : query.length = manifest.index.dimension)
    (hfinite : query.all Numbers.isFinite = true)
    (htransformed : transformQuery manifest.index normalizer query = .ok transformed)
    (hselected : selectCids manifest remote transformed
      (min options.nprobe.toNat manifest.index.nlist) = .ok selected)
    (hlimit : (selectedRows stored selected).length ≤ options.maxCandidateRows.getD 10000000) :
    ∃ (jobs : List ReadJob) (batches : List (List (Row F))),
      planSearch manifest remote normalizer query options = .ok {
        query := transformed
        selected := selected
        readJobs := jobs
        maxConcurrentReads := (options.maxConcurrentReads.getD 8).toNat
        effectiveK := min (min options.k.toNat manifest.index.ntotal) 100 } ∧
      List.Forall₂ (Batch remote manifest.index selected) jobs batches ∧
      batches.flatten = selectedRows stored selected := by
  obtain ⟨planned, batches, hplanned, hbatches, hflatten⟩ :=
    exists_readJobs hlayout selected fun entry (hentry : entry ∈ stored) => hentry
  refine ⟨planned.flatten, batches, ?_, hbatches, hflatten⟩
  have hle := hoptions.maxConcurrentReads_le
  unfold planSearch
  rw [rejectIf_eq_ok.mpr (not_not.mpr hoptions.nprobe), ok_bind,
    rejectIf_eq_ok.mpr (not_not.mpr hoptions.k), ok_bind]
  dsimp only
  rw [rejectIf_eq_ok.mpr (by
      rw [not_or, not_not, not_lt]
      exact ⟨hoptions.maxConcurrentReads, hle⟩), ok_bind,
    rejectIf_eq_ok.mpr (by
      rw [not_or, not_not]
      exact ⟨hlength, by rw [hfinite]; exact Bool.false_ne_true.symm⟩), ok_bind,
    htransformed, ok_bind, hselected, ok_bind, hlayout.files, hplanned, ok_bind,
    rejectIf_eq_ok.mpr (by rw [sum_count_eq hbatches, hflatten]; exact not_lt.mpr hlimit), ok_bind]
  rfl

/-- The transformed query is as long as the query, and finite. -/
theorem transformQuery_spec (hfinite : query.all Numbers.isFinite = true)
    (htransformed : transformQuery index normalizer query = .ok transformed) :
    transformed.length = query.length ∧ transformed.all Numbers.isFinite = true := by
  unfold transformQuery at htransformed
  split at htransformed
  · exact ⟨normalizer.length_eq _ _ htransformed, normalizer.finite _ _ hfinite htransformed⟩
  · cases htransformed
    exact ⟨rfl, hfinite⟩

/-! ## Results -/

/-- A search over sound files, from accepted options and a query that can be transformed: it selects
clusters, and if the limit admits their rows and the distances of these are finite, then whenever
its reads are done it returns the nearest of them, each once; a read that is under way can settle,
and no more settle than there are jobs. -/
theorem search_returns_nearest {normalizer : Normalizer F} {query transformed : List F}
    {options : SearchOptions} (hlayout : Layout manifest remote stored)
    (hoptions : options.Accepted) (hlength : query.length = manifest.index.dimension)
    (hfinite : query.all Numbers.isFinite = true)
    (htransformed : transformQuery manifest.index normalizer query = .ok transformed) :
    ∃ selected, selectCids manifest remote transformed
        (min options.nprobe.toNat manifest.index.nlist) = .ok selected ∧
      ((selectedRows stored selected).length ≤ options.maxCandidateRows.getD 10000000 →
        (∀ row ∈ selectedRows stored selected,
          (Ieee.bits (row.distance manifest.index transformed)).Finite) →
        ∃ plan, planSearch manifest remote normalizer query options = .ok plan ∧
          ∀ order final, Mapping.SettleRun (readJob remote) plan.readJobs plan.maxConcurrentReads
              order final →
            (final.inFlight = [] → ∃ hits : List (Row F × ℕ),
              searchResult manifest.index plan final =
                some (.ok (hits.map fun placed => placed.1.hit manifest.index transformed)) ∧
              hits = (nearest manifest.index transformed (selectedRows stored selected)).take
                (min (min options.k.toNat manifest.index.ntotal) 100) ∧
              (hits.map Prod.snd).Nodup ∧
              hits.length = min (min (min options.k.toNat manifest.index.ntotal) 100)
                (selectedRows stored selected).length) ∧
            (∀ position ∈ final.inFlight, ∃ after,
              Mapping.settle (readJob remote) plan.readJobs final position = some after) ∧
            order.length ≤ plan.readJobs.length) := by
  obtain ⟨hsize, hnumbers⟩ := transformQuery_spec hfinite htransformed
  have hquery := hsize.trans hlength
  have hnprobe : 0 < min options.nprobe.toNat manifest.index.nlist := by
    have hpos := hoptions.nprobe.1
    have hnlist := manifest.index.nlist_pos
    omega
  obtain ⟨selected, hselected⟩ : ∃ selected, selectCids manifest remote transformed
      (min options.nprobe.toNat manifest.index.nlist) = .ok selected := by
    obtain ⟨centroids, -, hselected⟩ := exists_selectCids hlayout hquery hnumbers hnprobe
    exact ⟨_, hselected⟩
  refine ⟨selected, hselected, fun hlimit hdistances => ?_⟩
  obtain ⟨jobs, batches, hplan, hbatches, hflatten⟩ :=
    exists_planSearch hlayout hoptions hlength hfinite htransformed hselected hlimit
  refine ⟨_, hplan, fun order final hrun => ?_⟩
  dsimp only at hrun ⊢
  have hconcurrency : 0 < (options.maxConcurrentReads.getD 8).toNat := by
    have hpos := hoptions.maxConcurrentReads.1
    omega
  have hk : 0 < min (min options.k.toNat manifest.index.ntotal) 100 := by
    have hpos := hoptions.k.1
    have hnlist := manifest.index.nlist_pos
    have hntotal := manifest.index.nlist_le
    omega
  -- what a job reads
  have hread : ∀ job ∈ jobs, readJob remote job =
      .ok ((readJob remote job).toOption.getD []) := by
    intro job hjob
    obtain ⟨position, hposition, rfl⟩ := List.getElem_of_mem hjob
    have hbatch := (List.forall₂_iff_get.mp hbatches).2 position hposition
      ((List.forall₂_iff_get.mp hbatches).1 ▸ hposition)
    rw [List.get_eq_getElem] at hbatch
    rw [hbatch.read]
    rfl
  have hresults : jobs.map (fun job => (readJob remote job).toOption.getD []) = batches := by
    clear hrun hplan hflatten hread
    induction hbatches with
    | nil => rfl
    | cons hbatch _ ih =>
        rw [List.map_cons, ih, hbatch.read]
        rfl
  have hscorable : ∀ rows ∈ batches, rows ≠ [] ∧ rows.length ≤ rowsMax ∧
      ∀ row ∈ rows, Scorable manifest.index (SearchPlan.mk transformed selected jobs
        (options.maxConcurrentReads.getD 8).toNat
        (min (min options.k.toNat manifest.index.ntotal) 100)) row := by
    intro rows hrows
    obtain ⟨position, hposition, rfl⟩ := List.getElem_of_mem hrows
    have hbatch := (List.forall₂_iff_get.mp hbatches).2 position
      ((List.forall₂_iff_get.mp hbatches).1.symm ▸ hposition) hposition
    rw [List.get_eq_getElem, List.get_eq_getElem] at hbatch
    refine ⟨hbatch.nonempty, hbatch.bounded, fun row hrow => ?_⟩
    refine ⟨(hbatch.rows row hrow).1, (hbatch.rows row hrow).2, hdistances row ?_⟩
    rw [← hflatten]
    exact List.mem_flatten.mpr ⟨_, hrows, hrow⟩
  refine ⟨fun hdone => ?_, fun position hposition =>
    Mapping.exists_settle hread hconcurrency hrun hposition, ?_⟩
  · have houtcome := Mapping.results_of_run hread hconcurrency hrun hdone
    refine ⟨_, ?_, rfl, ?_, ?_⟩
    · rw [searchResult, houtcome, Option.map_some]
      have hplaces : (jobs.map fun job => some ((readJob remote job).toOption.getD [])).map
          (fun batch => batch.getD []) = batches := by
        rw [List.map_map]
        exact hresults
      show some (finishSearch _ _ (List.map _ _)) = _
      rw [hplaces, finishSearch_eq hquery hnumbers hk hscorable, hflatten]
    · have hplaces : ((nearest manifest.index transformed
          (selectedRows stored selected)).map Prod.snd).Nodup := by
        have hperm := (List.perm_insertionSort (fun left right : Row F × ℕ =>
          placeKey manifest.index transformed left ≤ placeKey manifest.index transformed right)
          (selectedRows stored selected).zipIdx).map Prod.snd
        refine hperm.nodup_iff.mpr ?_
        rw [List.zipIdx_map_snd]
        exact List.nodup_range'
      rw [List.map_take]
      exact hplaces.sublist (List.take_sublist _ _)
    · rw [List.length_take, nearest, List.length_insertionSort, List.length_zipIdx]
  · have hcount := Mapping.length_of_run hread hrun
    omega

/-! ## A small layout -/

/-- The `f32` of a number: exact for integers below `2 ^ 24`. -/
def ieeeBits (value : ℚ) : Distance where
  negative := decide (value < 0)
  magnitude :=
    let number := value.num.natAbs / value.den
    if number = 0 then 0
    else min Distance.infinity.magnitude
      ((127 + number.log2) * 2 ^ 23 + (number - 2 ^ number.log2) * 2 ^ 23 / 2 ^ number.log2)

theorem unsigned_ieeeBits {value : ℚ} : Unsigned (ieeeBits value) ↔ 0 ≤ value := by
  constructor
  · intro hunsigned
    by_contra hnegative
    have hlarge := hunsigned (decide_eq_true (not_le.mp hnegative))
    unfold ieeeBits at hlarge
    dsimp only at hlarge
    split at hlarge
    · exact absurd hlarge (Nat.not_lt_zero _)
    · exact absurd hlarge (Nat.not_lt.mpr (Nat.min_le_left _ _))
  · intro hle hnegative
    exact absurd (of_decide_eq_true hnegative) (not_lt.mpr hle)

instance : Ieee ℚ where
  bits := ieeeBits
  zero_unsigned := unsigned_ieeeBits.mpr (le_refl _)
  square_unsigned value := unsigned_ieeeBits.mpr (mul_self_nonneg value)
  add_unsigned _ _ hleft hright :=
    unsigned_ieeeBits.mpr (add_nonneg (unsigned_ieeeBits.mp hleft) (unsigned_ieeeBits.mp hright))

/-- Two clusters of vectors of one dimension, each with a file of its own. -/
def smallIndex : Index where
  metric := .l2Squared
  postingEncoding := .eight
  dimension := 1
  nlist := 2
  ntotal := 3
  sourceKeyFields := [⟨"id", .long⟩]
  dimension_pos := by decide
  nlist_pos := by decide
  nlist_le := by decide

def smallRow (cid key : ℤ) (code : UInt8) : Row ℚ :=
  ⟨.number cid, [.bigint key], some 0, some 1, .bytes [code]⟩

def rowGroupOf (rows cid : ℤ) : RowGroup :=
  ⟨rows, [some ⟨["cid"], some ⟨some 0, some true, some true, .bigint cid, .undefined, .bigint cid,
    .undefined⟩⟩]⟩

/-- The file of one cluster. -/
def smallFile (path : String) (cid : ℤ) (rows : List (Row ℚ)) : StoredFile ℚ where
  file := ⟨path, cid, cid, rows.length⟩
  metadata := ⟨rows.length, [rowGroupOf rows.length cid]⟩
  groups := [rows]

def firstFile : StoredFile ℚ :=
  smallFile "ivf_postings/cid_bucket=000000/a.parquet" 0 [smallRow 0 10 5, smallRow 0 11 3]

def secondFile : StoredFile ℚ :=
  smallFile "ivf_postings/cid_bucket=000000/b.parquet" 1 [smallRow 1 12 5]

def smallManifest : Manifest := ⟨smallIndex, ⟨1, [0, 2]⟩, [firstFile.file, secondFile.file]⟩

def smallRemote : Remote ℚ where
  centroids := .ok (⟨2, [rowGroupOf 2 0]⟩,
    [⟨.number 0, .number 0, some 0, some 1, .bytes [4]⟩,
      ⟨.number 1, .number 0, some 0, some 1, .bytes [6]⟩])
  metadata file := .ok (if file.minCid = 0 then firstFile else secondFile).metadata
  read file span := .ok (span.rows (if file.minCid = 0 then firstFile else secondFile).rows)

def unchanged : Normalizer ℚ where
  normalize := .ok
  length_eq _ _ hnormalized := by
    cases hnormalized
    rfl
  finite _ _ hfinite hnormalized := by
    cases hnormalized
    exact hfinite

theorem smallRow_sound (cid key : ℤ) (code : UInt8) : (smallRow cid key code).Sound smallIndex where
  code := ⟨[code], rfl⟩
  offset := ⟨0, rfl, rfl⟩
  scale := ⟨1, rfl, rfl⟩
  nonnegative := by
    intro scale hscale
    cases hscale
    rfl
  item := ⟨rfl, rfl⟩
  keys := by
    intro entry hentry
    cases List.mem_singleton.mp hentry
    rfl

theorem firstFile_sound : firstFile.Sound smallIndex where
  counted := rfl
  covered := rfl
  bounded := by decide
  groups := .cons ⟨0, rfl, by decide, rfl, by decide, by decide,
    List.forall_mem_cons.mpr ⟨rfl, List.forall_mem_singleton.mpr rfl⟩⟩ .nil
  rows := List.forall_mem_cons.mpr
    ⟨smallRow_sound _ _ _, List.forall_mem_singleton.mpr (smallRow_sound _ _ _)⟩

theorem secondFile_sound : secondFile.Sound smallIndex where
  counted := rfl
  covered := rfl
  bounded := by decide
  groups := .cons ⟨1, rfl, by decide, rfl, by decide, by decide,
    List.forall_mem_singleton.mpr rfl⟩ .nil
  rows := List.forall_mem_singleton.mpr (smallRow_sound _ _ _)

theorem smallLayout : Layout smallManifest smallRemote [firstFile, secondFile] where
  files := rfl
  metadata := List.forall_mem_cons.mpr ⟨rfl, List.forall_mem_singleton.mpr rfl⟩
  read := List.forall_mem_cons.mpr ⟨fun _ _ => rfl, List.forall_mem_singleton.mpr fun _ _ => rfl⟩
  sound := List.forall_mem_cons.mpr
    ⟨firstFile_sound, List.forall_mem_singleton.mpr secondFile_sound⟩
  centroids := ⟨[(⟨[4], 0, 1⟩, 0), (⟨[6], 0, 1⟩, 1)], rfl, rfl,
    List.forall_mem_cons.mpr ⟨⟨rfl, rfl⟩, List.forall_mem_singleton.mpr ⟨rfl, rfl⟩⟩⟩
  nlist_le := by decide

/-- The nearest of two clusters' rows: two rows at the same distance come in the order of their
places. -/
theorem small_search_returns : ∃ plan, planSearch smallManifest smallRemote unchanged [5]
      ⟨2, 2, none, none⟩ = .ok plan ∧
    ∀ order final, Mapping.SettleRun (readJob smallRemote) plan.readJobs plan.maxConcurrentReads
        order final → final.inFlight = [] →
      searchResult smallIndex plan final = some (.ok [
        ⟨[("id", .bigint 10)], 0, 1⟩, ⟨[("id", .bigint 12)], 0, 1⟩]) := by
  obtain ⟨selected, hselected, hsearch⟩ := @search_returns_nearest ℚ _ smallManifest smallRemote
    [firstFile, secondFile] unchanged [5] [5] ⟨2, 2, none, none⟩ smallLayout
    ⟨by decide, by decide, by decide, by decide⟩ rfl rfl rfl
  have hclusters : selected = [0, 1] := by
    have hvalue : selectCids smallManifest smallRemote [5] 2 = .ok [0, 1] := by decide +kernel
    have hsame := hselected.symm.trans hvalue
    cases hsame
    rfl
  subst hclusters
  have hrows : selectedRows [firstFile, secondFile] [0, 1] =
      [smallRow 0 10 5, smallRow 0 11 3, smallRow 1 12 5] := by decide +kernel
  rw [hrows] at hsearch
  obtain ⟨plan, hplan, hruns⟩ := hsearch (by decide) (by decide +kernel)
  refine ⟨plan, hplan, fun order final hrun hdone => ?_⟩
  obtain ⟨hits, hresult, hhits, -, -⟩ := (hruns order final hrun).1 hdone
  rw [show searchResult smallIndex plan final = _ from hresult, hhits]
  decide +kernel

end ParqDB.Browser
