import ParqDB.Foundations.Filing
import ParqDB.Meta.History

/-!
# The file manifest of bucketed postings

The manifest that lists the Parquet files of one postings table, and its validation
(`parqdb-meta/src/postings_manifest.rs`).

The check walks over the files once and compares each with the one before.  Its result is
stated as a property of the whole list (`validate_iff`), and from the comparisons of
neighbours follows what a reader that prunes files by their ranges relies on
(`scanBounds_of_validate`): no two files share more than one CID, the files of a CID stand
together, and every range lies in one bucket.

Strings are compared by their code points, which is the order of their UTF-8 bytes.
-/

namespace ParqDB.Meta

open Foundations

/-- One Parquet object in a manifested IVF postings table. -/
structure IvfPostingsFile where
  path : String
  cidBucket : ℤ
  minCid : ℤ
  maxCid : ℤ
  rows : ℕ
  size : ℕ
  sha256 : String
deriving DecidableEq

/-- Manifest for one immutable IVF postings table. -/
structure IvfPostingsManifest where
  formatVersion : ℤ
  nlist : ℤ
  ntotal : ℤ
  cidOffsets : List ℤ
  files : List IvfPostingsFile
deriving DecidableEq

/-! ## The checks -/

/-- Whether root-to-leaf offsets strictly increase from 0 to the number of lists. -/
def partitions (cidOffsets : List ℤ) (nlist : ℤ) : Bool :=
  2 ≤ cidOffsets.length && cidOffsets.head? = some 0 && cidOffsets.getLast? = some nlist &&
    (cidOffsets.zip cidOffsets.tail).all fun range => range.1 < range.2

/-- The index of a bucket that has both its offsets. -/
def bucketIndex (cidOffsets : List ℤ) (cidBucket : ℤ) : Option ℕ :=
  if 0 ≤ cidBucket ∧ cidBucket.toNat + 1 < cidOffsets.length then some cidBucket.toNat else none

/-- `cid_bucket=` with the bucket in at least six digits, and a slash. -/
def bucketDirectory (bucket : ℕ) : List Char :=
  let digits := (toString bucket).toList
  "cid_bucket=".toList ++ List.replicate (6 - digits.length) '0' ++ digits ++ ['/']

/-- 64 lowercase hexadecimal digits; a text with other characters has other bytes. -/
def isSha256 (value : String) : Bool :=
  value.toList.length = 64 &&
    value.toList.all fun char => char.isDigit || ('a' ≤ char && char ≤ 'f')

/-- The lexicographic order of the keys by which files are listed. -/
def keyBefore (previous current : ℤ × ℤ × ℤ × String) : Bool :=
  previous.1 < current.1 || (previous.1 = current.1 &&
    (previous.2.1 < current.2.1 || (previous.2.1 = current.2.1 &&
      (previous.2.2.1 < current.2.2.1 || (previous.2.2.1 = current.2.2.1 &&
        previous.2.2.2 < current.2.2.2)))))

namespace IvfPostingsFile

def key (file : IvfPostingsFile) : ℤ × ℤ × ℤ × String :=
  (file.cidBucket, file.minCid, file.maxCid, file.path)

/-- The checks of one file on its own, after those of its path. -/
def validate (cidOffsets : List ℤ) (file : IvfPostingsFile) : Except String Unit := do
  match bucketIndex cidOffsets file.cidBucket with
  | none => invalid "IVF postings cid-bucket is out of range"
  | some bucket =>
      rejectIf (!(bucketDirectory bucket).isPrefixOf file.path.toList)
        "IVF postings path does not match cid-bucket"
      rejectIf (file.minCid < cidOffsets[bucket]?.getD 0 ∨ file.maxCid < file.minCid ∨
          cidOffsets[bucket + 1]?.getD 0 ≤ file.maxCid)
        "IVF postings file CID range is outside its bucket"
      rejectIf (file.rows = 0 ∨ file.size = 0)
        "IVF postings file rows and size must be positive"
      rejectIf (!isSha256 file.sha256)
        "IVF postings sha256 must be 64 lowercase hexadecimal characters"

/-- The comparison with the file before. -/
def validateAfter (file : IvfPostingsFile) : Option IvfPostingsFile → Except String Unit
  | none => .ok ()
  | some previous => do
      rejectIf (!keyBefore previous.key file.key) "IVF postings files are not canonically ordered"
      rejectIf (previous.cidBucket = file.cidBucket ∧ file.minCid < previous.maxCid)
        "IVF postings files overlap by more than one boundary CID"

end IvfPostingsFile

namespace IvfPostingsManifest

/-- The walk over the files, with the paths seen, the file before and the rows so far. -/
def validateFiles (cidOffsets : List ℤ) :
    List IvfPostingsFile → List String → Option IvfPostingsFile → ℕ → Except String ℕ
  | [], _, _, totalRows => .ok totalRows
  | file :: rest, paths, previous, totalRows => do
      validateRelativeLocation file.path
      rejectIf (!(".parquet".toList.isSuffixOf file.path.toList) ∨ file.path ∈ paths)
        "IVF postings file paths must be unique Parquet paths"
      file.validate cidOffsets
      rejectIf (2 ^ 64 ≤ totalRows + file.rows) "IVF postings row count overflows"
      file.validateAfter previous
      validateFiles cidOffsets rest (file.path :: paths) (some file) (totalRows + file.rows)

/-- Validates hierarchy, ordering, ranges, paths and row totals. -/
def validate (manifest : IvfPostingsManifest) : Except String Unit := do
  rejectIf (manifest.formatVersion ≠ 1)
    s!"unsupported IVF postings manifest format-version {manifest.formatVersion}"
  rejectIf (manifest.nlist ≤ 0 ∨ manifest.ntotal ≤ 0)
    "IVF postings manifest nlist and ntotal must be positive"
  rejectIf (!partitions manifest.cidOffsets manifest.nlist)
    "IVF postings cid-offsets must partition [0, nlist)"
  rejectIf (manifest.files = []) "IVF postings manifest must contain files"
  let totalRows ← validateFiles manifest.cidOffsets manifest.files [] none 0
  rejectIf ((totalRows : ℤ) ≠ manifest.ntotal) "IVF postings file rows do not sum to ntotal"

end IvfPostingsManifest

/-! ## What the checks say -/

/-- Offsets that strictly partition the leaf centroids. -/
structure Partitioned (cidOffsets : List ℤ) (nlist : ℤ) : Prop where
  length : 2 ≤ cidOffsets.length
  head : cidOffsets.head? = some 0
  last : cidOffsets.getLast? = some nlist
  neighbours : ∀ range ∈ cidOffsets.zip cidOffsets.tail, range.1 < range.2

variable {cidOffsets : List ℤ}

theorem partitions_iff {nlist : ℤ} :
    partitions cidOffsets nlist = true ↔ Partitioned cidOffsets nlist := by
  simp only [partitions, Bool.and_eq_true, decide_eq_true_eq, List.all_eq_true]
  constructor
  · rintro ⟨⟨⟨hlength, hhead⟩, hlast⟩, hneighbours⟩
    exact ⟨hlength, hhead, hlast, hneighbours⟩
  · intro hpartitioned
    exact ⟨⟨⟨hpartitioned.length, hpartitioned.head⟩, hpartitioned.last⟩,
      hpartitioned.neighbours⟩

/-- The range of a file lies between the offsets of a bucket. -/
def RangeWithin (cidOffsets : List ℤ) (minCid maxCid : ℤ) (bucket : ℕ) : Prop :=
  ∃ first last, cidOffsets[bucket]? = some first ∧ cidOffsets[bucket + 1]? = some last ∧
    first ≤ minCid ∧ maxCid < last

/-- A bucket number with both its offsets, and a proper range between them. -/
structure Bucketed (cidOffsets : List ℤ) (cidBucket minCid maxCid : ℤ) : Prop where
  nonneg : 0 ≤ cidBucket
  proper : minCid ≤ maxCid
  within : RangeWithin cidOffsets minCid maxCid cidBucket.toNat

theorem bucketed_iff {cidBucket minCid maxCid : ℤ} :
    Bucketed cidOffsets cidBucket minCid maxCid ↔
      bucketIndex cidOffsets cidBucket = some cidBucket.toNat ∧
        cidOffsets[cidBucket.toNat]?.getD 0 ≤ minCid ∧ minCid ≤ maxCid ∧
        maxCid < cidOffsets[cidBucket.toNat + 1]?.getD 0 := by
  constructor
  · rintro ⟨hnonneg, hproper, first, last, hfirst, hlast, hlower, hupper⟩
    have hbound := (List.getElem?_eq_some_iff.mp hlast).1
    refine ⟨by simp [bucketIndex, hnonneg, hbound], ?_, hproper, ?_⟩
    · rw [hfirst]
      exact hlower
    · rw [hlast]
      exact hupper
  · rintro ⟨hindex, hlower, hproper, hupper⟩
    unfold bucketIndex at hindex
    split at hindex
    · next hrange =>
        obtain ⟨hnonneg, hbound⟩ := hrange
        have hbound' : cidBucket.toNat < cidOffsets.length := by omega
        rw [List.getElem?_eq_getElem hbound'] at hlower
        rw [List.getElem?_eq_getElem hbound] at hupper
        exact ⟨hnonneg, hproper, _, _, List.getElem?_eq_getElem hbound',
          List.getElem?_eq_getElem hbound, hlower, hupper⟩
    · cases hindex

theorem bucketIndex_eq_some {cidBucket : ℤ} {bucket : ℕ}
    (hindex : bucketIndex cidOffsets cidBucket = some bucket) : bucket = cidBucket.toNat := by
  unfold bucketIndex at hindex
  split at hindex
  · cases hindex
    rfl
  · cases hindex

/-- A list of files that are accepted one by one, with distinct paths, each preceding the
next. -/
structure Inventory {File : Type} (accepted : File → Prop) (path : File → String)
    (precedes : File → File → Prop) (files : List File) : Prop where
  each : ∀ file ∈ files, accepted file
  paths : (files.map path).Nodup
  neighbours : files.IsChain precedes

section

variable {File : Type} {accepted : File → Prop} {path : File → String}
  {precedes : File → File → Prop}

theorem Inventory.nil : Inventory accepted path precedes [] where
  each := by simp
  paths := List.nodup_nil
  neighbours := List.isChain_nil

/-- A file at the front: it is new, and it precedes the first of the others. -/
theorem inventory_cons {file : File} {rest : List File} :
    Inventory accepted path precedes (file :: rest) ↔
      accepted file ∧ Inventory accepted path precedes rest ∧
        (∀ other ∈ rest, path other ≠ path file) ∧ ∀ next ∈ rest.head?, precedes file next := by
  constructor
  · rintro ⟨heach, hpaths, hneighbours⟩
    obtain ⟨hunseen, hnodup⟩ := List.nodup_cons.mp hpaths
    refine ⟨heach file List.mem_cons_self, ⟨fun other hother => heach other
      (List.mem_cons_of_mem _ hother), hnodup, hneighbours.tail⟩, ?_, ?_⟩
    · intro other hother heq
      exact hunseen (List.mem_map.mpr ⟨other, hother, heq⟩)
    · intro next hnext
      cases rest with
      | nil => cases hnext
      | cons first rest =>
          cases hnext
          exact (List.isChain_cons_cons.mp hneighbours).1
  · rintro ⟨hfile, ⟨heach, hpaths, hneighbours⟩, hunseen, hnext⟩
    refine ⟨List.forall_mem_cons.mpr ⟨hfile, heach⟩, ?_, ?_⟩
    · rw [List.map_cons, List.nodup_cons]
      refine ⟨fun hmem => ?_, hpaths⟩
      obtain ⟨other, hother, heq⟩ := List.mem_map.mp hmem
      exact hunseen other hother heq
    · cases rest with
      | nil => exact List.isChain_singleton file
      | cons first rest => exact List.isChain_cons_cons.mpr ⟨hnext first rfl, hneighbours⟩

/-- A walk over files, with the paths seen, the file before and the rows so far. -/
structure IsWalk (accepted : File → Prop) (path : File → String) (precedes : File → File → Prop)
    (rowsOf : File → ℕ) (walk : List File → List String → Option File → ℕ → Except String ℕ) :
    Prop where
  nil : ∀ paths previous rows, walk [] paths previous rows = .ok rows
  cons : ∀ file rest paths previous rows result,
    walk (file :: rest) paths previous rows = .ok result ↔
      accepted file ∧ path file ∉ paths ∧ rows + rowsOf file < 2 ^ 64 ∧
        (∀ other ∈ previous, precedes other file) ∧
        walk rest (path file :: paths) (some file) (rows + rowsOf file) = .ok result

/-- The walk from some point on: the files ahead, against what was seen before. -/
theorem IsWalk.eq_ok_iff {rowsOf : File → ℕ}
    {walk : List File → List String → Option File → ℕ → Except String ℕ}
    (hwalk : IsWalk accepted path precedes rowsOf walk) {files : List File} :
    ∀ {paths : List String} {previous : Option File} {rows result : ℕ}, rows < 2 ^ 64 →
      (walk files paths previous rows = .ok result ↔
        Inventory accepted path precedes files ∧ (∀ file ∈ files, path file ∉ paths) ∧
          (∀ other ∈ previous, ∀ file ∈ files.head?, precedes other file) ∧
          rows + (files.map rowsOf).sum = result ∧ result < 2 ^ 64) := by
  induction files with
  | nil =>
      intro paths previous rows result hrows
      simp only [hwalk.nil, Except.ok.injEq, Inventory.nil, List.not_mem_nil, false_implies,
        implies_true, List.head?_nil, Option.mem_def, reduceCtorEq, List.map_nil, List.sum_nil,
        Nat.add_zero, true_and]
      exact ⟨fun heq => ⟨heq, heq ▸ hrows⟩, fun hboth => hboth.1⟩
  | cons file rest ih =>
      intro paths previous rows result hrows
      simp only [hwalk.cons, inventory_cons, List.forall_mem_cons, List.head?_cons,
        Option.mem_some_iff, forall_eq', List.map_cons, List.sum_cons]
      constructor
      · rintro ⟨hfile, hnew, hbound, hafter, hrest⟩
        obtain ⟨haccepted, hfresh, hnext, hsum, hresult⟩ := (ih hbound).mp hrest
        exact ⟨⟨hfile, haccepted, fun other hother heq =>
          hfresh other hother (heq ▸ List.mem_cons_self), hnext file rfl⟩,
          ⟨hnew, fun other hother hmem => hfresh other hother (List.mem_cons_of_mem _ hmem)⟩,
          hafter, by omega, hresult⟩
      · rintro ⟨⟨hfile, haccepted, hunseen, hnext⟩, ⟨hnew, hfresh⟩, hafter, hsum, hresult⟩
        have hbound : rows + rowsOf file < 2 ^ 64 := by omega
        refine ⟨hfile, hnew, hbound, hafter, (ih hbound).mpr ⟨haccepted, ?_, ?_, by omega, hresult⟩⟩
        · intro other hother hmem
          rcases List.mem_cons.mp hmem with heq | hmem
          · exact hunseen other hother heq
          · exact hfresh other hother hmem
        · intro other hother
          cases hother
          exact hnext

end

/-- What holds of a file on its own. -/
structure IvfPostingsFile.Accepted (cidOffsets : List ℤ) (file : IvfPostingsFile) : Prop where
  location : validateRelativeLocation file.path = .ok ()
  parquet : ".parquet".toList <:+ file.path.toList
  directory : bucketDirectory file.cidBucket.toNat <+: file.path.toList
  bucketed : Bucketed cidOffsets file.cidBucket file.minCid file.maxCid
  rows_pos : 0 < file.rows
  size_pos : 0 < file.size
  digest : isSha256 file.sha256 = true

variable {file : IvfPostingsFile}

theorem IvfPostingsFile.validate_iff :
    file.validate cidOffsets = .ok () ↔
      bucketDirectory file.cidBucket.toNat <+: file.path.toList ∧
        Bucketed cidOffsets file.cidBucket file.minCid file.maxCid ∧ 0 < file.rows ∧
        0 < file.size ∧ isSha256 file.sha256 = true := by
  rw [bucketed_iff]
  unfold validate
  cases hindex : bucketIndex cidOffsets file.cidBucket with
  | none =>
      refine iff_of_false (fun hok => by cases hok) ?_
      rintro ⟨-, ⟨hsome, -⟩, -⟩
      cases hsome
  | some bucket =>
      obtain rfl := bucketIndex_eq_some hindex
      simp only [rejectIf_bind_eq_ok, rejectIf_eq_ok, Bool.not_eq_true', Bool.not_eq_false, not_or,
        not_lt, not_le, List.isPrefixOf_iff_prefix, Nat.pos_iff_ne_zero, true_and, and_assoc]

/-- What holds of a file and the one before. -/
structure IvfPostingsFile.Precedes (previous current : IvfPostingsFile) : Prop where
  ordered : keyBefore previous.key current.key = true
  overlap : previous.cidBucket = current.cidBucket → previous.maxCid ≤ current.minCid

theorem IvfPostingsFile.validateAfter_iff {previous : Option IvfPostingsFile} :
    file.validateAfter previous = .ok () ↔ ∀ other ∈ previous, other.Precedes file := by
  cases previous with
  | none => simp [validateAfter]
  | some previous =>
      simp only [validateAfter, rejectIf_bind_eq_ok, rejectIf_eq_ok, Bool.not_eq_true',
        Bool.not_eq_false, not_and, not_lt, Option.mem_some_iff, forall_eq']
      constructor
      · rintro ⟨hordered, hoverlap⟩
        exact ⟨hordered, hoverlap⟩
      · rintro ⟨hordered, hoverlap⟩
        exact ⟨hordered, hoverlap⟩

namespace IvfPostingsManifest

/-- What the walk over the files says of all of them. -/
abbrev FilesAccepted (cidOffsets : List ℤ) (files : List IvfPostingsFile) : Prop :=
  Inventory (IvfPostingsFile.Accepted cidOffsets) (·.path) IvfPostingsFile.Precedes files

theorem validateFiles_isWalk (cidOffsets : List ℤ) :
    IsWalk (IvfPostingsFile.Accepted cidOffsets) (·.path) IvfPostingsFile.Precedes (·.rows)
      (validateFiles cidOffsets) where
  nil _ _ _ := rfl
  cons file rest paths previous rows result := by
    simp only [validateFiles, seq_eq_ok, rejectIf_eq_ok, IvfPostingsFile.validate_iff,
      IvfPostingsFile.validateAfter_iff, Bool.not_eq_true', Bool.not_eq_false, not_or,
      List.isSuffixOf_iff_suffix, not_le]
    constructor
    · rintro ⟨hlocation, ⟨hparquet, hnew⟩, ⟨hdirectory, hbucketed, hrows, hsize, hdigest⟩, hrest⟩
      exact ⟨⟨hlocation, hparquet, hdirectory, hbucketed, hrows, hsize, hdigest⟩, hnew, hrest⟩
    · rintro ⟨hfile, hnew, hrest⟩
      exact ⟨hfile.location, ⟨hfile.parquet, hnew⟩, ⟨hfile.directory, hfile.bucketed,
        hfile.rows_pos, hfile.size_pos, hfile.digest⟩, hrest⟩

/-- The rows of all files. -/
def totalRows (manifest : IvfPostingsManifest) : ℕ := (manifest.files.map (·.rows)).sum

/-- What an accepted manifest says. -/
structure Accepted (manifest : IvfPostingsManifest) : Prop where
  version : manifest.formatVersion = 1
  nlist_pos : 0 < manifest.nlist
  ntotal_pos : 0 < manifest.ntotal
  partitioned : Partitioned manifest.cidOffsets manifest.nlist
  nonempty : manifest.files ≠ []
  files : FilesAccepted manifest.cidOffsets manifest.files
  rows : (manifest.totalRows : ℤ) = manifest.ntotal
  rows_bound : manifest.totalRows < 2 ^ 64

theorem validate_iff {manifest : IvfPostingsManifest} :
    manifest.validate = .ok () ↔ manifest.Accepted := by
  have hwalk : ∀ {total}, validateFiles manifest.cidOffsets manifest.files [] none 0 = .ok total ↔
      FilesAccepted manifest.cidOffsets manifest.files ∧ manifest.totalRows = total ∧
        total < 2 ^ 64 := by
    intro total
    rw [(validateFiles_isWalk _).eq_ok_iff (Nat.two_pow_pos 64), Nat.zero_add]
    simp [totalRows]
  simp only [validate, rejectIf_bind_eq_ok, Bool.not_eq_true', Bool.not_eq_false, not_or, not_le,
    not_not, partitions_iff]
  simp only [bind_eq_ok, hwalk, rejectIf_eq_ok, not_not]
  constructor
  · rintro ⟨hversion, ⟨hlists, htotal⟩, hpartitioned, hnonempty, total, ⟨hfiles, rfl, hbound⟩,
      hrows⟩
    exact ⟨hversion, hlists, htotal, hpartitioned, hnonempty, hfiles, hrows, hbound⟩
  · intro haccepted
    exact ⟨haccepted.version, ⟨haccepted.nlist_pos, haccepted.ntotal_pos⟩, haccepted.partitioned,
      haccepted.nonempty, _, ⟨haccepted.files, rfl, haccepted.rows_bound⟩, haccepted.rows⟩

end IvfPostingsManifest

/-! ## What a reader relies on -/

/-- The range of the file contains the CID. -/
def IvfPostingsFile.Contains (file : IvfPostingsFile) (cid : ℤ) : Prop :=
  file.minCid ≤ cid ∧ cid ≤ file.maxCid

/-- How postings files are filed: by bucket, each with its range of CIDs. -/
def IvfPostingsFile.filing : Filing IvfPostingsFile ℤ ℤ where
  bucket := (·.cidBucket)
  lower := (·.minCid)
  upper := (·.maxCid)

/-- What bounds a scan that prunes files by their ranges. -/
structure ScanBounds (manifest : IvfPostingsManifest) : Prop where
  same_bucket : ∀ (i j : ℕ) (first second : IvfPostingsFile), i ≠ j →
    manifest.files[i]? = some first → manifest.files[j]? = some second →
    ∀ cid, first.Contains cid → second.Contains cid → first.cidBucket = second.cidBucket
  one_shared : ∀ (i j : ℕ) (first second : IvfPostingsFile), i ≠ j →
    manifest.files[i]? = some first → manifest.files[j]? = some second →
    ∀ cid other, first.Contains cid ∧ second.Contains cid →
      first.Contains other ∧ second.Contains other → cid = other
  one_bucket : ∀ file ∈ manifest.files, ∃ bucket : ℕ, (bucket : ℤ) = file.cidBucket ∧
    ∀ other, RangeWithin manifest.cidOffsets file.minCid file.maxCid other ↔ other = bucket
  one_run : ∀ cid, ∃ before run after, manifest.files = before ++ run ++ after ∧
    (∀ file ∈ run, file.Contains cid) ∧ ∀ file ∈ before ++ after, ¬ file.Contains cid
  rows : (manifest.totalRows : ℤ) = manifest.ntotal

theorem bucket_le_of_keyBefore {previous current : ℤ × ℤ × ℤ × String}
    (hbefore : keyBefore previous current = true) : previous.1 ≤ current.1 := by
  simp only [keyBefore, Bool.or_eq_true, Bool.and_eq_true, decide_eq_true_eq] at hbefore
  rcases hbefore with hlt | ⟨heq, -⟩
  · exact hlt.le
  · exact heq.le

/-- A file that precedes another one is filed before it. -/
theorem IvfPostingsFile.Precedes.follows {previous current : IvfPostingsFile}
    (hprecedes : previous.Precedes current) (hprevious : previous.Accepted cidOffsets)
    (hcurrent : current.Accepted cidOffsets) : filing.Follows previous current where
  previous_proper := hprevious.bucketed.proper
  current_proper := hcurrent.bucketed.proper
  ordered := by
    have hbucket : previous.cidBucket ≤ current.cidBucket :=
      bucket_le_of_keyBefore hprecedes.ordered
    rcases lt_or_eq_of_le hbucket with hlt | heq
    · exact Or.inl hlt
    · exact Or.inr ⟨heq, hprecedes.overlap heq⟩

namespace IvfPostingsManifest

variable {manifest : IvfPostingsManifest}

theorem Partitioned.increasing {cidOffsets : List ℤ} {nlist : ℤ}
    (hpartitioned : Partitioned cidOffsets nlist) : cidOffsets.Pairwise (· < ·) :=
  pairwise_lt_of_neighbours hpartitioned.neighbours

/-- Any two files, not only neighbours. -/
theorem Accepted.pairwise (haccepted : manifest.Accepted) :
    manifest.files.Pairwise IvfPostingsFile.filing.Follows := by
  refine Filing.pairwise_of_isChain (haccepted.files.neighbours.imp_of_mem_imp ?_)
  intro previous current hprevious hcurrent hprecedes
  exact hprecedes.follows (haccepted.files.each previous hprevious)
    (haccepted.files.each current hcurrent)

/-- A range of a smaller bucket ends before a range of a larger one. -/
theorem Accepted.separated (haccepted : manifest.Accepted) :
    IvfPostingsFile.filing.Separated manifest.files := by
  intro previous hprevious current hcurrent hlt
  have hbucketed := (haccepted.files.each previous hprevious).bucketed
  have hbucketed' := (haccepted.files.each current hcurrent).bucketed
  obtain ⟨-, last, -, hlast, -, hupper⟩ := hbucketed.within
  obtain ⟨first, -, hfirst, -, hlower, -⟩ := hbucketed'.within
  have hincreasing := Partitioned.increasing haccepted.partitioned
  have hnext : previous.cidBucket.toNat + 1 ≤ current.cidBucket.toNat := by
    have hnonneg := hbucketed.nonneg
    change previous.cidBucket < current.cidBucket at hlt
    omega
  have hle := offset_le_of_le hincreasing hnext hlast hfirst
  exact lt_of_lt_of_le hupper (hle.trans hlower)

/-- A range lies in the bucket of its file only. -/
theorem Accepted.one_bucket (haccepted : manifest.Accepted) {file : IvfPostingsFile}
    (hfile : file ∈ manifest.files) : ∃ bucket : ℕ, (bucket : ℤ) = file.cidBucket ∧
      ∀ other, RangeWithin manifest.cidOffsets file.minCid file.maxCid other ↔ other = bucket := by
  have hbucketed := (haccepted.files.each file hfile).bucketed
  refine ⟨file.cidBucket.toNat, Int.toNat_of_nonneg hbucketed.nonneg, fun other => ?_⟩
  constructor
  · rintro ⟨lower, upper, hlower, hupper, hle, hlt⟩
    obtain ⟨lower', upper', hlower', hupper', hle', hlt'⟩ := hbucketed.within
    have hproper := hbucketed.proper
    exact range_unique (Partitioned.increasing haccepted.partitioned) hlower hupper hlower' hupper'
      ⟨hle, by omega⟩ ⟨hle', lt_of_le_of_lt hproper hlt'⟩
  · rintro rfl
    exact hbucketed.within

theorem scanBounds_of_validate (hvalid : manifest.validate = .ok ()) : ScanBounds manifest := by
  have haccepted := validate_iff.mp hvalid
  have hpairwise := haccepted.pairwise
  have hseparated := haccepted.separated
  exact {
    same_bucket := fun i j first second hne hfirst hsecond cid hcid hcid' =>
      Filing.bucket_eq_of_shared hpairwise hseparated hne hfirst hsecond hcid hcid'
    one_shared := fun i j first second hne hfirst hsecond cid other hcid hother =>
      Filing.eq_of_shared hpairwise hseparated hne hfirst hsecond hcid hother
    one_bucket := fun file hfile => haccepted.one_bucket hfile
    one_run := fun cid => Filing.exists_run_holding hpairwise hseparated cid
    rows := haccepted.rows }

end IvfPostingsManifest

end ParqDB.Meta
