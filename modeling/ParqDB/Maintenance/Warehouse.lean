import ParqDB.Foundations.KeyedTable
import ParqDB.Foundations.PercentDecoding
import ParqDB.Meta.Metadata

/-!
# The warehouse

Objects below the warehouse root, the locations that name them
(`parqdb-storage/src/warehouse.rs`) and the two layouts the local backend gives to
object paths: metadata documents and snapshot roots
(`parqdb-local/src/maintenance.rs`, `snapshot_root` and `is_metadata_filename`).

**What is a parameter.**  `Warehouse.join` and `Warehouse.managed` stand for the `url`
crate and the storage registry: writing the URI of a path below the root, and
resolving a URI to a path below the root.  Nothing is assumed of them: a URI need not lead
back to the path that it was written for, as `%31` is read as `1` (`Warehouse.ReadsBack`).
`Storage.Addressing.OpenedWarehouse.names` is the warehouse of a URL parser and a registry.
-/

namespace ParqDB.Storage

open Foundations Meta

/-! ## Objects -/

/-- The segments of an object path below the warehouse root. -/
abbrev ObjectPath := List String

/-- What an object holds: a valid document, or anything else. -/
inductive Content
  | index (metadata : IndexMetadata)
  | centroids (metadata : IvfCentroidsMetadata)
  | data
deriving DecidableEq

/-- One object of the store. -/
structure Object where
  path : ObjectPath
  modifiedMs : ℤ
  content : Content
deriving DecidableEq

/-- The objects below the warehouse root; a path names at most one. -/
abbrev Store := KeyedTable Object.path

/-! ## Locations -/

/-- A path that `validate_relative` accepts. -/
def validPath (path : ObjectPath) : Bool :=
  !path.isEmpty && path.all fun segment =>
    segment ≠ "" && segment ≠ "." && segment ≠ ".." && !segment.toList.contains '/'

/-- The text ends in a slash. -/
def endsWithSlash (text : String) : Bool := text.toList.getLast? = some '/'

/-- The segments of a text, less one trailing slash. -/
def segmentsOf (chars : List Char) : ObjectPath :=
  ((if chars.getLast? = some '/' then chars.dropLast else chars).splitOn '/').map String.ofList

/-- The segments of a relative location. -/
def segments (relative : String) : ObjectPath := segmentsOf relative.toList

/-- The relative location of a path. -/
def relativeText (path : ObjectPath) (directory : Bool) : String :=
  String.ofList (['/'].intercalate (path.map String.toList) ++ if directory then ['/'] else [])

/-- A managed URI prefix containing metadata and index data. -/
structure Warehouse where
  /-- The URI of a path below the root; `true` adds a trailing slash. -/
  join : ObjectPath → Bool → Option String
  /-- The path of a URI below the root, and whether it has a trailing slash; the path of the root
  itself is empty. -/
  managed : String → Option (ObjectPath × Bool)
  /-- The root is the root of its object store. -/
  isStore : Bool

namespace Warehouse

variable (warehouse : Warehouse)

/-- The URI of a valid path. -/
def locate (path : ObjectPath) (directory : Bool) : Option String :=
  if validPath path then warehouse.join path directory else none

/-- Returns an absolute URI below the warehouse root. -/
def location (relative : String) (directory : Bool) : Option String :=
  warehouse.locate (segments relative) directory

/-- The path of a URI below the root; the root has none, unless it is that of its store. -/
def relativePath (location : String) : Option (ObjectPath × Bool) :=
  (warehouse.managed location).filter fun resolved => !resolved.1.isEmpty || warehouse.isStore

/-- Returns a warehouse-relative object path for a managed URI. -/
def relativeLocation (location : String) : Option String :=
  (warehouse.relativePath location).map fun resolved => relativeText resolved.1 resolved.2

/-- Resolves a warehouse-relative path of a metadata document (`resolve_warehouse_location`,
as every caller asks for a directory exactly when the path ends in a slash). -/
def resolveWarehouseLocation (relative : String) : Option String :=
  match validateRelativeLocation relative with
  | .error _ => none
  | .ok () => warehouse.location relative (endsWithSlash relative)

/-- The URI of a path leads back to the path. -/
def ReadsBack (path : ObjectPath) : Prop :=
  ∀ directory location, warehouse.locate path directory = some location →
    warehouse.managed location = some (path, directory)

variable {warehouse} {path : ObjectPath} {directory : Bool} {location : String}

theorem validPath_of_locate (hlocate : warehouse.locate path directory = some location) :
    validPath path = true := by
  unfold locate at hlocate
  split at hlocate
  · assumption
  · cases hlocate

theorem ReadsBack.relativePath (hback : warehouse.ReadsBack path)
    (hlocate : warehouse.locate path directory = some location) :
    warehouse.relativePath location = some (path, directory) := by
  have hvalid := validPath_of_locate hlocate
  simp only [validPath, Bool.and_eq_true, Bool.not_eq_true'] at hvalid
  simp [Warehouse.relativePath, hback _ _ hlocate, hvalid.1]

/-- The warehouse that names some paths only. -/
def restrict (warehouse : Warehouse) (names : ObjectPath → Bool) : Warehouse :=
  { warehouse with
    join := fun path directory => if names path then warehouse.join path directory else none }

theorem restrict_readsBack {names : ObjectPath → Bool}
    (hnames : ∀ path, names path = true → warehouse.ReadsBack path) (path : ObjectPath) :
    (warehouse.restrict names).ReadsBack path := by
  intro directory location hlocate
  have hvalid := validPath_of_locate hlocate
  simp only [locate, restrict, hvalid, if_true] at hlocate
  split at hlocate
  · rename_i hname
    refine hnames path hname directory location ?_
    rw [locate, if_pos hvalid, hlocate]
  · cases hlocate

end Warehouse

/-! ## Relative locations of valid paths -/

variable {path : ObjectPath}

section

variable (hvalid : validPath path = true)

include hvalid

private theorem toList_segment {segment : String} (hsegment : segment ∈ path) :
    segment.toList ≠ [] ∧ '/' ∉ segment.toList := by
  simp only [validPath, Bool.and_eq_true, List.all_eq_true, Bool.not_eq_true',
    decide_eq_true_eq] at hvalid
  have hparts := hvalid.2 segment hsegment
  refine ⟨fun hempty => hparts.1.1.1 (by simpa using hempty), fun hslash => ?_⟩
  have hcontains : segment.toList.contains '/' = true := by simpa using hslash
  rw [hcontains] at hparts
  simp at hparts

private theorem getLast?_intercalate :
    (['/'].intercalate (path.map String.toList)).getLast? ≠ some '/' := by
  have hsegments : ∀ segment ∈ path, segment.toList ≠ [] ∧ '/' ∉ segment.toList :=
    fun segment => toList_segment hvalid
  clear hvalid
  induction path with
  | nil => simp
  | cons segment rest ih =>
      obtain ⟨hnonempty, hslash⟩ := hsegments segment List.mem_cons_self
      cases rest with
      | nil =>
          intro hlast
          simp only [List.map_cons, List.map_nil, List.intercalate_singleton] at hlast
          exact hslash (List.mem_of_getLast? hlast)
      | cons other rest =>
          have hrest := ih fun segment hsegment => hsegments segment (List.mem_cons_of_mem _ hsegment)
          have hne : ['/'].intercalate ((other :: rest).map String.toList) ≠ [] := by
            have hother := (hsegments other (by simp)).1
            cases rest <;> simp_all [List.intercalate]
          have hsplit : ['/'].intercalate ((segment :: other :: rest).map String.toList) =
              (segment.toList ++ ['/']) ++
                ['/'].intercalate ((other :: rest).map String.toList) := by
            rw [List.map_cons, List.map_cons, List.intercalate_cons_cons]
          rw [hsplit, List.getLast?_append_of_ne_nil _ hne]
          exact hrest

/-- Reading the relative location of a valid path gives its segments back. -/
theorem segments_relativeText
    (directory : Bool) : segments (relativeText path directory) = path := by
  have hlast := getLast?_intercalate hvalid
  have hchars : (relativeText path directory).toList =
      ['/'].intercalate (path.map String.toList) ++ if directory then ['/'] else [] :=
    String.toList_ofList
  have hstripped : (if (relativeText path directory).toList.getLast? = some '/' then
      (relativeText path directory).toList.dropLast else (relativeText path directory).toList) =
      ['/'].intercalate (path.map String.toList) := by
    rw [hchars]
    cases directory with
    | true => simp
    | false => simp [hlast]
  unfold segments segmentsOf
  rw [hstripped]
  have hne : path.map String.toList ≠ [] := by
    intro hempty
    have : path = [] := by simpa using hempty
    subst this
    simp [validPath] at hvalid
  rw [List.splitOn_intercalate '/' (fun segment hsegment => ?_) hne]
  · simp [Function.comp_def]
  · obtain ⟨text, htext, rfl⟩ := List.mem_map.mp hsegment
    exact (toList_segment hvalid htext).2

theorem endsWithSlash_relativeText
    (directory : Bool) : endsWithSlash (relativeText path directory) = directory := by
  unfold endsWithSlash relativeText
  rw [String.toList_ofList]
  cases directory with
  | true => simp
  | false => simpa using getLast?_intercalate hvalid

end

variable {directory : Bool} {warehouse : Warehouse} {crates : Crates} {root : ObjectPath}

theorem Warehouse.ReadsBack.relativeLocation {location : String}
    (hback : warehouse.ReadsBack path) (hlocate : warehouse.locate path directory = some location) :
    warehouse.relativeLocation location = some (relativeText path directory) := by
  unfold Warehouse.relativeLocation
  rw [hback.relativePath hlocate]
  rfl

/-- The relative location of a location below the root resolves to that location. -/
theorem Warehouse.location_relativeText {location : String}
    (hlocate : warehouse.locate path directory = some location) :
    warehouse.location (relativeText path directory)
      (endsWithSlash (relativeText path directory)) = some location := by
  have hvalid := validPath_of_locate hlocate
  unfold Warehouse.location
  rw [endsWithSlash_relativeText hvalid, segments_relativeText hvalid]
  exact hlocate

/-! ## A local warehouse -/

/-- The text after a leading `start`. -/
def afterStart (start text : List Char) : Option (List Char) :=
  if start.isPrefixOf text then some (text.drop start.length) else none

theorem afterStart_append (start text : List Char) : afterStart start (start ++ text) = some text := by
  simp [afterStart]

/-- A segment of a URI as it is read: percent-decoded. -/
def decodeSegment (segment : String) : String :=
  if segment.toList.contains '%' then
    String.ofList (Whatwg.decodeReplace (Whatwg.percentBytes segment.toList))
  else segment

/-- The warehouse rooted at `file:///w/`, on paths that need no percent encoding. -/
def fileWarehouse : Warehouse where
  join path directory := some ("file:///w/" ++ relativeText path directory)
  managed location := (afterStart "file:///w/".toList location.toList).map fun rest =>
    (if rest = [] then []
      else if rest.contains '%' then (segmentsOf rest).map decodeSegment else segmentsOf rest,
      rest.isEmpty || rest.getLast? = some '/')
  isStore := false

/-- A path without percent signs. -/
def plainPath (path : ObjectPath) : Bool := path.all fun segment => !segment.toList.contains '%'

theorem fileWarehouse_readsBack (path : ObjectPath) (hplain : plainPath path = true) :
    fileWarehouse.ReadsBack path := by
  intro directory location hlocate
  have hvalid := Warehouse.validPath_of_locate hlocate
  rw [Warehouse.locate, if_pos hvalid] at hlocate
  cases hlocate
  have hdecoded : path.map decodeSegment = path := by
    refine (List.map_congr_left fun segment hsegment => ?_).trans (List.map_id _)
    have hfree := List.all_eq_true.mp hplain segment hsegment
    rw [Bool.not_eq_true'] at hfree
    rw [decodeSegment, hfree]
    rfl
  have hsegments : segmentsOf (relativeText path directory).toList = path :=
    segments_relativeText hvalid directory
  have hne : (relativeText path directory).toList ≠ [] := by
    intro hempty
    rw [hempty] at hsegments
    rw [← hsegments] at hvalid
    exact absurd hvalid (by decide)
  have hslash : ((relativeText path directory).toList.isEmpty ||
      (relativeText path directory).toList.getLast? = some '/') = directory := by
    rw [List.isEmpty_eq_false_iff.mpr hne, Bool.false_or]
    exact endsWithSlash_relativeText hvalid directory
  simp only [fileWarehouse, String.toList_append, afterStart_append, Option.map_some, hslash,
    hsegments, hdecoded, if_neg hne, ite_self]

/-! ## Layout of object paths -/

/-- An unsigned decimal number as `parse` accepts it: an optional plus sign and digits. -/
def parseUnsigned (chars : List Char) : Option ℕ :=
  let digits := if chars.head? = some '+' then chars.tail else chars
  if !digits.isEmpty && digits.all Char.isDigit then some (decimalValue digits) else none

/-- The snapshot root above a path: `indexes/<uuid>/<snapshot id>`. -/
def rootPath (crates : Crates) : ObjectPath → Option ObjectPath
  | indexes :: uuid :: snapshot :: _ =>
      if indexes = "indexes" && uuid.utf8ByteSize = 32 && (crates.parseUuid uuid).isSome &&
          (parseUnsigned snapshot.toList).any (fun id => 0 < id && id < 2 ^ 63) then
        some [indexes, uuid, snapshot]
      else none
  | _ => none

/-- A file name `v<version>[-…].metadata.json` with a positive version. -/
def isMetadataFilename (value : String) : Bool :=
  let suffix := ".metadata.json".toList
  match value.toList with
  | 'v' :: rest =>
      suffix.isSuffixOf rest &&
        (parseUnsigned ((rest.take (rest.length - suffix.length)).takeWhile (· ≠ '-'))).any
          fun version => 0 < version && version < 2 ^ 64
  | _ => false

/-- The path of a metadata document: `metadata/<uuid>/<file name>`. -/
def isMetadataPath (crates : Crates) : ObjectPath → Bool
  | [metadata, uuid, filename] =>
      metadata = "metadata" && (crates.parseUuid uuid).isSome && isMetadataFilename filename
  | _ => false

/-- The root of a path starts with it. -/
theorem rootPath_eq_some (hroot : rootPath crates path = some root) :
    ∃ rest, path = root ++ rest ∧ root.length = 3 ∧ root.head? = some "indexes" := by
  unfold rootPath at hroot
  split at hroot
  · rename_i indexes uuid snapshot rest
    split at hroot
    · rename_i hcheck
      cases hroot
      simp only [Bool.and_eq_true, decide_eq_true_eq] at hcheck
      exact ⟨rest, rfl, rfl, congrArg some hcheck.1.1.1⟩
    · cases hroot
  · cases hroot

/-- A root is its own root, and so is it of everything below it. -/
theorem rootPath_append (rest : ObjectPath)
    (hroot : rootPath crates path = some root) : rootPath crates (root ++ rest) = some root := by
  unfold rootPath at hroot
  split at hroot
  · split at hroot
    · rename_i hcheck
      cases hroot
      simp only [rootPath, List.cons_append]
      rw [if_pos hcheck]
    · cases hroot
  · cases hroot

end ParqDB.Storage
