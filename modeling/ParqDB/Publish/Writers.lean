import Mathlib.Algebra.Order.Ring.Int
import Mathlib.Logic.Function.Basic
import ParqDB.Foundations.JsonValue
import ParqDB.Foundations.Outcome

/-!
# What a publication consists of

The objects that `publish` writes for an index artifact on the local disk, with the source
table and the model assets that go with it (`parqdb/publish.py`), and the manifest that
describes them.

The local files are a map from paths to contents and do not change while they are published.
What the publisher takes from its libraries is collected in `Library`.
-/

namespace ParqDB.Publish

open Foundations

abbrev Bytes := List UInt8

/-- The components of an absolute local path. -/
abbrev Path := List String

/-- The local files. -/
abbrev Files := Path → Option Bytes

inductive ErrorKind
  | valueError
  | keyError
  | typeError
  | assertionError
  | fileExistsError
  | osError
  | runtimeError
deriving DecidableEq

/-- An exception. -/
structure PublishError where
  kind : ErrorKind
  message : String
deriving DecidableEq

/-- A column of a Parquet file. -/
structure ParquetField where
  name : String
  int64 : Bool
  nullable : Bool

/-- What is read from a Parquet file: its columns, the rows of its row groups, and the values
of an integer column. -/
structure ParquetFile where
  fields : List ParquetField
  rowGroups : List ℕ
  values : String → List ℤ

/-- What the publisher uses of its libraries. -/
structure Library where
  loads : Bytes → Option JsonValue
  jsonBytes : JsonValue → Bytes
  str : JsonValue → String
  repr : String → String
  sha256 : Bytes → String
  parquetFile : Bytes → Option ParquetFile

/-- An object to publish, with a local file or a content of its own. -/
structure Object where
  path : String
  source : Option Path
  content : Option Bytes

/-- The bytes of an object. -/
def Object.bytes (files : Files) (object : Object) : Option Bytes :=
  match object.source with
  | some source => files source
  | none => some (object.content.getD [])

def Object.size (files : Files) (object : Object) : ℕ := ((object.bytes files).getD []).length

/-! ## Paths -/

/-- The components of a relative path. -/
def pathParts (value : String) : Path :=
  ((value.toList.splitOn '/').map String.ofList).filter fun part => part ≠ "" && part ≠ "."

/-- The text of a relative path. -/
def partsText (parts : Path) : String :=
  if parts = [] then "." else String.intercalate "/" parts

/-- The text of a local path. -/
def pathText (path : Path) : String := "/" ++ String.intercalate "/" path

def safeRelativePath (library : Library) (value : String) : Except PublishError String :=
  let parts := pathParts value
  if value = "" ∨ value.toList.head? = some '/' ∨ ".." ∈ parts ∨ partsText parts ≠ value then
    .error ⟨.valueError, "unsafe publication path: " ++ library.repr value⟩
  else .ok value

/-! ## The index artifact -/

variable (library : Library) (files : Files)

def loadIndexManifest (path : Path) : Except PublishError JsonValue :=
  match files path with
  | none => .error ⟨.valueError, "index manifest does not exist: " ++ pathText path⟩
  | some bytes =>
      match library.loads bytes with
      | none => .error ⟨.valueError, "invalid index manifest JSON"⟩
      | some (.object members) =>
          if (members.lookup "format-version").any (·.equalsNat 1) then
            match members.lookup "artifact-uuid" with
            | some (.string _) => .ok (.object members)
            | _ => .error ⟨.valueError, "index manifest is missing artifact-uuid"⟩
          else .error ⟨.valueError, "index manifest must be an artifact format version 1"⟩
      | some _ => .error ⟨.valueError, "index manifest must be an artifact format version 1"⟩

/-- The text of a value. -/
def valueText : JsonValue → String
  | .string value => value
  | value => library.str value

/-- An object descriptor must describe a local file. -/
def validateIndexObject (root : Path) : JsonValue → Except PublishError Unit
  | .object members => do
      let path := valueText library ((members.lookup "path").getD (.string ""))
      let relative ← safeRelativePath library path
      let found := root ++ pathParts relative
      match files found with
      | none => .error ⟨.valueError, "index object does not exist: " ++ pathText found⟩
      | some bytes => do
          rejectIf (¬ (members.lookup "size").any (·.equalsNat bytes.length) = true)
            ⟨.valueError, "index object size does not match manifest: " ++ relative⟩
          rejectIf (¬ (members.lookup "sha256").any (·.equalsString (library.sha256 bytes)) = true)
            ⟨.valueError, "index object SHA-256 does not match manifest: " ++ relative⟩
  | _ => .error ⟨.valueError, "index object descriptor must be an object"⟩

/-- A member that must be there. -/
def member (value : JsonValue) (key : String) : Except PublishError JsonValue :=
  match value.get? key with
  | some found => .ok found
  | none => .error ⟨.keyError, key⟩

/-- What iterating over a value yields. -/
def iterate : JsonValue → Except PublishError (List JsonValue)
  | .array items => .ok items
  | .object members => .ok (members.map fun entry => .string entry.1)
  | .string text => .ok (text.toList.map fun char => .string (String.singleton char))
  | _ => .error ⟨.typeError, "value after * must be an iterable"⟩

def validateIndexObjects (manifest : JsonValue) (root : Path) : Except PublishError Unit := do
  let hierarchy ← member manifest "hierarchy"
  let postings ← member manifest "postings"
  match hierarchy, postings with
  | .object _, .object _ => do
      let centroids ← member hierarchy "centroids"
      let postingsFiles ← member postings "files"
      let descriptors ← iterate postingsFiles
      (centroids :: descriptors).forM (validateIndexObject library files root)
  | _, _ => .error ⟨.assertionError, ""⟩

/-- The path of an object descriptor. -/
def descriptorPath : JsonValue → Except PublishError String
  | .object members =>
      match members.lookup "path" with
      | some (.string path) => safeRelativePath library path
      | _ => .error ⟨.valueError, "index object descriptor is missing a path"⟩
  | _ => .error ⟨.valueError, "index object descriptor is missing a path"⟩

def referencedIndexPaths (manifest : JsonValue) : Except PublishError (List String) :=
  match manifest.get? "hierarchy", manifest.get? "postings" with
  | some (.object hierarchy), some (.object postings) =>
      match postings.lookup "files" with
      | some (.array postingsFiles) =>
          ((hierarchy.lookup "centroids").getD .null :: postingsFiles).mapM
            (descriptorPath library)
      | _ => .error ⟨.valueError, "index manifest postings.files must be an array"⟩
  | _, _ => .error ⟨.valueError, "index manifest is missing hierarchy or postings"⟩

/-! ## The source table -/

/-- The keys are numbered in order, from `expected` on. -/
def validateSourceKey (expected : ℕ) : List ℤ → Except PublishError Unit
  | [] => .ok ()
  | value :: values =>
      if value = expected then validateSourceKey (expected + 1) values
      else .error ⟨.valueError, "source key must be dense and ordered from zero; expected " ++
        toString expected ++ ", got " ++ toString value⟩

/-- The manifest declares this one source key. -/
def isSourceKeyFields (sourceKey : String) : Option JsonValue → Bool
  | some (.array [.object members]) =>
      members.length = 2 && (members.lookup "name").any (·.equalsString sourceKey) &&
        (members.lookup "type").any (·.equalsString "long")
  | _ => false

def sourceDescriptor (source : Path) (sourceKey : String) (indexManifest : JsonValue) :
    Except PublishError JsonValue :=
  match files source with
  | none => .error ⟨.valueError, "source Parquet file does not exist: " ++ pathText source⟩
  | some bytes =>
      match library.parquetFile bytes with
      | none => .error ⟨.osError, "source is not a Parquet file"⟩
      | some parquet =>
          match parquet.fields.find? (·.name = sourceKey) with
          | none => .error ⟨.valueError, "source key column does not exist: " ++ sourceKey⟩
          | some field => do
              rejectIf (field.int64 = false)
                ⟨.valueError, "source key must be a non-null int64 column"⟩
              rejectIf (field.nullable = true) ⟨.valueError, "source key must be non-nullable"⟩
              let rows := parquet.rowGroups.sum
              rejectIf (rows = 0)
                ⟨.valueError, "source Parquet file must contain at least one row"⟩
              validateSourceKey 0 (parquet.values sourceKey)
              let index := (indexManifest.get? "index").getD .null
              rejectIf (¬ (index.get? "ntotal").any (·.equalsNat rows) = true)
                ⟨.valueError, "source rows do not match index ntotal"⟩
              rejectIf (isSourceKeyFields sourceKey (index.get? "source-key-fields") = false)
                ⟨.valueError, "source key does not match the index source-key-fields"⟩
              let rowGroupRows := parquet.rowGroups.headD 0
              rejectIf (∃ rows ∈ parquet.rowGroups.dropLast, rows ≠ rowGroupRows) ⟨.valueError,
                "all source row groups except the final group must be uniform"⟩
              pure (.object [
                ("rows", .integer rows),
                ("row-group-rows", .integer rowGroupRows),
                ("key", .object [("name", .string sourceKey), ("type", .string "long")]),
                ("columns", .array (parquet.fields.map fun field => .string field.name)),
                ("files", .array [.object [
                  ("path", .string (source.getLastD "")),
                  ("size", .integer bytes.length),
                  ("sha256", .string (library.sha256 bytes)),
                  ("row-begin", .integer 0),
                  ("row-end", .integer rows)]])])

/-! ## All objects -/

/-- A model asset, with its descriptor. -/
def modelAsset (asset : String × Path) : Except PublishError (Object × JsonValue) := do
  let relative ← safeRelativePath library asset.1
  match files asset.2 with
  | none => .error ⟨.valueError, "model asset does not exist: " ++ pathText asset.2⟩
  | some bytes => pure (⟨relative, some asset.2, none⟩, .object [
      ("path", .string relative),
      ("size", .integer bytes.length),
      ("sha256", .string (library.sha256 bytes))])

/-- The model assets, and what the manifest says of the embedding. -/
def embeddingObjects (embedding : Option JsonValue) (modelAssets : List (String × Path)) :
    Except PublishError (List Object × Option JsonValue) :=
  match embedding with
  | some embedding => do
      rejectIf (modelAssets = [])
        ⟨.valueError, "embedding publication requires model assets"⟩
      let assets ← modelAssets.mapM (modelAsset library files)
      pure (assets.map Prod.fst, some (embedding.set "assets" (.array (assets.map Prod.snd))))
  | none => do
      rejectIf (modelAssets ≠ [])
        ⟨.valueError, "model assets require an embedding descriptor"⟩
      pure ([], none)

/-- A document with a member set, if there is something to set. -/
def setOptional (document : JsonValue) (key : String) : Option JsonValue → JsonValue
  | some value => document.set key value
  | none => document

/-- The published manifest, and the objects it is published with. -/
def publicationParts (indexManifestPath : Path) (manifest : JsonValue)
    (source : Option (Path × JsonValue)) (embedding : Option JsonValue)
    (modelAssets : List (String × Path)) : Except PublishError (JsonValue × List Object) := do
  let root := indexManifestPath.dropLast
  validateIndexObjects library files manifest root
  let referenced ← referencedIndexPaths library manifest
  let objects := referenced.map fun path => (⟨path, some (root ++ pathParts path), none⟩ : Object)
  let publication := setOptional manifest "source" (source.map Prod.snd)
  let sources := source.toList.map fun source =>
    (⟨source.1.getLastD "", some source.1, none⟩ : Object)
  let (assets, described) ← embeddingObjects library files embedding modelAssets
  pure (setOptional publication "embedding" described, objects ++ sources ++ assets)

/-- All objects of a publication; the manifest comes last.  The document it is made of is
returned as well. -/
def publicationObjects (indexManifestPath : Path) (manifest : JsonValue)
    (source : Option (Path × JsonValue)) (embedding : Option JsonValue)
    (modelAssets : List (String × Path)) : Except PublishError (JsonValue × List Object) := do
  let (publication, objects) ← publicationParts library files indexManifestPath manifest source
    embedding modelAssets
  let objects := objects ++ [⟨"manifest.json", none, some (library.jsonBytes publication)⟩]
  objects.forM fun item =>
    rejectIf (item.bytes files = none)
      ⟨.valueError, "index object does not exist: " ++ pathText (item.source.getD [])⟩
  pure (publication, objects)

/-- No two objects have the same path. -/
def ensureUniquePaths (seen : List String) : List Object → Except PublishError Unit
  | [] => .ok ()
  | item :: objects =>
      if item.path ∈ seen then .error ⟨.valueError, "duplicate publication path: " ++ item.path⟩
      else ensureUniquePaths (item.path :: seen) objects

/-!
## Writing a publication

`publish` with the S3 writer (`parqdb/publish.py`), as a run in which the write of any object
may fail, before or after the object became visible, and any delete may fail.  The faults are
part of the input; each key is written and deleted at most once.

The HTTP check of a publication that is already committed is a parameter.
-/

/-- An S3 store: its objects, and the keys below which there are objects. -/
structure Store where
  objects : String → Option Bytes
  directories : String → Bool

namespace Store

def put (store : Store) (key : String) (bytes : Bytes) : Store :=
  { store with objects := Function.update store.objects key (some bytes) }

def delete (store : Store) (key : String) : Store :=
  { store with objects := Function.update store.objects key none }

/-- There is an object or a directory under the key. -/
def occupied (store : Store) (key : String) : Bool :=
  (store.objects key).isSome || store.directories key

end Store

/-- When the write of an object fails. -/
inductive WriteFault
  | before
  | after
deriving DecidableEq

/-- The writes that fail, and the deletes that fail. -/
structure Faults where
  write : String → Option WriteFault
  delete : String → Bool

/-- A delete whose error is swallowed. -/
def Store.tryDelete (faults : Faults) (store : Store) (key : String) : Store :=
  if faults.delete key then store else store.delete key

/-- The writer, with the store it writes to and the keys it has written. -/
structure S3Writer where
  destination : String
  store : Store
  written : List String

namespace S3Writer

variable (faults : Faults) (files : Files)

def path (destination relative : String) : String := destination ++ "/" ++ relative

def ensureEmpty (writer : S3Writer) (paths : List String) : Except PublishError Unit :=
  paths.forM fun relative =>
    rejectIf (writer.store.occupied (path writer.destination relative) = true)
      ⟨.fileExistsError, "destination object already exists: " ++ relative⟩

/-- Writes one object.  If that fails, what may have become visible is deleted. -/
def write (writer : S3Writer) (item : Object) : Option PublishError × S3Writer :=
  let key := path writer.destination item.path
  let failed (store : Store) : Option PublishError × S3Writer :=
    (some ⟨.osError, "write failed: " ++ key⟩,
      { writer with store := store.tryDelete faults key })
  match item.bytes files, faults.write key with
  | none, _ | some _, some .before => failed writer.store
  | some bytes, some .after => failed (writer.store.put key bytes)
  | some bytes, none =>
      (none, { writer with
        store := writer.store.put key bytes
        written := writer.written ++ [key] })

/-- Writes all objects, up to the first that fails. -/
def writeAll (writer : S3Writer) : List Object → Option PublishError × S3Writer
  | [] => (none, writer)
  | item :: objects =>
      match writer.write faults files item with
      | (none, writer) => writer.writeAll objects
      | (some error, writer) => (some error, writer)

def cleanupAfterFailure (writer : S3Writer) : Store :=
  writer.written.reverse.foldl (Store.tryDelete faults) writer.store

end S3Writer

/-- The arguments of `publish`, with the S3 destination as bucket and path. -/
structure Request where
  indexManifest : Path
  destination : String
  source : Option Path
  sourceKey : Option String
  embedding : Option JsonValue
  modelAssets : List (String × Path)
  publicUrl : Option String
  verifyHttp : Bool

structure PublicationResult where
  destination : String
  manifestUrl : Option String
  files : ℕ
  bytes : ℕ
deriving DecidableEq

section

variable (library : Library) (files : Files)

/-- The source and its descriptor. -/
def Request.describedSource (request : Request) (manifest : JsonValue) :
    Except PublishError (Option (Path × JsonValue)) :=
  match request.source, request.sourceKey with
  | some source, some sourceKey => do
      let descriptor ← sourceDescriptor library files source sourceKey manifest
      pure (some (source, descriptor))
  | none, none => pure none
  | _, _ => .error ⟨.valueError, "source and source_key must be provided together"⟩

/-- What `publish` does before it writes: the manifest document and the objects. -/
def Request.prepare (request : Request) : Except PublishError (JsonValue × List Object) := do
  let manifest ← loadIndexManifest library files request.indexManifest
  let source ← request.describedSource library files manifest
  let (publication, objects) ← publicationObjects library files request.indexManifest manifest
    source request.embedding request.modelAssets
  ensureUniquePaths [] objects
  pure (publication, objects)

/-- The address without the slashes at its end. -/
def trimSlashes (address : String) : String :=
  String.ofList (address.toList.reverse.dropWhile (· = '/')).reverse

/-- What `publish` does after the last write. -/
def Request.finish (request : Request) (verification : Option String) (objects : List Object) :
    Except PublishError PublicationResult :=
  let result (url : Option String) : PublicationResult :=
    { destination := request.destination
      manifestUrl := url
      files := objects.length
      bytes := (objects.map (Object.size files)).sum }
  match request.publicUrl with
  | none => .ok (result none)
  | some publicUrl =>
      match request.verifyHttp, verification with
      | true, some error => .error ⟨.runtimeError,
          "publication was committed, but public HTTP verification failed; " ++
          "do not retry the immutable destination (" ++ request.destination ++ "): " ++ error⟩
      | _, _ => .ok (result (some (trimSlashes publicUrl ++ "/manifest.json")))

/-- Publishes all objects; the manifest becomes visible last. -/
def publish (faults : Faults) (verification : Option String) (request : Request) (store : Store) :
    Except PublishError PublicationResult × Store :=
  match request.prepare library files with
  | .error error => (.error error, store)
  | .ok (_, objects) =>
      let writer : S3Writer := ⟨request.destination, store, []⟩
      match writer.ensureEmpty (objects.map Object.path) with
      | .error error => (.error error, store)
      | .ok () =>
          match writer.writeAll faults files objects with
          | (some error, writer) => (.error error, writer.cleanupAfterFailure faults)
          | (none, writer) => (request.finish files verification objects, writer.store)

end

/-!
## Runs of the S3 writer

What the store holds after the objects of a publication have been written up to the first
failure, and after the clean-up.

**Strategy.**  `S3Writer.deploy` is the store with objects written to it.  A run either writes
everything, or it stops at the first object that cannot be written (`writeAll_of_writes`,
`writeAll_of_fails`).  All keys are different, so that the value under each key can be read
off (`deploy_of_mem`, `cleanup_objects`).
-/

variable {faults : Faults} {files : Files} {destination : String}

namespace S3Writer

theorem path_injective (destination : String) : Function.Injective (path destination) := by
  intro first second heq
  unfold path at heq
  have hlists := congrArg String.toList heq
  simp only [String.toList_append, List.append_assoc, List.append_cancel_left_eq] at hlists
  exact String.toList_injective hlists

/-- The object can be written. -/
def Writes (faults : Faults) (files : Files) (destination : String) (item : Object) : Prop :=
  item.bytes files ≠ none ∧ faults.write (path destination item.path) = none

/-- The store with the objects in it. -/
def deploy (files : Files) (destination : String) (store : Store) (objects : List Object) : Store :=
  objects.foldl (fun store item =>
    store.put (path destination item.path) ((item.bytes files).getD [])) store

variable {item : Object} {writer : S3Writer}

theorem write_of_writes (hwrites : Writes faults files writer.destination item) :
    writer.write faults files item = (none, { writer with
      store := deploy files writer.destination writer.store [item]
      written := writer.written ++ [path writer.destination item.path] }) := by
  obtain ⟨hbytes, hfault⟩ := hwrites
  obtain ⟨bytes, hbytes⟩ := Option.ne_none_iff_exists'.mp hbytes
  simp [write, deploy, hbytes, hfault]

theorem writeAll_of_writes {objects : List Object}
    (hwrites : ∀ item ∈ objects, Writes faults files writer.destination item) :
    writer.writeAll faults files objects = (none, { writer with
      store := deploy files writer.destination writer.store objects
      written := writer.written ++
        objects.map fun item => path writer.destination item.path }) := by
  induction objects generalizing writer with
  | nil => simp [writeAll, deploy]
  | cons item objects ih =>
      rw [List.forall_mem_cons] at hwrites
      rw [writeAll, write_of_writes hwrites.1]
      dsimp only
      have hrest := @ih { writer with
        store := deploy files writer.destination writer.store [item]
        written := writer.written ++ [path writer.destination item.path] } hwrites.2
      rw [hrest]
      simp [deploy]

/-- The store after a failed write. -/
def failedStore (faults : Faults) (files : Files) (destination : String) (store : Store)
    (item : Object) : Store :=
  match item.bytes files, faults.write (path destination item.path) with
  | some bytes, some .after =>
      (store.put (path destination item.path) bytes).tryDelete faults (path destination item.path)
  | _, _ => store.tryDelete faults (path destination item.path)

theorem write_of_fails (hfails : ¬ Writes faults files writer.destination item) :
    ∃ error, writer.write faults files item = (some error, { writer with
      store := failedStore faults files writer.destination writer.store item }) := by
  unfold Writes at hfails
  cases hbytes : item.bytes files with
  | none => exact ⟨_, by simp only [write, failedStore, hbytes]; rfl⟩
  | some bytes =>
      cases hfault : faults.write (path writer.destination item.path) with
      | none => exact absurd ⟨by simp [hbytes], hfault⟩ hfails
      | some fault =>
          cases fault with
          | before => exact ⟨_, by simp only [write, failedStore, hbytes, hfault]; rfl⟩
          | after => exact ⟨_, by simp only [write, failedStore, hbytes, hfault]; rfl⟩

theorem writeAll_of_fails {left right : List Object} {item : Object} {writer : S3Writer}
    (hwrites : ∀ item ∈ left, Writes faults files writer.destination item)
    (hfails : ¬ Writes faults files writer.destination item) :
    ∃ error, writer.writeAll faults files (left ++ item :: right) = (some error, { writer with
      store := failedStore faults files writer.destination
        (deploy files writer.destination writer.store left) item
      written := writer.written ++ left.map fun item => path writer.destination item.path }) := by
  induction left generalizing writer with
  | nil =>
      obtain ⟨error, hwrite⟩ := write_of_fails hfails
      exact ⟨error, by simp [writeAll, hwrite, deploy]⟩
  | cons first left ih =>
      rw [List.forall_mem_cons] at hwrites
      rw [List.cons_append, writeAll, write_of_writes hwrites.1]
      dsimp only
      obtain ⟨error, hrest⟩ := @ih { writer with
        store := deploy files writer.destination writer.store [first]
        written := writer.written ++ [path writer.destination first.path] } hwrites.2 hfails
      exact ⟨error, by rw [hrest]; simp [deploy]⟩

/-- Either everything is written, or there is a first object that is not. -/
theorem writes_or_fails (faults : Faults) (files : Files) (destination : String)
    (objects : List Object) :
    (∀ item ∈ objects, Writes faults files destination item) ∨
      ∃ left item right, objects = left ++ item :: right ∧
        (∀ item ∈ left, Writes faults files destination item) ∧
        ¬ Writes faults files destination item := by
  classical
  induction objects with
  | nil => exact Or.inl (by simp)
  | cons first objects ih =>
      by_cases hfirst : Writes faults files destination first
      · rcases ih with hall | ⟨left, item, right, rfl, hleft, hitem⟩
        · exact Or.inl (List.forall_mem_cons.mpr ⟨hfirst, hall⟩)
        · exact Or.inr ⟨first :: left, item, right, rfl,
            List.forall_mem_cons.mpr ⟨hfirst, hleft⟩, hitem⟩
      · exact Or.inr ⟨[], first, objects, rfl, by simp, hfirst⟩

/-! ## The store, key by key -/

theorem deploy_of_not_mem {store : Store} {objects : List Object} {key : String}
    (hkey : ∀ item ∈ objects, path destination item.path ≠ key) :
    (deploy files destination store objects).objects key = store.objects key := by
  induction objects generalizing store with
  | nil => rfl
  | cons item objects ih =>
      rw [List.forall_mem_cons] at hkey
      rw [deploy, List.foldl_cons]
      exact (ih hkey.2).trans (Function.update_of_ne (Ne.symm hkey.1) _ _)

theorem deploy_of_mem {store : Store} {objects : List Object}
    (hunique : (objects.map Object.path).Nodup) {item : Object} (hitem : item ∈ objects) :
    (deploy files destination store objects).objects (path destination item.path) =
      some ((item.bytes files).getD []) := by
  induction objects generalizing store with
  | nil => cases hitem
  | cons first objects ih =>
      rw [List.map_cons, List.nodup_cons] at hunique
      rw [deploy, List.foldl_cons]
      rcases List.mem_cons.mp hitem with rfl | hrest
      · refine (deploy_of_not_mem fun other hother heq => hunique.1 ?_).trans
          (Function.update_self _ _ _)
        rw [← path_injective destination heq]
        exact List.mem_map_of_mem hother
      · exact ih hunique.2 hrest

theorem tryDelete_objects (store : Store) (key other : String) :
    (store.tryDelete faults key).objects other =
      if other = key ∧ faults.delete key = false then none else store.objects other := by
  unfold Store.tryDelete
  cases hdelete : faults.delete key with
  | true => simp
  | false =>
      by_cases heq : other = key
      · subst heq
        simp [Store.delete]
      · simp [Store.delete, heq]

theorem foldl_tryDelete_objects (keys : List String) (store : Store) (other : String) :
    (keys.foldl (Store.tryDelete faults) store).objects other =
      if other ∈ keys ∧ faults.delete other = false then none else store.objects other := by
  induction keys generalizing store with
  | nil => simp
  | cons key keys ih =>
      rw [List.foldl_cons, ih, tryDelete_objects]
      by_cases heq : other = key
      · subst heq
        cases hdelete : faults.delete other <;> simp
      · by_cases hmem : other ∈ keys <;> simp [heq, hmem]

/-- The store after the clean-up of a failed run. -/
theorem cleanup_objects (writer : S3Writer) (key : String) :
    (writer.cleanupAfterFailure faults).objects key =
      if key ∈ writer.written ∧ faults.delete key = false then none
      else writer.store.objects key := by
  rw [cleanupAfterFailure, foldl_tryDelete_objects]
  simp only [List.mem_reverse]

theorem failedStore_of_ne {store : Store} {key : String} (hne : key ≠ path destination item.path) :
    (failedStore faults files destination store item).objects key = store.objects key := by
  unfold failedStore
  split
  · rw [tryDelete_objects, if_neg (fun hkey => hne hkey.1)]
    exact Function.update_of_ne hne _ _
  · rw [tryDelete_objects, if_neg (fun hkey => hne hkey.1)]

end S3Writer

end ParqDB.Publish
