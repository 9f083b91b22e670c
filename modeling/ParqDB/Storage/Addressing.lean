import ParqDB.Foundations.PercentDecoding
import ParqDB.Foundations.UrlTexts
import ParqDB.Meta.Metadata

/-!
# Resolving stored locations

The three functions that turn a path of a metadata document or a manifest into a location:
`resolve_warehouse_location` and `resolve_artifact_object`
(`parqdb-index/src/repository.rs`) and `child_location` (`parqdb-local/src/parquet/mod.rs`).
Each of them hands the path to `Url::join`, the URL parser with a base.

**Sites.**  A `Base` is an absolute location that `validate_absolute_location` accepts,
split into the directory of its path and its last segment; a root is a base whose path
ends in a slash.  A `Site` is one of the three functions with its base.
-/

namespace ParqDB.Storage.Locations

open Foundations Foundations.Whatwg Meta

/-! ## The resolvers -/

/-- What `validate_absolute_location` asks a parsed URL for. -/
def view (url : Whatwg.Url) : Meta.Url where
  scheme := String.ofList url.scheme
  hasHost := url.authority.any fun authority => !authority.host.isEmpty
  username := String.ofList (url.authority.elim [] Authority.username)
  password := (url.authority.map Authority.password).bind fun password =>
    if password.isEmpty then none else some (String.ofList password)
  query := url.query.map String.ofList
  fragment := url.fragment.map String.ofList

/-- The crates, with the URL parser in place. -/
def urlCrates (hosts : HostParser) (crates : Crates) : Crates :=
  { crates with parseUrl := fun location => (parse hosts none location.toList).map view }

/-- Ends the path of a URL in a slash. -/
def slashed (url : Whatwg.Url) : Whatwg.Url :=
  if url.pathText.getLast? = some '/' then url else url.setPath (url.pathText ++ ['/'])

variable (hosts : HostParser) (crates : Crates)

/-- Resolves one path below a base URI: the body of `child_location`. -/
def childUrl (base child : String) (directory : Bool) : Except String Whatwg.Url := do
  let base ← parse hosts none base.toList
  let location ← parse hosts (some (slashed base)) child.toList
  return if directory then slashed location else location

def childLocation (base child : String) (directory : Bool) : Except String String := do
  let location ← childUrl hosts base child directory
  return String.ofList location.text

/-- Resolves one validated warehouse-relative path below a warehouse URI. -/
def warehouseUrl (warehouseRoot relative : String) (directory : Bool) :
    Except String Whatwg.Url := do
  validateRelativeLocation relative
  childUrl hosts warehouseRoot relative directory

def resolveWarehouseLocation (warehouseRoot relative : String) (directory : Bool) :
    Except String String := do
  let resolved ← warehouseUrl hosts warehouseRoot relative directory
  return String.ofList resolved.text

/-- Resolves one manifest-relative artifact object without listing its prefix. -/
def artifactUrl (manifestLocation relative : String) : Except String Whatwg.Url := do
  validateAbsoluteLocation (urlCrates hosts crates) manifestLocation
  validateRelativeLocation relative
  let manifest ← parse hosts none manifestLocation.toList
  parse hosts (some manifest) relative.toList

def resolveArtifactObject (manifestLocation relative : String) : Except String String := do
  let resolved ← artifactUrl hosts crates manifestLocation relative
  return String.ofList resolved.text

/-! ## Sites -/

/-- An absolute location to resolve against. -/
structure Base where
  text : String
  url : Whatwg.Url
  parsed : parse hosts none text.toList = .ok url
  valid : validateAbsoluteLocation (urlCrates hosts crates) text = .ok ()
  directory : List Text
  name : Text
  path : url.path = .segments (directory ++ [name])

/-- A base whose path ends in a slash. -/
def Base.IsRoot {hosts : HostParser} {crates : Crates} (base : Base hosts crates) : Prop :=
  base.name = []

/-- One of the resolvers, with the location it resolves against. -/
inductive Site
  | warehouse (root : Base hosts crates) (isRoot : root.IsRoot) (directory : Bool)
  | child (root : Base hosts crates) (isRoot : root.IsRoot) (directory : Bool)
  | artifact (manifest : Base hosts crates)

namespace Site

variable {hosts crates}

/-- The base of a site. -/
def base : Site hosts crates → Base hosts crates
  | .warehouse root _ _ => root
  | .child root _ _ => root
  | .artifact manifest => manifest

/-- The root that locations of a site are meant to stay below. -/
def root (site : Site hosts crates) : Whatwg.Url :=
  { site.base.url with path := .segments (site.base.directory ++ [[]]) }

/-- The URL that a path resolves to. -/
def url (site : Site hosts crates) (relative : String) : Except String Whatwg.Url :=
  match site with
  | .warehouse root _ directory => warehouseUrl hosts root.text relative directory
  | .child root _ directory => childUrl hosts root.text relative directory
  | .artifact manifest => artifactUrl hosts crates manifest.text relative

/-- The location that a path resolves to. -/
def location (site : Site hosts crates) (relative : String) : Except String String :=
  match site with
  | .warehouse root _ directory => resolveWarehouseLocation hosts root.text relative directory
  | .child root _ directory => childLocation hosts root.text relative directory
  | .artifact manifest => resolveArtifactObject hosts crates manifest.text relative

theorem location_eq (site : Site hosts crates) (relative : String) :
    site.location relative = (site.url relative).map fun url => String.ofList url.text := by
  cases site with
  | warehouse root _ directory =>
      simp only [location, url, resolveWarehouseLocation]
      cases warehouseUrl hosts root.text relative directory <;> rfl
  | child root _ directory =>
      simp only [location, url, childLocation]
      cases childUrl hosts root.text relative directory <;> rfl
  | artifact manifest =>
      simp only [location, url, resolveArtifactObject]
      cases artifactUrl hosts crates manifest.text relative <;> rfl

end Site

/-! ## Confinement -/

/-- A location below a root: same scheme and authority, and the root as a path prefix. -/
structure Below (root location : Whatwg.Url) : Prop where
  scheme : location.scheme = root.scheme
  authority : location.authority = root.authority
  path : root.pathText <+: location.pathText

namespace Site

variable {hosts crates}

/-- The path resolves, to a location below the root. -/
def Confines (site : Site hosts crates) (relative : String) : Prop :=
  ∃ url, site.url relative = .ok url ∧ Below site.root url

/-- Two different paths resolve to different locations. -/
def Separates (site : Site hosts crates) (first second : String) : Prop :=
  ∀ location, site.location first = .ok location → site.location second = .ok location →
    first = second

end Site

/-! ## Paths that the URL parser reads as paths -/

/-- The code points of a path that the URL parser does not ignore. -/
def kept (relative : String) : Text := clean relative.toList

/-- The URL parser finds no scheme, no root and no drive in the path, and its dot
segments, which can only be percent-encoded ones, do not climb out of it. -/
structure Relative (relative : String) : Prop where
  scheme : scheme? (kept relative) = none
  root : (kept relative).head? ≠ some '/'
  drive : startsWithDriveLetter (kept relative) = false
  stays : climbs 0 (encodedSegments false (kept relative)) = false

/-- Ends a list of segments in an empty one. -/
def closed (segments : List Text) : List Text :=
  if segments.getLast? = some [] then segments else segments ++ [[]]

/-- The spelling of a path below the directory of a base: percent-encoded, without ignored
code points and without dot segments.  A path of ignored code points spells the base. -/
def Base.spelling {hosts : HostParser} {crates : Crates} (base : Base hosts crates)
    (relative : String) : List Text :=
  -- only at the root of a `file` URL can a segment become a drive
  let drive := base.url.scheme = file && base.directory.isEmpty
  if kept relative = [] then [base.name]
  else walk drive (shorten drive [base.name]) (encodedSegments false (kept relative))

/-- The spelling of a path at a site. -/
def Site.spelling {hosts : HostParser} {crates : Crates} (site : Site hosts crates)
    (relative : String) : List Text :=
  match site with
  | .warehouse root _ directory =>
      if directory then closed (root.spelling relative) else root.spelling relative
  | .child root _ directory =>
      if directory then closed (root.spelling relative) else root.spelling relative
  | .artifact manifest => manifest.spelling relative

end ParqDB.Storage.Locations

/-!
## Object paths and locations

How a location becomes a path of an object store (`StorageRegistry::resolve` in
`parqdb-storage/src/registry.rs`), on texts: the path of the URL is percent-decoded and split
into segments.

**What is a parameter.**  `ObjectStoreCrate` stands for the path type of the `object_store` crate
(`Documented` says what its documentation promises), and `StorageRegistry.clients` for the
clients that are registered or can be built.
-/

namespace ParqDB.Storage.Addressing

open Foundations Foundations.Whatwg Storage.Locations

inductive Error
  | invalidLocation (message : Text)
  | objectStore (message : Text)
deriving DecidableEq

/-! ## Object paths -/

/-- The object-store crate: reading the path of a URL as an object path. -/
structure ObjectStoreCrate where
  fromUrlPath : Text → Except Text Text

/-- A segment of an object path: nonempty, no dot segment, without ASCII control characters. -/
def validPart (part : Text) : Bool :=
  !part.isEmpty && part ≠ ['.'] && part ≠ ['.', '.'] &&
    part.all fun c => c ≠ '/' && 0x20 ≤ c.toNat && c.toNat ≠ 0x7F

/-- A path of valid segments between slashes, or the empty path. -/
def validPath (path : Text) : Bool := path.isEmpty || (path.splitOn '/').all validPart

/-- Drops one slash at either end, and checks the segments. -/
def parsePath (text : Text) : Option Text :=
  let stripped := (text.dropPrefix? ['/']).getD text
  if stripped.isEmpty then some []
  else
    let stripped := (stripped.dropSuffix? ['/']).getD stripped
    if (stripped.splitOn '/').all validPart then some stripped else none

/-- The path of a URL is percent-decoded to UTF-8 and parsed. -/
def ObjectStoreCrate.Documented (crate : ObjectStoreCrate) : Prop :=
  ∀ path object, crate.fromUrlPath path = .ok object ↔
    ∃ decoded, percentBytes path = utf8Bytes decoded ∧ parsePath decoded = some object

/-! ## The registry -/

def s3 : Text := ['s', '3']

def hdfs : Text := ['h', 'd', 'f', 's']

def cannotBeABase (uri : Whatwg.Url) : Bool :=
  match uri.path with
  | .segments _ => false
  | .verbatim _ => true

def hostStr (uri : Whatwg.Url) : Option Text :=
  (uri.authority.map Authority.host).filter fun host => !host.isEmpty

/-- The user name and the password are empty. -/
def anonymous (uri : Whatwg.Url) : Bool :=
  uri.authority.all fun authority => authority.username.isEmpty && authority.password.isEmpty

def parseLocation (hosts : HostParser) (location : Text) : Except Error Whatwg.Url :=
  match parse hosts none location with
  | .error message => .error (.invalidLocation message.toList)
  | .ok uri =>
      if !([file, s3, hdfs].contains uri.scheme) then
        .error (.invalidLocation ("unsupported URI scheme: ".toList ++ uri.scheme))
      else if cannotBeABase uri || !anonymous uri || uri.query.isSome || uri.fragment.isSome then
        .error (.invalidLocation location)
      else if uri.scheme ≠ file && (hostStr uri).isNone then
        .error (.invalidLocation (uri.scheme ++ " URI requires an authority".toList))
      else if uri.scheme = file && (hostStr uri).isSome then
        .error (.invalidLocation "file URI must not contain an authority".toList)
      else .ok uri

def baseUrl (uri : Whatwg.Url) : Whatwg.Url :=
  let base := { uri.setPath ['/'] with query := none, fragment := none }
  if base.scheme = file then
    { base with authority := base.authority.map fun authority => { authority with host := [] } }
  else base

structure ResolvedLocation where
  uri : Whatwg.Url
  baseUrl : Text
  path : Text

/-- Resolves URIs to store-relative paths.  `strict` says that its stores refuse to delete an
object that is not there. -/
structure StorageRegistry where
  hosts : HostParser
  objectStore : ObjectStoreCrate
  clients : Text → Bool
  strict : Bool

def StorageRegistry.resolve (registry : StorageRegistry) (location : Text) :
    Except Error ResolvedLocation := do
  let uri ← parseLocation registry.hosts location
  let base := (baseUrl uri).text
  if !registry.clients base then .error (.objectStore base)
  else
    match registry.objectStore.fromUrlPath uri.pathText with
    | .error message => .error (.invalidLocation message)
    | .ok path => .ok ⟨uri, base, path⟩

end ParqDB.Storage.Addressing
