import ParqDB.Maintenance.Warehouse
import ParqDB.Storage.ObjectUris

/-!
# Locations of a warehouse

The bodies of `location`, `managed` and `object_location` (`parqdb-storage/src/warehouse.rs`):
the URL parser joins a path to the root, and the registry reads an object path from a URI.
They make a `Warehouse` (`OpenedWarehouse.names`), and the locations of that warehouse are those
of the source (`names_location`).  Not every object is read back under the URI that is written for
it (`escaped_name_not_read_back`).
-/

namespace ParqDB.Storage.Addressing

open Foundations Foundations.Whatwg Storage.Locations

def sameAuthority (left right : Whatwg.Url) : Bool :=
  left.scheme = right.scheme && hostStr left = hostStr right &&
    portOrKnownDefault left = portOrKnownDefault right
where
  portOrKnownDefault (url : Whatwg.Url) : Option ℕ :=
    (url.authority.bind Authority.port).or (defaultPort url.scheme)

def stripObjectPrefix (path start : Text) : Option Text :=
  let start := start.rdropWhile (· = '/')
  if start.isEmpty then some path else (path.dropPrefix? start).bind (·.dropPrefix? ['/'])

/-- A registry, and a root that ends in a slash and that the registry resolves. -/
structure OpenedWarehouse where
  registry : StorageRegistry
  root : Whatwg.Url
  directory : slashed root = root
  resolved : (registry.resolve root.text).isOk = true

namespace OpenedWarehouse

variable (warehouse : OpenedWarehouse)

/-- The URI of a path below the root. -/
def joined (relative : Text) (directory : Bool) : Except Error Text :=
  match parse warehouse.registry.hosts (some warehouse.root) relative with
  | .error message => .error (.invalidLocation message.toList)
  | .ok location => .ok (if directory then slashed location else location).text

/-- Returns an absolute URI below the warehouse root. -/
def location (relative : String) (directory : Bool) : Except Error Text := do
  rejectIf (!Storage.validPath (segments relative))
    (.invalidLocation ("invalid warehouse-relative path: ".toList ++ relative.toList))
  joined warehouse (stripped relative.toList) directory
where
  stripped (text : Text) : Text := if text.getLast? = some '/' then text.dropLast else text

/-- Resolves a warehouse-owned location. -/
def managed (location : Text) : Except Error ResolvedLocation := do
  let resolved ← warehouse.registry.resolve location
  rejectIf (!sameAuthority warehouse.root resolved.uri ||
      !warehouse.root.pathText.isPrefixOf resolved.uri.pathText)
    (.invalidLocation ("location is outside warehouse ".toList ++ warehouse.root.text ++
      ": ".toList ++ location))
  return resolved

/-- The locations of the warehouse, by the segments of their paths below the root. -/
def names : Warehouse where
  join path directory :=
    (joined warehouse (relativeText path false).toList directory).toOption.map String.ofList
  managed location := do
    let resolved ← (managed warehouse location.toList).toOption
    let top ← (warehouse.registry.resolve warehouse.root.text).toOption
    let relative ← if resolved.path = top.path then some []
      else stripObjectPrefix resolved.path top.path
    return (if relative = [] then [] else segmentsOf relative,
      resolved.uri.pathText.getLast? = some '/')
  isStore := (warehouse.registry.resolve warehouse.root.text).toOption.any (·.path.isEmpty)

theorem names_location (relative : String) (directory : Bool) :
    warehouse.names.location relative directory =
      (warehouse.location relative directory).toOption.map String.ofList := by
  have htext : (relativeText (segments relative) false).toList =
      location.stripped relative.toList := by
    simp only [relativeText, segments, segmentsOf, location.stripped, List.map_map,
      Function.comp_def, String.toList_ofList, List.map_id', List.intercalate_splitOn,
      Bool.false_eq_true, if_false, List.append_nil]
  unfold Warehouse.location Warehouse.locate location
  by_cases hvalid : Storage.validPath (segments relative) = true
  · rw [if_pos hvalid, rejectIf, if_neg (by rw [hvalid]; decide), ok_bind, ← htext, names]
  · rw [if_neg hvalid, rejectIf, if_pos (by simpa using hvalid)]
    rfl

end OpenedWarehouse

/-- The warehouse `file:///w/`. -/
def fileOpened : OpenedWarehouse where
  registry := ⟨⟨.ok, fun _ => .error "invalid IPv6 address"⟩, utf8Crate, fun _ => true, true⟩
  root := ⟨file, some ⟨[], [], [], none⟩, .segments [['w'], []], none, none⟩
  directory := by decide
  resolved := by decide +kernel

/-- The object `%37` is listed under a URI that names the object `7`. -/
theorem escaped_name_not_read_back : ¬ fileOpened.names.ReadsBack ["%37"] := by
  intro hback
  exact absurd (hback false "file:///w/%37" (by decide +kernel)) (by decide +kernel)

end ParqDB.Storage.Addressing
