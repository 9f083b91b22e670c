import ParqDB.Catalog.Effects
import ParqDB.Foundations.LengthPrefixes

/-!
# The keys of an index identifier

A build lease is named by a hash of the identifier (`identifier_lease_key` of
`parqdb-local/src/coordination.rs`), and its catalog row by the JSON text of the namespace and the
name (`parqdb-catalog/src/identifier.rs`).

**What is a parameter.**  `Uuid::new_v5` of the `uuid` crate, which hashes bytes to a UUID.

**Results.**  `identifier_keys_distinct`: neither the bytes that are hashed nor the row key are
shared by two identifiers.
-/

namespace ParqDB.Session

open Foundations Catalog Meta

/-! ## Identifiers -/

/-- `IndexIdentifier::new`. -/
def newIdentifier («namespace» : List String) (name : String) :
    Except CatalogError IndexIdentifier :=
  if hempty : name = "" ∨ "" ∈ «namespace» then
    .error (.invalidIdentifier "namespace segments and name must be non-empty")
  else .ok ⟨«namespace», name, not_or.mp hempty⟩

/-- Every identifier is one that passes the validation. -/
theorem newIdentifier_eq_ok (identifier : IndexIdentifier) :
    newIdentifier identifier.namespace identifier.name = .ok identifier := by
  rw [newIdentifier, dif_neg (not_or.mpr identifier.nonempty)]

/-- An identifier in memory: an allocation has at most `isize::MAX` bytes. -/
structure AllocatedIdentifier extends IndexIdentifier where
  allocated : ∀ segment ∈ «namespace» ++ [name], segment.utf8ByteSize < 2 ^ 63

theorem AllocatedIdentifier.ext_segments {left right : AllocatedIdentifier}
    (hsame : left.namespace ++ [left.name] = right.namespace ++ [right.name]) : left = right := by
  obtain ⟨⟨leftNamespace, leftName, _⟩, _⟩ := left
  obtain ⟨⟨rightNamespace, rightName, _⟩, _⟩ := right
  dsimp only at hsame
  obtain ⟨rfl, hname⟩ := List.append_inj' hsame rfl
  obtain rfl := List.singleton_injective hname
  rfl

/-! ## Lease keys -/

/-- The bytes of a text. -/
def segmentBytes (segment : String) : List UInt8 := segment.toByteArray.data.toList

theorem segmentBytes_injective : Function.Injective segmentBytes := by
  intro left right hsame
  exact String.toByteArray_inj.mp (ByteArray.ext (Array.toList_inj.mp hsame))

/-- The bytes that are hashed. -/
def leaseKeyBytes (identifier : IndexIdentifier) : List UInt8 :=
  (identifier.namespace ++ [identifier.name]).flatMap fun segment => framed (segmentBytes segment)

/-- `Uuid::NAMESPACE_OID`. -/
def namespaceOid : Uuid := 0x6ba7b8129dad11d180b400c04fd430c8

def identifierLeaseKey (newV5 : Uuid → List UInt8 → Uuid) (identifier : IndexIdentifier) : Uuid :=
  newV5 namespaceOid (leaseKeyBytes identifier)

/-- The segments are read back from the bytes, the name as the last one of them. -/
theorem leaseKeyBytes_injective :
    Function.Injective fun identifier : AllocatedIdentifier =>
      leaseKeyBytes identifier.toIndexIdentifier := by
  intro left right hsame
  have hshort : ∀ identifier : AllocatedIdentifier,
      ∀ bytes ∈ (identifier.namespace ++ [identifier.name]).map segmentBytes,
        bytes.length < 2 ^ 64 := by
    intro identifier bytes hbytes
    obtain ⟨segment, hsegment, rfl⟩ := List.mem_map.mp hbytes
    have hallocated := identifier.allocated segment hsegment
    have hsize : (segmentBytes segment).length = segment.utf8ByteSize := rfl
    omega
  have hframed : ∀ identifier : IndexIdentifier, leaseKeyBytes identifier =
      ((identifier.namespace ++ [identifier.name]).map segmentBytes).flatMap framed := by
    intro identifier
    rw [leaseKeyBytes, List.flatMap_map]
  have hbytes := flatMap_framed_inj (hshort left) (hshort right)
    ((hframed left.toIndexIdentifier).symm.trans (hsame.trans (hframed right.toIndexIdentifier)))
  exact AllocatedIdentifier.ext_segments (segmentBytes_injective.list_map hbytes)

/-- Two identifiers never share a row key, and share a lease key only if the hash takes two byte
strings to one UUID. -/
theorem identifier_keys_distinct (newV5 : Uuid → List UInt8 → Uuid)
    (left right : AllocatedIdentifier) :
    (leaseKeyBytes left.toIndexIdentifier = leaseKeyBytes right.toIndexIdentifier ↔
        left = right) ∧
      (identifierLeaseKey newV5 left.toIndexIdentifier =
          identifierLeaseKey newV5 right.toIndexIdentifier ↔
        left = right ∨
          (leaseKeyBytes left.toIndexIdentifier ≠ leaseKeyBytes right.toIndexIdentifier ∧
            newV5 namespaceOid (leaseKeyBytes left.toIndexIdentifier) =
              newV5 namespaceOid (leaseKeyBytes right.toIndexIdentifier))) ∧
      (∃ leftKey rightKey, left.toIndexIdentifier.namespaceKey = .ok leftKey ∧
        right.toIndexIdentifier.namespaceKey = .ok rightKey ∧
        (leftKey = rightKey ↔ left.namespace = right.namespace) ∧
        ((leftKey, left.name) = (rightKey, right.name) ↔ left = right)) := by
  have hbytes : leaseKeyBytes left.toIndexIdentifier = leaseKeyBytes right.toIndexIdentifier ↔
      left = right := by
    constructor
    · intro hsame
      exact leaseKeyBytes_injective hsame
    · rintro rfl
      rfl
  refine ⟨hbytes, ?_, _, _, left.toIndexIdentifier.namespaceKey_eq,
    right.toIndexIdentifier.namespaceKey_eq, Json.arrayText_injective.eq_iff, ?_⟩
  · rw [identifierLeaseKey, identifierLeaseKey, Ne, hbytes]
    constructor
    · intro hkey
      by_cases hsame : left = right
      · exact .inl hsame
      · exact .inr ⟨hsame, hkey⟩
    · rintro (rfl | ⟨-, hkey⟩)
      · rfl
      · exact hkey
  · rw [Prod.mk.injEq, Json.arrayText_injective.eq_iff]
    constructor
    · rintro ⟨hnamespace, hname⟩
      apply AllocatedIdentifier.ext_segments
      rw [hnamespace, hname]
    · rintro rfl
      exact ⟨rfl, rfl⟩

/-- The same characters, split in two ways. -/
example : leaseKeyBytes (⟨⟨["ab"], "c", by decide⟩, by decide⟩ : AllocatedIdentifier).1 ≠
    leaseKeyBytes (⟨⟨["a"], "bc", by decide⟩, by decide⟩ : AllocatedIdentifier).1 := by
  decide +kernel

end ParqDB.Session
