import Mathlib.Data.List.Basic
import Mathlib.Data.List.Nodup
import Mathlib.Data.String.Basic

/-!
# Ordered maps with string keys

A `SortedMap` lists its entries in strictly ascending key order, so that two maps
with the same bindings are equal and the entries are also the order in which the
map is iterated and written out.
-/

namespace ParqDB.Foundations

/-- Bindings in strictly ascending key order. -/
structure SortedMap (Value : Type) where
  entries : List (String × Value)
  sorted : (entries.map Prod.fst).Pairwise (· < ·)
deriving DecidableEq

namespace SortedMap

variable {Value : Type}

def empty : SortedMap Value := ⟨[], List.Pairwise.nil⟩

def keys (map : SortedMap Value) : List String := map.entries.map Prod.fst

def values (map : SortedMap Value) : List Value := map.entries.map Prod.snd

def get? (map : SortedMap Value) (key : String) : Option Value := map.entries.lookup key

def containsKey (map : SortedMap Value) (key : String) : Bool := (map.get? key).isSome

def size (map : SortedMap Value) : ℕ := map.entries.length

/-- Changes the values, or gives up if one of them cannot be changed. -/
def traverse? {Other : Type} (map : SortedMap Value) (change : Value → Option Other) :
    Option (SortedMap Other) :=
  if map.entries.all fun entry => (change entry.2).isSome then
    some ⟨map.entries.filterMap fun entry => (change entry.2).map (Prod.mk entry.1), by
      refine map.sorted.sublist ?_
      induction map.entries with
      | nil => simp
      | cons entry entries ih =>
          cases hchange : change entry.2 with
          | none => simpa [hchange] using ih.cons entry.1
          | some value => simpa [hchange] using ih⟩
  else none

/-- Replaces the value of a key the map has. -/
def replace (map : SortedMap Value) (key : String) (value : Value) : SortedMap Value :=
  ⟨map.entries.map fun entry => (entry.1, if entry.1 = key then value else entry.2), by
    have hkeys : (map.entries.map fun entry =>
        (entry.1, if entry.1 = key then value else entry.2)).map Prod.fst =
        map.entries.map Prod.fst := by
      rw [List.map_map]
      rfl
    rw [hkeys]
    exact map.sorted⟩

end SortedMap

end ParqDB.Foundations
