import Mathlib.Algebra.BigOperators.Group.List.Basic
import Mathlib.Data.List.Nodup

/-!
# Linked hash maps

A map whose entries are in the order in which they were inserted or moved to the back.

Every operation comes with one lemma that says, up to the order, which entries it leaves
(`perm_toBack`, `perm_insert`, `perm_remove`, `perm_modify`); sums and counts over the
entries follow from these.
-/

namespace ParqDB.Foundations

variable {Key Value : Type*}

/-- Entries with pairwise different keys; the oldest is at the front. -/
structure LinkedMap (Key Value : Type*) where
  entries : List (Key × Value)
  uniqueKeys : (entries.map Prod.fst).Nodup

namespace LinkedMap

def empty : LinkedMap Key Value := ⟨[], List.nodup_nil⟩

def length (map : LinkedMap Key Value) : ℕ := map.entries.length

theorem nodup_entries (map : LinkedMap Key Value) : map.entries.Nodup :=
  map.uniqueKeys.of_map

variable {map : LinkedMap Key Value}

theorem eq_of_mem {key : Key} {left right : Value}
    (hleft : (key, left) ∈ map.entries) (hright : (key, right) ∈ map.entries) : left = right :=
  congrArg Prod.snd (List.inj_on_of_nodup_map map.uniqueKeys hleft hright rfl)

/-- Takes the oldest entry out. -/
def popFront (map : LinkedMap Key Value) : Option ((Key × Value) × LinkedMap Key Value) :=
  match hentries : map.entries with
  | [] => none
  | pair :: rest => some (pair, ⟨rest, by
      have hunique := map.uniqueKeys
      rw [hentries, List.map_cons, List.nodup_cons] at hunique
      exact hunique.2⟩)

theorem popFront_eq_none (hpop : map.popFront = none) :
    map.entries = [] := by
  unfold popFront at hpop
  split at hpop
  · assumption
  · cases hpop

variable {pair : Key × Value}

theorem entries_of_popFront {map rest : LinkedMap Key Value}
    (hpop : map.popFront = some (pair, rest)) : map.entries = pair :: rest.entries := by
  unfold popFront at hpop
  split at hpop
  · cases hpop
  · cases hpop
    assumption

variable [DecidableEq Key]

def get? (map : LinkedMap Key Value) (key : Key) : Option Value :=
  (map.entries.find? fun pair => pair.1 = key).map Prod.snd

theorem get?_eq_some_iff {key : Key} {value : Value} :
    map.get? key = some value ↔ (key, value) ∈ map.entries := by
  constructor
  · intro hget
    obtain ⟨pair, hfind, rfl⟩ := Option.map_eq_some_iff.mp hget
    have hkey : pair.1 = key := by simpa using List.find?_some hfind
    rw [← hkey]
    exact List.mem_of_find?_eq_some hfind
  · intro hmem
    cases hfind : map.entries.find? fun pair => pair.1 = key with
    | none => simpa using List.find?_eq_none.mp hfind _ hmem
    | some pair =>
        have hkey : pair.1 = key := by simpa using List.find?_some hfind
        have hpair : (key, pair.2) ∈ map.entries := by
          rw [← hkey]
          exact List.mem_of_find?_eq_some hfind
        rw [get?, hfind, Option.map_some, eq_of_mem hpair hmem]

theorem get?_eq_none_iff {key : Key} :
    map.get? key = none ↔ ∀ pair ∈ map.entries, pair.1 ≠ key := by
  simp [get?, List.find?_eq_none]

def remove (map : LinkedMap Key Value) (key : Key) : LinkedMap Key Value where
  entries := map.entries.filter fun pair => pair.1 ≠ key
  uniqueKeys := map.uniqueKeys.sublist (List.filter_sublist.map Prod.fst)

/-- Puts an entry at the back, in place of one with the same key. -/
def insert (map : LinkedMap Key Value) (key : Key) (value : Value) : LinkedMap Key Value where
  entries := (map.remove key).entries ++ [(key, value)]
  uniqueKeys := by
    rw [List.map_append, List.nodup_append]
    refine ⟨(map.remove key).uniqueKeys, List.nodup_singleton _, ?_⟩
    intro left hleft right hright heq
    obtain ⟨pair, hpair, rfl⟩ := List.mem_map.mp hleft
    rw [List.map_cons, List.map_nil, List.mem_singleton] at hright
    have hkey : pair.1 ≠ key := by simpa using (List.mem_filter.mp hpair).2
    exact hkey (heq.trans hright)

/-- Changes the value of a key where it stands. -/
def modify (map : LinkedMap Key Value) (key : Key) (change : Value → Value) :
    LinkedMap Key Value where
  entries := map.entries.map fun pair => if pair.1 = key then (pair.1, change pair.2) else pair
  uniqueKeys := by
    have hsame : (map.entries.map fun pair =>
        if pair.1 = key then (pair.1, change pair.2) else pair).map Prod.fst =
        map.entries.map Prod.fst := by
      rw [List.map_map]
      refine List.map_congr_left fun pair _ => ?_
      by_cases hkey : pair.1 = key <;> simp [hkey]
    rw [hsame]
    exact map.uniqueKeys

/-- Moves an entry to the back and gives its value. -/
def toBack (map : LinkedMap Key Value) (key : Key) : Option (Value × LinkedMap Key Value) :=
  (map.get? key).map fun value => (value, map.insert key value)

/-! ## The entries that are left -/

variable {map rest : LinkedMap Key Value} {key : Key} {value : Value}

theorem remove_of_get?_eq_none (hget : map.get? key = none) :
    (map.remove key).entries = map.entries := by
  refine List.filter_eq_self.mpr fun pair hpair => ?_
  simpa using get?_eq_none_iff.mp hget pair hpair

theorem perm_remove (hget : map.get? key = some value) :
    map.entries.Perm ((key, value) :: (map.remove key).entries) := by
  have hmem := get?_eq_some_iff.mp hget
  have habsent : (key, value) ∉ (map.remove key).entries := by
    intro hremoved
    simpa using (List.mem_filter.mp hremoved).2
  have hnodup : ((key, value) :: (map.remove key).entries).Nodup :=
    List.nodup_cons.mpr ⟨habsent, (map.remove key).nodup_entries⟩
  refine (List.perm_ext_iff_of_nodup map.nodup_entries hnodup).mpr fun pair => ?_
  rw [List.mem_cons, remove, List.mem_filter]
  constructor
  · intro hpair
    by_cases hkey : pair.1 = key
    · have hpair' : (key, pair.2) ∈ map.entries := by
        rw [← hkey]
        exact hpair
      exact Or.inl (Prod.ext hkey (eq_of_mem hpair' hmem))
    · exact Or.inr ⟨hpair, by simpa using hkey⟩
  · rintro (rfl | ⟨hpair, -⟩)
    · exact hmem
    · exact hpair

theorem perm_insert (hget : map.get? key = none) :
    (map.insert key value).entries.Perm ((key, value) :: map.entries) := by
  refine (List.perm_append_singleton _ _).trans ?_
  rw [remove_of_get?_eq_none hget]

/-- A popped entry that is inserted again is at the back. -/
theorem entries_insert_of_popFront (hpop : map.popFront = some (pair, rest)) :
    (rest.insert pair.1 pair.2).entries = rest.entries ++ [pair] := by
  have habsent : rest.get? pair.1 = none := by
    refine get?_eq_none_iff.mpr fun other hother hkey => ?_
    have hunique := map.uniqueKeys
    rw [entries_of_popFront hpop, List.map_cons, List.nodup_cons] at hunique
    exact hunique.1 (hkey ▸ List.mem_map_of_mem hother)
  exact congrArg (fun entries => entries ++ [pair]) (remove_of_get?_eq_none habsent)

theorem perm_toBack (htoBack : map.toBack key = some (value, rest)) :
    rest.entries.Perm map.entries := by
  obtain ⟨found, hget, heq⟩ := Option.map_eq_some_iff.mp htoBack
  cases heq
  exact (List.perm_append_singleton _ _).trans (perm_remove hget).symm

theorem get?_of_toBack (htoBack : map.toBack key = some (value, rest)) :
    map.get? key = some value := by
  obtain ⟨found, hget, heq⟩ := Option.map_eq_some_iff.mp htoBack
  cases heq
  exact hget

theorem get?_of_toBack_eq_none (htoBack : map.toBack key = none) : map.get? key = none :=
  Option.map_eq_none_iff.mp htoBack

theorem perm_modify (hget : map.get? key = some value) (change : Value → Value) :
    (map.modify key change).entries.Perm ((key, change value) :: (map.remove key).entries) := by
  refine ((perm_remove hget).map _).trans ?_
  rw [List.map_cons, if_pos rfl]
  refine List.Perm.of_eq (congrArg _ ?_)
  refine (List.map_congr_left fun pair hpair => ?_).trans (List.map_id _)
  have hkey : pair.1 ≠ key := by simpa using (List.mem_filter.mp hpair).2
  simp [hkey]

theorem get?_modify (hget : map.get? key = some value) (change : Value → Value) :
    (map.modify key change).get? key = some (change value) :=
  get?_eq_some_iff.mpr ((perm_modify hget change).mem_iff.mpr List.mem_cons_self)

end LinkedMap

end ParqDB.Foundations
