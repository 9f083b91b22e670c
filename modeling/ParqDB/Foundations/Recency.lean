import Mathlib.Data.List.Nodup

/-!
# The order of last use

A log of uses, oldest first, orders what was used by the last use.  A list in this order stays
in it when an element is used and moved to the end (`ByRecency.touch`), so what is taken from
the front of such a list was used before everything that is left
(`ByRecency.before_of_dropped`).
-/

namespace ParqDB.Foundations

variable {α : Type*}

/-- The right one was used after the last use of the left one. -/
def UsedBefore (uses : List α) (left right : α) : Prop :=
  ∃ earlier later, uses = earlier ++ later ∧ left ∉ later ∧ right ∈ later

/-- From the least recently used element to the most recently used one. -/
def ByRecency (uses order : List α) : Prop := order.Pairwise (UsedBefore uses)

variable {uses order : List α} {left right used : α}

theorem UsedBefore.append (hbefore : UsedBefore uses left right) (hne : left ≠ used) :
    UsedBefore (uses ++ [used]) left right := by
  obtain ⟨earlier, later, rfl, hleft, hright⟩ := hbefore
  refine ⟨earlier, later ++ [used], List.append_assoc _ _ _, ?_, List.mem_append_left _ hright⟩
  rw [List.mem_append, List.mem_singleton]
  rintro (hmem | rfl)
  · exact hleft hmem
  · exact hne rfl

theorem usedBefore_append_self (hne : left ≠ used) : UsedBefore (uses ++ [used]) left used :=
  ⟨uses, [used], rfl, fun hmem => hne (List.mem_singleton.mp hmem), List.mem_singleton_self used⟩

section

variable (hrecency : ByRecency uses order)

include hrecency

theorem ByRecency.sublist {shorter : List α}
    (hsublist : shorter.Sublist order) : ByRecency uses shorter :=
  List.Pairwise.sublist hsublist hrecency

/-- A use of something that is not in the list. -/
theorem ByRecency.use (habsent : used ∉ order) :
    ByRecency (uses ++ [used]) order := by
  refine List.Pairwise.imp_of_mem ?_ hrecency
  intro left right hleft _ hbefore
  apply hbefore.append
  rintro rfl
  exact habsent hleft

/-- A use of something that is then put at the end. -/
theorem ByRecency.push (habsent : used ∉ order) :
    ByRecency (uses ++ [used]) (order ++ [used]) := by
  refine List.pairwise_append.mpr ⟨hrecency.use habsent, List.pairwise_singleton _ _, ?_⟩
  intro left hleft right hright
  rw [List.mem_singleton.mp hright]
  apply usedBefore_append_self
  rintro rfl
  exact habsent hleft

/-- A use of something that moves to the end. -/
theorem ByRecency.touch [DecidableEq α] (hnodup : order.Nodup) :
    ByRecency (uses ++ [used]) (order.erase used ++ [used]) :=
  (hrecency.sublist List.erase_sublist).push hnodup.not_mem_erase

/-- What is taken from the front was used before everything that is left. -/
theorem ByRecency.before_of_dropped {dropped kept : List α}
    (horder : order = dropped ++ kept) (hleft : left ∈ order) (hgone : left ∉ kept)
    (hright : right ∈ kept) : UsedBefore uses left right := by
  subst horder
  have hdropped : left ∈ dropped := (List.mem_append.mp hleft).resolve_right hgone
  exact (List.pairwise_append.mp hrecency).2.2 left hdropped right hright

end

end ParqDB.Foundations
