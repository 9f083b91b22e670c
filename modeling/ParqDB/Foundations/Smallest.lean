import Mathlib.Data.List.Count
import Mathlib.Data.List.Sort
import Mathlib.Data.Prod.Lex

/-!
# The smallest items of a list

`smallest k items` is the ascending list of the `k` smallest items.  An item does not
matter for it when `k` others are not greater (`Dominated`).  A list that `Retains` another
has lost only such items, and has the same smallest items (`Retains.smallest_eq`).
-/

namespace ParqDB.Foundations

variable {α : Type*} [LinearOrder α]

/-- The `k` smallest items in ascending order. -/
def smallest (k : ℕ) (items : List α) : List α := (items.insertionSort (· ≤ ·)).take k

/-- At least `k` of the items are not greater than the bound. -/
def Dominated (k : ℕ) (items : List α) (bound : α) : Prop :=
  k ≤ items.countP fun item => item ≤ bound

variable {k : ℕ} {items others : List α} {item bound : α}

/-! ## Dominated items -/

theorem Dominated.perm (hdominated : Dominated k items bound) (hperm : items.Perm others) :
    Dominated k others bound := by
  rw [Dominated, ← hperm.countP_eq]
  exact hdominated

theorem Dominated.mono (hdominated : Dominated k items bound) {larger : α} (hle : bound ≤ larger) :
    Dominated k items larger := by
  refine le_trans hdominated (List.countP_mono_left fun other _ hother => ?_)
  exact decide_eq_true (le_trans (of_decide_eq_true hother) hle)

theorem Dominated.append (hdominated : Dominated k items bound) (others : List α) :
    Dominated k (items ++ others) bound :=
  le_trans hdominated (List.Sublist.countP_le (List.sublist_append_left items others))

/-- Items that are all below the bound. -/
theorem dominated_of_forall (hlength : k ≤ items.length) (hle : ∀ item ∈ items, item ≤ bound) :
    Dominated k items bound := by
  have hcount : items.countP (fun item => item ≤ bound) = items.length :=
    List.countP_eq_length.mpr fun item hitem => decide_eq_true (hle item hitem)
  rw [Dominated, hcount]
  exact hlength

/-- Dropping a dominated item dominates no less. -/
theorem Dominated.drop (hdominated : Dominated k (item :: items) bound)
    (hitem : Dominated k items item) : Dominated k items bound := by
  by_cases hle : item ≤ bound
  · exact hitem.mono hle
  · rw [Dominated, List.countP_cons_of_neg (by simpa using hle)] at hdominated
    exact hdominated

/-! ## The smallest items -/

theorem smallest_perm (hperm : items.Perm others) : smallest k items = smallest k others := by
  have hsorted : items.insertionSort (· ≤ ·) = others.insertionSort (· ≤ ·) := by
    refine List.Perm.eq_of_sortedLE List.sortedLE_insertionSort List.sortedLE_insertionSort ?_
    exact (List.perm_insertionSort _ items).trans
      (hperm.trans (List.perm_insertionSort _ others).symm)
  rw [smallest, smallest, hsorted]

/-- An item above `k` others of a sorted list goes behind the first `k`, or is one of them
again. -/
theorem take_orderedInsert {sorted : List α} (hsorted : sorted.Pairwise (· ≤ ·))
    (hdominated : Dominated k sorted item) :
    (sorted.orderedInsert (· ≤ ·) item).take k = sorted.take k := by
  induction sorted generalizing k with
  | nil =>
      have hzero : k = 0 := Nat.le_zero.mp hdominated
      subst hzero
      rfl
  | cons first sorted ih =>
      rw [List.pairwise_cons] at hsorted
      cases k with
      | zero => rw [List.take_zero, List.take_zero]
      | succ k =>
          -- the first item is below the bound: otherwise none is
          have hfirst : first ≤ item := by
            by_contra hgreater
            have hnone : (first :: sorted).countP (fun other => other ≤ item) = 0 := by
              refine List.countP_eq_zero.mpr fun other hother hle => hgreater ?_
              rcases List.mem_cons.mp hother with rfl | hrest
              · exact of_decide_eq_true hle
              · exact le_trans (hsorted.1 other hrest) (of_decide_eq_true hle)
            rw [Dominated, hnone] at hdominated
            exact absurd hdominated (Nat.not_succ_le_zero k)
          have hrest : Dominated k sorted item := by
            rw [Dominated, List.countP_cons_of_pos (by simpa using hfirst)] at hdominated
            exact Nat.le_of_succ_le_succ hdominated
          by_cases hsame : item ≤ first
          · -- the item is the first one again, and is inserted before the rest as well
            have hequal : item = first := le_antisymm hsame hfirst
            have hinsert : sorted.orderedInsert (· ≤ ·) item = item :: sorted := by
              cases sorted with
              | nil => rfl
              | cons second sorted =>
                  refine List.orderedInsert_cons_of_le _ _ ?_
                  exact hequal ▸ hsorted.1 second List.mem_cons_self
            rw [List.orderedInsert_cons_of_le _ _ hsame, List.take_succ_cons, List.take_succ_cons,
              ← ih hsorted.2 hrest, hinsert, hequal]
          · rw [List.orderedInsert_cons, if_neg hsame, List.take_succ_cons, List.take_succ_cons,
              ih hsorted.2 hrest]

theorem smallest_cons (hdominated : Dominated k items item) :
    smallest k (item :: items) = smallest k items := by
  rw [smallest, List.insertionSort_cons]
  refine take_orderedInsert (List.pairwise_insertionSort _ items) ?_
  exact hdominated.perm (List.perm_insertionSort _ items).symm

/-- Dominated items do not matter. -/
theorem smallest_append (hdominated : ∀ item ∈ others, Dominated k items item) :
    smallest k (others ++ items) = smallest k items := by
  induction others with
  | nil => rfl
  | cons item others ih =>
      have hitem : Dominated k (others ++ items) item :=
        ((hdominated item List.mem_cons_self).append others).perm List.perm_append_comm
      rw [List.cons_append, smallest_cons hitem]
      exact ih fun other hother => hdominated other (List.mem_cons_of_mem _ hother)

theorem length_smallest (k : ℕ) (items : List α) :
    (smallest k items).length = min k items.length := by
  rw [smallest, List.length_take, List.length_insertionSort]

theorem pairwise_smallest (k : ℕ) (items : List α) : (smallest k items).Pairwise (· ≤ ·) :=
  (List.pairwise_insertionSort (· ≤ ·) items).sublist (List.take_sublist _ _)

theorem mem_of_mem_smallest (hitem : item ∈ smallest k items) : item ∈ items :=
  (List.mem_insertionSort (· ≤ ·)).mp (List.mem_of_mem_take hitem)

/-- Few items in any order are the smallest ones. -/
theorem smallest_perm_self (hlength : items.length ≤ k) : (smallest k items).Perm items := by
  rw [smallest, List.take_of_length_le (by rwa [List.length_insertionSort])]
  exact List.perm_insertionSort _ items

/-! ## Lists that lose dominated items -/

/-- Everything that is lost is dominated by what is left. -/
def Retains (k : ℕ) (before after : List α) : Prop :=
  ∃ dropped, before.Perm (dropped ++ after) ∧ ∀ item ∈ dropped, Dominated k after item

namespace Retains

variable {before after third extra : List α}

theorem of_perm (hperm : before.Perm after) : Retains k before after :=
  ⟨[], hperm, fun _ hitem => absurd hitem List.not_mem_nil⟩

theorem refl (items : List α) : Retains k items items := of_perm (List.Perm.refl items)

/-- What was dominated stays dominated. -/
theorem dominated (hretains : Retains k before after) (hdominated : Dominated k before bound) :
    Dominated k after bound := by
  obtain ⟨dropped, hperm, hdropped⟩ := hretains
  replace hdominated := hdominated.perm hperm
  clear hperm
  induction dropped with
  | nil => exact hdominated
  | cons item dropped ih =>
      have hitem := hdropped item List.mem_cons_self
      refine ih (fun other hother => hdropped other (List.mem_cons_of_mem _ hother)) ?_
      exact hdominated.drop ((hitem.append dropped).perm List.perm_append_comm)

/-- What the remaining items dominate, all items dominate. -/
theorem dominated_of_after (hretains : Retains k before after)
    (hdominated : Dominated k after bound) : Dominated k before bound := by
  obtain ⟨dropped, hperm, -⟩ := hretains
  exact ((hdominated.append dropped).perm List.perm_append_comm).perm hperm.symm

theorem trans (hleft : Retains k before after) (hright : Retains k after third) :
    Retains k before third := by
  obtain ⟨dropped, hperm, hdropped⟩ := hleft
  obtain ⟨more, hmorePerm, hmore⟩ := hright
  refine ⟨dropped ++ more, ?_, fun item hitem => ?_⟩
  · rw [List.append_assoc]
    exact hperm.trans (hmorePerm.append_left dropped)
  · rcases List.mem_append.mp hitem with hfirst | hsecond
    · exact dominated ⟨more, hmorePerm, hmore⟩ (hdropped item hfirst)
    · exact hmore item hsecond

theorem append_right (hretains : Retains k before after) (extra : List α) :
    Retains k (before ++ extra) (after ++ extra) := by
  obtain ⟨dropped, hperm, hdropped⟩ := hretains
  refine ⟨dropped, ?_, fun item hitem => (hdropped item hitem).append extra⟩
  rw [← List.append_assoc]
  exact hperm.append_right extra

theorem append_left (hretains : Retains k before after) (extra : List α) :
    Retains k (extra ++ before) (extra ++ after) :=
  (of_perm List.perm_append_comm).trans
    ((hretains.append_right extra).trans (of_perm List.perm_append_comm))

/-- Dominated items may be dropped. -/
theorem drop (hextra : ∀ item ∈ extra, Dominated k after item) : Retains k (extra ++ after) after :=
  ⟨extra, List.Perm.refl _, hextra⟩

theorem smallest_eq (hretains : Retains k before after) : smallest k before = smallest k after := by
  obtain ⟨dropped, hperm, hdropped⟩ := hretains
  rw [smallest_perm hperm, smallest_append hdropped]

end Retains

/-- The smallest items of a list are what is left of it. -/
theorem retains_smallest (k : ℕ) (items : List α) : Retains k items (smallest k items) := by
  have hsorted := List.pairwise_insertionSort (· ≤ ·) items
  have hperm := List.perm_insertionSort (· ≤ ·) items
  rw [smallest]
  generalize items.insertionSort (· ≤ ·) = sorted at hsorted hperm
  refine ⟨sorted.drop k, ?_, ?_⟩
  · refine hperm.symm.trans (List.Perm.trans (List.Perm.of_eq ?_) List.perm_append_comm)
    exact (List.take_append_drop k sorted).symm
  · intro item hitem
    rw [← List.take_append_drop k sorted, List.pairwise_append] at hsorted
    refine dominated_of_forall ?_ fun other hother => hsorted.2.2 other hother item hitem
    have hpositive := List.length_pos_of_mem hitem
    rw [List.length_drop] at hpositive
    rw [List.length_take]
    omega

/-- One more item enters the smallest ones while there are fewer than `k`, or before the last of
them, which then leaves. -/
theorem smallest_cons_eq (k : ℕ) (item : α) (items : List α) :
    smallest k (item :: items) =
      if (smallest k items).length < k ∨ ∃ worst ∈ (smallest k items).getLast?, item < worst then
        if k < ((smallest k items).orderedInsert (· ≤ ·) item).length then
          ((smallest k items).orderedInsert (· ≤ ·) item).dropLast
        else (smallest k items).orderedInsert (· ≤ ·) item
      else smallest k items := by
  have hsorted := pairwise_smallest k items
  have hlength : (smallest k items).length ≤ k := by
    rw [length_smallest]
    exact Nat.min_le_left _ _
  have hretains : smallest k (item :: items) = smallest k (item :: smallest k items) :=
    ((retains_smallest k items).append_left [item]).smallest_eq
  rw [hretains]
  generalize smallest k items = kept at hsorted hlength
  have htake : smallest k (item :: kept) = (kept.orderedInsert (· ≤ ·) item).take k := by
    rw [smallest, List.insertionSort_cons, hsorted.insertionSort_eq]
  rw [htake]
  have hinserted := List.orderedInsert_length (· ≤ ·) kept item
  by_cases henters : kept.length < k ∨ ∃ worst ∈ kept.getLast?, item < worst
  · rw [if_pos henters]
    by_cases hmore : k < (kept.orderedInsert (· ≤ ·) item).length
    · rw [if_pos hmore, List.dropLast_eq_take]
      congr 1
      omega
    · rw [if_neg hmore, List.take_of_length_le (Nat.not_lt.mp hmore)]
  · rw [if_neg henters]
    obtain ⟨hfull, hlast⟩ := not_or.mp henters
    -- all that is kept is not greater than the last of it, which is not above the item
    have hbelow : ∀ other ∈ kept, other ≤ item := by
      intro other hother
      have hne := List.ne_nil_of_mem hother
      have hworst : kept.getLast hne ≤ item := by
        by_contra hgreater
        exact hlast ⟨_, List.getLast?_eq_some_getLast hne, lt_of_not_ge hgreater⟩
      refine le_trans ?_ hworst
      rw [← List.dropLast_append_getLast hne, List.pairwise_append] at hsorted
      rw [← List.dropLast_append_getLast hne, List.mem_append, List.mem_singleton] at hother
      rcases hother with hfront | rfl
      · exact hsorted.2.2 other hfront _ (List.mem_singleton_self _)
      · exact le_refl _
    rw [take_orderedInsert hsorted (dominated_of_forall (Nat.not_lt.mp hfull) hbelow),
      List.take_of_length_le hlength]

/-- The `k`-th smallest item is not greater than a bound that `k` items have. -/
theorem le_of_dominated {position : ℕ} (hdominated : Dominated (position + 1) items bound)
    (hitem : (items.insertionSort (· ≤ ·))[position]? = some item) : item ≤ bound := by
  have hsorted := List.pairwise_insertionSort (· ≤ ·) items
  have hcount := hdominated.perm (List.perm_insertionSort (· ≤ ·) items).symm
  generalize items.insertionSort (· ≤ ·) = sorted at hitem hsorted hcount
  by_contra hgreater
  -- the items from this position on are greater than the bound, and there are too few before it
  have hlater : (sorted.drop position).countP (fun other => other ≤ bound) = 0 := by
    refine List.countP_eq_zero.mpr fun other hother hle => hgreater ?_
    obtain ⟨offset, hoffset⟩ := List.mem_iff_getElem?.mp hother
    rw [List.getElem?_drop] at hoffset
    refine le_trans ?_ (of_decide_eq_true hle)
    obtain ⟨hposition, rfl⟩ := List.getElem?_eq_some_iff.mp hitem
    obtain ⟨hlast, rfl⟩ := List.getElem?_eq_some_iff.mp hoffset
    rcases Nat.eq_zero_or_pos offset with rfl | hpositive
    · exact le_refl _
    · exact List.pairwise_iff_getElem.mp hsorted _ _ hposition hlast (by omega)
  have hsplit : sorted.countP (fun other => decide (other ≤ bound)) =
      (sorted.take position).countP (fun other => decide (other ≤ bound)) := by
    conv_lhs => rw [← List.take_append_drop position sorted, List.countP_append, hlater,
      Nat.add_zero]
  have hlength : (sorted.take position).countP (fun other => decide (other ≤ bound)) ≤ position :=
    le_trans List.countP_le_length (List.length_take_le _ _)
  rw [Dominated, hsplit] at hcount
  omega

/-! ## Batches -/

/-- Every item that a batch leaves out is dominated by what the batch keeps. -/
theorem retains_batches (k : ℕ) (batches : List (List α)) :
    Retains k batches.flatten (batches.flatMap (smallest k)) := by
  induction batches with
  | nil => exact Retains.refl []
  | cons batch batches ih =>
      rw [List.flatten_cons, List.flatMap_cons]
      exact ((retains_smallest k batch).append_right _).trans (ih.append_left _)

/-- The smallest items of all batches are among the smallest of each. -/
theorem smallest_flatMap (k : ℕ) (batches : List (List α)) :
    smallest k (batches.flatMap (smallest k)) = smallest k batches.flatten :=
  (retains_batches k batches).smallest_eq.symm

theorem smallest_map {β : Type*} [LinearOrder β] {f : α → β} (hmono : StrictMono f) (k : ℕ)
    (items : List α) : smallest k (items.map f) = (smallest k items).map f := by
  rw [smallest, smallest, List.map_take]
  congr 1
  refine (List.map_insertionSort (· ≤ ·) (· ≤ ·) f items fun left _ right _ => ?_).symm
  exact hmono.le_iff_le.symm

/-! ## Sorting by rank -/

/-- Items of equal rank stand in their order already: to sort by rank and place is to sort. -/
theorem map_fst_sort_zipIdx {β : Type*} [LinearOrder β] (rank : α → β)
    (hrank : ∀ left right, rank left < rank right → left ≤ right)
    (hplaces : items.Pairwise fun left right => rank left = rank right → left ≤ right) :
    (items.zipIdx.insertionSort fun left right =>
        toLex (rank left.1, left.2) ≤ toLex (rank right.1, right.2)).map Prod.fst =
      items.insertionSort (· ≤ ·) := by
  have hperm := List.perm_insertionSort (fun left right : α × ℕ =>
    toLex (rank left.1, left.2) ≤ toLex (rank right.1, right.2)) items.zipIdx
  have hsorted := List.pairwise_insertionSort (fun left right : α × ℕ =>
    toLex (rank left.1, left.2) ≤ toLex (rank right.1, right.2)) items.zipIdx
  refine List.Perm.eq_of_sortedLE ?_ List.sortedLE_insertionSort ?_
  · refine List.Pairwise.sortedLE ?_
    rw [List.pairwise_map]
    refine hsorted.imp_of_mem fun {left right} hleft hright hle => ?_
    have hleft := List.mk_mem_zipIdx_iff_getElem?.mp (hperm.mem_iff.mp hleft)
    have hright := List.mk_mem_zipIdx_iff_getElem?.mp (hperm.mem_iff.mp hright)
    rcases Prod.Lex.toLex_le_toLex.mp hle with hlt | ⟨heq, hplace⟩
    · exact hrank _ _ hlt
    · rcases Nat.lt_or_eq_of_le hplace with hbefore | hsame
      · obtain ⟨hleftBound, hleft⟩ := List.getElem?_eq_some_iff.mp hleft
        obtain ⟨hrightBound, hright⟩ := List.getElem?_eq_some_iff.mp hright
        have hpair := List.pairwise_iff_getElem.mp hplaces _ _ hleftBound hrightBound hbefore
        rw [hleft, hright] at hpair
        exact hpair heq
      · dsimp only at hsame
        rw [hsame, hright, Option.some.injEq] at hleft
        exact hleft.ge
  · refine (hperm.map Prod.fst).trans ?_
    rw [List.zipIdx_map_fst]
    exact (List.perm_insertionSort _ items).symm

end ParqDB.Foundations
