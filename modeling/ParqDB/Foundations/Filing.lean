import Mathlib.Algebra.Order.Ring.Int
import Mathlib.Data.List.Chain
import Mathlib.Data.List.TakeWhile
import Mathlib.Order.Defs.LinearOrder

/-!
# Intervals filed under buckets

A list of items, each with a bucket and an interval of values.  A reader that looks for a
value wants to know which items can hold it; a writer, or a check, usually compares
neighbours only.

* `Filing.Follows` compares two items: the later one is filed in a later bucket, or in the
  same bucket and starts where the earlier one ends.  The relation is transitive because
  the intervals are proper, so neighbours say it of any two items.
* When different buckets hold different values, two items share at most one value, and the
  items that hold a value stand together (`Filing.exists_run`).
* Offsets that strictly increase cut the values into buckets (`range_unique`).
-/

namespace ParqDB.Foundations

variable {ι β α : Type*}

/-! ## Items that stand together -/

/-- What holds of any outer two of three items and fails in between never happens, so the
items with the property form one run. -/
theorem exists_run {property : ι → Prop} [DecidablePred property] : ∀ {items : List ι},
    (∀ first second third, [first, second, third].Sublist items →
      property first → property third → property second) →
    ∃ before run after, items = before ++ run ++ after ∧ (∀ item ∈ run, property item) ∧
      ∀ item ∈ before ++ after, ¬ property item := by
  intro items
  induction items with
  | nil =>
      intro _
      exact ⟨[], [], [], rfl, by simp, by simp⟩
  | cons item items ih =>
      intro hconvex
      by_cases hitem : property item
      · refine ⟨[], item :: items.takeWhile property, items.dropWhile property, ?_, ?_, ?_⟩
        · rw [List.nil_append, List.cons_append, List.takeWhile_append_dropWhile]
        · intro other hother
          rcases List.mem_cons.mp hother with rfl | hother
          · exact hitem
          · simpa using List.mem_takeWhile_imp hother
        · -- the first item after the run lacks the property, so nothing later has it
          intro other hother
          rw [List.nil_append] at hother
          cases hrest : items.dropWhile property with
          | nil =>
              rw [hrest] at hother
              cases hother
          | cons next rest =>
              have hnext : ¬ property next := by
                have hhead := List.head_dropWhile_not (fun item => decide (property item))
                  (by rw [hrest]; simp)
                simpa [hrest] using hhead
              rw [hrest] at hother
              rcases List.mem_cons.mp hother with rfl | hother
              · exact hnext
              · intro hproperty
                refine hnext (hconvex item next other ?_ hitem hproperty)
                refine List.Sublist.cons_cons item (List.Sublist.trans ?_
                  (List.dropWhile_sublist property))
                rw [hrest]
                exact List.Sublist.cons_cons next (List.singleton_sublist.mpr hother)
      · obtain ⟨before, run, after, hitems, hrun, houtside⟩ := ih fun first second third hsub =>
          hconvex first second third (hsub.cons item)
        refine ⟨item :: before, run, after, by rw [hitems]; simp, hrun, ?_⟩
        intro other hother
        rcases List.mem_cons.mp hother with rfl | hother
        · exact hitem
        · exact houtside other hother

/-! ## Filings -/

/-- How items are filed: the bucket and the closed interval of values of each. -/
structure Filing (ι β α : Type*) where
  bucket : ι → β
  lower : ι → α
  upper : ι → α

namespace Filing

variable [LinearOrder β] [LinearOrder α] {filing : Filing ι β α} {items : List ι}

/-- The interval of the item contains the value. -/
def Holds (filing : Filing ι β α) (item : ι) (value : α) : Prop :=
  filing.lower item ≤ value ∧ value ≤ filing.upper item

instance (filing : Filing ι β α) (item : ι) (value : α) : Decidable (filing.Holds item value) :=
  inferInstanceAs (Decidable (_ ∧ _))

/-- Two items with proper intervals, one filed after the other. -/
structure Follows (filing : Filing ι β α) (previous current : ι) : Prop where
  previous_proper : filing.lower previous ≤ filing.upper previous
  current_proper : filing.lower current ≤ filing.upper current
  ordered : filing.bucket previous < filing.bucket current ∨
    filing.bucket previous = filing.bucket current ∧ filing.upper previous ≤ filing.lower current

variable {first second : ι} {value : α}

theorem Follows.trans {third : ι} (hfirst : filing.Follows first second)
    (hsecond : filing.Follows second third) : filing.Follows first third where
  previous_proper := hfirst.previous_proper
  current_proper := hsecond.current_proper
  ordered := by
    rcases hfirst.ordered with hlt | ⟨heq, hle⟩
    · rcases hsecond.ordered with hlt' | ⟨heq', -⟩
      · exact Or.inl (hlt.trans hlt')
      · exact Or.inl (heq' ▸ hlt)
    · rcases hsecond.ordered with hlt' | ⟨heq', hle'⟩
      · exact Or.inl (heq ▸ hlt')
      · exact Or.inr ⟨heq.trans heq', hle.trans (hfirst.current_proper.trans hle')⟩

instance : Trans filing.Follows filing.Follows filing.Follows := ⟨Follows.trans⟩

theorem pairwise_of_isChain (hchain : items.IsChain filing.Follows) :
    items.Pairwise filing.Follows :=
  List.isChain_iff_pairwise.mp hchain

/-- Items in different buckets hold different values. -/
def Separated (filing : Filing ι β α) (items : List ι) : Prop :=
  ∀ previous ∈ items, ∀ current ∈ items, filing.bucket previous < filing.bucket current →
    filing.upper previous < filing.lower current

/-- A value that both of two items hold is the one where the first ends and the second
starts. -/
theorem boundary_of_shared (hseparated : filing.Separated items) {previous current : ι}
    (hprevious : previous ∈ items) (hcurrent : current ∈ items)
    (hfollows : filing.Follows previous current) (hfirst : filing.Holds previous value)
    (hsecond : filing.Holds current value) :
    filing.bucket previous = filing.bucket current ∧ value = filing.upper previous ∧
      value = filing.lower current := by
  rcases hfollows.ordered with hlt | ⟨heq, hle⟩
  · have hapart := hseparated previous hprevious current hcurrent hlt
    exact absurd (hsecond.1.trans hfirst.2) (not_le.mpr hapart)
  · exact ⟨heq, le_antisymm hfirst.2 (hle.trans hsecond.1),
      le_antisymm (hfirst.2.trans hle) hsecond.1⟩

variable {i j : ℕ}

section

variable (hpairwise : items.Pairwise filing.Follows)

include hpairwise

/-- Two items at different positions, in either order. -/
theorem follows_or_follows (hne : i ≠ j)
    (hfirst : items[i]? = some first) (hsecond : items[j]? = some second) :
    filing.Follows first second ∨ filing.Follows second first := by
  obtain ⟨hi, rfl⟩ := List.getElem?_eq_some_iff.mp hfirst
  obtain ⟨hj, rfl⟩ := List.getElem?_eq_some_iff.mp hsecond
  rcases Nat.lt_or_gt_of_ne hne with hlt | hgt
  · exact Or.inl (List.pairwise_iff_getElem.mp hpairwise i j hi hj hlt)
  · exact Or.inr (List.pairwise_iff_getElem.mp hpairwise j i hj hi hgt)

/-- Two items that share a value are filed in the same bucket. -/
theorem bucket_eq_of_shared
    (hseparated : filing.Separated items) (hne : i ≠ j) (hfirst : items[i]? = some first)
    (hsecond : items[j]? = some second) (hvalue : filing.Holds first value)
    (hvalue' : filing.Holds second value) : filing.bucket first = filing.bucket second := by
  have hmem := List.mem_of_getElem? hfirst
  have hmem' := List.mem_of_getElem? hsecond
  rcases follows_or_follows hpairwise hne hfirst hsecond with hfollows | hfollows
  · exact (boundary_of_shared hseparated hmem hmem' hfollows hvalue hvalue').1
  · exact (boundary_of_shared hseparated hmem' hmem hfollows hvalue' hvalue).1.symm

/-- Two items share at most one value. -/
theorem eq_of_shared
    (hseparated : filing.Separated items) (hne : i ≠ j) (hfirst : items[i]? = some first)
    (hsecond : items[j]? = some second) {other : α}
    (hvalue : filing.Holds first value ∧ filing.Holds second value)
    (hother : filing.Holds first other ∧ filing.Holds second other) : value = other := by
  have hmem := List.mem_of_getElem? hfirst
  have hmem' := List.mem_of_getElem? hsecond
  rcases follows_or_follows hpairwise hne hfirst hsecond with hfollows | hfollows
  · obtain ⟨-, hend, -⟩ := boundary_of_shared hseparated hmem hmem' hfollows hvalue.1 hvalue.2
    obtain ⟨-, hend', -⟩ := boundary_of_shared hseparated hmem hmem' hfollows hother.1 hother.2
    rw [hend, hend']
  · obtain ⟨-, hend, -⟩ := boundary_of_shared hseparated hmem' hmem hfollows hvalue.2 hvalue.1
    obtain ⟨-, hend', -⟩ := boundary_of_shared hseparated hmem' hmem hfollows hother.2 hother.1
    rw [hend, hend']

/-- The items that hold a value stand together. -/
theorem exists_run_holding (hseparated : filing.Separated items) (value : α) :
    ∃ before run after, items = before ++ run ++ after ∧
      (∀ item ∈ run, filing.Holds item value) ∧
      ∀ item ∈ before ++ after, ¬ filing.Holds item value := by
  refine exists_run fun first second third hsub hfirst hthird => ?_
  have hmem : ∀ item ∈ [first, second, third], item ∈ items := fun item hitem =>
    hsub.subset hitem
  have hthree := hpairwise.sublist hsub
  simp only [List.pairwise_cons, List.mem_cons, List.not_mem_nil, or_false] at hthree
  obtain ⟨hafterFirst, hafterSecond, -⟩ := hthree
  have houter := hafterFirst third (Or.inr rfl)
  have hleft := hafterFirst second (Or.inl rfl)
  have hright := hafterSecond third rfl
  obtain ⟨hbucket, hend, hstart⟩ := boundary_of_shared hseparated (hmem first (by simp))
    (hmem third (by simp)) houter hfirst hthird
  -- the outer two are in one bucket, so the middle one is filed there as well
  have hinner : filing.upper first ≤ filing.lower second := by
    rcases hleft.ordered with hlt | ⟨-, hle⟩
    · rcases hright.ordered with hlt' | ⟨heq', -⟩
      · exact absurd (hlt.trans hlt') (by rw [hbucket]; exact lt_irrefl _)
      · exact absurd hlt (by rw [hbucket, heq']; exact lt_irrefl _)
    · exact hle
  have hinner' : filing.upper second ≤ filing.lower third := by
    rcases hright.ordered with hlt | ⟨-, hle⟩
    · rcases hleft.ordered with hlt' | ⟨heq', -⟩
      · exact absurd (hlt'.trans hlt) (by rw [hbucket]; exact lt_irrefl _)
      · exact absurd hlt (by rw [← heq', hbucket]; exact lt_irrefl _)
    · exact hle
  rw [← hend] at hinner
  rw [← hstart] at hinner'
  have hproper := hleft.current_proper
  exact ⟨hproper.trans hinner', hinner.trans hproper⟩

end

end Filing

/-! ## Buckets cut by offsets -/

variable [LinearOrder α] {offsets : List α}

/-- Offsets that increase between neighbours increase throughout. -/
theorem pairwise_lt_of_neighbours
    (hneighbours : ∀ range ∈ offsets.zip offsets.tail, range.1 < range.2) :
    offsets.Pairwise (· < ·) := by
  rw [← List.isChain_iff_pairwise]
  induction offsets with
  | nil => exact List.isChain_nil
  | cons first rest ih =>
      cases rest with
      | nil => exact List.isChain_singleton first
      | cons second rest =>
          simp only [List.tail_cons, List.zip_cons_cons, List.mem_cons] at hneighbours ih
          rw [List.isChain_cons_cons]
          exact ⟨hneighbours (first, second) (Or.inl rfl),
            ih fun range hrange => hneighbours range (Or.inr hrange)⟩

theorem offset_le_of_le (hincreasing : offsets.Pairwise (· < ·)) {i j : ℕ} (hle : i ≤ j)
    {first second : α} (hfirst : offsets[i]? = some first) (hsecond : offsets[j]? = some second) :
    first ≤ second := by
  obtain ⟨hi, rfl⟩ := List.getElem?_eq_some_iff.mp hfirst
  obtain ⟨hj, rfl⟩ := List.getElem?_eq_some_iff.mp hsecond
  rcases Nat.lt_or_eq_of_le hle with hlt | rfl
  · exact (List.pairwise_iff_getElem.mp hincreasing i j hi hj hlt).le
  · exact le_refl _

/-- A value lies in the range of one bucket only. -/
theorem range_unique (hincreasing : offsets.Pairwise (· < ·)) {i j : ℕ} {lower upper lower' upper'
    value : α} (hlower : offsets[i]? = some lower) (hupper : offsets[i + 1]? = some upper)
    (hlower' : offsets[j]? = some lower') (hupper' : offsets[j + 1]? = some upper')
    (hvalue : lower ≤ value ∧ value < upper) (hvalue' : lower' ≤ value ∧ value < upper') :
    i = j := by
  rcases Nat.lt_trichotomy i j with hlt | heq | hgt
  · have hapart := offset_le_of_le hincreasing hlt hupper hlower'
    exact absurd (hapart.trans hvalue'.1) (not_le.mpr hvalue.2)
  · exact heq
  · have hapart := offset_le_of_le hincreasing hgt hupper' hlower
    exact absurd (hapart.trans hvalue.1) (not_le.mpr hvalue'.2)

end ParqDB.Foundations
