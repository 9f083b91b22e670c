import Mathlib.Data.List.MinMax
import Mathlib.Data.List.Sort
import Mathlib.Data.Prod.Lex
import Mathlib.Order.OrderDual

/-!
# Greedy halving

Again and again the heaviest of some candidates is picked, the least one among equals, and half of
its weight is taken away.  `picks` are the candidates picked.

**Strategy.**  As long as no candidate is picked twice, the picks are the candidates in the order of
their weights (`ranked`).  So the only question is whether the next one in that order is heavier
than what is left of those before it (`Leads`).

**Results.**  `picks_nodup_iff`: when all picks are different.
-/

namespace ParqDB.Foundations.GreedyHalving

variable {ι : Type*} [LinearOrder ι]

/-- Heavier candidates first, and lesser ones first among equals. -/
def rank (weight : ι → ℕ) (candidate : ι) : ℕ ×ₗ ιᵒᵈ :=
  toLex (weight candidate, OrderDual.toDual candidate)

def halve (weight : ℕ) : ℕ := weight - weight / 2

/-- The candidates that are picked. -/
def picks (candidates : List ι) : ℕ → (ι → ℕ) → List ι
  | 0, _ => []
  | count + 1, weight =>
      match candidates.argmax (rank weight) with
      | none => []
      | some pick => pick :: picks candidates count
          (Function.update weight pick (halve (weight pick)))

/-- The first of two candidates is no later in the order of their weights. -/
def Before (weight : ι → ℕ) (first second : ι) : Prop := rank weight second ≤ rank weight first

instance (weight : ι → ℕ) : DecidableRel (Before weight) :=
  fun first second => inferInstanceAs (Decidable (rank weight second ≤ rank weight first))

instance (weight : ι → ℕ) : Std.Total (Before weight) :=
  ⟨fun first second => le_total (rank weight second) (rank weight first)⟩

instance (weight : ι → ℕ) : IsTrans ι (Before weight) :=
  ⟨fun _ _ _ hfirst hsecond => le_trans hsecond hfirst⟩

/-- The candidates in the order of their weights. -/
def ranked (candidates : List ι) (weight : ι → ℕ) : List ι :=
  candidates.insertionSort (Before weight)

/-- The candidate at a position is before all earlier ones once these are halved. -/
def Leads (candidates : List ι) (weight : ι → ℕ) (position : ℕ) : Prop :=
  ∃ last, (ranked candidates weight)[position]? = some last ∧
    ∀ earlier ∈ (ranked candidates weight).take position,
      rank (fun candidate => halve (weight candidate)) earlier < rank weight last

instance (candidates : List ι) (weight : ι → ℕ) (position : ℕ) :
    Decidable (Leads candidates weight position) :=
  match hat : (ranked candidates weight)[position]? with
  | none => .isFalse fun ⟨_, hlast, _⟩ => by
      rw [hat] at hlast
      cases hlast
  | some last =>
      if hall : ∀ earlier ∈ (ranked candidates weight).take position,
          rank (fun candidate => halve (weight candidate)) earlier < rank weight last then
        .isTrue ⟨last, hat, hall⟩
      else .isFalse fun ⟨_, hother, hearlier⟩ => hall (by
        rw [hat] at hother
        cases hother
        exact hearlier)

/-- The weights after some candidates have been halved. -/
def lightened (weight : ι → ℕ) (halved : List ι) (candidate : ι) : ℕ :=
  if candidate ∈ halved then halve (weight candidate) else weight candidate

variable {candidates : List ι} {weight : ι → ℕ}

omit [LinearOrder ι] in
theorem rank_injective (weight : ι → ℕ) : Function.Injective (rank weight) := by
  intro first second hsame
  exact OrderDual.toDual_inj.mp (Prod.mk.inj (toLex_inj.mp hsame)).2

omit [LinearOrder ι] in
theorem rank_congr {other : ι → ℕ} {candidate : ι} (hsame : weight candidate = other candidate) :
    rank weight candidate = rank other candidate := by
  unfold rank
  rw [hsame]

theorem mem_ranked {candidate : ι} : candidate ∈ ranked candidates weight ↔ candidate ∈ candidates :=
  List.mem_insertionSort _

theorem nodup_ranked (hcandidates : candidates.Nodup) : (ranked candidates weight).Nodup :=
  (List.perm_insertionSort _ candidates).nodup_iff.mpr hcandidates

theorem update_lightened {halved : List ι} {pick : ι} (hpick : pick ∉ halved) :
    Function.update (lightened weight halved) pick (halve (lightened weight halved pick)) =
      lightened weight (halved ++ [pick]) := by
  funext candidate
  by_cases hsame : candidate = pick
  · subst hsame
    rw [Function.update_self]
    simp [lightened, hpick]
  · rw [Function.update_of_ne hsame]
    simp [lightened, hsame]

/-- A pick that has not been halved yet is the next one in the order. -/
theorem pick_eq (hcandidates : candidates.Nodup) {position : ℕ} {pick : ι}
    (hpick : candidates.argmax (rank (lightened weight ((ranked candidates weight).take position))) =
      some pick) (hfresh : pick ∉ (ranked candidates weight).take position) :
    (ranked candidates weight)[position]? = some pick := by
  have hmem : pick ∈ ranked candidates weight := mem_ranked.mpr (List.argmax_mem hpick)
  have hsplit := List.take_append_drop position (ranked candidates weight)
  rw [← hsplit, List.mem_append] at hmem
  have hdrop := hmem.resolve_left hfresh
  cases hrest : (ranked candidates weight).drop position with
  | nil =>
      rw [hrest] at hdrop
      cases hdrop
  | cons next rest =>
      have hat : (ranked candidates weight)[position]? = some next := by
        rw [← Nat.add_zero position, ← List.getElem?_drop, hrest]
        rfl
      have hnext : next ∉ (ranked candidates weight).take position := by
        have hnodup := @nodup_ranked _ _ _ weight hcandidates
        rw [← hsplit, hrest] at hnodup
        exact fun hearlier =>
          (List.nodup_append.mp hnodup).2.2 next hearlier next List.mem_cons_self rfl
      have hsorted : ((ranked candidates weight).drop position).Pairwise (Before weight) :=
        (List.pairwise_insertionSort (Before weight) candidates).drop
      rw [hrest] at hsorted hdrop
      have hle : rank weight pick ≤ rank weight next := by
        rcases List.mem_cons.mp hdrop with rfl | hlater
        · exact le_rfl
        · exact (List.pairwise_cons.mp hsorted).1 pick hlater
      have hge : rank weight next ≤ rank weight pick := by
        have hmax := List.le_of_mem_argmax (a := next)
          (mem_ranked.mp (List.mem_of_getElem? hat)) hpick
        have hfirst := @rank_congr _ (lightened weight ((ranked candidates weight).take position))
          weight next (if_neg hnext)
        have hsecond := @rank_congr _ (lightened weight ((ranked candidates weight).take position))
          weight pick (if_neg hfresh)
        rwa [hfirst, hsecond] at hmax
      rw [hat, rank_injective weight (le_antisymm hle hge)]

/-- Picks after the first ones in the order have been halved. -/
theorem picks_fresh_iff (hcandidates : candidates.Nodup) (hnonempty : candidates ≠ [])
    (count position : ℕ) :
    ((picks candidates count (lightened weight ((ranked candidates weight).take position))).Nodup ∧
      ∀ pick ∈ picks candidates count
        (lightened weight ((ranked candidates weight).take position)),
          pick ∉ (ranked candidates weight).take position) ↔
      count = 0 ∨ Leads candidates weight (position + count - 1) := by
  induction count generalizing position with
  | zero => simp [picks]
  | succ count ih =>
      have hindex : position + (count + 1) - 1 = position + count := by omega
      rw [hindex, or_iff_right (Nat.succ_ne_zero count)]
      cases hpick : candidates.argmax
          (rank (lightened weight ((ranked candidates weight).take position))) with
      | none => exact absurd (List.argmax_eq_none.mp hpick) hnonempty
      | some pick =>
          have hmax : ∀ candidate ∈ candidates,
              rank (lightened weight ((ranked candidates weight).take position)) candidate ≤
                rank (lightened weight ((ranked candidates weight).take position)) pick :=
            fun candidate hcandidate => List.le_of_mem_argmax hcandidate hpick
          have hhalved {candidate : ι} (hmem : candidate ∈ (ranked candidates weight).take position) :
              rank (lightened weight ((ranked candidates weight).take position)) candidate =
                rank (fun candidate => halve (weight candidate)) candidate :=
            rank_congr (if_pos hmem)
          have hwhole {candidate : ι} (hmem : candidate ∉ (ranked candidates weight).take position) :
              rank (lightened weight ((ranked candidates weight).take position)) candidate =
                rank weight candidate :=
            rank_congr (if_neg hmem)
          rw [picks, hpick]
          dsimp only
          by_cases hfresh : pick ∈ (ranked candidates weight).take position
          · -- a halved candidate is picked again, and so is before all that are left
            refine iff_of_false (fun hboth => hboth.2 pick List.mem_cons_self hfresh) ?_
            rintro ⟨last, hlast, hearlier⟩
            have hlastFresh : last ∉ (ranked candidates weight).take position := by
              intro hmem
              obtain ⟨index, hindex⟩ := List.mem_iff_getElem?.mp hmem
              rw [List.getElem?_take] at hindex
              split at hindex
              · next hsmall =>
                  have hnodup := @nodup_ranked _ _ _ weight hcandidates
                  obtain ⟨hinside, -⟩ := List.getElem?_eq_some_iff.mp hindex
                  have hsame := (List.getElem?_inj hinside hnodup).mp
                    (hindex.trans hlast.symm)
                  omega
              · cases hindex
            have hlower := hearlier pick
              ((List.take_sublist_take_left (Nat.le_add_right position count)).subset hfresh)
            have hhigher := hmax last (mem_ranked.mp (List.mem_of_getElem? hlast))
            rw [hhalved hfresh, hwhole hlastFresh] at hhigher
            exact absurd hlower (not_lt.mpr hhigher)
          · -- otherwise the pick is the next in the order, and is halved before the others
            have hat := pick_eq hcandidates hpick hfresh
            have htake : (ranked candidates weight).take (position + 1) =
                (ranked candidates weight).take position ++ [pick] := by
              rw [List.take_add_one, hat]
              rfl
            have hrest := ih (position + 1)
            rw [update_lightened hfresh, ← htake]
            rw [htake] at hrest ⊢
            have hshift : (∀ other ∈ picks candidates count (lightened weight
                  ((ranked candidates weight).take position ++ [pick])),
                other ∉ (ranked candidates weight).take position ++ [pick]) ↔
                (pick ∉ picks candidates count (lightened weight
                  ((ranked candidates weight).take position ++ [pick])) ∧
                ∀ other ∈ picks candidates count (lightened weight
                  ((ranked candidates weight).take position ++ [pick])),
                    other ∉ (ranked candidates weight).take position) := by
              constructor
              · intro hall
                refine ⟨fun hmem => hall pick hmem (by simp), fun other hother hearlier => ?_⟩
                exact hall other hother (List.mem_append_left _ hearlier)
              · rintro ⟨hpickFresh, hall⟩ other hother hmem
                rcases List.mem_append.mp hmem with hearlier | hlast
                · exact hall other hother hearlier
                · rw [List.mem_singleton.mp hlast] at hother
                  exact hpickFresh hother
            rw [hshift] at hrest
            rw [List.nodup_cons, List.forall_mem_cons]
            have hreorder : ∀ {a b c d : Prop}, d → ((a ∧ b) ∧ d ∧ c ↔ b ∧ a ∧ c) := by
              intro a b c d hd
              tauto
            rw [hreorder hfresh, hrest]
            cases count with
            | zero =>
                refine iff_of_true (Or.inl rfl) ⟨pick, hat, fun earlier hearlier => ?_⟩
                have hle := hmax earlier (mem_ranked.mp (List.mem_of_mem_take hearlier))
                rw [hhalved hearlier, hwhole hfresh] at hle
                refine lt_of_le_of_ne hle fun hsame => hfresh ?_
                have hboth : earlier = pick :=
                  OrderDual.toDual_inj.mp (Prod.mk.inj (toLex_inj.mp hsame)).2
                rw [← hboth]
                exact hearlier
            | succ count =>
                have hsame : position + 1 + (count + 1) - 1 = position + (count + 1) := by omega
                rw [or_iff_right (Nat.succ_ne_zero count), hsame]

/-- No candidate is picked twice exactly if the last one in the order of the weights is before all
others once these are halved. -/
theorem picks_nodup_iff (hcandidates : candidates.Nodup) (hnonempty : candidates ≠ []) (count : ℕ) :
    (picks candidates count weight).Nodup ↔ count = 0 ∨ Leads candidates weight (count - 1) := by
  have hall := @picks_fresh_iff _ _ _ weight hcandidates hnonempty count 0
  have hnone : lightened weight ((ranked candidates weight).take 0) = weight := by
    funext candidate
    simp [lightened]
  rw [hnone, List.take_zero, Nat.zero_add] at hall
  rw [← hall]
  simp

end ParqDB.Foundations.GreedyHalving
