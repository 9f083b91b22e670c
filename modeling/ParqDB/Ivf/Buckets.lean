import Mathlib.Data.List.TakeWhile
import ParqDB.Foundations.Outcome
import ParqDB.Kernels.Lvq

/-!
# Buckets and roots

Offsets that strictly increase from 0 to `nlist` cut the centroids into buckets.  The runs
that the writer repeats, the boundary that the reader searches for and the ranges of the
roots all name the same bucket of a centroid.
-/

namespace ParqDB.Ivf

open Foundations

/-- `partition_point` of sorted offsets: how many are at most the centroid. -/
def boundaryOf (cidOffsets : List ℕ) (cid : ℕ) : ℕ :=
  (cidOffsets.takeWhile (· ≤ cid)).length

/-- The bucket of each centroid, one run of it per root. -/
def cidBuckets (cidOffsets : List ℕ) : List ℕ :=
  (cidOffsets.zip cidOffsets.tail).zipIdx.flatMap fun range =>
    List.replicate (range.1.2 - range.1.1) range.2

/-- The offsets strictly partition the centroids. -/
structure Hierarchy (cidOffsets : List ℕ) (nlist : ℕ) : Prop where
  head : cidOffsets.head? = some 0
  last : cidOffsets.getLast? = some nlist
  increasing : cidOffsets.Pairwise (· < ·)
  pos : 0 < nlist

/-- The centroid lies between the offsets of the bucket. -/
def Covers (cidOffsets : List ℕ) (bucket cid : ℕ) : Prop :=
  ∃ first last, cidOffsets[bucket]? = some first ∧ cidOffsets[bucket + 1]? = some last ∧
    first ≤ cid ∧ cid < last

/-! ## The boundary -/

theorem boundaryOf_cons_pos {first cid : ℕ} {rest : List ℕ} (hfirst : first ≤ cid) :
    boundaryOf (first :: rest) cid = boundaryOf rest cid + 1 := by
  simp [boundaryOf, hfirst]

theorem boundaryOf_cons_neg {first cid : ℕ} {rest : List ℕ} (hfirst : cid < first) :
    boundaryOf (first :: rest) cid = 0 := by
  simp [boundaryOf, hfirst]

/-- The bucket that covers a centroid ends at the boundary. -/
theorem covers_iff_boundary {cid : ℕ} : ∀ {offsets : List ℕ} {bucket : ℕ},
    offsets.Pairwise (· < ·) →
    (Covers offsets bucket cid ↔
      boundaryOf offsets cid = bucket + 1 ∧ bucket + 1 < offsets.length) := by
  intro offsets
  induction offsets with
  | nil =>
      intro bucket _
      simp [Covers]
  | cons first rest ih =>
      intro bucket hincreasing
      obtain ⟨hbelow, hrest⟩ := List.pairwise_cons.mp hincreasing
      by_cases hfirst : first ≤ cid
      · rw [boundaryOf_cons_pos hfirst]
        cases bucket with
        | zero =>
            cases rest with
            | nil => simp [Covers]
            | cons second rest =>
                rcases Nat.lt_or_ge cid second with hinside | hbeyond
                · rw [boundaryOf_cons_neg hinside]
                  simp [Covers, hfirst, hinside]
                · rw [boundaryOf_cons_pos hbeyond]
                  simp [Covers, Nat.not_lt.mpr hbeyond]
        | succ bucket =>
            have hinner := @ih bucket hrest
            simp only [Covers, List.getElem?_cons_succ, List.length_cons] at hinner ⊢
            rw [hinner]
            omega
      · rw [boundaryOf_cons_neg (Nat.lt_of_not_le hfirst)]
        refine iff_of_false ?_ (by omega)
        rintro ⟨lower, upper, hlower, -, hle, -⟩
        rcases List.mem_cons.mp (List.mem_of_getElem? hlower) with rfl | hmem
        · exact hfirst hle
        · have hlt := hbelow lower hmem
          omega

/-! ## Runs of buckets -/

/-- The runs from some bucket on. -/
def bucketRuns : ℕ → List ℕ → List ℕ
  | bucket, first :: second :: rest =>
      List.replicate (second - first) bucket ++ bucketRuns (bucket + 1) (second :: rest)
  | _, _ => []

theorem cidBuckets_eq_runs (offsets : List ℕ) : cidBuckets offsets = bucketRuns 0 offsets := by
  suffices hruns : ∀ bucket, ((offsets.zip offsets.tail).zipIdx bucket).flatMap
      (fun range => List.replicate (range.1.2 - range.1.1) range.2) = bucketRuns bucket offsets from
    hruns 0
  induction offsets with
  | nil =>
      intro bucket
      rfl
  | cons first rest ih =>
      intro bucket
      cases rest with
      | nil => rfl
      | cons second rest =>
          have hinner := ih (bucket + 1)
          simp only [List.tail_cons, List.zip_cons_cons, List.zipIdx_cons, List.flatMap_cons,
            bucketRuns] at hinner ⊢
          rw [hinner]

/-- The run that holds a centroid is that of its boundary. -/
theorem bucketRuns_getElem? {nlist : ℕ} : ∀ {first : ℕ} {rest : List ℕ} {bucket : ℕ},
    (first :: rest).Pairwise (· < ·) → (first :: rest).getLast? = some nlist →
    (bucketRuns bucket (first :: rest)).length = nlist - first ∧
    ∀ position, first + position < nlist →
      (bucketRuns bucket (first :: rest))[position]? =
        some (bucket + boundaryOf (first :: rest) (first + position) - 1) := by
  intro first rest
  induction rest generalizing first with
  | nil =>
      intro bucket _ hlast
      rw [List.getLast?_singleton, Option.some.injEq] at hlast
      subst hlast
      refine ⟨by simp [bucketRuns], fun position hposition => ?_⟩
      omega
  | cons second rest ih =>
      intro bucket hincreasing hlast
      obtain ⟨hbelow, hrest⟩ := List.pairwise_cons.mp hincreasing
      have hsecond := hbelow second List.mem_cons_self
      rw [List.getLast?_cons_cons] at hlast
      obtain ⟨hlength, hruns⟩ := @ih second (bucket + 1) hrest hlast
      have hend : second ≤ nlist := by
        rcases List.mem_cons.mp (List.mem_of_getLast? hlast) with heq | hmem
        · omega
        · exact ((List.pairwise_cons.mp hrest).1 nlist hmem).le
      rw [bucketRuns]
      refine ⟨?_, fun position hposition => ?_⟩
      · rw [List.length_append, List.length_replicate, hlength]
        omega
      · rcases Nat.lt_or_ge position (second - first) with hhere | hlater
        · rw [List.getElem?_append_left (by simpa using hhere), List.getElem?_replicate,
            if_pos hhere, boundaryOf_cons_pos (by omega), boundaryOf_cons_neg (by omega)]
          simp
        · rw [List.getElem?_append_right (by simpa using hlater), List.length_replicate]
          have hinner := hruns (position - (second - first)) (by omega)
          have hsame : second + (position - (second - first)) = first + position := by omega
          rw [hinner, hsame, @boundaryOf_cons_pos first _ _ (by omega)]
          congr 1
          omega

namespace Hierarchy

variable {cidOffsets : List ℕ} {nlist : ℕ}

theorem exists_cons (hierarchy : Hierarchy cidOffsets nlist) :
    ∃ second rest, cidOffsets = 0 :: second :: rest := by
  match cidOffsets, hierarchy.head, hierarchy.last, hierarchy.pos with
  | [first], hhead, hlast, hpos =>
      cases hhead
      rw [List.getLast?_singleton, Option.some.injEq] at hlast
      omega
  | first :: second :: rest, hhead, _, _ =>
      cases hhead
      exact ⟨second, rest, rfl⟩

/-- The writer gives each centroid the bucket that covers it. -/
theorem covers_cidBuckets (hierarchy : Hierarchy cidOffsets nlist) {cid : ℕ} (hcid : cid < nlist) :
    ∃ bucket, (cidBuckets cidOffsets)[cid]? = some bucket ∧ Covers cidOffsets bucket cid := by
  obtain ⟨second, rest, rfl⟩ := hierarchy.exists_cons
  have hruns := (@bucketRuns_getElem? nlist 0 (second :: rest) 0 hierarchy.increasing
    hierarchy.last).2 cid (by omega)
  rw [Nat.zero_add, Nat.zero_add] at hruns
  have hboundary : 0 < boundaryOf (0 :: second :: rest) cid := by
    rw [boundaryOf_cons_pos (Nat.zero_le _)]
    omega
  refine ⟨boundaryOf (0 :: second :: rest) cid - 1, ?_, ?_⟩
  · rw [cidBuckets_eq_runs]
    exact hruns
  · rw [covers_iff_boundary hierarchy.increasing]
    refine ⟨by omega, ?_⟩
    -- the last offset is beyond the centroid, so the boundary is not at the end
    have hle : boundaryOf (0 :: second :: rest) cid ≤ (0 :: second :: rest).length :=
      (List.takeWhile_sublist _).length_le
    rcases Nat.lt_or_eq_of_le hle with hlt | heq
    · omega
    · have hall : (0 :: second :: rest).takeWhile (· ≤ cid) = 0 :: second :: rest :=
        (List.takeWhile_sublist _).eq_of_length heq
      have hsmall := List.takeWhile_eq_self_iff.mp hall nlist
        (List.mem_of_getLast? hierarchy.last)
      rw [decide_eq_true_eq] at hsmall
      omega

theorem covers_unique (hierarchy : Hierarchy cidOffsets nlist) {cid left right : ℕ}
    (hleft : Covers cidOffsets left cid) (hright : Covers cidOffsets right cid) : left = right := by
  rw [covers_iff_boundary hierarchy.increasing] at hleft hright
  omega

end Hierarchy

end ParqDB.Ivf
