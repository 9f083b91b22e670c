import ParqDB.Foundations.Runs

/-!
# Concurrent reads

`mapConcurrent` of `src/browser/src/index.ts`: a few workers call the mapper for one value after
the other and write the results into their places.  The calls settle in any order.

**Results.**  However the calls settle, each value is mapped once and its result is in its place
when no call is left (`results_of_run`); as many calls settle as there are values
(`length_of_run`), and as long as one is under way, a run goes on (`exists_settle`).
-/

namespace ParqDB.Browser

open Foundations

variable {α β ε : Type}

/-- A call of `mapConcurrent`: the next position, the positions whose calls are under way, the
places of the results, and the first rejection. -/
structure Mapping (β ε : Type) where
  next : ℕ
  inFlight : List ℕ
  results : List (Option β)
  rejected : Option ε

namespace Mapping

section

variable (mapper : α → Except ε β) (values : List α)

/-- Every worker takes a position before its first await. -/
def start (concurrency : ℕ) : Mapping β ε where
  next := min concurrency values.length
  inFlight := List.range (min concurrency values.length)
  results := List.replicate values.length none
  rejected := none

/-- The worker takes another position, if there is one. -/
def takeNext (mapping : Mapping β ε) : Mapping β ε :=
  if mapping.next < values.length then
    { mapping with next := mapping.next + 1, inFlight := mapping.inFlight ++ [mapping.next] }
  else mapping

/-- The call for a position settles. -/
def settle (mapping : Mapping β ε) (position : ℕ) : Option (Mapping β ε) :=
  if position ∈ mapping.inFlight then
    values[position]?.map fun value =>
      match mapper value with
      | .ok result => takeNext values { mapping with
          inFlight := mapping.inFlight.erase position
          results := mapping.results.set position (some result) }
      | .error error => { mapping with
          inFlight := mapping.inFlight.erase position
          rejected := mapping.rejected.or (some error) }
  else none

/-- What the caller gets, if anything yet. -/
def outcome (mapping : Mapping β ε) : Option (Except ε (List (Option β))) :=
  match mapping.rejected with
  | some error => some (.error error)
  | none => if mapping.inFlight = [] then some (.ok mapping.results) else none

end

section

variable {mapper : α → Except ε β} {values : List α}

/-- A run: the positions in the order in which their calls settle. -/
def SettleRun (mapper : α → Except ε β) (values : List α) (concurrency : ℕ) (order : List ℕ)
    (final : Mapping β ε) : Prop :=
  Run (fun before position after => settle mapper values before position = some after)
    (start values concurrency) order final

/-- How far a call of `mapConcurrent` is, if the mapper succeeds. -/
structure Underway (result : α → β) (values : List α) (mapping : Mapping β ε) : Prop where
  next_le : mapping.next ≤ values.length
  taken : ∀ position ∈ mapping.inFlight, position < mapping.next
  nodup : mapping.inFlight.Nodup
  length : mapping.results.length = values.length
  results : ∀ position, position < mapping.next → position ∉ mapping.inFlight →
    mapping.results[position]? = values[position]?.map fun value => some (result value)
  busy : mapping.next < values.length → mapping.inFlight ≠ []
  rejected : mapping.rejected = none

variable {concurrency : ℕ} {mapping : Mapping β ε} {result : α → β} {position : ℕ}
  {final : Mapping β ε} {order : List ℕ}

theorem underway_start (result : α → β) (hconcurrency : 0 < concurrency) :
    Underway (β := β) (ε := ε) result values (start values concurrency) where
  next_le := Nat.min_le_right _ _
  taken _ hposition := List.mem_range.mp hposition
  nodup := List.nodup_range
  length := List.length_replicate
  results _ hlt hout := absurd (List.mem_range.mpr hlt) hout
  busy hlt := by
    have hpos : 0 < min concurrency values.length := by
      simp only [start] at hlt
      omega
    exact List.ne_nil_of_mem (List.mem_range.mpr hpos)
  rejected := rfl

theorem Underway.takeNext (hnext_le : mapping.next ≤ values.length)
    (htaken : ∀ position ∈ mapping.inFlight, position < mapping.next)
    (hnodup : mapping.inFlight.Nodup) (hlength : mapping.results.length = values.length)
    (hresults : ∀ position, position < mapping.next → position ∉ mapping.inFlight →
      mapping.results[position]? = values[position]?.map fun value => some (result value))
    (hrejected : mapping.rejected = none) : Underway result values (takeNext values mapping) := by
  unfold Mapping.takeNext
  split
  · next hlt =>
      refine ⟨hlt, ?_, ?_, hlength, ?_, fun _ => by simp, hrejected⟩
      · intro position hposition
        rcases List.mem_append.mp hposition with hold | hnew
        · exact Nat.lt_succ_of_lt (htaken position hold)
        · rw [List.mem_singleton.mp hnew]
          exact Nat.lt_succ_self _
      · refine List.nodup_append.mpr ⟨hnodup, by simp, ?_⟩
        intro position hold other hnew hsame
        rw [hsame, List.mem_singleton.mp hnew] at hold
        exact Nat.lt_irrefl _ (htaken _ hold)
      · intro position hposition hout
        rw [List.mem_append, List.mem_singleton, not_or] at hout
        exact hresults position (by dsimp only at hposition; omega) hout.1
  · next hge =>
      exact ⟨hnext_le, htaken, hnodup, hlength, hresults, fun hlt => absurd hlt hge, hrejected⟩

variable {after : Mapping β ε}

section

variable (hmapper : ∀ value ∈ values, mapper value = .ok (result value))

include hmapper

/-- One call settles. -/
theorem Underway.settle (hunderway : Underway result values mapping)
    (hsettle : settle mapper values mapping position = some after) :
    Underway result values after := by
  obtain ⟨hnext_le, htaken, hnodup, hlength, hresults, -, hrejected⟩ := hunderway
  unfold Mapping.settle at hsettle
  split at hsettle
  · next hposition =>
      obtain ⟨value, hvalue, hafter⟩ := Option.map_eq_some_iff.mp hsettle
      rw [hmapper value (List.mem_of_getElem? hvalue)] at hafter
      rw [← hafter]
      refine Underway.takeNext hnext_le ?_ (hnodup.erase position) ?_ ?_ hrejected
      · intro other hother
        exact htaken other (List.mem_of_mem_erase hother)
      · rw [List.length_set]
        exact hlength
      · intro other hother hout
        by_cases hsame : other = position
        · have hbound : position < mapping.results.length := by
            rw [hlength]
            exact (List.getElem?_eq_some_iff.mp hvalue).1
          rw [hsame, List.getElem?_set_self hbound, hvalue]
          rfl
        · rw [List.getElem?_set_ne (Ne.symm hsame)]
          refine hresults other hother fun hmem => hout ?_
          exact (List.mem_erase_of_ne hsame).mpr hmem
  · cases hsettle

theorem underway_of_run
    (hconcurrency : 0 < concurrency) (hrun : SettleRun mapper values concurrency order final) :
    Underway result values final :=
  Run.invariant (fun _ _ _ hbefore hstep => hbefore.settle hmapper hstep)
    (underway_start result hconcurrency) hrun

/-- When no call is left, every result is in its place. -/
theorem results_of_run
    (hconcurrency : 0 < concurrency) (hrun : SettleRun mapper values concurrency order final)
    (hdone : final.inFlight = []) :
    final.outcome = some (.ok (values.map fun value => some (result value))) := by
  have hunderway := underway_of_run hmapper hconcurrency hrun
  have hall : final.next = values.length := by
    by_contra hne
    exact hunderway.busy (Nat.lt_of_le_of_ne hunderway.next_le hne) hdone
  have hresults : final.results = values.map fun value => some (result value) := by
    apply List.ext_getElem?
    intro position
    rcases Nat.lt_or_ge position values.length with hlt | hge
    · rw [hunderway.results position (hall ▸ hlt) (by rw [hdone]; exact List.not_mem_nil),
        List.getElem?_map]
    · rw [List.getElem?_eq_none (hunderway.length ▸ hge),
        List.getElem?_eq_none (by rwa [List.length_map])]
  rw [outcome, hunderway.rejected]
  dsimp only
  rw [if_pos hdone, hresults]

/-- While a call is under way, it can settle. -/
theorem exists_settle
    (hconcurrency : 0 < concurrency) (hrun : SettleRun mapper values concurrency order final)
    (hposition : position ∈ final.inFlight) :
    ∃ after, settle mapper values final position = some after := by
  have hunderway := underway_of_run hmapper hconcurrency hrun
  have hbound := Nat.lt_of_lt_of_le (hunderway.taken position hposition) hunderway.next_le
  unfold Mapping.settle
  rw [if_pos hposition, List.getElem?_eq_getElem hbound]
  exact ⟨_, rfl⟩

end

/-- The calls that have not settled. -/
def left (values : List α) (mapping : Mapping β ε) : ℕ :=
  values.length - mapping.next + mapping.inFlight.length

theorem left_settle (hmapper : ∀ value ∈ values, mapper value = .ok (result value))
    (hsettle : settle mapper values mapping position = some after) :
    left values after + 1 = left values mapping := by
  unfold Mapping.settle at hsettle
  split at hsettle
  · next hposition =>
      obtain ⟨value, hvalue, hafter⟩ := Option.map_eq_some_iff.mp hsettle
      rw [hmapper value (List.mem_of_getElem? hvalue)] at hafter
      have hpos := List.length_pos_of_mem hposition
      dsimp only at hafter
      rw [← hafter]
      unfold Mapping.takeNext
      split
      · next hlt =>
          simp only [left, List.length_append, List.length_singleton,
            List.length_erase_of_mem hposition] at hlt ⊢
          omega
      · simp only [left, List.length_erase_of_mem hposition]
        omega
  · cases hsettle

/-- As many calls settle as there are values. -/
theorem length_of_run (hmapper : ∀ value ∈ values, mapper value = .ok (result value))
    (hrun : SettleRun mapper values concurrency order final) :
    order.length + left values final = values.length := by
  have hcount : ∀ (order : List ℕ) (first : Mapping β ε),
      Run (fun before position after => settle mapper values before position = some after)
        first order final → order.length + left values final = left values first := by
    intro order
    induction order with
    | nil =>
        intro first hrun
        have hsame : first = final := hrun
        rw [hsame, List.length_nil, Nat.zero_add]
    | cons position order ih =>
        rintro first ⟨next, hstep, hrest⟩
        have hleft := left_settle hmapper hstep
        have hmore := ih next hrest
        rw [List.length_cons]
        omega
  rw [hcount order _ hrun]
  simp only [left, start, List.length_range]
  omega

end

end Mapping

end ParqDB.Browser
