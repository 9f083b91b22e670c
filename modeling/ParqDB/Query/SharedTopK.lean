import Mathlib.Data.List.GetD
import ParqDB.Query.Selection

/-!
# Top-K with a shared threshold

The partitions together emit the nearest rows of the whole input, whatever the interleaving.

**Strategy.**  Every value that the threshold, the expression or a partition holds is one
that `k` of the kept rows have (`Certified`).  A row that is pruned with such a limit, or
lost by a selector, is dominated by kept rows, so the kept and the unread rows `Retain` the
input.  One step keeps all this (`advance_spec`), with the rows of the other partitions as
a context.

**Results.**

* `shared_threshold_topk`: the emitted rows, the lower bound of the threshold, and that it
  never increases.
-/

namespace ParqDB.Query

open Foundations

/-! ## Rows -/

def Purpose.batch : Purpose → List Distance
  | .sync batch => batch
  | .tighten => []

/-- The batch that a partition has read and not processed yet. -/
def Phase.batch : Phase → List Distance
  | .lowering purpose _ | .comparing purpose _ _ => purpose.batch
  | .loading batch | .selecting batch _ => batch
  | .waiting | .updating _ | .finished _ => []

/-- The values of the threshold that a partition holds. -/
def Phase.limits : Phase → List Distance
  | .lowering _ candidate | .updating candidate => [candidate]
  | .comparing _ candidate current => [candidate, current]
  | .selecting _ limit => [limit]
  | .waiting | .loading _ | .finished _ => []

def Phase.emitted? : Phase → Option (List Distance)
  | .finished emitted => some emitted
  | _ => none

namespace Partition

/-- The rows that a partition keeps. -/
def kept (partition : Partition) : List ℤ :=
  match partition.phase.emitted? with
  | some emitted => emitted.map Distance.value
  | none => partition.selector.rows

/-- The rows that a partition has not processed. -/
def unread (partition : Partition) : List ℤ :=
  (partition.phase.batch ++ partition.batches.flatten).map Distance.value

end Partition

namespace IvfTopK

def kept (system : IvfTopK) : List ℤ := (system.partitions.map Partition.kept).flatten

def unread (system : IvfTopK) : List ℤ := (system.partitions.map Partition.unread).flatten

/-- What the partitions emit, when all of them have finished. -/
def emitted? (system : IvfTopK) : Option (List Distance) :=
  (system.partitions.mapM fun partition : Partition => partition.phase.emitted?).map List.flatten

end IvfTopK

/-! ## The invariant -/

variable {k : ℕ}

/-- No limit, or one that `k` rows have. -/
def Certified (k : ℕ) (rows : List ℤ) (limit : Distance) : Prop :=
  limit = .infinity ∨ Dominated k rows limit.value

structure PartitionSound (k : ℕ) (rows : List ℤ) (partition : Partition) : Prop where
  selector : partition.phase.emitted? = none → partition.selector.Sound k
  limits : ∀ limit ∈ partition.phase.limits, Certified k rows limit
  finite : ∀ distance ∈ partition.phase.batch ++ partition.batches.flatten, distance.Finite
  drained : partition.phase.emitted? ≠ none → partition.batches = []

structure ThresholdSound (k : ℕ) (rows : List ℤ) (threshold : DynamicThreshold) : Prop where
  nonempty : threshold.history ≠ []
  history : ∀ limit ∈ threshold.history, Certified k rows limit
  expression : ∀ limit ∈ threshold.expression, Certified k rows limit

variable {rows others : List ℤ} {partition : Partition} {threshold : DynamicThreshold}
  {after : List ℤ} {limit : Distance}

theorem Certified.retains (hcertified : Certified k rows limit) (hretains : Retains k rows after) :
    Certified k after limit :=
  hcertified.imp_right hretains.dominated

theorem Certified.append (hcertified : Certified k rows limit) (extra : List ℤ) :
    Certified k (rows ++ extra) limit :=
  hcertified.imp_right fun hdominated => hdominated.append extra

/-- More rows, less dominated ones. -/
def Grows (k : ℕ) (before after : List ℤ) : Prop :=
  ∀ limit, Certified k before limit → Certified k after limit

theorem Grows.refl (rows : List ℤ) : Grows k rows rows := fun _ hcertified => hcertified

theorem grows_of_retains {extra : List ℤ} (hretains : Retains k (rows ++ extra) after) :
    Grows k rows after :=
  fun _ hcertified => (hcertified.append extra).retains hretains

theorem ThresholdSound.grows (hsound : ThresholdSound k rows threshold)
    (hgrows : Grows k rows after) : ThresholdSound k after threshold where
  nonempty := hsound.nonempty
  history := fun limit hlimit => hgrows limit (hsound.history limit hlimit)
  expression := fun limit hlimit => hgrows limit (hsound.expression limit hlimit)

theorem PartitionSound.grows (hsound : PartitionSound k rows partition)
    (hgrows : Grows k rows after) : PartitionSound k after partition where
  selector := hsound.selector
  limits := fun limit hlimit => hgrows limit (hsound.limits limit hlimit)
  finite := hsound.finite
  drained := hsound.drained

theorem ThresholdSound.load (hsound : ThresholdSound k rows threshold) (read : ℕ) :
    Certified k rows (threshold.load read) := by
  have hlength : 0 < threshold.history.length := List.length_pos_iff.mpr hsound.nonempty
  refine hsound.history _ ?_
  rw [DynamicThreshold.load, List.getD_eq_getElem _ _ (Nat.mod_lt _ hlength)]
  exact List.getElem_mem _

theorem ThresholdSound.value (hsound : ThresholdSound k rows threshold) :
    Certified k rows threshold.value := by
  obtain ⟨history, expression⟩ := threshold
  cases history with
  | nil => exact absurd rfl hsound.nonempty
  | cons limit history => exact hsound.history limit List.mem_cons_self

/-! ## One step of a partition -/

/-- What a step of a partition does, with the rows that the other partitions keep. -/
structure StepSound (k : ℕ) (others : List ℤ) (partition after : Partition)
    (threshold afterThreshold : DynamicThreshold) : Prop where
  partitionSound : PartitionSound k (others ++ after.kept) after
  thresholdSound : ThresholdSound k (others ++ after.kept) afterThreshold
  grows : Grows k (others ++ partition.kept) (others ++ after.kept)
  retains : Retains k (others ++ partition.kept ++ partition.unread)
    (others ++ after.kept ++ after.unread)
  decreases : afterThreshold.value.totalKey ≤ threshold.value.totalKey

/-- A step that leaves all rows where they are. -/
theorem stepSound_of_same {after : Partition} {afterThreshold : DynamicThreshold}
    (hsound : PartitionSound k (others ++ partition.kept) partition)
    (hselector : after.selector = partition.selector)
    (hbefore : partition.phase.emitted? = none) (hafter : after.phase.emitted? = none)
    (hread : after.phase.batch ++ after.batches.flatten =
      partition.phase.batch ++ partition.batches.flatten)
    (hlimits : ∀ limit ∈ after.phase.limits, Certified k (others ++ partition.kept) limit)
    (hthreshold : ThresholdSound k (others ++ partition.kept) afterThreshold)
    (hdecreases : afterThreshold.value.totalKey ≤ threshold.value.totalKey) :
    StepSound k others partition after threshold afterThreshold := by
  have hkept : after.kept = partition.kept := by
    simp only [Partition.kept, hafter, hbefore, hselector]
  have hunread : after.unread = partition.unread := by
    simp only [Partition.unread, hread]
  refine ⟨⟨?_, ?_, ?_, ?_⟩, ?_, ?_, ?_, hdecreases⟩
  · intro _
    rw [hselector]
    exact hsound.selector hbefore
  · rw [hkept]
    exact hlimits
  · rw [hread]
    exact hsound.finite
  · intro hemitted
    exact absurd hafter hemitted
  · rw [hkept]
    exact hthreshold
  · rw [hkept]
    exact Grows.refl _
  · rw [hkept, hunread]
    exact Retains.refl _

/-- A successful exchange. -/
theorem ThresholdSound.lower (hsound : ThresholdSound k rows threshold) {candidate : Distance}
    (hcandidate : Certified k rows candidate) :
    ThresholdSound k rows { threshold with history := candidate :: threshold.history } where
  nonempty := List.cons_ne_nil _ _
  history := by
    intro limit hlimit
    rcases List.mem_cons.mp hlimit with rfl | hold
    · exact hcandidate
    · exact hsound.history limit hold
  expression := hsound.expression

/-- The rows of a batch that are pruned are dominated by the kept rows. -/
theorem dominated_of_pruned {distance : Distance} (hcertified : Certified k rows limit)
    (hfinite : distance.Finite) (hpruned : ¬ distance.value < limit.value) :
    Dominated k rows distance.value := by
  rcases hcertified with rfl | hdominated
  · exact absurd (Distance.value_lt_infinity hfinite) hpruned
  · exact hdominated.mono (not_lt.mp hpruned)

/-- Processing a batch. -/
theorem retains_updateBatch {selector : CandidateSelector} {batch : List Distance}
    (hselector : selector.Sound k) (hfinite : ∀ distance ∈ batch, distance.Finite)
    (hlimit : Certified k (others ++ selector.rows) limit) :
    Retains k (others ++ selector.rows ++ batch.map Distance.value)
      (others ++ (selector.updateBatch batch limit).rows) := by
  set below := CandidateSelector.rowsBelow limit batch with hbelow
  set pruned := (batch.filter fun distance => !decide (distance.value < limit.value)).map
    Distance.value with hpruned
  have hsplit : (batch.map Distance.value).Perm (pruned ++ below) := by
    rw [hpruned, hbelow, CandidateSelector.rowsBelow, ← List.map_append]
    refine List.Perm.map _ ?_
    exact (List.filter_append_perm (fun distance : Distance =>
      decide (distance.value < limit.value)) batch).symm.trans List.perm_append_comm
  have hdropped : ∀ row ∈ pruned, Dominated k (others ++ selector.rows ++ below) row := by
    intro row hrow
    obtain ⟨distance, hdistance, rfl⟩ := List.mem_map.mp hrow
    obtain ⟨hmem, habove⟩ := List.mem_filter.mp hdistance
    refine (dominated_of_pruned hlimit (hfinite distance hmem) ?_).append below
    simpa using habove
  have hreorder : (others ++ selector.rows ++ batch.map Distance.value).Perm
      (pruned ++ (others ++ selector.rows ++ below)) := by
    refine (hsplit.append_left _).trans ?_
    rw [← List.append_assoc, ← List.append_assoc]
    exact List.perm_append_comm.append_right below
  have hupdate := (hselector.updateBatch batch limit).2.append_left others
  rw [← List.append_assoc] at hupdate
  exact (Retains.of_perm hreorder).trans ((Retains.drop hdropped).trans hupdate)

theorem emitted?_lowered (purpose : Purpose) (candidate : Distance) (success : Bool) :
    (Partition.lowered purpose candidate success).emitted? = none := by
  cases purpose <;> cases success <;> rfl

theorem batch_lowered (purpose : Purpose) (candidate : Distance) (success : Bool) :
    (Partition.lowered purpose candidate success).batch = purpose.batch := by
  cases purpose <;> cases success <;> rfl

theorem limits_lowered {purpose : Purpose} {candidate : Distance} {success : Bool}
    (hlimit : limit ∈ (Partition.lowered purpose candidate success).limits) :
    limit = candidate := by
  cases purpose <;> cases success <;> simp [Partition.lowered, Phase.limits] at hlimit
  exact hlimit

/-- A step that processes a batch. -/
theorem stepSound_of_update {batch : List Distance} {phase : Phase}
    (hsound : PartitionSound k (others ++ partition.kept) partition)
    (hthreshold : ThresholdSound k (others ++ partition.kept) threshold)
    (hbefore : partition.phase.emitted? = none) (hphase : partition.phase = .selecting batch limit)
    (hlimit : Certified k (others ++ partition.kept) limit)
    (hfinite : ∀ distance ∈ batch, distance.Finite) (hafter : phase.emitted? = none)
    (hbatch : phase.batch = []) (hlimits : ∀ other ∈ phase.limits,
      (partition.selector.updateBatch batch limit).threshold = some other) :
    StepSound k others partition
      { partition with selector := partition.selector.updateBatch batch limit, phase := phase }
      threshold threshold := by
  have hselector := hsound.selector hbefore
  have hupdated := (hselector.updateBatch batch limit).1
  have hkept : partition.kept = partition.selector.rows := by
    simp only [Partition.kept, hbefore]
  have hkeptAfter : ({ partition with
      selector := partition.selector.updateBatch batch limit, phase := phase } : Partition).kept =
      (partition.selector.updateBatch batch limit).rows := by
    simp only [Partition.kept, hafter]
  rw [hkept] at hlimit
  have hretains := retains_updateBatch hselector hfinite hlimit
  have hgrows : Grows k (others ++ partition.kept)
      (others ++ (partition.selector.updateBatch batch limit).rows) := by
    rw [hkept]
    exact grows_of_retains hretains
  refine ⟨⟨fun _ => hupdated, ?_, ?_, ?_⟩, ?_, ?_, ?_, le_refl _⟩
  · intro other hother
    rw [hkeptAfter]
    refine Or.inr (Dominated.perm ?_ List.perm_append_comm)
    exact (hupdated.dominated_threshold (hlimits other hother)).append others
  · intro distance hdistance
    refine hsound.finite distance (List.mem_append_right _ ?_)
    dsimp only at hdistance
    rw [hbatch, List.nil_append] at hdistance
    exact hdistance
  · intro hemitted
    exact absurd hafter hemitted
  · rw [hkeptAfter]
    exact hthreshold.grows hgrows
  · rw [hkeptAfter]
    exact hgrows
  · rw [hkeptAfter, hkept, Partition.unread, Partition.unread, hphase, hbatch, List.nil_append,
      List.map_append, ← List.append_assoc]
    exact hretains.append_right _

/-- One step of a partition. -/
theorem advance_spec (hsound : PartitionSound k (others ++ partition.kept) partition)
    (hthreshold : ThresholdSound k (others ++ partition.kept) threshold) (read : ℕ)
    (spurious : Bool) :
    StepSound k others partition (partition.advance threshold read spurious).1 threshold
      (partition.advance threshold read spurious).2 := by
  have hlimits := hsound.limits
  have hfinite := hsound.finite
  rw [Partition.advance]
  split
  -- between two batches: the next one is taken, or the rows that are left are emitted
  · rename_i hphase
    have hbefore : partition.phase.emitted? = none := by rw [hphase]; rfl
    split
    · rename_i batch batches hbatches
      have hread : batch ++ batches.flatten =
          partition.phase.batch ++ partition.batches.flatten := by
        rw [hphase, hbatches]
        rfl
      split
      · rename_i literal hliteral
        refine stepSound_of_same hsound rfl hbefore rfl hread ?_ hthreshold (le_refl _)
        intro limit hlimit
        rw [List.mem_singleton.mp hlimit]
        exact hthreshold.expression literal hliteral
      · exact stepSound_of_same hsound rfl hbefore rfl hread
          (fun _ hlimit => absurd hlimit List.not_mem_nil) hthreshold (le_refl _)
    · rename_i hbatches
      have hselector := hsound.selector hbefore
      have hkept : partition.kept = partition.selector.rows := by
        simp only [Partition.kept, hbefore]
      have hretains := hselector.finish.append_left others
      have hgrows : Grows k (others ++ partition.kept)
          (others ++ partition.selector.compactRetained.finish.map Distance.value) := by
        have hnothing : Retains k (others ++ partition.kept ++ [])
            (others ++ partition.selector.compactRetained.finish.map Distance.value) := by
          rw [List.append_nil, hkept]
          exact hretains
        exact grows_of_retains hnothing
      refine ⟨⟨?_, ?_, ?_, fun _ => hbatches⟩, hthreshold.grows hgrows, hgrows, ?_, le_refl _⟩
      · intro hemitted
        cases hemitted
      · intro limit hlimit
        cases hlimit
      · intro distance hdistance
        simp [Phase.batch, hbatches] at hdistance
      · rw [hkept, Partition.unread, Partition.unread, hphase, hbatches]
        simpa [Phase.batch, Partition.kept, Phase.emitted?] using hretains
  -- `tighten_atomic` loads the threshold
  · rename_i purpose candidate hphase
    have hbefore : partition.phase.emitted? = none := by rw [hphase]; rfl
    refine stepSound_of_same hsound rfl hbefore rfl ?_ ?_ hthreshold (le_refl _)
    · rw [hphase]
      rfl
    · intro limit hlimit
      rcases List.mem_cons.mp hlimit with rfl | hlast
      · exact hlimits limit (by rw [hphase]; exact List.mem_cons_self)
      · rw [List.mem_singleton.mp hlast]
        exact hthreshold.load read
  -- it has nothing to lower, lowers, or loads again after a failed exchange
  · rename_i purpose candidate current hphase
    have hbefore : partition.phase.emitted? = none := by rw [hphase]; rfl
    have hcandidate : Certified k (others ++ partition.kept) candidate :=
      hlimits candidate (by rw [hphase]; exact List.mem_cons_self)
    split
    · refine stepSound_of_same hsound rfl hbefore (emitted?_lowered _ _ _) ?_ ?_ hthreshold
        (le_refl _)
      · dsimp only
        rw [batch_lowered, hphase]
        rfl
      · intro limit hlimit
        rw [limits_lowered hlimit]
        exact hcandidate
    · rename_i hless
      split
      · rename_i hcurrent
        refine stepSound_of_same hsound rfl hbefore (emitted?_lowered _ _ _) ?_ ?_
          (hthreshold.lower hcandidate) ?_
        · dsimp only
          rw [batch_lowered, hphase]
          rfl
        · intro limit hlimit
          rw [limits_lowered hlimit]
          exact hcandidate
        · rw [← hcurrent.1]
          exact (not_not.mp hless).le
      · refine stepSound_of_same hsound rfl hbefore rfl ?_ ?_ hthreshold (le_refl _)
        · rw [hphase]
          rfl
        · intro limit hlimit
          rcases List.mem_cons.mp hlimit with rfl | hlast
          · exact hcandidate
          · rw [List.mem_singleton.mp hlast]
            exact hthreshold.load read
  -- the limit of a batch is loaded
  · rename_i batch hphase
    have hbefore : partition.phase.emitted? = none := by rw [hphase]; rfl
    refine stepSound_of_same hsound rfl hbefore rfl ?_ ?_ hthreshold (le_refl _)
    · rw [hphase]
      rfl
    · intro limit hlimit
      rw [List.mem_singleton.mp hlimit]
      exact hthreshold.load read
  -- the batch is selected from, and its bound is published if it has one
  · rename_i batch limit hphase
    have hbefore : partition.phase.emitted? = none := by rw [hphase]; rfl
    have hlimit : Certified k (others ++ partition.kept) limit :=
      hlimits limit (by rw [hphase]; exact List.mem_cons_self)
    have hbatch : ∀ distance ∈ batch, distance.Finite := by
      intro distance hdistance
      exact hfinite distance (List.mem_append_left _ (by rw [hphase]; exact hdistance))
    dsimp only
    split
    · rename_i distance hdistance
      refine stepSound_of_update hsound hthreshold hbefore hphase hlimit hbatch rfl rfl ?_
      intro other hother
      rw [List.mem_singleton.mp hother]
      exact hdistance
    · exact stepSound_of_update hsound hthreshold hbefore hphase hlimit hbatch rfl rfl
        fun _ hother => absurd hother List.not_mem_nil
  -- the candidate becomes the literal of the expression
  · rename_i candidate hphase
    have hbefore : partition.phase.emitted? = none := by rw [hphase]; rfl
    have hcandidate : Certified k (others ++ partition.kept) candidate :=
      hlimits candidate (by rw [hphase]; exact List.mem_cons_self)
    refine stepSound_of_same hsound rfl hbefore rfl ?_ (fun _ hlimit => absurd hlimit
      List.not_mem_nil) ⟨hthreshold.nonempty, hthreshold.history, ?_⟩ (le_refl _)
    · rw [hphase]
      rfl
    · intro literal hliteral
      cases hliteral
      exact hcandidate
  · exact ⟨hsound, hthreshold, Grows.refl _, Retains.refl _, le_refl _⟩

/-! ## One step of the system -/

/-- The kept and unread rows retain the input, and all limits are certified. -/
structure Correct (k : ℕ) (input : List ℤ) (system : IvfTopK) : Prop where
  retains : Retains k input (system.kept ++ system.unread)
  threshold : ThresholdSound k system.kept system.threshold
  partitions : ∀ partition ∈ system.partitions, PartitionSound k system.kept partition

/-- The lists of all partitions, with that of one partition at the end. -/
theorem perm_flatten_split {α : Type*} (rows : Partition → List α) (left right : List Partition)
    (partition : Partition) :
    ((left ++ partition :: right).map rows).flatten.Perm
      (((left ++ right).map rows).flatten ++ rows partition) := by
  simp only [List.map_append, List.map_cons, List.flatten_append, List.flatten_cons,
    List.append_assoc]
  exact List.perm_append_comm.append_left _

theorem grows_of_perm {before : List ℤ} (hperm : before.Perm after) : Grows k before after :=
  fun _ hcertified => hcertified.retains (Retains.of_perm hperm)

theorem Grows.trans {first second third : List ℤ} (hleft : Grows k first second)
    (hright : Grows k second third) : Grows k first third :=
  fun limit hcertified => hright limit (hleft limit hcertified)

variable {input : List ℤ} {system : IvfTopK} {streams : List (List (List Distance))}

theorem Correct.next (hcorrect : Correct k input system) (action : Action) :
    Correct k input (system.next action) ∧
      (system.next action).threshold.value.totalKey ≤ system.threshold.value.totalKey := by
  rw [IvfTopK.next]
  cases hpartition : system.partitions[action.partition]? with
  | none => exact ⟨hcorrect, le_refl _⟩
  | some partition =>
      dsimp only
      obtain ⟨hlength, hget⟩ := List.getElem?_eq_some_iff.mp hpartition
      set left := system.partitions.take action.partition with hleft
      set right := system.partitions.drop (action.partition + 1) with hright
      have hsplit : system.partitions = left ++ partition :: right := by
        rw [hleft, hright, ← hget, List.getElem_cons_drop, List.take_append_drop]
      set after := (partition.advance system.threshold action.read action.spurious).1 with hafter
      set threshold := (partition.advance system.threshold action.read action.spurious).2
        with hthreshold
      have hset : system.partitions.set action.partition after = left ++ after :: right :=
        List.set_eq_take_append_cons_drop.trans (if_pos hlength)
      set others := ((left ++ right).map Partition.kept).flatten with hothers
      set othersUnread := ((left ++ right).map Partition.unread).flatten with hothersUnread
      have hkept : system.kept.Perm (others ++ partition.kept) := by
        rw [IvfTopK.kept, hsplit]
        exact perm_flatten_split Partition.kept left right partition
      have hunread : system.unread.Perm (othersUnread ++ partition.unread) := by
        rw [IvfTopK.unread, hsplit]
        exact perm_flatten_split Partition.unread left right partition
      have hkeptAfter : (IvfTopK.mk threshold (left ++ after :: right)).kept.Perm
          (others ++ after.kept) := perm_flatten_split Partition.kept left right after
      have hunreadAfter : (IvfTopK.mk threshold (left ++ after :: right)).unread.Perm
          (othersUnread ++ after.unread) := perm_flatten_split Partition.unread left right after
      have hmem : partition ∈ system.partitions := List.mem_of_getElem? hpartition
      have hstep := advance_spec ((hcorrect.partitions partition hmem).grows (grows_of_perm hkept))
        (hcorrect.threshold.grows (grows_of_perm hkept)) action.read action.spurious
      have hgrows : Grows k system.kept
          (IvfTopK.mk threshold (left ++ after :: right)).kept :=
        (grows_of_perm hkept).trans (hstep.grows.trans (grows_of_perm hkeptAfter.symm))
      rw [hset]
      refine ⟨⟨?_, hstep.thresholdSound.grows (grows_of_perm hkeptAfter.symm), ?_⟩,
        hstep.decreases⟩
      · have hbefore : (system.kept ++ system.unread).Perm
            (others ++ partition.kept ++ partition.unread ++ othersUnread) := by
          refine (hkept.append hunread).trans ?_
          rw [List.append_assoc (others ++ partition.kept)]
          exact List.perm_append_comm.append_left _
        have hend : (others ++ after.kept ++ after.unread ++ othersUnread).Perm
            ((IvfTopK.mk threshold (left ++ after :: right)).kept ++
              (IvfTopK.mk threshold (left ++ after :: right)).unread) := by
          refine List.Perm.trans ?_ (hkeptAfter.append hunreadAfter).symm
          rw [List.append_assoc (others ++ after.kept)]
          exact List.perm_append_comm.append_left _
        refine hcorrect.retains.trans ((Retains.of_perm hbefore).trans ?_)
        exact (hstep.retains.append_right othersUnread).trans (Retains.of_perm hend)
      · intro other hother
        have hold : ∀ other ∈ left ++ right, PartitionSound k
            (IvfTopK.mk threshold (left ++ after :: right)).kept other := by
          intro other hother
          refine (hcorrect.partitions other ?_).grows hgrows
          rw [hsplit]
          rcases List.mem_append.mp hother with hbefore | hbehind
          · exact List.mem_append_left _ hbefore
          · exact List.mem_append_right _ (List.mem_cons_of_mem _ hbehind)
        rcases List.mem_append.mp hother with hbefore | hrest
        · exact hold other (List.mem_append_left _ hbefore)
        · rcases List.mem_cons.mp hrest with rfl | hbehind
          · exact hstep.partitionSound.grows (grows_of_perm hkeptAfter.symm)
          · exact hold other (List.mem_append_right _ hbehind)

/-! ## Every interleaving -/

/-- The rows of all streams. -/
def inputRows (streams : List (List (List Distance))) : List ℤ :=
  (streams.map fun batches => batches.flatten.map Distance.value).flatten

theorem lt_infinity_of_mem {row : ℤ}
    (hfinite : ∀ batches ∈ streams, ∀ batch ∈ batches, ∀ distance ∈ batch, distance.Finite)
    (hrow : row ∈ inputRows streams) : row < Distance.infinity.value := by
  obtain ⟨rows, hrows, hmem⟩ := List.mem_flatten.mp hrow
  obtain ⟨batches, hbatches, rfl⟩ := List.mem_map.mp hrows
  obtain ⟨distance, hdistance, rfl⟩ := List.mem_map.mp hmem
  obtain ⟨batch, hbatch, hmember⟩ := List.mem_flatten.mp hdistance
  exact Distance.value_lt_infinity (hfinite batches hbatches batch hbatch distance hmember)

theorem kept_new (fetch : ℕ) (batches : List (List Distance)) :
    (Partition.new fetch batches).kept = [] := by
  change (CandidateSelector.new fetch).rows = []
  rw [CandidateSelector.rows, CandidateSelector.retained, CandidateSelector.new]
  split
  · rename_i heap hheap
    dsimp only at hheap
    split at hheap
    · cases hheap
      rfl
    · cases hheap
  · rfl

theorem correct_new (hk : 0 < k)
    (hfinite : ∀ batches ∈ streams, ∀ batch ∈ batches, ∀ distance ∈ batch, distance.Finite) :
    Correct k (inputRows streams) (IvfTopK.new k streams) := by
  have hkept : (IvfTopK.new k streams).kept = [] := by
    rw [IvfTopK.kept, List.flatten_eq_nil_iff]
    intro rows hrows
    obtain ⟨partition, hpartition, rfl⟩ := List.mem_map.mp hrows
    obtain ⟨batches, -, rfl⟩ := List.mem_map.mp hpartition
    exact kept_new k batches
  have hunread : (IvfTopK.new k streams).unread = inputRows streams := by
    rw [IvfTopK.unread, IvfTopK.new, List.map_map]
    rfl
  refine ⟨?_, ⟨List.cons_ne_nil _ _, ?_, ?_⟩, ?_⟩
  · rw [hkept, hunread]
    exact Retains.refl _
  · intro limit hlimit
    exact Or.inl (List.mem_singleton.mp hlimit)
  · intro limit hlimit
    cases hlimit
  · intro partition hpartition
    obtain ⟨batches, hbatches, rfl⟩ := List.mem_map.mp hpartition
    refine ⟨fun _ => CandidateSelector.sound_new hk, ?_, ?_, fun hemitted => absurd rfl hemitted⟩
    · intro limit hlimit
      cases hlimit
    · intro distance hdistance
      obtain ⟨batch, hbatch, hmem⟩ := List.mem_flatten.mp hdistance
      exact hfinite batches hbatches batch hbatch distance hmem

/-- When all partitions have finished, the kept rows are the emitted ones and none is unread. -/
theorem Correct.emitted (hcorrect : Correct k input system) {emitted : List Distance}
    (hemitted : system.emitted? = some emitted) :
    system.kept = emitted.map Distance.value ∧ system.unread = [] := by
  obtain ⟨lists, hlists, rfl⟩ := Option.map_eq_some_iff.mp hemitted
  have hpartitions := hcorrect.partitions
  rw [IvfTopK.kept, IvfTopK.unread]
  generalize system.kept = rows at hpartitions
  clear hcorrect hemitted
  generalize system.partitions = partitions at hpartitions hlists ⊢
  induction partitions generalizing lists with
  | nil =>
      cases hlists
      exact ⟨rfl, rfl⟩
  | cons partition partitions ih =>
      rw [List.mapM_cons] at hlists
      obtain ⟨first, hfirst, hmore⟩ := Option.bind_eq_some_iff.mp hlists
      obtain ⟨rest, hrest, heq⟩ := Option.bind_eq_some_iff.mp hmore
      cases heq
      obtain ⟨hkept, hunread⟩ := ih rest
        (fun other hother => hpartitions other (List.mem_cons_of_mem _ hother)) hrest
      have hdrained := (hpartitions partition List.mem_cons_self).drained (by simp [hfirst])
      have hbatch : partition.phase.batch = [] := by
        cases hphase : partition.phase <;> simp [hphase, Phase.emitted?, Phase.batch] at hfirst ⊢
      have hself : partition.kept = first.map Distance.value := by
        simp only [Partition.kept, hfirst]
      have hselfUnread : partition.unread = [] := by
        rw [Partition.unread, hbatch, hdrained]
        rfl
      rw [List.map_cons, List.map_cons, List.flatten_cons, List.flatten_cons, List.flatten_cons,
        hkept, hunread, hself, hselfUnread, List.map_append, List.append_nil]
      exact ⟨rfl, rfl⟩

/-- The value of the threshold is certified by the input. -/
theorem Correct.certified (hcorrect : Correct k input system) :
    Certified k input system.threshold.value :=
  hcorrect.threshold.value.imp_right fun hdominated =>
    hcorrect.retains.dominated_of_after (hdominated.append system.unread)

/-- The partitions together emit the nearest rows, and the threshold only goes down and never
below the distance of the `k`-th nearest row. -/
theorem shared_threshold_topk (hk : 0 < k) (streams : List (List (List Distance)))
    (hfinite : ∀ batches ∈ streams, ∀ batch ∈ batches, ∀ distance ∈ batch, distance.Finite)
    (actions : List Action) :
    (∀ system ∈ statesOf IvfTopK.next (IvfTopK.new k streams) actions,
      (∀ emitted, system.emitted? = some emitted →
        smallest k (emitted.map Distance.value) = smallest k (inputRows streams)) ∧
      (∀ kth, ((inputRows streams).insertionSort (· ≤ ·))[k - 1]? = some kth →
        kth ≤ system.threshold.value.value) ∧
      ((inputRows streams).length < k → system.threshold.value = .infinity)) ∧
    (∀ step ∈ stepsOf IvfTopK.next (IvfTopK.new k streams) actions,
      (step.1.next step.2).threshold.value.totalKey ≤ step.1.threshold.value.totalKey ∧
        (step.1.next step.2).threshold.value.value ≤ step.1.threshold.value.value) := by
  have hcorrect : ∀ system ∈ statesOf IvfTopK.next (IvfTopK.new k streams) actions,
      Correct k (inputRows streams) system :=
    invariant_statesOf (fun system action hsystem => (hsystem.next action).1)
      (correct_new hk hfinite) actions
  refine ⟨fun system hsystem => ⟨fun emitted hemitted => ?_, fun kth hkth => ?_, fun hfew => ?_⟩,
    fun step hstep => ?_⟩
  · obtain ⟨hkept, hunread⟩ := (hcorrect system hsystem).emitted hemitted
    have hretains := (hcorrect system hsystem).retains
    rw [hkept, hunread, List.append_nil] at hretains
    exact hretains.smallest_eq.symm
  · rcases (hcorrect system hsystem).certified with hinfinite | hdominated
    · have hmem : kth ∈ inputRows streams :=
        (List.perm_insertionSort (· ≤ ·) _).mem_iff.mp (List.mem_of_getElem? hkth)
      rw [hinfinite]
      exact (lt_infinity_of_mem hfinite hmem).le
    · refine le_of_dominated ?_ hkth
      rw [Nat.sub_add_cancel hk]
      exact hdominated
  · rcases (hcorrect system hsystem).certified with hinfinite | hdominated
    · exact hinfinite
    · have hlength : k ≤ (inputRows streams).length :=
        le_trans hdominated List.countP_le_length
      exact absurd hfew (not_lt.mpr hlength)
  · have hdecreases := ((hcorrect step.1 (fst_mem_statesOf hstep)).next step.2).2
    exact ⟨hdecreases, Distance.value_le_of_totalKey_le hdecreases⟩

/-- Two partitions with three rows. -/
def sampleStreams : List (List (List Distance)) :=
  [[[⟨false, 5⟩]], [[⟨false, 7⟩], [⟨false, 3⟩]]]

/-- The second partition loads the threshold before the first one lowers it, and prunes its first
batch with it only then. -/
def sampleSchedule : List Action :=
  [⟨1, 0, false⟩, ⟨0, 0, false⟩, ⟨0, 0, false⟩, ⟨0, 0, false⟩, ⟨0, 0, false⟩, ⟨0, 0, true⟩,
    ⟨0, 0, false⟩, ⟨0, 0, false⟩, ⟨0, 0, false⟩] ++ List.replicate 14 ⟨1, 0, false⟩

theorem sampleSchedule_emits_nearest :
    (∀ batches ∈ sampleStreams, ∀ batch ∈ batches, ∀ distance ∈ batch, distance.Finite) ∧
    (sampleSchedule.foldl IvfTopK.next (IvfTopK.new 1 sampleStreams)).emitted? =
      some [⟨false, 5⟩, ⟨false, 3⟩] ∧
    smallest 1 ([⟨false, 5⟩, ⟨false, 3⟩].map Distance.value) =
      smallest 1 (inputRows sampleStreams) := by
  have hfinite : ∀ batches ∈ sampleStreams, ∀ batch ∈ batches, ∀ distance ∈ batch,
      distance.Finite := by decide
  have hemitted : (sampleSchedule.foldl IvfTopK.next (IvfTopK.new 1 sampleStreams)).emitted? =
      some [⟨false, 5⟩, ⟨false, 3⟩] := by decide
  have htopk := shared_threshold_topk Nat.one_pos sampleStreams hfinite sampleSchedule
  exact ⟨hfinite, hemitted, (htopk.1 _ foldl_mem_statesOf).1 _ hemitted⟩

end ParqDB.Query
