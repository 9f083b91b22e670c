import ParqDB.Navigation.Placement

/-!
# Which links a construction keeps

A node that selects another is linked back, unless the list of the other is full and
`diversified_neighbors` rejects it.  The one other way to lose a link is
`replace_neighbors`: a node is found through an upper layer before its own lower list is
written, other workers link it there, and its write overwrites them.

**Strategy.**  `Linked` says that every selection has been answered, rejected, or is still
to be answered by its worker.  Each step of a worker preserves it, provided that the
whole-list writes keep the links they find (`KeepsLinks`).

**Results.**  `reciprocal_links_kept`, and `overwritten_link`: a run of two workers that
loses a link.
-/

namespace ParqDB.Navigation

open Foundations

variable {plan : Plan}

namespace Building

/-- The move writes no list over a link that is not on the new list. -/
def KeepsLinks (plan : Plan) (building : Building) : Move → Bool
  | .work index =>
      match building.workers[index]? with
      | some (.inserting cid (.replace _ _ layer selected)) =>
          (building.shared.adjacent plan.layout layer cid).all fun neighbor => neighbor ∈ selected
      | _ => true
  | .nextLevel => true

/-- A worker still has to link a node at an owner. -/
def Pending (building : Building) (cid layer owner : ℕ) : Prop :=
  ∃ entry current owners, .inserting cid (.link entry current layer owners) ∈ building.workers ∧
    owner ∈ owners

/-- A selected owner has been linked, has rejected the node from its full list, or is still
to be linked. -/
def Answered (plan : Plan) (building : Building) (cid layer owner : ℕ) : Prop :=
  cid ∈ building.shared.adjacent plan.layout layer owner ∨
    .rejected owner layer cid ∈ building.events ∨ building.Pending cid layer owner

/-- Every selection has been answered, and every selected node reaches up to the layer. -/
structure Linked (plan : Plan) (building : Building) : Prop where
  nodes : ∀ cid layer selected, .chose cid layer selected ∈ building.events →
    ∀ owner ∈ selected, plan.layout.Node layer owner
  answered : ∀ cid layer selected, .chose cid layer selected ∈ building.events →
    ∀ owner ∈ selected, building.Answered plan cid layer owner

theorem Linked.initial (plan : Plan) : (initial plan).Linked plan where
  nodes := by simp [Building.initial]
  answered := by simp [Building.initial]

/-! ## One step of a worker -/

variable {before : Building} {index cid : ℕ} {task : Task}

/-- The state after a step of `insert`. -/
def performed (plan : Plan) (building : Building) (index cid : ℕ) (task : Task) : Building :=
  { building with
    shared := (task.perform plan building.shared building.level cid).shared
    workers := building.workers.set index
      (match (task.perform plan building.shared building.level cid).task? with
      | some task => .inserting cid task
      | none => .taking)
    events := (task.perform plan building.shared building.level cid).events ++ building.events }

variable {after : Building} {layer owner : ℕ} {worker : Worker} {other current : ℕ}
  {entry : EntryPoint}

theorem Pending.of_other (hpending : before.Pending other layer owner)
    (hworker : before.workers[index]? = some (.inserting cid task))
    (hworkers : after.workers = before.workers.set index worker)
    (hlink : ∀ entry current owners, task ≠ .link entry current layer owners ∨ owner ∉ owners ∨
      other ≠ cid) : after.Pending other layer owner := by
  obtain ⟨entry, current, owners, hmem, howner⟩ := hpending
  refine ⟨entry, current, owners, ?_, howner⟩
  obtain ⟨position, hposition⟩ := List.mem_iff_getElem?.mp hmem
  have hdifferent : index ≠ position := by
    rintro rfl
    rw [hworker, Option.some.injEq, Worker.inserting.injEq] at hposition
    obtain ⟨rfl, rfl⟩ := hposition
    rcases hlink entry current owners with htask | hout | hcid
    · exact htask rfl
    · exact hout howner
    · exact hcid rfl
  rw [hworkers]
  refine List.mem_iff_getElem?.mpr ⟨position, ?_⟩
  rw [List.getElem?_set_ne hdifferent]
  exact hposition

/-- Steps that write no list keep every answer. -/
theorem Answered.of_quiet (hanswered : before.Answered plan other layer owner)
    (hworker : before.workers[index]? = some (.inserting cid task))
    (hshared : after.shared.slots = before.shared.slots)
    (hworkers : after.workers = before.workers.set index worker)
    (hevents : after.events = before.events)
    (hlink : ∀ entry current owners, task ≠ .link entry current layer owners ∨ owners = []) :
    after.Answered plan other layer owner := by
  rcases hanswered with hlist | hrejected | hpending
  · left
    unfold Shared.adjacent at hlist ⊢
    rw [hshared]
    exact hlist
  · right; left
    rw [hevents]
    exact hrejected
  · right; right
    refine hpending.of_other hworker hworkers fun entry current owners => ?_
    rcases hlink entry current owners with htask | rfl
    · exact Or.inl htask
    · exact Or.inr (Or.inl (by simp))

theorem Linked.of_quiet (hlinked : before.Linked plan)
    (hworker : before.workers[index]? = some (.inserting cid task))
    (hshared : after.shared.slots = before.shared.slots)
    (hworkers : after.workers = before.workers.set index worker)
    (hevents : after.events = before.events)
    (hlink : ∀ entry current layer owners, task ≠ .link entry current layer owners ∨ owners = []) :
    after.Linked plan where
  nodes := by
    rw [hevents]
    exact hlinked.nodes
  answered := by
    intro other layer selected hchose owner howner
    rw [hevents] at hchose
    exact (hlinked.answered other layer selected hchose owner howner).of_quiet hworker hshared
      hworkers hevents fun entry current owners => hlink entry current layer owners

/-- A whole-list write that keeps the links it finds. -/
theorem Linked.replace {selected : List ℕ} (hplaced : before.Placed plan)
    (hlinked : before.Linked plan)
    (hworker : before.workers[index]? = some (.inserting cid (.replace entry current layer selected)))
    (hkeeps : ∀ neighbor ∈ before.shared.adjacent plan.layout layer cid, neighbor ∈ selected) :
    (before.performed plan index cid (.replace entry current layer selected)).Linked plan := by
  obtain ⟨hmember, hlayer, -, hselected, hlength⟩ :=
    hplaced.workers cid _ (List.mem_of_getElem? hworker)
  have hnode := hmember.node hlayer
  refine ⟨?_, ?_⟩
  · intro other otherLayer choice hchose owner howner
    rcases List.mem_cons.mp hchose with hnew | hold
    · cases hnew
      exact hselected owner howner
    · exact hlinked.nodes other otherLayer choice hold owner howner
  · intro other otherLayer choice hchose owner howner
    rcases List.mem_cons.mp hchose with hnew | hold
    · -- the new selection is what the worker links next
      cases hnew
      right; right
      refine ⟨entry, current, selected, ?_, howner⟩
      obtain ⟨hindex, -⟩ := List.getElem?_eq_some_iff.mp hworker
      exact List.mem_set hindex _
    · have howned := hlinked.nodes other otherLayer choice hold owner howner
      rcases hlinked.answered other otherLayer choice hold owner howner with
        hlist | hrejected | hpending
      · left
        by_cases hsame : (cid, layer) = (owner, otherLayer)
        · rw [Prod.mk.injEq] at hsame
          obtain ⟨rfl, rfl⟩ := hsame
          have hwritten : (before.performed plan index cid
              (.replace entry current layer selected)).shared.adjacent plan.layout layer cid =
                selected := Shared.adjacent_replace_same hlength
          rw [hwritten]
          exact hkeeps other hlist
        · have hkept : (before.performed plan index cid
              (.replace entry current layer selected)).shared.adjacent plan.layout otherLayer
                owner = before.shared.adjacent plan.layout otherLayer owner :=
            Shared.adjacent_replace_other hnode howned hsame
          rw [hkept]
          exact hlist
      · right; left
        exact List.mem_cons_of_mem _ hrejected
      · right; right
        exact hpending.of_other hworker rfl fun _ _ _ => Or.inl (by simp)

/-- Linking a node at one of the owners it selected. -/
theorem Linked.link {owners : List ℕ} (hplaced : before.Placed plan) (hlinked : before.Linked plan)
    (hworker : before.workers[index]? =
      some (.inserting cid (.link entry current layer (owner :: owners)))) :
    (before.performed plan index cid (.link entry current layer (owner :: owners))).Linked plan := by
  obtain ⟨hmember, hlayer, -, howners⟩ := hplaced.workers cid _ (List.mem_of_getElem? hworker)
  have hnode := howners owner (by simp)
  have hold : ∀ {other otherLayer choice},
      Event.chose other otherLayer choice ∈ (before.performed plan index cid
        (.link entry current layer (owner :: owners))).events →
      .chose other otherLayer choice ∈ before.events := by
    intro other otherLayer choice hchose
    rcases List.mem_append.mp hchose with hnew | hold
    · obtain ⟨_, -, hevent⟩ := List.mem_map.mp hnew
      cases hevent
    · exact hold
  refine ⟨fun other otherLayer choice hchose => hlinked.nodes other otherLayer choice (hold hchose),
    fun other otherLayer choice hchose answering hanswering => ?_⟩
  have howned := hlinked.nodes other otherLayer choice (hold hchose) answering hanswering
  have hafter : (before.performed plan index cid
      (.link entry current layer (owner :: owners))).shared =
        before.shared.addReciprocalNeighbor plan owner layer cid := rfl
  -- on the list that is written, everything stays or is rejected
  have hlisted : ∀ node, (node ∈ before.shared.adjacent plan.layout layer owner ∨ node = cid) →
      (before.performed plan index cid
        (.link entry current layer (owner :: owners))).Answered plan node layer owner := by
    intro node hmem
    rcases Shared.mem_linked_or_cutBy hmem with hkept | hcut
    · left
      rw [hafter, Shared.adjacent_addReciprocal]
      exact hkept
    · right; left
      exact List.mem_append_left _ (List.mem_map.mpr ⟨node, hcut, rfl⟩)
  rcases hlinked.answered other otherLayer choice (hold hchose) answering hanswering with
    hlist | hrejected | hpending
  · by_cases hsame : (owner, layer) = (answering, otherLayer)
    · rw [Prod.mk.injEq] at hsame
      obtain ⟨rfl, rfl⟩ := hsame
      exact hlisted other (Or.inl hlist)
    · left
      rw [hafter, Shared.adjacent_addReciprocal_other hnode howned hsame]
      exact hlist
  · right; left
    exact List.mem_append_right _ hrejected
  · by_cases hmine : other = cid ∧ otherLayer = layer ∧ answering = owner
    · obtain ⟨rfl, rfl, rfl⟩ := hmine
      exact hlisted _ (Or.inr rfl)
    · right; right
      obtain ⟨otherEntry, otherCurrent, remaining, hmem, hremaining⟩ := hpending
      obtain ⟨position, hposition⟩ := List.mem_iff_getElem?.mp hmem
      obtain ⟨hindex, -⟩ := List.getElem?_eq_some_iff.mp hworker
      by_cases hdifferent : index = position
      · subst hdifferent
        rw [hworker, Option.some.injEq, Worker.inserting.injEq, Task.link.injEq] at hposition
        obtain ⟨rfl, rfl, rfl, rfl, rfl⟩ := hposition
        refine ⟨entry, current, owners, List.mem_set hindex _, ?_⟩
        rcases List.mem_cons.mp hremaining with rfl | hremaining
        · exact absurd ⟨rfl, rfl, rfl⟩ hmine
        · exact hremaining
      · refine ⟨otherEntry, otherCurrent, remaining, ?_, hremaining⟩
        refine List.mem_iff_getElem?.mpr ⟨position, ?_⟩
        exact (List.getElem?_set_ne hdifferent).trans hposition

theorem Linked.perform (hplaced : before.Placed plan) (hlinked : before.Linked plan)
    (hworker : before.workers[index]? = some (.inserting cid task))
    (hkeeps : before.KeepsLinks plan (.work index) = true) :
    (before.performed plan index cid task).Linked plan := by
  cases task with
  | enter => exact hlinked.of_quiet hworker rfl rfl rfl fun _ _ _ _ => Or.inl (by simp)
  | descend entry current layer =>
      exact hlinked.of_quiet hworker rfl rfl rfl fun _ _ _ _ => Or.inl (by simp)
  | search entry current layer =>
      exact hlinked.of_quiet hworker rfl rfl rfl fun _ _ _ _ => Or.inl (by simp)
  | replace entry current layer selected =>
      refine hlinked.replace hplaced hworker fun neighbor hneighbor => ?_
      simp only [KeepsLinks, hworker, List.all_eq_true, decide_eq_true_eq] at hkeeps
      exact hkeeps neighbor hneighbor
  | link entry current layer owners =>
      cases owners with
      | nil =>
          refine hlinked.of_quiet hworker rfl rfl rfl fun otherEntry otherCurrent otherLayer others => ?_
          rcases eq_or_ne others [] with hnil | hcons
          · exact Or.inr hnil
          · exact Or.inl (by simp [hcons.symm])
      | cons owner owners => exact hlinked.link hplaced hworker
  | publish entry =>
      refine hlinked.of_quiet hworker ?_ rfl rfl fun _ _ _ _ => Or.inl (by simp)
      simp only [performed, Task.perform]
      split <;> rfl

/-! ## Runs -/

theorem Linked.step {move : Move} (hplaced : before.Placed plan) (hlinked : before.Linked plan)
    (hmove : before.move plan move = some after) (hkeeps : before.KeepsLinks plan move = true) :
    after.Linked plan := by
  rcases move_cases hmove with ⟨index, rfl, hworker, rfl⟩ |
    ⟨index, cid, task, rfl, hworker, rfl⟩ | ⟨rfl, hidle, level, levels, -, rfl⟩
  · refine ⟨hlinked.nodes, fun cid layer selected hchose owner howner => ?_⟩
    rcases hlinked.answered cid layer selected hchose owner howner with hlist | hrejected | hpending
    · exact Or.inl hlist
    · exact Or.inr (Or.inl hrejected)
    · obtain ⟨entry, current, owners, hmem, hremaining⟩ := hpending
      obtain ⟨position, hposition⟩ := List.mem_iff_getElem?.mp hmem
      have hdifferent : index ≠ position := by
        rintro rfl
        rw [hworker] at hposition
        cases hposition
      refine Or.inr (Or.inr ⟨entry, current, owners, ?_, hremaining⟩)
      exact List.mem_iff_getElem?.mpr
        ⟨position, (List.getElem?_set_ne hdifferent).trans hposition⟩
  · exact hlinked.perform hplaced hworker hkeeps
  · refine ⟨hlinked.nodes, fun cid layer selected hchose owner howner => ?_⟩
    rcases hlinked.answered cid layer selected hchose owner howner with hlist | hrejected | hpending
    · exact Or.inl hlist
    · exact Or.inr (Or.inl hrejected)
    · obtain ⟨entry, current, owners, hmem, -⟩ := hpending
      cases hidle _ hmem

/-- What holds in every state of a run that keeps links. -/
structure Sound (plan : Plan) (building : Building) : Prop where
  placed : building.Placed plan
  linked : building.Linked plan

/-- Every selection of a finished construction is answered by a link, unless a full list
rejected it, provided that no whole-list write of the run overwrote a link. -/
theorem reciprocal_links_kept (plan : Plan) (moves : List Move) (final : Building)
    (hrun : Run (fun before move after => before.move plan move = some after ∧
      before.KeepsLinks plan move = true) (initial plan) moves final)
    (hfinished : final.Finished) :
    ∀ cid layer selected, .chose cid layer selected ∈ final.events → ∀ owner ∈ selected,
      cid ∈ final.shared.adjacent plan.layout layer owner ∨
        .rejected owner layer cid ∈ final.events := by
  have hsound : final.Sound plan := by
    refine Run.invariant ?_ ⟨Placed.initial plan, Linked.initial plan⟩ hrun
    rintro before move after ⟨hplaced, hlinked⟩ ⟨hmove, hkeeps⟩
    exact ⟨hplaced.step hmove, hlinked.step hplaced hmove hkeeps⟩
  intro cid layer selected hchose owner howner
  rcases hsound.linked.answered cid layer selected hchose owner howner with
    hlist | hrejected | hpending
  · exact Or.inl hlist
  · exact Or.inr hrejected
  · obtain ⟨entry, current, owners, hmem, -⟩ := hpending
    cases hfinished.1 _ hmem

/-! ## Samples -/

/-- The state that a list of moves leads to; `keeping` stops it before a write that loses a
link. -/
def follow (plan : Plan) (keeping : Bool) : Building → List Move → Option Building
  | building, [] => some building
  | building, move :: moves =>
      if keeping && !building.KeepsLinks plan move then none
      else (building.move plan move).bind (follow plan keeping · moves)

theorem run_of_follow {keeping : Bool} {first last : Building} {moves : List Move}
    (hfollow : follow plan keeping first moves = some last) :
    Run (fun before move after => before.move plan move = some after ∧
      (keeping = true → before.KeepsLinks plan move = true)) first moves last := by
  induction moves generalizing first with
  | nil => exact Option.some.inj hfollow
  | cons move moves ih =>
      rw [follow] at hfollow
      split at hfollow
      · cases hfollow
      · next hkeeps =>
          obtain ⟨next, hmove, hrest⟩ := Option.bind_eq_some_iff.mp hfollow
          refine ⟨next, ⟨hmove, fun hkeeping => ?_⟩, ih hrest⟩
          simpa [hkeeping] using hkeeps

/-- The distances of the centroids 0, 10 and 11 on a line. -/
def sampleBetween (left right : ℕ) : ParqDB.Query.Distance :=
  match min left right, max left right with
  | 0, 1 => ⟨false, 0x42c80000⟩
  | 0, 2 => ⟨false, 0x42f20000⟩
  | 1, 2 => ⟨false, 0x3f800000⟩
  | _, _ => ⟨false, 0⟩

/-- Two workers insert centroids 1 and 2; all three centroids have level 1. -/
def samplePlan : Plan :=
  Plan.ofSeed 2 2 2 3 22 sampleBetween (by decide) (by decide) (by decide)

/-- The first worker searches layer 0 for centroid 1, then the second inserts centroid 2,
then the first writes the list of centroid 1. -/
def racingMoves : List Move :=
  .nextLevel :: List.replicate 7 (.work 0) ++ List.replicate 12 (.work 1) ++
    List.replicate 5 (.work 0) ++ [.nextLevel]

/-- The second worker inserts centroid 2 after the first has inserted centroid 1. -/
def orderedMoves : List Move :=
  .nextLevel :: List.replicate 11 (.work 0) ++ List.replicate 12 (.work 1) ++
    [.work 0, .nextLevel]

/-- In order, centroid 1 is linked to centroid 2, which selected it. -/
theorem ordered_link_kept : ∃ final,
    Run (fun before move after => before.move samplePlan move = some after ∧
      before.KeepsLinks samplePlan move = true) (initial samplePlan) orderedMoves final ∧
    final.Finished ∧ .chose 2 0 [1] ∈ final.events ∧
    (2 ∈ final.shared.adjacent samplePlan.layout 0 1 ∨ .rejected 1 0 2 ∈ final.events) := by
  have hchecked : (follow samplePlan true (initial samplePlan) orderedMoves).map
      (fun final => (decide final.Finished, decide (.chose 2 0 [1] ∈ final.events))) =
        some (true, true) := by
    decide +kernel
  obtain ⟨final, hfollow, hfacts⟩ := Option.map_eq_some_iff.mp hchecked
  rw [Prod.mk.injEq, decide_eq_true_eq, decide_eq_true_eq] at hfacts
  obtain ⟨hfinished, hchose⟩ := hfacts
  have hrun : Run (fun before move after => before.move samplePlan move = some after ∧
      before.KeepsLinks samplePlan move = true) (initial samplePlan) orderedMoves final := by
    simpa using run_of_follow hfollow
  exact ⟨final, hrun, hfinished, hchose,
    reciprocal_links_kept samplePlan orderedMoves final hrun hfinished 2 0 [1] hchose 1 (by simp)⟩

/-- Racing, centroid 2 selects centroid 1 at layer 0 and no list rejects anything, but the
late write of centroid 1 drops the link back. -/
theorem overwritten_link : ∃ final, Reaches samplePlan racingMoves final ∧ final.Finished ∧
    .chose 2 0 [1] ∈ final.events ∧ 2 ∉ final.shared.adjacent samplePlan.layout 0 1 ∧
    .rejected 1 0 2 ∉ final.events := by
  have hchecked : (follow samplePlan false (initial samplePlan) racingMoves).map
      (fun final => decide (final.Finished ∧ .chose 2 0 [1] ∈ final.events ∧
        2 ∉ final.shared.adjacent samplePlan.layout 0 1 ∧ .rejected 1 0 2 ∉ final.events)) =
        some true := by
    decide +kernel
  obtain ⟨final, hfollow, hfacts⟩ := Option.map_eq_some_iff.mp hchecked
  have hrun : Reaches samplePlan racingMoves final := by
    show Run (fun before move after => before.move samplePlan move = some after)
      (initial samplePlan) racingMoves final
    simpa using run_of_follow hfollow
  exact ⟨final, hrun, of_decide_eq_true hfacts⟩

end Building

end ParqDB.Navigation
