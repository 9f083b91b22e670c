import ParqDB.Navigation.Storage

/-!
# Nodes reach up to the layers they are on

Every list, the entry point and every worker of a construction only hold nodes that reach
up to the layer at hand (`Building.Placed`), so the flat slots behave as separate lists
throughout a run.
-/

namespace ParqDB.Navigation

open Foundations

variable {plan : Plan}

/-! ## Lists hold nodes of their layer -/

/-- The node reaches up to the layer. -/
def Layout.Node (layout : Layout) (layer cid : ℕ) : Prop :=
  cid < layout.count ∧ layer ≤ layout.level cid

variable {layout : Layout} {cid layer : ℕ}

theorem Layout.Node.mono {lower : ℕ} (hnode : layout.Node layer cid) (hlower : lower ≤ layer) :
    layout.Node lower cid :=
  ⟨hnode.1, hlower.trans hnode.2⟩

theorem Plan.capacity_pos (plan : Plan) (layer : ℕ) : 0 < layerCapacity plan.layout.m layer := by
  have htwo := plan.two_le_m
  unfold layerCapacity
  split <;> omega

/-- The lists and the entry point hold nodes of their layer. -/
structure Shared.Placed (layout : Layout) (shared : Shared) : Prop where
  lists : ∀ {layer cid}, layout.Node layer cid →
    ∀ next ∈ shared.adjacent layout layer cid, layout.Node layer next
  entry : layout.Node shared.entry.level shared.entry.cid

theorem length_presentPart {α : Type} (items : List (Option α)) :
    (presentPart items).length ≤ items.length := by
  induction items with
  | nil => simp [presentPart]
  | cons item items ih =>
      cases item with
      | none => simp [presentPart]
      | some item => simpa [presentPart] using ih

theorem Shared.length_adjacent (layout : Layout) (shared : Shared) (layer cid : ℕ) :
    (shared.adjacent layout layer cid).length ≤ layerCapacity layout.m layer := by
  have hlength := length_presentPart
    ((List.range (layout.range cid layer).2).map fun position =>
      shared.slots ((layout.range cid layer).1 + position))
  simpa [Shared.adjacent, neighborsAt, Layout.range, neighborRange] using hlength

section

variable {shared : Shared} {owner : ℕ} {neighbors : List ℕ}

theorem Shared.adjacent_replace_same (hlength : neighbors.length ≤ layerCapacity layout.m layer) :
    (shared.replaceNeighbors layout owner layer neighbors).adjacent layout layer owner =
      neighbors :=
  neighborsAt_write_same _ hlength

theorem Shared.adjacent_replace_other {cid otherLayer : ℕ} (howner : layout.Node layer owner)
    (hcid : layout.Node otherLayer cid) (hdifferent : (owner, layer) ≠ (cid, otherLayer)) :
    (shared.replaceNeighbors layout owner layer neighbors).adjacent layout otherLayer cid =
      shared.adjacent layout otherLayer cid :=
  neighborsAt_write_other _ _ howner.1 hcid.1 howner.2 hcid.2 hdifferent

theorem Shared.Placed.replaceNeighbors (hplaced : shared.Placed layout)
    (howner : layout.Node layer owner) (hneighbors : ∀ next ∈ neighbors, layout.Node layer next)
    (hlength : neighbors.length ≤ layerCapacity layout.m layer) :
    (shared.replaceNeighbors layout owner layer neighbors).Placed layout where
  lists := by
    intro otherLayer cid hcid next hnext
    by_cases hsame : (owner, layer) = (cid, otherLayer)
    · rw [Prod.mk.injEq] at hsame
      obtain ⟨rfl, rfl⟩ := hsame
      rw [Shared.adjacent_replace_same hlength] at hnext
      exact hneighbors next hnext
    · rw [Shared.adjacent_replace_other howner hcid hsame] at hnext
      exact hplaced.lists hcid next hnext
  entry := hplaced.entry

end

section

variable {shared : Shared} {owner neighbor : ℕ}

theorem Shared.mem_linked (hcid : cid ∈ shared.linked plan owner layer neighbor) :
    cid ∈ shared.adjacent plan.layout layer owner ∨ cid = neighbor :=
  withReciprocal_subset hcid

theorem Shared.length_linked :
    (shared.linked plan owner layer neighbor).length ≤ layerCapacity plan.layout.m layer :=
  length_withReciprocal (plan.capacity_pos layer) (shared.length_adjacent _ _ _)

/-- The list of the owner after it has been linked. -/
theorem Shared.adjacent_addReciprocal :
    (shared.addReciprocalNeighbor plan owner layer neighbor).adjacent plan.layout layer owner =
      shared.linked plan owner layer neighbor := by
  unfold addReciprocalNeighbor
  split
  · next hmem => simp [linked, withReciprocal, hmem]
  · exact adjacent_replace_same length_linked

theorem Shared.adjacent_addReciprocal_other {otherLayer : ℕ} (howner : plan.layout.Node layer owner)
    (hcid : plan.layout.Node otherLayer cid) (hdifferent : (owner, layer) ≠ (cid, otherLayer)) :
    (shared.addReciprocalNeighbor plan owner layer neighbor).adjacent plan.layout otherLayer cid =
      shared.adjacent plan.layout otherLayer cid := by
  unfold addReciprocalNeighbor
  split
  · rfl
  · exact adjacent_replace_other howner hcid hdifferent

theorem Shared.Placed.addReciprocalNeighbor (hplaced : shared.Placed plan.layout)
    (howner : plan.layout.Node layer owner) (hneighbor : plan.layout.Node layer neighbor) :
    (shared.addReciprocalNeighbor plan owner layer neighbor).Placed plan.layout := by
  unfold Shared.addReciprocalNeighbor
  split
  · exact hplaced
  · refine hplaced.replaceNeighbors howner ?_ Shared.length_linked
    intro next hnext
    rcases Shared.mem_linked hnext with hnext | rfl
    · exact hplaced.lists howner next hnext
    · exact hneighbor

/-- A node that is not on the linked list has been rejected from a full one. -/
theorem Shared.mem_linked_or_cutBy
    (hcid : cid ∈ shared.adjacent plan.layout layer owner ∨ cid = neighbor) :
    cid ∈ shared.linked plan owner layer neighbor ∨ cid ∈ shared.cutBy plan owner layer neighbor := by
  by_cases hlinked : cid ∈ shared.linked plan owner layer neighbor
  · exact Or.inl hlinked
  · right
    have hlonger : cid ∈ shared.adjacent plan.layout layer owner ++ [neighbor] := by simpa using hcid
    have hfull : neighbor ∉ shared.adjacent plan.layout layer owner ∧
        (shared.adjacent plan.layout layer owner).length = layerCapacity plan.layout.m layer := by
      have hbound := shared.length_adjacent plan.layout layer owner
      refine ⟨fun hmem => hlinked ?_, ?_⟩
      · have hcid : cid ∈ shared.adjacent plan.layout layer owner := by
          rcases hcid with hcid | rfl
          · exact hcid
          · exact hmem
        simpa [linked, withReciprocal, hmem] using hcid
      · by_contra hroom
        refine hlinked ?_
        unfold linked withReciprocal
        split
        · next hmem =>
            rcases hcid with hcid | rfl
            · exact hcid
            · exact hmem
        · dsimp only
          rw [if_neg]
          · exact hlonger
          · simp only [List.length_append, List.length_cons, List.length_nil]
            omega
    unfold cutBy
    dsimp only
    rw [if_pos hfull]
    exact List.mem_filter.mpr ⟨hlonger, by simpa using hlinked⟩

variable {current : ℕ}

theorem Shared.length_select :
    (shared.select plan cid current layer).length ≤ layerCapacity plan.layout.m layer :=
  length_diversifiedNeighbors (plan.capacity_pos layer) _

theorem Shared.Placed.select (hplaced : shared.Placed plan.layout)
    (hcurrent : plan.layout.Node layer current) :
    ∀ next ∈ shared.select plan cid current layer, plan.layout.Node layer next := by
  intro next hnext
  obtain ⟨scored, hscored, rfl⟩ := diversifiedNeighbors_subset hnext
  exact forall_mem_searchLayer (fun _ hcid => hplaced.lists hcid) hcurrent scored hscored

end

/-! ## What a worker holds -/

/-- A task holds nodes of the layer it is at. -/
def Task.Placed (layout : Layout) (level : ℕ) : Task → Prop
  | .enter => True
  | .descend _ current layer => level < layer ∧ layout.Node layer current
  | .search _ current layer => layer ≤ level ∧ layout.Node layer current
  | .replace _ current layer selected => layer ≤ level ∧ layout.Node layer current ∧
      (∀ next ∈ selected, layout.Node layer next) ∧
      selected.length ≤ layerCapacity layout.m layer
  | .link _ current layer owners => layer ≤ level ∧ layout.Node layer current ∧
      ∀ next ∈ owners, layout.Node layer next
  | .publish _ => True

/-- A node of the bucket. -/
def Layout.Member (layout : Layout) (level cid : ℕ) : Prop :=
  cid < layout.count ∧ layout.level cid = level

variable {level : ℕ} {move : Move}

theorem Layout.Member.node (hmember : layout.Member level cid) (hlayer : layer ≤ level) :
    layout.Node layer cid :=
  ⟨hmember.1, hmember.2 ▸ hlayer⟩

section

variable {shared : Shared} {task : Task}

theorem Shared.Placed.perform (hplaced : shared.Placed plan.layout)
    (hmember : plan.layout.Member level cid) (htask : task.Placed plan.layout level) :
    (task.perform plan shared level cid).shared.Placed plan.layout := by
  cases task with
  | enter => exact hplaced
  | descend entry current layer => exact hplaced
  | search entry current layer => exact hplaced
  | replace entry current layer selected =>
      obtain ⟨hlayer, -, hselected, hlength⟩ := htask
      exact hplaced.replaceNeighbors (hmember.node hlayer) hselected hlength
  | link entry current layer owners =>
      obtain ⟨hlayer, -, howners⟩ := htask
      cases owners with
      | nil => exact hplaced
      | cons owner owners =>
          exact hplaced.addReciprocalNeighbor (howners owner (by simp)) (hmember.node hlayer)
  | publish entry =>
      simp only [Task.perform]
      split
      · exact ⟨hplaced.lists, hmember.node le_rfl⟩
      · exact hplaced

theorem Task.Placed.perform (hplaced : shared.Placed plan.layout)
    (htask : task.Placed plan.layout level) :
    ∀ next ∈ (task.perform plan shared level cid).task?, next.Placed plan.layout level := by
  intro next hnext
  cases task with
  | enter =>
      simp only [Task.perform, Option.mem_def, Option.some.injEq] at hnext
      subst hnext
      split
      · next hbelow => exact ⟨hbelow, hplaced.entry⟩
      · exact ⟨min_le_left _ _, hplaced.entry.mono (min_le_right _ _)⟩
  | descend entry current layer =>
      obtain ⟨hlayer, hcurrent⟩ := htask
      simp only [Task.perform, Option.mem_def, Option.some.injEq] at hnext
      subst hnext
      have hreached : plan.layout.Node layer (greedySearch (shared.adjacent plan.layout layer)
          (plan.between cid) plan.layout.count current) :=
        greedySearch_of (fun _ hother => hplaced.lists hother) hcurrent
      split
      · exact ⟨by omega, hreached.mono (Nat.sub_le _ _)⟩
      · refine ⟨min_le_left _ _, hreached.mono ?_⟩
        exact (min_le_left _ _).trans (by omega)
  | search entry current layer =>
      obtain ⟨hlayer, hcurrent⟩ := htask
      simp only [Task.perform, Option.mem_def, Option.some.injEq] at hnext
      subst hnext
      have hselected : ∀ next ∈ shared.select plan cid current layer, plan.layout.Node layer next :=
        hplaced.select hcurrent
      refine ⟨hlayer, ?_, hselected, Shared.length_select⟩
      cases hchosen : shared.select plan cid current layer with
      | nil => exact hcurrent
      | cons first rest => exact hselected first (by simp [hchosen])
  | replace entry current layer selected =>
      obtain ⟨hlayer, hcurrent, hselected, -⟩ := htask
      simp only [Task.perform, Option.mem_def, Option.some.injEq] at hnext
      subst hnext
      exact ⟨hlayer, hcurrent, hselected⟩
  | link entry current layer owners =>
      obtain ⟨hlayer, hcurrent, howners⟩ := htask
      cases owners with
      | nil =>
          simp only [Task.perform, Option.mem_def, Option.some.injEq] at hnext
          subst hnext
          split
          · trivial
          · exact ⟨(Nat.sub_le _ _).trans hlayer, hcurrent.mono (Nat.sub_le _ _)⟩
      | cons owner owners =>
          simp only [Task.perform, Option.mem_def, Option.some.injEq] at hnext
          subst hnext
          exact ⟨hlayer, hcurrent, fun other hother => howners other (by simp [hother])⟩
  | publish entry => simp [Task.perform] at hnext

end

/-! ## Runs -/

variable {after building : Building}

/-- What a move does. -/
theorem Building.move_cases (hmove : building.move plan move = some after) :
    (∃ index, move = .work index ∧ building.workers[index]? = some .taking ∧
      after = { building with
        next := building.next + 1
        workers := building.workers.set index (match building.bucket[building.next]? with
          | some cid => .inserting cid .enter
          | none => .finished) }) ∨
    (∃ index cid task, move = .work index ∧
      building.workers[index]? = some (.inserting cid task) ∧
      after = { building with
        shared := (task.perform plan building.shared building.level cid).shared
        workers := building.workers.set index
          (match (task.perform plan building.shared building.level cid).task? with
          | some task => .inserting cid task
          | none => .taking)
        events := (task.perform plan building.shared building.level cid).events ++
          building.events }) ∨
    (move = .nextLevel ∧ building.Idle ∧ ∃ level levels, building.levels = level :: levels ∧
      after = { building with
        level := level
        bucket := plan.order level
        next := 0
        workers := List.replicate (if (plan.order level).isEmpty then 0
          else max (min plan.threads (plan.order level).length) 1) .taking
        levels := levels }) := by
  cases move with
  | work index =>
      obtain ⟨worker, hworker, hstep⟩ := Option.bind_eq_some_iff.mp hmove
      cases worker with
      | taking => exact Or.inl ⟨index, rfl, hworker, (Option.some.inj hstep).symm⟩
      | inserting cid task =>
          exact Or.inr (Or.inl ⟨index, cid, task, rfl, hworker, (Option.some.inj hstep).symm⟩)
      | finished => cases hstep
  | nextLevel =>
      simp only [Building.move] at hmove
      split at hmove
      · next hidle =>
          split at hmove
          · cases hmove
          · next level levels hlevels =>
              exact Or.inr (Or.inr ⟨rfl, hidle, level, levels, hlevels,
                (Option.some.inj hmove).symm⟩)
      · cases hmove

/-- The lists, the bucket and the workers hold nodes of their layer. -/
structure Building.Placed (plan : Plan) (building : Building) : Prop where
  shared : building.shared.Placed plan.layout
  bucket : ∀ cid ∈ building.bucket, plan.layout.Member building.level cid
  workers : ∀ cid task, .inserting cid task ∈ building.workers →
    plan.layout.Member building.level cid ∧ task.Placed plan.layout building.level

theorem Plan.member_of_mem_order (hcid : cid ∈ plan.order level) :
    plan.layout.Member level cid := by
  have hbucket := ((plan.order_perm level).mem_iff).mp hcid
  simp only [Layout.bucket, List.mem_filter, List.mem_range, decide_eq_true_eq] at hbucket
  exact ⟨hbucket.1, hbucket.2.1⟩

theorem Layout.foldl_max_mem {levels : List ℕ} :
    ∀ {start : ℕ}, levels.foldl max start = start ∨ levels.foldl max start ∈ levels := by
  induction levels with
  | nil => exact Or.inl rfl
  | cons level levels ih =>
      intro start
      rw [List.foldl_cons]
      rcases @ih (max start level) with hsame | hmem
      · rw [hsame]
        rcases Nat.le_total level start with hstart | hlevel
        · exact Or.inl (Nat.max_eq_left hstart)
        · exact Or.inr (by simp [Nat.max_eq_right hlevel])
      · exact Or.inr (by simp [hmem])

theorem Layout.maxLevel_mem (hlevels : layout.levels ≠ []) : layout.maxLevel ∈ layout.levels := by
  obtain ⟨first, rest, hcons⟩ := List.exists_cons_of_ne_nil hlevels
  rw [maxLevel, hcons, List.foldl_cons, Nat.zero_max]
  rcases @foldl_max_mem rest first with hsame | hmem
  · simp [hsame]
  · simp [hmem]

theorem Plan.entry_node (plan : Plan) :
    plan.layout.Node plan.layout.maxLevel plan.layout.entryCid := by
  have hmem := Layout.maxLevel_mem plan.nonempty
  have hbound : plan.layout.entryCid < plan.layout.levels.length := List.idxOf_lt_length_iff.mpr hmem
  refine ⟨hbound, ?_⟩
  rw [Layout.level, List.getD_eq_getElem _ _ hbound]
  exact (List.getElem_idxOf hbound).ge

theorem presentPart_none {α : Type} (capacity : ℕ) :
    presentPart (List.replicate capacity (none : Option α)) = [] := by
  cases capacity <;> rfl

theorem Building.Placed.initial (plan : Plan) : (Building.initial plan).Placed plan where
  shared := by
    refine ⟨?_, plan.entry_node⟩
    intro layer cid _ next hnext
    simp [Shared.adjacent, Building.initial, neighborsAt, presentPart_none] at hnext
  bucket := by simp [Building.initial]
  workers := by simp [Building.initial]

theorem Building.Placed.step {before : Building} (hplaced : before.Placed plan)
    (hmove : before.move plan move = some after) : after.Placed plan := by
  rcases Building.move_cases hmove with ⟨index, -, hworker, rfl⟩ |
    ⟨index, cid, task, -, hworker, rfl⟩ | ⟨-, -, level, levels, -, rfl⟩
  · refine ⟨hplaced.shared, hplaced.bucket, fun cid task hmem => ?_⟩
    rcases List.mem_or_eq_of_mem_set hmem with hmem | hset
    · exact hplaced.workers cid task hmem
    · cases htaken : before.bucket[before.next]? with
      | none => simp [htaken] at hset
      | some taken =>
          simp only [htaken, Worker.inserting.injEq] at hset
          obtain ⟨rfl, rfl⟩ := hset
          exact ⟨hplaced.bucket _ (List.mem_of_getElem? htaken), trivial⟩
  · obtain ⟨hmember, htask⟩ := hplaced.workers cid task (List.mem_of_getElem? hworker)
    refine ⟨hplaced.shared.perform hmember htask, hplaced.bucket, fun other next hmem => ?_⟩
    rcases List.mem_or_eq_of_mem_set hmem with hmem | hset
    · exact hplaced.workers other next hmem
    · cases hnext : (task.perform plan before.shared before.level cid).task? with
      | none => simp [hnext] at hset
      | some following =>
          simp only [hnext, Worker.inserting.injEq] at hset
          obtain ⟨rfl, rfl⟩ := hset
          exact ⟨hmember, Task.Placed.perform hplaced.shared htask _ hnext⟩
  · refine ⟨hplaced.shared, fun cid hcid => plan.member_of_mem_order hcid, fun cid task hmem => ?_⟩
    cases List.eq_of_mem_replicate hmem

theorem Building.Reaches.placed {moves : List Move}
    (hreaches : Building.Reaches plan moves building) : building.Placed plan :=
  Run.invariant (fun _ _ _ hplaced hstep => hplaced.step hstep) (Building.Placed.initial plan)
    hreaches

end ParqDB.Navigation
