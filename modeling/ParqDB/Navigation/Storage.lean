import Mathlib.Data.List.GetD
import ParqDB.Navigation.Construction

/-!
# Lists and searches of a graph

* `neighborsAt_write_same`, `neighborsAt_write_other`: the flat slots behave as one list
  for each node and layer, as long as no layer above the level of a node is touched.
* `forall_mem_searchLayer`, `greedySearch_of`: a search only meets what the lists lead to.
* `diversifiedNeighbors_subset`, `length_diversifiedNeighbors`: what is chosen.
-/

namespace ParqDB.Navigation

open Query (Distance)

/-! ## Slots -/

namespace Layout

variable {layout : Layout} {cid other layer otherLayer : ℕ}

theorem offset_succ (hcid : cid < layout.count) :
    layout.offsets.getD (cid + 1) 0 =
      layout.offsets.getD cid 0 + slotCount layout.m (layout.level cid) := by
  have hlength : layout.offsets.length = layout.count + 1 := by
    simp [offsets, graphOffsets, count]
  rw [List.getD_eq_getElem _ _ (by omega), List.getD_eq_getElem _ _ (by omega)]
  have hlevel : layout.level cid = layout.levels[cid] := List.getD_eq_getElem _ _ hcid
  rw [hlevel]
  simp [offsets, graphOffsets, List.take_succ_eq_append_getElem hcid, -List.take_append_getElem]

theorem offset_mono (hle : cid ≤ other) (hother : other ≤ layout.count) :
    layout.offsets.getD cid 0 ≤ layout.offsets.getD other 0 := by
  induction other with
  | zero => simp [Nat.le_zero.mp hle]
  | succ other ih =>
      rcases Nat.lt_or_ge other cid with hlt | hge
      · rw [show cid = other + 1 by omega]
      · rw [offset_succ (by omega)]
        exact (ih hge (by omega)).trans (Nat.le_add_right _ _)

/-- The slots of a list lie between those of its node. -/
theorem range_bounds (hlayer : layer ≤ layout.level cid) :
    layout.offsets.getD cid 0 ≤ (layout.range cid layer).1 ∧
    (layout.range cid layer).1 + (layout.range cid layer).2 ≤
      layout.offsets.getD cid 0 + slotCount layout.m (layout.level cid) := by
  have hslots : layout.m * (layer + 2) ≤ layout.m * (layout.level cid + 2) :=
    Nat.mul_le_mul_left _ (by omega)
  simp only [range, neighborRange, layerCapacity, slotCount]
  by_cases hzero : layer = 0
  · subst hzero
    simp only [if_true]
    omega
  · simp only [hzero, if_false]
    have hnext : layout.m * (layer + 2) = layout.m * (layer + 1) + layout.m :=
      Nat.mul_succ layout.m (layer + 1)
    omega

/-- The lists of one node follow each other. -/
theorem range_before (hlt : layer < otherLayer) :
    (layout.range cid layer).1 + (layout.range cid layer).2 ≤ (layout.range cid otherLayer).1 := by
  have hslots : layout.m * (layer + 2) ≤ layout.m * (otherLayer + 1) :=
    Nat.mul_le_mul_left _ (by omega)
  have hpositive : otherLayer ≠ 0 := by omega
  simp only [range, neighborRange, layerCapacity, hpositive, if_false]
  by_cases hzero : layer = 0
  · subst hzero
    simp only [if_true]
    omega
  · simp only [hzero, if_false]
    have hnext : layout.m * (layer + 2) = layout.m * (layer + 1) + layout.m :=
      Nat.mul_succ layout.m (layer + 1)
    omega

/-- Different lists have no slot in common. -/
theorem range_disjoint (hcid : cid < layout.count) (hother : other < layout.count)
    (hlayer : layer ≤ layout.level cid) (hotherLayer : otherLayer ≤ layout.level other)
    (hdifferent : (cid, layer) ≠ (other, otherLayer)) :
    (layout.range cid layer).1 + (layout.range cid layer).2 ≤ (layout.range other otherLayer).1 ∨
    (layout.range other otherLayer).1 + (layout.range other otherLayer).2 ≤
      (layout.range cid layer).1 := by
  have hbounds := range_bounds hlayer
  have hotherBounds := range_bounds hotherLayer
  rcases Nat.lt_trichotomy cid other with hlt | rfl | hgt
  · left
    have hoffset := offset_mono (show cid + 1 ≤ other by omega) (Nat.le_of_lt hother)
    rw [offset_succ hcid] at hoffset
    omega
  · rcases Nat.lt_trichotomy layer otherLayer with hlt | rfl | hgt
    · exact Or.inl (range_before hlt)
    · exact absurd rfl hdifferent
    · exact Or.inr (range_before hgt)
  · right
    have hoffset := offset_mono (show other + 1 ≤ cid by omega) (Nat.le_of_lt hcid)
    rw [offset_succ hother] at hoffset
    omega

end Layout

theorem mem_of_mem_presentPart {α : Type} {items : List (Option α)} {item : α}
    (hitem : item ∈ presentPart items) : some item ∈ items := by
  induction items with
  | nil => cases hitem
  | cons first items ih =>
      cases first with
      | none => cases hitem
      | some first =>
          rcases List.mem_cons.mp hitem with rfl | hlater
          · exact List.mem_cons_self
          · exact List.mem_cons_of_mem _ (ih hlater)

theorem presentPart_of_le {items : List ℕ} {capacity : ℕ} (hlength : items.length ≤ capacity) :
    presentPart ((List.range capacity).map fun position => items[position]?) = items := by
  induction items generalizing capacity with
  | nil => cases capacity <;> simp [List.range_succ_eq_map, presentPart]
  | cons item items ih =>
      cases capacity with
      | zero => simp at hlength
      | succ capacity =>
          have hinner := ih (show items.length ≤ capacity by simpa using hlength)
          simp only [List.range_succ_eq_map, List.map_cons, List.map_map, presentPart,
            List.getElem?_cons_zero]
          rw [← hinner]
          simp [Function.comp_def, hinner]

variable {layer : ℕ} {layout : Layout}

theorem neighborsAt_write_same (slots : Slots) {cid : ℕ} {neighbors : List ℕ}
    (hlength : neighbors.length ≤ layerCapacity layout.m layer) :
    neighborsAt layout (writeNeighbors layout slots cid layer neighbors) cid layer = neighbors := by
  have hslots : ∀ position ∈ List.range (layout.range cid layer).2,
      writeNeighbors layout slots cid layer neighbors ((layout.range cid layer).1 + position) =
        neighbors[position]? := by
    intro position hposition
    have hbound := List.mem_range.mp hposition
    simp only [writeNeighbors]
    rw [if_pos ⟨by omega, by omega⟩, Nat.add_sub_cancel_left]
  unfold neighborsAt
  dsimp only
  rw [List.map_congr_left hslots]
  exact presentPart_of_le hlength

theorem neighborsAt_write_other (slots : Slots) {cid other otherLayer : ℕ} (neighbors : List ℕ)
    (hcid : cid < layout.count) (hother : other < layout.count) (hlayer : layer ≤ layout.level cid)
    (hotherLayer : otherLayer ≤ layout.level other)
    (hdifferent : (cid, layer) ≠ (other, otherLayer)) :
    neighborsAt layout (writeNeighbors layout slots cid layer neighbors) other otherLayer =
      neighborsAt layout slots other otherLayer := by
  have hdisjoint := Layout.range_disjoint hcid hother hlayer hotherLayer hdifferent
  have hslots : ∀ position ∈ List.range (layout.range other otherLayer).2,
      writeNeighbors layout slots cid layer neighbors
        ((layout.range other otherLayer).1 + position) =
          slots ((layout.range other otherLayer).1 + position) := by
    intro position hposition
    have hbound := List.mem_range.mp hposition
    simp only [writeNeighbors]
    rw [if_neg]
    omega
  unfold neighborsAt
  dsimp only
  rw [List.map_congr_left hslots]

/-! ## Searches -/

section

variable {adjacent : ℕ → List ℕ} {distance : ℕ → Distance} {property : ℕ → Prop} {count : ℕ}

/-- A greedy search ends at its start or at a node that some list leads to. -/
theorem greedySearch_of (hadjacent : ∀ cid, property cid → ∀ next ∈ adjacent cid, property next)
    {current : ℕ} (hcurrent : property current) :
    property (greedySearch adjacent distance count current) := by
  have hpass : ∀ (neighbors : List ℕ) (best : Scored), property best.cid →
      (∀ next ∈ neighbors, property next) → property (greedyPass distance neighbors best).cid := by
    intro neighbors
    induction neighbors with
    | nil =>
        intro best hbest _
        exact hbest
    | cons next neighbors ih =>
        intro best hbest hneighbors
        simp only [greedyPass, List.foldl_cons]
        refine ih _ ?_ fun other hother => hneighbors other (by simp [hother])
        split
        · exact hneighbors next (by simp)
        · exact hbest
  have hloop : ∀ (fuel : ℕ) (best : Scored), property best.cid →
      property (greedyLoop adjacent distance fuel best) := by
    intro fuel
    induction fuel with
    | zero =>
        intro best hbest
        exact hbest
    | succ fuel ih =>
        intro best hbest
        simp only [greedyLoop]
        split
        · exact hbest
        · exact ih _ (hpass _ _ hbest (hadjacent _ hbest))
  exact hloop count _ hcurrent

/-- What the search holds has the property. -/
def ScratchHas (property : ℕ → Prop) (scratch : LayerScratch) : Prop :=
  (∀ scored ∈ scratch.candidates, property scored.cid) ∧
    ∀ scored ∈ scratch.nearest, property scored.cid

theorem considerNeighbor_has {ef candidate : ℕ} {scratch : LayerScratch}
    (hscratch : ScratchHas property scratch) (hcandidate : property candidate) :
    ScratchHas property (considerNeighbor distance ef scratch candidate) := by
  unfold considerNeighbor
  split
  · exact hscratch
  · dsimp only
    split
    · refine ⟨?_, ?_⟩
      · intro scored hscored
        rcases (List.mem_orderedInsert _).mp hscored with rfl | hscored
        · exact hcandidate
        · exact hscratch.1 scored hscored
      · intro scored hscored
        have hinserted : scored ∈ scratch.nearest.orderedInsert (· ≤ ·)
            ⟨candidate, distance candidate⟩ := by
          dsimp only at hscored
          split at hscored
          · exact List.dropLast_subset _ hscored
          · exact hscored
        rcases (List.mem_orderedInsert _).mp hinserted with rfl | hinserted
        · exact hcandidate
        · exact hscratch.2 scored hinserted
    · exact hscratch

/-- A layer search only finds nodes that the lists lead to. -/
theorem forall_mem_searchLayer
    (hadjacent : ∀ cid, property cid → ∀ next ∈ adjacent cid, property next) {entry ef : ℕ}
    (hentry : property entry) :
    ∀ scored ∈ searchLayer adjacent distance count entry ef, property scored.cid := by
  have hfold : ∀ (neighbors : List ℕ) (scratch : LayerScratch), ScratchHas property scratch →
      (∀ next ∈ neighbors, property next) →
        ScratchHas property (neighbors.foldl (considerNeighbor distance ef) scratch) := by
    intro neighbors
    induction neighbors with
    | nil =>
        intro scratch hscratch _
        exact hscratch
    | cons next neighbors ih =>
        intro scratch hscratch hneighbors
        rw [List.foldl_cons]
        exact ih _ (considerNeighbor_has hscratch (hneighbors next (by simp)))
          fun other hother => hneighbors other (by simp [hother])
  have hloop : ∀ (fuel : ℕ) (scratch : LayerScratch), ScratchHas property scratch →
      ScratchHas property (searchLoop adjacent distance ef fuel scratch) := by
    intro fuel
    induction fuel with
    | zero =>
        intro scratch hscratch
        exact hscratch
    | succ fuel ih =>
        intro scratch hscratch
        rw [searchLoop]
        split
        · exact hscratch
        · next current rest hcandidates =>
            split
            · exact hscratch
            · have hcurrent := hscratch.1 current (by simp [hcandidates])
              refine ih _ (hfold _ _ ⟨?_, hscratch.2⟩ (hadjacent _ hcurrent))
              intro scored hscored
              exact hscratch.1 scored (by simp [hcandidates, hscored])
  exact (hloop count ⟨[entry], [⟨entry, distance entry⟩], [⟨entry, distance entry⟩]⟩
    ⟨by simpa using hentry, by simpa using hentry⟩).2

end

/-! ## Choices -/

section

variable {between : ℕ → ℕ → Distance} {candidates : List Scored} {capacity : ℕ}

theorem diversifyLoop_subset :
    ∀ {selected : List ℕ}, ∀ cid ∈ diversifyLoop between capacity selected candidates,
      cid ∈ selected ∨ ∃ scored ∈ candidates, scored.cid = cid := by
  induction candidates with
  | nil =>
      intro selected cid hcid
      exact Or.inl hcid
  | cons candidate candidates ih =>
      intro selected cid hcid
      have hrest : ∀ {start : List ℕ}, cid ∈ diversifyLoop between capacity start candidates →
          cid ∈ start ∨ ∃ scored ∈ candidate :: candidates, scored.cid = cid := by
        intro start hstart
        rcases ih cid hstart with hstart | ⟨scored, hscored, hsame⟩
        · exact Or.inl hstart
        · exact Or.inr ⟨scored, by simp [hscored], hsame⟩
      have hlast : cid ∈ selected ++ [candidate.cid] →
          cid ∈ selected ∨ ∃ scored ∈ candidate :: candidates, scored.cid = cid := by
        intro hmem
        rcases List.mem_append.mp hmem with hmem | hmem
        · exact Or.inl hmem
        · exact Or.inr ⟨candidate, by simp, (List.mem_singleton.mp hmem).symm⟩
      rw [diversifyLoop] at hcid
      split at hcid
      · exact hrest hcid
      · dsimp only at hcid
        split at hcid
        · exact hlast hcid
        · rcases hrest hcid with hmem | hfound
          · exact hlast hmem
          · exact Or.inr hfound

theorem diversifiedNeighbors_subset {cid : ℕ}
    (hcid : cid ∈ diversifiedNeighbors between candidates capacity) :
    ∃ scored ∈ candidates, scored.cid = cid := by
  rcases diversifyLoop_subset cid hcid with hnone | hfound
  · cases hnone
  · exact hfound

theorem length_diversifyLoop :
    ∀ {selected : List ℕ}, selected.length < capacity →
      (diversifyLoop between capacity selected candidates).length ≤ capacity := by
  induction candidates with
  | nil =>
      intro selected hselected
      exact hselected.le
  | cons candidate candidates ih =>
      intro selected hselected
      rw [diversifyLoop]
      split
      · exact ih hselected
      · dsimp only
        split
        · next hfull => exact hfull.le
        · next hroom =>
            refine ih ?_
            simp only [List.length_append, List.length_cons, List.length_nil] at hroom ⊢
            omega

theorem length_diversifiedNeighbors (hcapacity : 0 < capacity) (candidates : List Scored) :
    (diversifiedNeighbors between candidates capacity).length ≤ capacity :=
  length_diversifyLoop (by simpa using hcapacity)

variable {neighbor : ℕ} {neighbors : List ℕ} {owner : ℕ}

theorem withReciprocal_subset {cid : ℕ}
    (hcid : cid ∈ withReciprocal between capacity owner neighbors neighbor) :
    cid ∈ neighbors ∨ cid = neighbor := by
  unfold withReciprocal at hcid
  split at hcid
  · exact Or.inl hcid
  · have hlonger : cid ∈ neighbors ++ [neighbor] := by
      dsimp only at hcid
      split at hcid
      · obtain ⟨scored, hscored, rfl⟩ := diversifiedNeighbors_subset hcid
        obtain ⟨other, hother, rfl⟩ := List.mem_map.mp ((List.mem_insertionSort _).mp hscored)
        exact hother
      · exact hcid
    simpa using hlonger

theorem length_withReciprocal (hcapacity : 0 < capacity) (hneighbors : neighbors.length ≤ capacity) :
    (withReciprocal between capacity owner neighbors neighbor).length ≤ capacity := by
  unfold withReciprocal
  split
  · exact hneighbors
  · dsimp only
    split
    · exact length_diversifiedNeighbors hcapacity _
    · next hroom => exact not_lt.mp hroom

end

end ParqDB.Navigation
