import Mathlib.Data.Finset.Sort
import ParqDB.Foundations.Smallest
import ParqDB.Navigation.GraphSearch
import ParqDB.Navigation.HeapBuffers

/-!
# A search in a used scratch

A search that starts with any scratch of earlier searches runs like the search of `queryLoop`,
which starts with nothing, and it ends after at most one round for each node.

**Strategy.**  `Mirrors` relates a scratch in a search to the state of `queryLoop`.  The
buffered neighbours of a node are marked before they are looked at; looking at them reads no
marks, so a scratch with pending neighbours is related as if they had been looked at at once
(`Mirrors.buffer`).  Between searches all marks are at most the epoch (`Clean`), so no mark is
the epoch of the next search, also when the epochs start again.
-/

namespace ParqDB.Navigation

open Query (Distance)

namespace SearchScratch

variable {count resultCount ef : ℕ} {adjacent : ℕ → List ℕ} {distance : ℕ → Distance}
  {scratch : SearchScratch} {query : QueryScratch}

/-! ## Between searches -/

/-- There is a mark for each node, and no mark is of a later epoch. -/
structure Clean (count : ℕ) (scratch : SearchScratch) : Prop where
  marks_length : scratch.marks.length = count
  marks_le : ∀ mark ∈ scratch.marks, mark ≤ scratch.epoch
  epoch_lt : scratch.epoch < epochCount

theorem clean_new (count : ℕ) : Clean count (new count) where
  marks_length := List.length_replicate
  marks_le := fun _ hmark => (List.eq_of_mem_replicate hmark).le
  epoch_lt := by
    change 0 < epochCount
    decide

theorem clean_newForQuery (count candidateCapacity : ℕ) :
    Clean count (newForQuery count candidateCapacity) :=
  ⟨(clean_new count).marks_length, (clean_new count).marks_le, (clean_new count).epoch_lt⟩

theorem Clean.trimForQueryPool (hclean : Clean count scratch) (candidateCapacity : ℕ) :
    Clean count (scratch.trimForQueryPool candidateCapacity) :=
  ⟨hclean.marks_length, hclean.marks_le, hclean.epoch_lt⟩

/-- No mark is of the new epoch. -/
theorem Clean.reset (hclean : Clean count scratch) :
    Clean count scratch.reset ∧ ∀ mark ∈ scratch.reset.marks, mark ≠ scratch.reset.epoch := by
  by_cases hwraps : (scratch.epoch + 1) % epochCount = 0
  · have hreset : scratch.reset = { scratch with
        candidates := [], nearest := [], ordered := []
        marks := scratch.marks.map fun _ => 0, epoch := 1 } := by
      rw [SearchScratch.reset, if_pos hwraps]
    have hzero : ∀ mark ∈ scratch.reset.marks, mark = 0 := by
      rw [hreset]
      intro mark hmark
      obtain ⟨old, -, rfl⟩ := List.mem_map.mp hmark
      rfl
    refine ⟨⟨?_, ?_, ?_⟩, ?_⟩
    · rw [hreset]
      exact (List.length_map _).trans hclean.marks_length
    · intro mark hmark
      rw [hzero mark hmark]
      exact Nat.zero_le _
    · rw [hreset]
      change 1 < epochCount
      decide
    · intro mark hmark
      rw [hzero mark hmark, hreset]
      exact Nat.zero_ne_one
  · have hepoch : (scratch.epoch + 1) % epochCount = scratch.epoch + 1 := by
      apply Nat.mod_eq_of_lt
      refine lt_of_le_of_ne hclean.epoch_lt fun hlast => hwraps ?_
      rw [hlast, Nat.mod_self]
    have hreset : scratch.reset = { scratch with
        candidates := [], nearest := [], ordered := [], epoch := scratch.epoch + 1 } := by
      rw [SearchScratch.reset, if_neg hwraps, hepoch]
    have hless := Nat.mod_lt (scratch.epoch + 1) (show 0 < epochCount by decide)
    rw [hepoch] at hless
    rw [hreset]
    refine ⟨⟨hclean.marks_length, ?_, hless⟩, ?_⟩
    · intro mark hmark
      exact (hclean.marks_le mark hmark).trans (Nat.le_succ _)
    · intro mark hmark
      exact (Nat.lt_succ_of_le (hclean.marks_le mark hmark)).ne

/-! ## During a search -/

/-- The marks are the visited nodes, and heap and results are the same. -/
structure Mirrors (count : ℕ) (scratch : SearchScratch) (query : QueryScratch) : Prop extends
    Clean count scratch where
  visited : ∀ cid < count, scratch.marks[cid]? = some scratch.epoch ↔ cid ∈ query.visited
  sound : scratch.queryCandidates.Sound
  candidates : scratch.queryCandidates.view = query.candidates
  results : scratch.queryResults = query.results
  ordered : scratch.ordered = []

theorem Mirrors.consider (hmirrors : Mirrors count scratch query) (scored : Scored) :
    Mirrors count (scratch.consider resultCount scored)
      (considerQueryCandidate resultCount query scored) where
  marks_length := hmirrors.marks_length
  marks_le := hmirrors.marks_le
  epoch_lt := hmirrors.epoch_lt
  visited := hmirrors.visited
  sound := HeapBuffer.sound_push hmirrors.sound _ _
  candidates := by
    rw [SearchScratch.consider, considerQueryCandidate, HeapBuffer.view_push hmirrors.sound,
      hmirrors.candidates]
  results := by
    rw [SearchScratch.consider, considerQueryCandidate, hmirrors.results]
  ordered := hmirrors.ordered

def withMarks (scratch : SearchScratch) (marks : List ℕ) : SearchScratch :=
  { scratch with marks := marks }

/-- A node is marked with the epoch. -/
theorem Mirrors.mark (hmirrors : Mirrors count scratch query) (cid : ℕ) :
    Mirrors count (scratch.withMarks (scratch.marks.set cid scratch.epoch))
      { query with visited := cid :: query.visited } where
  marks_length := (List.length_set).trans hmirrors.marks_length
  marks_le := by
    intro mark hmark
    rcases List.mem_or_eq_of_mem_set hmark with hold | rfl
    · exact hmirrors.marks_le mark hold
    · exact Nat.le_refl _
  epoch_lt := hmirrors.epoch_lt
  visited := by
    intro other hother
    change (scratch.marks.set cid scratch.epoch)[other]? = some scratch.epoch ↔ _
    rw [List.mem_cons]
    by_cases hsame : cid = other
    · subst hsame
      rw [List.getElem?_set_self (by rwa [hmirrors.marks_length])]
      exact ⟨fun _ => Or.inl rfl, fun _ => rfl⟩
    · rw [List.getElem?_set_ne hsame, hmirrors.visited other hother]
      exact ⟨Or.inr, fun hcases => hcases.resolve_left (Ne.symm hsame)⟩
  sound := hmirrors.sound
  candidates := hmirrors.candidates
  results := hmirrors.results
  ordered := hmirrors.ordered

/-- Looking at nodes reads and writes no marks. -/
theorem considerAll_withMarks (scratch : SearchScratch) (buffered marks : List ℕ) :
    considerAll distance resultCount (scratch.withMarks marks) buffered =
      (considerAll distance resultCount scratch buffered).withMarks marks := by
  induction buffered generalizing scratch with
  | nil => rfl
  | cons cid buffered ih =>
      rw [considerAll, considerAll, List.foldl_cons, List.foldl_cons]
      exact ih (scratch.consider resultCount ⟨cid, distance cid⟩)

theorem marks_considerAll (buffered : List ℕ) :
    (considerAll distance resultCount scratch buffered).marks = scratch.marks ∧
      (considerAll distance resultCount scratch buffered).epoch = scratch.epoch := by
  induction buffered generalizing scratch with
  | nil => exact ⟨rfl, rfl⟩
  | cons cid buffered ih =>
      rw [considerAll, List.foldl_cons]
      exact ih

theorem considerAll_append (first second : List ℕ) :
    considerAll distance resultCount scratch (first ++ second) =
      considerAll distance resultCount (considerAll distance resultCount scratch first) second :=
  List.foldl_append

variable {candidate : ℕ} {neighbors : List ℕ}

/-- A neighbour is buffered, or looked at with those before it: the same as at once. -/
theorem Mirrors.buffer {state : SearchScratch × List ℕ}
    (hmirrors : Mirrors count (considerAll distance resultCount state.1 state.2) query)
    (hcandidate : candidate < count) :
    Mirrors count
      (considerAll distance resultCount (bufferNeighbor distance resultCount state candidate).1
        (bufferNeighbor distance resultCount state candidate).2)
      (visitQueryCandidate distance resultCount query candidate) := by
  obtain ⟨scratch, buffered⟩ := state
  obtain ⟨hmarks, hepoch⟩ : (considerAll distance resultCount scratch buffered).marks =
      scratch.marks ∧ (considerAll distance resultCount scratch buffered).epoch = scratch.epoch :=
    marks_considerAll buffered
  have hvisited := hmirrors.visited candidate hcandidate
  dsimp only at hvisited
  rw [hmarks, hepoch] at hvisited
  by_cases hold : candidate ∈ query.visited
  · have hsame : bufferNeighbor distance resultCount (scratch, buffered) candidate =
        (scratch, buffered) := by
      rw [bufferNeighbor, SearchScratch.visit, if_pos (hvisited.mpr hold)]
    rw [hsame, visitQueryCandidate, if_pos hold]
    exact hmirrors
  · have hlater : considerAll distance resultCount
          (bufferNeighbor distance resultCount (scratch, buffered) candidate).1
          (bufferNeighbor distance resultCount (scratch, buffered) candidate).2 =
        considerAll distance resultCount
          (scratch.withMarks (scratch.marks.set candidate scratch.epoch))
          (buffered ++ [candidate]) := by
      rw [bufferNeighbor, SearchScratch.visit, if_neg fun hmark => hold (hvisited.mp hmark)]
      dsimp only
      split <;> rfl
    have hmarked := hmirrors.mark candidate
    dsimp only at hmarked
    rw [hmarks, hepoch, ← considerAll_withMarks] at hmarked
    rw [hlater, considerAll_append, visitQueryCandidate, if_neg hold]
    exact hmarked.consider ⟨candidate, distance candidate⟩

/-- Expanding a node is visiting its neighbours one after the other. -/
theorem Mirrors.expand (hmirrors : Mirrors count scratch query)
    (hneighbors : ∀ next ∈ neighbors, next < count) :
    Mirrors count (expand distance resultCount scratch neighbors)
      (neighbors.foldl (visitQueryCandidate distance resultCount) query) := by
  have hall : ∀ (state : SearchScratch × List ℕ) (query : QueryScratch),
      Mirrors count (considerAll distance resultCount state.1 state.2) query →
      Mirrors count
        (considerAll distance resultCount
          (neighbors.foldl (bufferNeighbor distance resultCount) state).1
          (neighbors.foldl (bufferNeighbor distance resultCount) state).2)
        (neighbors.foldl (visitQueryCandidate distance resultCount) query) := by
    induction neighbors with
    | nil => exact fun _ _ hstate => hstate
    | cons next neighbors ih =>
        intro state query hstate
        rw [List.foldl_cons, List.foldl_cons]
        apply ih fun other hother => hneighbors other (List.mem_cons_of_mem _ hother)
        exact hstate.buffer (hneighbors next List.mem_cons_self)
  exact hall (scratch, []) query hmirrors

/-- The start of a search forgets all earlier ones. -/
theorem Clean.start (hclean : Clean count scratch) (hef : 0 < ef) (entry : ℕ) :
    Mirrors count (start distance ef scratch entry)
      ⟨[entry], (MinimaxHeap.reset ef).push entry (distance entry), [⟨entry, distance entry⟩]⟩ := by
  obtain ⟨hreset, hnone⟩ := hclean.reset
  have hsound := HeapBuffer.sound_reset scratch.reset.queryCandidates hef
  have hunmarked : ∀ cid : ℕ,
      (scratch.resetQuery ef).marks[cid]? ≠ some (scratch.resetQuery ef).epoch :=
    fun cid hmark => hnone _ (List.mem_of_getElem? hmark) rfl
  have hempty : Mirrors count (scratch.resetQuery ef) ⟨[], MinimaxHeap.reset ef, []⟩ := {
    marks_length := hreset.marks_length
    marks_le := hreset.marks_le
    epoch_lt := hreset.epoch_lt
    visited := fun cid _ => ⟨fun hmark => absurd hmark (hunmarked cid), fun hmem => by cases hmem⟩
    sound := hsound
    candidates := HeapBuffer.view_reset _ _
    results := rfl
    ordered := by
      rw [resetQuery, SearchScratch.reset]
      dsimp only
      split <;> rfl }
  have hvisit : ((scratch.resetQuery ef).visit entry).2 =
      (scratch.resetQuery ef).withMarks
        ((scratch.resetQuery ef).marks.set entry (scratch.resetQuery ef).epoch) := by
    rw [SearchScratch.visit, if_neg (hunmarked entry)]
    rfl
  have hmarked := hempty.mark entry
  rw [← hvisit] at hmarked
  exact {
    marks_length := hmarked.marks_length
    marks_le := hmarked.marks_le
    epoch_lt := hmarked.epoch_lt
    visited := hmarked.visited
    sound := HeapBuffer.sound_push hmarked.sound _ _
    candidates := by
      rw [SearchScratch.start, HeapBuffer.view_push hmarked.sound, hmarked.candidates]
    results := by
      rw [SearchScratch.start, hmarked.results]
      rfl
    ordered := hmarked.ordered }

/-! ## The main loop -/

/-- What makes the loop end: every node becomes a candidate at most once. -/
structure Paced (count rounds : ℕ) (query : QueryScratch) : Prop where
  nodup : query.visited.Nodup
  bounded : ∀ cid ∈ query.visited, cid < count
  held : ∀ entry ∈ query.candidates.entries.toList, ∀ cid, entry.cid? = some cid → cid < count
  pace : query.candidates.valid + count ≤ rounds + query.visited.length

variable {rounds : ℕ}

theorem length_visited_le (hpaced : Paced count rounds query) : query.visited.length ≤ count := by
  have hsubset : query.visited ⊆ List.range count :=
    fun cid hcid => List.mem_range.mpr (hpaced.bounded cid hcid)
  simpa using (List.subperm_of_subset hpaced.nodup hsubset).length_le

theorem push_valid_le (heap : MinimaxHeap) (cid : ℕ) (distance : Distance) :
    (heap.push cid distance).valid ≤ heap.valid + 1 := by
  rw [MinimaxHeap.push]
  split
  · split
    · exact Nat.le_succ _
    · change heap.removeTop.valid + 1 ≤ heap.valid + 1
      rw [MinimaxHeap.removeTop]
      dsimp only
      split <;> omega
  · exact Nat.le_refl _

theorem Paced.visit (hpaced : Paced count rounds query) (hcandidate : candidate < count) :
    Paced count rounds (visitQueryCandidate distance resultCount query candidate) := by
  rw [visitQueryCandidate]
  by_cases hold : candidate ∈ query.visited
  · rw [if_pos hold]
    exact hpaced
  · rw [if_neg hold]
    refine ⟨List.nodup_cons.mpr ⟨hold, hpaced.nodup⟩, ?_, ?_, ?_⟩
    · intro cid hcid
      rcases List.mem_cons.mp hcid with rfl | hcid
      · exact hcandidate
      · exact hpaced.bounded cid hcid
    · intro entry hentry cid hcid
      rcases MinimaxHeap.mem_push hentry with rfl | hentry
      · cases hcid
        exact hcandidate
      · exact hpaced.held entry hentry cid hcid
    · have hvalid := push_valid_le query.candidates candidate (distance candidate)
      have hpace := hpaced.pace
      change (query.candidates.push candidate (distance candidate)).valid + count ≤
        rounds + (query.visited.length + 1)
      omega

theorem Paced.visitAll (hpaced : Paced count rounds query)
    (hneighbors : ∀ next ∈ neighbors, next < count) :
    Paced count rounds (neighbors.foldl (visitQueryCandidate distance resultCount) query) := by
  induction neighbors generalizing query with
  | nil => exact hpaced
  | cons next neighbors ih =>
      rw [List.foldl_cons]
      apply ih (hpaced.visit (hneighbors next List.mem_cons_self))
      exact fun other hother => hneighbors other (List.mem_cons_of_mem _ hother)

/-- A round takes a candidate that was pushed once. -/
theorem Paced.pop (hpaced : Paced count (rounds + 1) query) (hvalid : query.candidates.valid ≠ 0)
    {current : Scored} {candidates : MinimaxHeap}
    (hpop : query.candidates.popMin = some (current, candidates)) :
    Paced count rounds { query with candidates := candidates } ∧ current.cid < count := by
  obtain ⟨rest, hbefore, hafter, hlater, -, -⟩ := MinimaxHeap.popMin_some hpop
  refine ⟨⟨hpaced.nodup, hpaced.bounded, ?_, ?_⟩, ?_⟩
  · intro entry hentry cid hcid
    rcases List.mem_cons.mp (hafter.mem_iff.mp hentry) with rfl | hrest
    · cases hcid
    · exact hpaced.held entry (hbefore.mem_iff.mpr (List.mem_cons_of_mem _ hrest)) cid hcid
  · have hpace := hpaced.pace
    change candidates.valid + count ≤ rounds + query.visited.length
    omega
  · exact hpaced.held _ (hbefore.mem_iff.mpr List.mem_cons_self) current.cid rfl

/-- The loop ends in time, and as `queryLoop` does. -/
theorem Mirrors.searchRounds (hadjacent : ∀ cid < count, ∀ next ∈ adjacent cid, next < count)
    (hmirrors : Mirrors count scratch query) (hpaced : Paced count rounds query) :
    ∃ last, searchRounds adjacent distance resultCount ef rounds scratch = some last ∧
      Mirrors count last (queryLoop adjacent distance resultCount ef rounds query) := by
  have hvalid : scratch.queryCandidates.valid = query.candidates.valid := by
    rw [← hmirrors.candidates]
    rfl
  induction rounds generalizing scratch query with
  | zero =>
      have hpace := hpaced.pace
      have hfew := length_visited_le hpaced
      refine ⟨scratch, ?_, hmirrors⟩
      rw [SearchScratch.searchRounds, if_pos (by omega)]
  | succ rounds ih =>
      rw [SearchScratch.searchRounds, queryLoop, hvalid]
      by_cases hzero : query.candidates.valid = 0
      · rw [if_pos hzero, if_pos hzero]
        exact ⟨scratch, rfl, hmirrors⟩
      · have hview := HeapBuffer.popMin_view hmirrors.sound
        rw [hmirrors.candidates] at hview
        rw [if_neg hzero, if_neg hzero, hview]
        cases hpop : scratch.queryCandidates.popMin with
        | none => exact ⟨scratch, rfl, hmirrors⟩
        | some taken =>
            obtain ⟨current, candidates⟩ := taken
            rw [hpop] at hview
            have hpopped : Mirrors count { scratch with queryCandidates := candidates }
                { query with candidates := candidates.view } :=
              { hmirrors with
                sound := HeapBuffer.sound_popMin hmirrors.sound hpop
                candidates := rfl }
            obtain ⟨hpacedpop, hcurrent⟩ := hpaced.pop hzero hview
            rw [Option.map_some]
            dsimp only
            rw [HeapBuffer.countBelow_view]
            by_cases hbelow : ef ≤ candidates.countBelow current.distance
            · rw [if_pos hbelow, if_pos hbelow]
              exact ⟨_, rfl, hpopped⟩
            · rw [if_neg hbelow, if_neg hbelow]
              have hneighbors := hadjacent current.cid hcurrent
              have hexpanded : Mirrors count
                  (SearchScratch.expand distance resultCount
                    { scratch with queryCandidates := candidates } (adjacent current.cid)) _ :=
                hpopped.expand hneighbors
              apply ih hexpanded (hpacedpop.visitAll hneighbors)
              rw [← hexpanded.candidates]
              rfl

/-- A loop that has ended does not need more rounds. -/
theorem searchRounds_of_le {more : ℕ} {last : SearchScratch} (hle : rounds ≤ more)
    (hlast : searchRounds adjacent distance resultCount ef rounds scratch = some last) :
    searchRounds adjacent distance resultCount ef more scratch = some last := by
  induction rounds generalizing scratch more with
  | zero =>
      rw [SearchScratch.searchRounds] at hlast
      split at hlast
      · next hzero =>
          cases more with
          | zero => rw [SearchScratch.searchRounds, if_pos hzero, hlast]
          | succ more => rw [SearchScratch.searchRounds, if_pos hzero, hlast]
      · cases hlast
  | succ rounds ih =>
      obtain ⟨more, rfl⟩ : ∃ fewer, more = fewer + 1 := ⟨more - 1, by omega⟩
      rw [SearchScratch.searchRounds] at hlast ⊢
      split
      · next hzero => rwa [if_pos hzero] at hlast
      · next hvalid =>
          rw [if_neg hvalid] at hlast
          split
          · next hpop => rwa [hpop] at hlast
          · next current candidates hpop =>
              rw [hpop] at hlast
              dsimp only at hlast ⊢
              split
              · next hbelow => rwa [if_pos hbelow] at hlast
              · next hbelow =>
                  rw [if_neg hbelow] at hlast
                  exact ih (Nat.le_of_succ_le_succ hle) hlast

/-- A search ends, with the results of a search from nothing, and leaves a clean scratch. -/
theorem Clean.searchLayerQuery (hclean : Clean count scratch) (hef : 0 < ef)
    (hadjacent : ∀ cid < count, ∀ next ∈ adjacent cid, next < count) {entry : ℕ}
    (hentry : entry < count) {rounds : ℕ} (hrounds : count ≤ rounds) :
    ∃ left, searchLayerQuery adjacent distance resultCount ef rounds scratch entry =
        some ((Navigation.searchLayerQuery adjacent distance resultCount ef count
          entry).insertionSort (· ≤ ·), left) ∧ Clean count left := by
  have hroom : (MinimaxHeap.reset ef).entries.size < (MinimaxHeap.reset ef).capacity := hef
  have hperm := MinimaxHeap.push_perm hroom entry (distance entry)
  have hvalid := MinimaxHeap.push_valid hroom entry (distance entry)
  have hpaced : Paced count count
      ⟨[entry], (MinimaxHeap.reset ef).push entry (distance entry),
        [⟨entry, distance entry⟩]⟩ := by
    refine ⟨List.nodup_singleton _, ?_, ?_, ?_⟩
    · intro cid hcid
      rw [List.mem_singleton.mp hcid]
      exact hentry
    · intro other hother cid hcid
      rw [List.perm_singleton.mp hperm, List.mem_singleton] at hother
      subst hother
      cases hcid
      exact hentry
    · rw [hvalid]
      change 0 + 1 + count ≤ count + 1
      omega
  obtain ⟨last, hlast, hmirrors⟩ :=
    (hclean.start hef entry).searchRounds hadjacent hpaced
  refine ⟨{ last with ordered := (last.ordered ++ last.queryResults).insertionSort (· ≤ ·) }, ?_,
    ⟨hmirrors.marks_length, hmirrors.marks_le, hmirrors.epoch_lt⟩⟩
  rw [SearchScratch.searchLayerQuery, searchRounds_of_le hrounds hlast, Option.map_some,
    hmirrors.ordered, hmirrors.results]
  rfl

/-! ## Scratches in use -/

/-- The scratches of queries over so many nodes: new ones, and what searches and the pool
leave. -/
inductive Used (count : ℕ) : SearchScratch → Prop
  | newForQuery (candidateCapacity : ℕ) : Used count (newForQuery count candidateCapacity)
  | trimForQueryPool {scratch : SearchScratch} (hused : Used count scratch)
      (candidateCapacity : ℕ) : Used count (scratch.trimForQueryPool candidateCapacity)
  | searchLayerQuery {scratch left : SearchScratch} (hused : Used count scratch)
      {adjacent : ℕ → List ℕ} {distance : ℕ → Distance} {resultCount ef rounds entry : ℕ}
      {found : List Scored}
      (hadjacent : ∀ cid < count, ∀ next ∈ adjacent cid, next < count) (hentry : entry < count)
      (hef : 0 < ef)
      (hsearch : SearchScratch.searchLayerQuery adjacent distance resultCount ef rounds scratch
        entry = some (found, left)) :
      Used count left

theorem Used.clean (hused : Used count scratch) : Clean count scratch := by
  induction hused with
  | newForQuery candidateCapacity => exact clean_newForQuery count candidateCapacity
  | trimForQueryPool _ candidateCapacity ih => exact ih.trimForQueryPool candidateCapacity
  | @searchLayerQuery scratch left _ adjacent distance resultCount ef rounds entry found hadjacent
      hentry hef hsearch ih =>
      obtain ⟨last, hlast, hclean⟩ : ∃ last, SearchScratch.searchLayerQuery adjacent distance
          resultCount ef (rounds + count) scratch entry = some (_, last) ∧ Clean count last :=
        ih.searchLayerQuery hef hadjacent hentry (Nat.le_add_left count rounds)
      -- more rounds do not change a search that has ended
      have hmore : SearchScratch.searchLayerQuery adjacent distance resultCount ef (rounds + count)
          scratch entry = some (found, left) := by
        rw [SearchScratch.searchLayerQuery, Option.map_eq_some_iff] at hsearch ⊢
        obtain ⟨ended, hended, hpair⟩ := hsearch
        exact ⟨ended, searchRounds_of_le (Nat.le_add_right rounds count) hended, hpair⟩
      rw [hmore, Option.some.injEq, Prod.mk.injEq] at hlast
      rw [hlast.2]
      exact hclean

end SearchScratch

/-!
## Query searches of small graphs

A query search returns nodes that the lists lead to from its entry, nearest first, as many as
it was asked for if there are that many.  When the lists lead to no more nodes than the
candidate heap has room for, these are the nearest ones.

**Strategy.**  The results are always the nearest of the visited nodes (`Ranked`).  If at most
`ef` nodes were visited, the heap has dropped none of them and all were expanded, so the
visited nodes are all nodes that the lists lead to (`visited_eq_reachable`).  Otherwise more
nodes were visited than the search returns.
-/

open Foundations

variable {adjacent : ℕ → List ℕ} {distance : ℕ → Distance} {count entry resultCount ef : ℕ}

/-! ## What the lists lead to -/

def score (distance : ℕ → Distance) (cid : ℕ) : Scored := ⟨cid, distance cid⟩

theorem score_injective (distance : ℕ → Distance) : Function.Injective (score distance) :=
  fun _ _ hsame => congrArg Scored.cid hsame

/-- The lists lead from one node to another. -/
def Reaches (adjacent : ℕ → List ℕ) : ℕ → ℕ → Prop :=
  Relation.ReflTransGen fun cid next => next ∈ adjacent cid

open Classical in
/-- The nodes of a graph that the lists lead to from a node. -/
noncomputable def reachable (adjacent : ℕ → List ℕ) (count entry : ℕ) : Finset ℕ :=
  (Finset.range count).filter (Reaches adjacent entry)

variable {cid : ℕ}

theorem Met.reaches (hmet : Met adjacent distance entry cid) : Reaches adjacent entry cid := by
  induction hmet with
  | refl => exact Relation.ReflTransGen.refl
  | tail _ hleads ih => exact ih.tail hleads.2

theorem mem_reachable :
    cid ∈ reachable adjacent count entry ↔ cid < count ∧ Reaches adjacent entry cid := by
  classical
  rw [reachable, Finset.mem_filter, Finset.mem_range]

/-- A listed node is in some slot. -/
theorem mem_neighborsAt {layout : Layout} {slots : Slots} {layer next : ℕ}
    (hnext : next ∈ neighborsAt layout slots cid layer) : ∃ slot, slots slot = some next := by
  obtain ⟨position, -, hslot⟩ := List.mem_map.mp (mem_of_mem_presentPart hnext)
  exact ⟨_, hslot⟩

/-! ## The results -/

/-- The results are the nearest of the visited nodes. -/
def Ranked (distance : ℕ → Distance) (resultCount : ℕ) (query : QueryScratch) : Prop :=
  query.results = smallest resultCount (query.visited.map (score distance))

variable {query : QueryScratch}

theorem Ranked.visit (hranked : Ranked distance resultCount query) (candidate : ℕ) :
    Ranked distance resultCount (visitQueryCandidate distance resultCount query candidate) := by
  rw [visitQueryCandidate]
  by_cases hold : candidate ∈ query.visited
  · rw [if_pos hold]
    exact hranked
  · rw [if_neg hold, Ranked, considerQueryCandidate]
    dsimp only
    rw [List.map_cons, smallest_cons_eq, hranked]
    rfl

/-- What taking a candidate and visiting a node preserve holds at the end of the search. -/
theorem queryLoop_invariant {property : QueryScratch → Prop}
    (hpop : ∀ query candidates, property query → property { query with candidates := candidates })
    (hvisit : ∀ query candidate, property query →
      property (visitQueryCandidate distance resultCount query candidate)) (rounds : ℕ)
    (hstart : property query) :
    property (queryLoop adjacent distance resultCount ef rounds query) := by
  induction rounds generalizing query with
  | zero => exact hstart
  | succ rounds ih =>
      rw [queryLoop]
      split
      · exact hstart
      · split
        · exact hstart
        · next current candidates _ =>
            split
            · exact hpop query candidates hstart
            · apply ih
              have hpopped := hpop query candidates hstart
              generalize { query with candidates := candidates } = popped at hpopped
              induction adjacent current.cid generalizing popped with
              | nil => exact hpopped
              | cons next neighbors ihvisit => exact ihvisit _ (hvisit popped next hpopped)

/-- The results at the end of a search are the nearest of the nodes that it visited. -/
theorem ranked_queryLoop (hcount : 0 < resultCount) :
    Ranked distance resultCount
      (queryLoop adjacent distance resultCount ef count ⟨[entry], (MinimaxHeap.reset ef).push entry
        (distance entry), [⟨entry, distance entry⟩]⟩) := by
  apply queryLoop_invariant (fun _ _ hquery => hquery) (fun _ candidate hquery =>
    hquery.visit candidate)
  have hone : ([entry].map (score distance)).length ≤ resultCount := hcount
  exact (List.perm_singleton.mp (smallest_perm_self hone)).symm

/-- All visited nodes, if the heap had room for them, are all that the lists lead to. -/
theorem visited_eq_reachable (htracked : Tracked adjacent distance resultCount ef count entry query)
    (hexhausted : Exhausted adjacent distance query)
    (hfinite : ∀ cid < count, (distance cid).Finite) :
    query.visited.toFinset = reachable adjacent count entry := by
  ext cid
  rw [List.mem_toFinset, mem_reachable]
  constructor
  · intro hcid
    exact ⟨htracked.bounded cid hcid, (htracked.met cid hcid).reaches⟩
  · rintro ⟨-, hreaches⟩
    induction hreaches with
    | refl => exact htracked.start_mem
    | tail _ hnext ih =>
        exact hexhausted _ ih (Distance.value_lt_infinity (hfinite _ (htracked.bounded _ ih))) _
          hnext

/-- The nodes that were visited are among those that the lists lead to. -/
theorem length_visited_le_card
    (htracked : Tracked adjacent distance resultCount ef count entry query) :
    query.visited.length ≤ (reachable adjacent count entry).card := by
  rw [← List.toFinset_card_of_nodup htracked.nodup]
  apply Finset.card_le_card
  intro cid hcid
  rw [List.mem_toFinset] at hcid
  rw [mem_reachable]
  exact ⟨htracked.bounded cid hcid, (htracked.met cid hcid).reaches⟩

/-- The nearest of a list of nodes, sorted as a set. -/
theorem smallest_map_score {cids : List ℕ} (hnodup : cids.Nodup) :
    smallest resultCount (cids.map (score distance)) =
      ((cids.toFinset.image (score distance)).sort (· ≤ ·)).take resultCount := by
  have hscored : (cids.map (score distance)).Nodup := hnodup.map (score_injective distance)
  have hperm := List.perm_insertionSort (· ≤ ·) (cids.map (score distance))
  have hsort : ((cids.map (score distance)).insertionSort (· ≤ ·)).toFinset.sort (· ≤ ·) =
      (cids.map (score distance)).insertionSort (· ≤ ·) :=
    (List.toFinset_sort _ (hperm.nodup_iff.mpr hscored)).mpr
      (List.pairwise_insertionSort (· ≤ ·) _)
  have himage : cids.toFinset.image (score distance) =
      ((cids.map (score distance)).insertionSort (· ≤ ·)).toFinset := by
    ext scored
    simp [List.mem_insertionSort]
  rw [himage, hsort, smallest]

/-! ## The search -/

/-- What a search finds: distinct nodes that the lists lead to, nearest first and with their own
distances; as many as were asked for if there are that many; and the nearest of them, if the heap
has room for all nodes that the lists lead to. -/
structure Finds (adjacent : ℕ → List ℕ) (distance : ℕ → Distance)
    (resultCount ef count entry : ℕ) (found : List Scored) : Prop where
  met : ∀ scored ∈ found, scored.cid < count ∧ Reaches adjacent entry scored.cid
  own_distance : ∀ scored ∈ found, scored.distance = distance scored.cid
  distinct : (found.map Scored.cid).Nodup
  sorted : found.Pairwise (· < ·)
  length : found.length = min resultCount (reachable adjacent count entry).card
  nearest : (reachable adjacent count entry).card ≤ ef →
    found = (((reachable adjacent count entry).image (score distance)).sort (· ≤ ·)).take
      resultCount

/-- The nearest visited nodes, at the end of a search. -/
theorem finds_smallest (htracked : Tracked adjacent distance resultCount ef count entry query)
    (hexhausted : query.visited.length ≤ ef → Exhausted adjacent distance query)
    (hfinite : ∀ cid < count, (distance cid).Finite) (hef : resultCount ≤ ef) :
    Finds adjacent distance resultCount ef count entry
      (smallest resultCount (query.visited.map (score distance))) := by
  have hmore := length_visited_le_card htracked
  have hfew : query.visited.length ≤ ef →
      query.visited.toFinset = reachable adjacent count entry :=
    fun hfew => visited_eq_reachable htracked (hexhausted hfew) hfinite
  have hsort : smallest resultCount (query.visited.map (score distance)) = _ :=
    smallest_map_score htracked.nodup
  have hnodup : (smallest resultCount (query.visited.map (score distance))).Nodup := by
    rw [hsort]
    exact (Finset.sort_nodup _ _).sublist (List.take_sublist _ _)
  have hvisited : ∀ scored ∈ smallest resultCount (query.visited.map (score distance)),
      ∃ cid ∈ query.visited, score distance cid = scored :=
    fun scored hscored => List.mem_map.mp (mem_of_mem_smallest hscored)
  have hown : ∀ scored ∈ smallest resultCount (query.visited.map (score distance)),
      scored.distance = distance scored.cid := by
    intro scored hscored
    obtain ⟨cid, -, rfl⟩ := hvisited scored hscored
    rfl
  refine ⟨?_, hown, ?_, ?_, ?_, ?_⟩
  · intro scored hscored
    obtain ⟨cid, hcid, rfl⟩ := hvisited scored hscored
    exact ⟨htracked.bounded cid hcid, (htracked.met cid hcid).reaches⟩
  · apply hnodup.map_on
    intro left hleft right hright hsame
    calc left = score distance left.cid := by rw [score, ← hown left hleft]
      _ = score distance right.cid := by rw [hsame]
      _ = right := by rw [score, ← hown right hright]
  · have hsorted := pairwise_smallest resultCount (query.visited.map (score distance))
    exact (hsorted.and hnodup).imp fun hboth => lt_of_le_of_ne hboth.1 hboth.2
  · rw [length_smallest, List.length_map]
    by_cases hroom : query.visited.length ≤ ef
    · rw [← hfew hroom, List.toFinset_card_of_nodup htracked.nodup]
    · omega
  · intro hsmall
    rw [hsort, hfew (hmore.trans hsmall)]

/-- The results of `queryLoop` are the nearest of the nodes that it visits. -/
theorem finds_searchLayerQuery
    (hadjacent : ∀ cid < count, ∀ next ∈ adjacent cid, next < count) (hentry : entry < count)
    (hfinite : ∀ cid < count, (distance cid).Finite) (hcount : 0 < resultCount)
    (hef : resultCount ≤ ef) :
    Finds adjacent distance resultCount ef count entry
      ((searchLayerQuery adjacent distance resultCount ef count entry).insertionSort (· ≤ ·)) := by
  obtain ⟨htracked, hexhausted⟩ :=
    queryLoop_spec hadjacent count _ [] (Searching.initial hcount hef hentry) (by simp)
  have hresults : searchLayerQuery adjacent distance resultCount ef count entry = _ :=
    ranked_queryLoop hcount
  rw [hresults, (pairwise_smallest resultCount _).insertionSort_eq]
  exact finds_smallest htracked hexhausted hfinite hef

/-- A search for a query over the stored lists of layer 0 ends, in any scratch that earlier
queries have left, and finds the nearest nodes that the lists lead to. -/
theorem stored_graph_search {layout : Layout} {slots : Slots} {scratch : SearchScratch}
    {rounds : ℕ} (hscratch : scratch.Used layout.count)
    (hslots : ∀ slot next, slots slot = some next → next < layout.count)
    (hentry : entry < layout.count) (hfinite : ∀ cid < layout.count, (distance cid).Finite)
    (hcount : 0 < resultCount) (hef : resultCount ≤ ef) (hrounds : layout.count ≤ rounds) :
    ∃ found left, scratch.searchLayerQuery (fun cid => neighborsAt layout slots cid 0) distance
        resultCount ef rounds entry = some (found, left) ∧
      Finds (fun cid => neighborsAt layout slots cid 0) distance resultCount ef layout.count entry
        found := by
  have hadjacent : ∀ cid < layout.count, ∀ next ∈ neighborsAt layout slots cid 0,
      next < layout.count :=
    fun cid _ next hnext => (mem_neighborsAt hnext).elim fun slot hslot => hslots slot next hslot
  have hpositive : 0 < ef := hcount.trans_le hef
  obtain ⟨left, hsearch, -⟩ : ∃ left, scratch.searchLayerQuery _ distance resultCount ef rounds
      entry = some (_, left) ∧ left.Clean layout.count :=
    hscratch.clean.searchLayerQuery hpositive hadjacent hentry hrounds
  exact ⟨_, left, hsearch, finds_searchLayerQuery hadjacent hentry hfinite hcount hef⟩

/-- Two nodes that list each other. -/
def twoNodes : Layout := ⟨1, [0, 0]⟩

def twoSlots : Slots := fun slot => if slot = 0 then some 1 else if slot = 2 then some 0 else none

theorem stored_graph_search_twoNodes :
    ∃ found left, (SearchScratch.newForQuery 2 2).searchLayerQuery
        (fun cid => neighborsAt twoNodes twoSlots cid 0) (fun cid => ⟨false, cid⟩) 2 2 2 1 =
          some (found, left) ∧
      Finds (fun cid => neighborsAt twoNodes twoSlots cid 0) (fun cid => ⟨false, cid⟩) 2 2 2 1
        found := by
  have hused : SearchScratch.Used twoNodes.count (SearchScratch.newForQuery 2 2) :=
    .newForQuery 2
  refine stored_graph_search hused ?_ (by decide) ?_ (by decide) (by decide) (by decide)
  · intro slot next hslot
    unfold twoSlots at hslot
    split at hslot
    · cases hslot
      decide
    · split at hslot
      · cases hslot
        decide
      · cases hslot
  · decide

end ParqDB.Navigation
