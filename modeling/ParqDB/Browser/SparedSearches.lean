import ParqDB.Browser.CalmSearches

/-!
# What cancelling one search does to the others

**Strategy.**  A step that is `Apart` keeps all searches calm: no request is aborted on which a
search with an unaborted signal waits, and no such search joins a promise that an abort has
reached already.

**Results.**  `searches_spared`: in every run whose steps are apart, no search with an unaborted
signal is rejected by an abort.  `joinedSearch_aborted`: without that, one is.
-/

namespace ParqDB.Browser

open Foundations

namespace Page

variable {system next : Page}

/-! ## Jobs go on -/

variable {index job : ℕ} {problem : Option String}

/-- One job changes and the range reads go on. -/
theorem abortedJob_of_set {before changed : Job} (haborted : next.AbortedJob job)
    (hbefore : system.jobs[index]? = some before)
    (hjobs : next.jobs = system.jobs.set index changed)
    (hslices : ∀ slice, next.reads.AbortedSlice slice → system.reads.AbortedSlice slice)
    (hchanged : changed.Aborted next.reads → before.Aborted system.reads) :
    system.AbortedJob job := by
  obtain ⟨found, hfound, hlost⟩ := haborted
  rw [hjobs, Option.mem_def, mem_of_set hbefore] at hfound
  split at hfound
  · next heq =>
      cases hfound
      exact ⟨before, heq ▸ hbefore, hchanged hlost⟩
  · refine ⟨found, hfound, ?_⟩
    rcases hlost with hrejected | ⟨hpending, slice, hslice, hreached⟩
    · exact Or.inl hrejected
    · exact Or.inr ⟨hpending, slice, hslice, hslices slice hreached⟩

/-- The range reads go on, and nothing else changes. -/
theorem abortedJob_of_reads {reads : RangeReads}
    (haborted : ({ system with reads := reads } : Page).AbortedJob job) :
    system.AbortedJob job ∨ ∃ found ∈ system.jobs[job]?, found.promise = .pending ∧
      ∃ slice ∈ found.slices, reads.AbortedSlice slice ∧ ¬ system.reads.AbortedSlice slice := by
  obtain ⟨found, hfound, hlost⟩ := haborted
  rcases hlost with hrejected | ⟨hpending, slice, hslice, hreached⟩
  · exact Or.inl ⟨found, hfound, Or.inl hrejected⟩
  · by_cases hold : system.reads.AbortedSlice slice
    · exact Or.inl ⟨found, hfound, Or.inr ⟨hpending, slice, hslice, hold⟩⟩
    · exact Or.inr ⟨found, hfound, hpending, slice, hslice, hreached, hold⟩

section

variable (hsound : system.Sound)

include hsound

theorem Sound.of_jobs (hreads : Inv (fun _ _ _ _ => True) next.reads)
    (hsearches : next.searches = system.searches) (haborted : system.aborted ⊆ next.aborted)
    (hjobs : ∀ job, next.AbortedJob job → system.AbortedJob job) : next.Sound := by
  refine ⟨hreads, fun search hsearch => ?_⟩
  rw [hsearches] at hsearch
  exact (hsound.searches search hsearch).mono hjobs haborted

theorem Sound.jobSlice {start stop : ℤ}
    (hstep : system.step (.jobSlice index start stop) = some next) : next.Sound := by
  simp only [Page.step, Option.bind_eq_bind, Option.bind_eq_some_iff] at hstep
  obtain ⟨job, hjob, hstep⟩ := hstep
  split at hstep
  · next hpending =>
      obtain ⟨reads, hreads, heq⟩ := Option.bind_eq_some_iff.mp hstep
      cases heq
      have hslices : ∀ slice, reads.AbortedSlice slice → system.reads.AbortedSlice slice := by
        intro slice haborted
        rcases RangeReads.abortedSlice_of_step hsound.reads hreads (fun _ heq => by cases heq)
          haborted with hbefore | ⟨load, -, hends⟩
        · exact hbefore
        · exact hends.elim
      refine hsound.of_jobs (hsound.reads.step (fun _ _ _ _ _ _ _ _ _ => trivial) hreads trivial)
        rfl (List.Subset.refl _) fun other hlost => ?_
      refine abortedJob_of_set hlost hjob rfl hslices ?_
      rintro (hrejected | ⟨-, slice, hslice, hreached⟩)
      · exact Or.inl hrejected
      · rcases List.mem_append.mp hslice with hslice | hslice
        · exact Or.inr ⟨hpending, slice, hslice, hslices slice hreached⟩
        · -- the slice that was just asked for
          rw [List.mem_singleton.mp hslice] at hreached
          exact absurd (hslices _ hreached)
            (RangeReads.not_abortedSlice_of_length_le hsound.reads (Nat.le_refl _))
  · cases hstep

theorem Sound.jobDone (hstep : system.step (.jobDone index problem) = some next) : next.Sound := by
  simp only [Page.step, Option.bind_eq_bind, Option.bind_eq_some_iff] at hstep
  obtain ⟨job, hjob, hstep⟩ := hstep
  split at hstep
  · cases hstep
    refine hsound.of_jobs hsound.reads rfl (List.Subset.refl _) fun other hlost => ?_
    refine abortedJob_of_set hlost hjob rfl (fun _ hreached => hreached) ?_
    rintro (hrejected | ⟨hpending, -⟩)
    · cases problem <;> cases hrejected
    · cases problem <;> cases hpending
  · cases hstep

theorem Sound.jobFailed {position : ℕ}
    (hstep : system.step (.jobFailed index position) = some next) : next.Sound := by
  simp only [Page.step, Option.bind_eq_bind, Option.bind_eq_some_iff] at hstep
  obtain ⟨job, hjob, number, hnumber, slice, hslice, hstep⟩ := hstep
  split at hstep
  · next failure hpending hfailure =>
      cases hstep
      refine hsound.of_jobs hsound.reads rfl (List.Subset.refl _) fun other hlost => ?_
      refine abortedJob_of_set hlost hjob rfl (fun _ hreached => hreached) ?_
      rintro (hrejected | ⟨hpending', -⟩)
      · -- the job hands on the failure of its slice
        refine Or.inr ⟨hpending, number, List.mem_of_getElem? hnumber, Or.inl ⟨slice, hslice, ?_⟩⟩
        rw [hfailure]
        cases failure with
        | aborted signal => rfl
        | failed message => cases hrejected
      · cases hpending'
  · cases hstep

theorem Sound.http {action : ReadAction}
    (hapart : system.Apart (.http action)) (hstep : system.step (.http action) = some next) :
    next.Sound := by
  simp only [Page.step] at hstep
  split at hstep
  · next hpermits =>
      obtain ⟨reads, hreads, rfl⟩ := Option.map_eq_some_iff.mp hstep
      refine ⟨hsound.reads.step (fun _ _ _ _ _ _ _ _ _ => trivial) hreads ?_, ?_⟩
      · cases action with
        | respond index reply => cases reply <;> simp [Honest]
        | _ => trivial
      have hdrained : ∀ index, action = .flush index → system.reads.Drained := by
        rintro index rfl load hload hcached
        have hdealt := List.all_eq_true.mp hpermits load hload
        rw [hcached] at hdealt
        simpa using hdealt
      intro search hsearch hunaborted
      obtain ⟨hphase, hawaited⟩ := hsound.searches search hsearch hunaborted
      refine ⟨hphase, fun job hjob hlost => ?_⟩
      rcases abortedJob_of_reads hlost with hbefore | ⟨found, hfound, hpending, slice, hslice,
        hreached, hnew⟩
      · exact hawaited job hjob hbefore
      · rcases RangeReads.abortedSlice_of_step hsound.reads hreads hdrained hreached with
          hold | ⟨load, hawaits, hends⟩
        · exact hnew hold
        · -- the load that ended is one that the search waited for
          have hwaits : system.WaitsFor job load :=
            ⟨found, hfound, hpending, slice, hslice, hawaits⟩
          cases action with
          | respond index reply =>
              cases reply with
              | response response => exact hends
              | rejected failure =>
                  cases failure with
                  | aborted signal =>
                      obtain rfl : index = load := hends
                      exact hapart search hsearch hunaborted job hjob hwaits
                  | failed message => exact hends
          | _ => exact hends
  · cases hstep

end

/-! ## Searches go on -/

theorem awaited_of_routing {search : Search} {started : Bool}
    (hphase : search.phase = .routing job started) : job ∈ search.awaited := by
  unfold Search.awaited
  rw [hphase]
  exact List.mem_cons_self

theorem awaited_of_reading {search : Search} {jobs : List ℕ} (hphase : search.phase = .reading jobs)
    (hjob : job ∈ jobs) : job ∈ search.awaited := by
  unfold Search.awaited
  rw [hphase]
  exact List.mem_append_left _ hjob

/-- A search that has not settled waits for its plans. -/
theorem awaited_of_plan {search : Search} (hlive : search.Live) {plan : Plan}
    (hplan : plan ∈ search.plans) (hwaiting : plan.waiting = true) :
    plan.job ∈ search.awaited := by
  have hmem : plan.job ∈ (search.plans.filter Plan.waiting).map Plan.job :=
    List.mem_map_of_mem (List.mem_filter.mpr ⟨hplan, hwaiting⟩)
  unfold Search.Live at hlive
  unfold Search.awaited
  dsimp only
  split
  · exact List.mem_cons_of_mem _ hmem
  · exact hmem
  · exact List.mem_append_right _ hmem
  · next hphase =>
      rw [hphase] at hlive
      exact hlive.elim
  · next failure hphase =>
      rw [hphase] at hlive
      exact hlive.elim

section

variable (hsound : system.Sound)

include hsound

theorem Sound.search {signal : Option ℕ}
    (hapart : system.Apart (.search index signal))
    (hstep : system.step (.search index signal) = some next) : next.Sound := by
  simp only [Page.step, Option.bind_eq_bind, Option.bind_eq_some_iff] at hstep
  obtain ⟨client, hclient, ⟨routed, phase⟩, hload, heq⟩ := hstep
  cases heq
  obtain ⟨hextends, job, started, rfl, hjob⟩ := loadCentroids_spec hload
  have hrouted := hsound.extends hextends
  refine ⟨hrouted.reads, fun search hsearch => ?_⟩
  rcases List.mem_append.mp hsearch with hsearch | hsearch
  · rw [← hextends.searches] at hsearch
    exact (hrouted.searches search hsearch).mono (fun _ hlost => hlost) (List.Subset.refl _)
  · rw [List.mem_singleton.mp hsearch]
    intro hunaborted
    refine ⟨fun _ heq => (by cases heq), fun other hother hlost => ?_⟩
    rw [List.mem_singleton.mp hother] at hlost
    obtain ⟨hbefore, hold⟩ := hextends.abortedJob hsound.reads hlost
    rcases hjob with hshared | hnew
    · refine hapart client hclient ?_ job hshared hbefore
      intro number hnumber
      rw [← hextends.aborted]
      exact hunaborted number hnumber
    · exact absurd hold (Nat.not_lt.mpr hnew)

theorem Sound.routed {files : List ℕ}
    (hapart : system.Apart (.routed index files))
    (hstep : system.step (.routed index files) = some next) : next.Sound := by
  simp only [Page.step, Option.bind_eq_bind, Option.bind_eq_some_iff] at hstep
  obtain ⟨search, hsearch, hstep⟩ := hstep
  split at hstep
  · next job started hphase =>
      obtain ⟨found, -, hstep⟩ := Option.bind_eq_some_iff.mp hstep
      obtain ⟨client, hclient, hstep⟩ := Option.bind_eq_some_iff.mp hstep
      split at hstep
      · obtain ⟨objects, hobjects, hstep⟩ := Option.bind_eq_some_iff.mp hstep
        obtain ⟨⟨planned, plans⟩, hplans, heq⟩ := Option.bind_eq_some_iff.mp hstep
        cases heq
        have hplanning := (planning_new system search.client objects).run (List.Subset.refl _) hplans
        refine (hsound.extends hplanning.page).setSearch fun hunaborted => ?_
        refine ⟨fun _ heq => (by cases heq), fun other hother hlost => ?_⟩
        obtain ⟨plan, hplan, rfl⟩ := List.mem_map.mp hother
        obtain ⟨⟨object, hobject, hpath⟩, hknown⟩ :=
          hplanning.plans plan (List.mem_filter.mp hplan).1
        obtain ⟨hbefore, hold⟩ := hplanning.page.abortedJob hsound.reads hlost
        rcases hknown with hnew | ⟨client', hclient', hshared⟩
        · exact absurd hold (Nat.not_lt.mpr hnew)
        · refine hapart search hsearch ?_ client' hclient' objects ?_ object hobject plan.job
            (by rw [hpath]; exact hshared) hbefore
          · intro number hnumber
            have hsame : planned.aborted = system.aborted := hplanning.page.aborted
            rw [← hsame]
            exact hunaborted number hnumber
          · obtain rfl := Option.some.inj (hclient.symm.trans hclient')
            exact hobjects
      · cases hstep
  · cases hstep

theorem Sound.routingFailed
    (hstep : system.step (.routingFailed index) = some next) : next.Sound := by
  simp only [Page.step, Option.bind_eq_bind, Option.bind_eq_some_iff] at hstep
  obtain ⟨search, hsearch, hstep⟩ := hstep
  have hcalm := hsound.searches search (List.mem_of_getElem? hsearch)
  split at hstep
  · next job started hphase =>
      obtain ⟨found, hfound, hstep⟩ := Option.bind_eq_some_iff.mp hstep
      split at hstep
      · next failure hfailure =>
          cases hstep
          have hforgotten : ∃ clients, (if started then system.forgetCentroids search.client job
              else system) = { system with clients := clients } := by
            split
            · unfold forgetCentroids
              split
              · exact ⟨_, rfl⟩
              · exact ⟨_, rfl⟩
            · exact ⟨_, rfl⟩
          obtain ⟨clients, hclients⟩ := hforgotten
          rw [hclients]
          refine (hsound.setClients clients).setSearch ?_
          refine calm_reject (hcalm.mono (fun _ hlost => hlost) (List.Subset.refl _))
            fun hunaborted _ => ?_
          exact hcalm.failure hunaborted (awaited_of_routing hphase) hfound hfailure
      · cases hstep
  · cases hstep

theorem Sound.planned {position : ℕ}
    (hstep : system.step (.planned index position problem) = some next) : next.Sound := by
  simp only [Page.step, Option.bind_eq_bind, Option.bind_eq_some_iff] at hstep
  obtain ⟨search, hsearch, plan, hplan, job, hjob, hstep⟩ := hstep
  have hcalm := hsound.searches search (List.mem_of_getElem? hsearch)
  split at hstep
  · next hwaiting =>
      have hplanned : system.Calm { search with
          plans := search.plans.set position { plan with waiting := false } } :=
        hcalm.of_subset rfl (fun _ => Or.inr rfl)
          fun other hother => Or.inl (awaited_set_subset hother)
      unfold planStep at hstep
      dsimp only at hstep
      split at hstep
      · cases hstep
      · cases hstep
        exact hsound.setSearch (calm_rejectFor hplanned problem)
      · next failure hfailure =>
          cases hstep
          have hforgotten : ∃ clients, system.forgetMetadata search.client plan.job plan.path =
              { system with clients := clients } := by
            unfold forgetMetadata
            split
            · exact ⟨_, rfl⟩
            · exact ⟨_, rfl⟩
          obtain ⟨clients, hclients⟩ := hforgotten
          rw [hclients]
          refine (hsound.setClients clients).setSearch ?_
          refine calm_reject (hplanned.mono (fun _ hlost => hlost) (List.Subset.refl _))
            fun hunaborted hlive => ?_
          have hbefore : search.Live := hlive
          exact hcalm.failure hunaborted (awaited_of_plan hbefore (List.mem_of_getElem? hplan)
            hwaiting) hjob hfailure
  · cases hstep

theorem Sound.startReading
    (hstep : system.step (.startReading index) = some next) : next.Sound := by
  simp only [Page.step, Option.bind_eq_bind, Option.bind_eq_some_iff] at hstep
  obtain ⟨search, hsearch, client, hclient, hstep⟩ := hstep
  split at hstep
  · next hphase =>
      split at hstep
      · obtain ⟨objects, -, hstep⟩ := Option.bind_eq_some_iff.mp hstep
        obtain ⟨reads, hreads, heq⟩ := Option.bind_eq_some_iff.mp hstep
        cases heq
        have hextends := extends_creates hreads
        have hafter := hsound.extends hextends
        have hcalm := hafter.searches search (List.mem_of_getElem? hsearch)
        refine hafter.setSearch (hcalm.of_subset rfl (fun _ => Or.inl (by simp)) ?_)
        intro job hjob
        unfold Search.awaited at hjob ⊢
        rw [hphase]
        exact Or.inl hjob
      · cases hstep
  · cases hstep

theorem Sound.readRows {file : ℕ}
    (hstep : system.step (.readRows index file) = some next) : next.Sound := by
  simp only [Page.step, Option.bind_eq_bind, Option.bind_eq_some_iff] at hstep
  obtain ⟨search, hsearch, hstep⟩ := hstep
  split at hstep
  · next jobs hphase =>
      obtain ⟨buffer, -, heq⟩ := Option.bind_eq_some_iff.mp hstep
      cases heq
      have hextends : Extends system { system with
          jobs := system.jobs ++ [⟨buffer, [], .pending⟩] } :=
        ⟨fun hinv => hinv, fun _ _ hlost => hlost, ⟨_, rfl, by simp⟩, rfl, rfl⟩
      have hafter := hsound.extends hextends
      have hcalm := hafter.searches search (List.mem_of_getElem? hsearch)
      refine hafter.setSearch (hcalm.of_subset rfl (fun _ => Or.inl (by simp)) ?_)
      intro job hjob
      unfold Search.awaited at hjob ⊢
      rw [hphase]
      dsimp only at hjob ⊢
      rw [List.append_assoc, List.mem_append, List.mem_append, List.mem_singleton] at hjob
      rcases hjob with hold | rfl | hplan
      · exact Or.inl (List.mem_append_left _ hold)
      · -- the job that begins
        exact Or.inr fun hlost => Nat.lt_irrefl _ (hextends.abortedJob hsound.reads hlost).2
      · exact Or.inl (List.mem_append_right _ hplan)
  · cases hstep

theorem Sound.rowsFailed
    (hstep : system.step (.rowsFailed index job) = some next) : next.Sound := by
  simp only [Page.step, Option.bind_eq_bind, Option.bind_eq_some_iff] at hstep
  obtain ⟨search, hsearch, hstep⟩ := hstep
  have hcalm := hsound.searches search (List.mem_of_getElem? hsearch)
  split at hstep
  · next jobs hphase =>
      obtain ⟨found, hfound, hstep⟩ := Option.bind_eq_some_iff.mp hstep
      split at hstep
      · next failure hfailure =>
          split at hstep
          · next hjob =>
              cases hstep
              refine hsound.setSearch (calm_reject hcalm fun hunaborted _ => ?_)
              exact hcalm.failure hunaborted (awaited_of_reading hphase hjob) hfound hfailure
          · cases hstep
      · cases hstep
  · cases hstep

theorem Sound.finish (hstep : system.step (.finish index problem) = some next) : next.Sound := by
  simp only [Page.step, Option.bind_eq_bind, Option.bind_eq_some_iff] at hstep
  obtain ⟨search, hsearch, hstep⟩ := hstep
  have hcalm := hsound.searches search (List.mem_of_getElem? hsearch)
  split at hstep
  · split at hstep
    · cases hstep
      cases problem with
      | some message =>
          exact hsound.setSearch (calm_reject hcalm fun _ _ _ heq => by cases heq)
      | none =>
          exact hsound.setSearch fun _ => ⟨fun _ heq => (by cases heq), by simp [Search.awaited]⟩
    · cases hstep
  · cases hstep

end

/-! ## Runs -/

theorem Sound.step (hsound : system.Sound) {action : PageAction} (hapart : system.Apart action)
    (hstep : system.step action = some next) : next.Sound := by
  cases action with
  | openClient client =>
      simp only [Page.step, Option.ite_none_right_eq_some] at hstep
      obtain ⟨-, heq⟩ := hstep
      cases heq
      exact hsound.setClients _
  | search index signal => exact hsound.search hapart hstep
  | routed index files => exact hsound.routed hapart hstep
  | routingFailed index => exact hsound.routingFailed hstep
  | planned index position problem => exact hsound.planned hstep
  | startReading index => exact hsound.startReading hstep
  | readRows index file => exact hsound.readRows hstep
  | rowsFailed index job => exact hsound.rowsFailed hstep
  | finish index problem => exact hsound.finish hstep
  | jobSlice index start stop => exact hsound.jobSlice hstep
  | jobDone index problem => exact hsound.jobDone hstep
  | jobFailed index position => exact hsound.jobFailed hstep
  | abort signal =>
      cases hstep
      exact hsound.of_jobs hsound.reads rfl (List.subset_cons_self _ _) fun _ hlost => hlost
  | http action => exact hsound.http hapart hstep

theorem sound_new (capacityBytes : ℕ) : (Page.new capacityBytes).Sound where
  reads := Inv.new capacityBytes
  searches := by simp [Page.new]

end Page

/-- A run of a page. -/
abbrev PageRun : Page → List PageAction → Page → Prop :=
  Run fun before action after => before.step action = some after

/-- A run in which no abort reaches a search with an unaborted signal. -/
abbrev ApartRun : Page → List PageAction → Page → Prop :=
  Run fun before action after => before.step action = some after ∧ before.Apart action

/-- As long as all steps are apart, no search is rejected by an abort but by that of its own
signal. -/
theorem searches_spared {capacityBytes : ℕ} {actions : List PageAction} {page : Page}
    (hsteps : ApartRun (Page.new capacityBytes) actions page) :
    ∀ search ∈ page.searches, (∀ signal ∈ search.signal, signal ∉ page.aborted) →
      ∀ signal, search.phase ≠ .rejected (.aborted signal) := by
  have hsound : page.Sound := Run.invariant
    (fun _ _ _ hbefore hstep => hbefore.step hstep.2 hstep.1) (Page.sound_new capacityBytes) hsteps
  intro search hsearch hunaborted
  exact (hsound.searches search hsearch hunaborted).1

/-- A client with small files, which it reads whole. -/
def smallClient : Client where
  signal := none
  allowHttp := false
  maxRangeBytes := 4
  maxRangeGapBytes := 0
  centroids := ⟨"https://host/centroids", 4⟩
  postings := [⟨"https://host/postings", 4⟩]
  centroidData := none
  postingsMetadata := fun _ => none

/-- The first search is aborted while it plans; the second has the centroids and goes on. -/
def sparedSearch : List PageAction :=
  [.openClient smallClient, .search 0 (some 0), .jobSlice 0 0 4,
    .http (.respond 0 (.response ⟨some "https:", 200, none, .ok [1, 2, 3, 4]⟩)),
    .http (.resume 0), .jobDone 0 none, .search 0 (some 1), .routed 0 [0], .jobSlice 1 0 4,
    .abort 0, .http (.respond 1 (.rejected (.aborted 0))), .http (.resume 1), .jobFailed 1 0,
    .planned 0 0 none, .routed 1 [], .startReading 1, .finish 1 none]

def sparedSearchEnd : Page :=
  (sparedSearch.foldlM Page.step (Page.new 8)).getD (Page.new 8)

theorem sparedSearch_fulfilled :
    ApartRun (Page.new 8) sparedSearch sparedSearchEnd ∧
      sparedSearchEnd.searches.map Search.phase = [.rejected (.aborted 0), .fulfilled] ∧
      ∀ search ∈ sparedSearchEnd.searches,
        (∀ signal ∈ search.signal, signal ∉ sparedSearchEnd.aborted) →
          ∀ signal, search.phase ≠ .rejected (.aborted signal) := by
  have hsteps : ApartRun (Page.new 8) sparedSearch sparedSearchEnd := by
    refine ⟨_, ⟨rfl, trivial⟩, _, ⟨rfl, ?_⟩, _, ⟨rfl, trivial⟩, _, ⟨rfl, trivial⟩,
      _, ⟨rfl, trivial⟩, _, ⟨rfl, trivial⟩, _, ⟨rfl, ?_⟩, _, ⟨rfl, ?_⟩, _, ⟨rfl, trivial⟩,
      _, ⟨rfl, trivial⟩, _, ⟨rfl, ?_⟩, _, ⟨rfl, trivial⟩, _, ⟨rfl, trivial⟩, _, ⟨rfl, trivial⟩,
      _, ⟨rfl, ?_⟩, _, ⟨rfl, trivial⟩, _, ⟨rfl, trivial⟩, rfl⟩
    · rintro client ⟨⟩ - job ⟨⟩
    · -- the centroids are there
      rintro client ⟨⟩ - job ⟨⟩ ⟨found, ⟨⟩, hrejected | ⟨hpending, -⟩⟩
      · cases hrejected
      · cases hpending
    · rintro search ⟨⟩ - client ⟨⟩ objects ⟨⟩ object hobject job hjob
      cases hjob
    · -- the second search waits for centroids that are there
      rintro search (_ | ⟨_, _ | ⟨_, ⟨⟩⟩⟩) hunaborted job hjob ⟨found, hfound, hpending, -⟩
      · exact hunaborted 0 rfl List.mem_cons_self
      · obtain rfl : job = 0 := List.mem_singleton.mp hjob
        cases hfound
        cases hpending
    · rintro search ⟨⟩ - client ⟨⟩ objects ⟨⟩ object hobject
      cases hobject
  exact ⟨hsteps, rfl, searches_spared hsteps⟩

/-- The second search joins the centroids that the first one loads, and the first is aborted. -/
def joinedSearch : List PageAction :=
  [.openClient smallClient, .search 0 (some 0), .search 0 (some 1), .jobSlice 0 0 4, .abort 0,
    .http (.respond 0 (.rejected (.aborted 0))), .http (.resume 0), .jobFailed 0 0,
    .routingFailed 0, .routingFailed 1]

def joinedSearchEnd : Page :=
  (joinedSearch.foldlM Page.step (Page.new 8)).getD (Page.new 8)

/-- Its signal is not aborted, and it has made no request of its own. -/
theorem joinedSearch_aborted :
    PageRun (Page.new 8) joinedSearch joinedSearchEnd ∧ joinedSearchEnd.aborted = [0] ∧
      joinedSearchEnd.searches.map Search.signal = [some 0, some 1] ∧
      joinedSearchEnd.searches.map Search.phase =
        [.rejected (.aborted 0), .rejected (.aborted 0)] ∧
      joinedSearchEnd.reads.loads.map Load.signal = [some 0] :=
  ⟨Run.of_foldlM rfl, rfl, rfl, rfl, rfl⟩

end ParqDB.Browser
