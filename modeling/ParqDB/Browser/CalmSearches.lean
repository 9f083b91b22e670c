import Mathlib.Logic.Function.Basic
import ParqDB.Browser.AbortedReads

/-!
# Searches of the browser client

Concurrent searches with abort signals of their own (`ParqDB.search` in
`src/browser/src/index.ts`), on any number of clients that share a range cache.

**Jobs.**  A job is a Parquet file being read: the centroids of a client or the metadata of a
postings file, whose promise later searches share while it is under way, or the rows of one
search.  A job asks its buffer for slices and ends when it likes; it may fail of its own accord
or hand on the failure of one of its slices.  So nothing is assumed of the Parquet library but
that it reads through the buffer it is given.

**Signals.**  The requests of a buffer run under the signal of the search that made it.  Such a
request fails with an abort error only if that signal is aborted.

**Timers.**  A flush runs from a timer, when all promise reactions have run: the cache has dealt
with every load that has completed.
-/

namespace ParqDB.Browser

open Foundations

/-- A Parquet file being read through a buffer, the slices it has asked for, and its promise. -/
structure Job where
  buffer : ℕ
  slices : List ℕ
  promise : Promise Unit

/-- A postings file of a search, which waits for the metadata of that file. -/
structure Plan where
  path : String
  job : ℕ
  waiting : Bool

/-- Where a search stands. -/
inductive Phase
  /-- It waits for the centroids; `started` says that it began to load them. -/
  | routing (job : ℕ) (started : Bool)
  /-- It waits for its plans. -/
  | planning
  /-- It reads rows from the files it has planned. -/
  | reading (jobs : List ℕ)
  | fulfilled
  | rejected (failure : Failure)

structure Search where
  client : ℕ
  signal : Option ℕ
  phase : Phase
  plans : List Plan
  rangeFiles : List ℕ

/-- A client: its options, the files of its manifest, and the promises that its searches
share. -/
structure Client where
  signal : Option ℕ
  allowHttp : Bool
  maxRangeBytes : ℕ
  maxRangeGapBytes : ℤ
  centroids : ObjectKey
  postings : List ObjectKey
  centroidData : Option ℕ
  postingsMetadata : String → Option ℕ

/-- A buffer over one of the files of a client, under the signal of a search. -/
def Client.buffer (client : Client) (signal : Option ℕ) (object : ObjectKey) :
    HttpRangeBuffer where
  object := object
  allowHttp := client.allowHttp
  signal := signal
  maxRangeBytes := client.maxRangeBytes
  maxRangeGapBytes := client.maxRangeGapBytes
  pending := []
  flushScheduled := false

/-- The page: its range reads, the signals that have been aborted, and what its clients do. -/
structure Page where
  reads : RangeReads
  aborted : List ℕ
  clients : List Client
  jobs : List Job
  searches : List Search

inductive PageAction
  | openClient (client : Client)
  | search (client : ℕ) (signal : Option ℕ)
  | routed (search : ℕ) (files : List ℕ)
  | routingFailed (search : ℕ)
  | planned (search plan : ℕ) (problem : Option String)
  | startReading (search : ℕ)
  | readRows (search file : ℕ)
  | rowsFailed (search job : ℕ)
  | finish (search : ℕ) (problem : Option String)
  | jobSlice (job : ℕ) (start stop : ℤ)
  | jobDone (job : ℕ) (problem : Option String)
  | jobFailed (job slice : ℕ)
  | abort (signal : ℕ)
  | http (action : ReadAction)

namespace Page

def new (capacityBytes : ℕ) : Page := ⟨RangeReads.new capacityBytes, [], [], [], []⟩

variable (system : Page)

/-- A buffer and a job that reads through it. -/
def startJob (client : Client) (signal : Option ℕ) (object : ObjectKey) : Option Page :=
  (system.reads.step (.create (client.buffer signal object))).map fun reads => { system with
    reads := reads
    jobs := system.jobs ++ [⟨system.reads.buffers.length, [], .pending⟩] }

/-- `loadCentroids`, up to its first await: the job to wait for. -/
def loadCentroids (index : ℕ) (client : Client) (signal : Option ℕ) : Option (Page × Phase) :=
  match client.centroidData with
  | some job => some (system, .routing job false)
  | none => (system.startJob client signal client.centroids).map fun started =>
      ({ started with
        clients := system.clients.set index { client with centroidData := some system.jobs.length } },
        .routing system.jobs.length true)

/-- `planPostings` for one file, up to its first await. -/
def planPostings (index : ℕ) (signal : Option ℕ) (planning : Page × List Plan)
    (object : ObjectKey) : Option (Page × List Plan) := do
  let (system, plans) := planning
  let client ← system.clients[index]?
  match client.postingsMetadata object.href with
  | some job => some (system, plans ++ [⟨object.href, job, true⟩])
  | none =>
      let started ← system.startJob client signal object
      some ({ started with
        clients := system.clients.set index { client with
          postingsMetadata := Function.update client.postingsMetadata object.href
            (some system.jobs.length) } },
        plans ++ [⟨object.href, system.jobs.length, true⟩])

def setSearch (index : ℕ) (search : Search) : Page :=
  { system with searches := system.searches.set index search }

/-- A search is rejected, unless it has settled before. -/
def reject (search : Search) (failure : Failure) : Search :=
  match search.phase with
  | .fulfilled | .rejected _ => search
  | _ => { search with phase := .rejected failure }

/-- The rejection with a message, if there is one. -/
def rejectFor (search : Search) : Option String → Search
  | some problem => reject search (.failed problem)
  | none => search

def setJob (index : ℕ) (job : Job) : Page := { system with jobs := system.jobs.set index job }

/-- Every load that has completed was dealt with. -/
def drained : Bool :=
  system.reads.loads.all fun load => !load.cached || load.promise = .pending || load.recorded

/-- The range reads make a step. -/
def http (action : ReadAction) : Option Page :=
  (system.reads.step action).map fun reads => { system with reads := reads }

/-- What may happen outside the clients: a request fails with an abort error only if its signal
was aborted. -/
def permits : ReadAction → Bool
  | .create _ | .slice _ _ _ => false
  | .flush _ => system.drained
  | .respond index (.rejected (.aborted signal)) =>
      system.aborted.contains signal &&
        system.reads.loads[index]?.any fun load => load.signal = some signal
  | .respond _ _ | .record _ | .resume _ => true

/-- The promise that a search shares is forgotten, if it is still the one that failed. -/
def forgetCentroids (index job : ℕ) : Page :=
  match system.clients[index]? with
  | some client => { system with clients := system.clients.set index { client with
      centroidData := if client.centroidData = some job then none else client.centroidData } }
  | none => system

def forgetMetadata (index job : ℕ) (path : String) : Page :=
  match system.clients[index]? with
  | some client => { system with clients := system.clients.set index { client with
      postingsMetadata := if client.postingsMetadata path = some job then
        Function.update client.postingsMetadata path none else client.postingsMetadata } }
  | none => system

/-- The plan goes on, once the metadata is there. -/
def planStep (index : ℕ) (search : Search) (position : ℕ) (plan : Plan) (promise : Promise Unit)
    (problem : Option String) : Option Page :=
  let search := { search with plans := search.plans.set position { plan with waiting := false } }
  match promise with
  | .pending => none
  | .fulfilled () => some (system.setSearch index (rejectFor search problem))
  | .rejected failure => some ((system.forgetMetadata search.client plan.job plan.path).setSearch
      index (reject search failure))

def step : PageAction → Option Page
  | .openClient client =>
      if client.centroidData = none then
        some { system with clients := system.clients ++
          [{ client with postingsMetadata := fun _ => none }] }
      else none
  | .search index signal => do
      let client ← system.clients[index]?
      let effective := signal.or client.signal
      let (routed, phase) ← system.loadCentroids index client effective
      some { routed with searches := system.searches ++ [⟨index, effective, phase, [], []⟩] }
  | .routed index files => do
      let search ← system.searches[index]?
      match search.phase with
      | .routing job _ => do
          let found ← system.jobs[job]?
          let client ← system.clients[search.client]?
          if found.promise = .fulfilled () then
            let objects ← files.mapM fun file => client.postings[file]?
            let (planned, plans) ← objects.foldlM (planPostings search.client search.signal)
              (system, [])
            some (planned.setSearch index { search with phase := .planning, plans := plans })
          else none
      | _ => none
  | .routingFailed index => do
      let search ← system.searches[index]?
      match search.phase with
      | .routing job started => do
          let found ← system.jobs[job]?
          match found.promise with
          | .rejected failure =>
              -- only the search that began the job forgets it
              let forgotten := if started then system.forgetCentroids search.client job else system
              some (forgotten.setSearch index (reject search failure))
          | _ => none
      | _ => none
  | .planned index position problem => do
      let search ← system.searches[index]?
      let plan ← search.plans[position]?
      let job ← system.jobs[plan.job]?
      if plan.waiting then system.planStep index search position plan job.promise problem
      else none
  | .startReading index => do
      let search ← system.searches[index]?
      let client ← system.clients[search.client]?
      match search.phase with
      | .planning =>
          if search.plans.all fun plan => !plan.waiting then
            let objects ← search.plans.mapM fun plan =>
              client.postings.find? fun object => object.href = plan.path
            let reads ← objects.foldlM (fun reads object =>
              RangeReads.step reads (.create (client.buffer search.signal object))) system.reads
            some ({ system with reads := reads }.setSearch index { search with
              phase := .reading []
              rangeFiles := (List.range objects.length).map (system.reads.buffers.length + ·) })
          else none
      | _ => none
  | .readRows index file => do
      let search ← system.searches[index]?
      match search.phase with
      | .reading jobs => do
          let buffer ← search.rangeFiles[file]?
          let job : Job := ⟨buffer, [], .pending⟩
          some ({ system with jobs := system.jobs ++ [job] }.setSearch index { search with
            phase := .reading (jobs ++ [system.jobs.length]) })
      | _ => none
  | .rowsFailed index job => do
      let search ← system.searches[index]?
      match search.phase with
      | .reading jobs => do
          let found ← system.jobs[job]?
          match found.promise with
          | .rejected failure =>
              if job ∈ jobs then some (system.setSearch index (reject search failure)) else none
          | _ => none
      | _ => none
  | .finish index problem => do
      let search ← system.searches[index]?
      match search.phase with
      | .reading jobs =>
          if jobs.all fun job =>
              system.jobs[job]?.any fun found => found.promise = .fulfilled () then
            some (system.setSearch index (match problem with
              | some message => reject search (.failed message)
              | none => { search with phase := .fulfilled }))
          else none
      | _ => none
  | .jobSlice index start stop => do
      let job ← system.jobs[index]?
      if job.promise = .pending then
        let reads ← system.reads.step (.slice job.buffer start stop)
        some ({ system with reads := reads }.setJob index { job with
          slices := job.slices ++ [system.reads.slices.length] })
      else none
  | .jobDone index problem => do
      let job ← system.jobs[index]?
      if job.promise = .pending then
        some (system.setJob index { job with promise := match problem with
          | some message => .rejected (.failed message)
          | none => .fulfilled () })
      else none
  | .jobFailed index position => do
      let job ← system.jobs[index]?
      let number ← job.slices[position]?
      let slice ← system.reads.slices[number]?
      match job.promise, slice.promise with
      | .pending, .rejected failure =>
          some (system.setJob index { job with promise := .rejected failure })
      | _, _ => none
  | .abort signal => some { system with aborted := signal :: system.aborted }
  | .http action => if system.permits action then system.http action else none

end Page

/-!
## Searches that no abort reaches

Searches share work that is under way: the promise of the centroids, the promises of postings
metadata, and ranges that are in flight.  All of it runs under the signal of the search that
began it, so that its abort is the failure of every search that joined.

**Strategy.**  A job counts as aborted as soon as one of its slices does (`AbortedJob`).  A search
is calm (`Calm`) if, its own signal not being aborted, no abort has rejected it and it waits for
no aborted job.  Jobs that begin are not aborted (`Extends`), and a plan waits for such a job or
for one that was shared (`Planning`).
-/

variable {system next : Page}

/-- A search that has not settled. -/
def Search.Live (search : Search) : Prop :=
  match search.phase with
  | .fulfilled | .rejected _ => False
  | _ => True

/-- The jobs that a search waits for. -/
def Search.awaited (search : Search) : List ℕ :=
  let planned := (search.plans.filter Plan.waiting).map Plan.job
  match search.phase with
  | .routing job _ => job :: planned
  | .planning => planned
  | .reading jobs => jobs ++ planned
  | .fulfilled | .rejected _ => []

/-- The job is rejected by an abort, or one of its slices is. -/
def Job.Aborted (reads : RangeReads) (job : Job) : Prop :=
  job.promise.aborted = true ∨
    job.promise = .pending ∧ ∃ slice ∈ job.slices, reads.AbortedSlice slice

namespace Page

def Unaborted (page : Page) (signal : Option ℕ) : Prop := ∀ number ∈ signal, number ∉ page.aborted

def AbortedJob (page : Page) (job : ℕ) : Prop := ∃ found ∈ page.jobs[job]?, found.Aborted page.reads

/-- The job is under way, and one of its slices waits for the load. -/
def WaitsFor (page : Page) (job load : ℕ) : Prop :=
  ∃ found ∈ page.jobs[job]?, found.promise = .pending ∧
    ∃ slice ∈ found.slices, page.reads.Awaits slice load

/-- No abort reaches a search whose own signal is not aborted: it joins no promise that an abort
has reached, and no request is aborted on which it waits. -/
def Apart (page : Page) : PageAction → Prop
  | .search index signal => ∀ client ∈ page.clients[index]?,
      page.Unaborted (signal.or client.signal) →
        ∀ job ∈ client.centroidData, ¬ page.AbortedJob job
  | .routed index files => ∀ search ∈ page.searches[index]?, page.Unaborted search.signal →
      ∀ client ∈ page.clients[search.client]?, ∀ objects ∈ files.mapM (client.postings[·]?),
        ∀ object ∈ objects, ∀ job ∈ client.postingsMetadata object.href, ¬ page.AbortedJob job
  | .http (.respond load (.rejected (.aborted _))) => ∀ search ∈ page.searches,
      page.Unaborted search.signal → ∀ job ∈ search.awaited, ¬ page.WaitsFor job load
  | _ => True

/-- What holds of a search, unless its own signal was aborted. -/
def Calm (page : Page) (search : Search) : Prop :=
  page.Unaborted search.signal →
    (∀ signal, search.phase ≠ .rejected (.aborted signal)) ∧
      ∀ job ∈ search.awaited, ¬ page.AbortedJob job

structure Sound (page : Page) : Prop where
  reads : Inv (fun _ _ _ _ => True) page.reads
  searches : ∀ search ∈ page.searches, page.Calm search

/-! ## Searches -/

variable {search : Search}

section

variable (hcalm : system.Calm search)

include hcalm

theorem Calm.mono (hjobs : ∀ job, next.AbortedJob job → system.AbortedJob job)
    (haborted : system.aborted ⊆ next.aborted) : next.Calm search := by
  intro hunaborted
  obtain ⟨hphase, hawaited⟩ := hcalm fun number hnumber hmem =>
    hunaborted number hnumber (haborted hmem)
  exact ⟨hphase, fun job hjob hlost => hawaited job hjob (hjobs job hlost)⟩

/-- A job that a calm search waits for does not fail with an abort. -/
theorem Calm.failure
    (hunaborted : system.Unaborted search.signal) {job : ℕ} {found : Job} {failure : Failure}
    (hjob : job ∈ search.awaited) (hfound : system.jobs[job]? = some found)
    (hfailure : found.promise = .rejected failure) (signal : ℕ) : failure ≠ .aborted signal := by
  rintro rfl
  refine (hcalm hunaborted).2 job hjob ⟨found, hfound, Or.inl ?_⟩
  rw [hfailure]
  rfl

theorem calm_reject {failure : Failure}
    (hfailure : system.Unaborted search.signal → search.Live →
      ∀ signal, failure ≠ .aborted signal) : system.Calm (reject search failure) := by
  unfold reject
  split
  · exact hcalm
  · exact hcalm
  · next hlive hlive' =>
      intro hunaborted
      have hsearch : search.Live := by
        unfold Search.Live
        split
        · next hphase => exact hlive hphase
        · next hphase => exact hlive' _ hphase
        · trivial
      refine ⟨?_, by simp [Search.awaited]⟩
      rintro signal heq
      exact hfailure hunaborted hsearch signal (Phase.rejected.inj heq)

theorem calm_rejectFor (problem : Option String) :
    system.Calm (rejectFor search problem) := by
  cases problem with
  | none => exact hcalm
  | some problem => exact calm_reject hcalm fun _ _ _ heq => by cases heq

end

/-- A plan that goes on is not waited for any more. -/
theorem awaited_set_subset {position : ℕ} {plan : Plan} :
    { search with plans := search.plans.set position { plan with waiting := false } }.awaited ⊆
      search.awaited := by
  have hplans : ((search.plans.set position { plan with waiting := false }).filter
      Plan.waiting).map Plan.job ⊆ (search.plans.filter Plan.waiting).map Plan.job := by
    apply List.map_subset
    intro other hother
    obtain ⟨hmem, hwaiting⟩ := List.mem_filter.mp hother
    rcases List.mem_or_eq_of_mem_set hmem with hmem | rfl
    · exact List.mem_filter.mpr ⟨hmem, hwaiting⟩
    · cases hwaiting
  unfold Search.awaited
  dsimp only
  split
  · exact List.cons_subset_cons _ hplans
  · exact hplans
  · exact List.append_subset.mpr
      ⟨List.subset_append_left _ _, fun _ hmem => List.mem_append_right _ (hplans hmem)⟩
  · exact List.Subset.refl _
  · exact List.Subset.refl _

/-- A search that waits for less. -/
theorem Calm.of_subset {search changed : Search} (hcalm : system.Calm search)
    (hsignal : changed.signal = search.signal)
    (hphase : ∀ signal, changed.phase ≠ .rejected (.aborted signal) ∨
      changed.phase = search.phase)
    (hawaited : ∀ job ∈ changed.awaited, job ∈ search.awaited ∨ ¬ system.AbortedJob job) :
    system.Calm changed := by
  intro hunaborted
  rw [hsignal] at hunaborted
  obtain ⟨hspared, hjobs⟩ := hcalm hunaborted
  refine ⟨fun signal => ?_, fun job hjob => ?_⟩
  · rcases hphase signal with hother | hsame
    · exact hother
    · rw [hsame]
      exact hspared signal
  · rcases hawaited job hjob with hbefore | hsound
    · exact hjobs job hbefore
    · exact hsound

/-! ## Jobs that begin -/

/-- Buffers and jobs were added. -/
structure Extends (system next : Page) : Prop where
  reads : Inv (fun _ _ _ _ => True) system.reads → Inv (fun _ _ _ _ => True) next.reads
  slices : Inv (fun _ _ _ _ => True) system.reads →
    ∀ slice, next.reads.AbortedSlice slice → system.reads.AbortedSlice slice
  jobs : ∃ fresh, next.jobs = system.jobs ++ fresh ∧
    ∀ job ∈ fresh, job.slices = [] ∧ job.promise = .pending
  searches : next.searches = system.searches
  aborted : next.aborted = system.aborted

theorem Extends.refl (system : Page) : Extends system system where
  reads := fun hinv => hinv
  slices := fun _ _ haborted => haborted
  jobs := ⟨[], (List.append_nil _).symm, by simp⟩
  searches := rfl
  aborted := rfl

theorem Extends.trans {later : Page} (hfirst : Extends system next) (hsecond : Extends next later) :
    Extends system later where
  reads := fun hinv => hsecond.reads (hfirst.reads hinv)
  slices := fun hinv slice haborted =>
    hfirst.slices hinv slice (hsecond.slices (hfirst.reads hinv) slice haborted)
  jobs := by
    obtain ⟨fresh, hjobs, hfresh⟩ := hfirst.jobs
    obtain ⟨more, hmore, hfresh'⟩ := hsecond.jobs
    refine ⟨fresh ++ more, by rw [hmore, hjobs, List.append_assoc], fun job hjob => ?_⟩
    rcases List.mem_append.mp hjob with hjob | hjob
    · exact hfresh job hjob
    · exact hfresh' job hjob
  searches := hsecond.searches.trans hfirst.searches
  aborted := hsecond.aborted.trans hfirst.aborted

/-- A job that has asked for nothing is not aborted. -/
theorem Extends.abortedJob (hextends : Extends system next)
    (hinv : Inv (fun _ _ _ _ => True) system.reads) {job : ℕ} (haborted : next.AbortedJob job) :
    system.AbortedJob job ∧ job < system.jobs.length := by
  obtain ⟨found, hfound, hlost⟩ := haborted
  obtain ⟨fresh, hjobs, hfresh⟩ := hextends.jobs
  rw [hjobs, Option.mem_def] at hfound
  by_cases hold : job < system.jobs.length
  · rw [List.getElem?_append_left hold] at hfound
    refine ⟨⟨found, hfound, ?_⟩, hold⟩
    rcases hlost with hrejected | ⟨hpending, slice, hslice, hreached⟩
    · exact Or.inl hrejected
    · exact Or.inr ⟨hpending, slice, hslice, hextends.slices hinv slice hreached⟩
  · rw [List.getElem?_append_right (Nat.le_of_not_lt hold)] at hfound
    obtain ⟨hslices, hpending⟩ := hfresh found (List.mem_of_getElem? hfound)
    rcases hlost with hrejected | ⟨-, slice, hslice, -⟩
    · rw [hpending] at hrejected
      cases hrejected
    · rw [hslices] at hslice
      cases hslice

theorem Sound.extends (hsound : system.Sound) (hextends : Extends system next) : next.Sound := by
  refine ⟨hextends.reads hsound.reads, fun search hsearch => ?_⟩
  rw [hextends.searches] at hsearch
  refine (hsound.searches search hsearch).mono (fun job hlost => ?_) ?_
  · exact (hextends.abortedJob hsound.reads hlost).1
  · rw [hextends.aborted]
    exact List.Subset.refl _

variable {index : ℕ} {after before : Page × List Plan} {objects : List ObjectKey}

theorem Sound.setSearch (hsound : system.Sound) (hcalm : system.Calm search) :
    (system.setSearch index search).Sound := by
  refine ⟨hsound.reads, fun other hother => ?_⟩
  rcases List.mem_or_eq_of_mem_set hother with hother | rfl
  · exact (hsound.searches other hother).mono (fun _ hlost => hlost) (List.Subset.refl _)
  · exact hcalm.mono (fun _ hlost => hlost) (List.Subset.refl _)

theorem Sound.setClients (hsound : system.Sound) (clients : List Client) :
    ({ system with clients := clients } : Page).Sound :=
  ⟨hsound.reads, fun search hsearch =>
    (hsound.searches search hsearch).mono (fun _ hlost => hlost) (List.Subset.refl _)⟩

theorem extends_create {reads : RangeReads} {buffer : HttpRangeBuffer} {jobs : List Job}
    (hcreate : system.reads.step (.create buffer) = some reads)
    (hfresh : ∀ job ∈ jobs, job.slices = [] ∧ job.promise = .pending) (clients : List Client) :
    Extends system { system with
      reads := reads
      clients := clients
      jobs := system.jobs ++ jobs } where
  reads := fun hinv => hinv.step (fun _ _ _ _ _ _ _ _ _ => trivial) hcreate trivial
  slices := by
    intro hinv slice haborted
    rcases RangeReads.abortedSlice_of_step hinv hcreate (fun _ heq => by cases heq) haborted with
      hbefore | ⟨load, -, hends⟩
    · exact hbefore
    · exact hends.elim
  jobs := ⟨jobs, rfl, hfresh⟩
  searches := rfl
  aborted := rfl

variable {object : ObjectKey} {signal : Option ℕ}

theorem startJob_spec {client : Client}
    (hstart : system.startJob client signal object = some next) (clients : List Client) :
    Extends system { next with clients := clients } := by
  obtain ⟨reads, hcreate, rfl⟩ := Option.map_eq_some_iff.mp hstart
  exact extends_create hcreate (by simp) clients

/-- Centroids that are not shared are loaded by a new job. -/
theorem loadCentroids_spec {client : Client} {phase : Phase}
    (hload : system.loadCentroids index client signal = some (next, phase)) :
    Extends system next ∧ ∃ job started, phase = .routing job started ∧
      (client.centroidData = some job ∨ system.jobs.length ≤ job) := by
  unfold loadCentroids at hload
  split at hload
  · next job hjob =>
      cases hload
      exact ⟨Extends.refl system, job, false, rfl, Or.inl hjob⟩
  · obtain ⟨started, hstarted, heq⟩ := Option.map_eq_some_iff.mp hload
    cases heq
    exact ⟨startJob_spec hstarted _, _, true, rfl, Or.inr (Nat.le_refl _)⟩

/-- The metadata of a path was shared before, or is read by a new job. -/
def Known (system : Page) (index : ℕ) (path : String) (job : ℕ) : Prop :=
  system.jobs.length ≤ job ∨
    ∃ client ∈ system.clients[index]?, client.postingsMetadata path = some job

/-- What planning has done so far. -/
structure Planning (system : Page) (index : ℕ) (objects : List ObjectKey)
    (planning : Page × List Plan) : Prop where
  page : Extends system planning.1
  shared : ∀ client ∈ planning.1.clients[index]?, ∀ path job,
    client.postingsMetadata path = some job → system.Known index path job
  plans : ∀ plan ∈ planning.2, (∃ object ∈ objects, object.href = plan.path) ∧
    system.Known index plan.path plan.job

theorem Planning.step (hplanning : Planning system index objects before)
    (hmem : object ∈ objects) (hstep : planPostings index signal before object = some after) :
    Planning system index objects after := by
  obtain ⟨current, plans⟩ := before
  obtain ⟨hpage, hshared, hplans⟩ := hplanning
  unfold planPostings at hstep
  simp only [Option.bind_eq_bind, Option.bind_eq_some_iff] at hstep
  obtain ⟨client, hclient, hstep⟩ := hstep
  split at hstep
  · next job hjob =>
      cases hstep
      refine ⟨hpage, hshared, fun plan hplan => ?_⟩
      rcases List.mem_append.mp hplan with hplan | hplan
      · exact hplans plan hplan
      · rw [List.mem_singleton.mp hplan]
        exact ⟨⟨object, hmem, rfl⟩, hshared client hclient _ _ hjob⟩
  · obtain ⟨started, hstarted, hstep⟩ := Option.bind_eq_some_iff.mp hstep
    cases hstep
    have hlater : system.jobs.length ≤ current.jobs.length := by
      obtain ⟨fresh, hjobs, -⟩ := hpage.jobs
      rw [hjobs, List.length_append]
      exact Nat.le_add_right _ _
    refine ⟨hpage.trans (startJob_spec hstarted _), ?_, fun plan hplan => ?_⟩
    · intro changed hchanged path job hjob
      rw [Option.mem_def, mem_of_set hclient, if_pos rfl] at hchanged
      cases hchanged
      dsimp only at hjob
      by_cases hpath : path = object.href
      · rw [hpath, Function.update_self] at hjob
        cases hjob
        exact Or.inl hlater
      · rw [Function.update_of_ne hpath] at hjob
        exact hshared client hclient path job hjob
    · rcases List.mem_append.mp hplan with hplan | hplan
      · exact hplans plan hplan
      · rw [List.mem_singleton.mp hplan]
        exact ⟨⟨object, hmem, rfl⟩, Or.inl hlater⟩

theorem Planning.run {remaining : List ObjectKey}
    (hplanning : Planning system index objects before) (hsubset : remaining ⊆ objects)
    (hrun : remaining.foldlM (planPostings index signal) before = some after) :
    Planning system index objects after := by
  induction remaining generalizing before with
  | nil =>
      cases hrun
      exact hplanning
  | cons object remaining ih =>
      rw [List.foldlM_cons] at hrun
      obtain ⟨middle, hstep, hrest⟩ := Option.bind_eq_some_iff.mp hrun
      rw [List.cons_subset] at hsubset
      exact ih (hplanning.step hsubset.1 hstep) hsubset.2 hrest

theorem planning_new (system : Page) (index : ℕ) (objects : List ObjectKey) :
    Planning system index objects (system, []) where
  page := Extends.refl system
  shared := fun client hclient _ _ hjob => Or.inr ⟨client, hclient, hjob⟩
  plans := by simp

/-- Buffers are created one after the other. -/
theorem extends_creates {buffer : ObjectKey → HttpRangeBuffer} {reads : RangeReads}
    (hcreates : objects.foldlM (fun reads object =>
      RangeReads.step reads (.create (buffer object))) system.reads = some reads) :
    Extends system { system with reads := reads } := by
  induction objects generalizing system with
  | nil =>
      cases hcreates
      exact Extends.refl system
  | cons object objects ih =>
      rw [List.foldlM_cons] at hcreates
      obtain ⟨middle, hcreate, hrest⟩ := Option.bind_eq_some_iff.mp hcreates
      have hfirst := @extends_create system middle (buffer object) [] hcreate (by simp)
        system.clients
      rw [List.append_nil] at hfirst
      exact hfirst.trans (@ih { system with reads := middle } hrest)

end Page

end ParqDB.Browser
