import Mathlib.Data.Finset.Lattice.Lemmas
import ParqDB.Session.SearchCleanup

/-!
# Runs of a session with searches

A search is followed through any run of its session.  The other searches and the other operations
change the tables as they do without it; what it has registered itself comes on top.

**Results.**  `tables_restored_iff`: after a search has returned or was dropped, the registered
tables are those of the other operations if and only if no step of the run made it leave its
tables behind (`dropped_search_leaves_table`).
-/

namespace ParqDB.Session.SearchTables

open Foundations Foundations.Program Query

variable {F : Type} {display : F → String} {resolved : ResolvedSearch F} {token : String}
  {context after : Context} {label : Label F}

/-- The contract of a search that runs. -/
def Running (token : String) (record : Record) (task : Task Unit) : Prop :=
  Keeps token (fun later _ => later.Settled) Record.Settled record task

theorem Running.answer {record : Record} {operation : Operation} {next : Answer → Task Unit}
    (hrunning : Running token record (.await operation next)) (outcome : Answer) :
    Running token (record.after operation outcome) (next outcome) :=
  Guarded.answer (show Keeps token _ _ record (.await operation next) from hrunning) outcome

/-- The searches have tokens of their own, and each keeps to its names. -/
structure Sound (context : Context) : Prop where
  tokens : (context.searches.map Search.token).Nodup
  running : ∀ search ∈ context.searches, ∀ task ∈ search.program,
    ∃ record, Running search.token record task

/-! ## What a step does -/

inductive Moves (display : F → String) (context : Context) : Label F → Context → Prop
  | begin (resolved : ResolvedSearch F) (token : String)
      (hfresh : ∀ search ∈ context.searches, search.token ≠ token)
      (hnames : ∀ name ∈ temporaryNames token, name ∉ context.tables) :
      Moves display context (.begin resolved token) {
        tables := context.tables
        searches := context.searches ++ [⟨token, some (datafusionPlan display resolved token)⟩] }
  | answer (index : ℕ) (token : String) (operation : Operation) (next : Answer → Task Unit)
      (outcome : Answer)
      (hsearch : context.searches[index]? = some ⟨token, some (.await operation next)⟩) :
      Moves display context (.answer index operation outcome) {
        tables := changed context.tables (operation.change outcome)
        searches := context.searches.set index ⟨token, some (next outcome)⟩ }
  | drop (index : ℕ) (token : String) (operation : Operation) (next : Answer → Task Unit)
      (hsearch : context.searches[index]? = some ⟨token, some (.await operation next)⟩)
      (hawaits : operation.awaits = true) :
      Moves display context (.drop index) {
        tables := context.tables
        searches := context.searches.set index ⟨token, none⟩ }
  | other (change : Change)
      (hname : ∀ search ∈ context.searches, change.name ∉ temporaryNames search.token) :
      Moves display context (.other change) {
        tables := change.apply context.tables
        searches := context.searches }

theorem moves_of_steps (hstep : Steps display context label after) :
    Moves display context label after := by
  unfold Steps at hstep
  cases label with
  | begin resolved token =>
      simp only [step] at hstep
      split at hstep
      · next hfresh =>
          cases hstep
          exact .begin resolved token hfresh.1 hfresh.2
      · cases hstep
  | answer index operation outcome =>
      simp only [step] at hstep
      split at hstep
      · next token awaited next hsearch =>
          split at hstep
          · next heq =>
              subst heq
              cases hstep
              exact .answer index token awaited next outcome hsearch
          · cases hstep
      · cases hstep
  | drop index =>
      simp only [step] at hstep
      split at hstep
      · next token awaited next hsearch =>
          split at hstep
          · next hawaits =>
              cases hstep
              exact .drop index token awaited next hsearch hawaits
          · cases hstep
      · cases hstep
  | other change =>
      simp only [step] at hstep
      split at hstep
      · next hname =>
          cases hstep
          exact .other change hname
      · cases hstep

/-! ## All searches -/

variable {index : ℕ} {old : Search}

theorem map_token_set {searches : List Search} {new : Search} (hold : searches[index]? = some old)
    (htoken : new.token = old.token) :
    (searches.set index new).map Search.token = searches.map Search.token := by
  rw [List.map_set, htoken]
  obtain ⟨hindex, rfl⟩ := List.getElem?_eq_some_iff.mp hold
  refine List.ext_getElem (by simp) fun position _ _ => ?_
  rw [List.getElem_set, List.getElem_map]
  split
  · next heq => simp [heq]
  · simp

theorem sound_empty (tables : Finset String) : Sound ⟨tables, []⟩ :=
  ⟨List.nodup_nil, fun _ hsearch => absurd hsearch List.not_mem_nil⟩

/-- A search is replaced by one that is in order. -/
theorem Sound.set (hsound : Sound context) (new : Search)
    (hold : context.searches[index]? = some old) (htoken : new.token = old.token)
    (hnew : ∀ task ∈ new.program, ∃ record, Running new.token record task) (tables : Finset String) :
    Sound ⟨tables, context.searches.set index new⟩ where
  tokens := by
    rw [map_token_set hold htoken]
    exact hsound.tokens
  running search hsearch := by
    rcases List.mem_or_eq_of_mem_set hsearch with hbefore | rfl
    · exact hsound.running search hbefore
    · exact hnew

theorem Sound.tokens_ne (hsound : Sound context) {left right : ℕ} {first second : Search}
    (hleft : context.searches[left]? = some first)
    (hright : context.searches[right]? = some second) (hne : left ≠ right) :
    first.token ≠ second.token := by
  intro heq
  have hmapped : (context.searches.map Search.token)[left]? =
      (context.searches.map Search.token)[right]? := by
    rw [List.getElem?_map, List.getElem?_map, hleft, hright, Option.map_some, Option.map_some, heq]
  refine hne ((List.getElem?_inj ?_ hsound.tokens).mp hmapped)
  rw [List.length_map]
  exact (List.getElem?_eq_some_iff.mp hleft).1

theorem Sound.step (hsound : Sound context) (hstep : Steps display context label after) :
    Sound after := by
  cases moves_of_steps hstep with
  | begin resolved token hfresh hnames =>
      constructor
      · rw [List.map_append, List.nodup_append]
        refine ⟨hsound.tokens, List.nodup_singleton _, ?_⟩
        rintro _ hleft _ hright
        obtain ⟨search, hsearch, rfl⟩ := List.mem_map.mp hleft
        rw [List.mem_singleton.mp hright]
        exact hfresh search hsearch
      · intro search hsearch task htask
        rcases List.mem_append.mp hsearch with hbefore | hnew
        · exact hsound.running search hbefore task htask
        · rw [List.mem_singleton.mp hnew] at htask ⊢
          cases htask
          exact ⟨Record.empty, keeps_datafusionPlan⟩
  | answer index token operation next outcome hsearch =>
      refine hsound.set ⟨token, some (next outcome)⟩ hsearch rfl (fun task htask => ?_) _
      obtain ⟨record, hrecord⟩ :=
        hsound.running _ (List.mem_of_getElem? hsearch) _ rfl
      cases htask
      exact ⟨_, hrecord.answer outcome⟩
  | drop index token operation next hsearch hawaits =>
      exact hsound.set ⟨token, none⟩ hsearch rfl (fun task htask => by cases htask) _
  | other change hname => exact ⟨hsound.tokens, hsound.running⟩

/-! ## One search -/

/-- What one search has registered comes on top of the tables without it. -/
structure Tracks (index : ℕ) (token : String) (without : Finset String) (record : Record)
    (context : Context) : Prop where
  search : ∃ program, context.searches[index]? = some ⟨token, program⟩ ∧
    (∀ task ∈ program, Running token record task) ∧ (program = none → record.Settled)
  tables : context.tables = without ∪ record.registered.toFinset
  apart : ∀ name ∈ temporaryNames token, name ∉ without
  own : ∀ name ∈ record.registered, name ∈ temporaryNames token

namespace Tracks

variable {without : Finset String} {record : Record}

theorem registered_iff (htracks : Tracks index token without record context) :
    Registered context index ↔ record.registered ≠ [] := by
  obtain ⟨program, hprogram, -, -⟩ := htracks.search
  constructor
  · rintro ⟨search, hsearch, name, hname, hmember⟩
    obtain rfl : ⟨token, program⟩ = search := Option.some.inj (hprogram.symm.trans hsearch)
    rw [htracks.tables, Finset.mem_union, List.mem_toFinset] at hmember
    rcases hmember with hmember | hmember
    · exact absurd hmember (htracks.apart name hname)
    · exact List.ne_nil_of_mem hmember
  · intro hregistered
    obtain ⟨name, hname⟩ := List.exists_mem_of_ne_nil _ hregistered
    refine ⟨_, hprogram, name, htracks.own name hname, ?_⟩
    rw [htracks.tables, Finset.mem_union, List.mem_toFinset]
    exact Or.inr hname

/-- The tables are those without the search if and only if it has none registered. -/
theorem tables_eq_iff (htracks : Tracks index token without record context) :
    context.tables = without ↔ record.registered = [] := by
  rw [htracks.tables]
  constructor
  · intro hsame
    rw [List.eq_nil_iff_forall_not_mem]
    intro name hname
    refine htracks.apart name (htracks.own name hname) ?_
    rw [← hsame, Finset.mem_union, List.mem_toFinset]
    exact Or.inr hname
  · intro hnone
    rw [hnone, List.toFinset_nil, Finset.union_empty]

end Tracks

variable {names : List String} {without : Finset String}

/-- A change of names that are not registered by the search. -/
theorem apply_union {change : Change} (hname : change.name ∉ names) :
    change.apply (without ∪ names.toFinset) = change.apply without ∪ names.toFinset := by
  cases change with
  | add name => exact (Finset.insert_union name without _).symm
  | remove name =>
      show (without ∪ names.toFinset).erase name = without.erase name ∪ names.toFinset
      have hnot : name ∉ names.toFinset := fun hmember => hname (List.mem_toFinset.mp hmember)
      rw [Finset.erase_union_distrib, Finset.erase_eq_of_notMem hnot]

/-- A change of names of the search. -/
theorem changed_union {change : Option Change} (hname : ∀ found ∈ change, found.name ∉ without) :
    changed (without ∪ names.toFinset) change = without ∪ (changedNames names change).toFinset := by
  cases change with
  | none => rfl
  | some change =>
      cases change with
      | add name =>
          show insert name (without ∪ names.toFinset) = without ∪ (names ++ [name]).toFinset
          ext other
          simp only [Finset.mem_insert, Finset.mem_union, List.mem_toFinset, List.mem_append,
            List.mem_singleton]
          tauto
      | remove name =>
          show (without ∪ names.toFinset).erase name = _
          have hnot : name ∉ without := hname _ rfl
          ext other
          simp only [Finset.mem_erase, Finset.mem_union, List.mem_toFinset, changedNames,
            List.mem_filter, decide_eq_true_eq]
          constructor
          · rintro ⟨hne, hmember | hmember⟩
            · exact Or.inl hmember
            · exact Or.inr ⟨hmember, hne⟩
          · rintro (hmember | ⟨hmember, hne⟩)
            · exact ⟨fun heq => hnot (heq ▸ hmember), Or.inl hmember⟩
            · exact ⟨hne, Or.inr hmember⟩

/-- What a step of the search itself records. -/
def recordAfter (record : Record) (index : ℕ) : Label F → Record
  | .answer other operation outcome =>
      if other = index then record.after operation outcome else record
  | .drop other =>
      if other = index then ⟨record.registered, record.leaves || !record.registered.isEmpty⟩
      else record
  | _ => record

/-- The tables without the search after a step. -/
def withoutAfter (index : ℕ) (without : Finset String) (label : Label F) : Finset String :=
  if label.search = some index then without else changed without label.change

section

variable {record : Record}

section

variable (htracks : Tracks index token without record context)

include htracks

/-- A step of somebody else, which changes other names. -/
theorem Tracks.other
    (hsearch : after.searches[index]? = context.searches[index]?) (change : Option Change)
    (htables : after.tables = changed context.tables change)
    (hname : ∀ found ∈ change, found.name ∉ temporaryNames token) :
    Tracks index token (changed without change) record after where
  search := by
    rw [hsearch]
    exact htracks.search
  tables := by
    rw [htables, htracks.tables]
    cases change with
    | none => rfl
    | some change =>
        exact apply_union fun hmember => hname change rfl (htracks.own _ hmember)
  apart name hmember := by
    have hbefore := htracks.apart name hmember
    cases change with
    | none => exact hbefore
    | some change =>
        cases change with
        | add other =>
            show name ∉ insert other without
            rw [Finset.mem_insert, not_or]
            exact ⟨fun heq => hname _ rfl (heq ▸ hmember), hbefore⟩
        | remove other => exact fun hfound => hbefore (Finset.mem_of_mem_erase hfound)
  own := htracks.own

/-- The answer of an operation of the search. -/
theorem Tracks.answer {operation : Operation} {next : Answer → Task Unit} (outcome : Answer)
    (hrunning : Running token record (.await operation next))
    (hindex : index < context.searches.length) :
    Tracks index token without (record.after operation outcome) {
      tables := changed context.tables (operation.change outcome)
      searches := context.searches.set index ⟨token, some (next outcome)⟩ } where
  search := by
    refine ⟨some (next outcome), List.getElem?_set_self hindex, fun task htask => ?_,
      fun hnone => ?_⟩
    · cases htask
      exact hrunning.answer outcome
    · cases hnone
  tables := by
    show changed context.tables _ = _
    rw [htracks.tables]
    exact changed_union fun found hfound =>
      htracks.apart _ (hrunning.1.2 outcome found hfound)
  apart := htracks.apart
  own name hname := by
    unfold Record.after changedNames at hname
    dsimp only at hname
    split at hname
    · exact htracks.own name hname
    · next added hadded =>
        rcases List.mem_append.mp hname with hbefore | hnew
        · exact htracks.own name hbefore
        · rw [List.mem_singleton.mp hnew]
          exact hrunning.1.2 outcome _ hadded
    · exact htracks.own name (List.mem_of_mem_filter hname)

theorem Tracks.step (hsound : Sound context)
    (hstep : Steps display context label after) :
    Tracks index token (withoutAfter index without label) (recordAfter record index label)
      after := by
  obtain ⟨program, hprogram, hrunning, hdropped⟩ := htracks.search
  have hindex := (List.getElem?_eq_some_iff.mp hprogram).1
  cases moves_of_steps hstep with
  | begin resolved token hfresh hnames =>
      refine Tracks.other htracks ?_ none ?_ fun _ hfound => by cases hfound
      · exact List.getElem?_append_left hindex
      · rfl
  | other change hname =>
      refine Tracks.other htracks ?_ (some change) ?_ fun found hfound => ?_
      · rfl
      · rfl
      · cases hfound
        exact hname _ (List.mem_of_getElem? hprogram)
  | answer other otherToken operation next outcome hsearch =>
      by_cases hself : other = index
      · subst hself
        obtain ⟨rfl, rfl⟩ := Search.mk.inj (Option.some.inj (hprogram.symm.trans hsearch))
        simp only [withoutAfter, recordAfter, Label.search, if_true]
        exact htracks.answer outcome (hrunning _ rfl) hindex
      · -- the names of another token
        obtain ⟨found, hfound⟩ := hsound.running _ (List.mem_of_getElem? hsearch) _ rfl
        have hnames := disjoint_names (hsound.tokens_ne hsearch hprogram hself)
        simp only [withoutAfter, recordAfter, Label.search, Option.some.injEq, hself, if_false]
        refine Tracks.other htracks ?_ (operation.change outcome) ?_ fun change hchange => ?_
        · exact List.getElem?_set_ne hself
        · rfl
        · exact hnames _ (hfound.1.2 outcome change hchange)
  | drop other otherToken operation next hsearch hawaits =>
      by_cases hself : other = index
      · subst hself
        obtain ⟨rfl, rfl⟩ := Search.mk.inj (Option.some.inj (hprogram.symm.trans hsearch))
        simp only [withoutAfter, recordAfter, Label.search, if_true]
        refine ⟨⟨none, ?_, fun task htask => ?_, fun _ => ?_⟩, htracks.tables, htracks.apart,
          htracks.own⟩
        · exact List.getElem?_set_self hindex
        · cases htask
        · -- a search that runs has left nothing behind so far
          unfold Record.Settled
          rw [(hrunning _ rfl).1.1]
          simp
      · simp only [withoutAfter, recordAfter, Label.search, Option.some.injEq, hself, if_false]
        refine Tracks.other htracks ?_ none ?_ fun _ hfound => by cases hfound
        · exact List.getElem?_set_ne hself
        · rfl

/-- A step leaves tables behind if and only if the record says so. -/
theorem Tracks.leaves_iff (hleaves : record.leaves = false) :
    (recordAfter record index label).leaves = true ↔ LeavesTables index context label := by
  cases label with
  | begin resolved token =>
      refine iff_of_false ?_ id
      show ¬ record.leaves = true
      rw [hleaves]
      exact Bool.false_ne_true
  | other change =>
      refine iff_of_false ?_ id
      show ¬ record.leaves = true
      rw [hleaves]
      exact Bool.false_ne_true
  | drop other =>
      by_cases hself : other = index
      · simp only [recordAfter, LeavesTables, hself, if_true, hleaves, Bool.false_or, true_and]
        rw [htracks.registered_iff]
        simp
      · simp [recordAfter, LeavesTables, hself, hleaves]
  | answer other operation outcome =>
      by_cases hself : other = index
      · simp only [recordAfter, LeavesTables, hself, if_true, true_and]
        unfold Operation.Skips
        rw [htracks.registered_iff]
        unfold Record.after
        rw [hleaves]
        cases outcome with
        | ok found => simp
        | error error => simp
      · simp [recordAfter, LeavesTables, hself, hleaves]

end

end

/-! ## Runs -/

section

variable {record : Record} {labels : List (Label F)} {first last : Context}

/-- A step that leaves nothing behind. -/
def CleanStep (display : F → String) (index : ℕ) (before : Context) (label : Label F)
    (after : Context) : Prop :=
  Steps display before label after ∧ ¬ LeavesTables index before label

theorem tablesWithout_cons : tablesWithout index without (label :: labels) =
    tablesWithout index (withoutAfter index without label) labels := by
  unfold tablesWithout withoutAfter
  by_cases hsearch : label.search = some index
  · rw [List.filter_cons_of_neg (by simpa using hsearch), if_pos hsearch]
  · rw [List.filter_cons_of_pos (by simpa using hsearch), if_neg hsearch]
    rfl

/-- What is left behind stays known. -/
theorem leaves_of_recordAfter (hleaves : (recordAfter record index label).leaves = false) :
    record.leaves = false := by
  by_contra htrue
  rw [Bool.not_eq_false] at htrue
  cases label with
  | begin resolved token => exact absurd (htrue.symm.trans hleaves) (by decide)
  | other change => exact absurd (htrue.symm.trans hleaves) (by decide)
  | drop other =>
      by_cases hself : other = index
      · simp [recordAfter, hself, htrue] at hleaves
      · simp [recordAfter, hself, htrue] at hleaves
  | answer other operation outcome =>
      by_cases hself : other = index
      · simp [recordAfter, Record.after, hself, htrue] at hleaves
      · simp [recordAfter, hself, htrue] at hleaves

/-- The search at the end of a run. -/
theorem tracks_of_run (htracks : Tracks index token without record first) (hsound : Sound first)
    (hrun : Run (Steps display) first labels last) :
    ∃ final, Tracks index token (tablesWithout index without labels) final last ∧
      (final.leaves = false ↔
        record.leaves = false ∧ Run (CleanStep display index) first labels last) := by
  induction labels generalizing first without record with
  | nil =>
      obtain rfl : first = last := hrun
      exact ⟨record, htracks, (and_iff_left rfl).symm⟩
  | cons label labels ih =>
      obtain ⟨next, hstep, hrest⟩ := hrun
      obtain ⟨final, hfinal, hclean⟩ :=
        ih (htracks.step hsound hstep) (hsound.step hstep) hrest
      rw [tablesWithout_cons]
      refine ⟨final, hfinal, hclean.trans ?_⟩
      constructor
      · rintro ⟨hafter, hruns⟩
        have hleaves := leaves_of_recordAfter hafter
        refine ⟨hleaves, next, ⟨hstep, fun hleft => ?_⟩, hruns⟩
        rw [(htracks.leaves_iff hleaves).mpr hleft] at hafter
        cases hafter
      · rintro ⟨hleaves, other, ⟨hother, hkept⟩, hruns⟩
        obtain rfl : other = next := Option.some.inj (hother.symm.trans hstep)
        refine ⟨?_, hruns⟩
        rw [← Bool.not_eq_true, htracks.leaves_iff hleaves]
        exact hkept

/-- A search begins with nothing registered. -/
theorem tracks_begin (hbegin : Steps display first (.begin resolved token) last) :
    Tracks first.searches.length token first.tables Record.empty last := by
  cases moves_of_steps hbegin with
  | begin resolved token hfresh hnames =>
      refine ⟨⟨some (datafusionPlan display resolved token), ?_, fun task htask => ?_,
        fun hnone => ?_⟩, ?_, hnames, fun name hname => absurd hname List.not_mem_nil⟩
      · exact List.getElem?_concat_length
      · cases htask
        exact keeps_datafusionPlan
      · cases hnone
      · exact (Finset.union_empty _).symm

/-- A search that has ended is settled. -/
theorem Tracks.settled (htracks : Tracks index token without record context)
    (hended : ∀ search, context.searches[index]? = some search → search.Ended) :
    record.Settled := by
  obtain ⟨program, hprogram, hrunning, hdropped⟩ := htracks.search
  cases program with
  | none => exact hdropped rfl
  | some task =>
      have htask := hended _ hprogram task rfl
      have hkept := hrunning task rfl
      cases task with
      | done value => exact hkept
      | fail error => exact hkept
      | await operation next => exact htask.elim

theorem sound_of_run {tables : Finset String}
    (hrun : Run (Steps display) ⟨tables, []⟩ labels last) : Sound last :=
  Run.invariant (fun _ _ _ hsound hstep => hsound.step hstep) (sound_empty tables) hrun

/-- After a search has returned or was dropped, the registered tables are those of the other
operations if and only if it was not made to leave its tables behind. -/
theorem tables_restored_iff {tables : Finset String} {earlier : List (Label F)}
    {started : Context} (hearlier : Run (Steps display) ⟨tables, []⟩ earlier first)
    (hbegin : Steps display first (.begin resolved token) started)
    (hrun : Run (Steps display) started labels last)
    (hended : ∀ search, last.searches[first.searches.length]? = some search → search.Ended) :
    last.tables = tablesWithout first.searches.length first.tables labels ↔
      Run (CleanStep display first.searches.length) started labels last := by
  have hsound := (sound_of_run hearlier).step hbegin
  obtain ⟨final, hfinal, hclean⟩ := tracks_of_run (tracks_begin hbegin) hsound hrun
  have hsettled : final.registered = [] ↔ final.leaves = false := hfinal.settled hended
  rw [hfinal.tables_eq_iff, hsettled, hclean]
  exact and_iff_right rfl

/-! ## A filtered search -/

/-- A search of all clusters with a filter. -/
def filteredSearch : ResolvedSearch ℕ where
  sourceTableKey := "docs"
  query := [1, 0]
  metric := .l2Squared
  vectorField := "vector"
  sourceVectorIsF64 := false
  sourceKeyFields := ["id"]
  postingsTableKey := some "postings"
  postingEncoding := .lvq4
  clusterSelection := some .all
  nlist := some 4
  ntotal := some 9
  projection := ["id"]
  filter := some "id > 1"
  limit := 10

/-- The steps up to the trial of the filter. -/
def preparation : List (Label ℕ) := [
  .answer 0 (.sourceBinding "docs") (.ok (some "docs")),
  .answer 0 (.indexTable "postings" .manifestedCid) (.ok none),
  .answer 0 (.registerTable "parqdb_postings_0f") (.ok none)]

def probe : Operation := .sql (filterProbe "docs" "id > 1")

/-- A filter that is rejected: the table is deregistered. -/
def rejected : List (Label ℕ) := preparation ++ [
  .answer 0 probe (.error "column not found"),
  .answer 0 (.deregisterTable "parqdb_postings_0f") (.ok none)]

/-- The same search, with its clusters selected in SQL. -/
def routedSearch : ResolvedSearch ℕ :=
  { filteredSearch with clusterSelection := some (.dataFusion "centroids" 2) }

/-- The search is dropped while its centroid table is opened. -/
def dropped : List (Label ℕ) := preparation ++ [.drop 0]

theorem not_leavesTables_ok {operation : Operation} {found : Option String} {other : ℕ} :
    ¬ LeavesTables index context (.answer other operation (.ok found) : Label F) := by
  rintro ⟨-, ⟨error, herror⟩, -⟩
  cases herror

theorem not_leavesTables_sql {statement : String} {outcome : Answer} {other : ℕ} :
    ¬ LeavesTables index context (.answer other (.sql statement) outcome : Label F) := by
  rintro ⟨-, -, hskips | ⟨hregisters, -⟩⟩
  · cases hskips
  · cases hregisters

theorem rejected_filter_cleans_up : ∃ started last,
    Steps toString ⟨∅, []⟩ (.begin filteredSearch "0f") started ∧
      Run (Steps toString) started rejected last ∧
      last.tables = tablesWithout 0 ∅ rejected := by
  have hbegin : Steps toString ⟨∅, []⟩ (.begin filteredSearch "0f") _ := rfl
  refine ⟨_, _, hbegin, Run.of_foldlM rfl, ?_⟩
  refine (tables_restored_iff (show Run (Steps toString) ⟨∅, []⟩ [] ⟨∅, []⟩ from rfl) hbegin
    (Run.of_foldlM rfl) fun search hsearch => ?_).mpr ?_
  · cases hsearch
    intro task htask
    cases htask
    exact trivial
  · exact ⟨_, ⟨rfl, not_leavesTables_ok⟩, _, ⟨rfl, not_leavesTables_ok⟩,
      _, ⟨rfl, not_leavesTables_ok⟩, _, ⟨rfl, not_leavesTables_sql⟩,
      _, ⟨rfl, not_leavesTables_ok⟩, rfl⟩

/-- The search is dropped, and its table stays. -/
theorem dropped_search_leaves_table : ∃ started last,
    Steps toString ⟨∅, []⟩ (.begin routedSearch "0f") started ∧
      Run (Steps toString) started dropped last ∧
      (∀ search, last.searches[0]? = some search → search.Ended) ∧
      last.tables = {"parqdb_postings_0f"} ∧ last.tables ≠ tablesWithout 0 ∅ dropped := by
  refine ⟨_, _, rfl, Run.of_foldlM rfl, ?_, rfl, by decide⟩
  intro search hsearch
  cases hsearch
  intro task htask
  cases htask

end

end ParqDB.Session.SearchTables
