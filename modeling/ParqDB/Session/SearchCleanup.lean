import Mathlib.Data.Finset.Basic
import ParqDB.Foundations.Await
import ParqDB.Foundations.Runs
import ParqDB.Query.SearchSql

/-!
# Tables of a search

`datafusion_plan` of `parqdb-local/src/session/query.rs`, with `register_search_tables`,
`compile_registered_search` and `deregister_temporary`: a search registers temporary tables under
the names of its token, plans its statement over them, and deregisters them again.

A search is a `Program` whose operations may succeed or fail.  It can be dropped while it awaits one
of them, and other searches and operations of the session go on between its operations.

**What is a parameter.**  The outcome of each operation.  A token is a random UUID: no other
party uses its names.
-/

namespace ParqDB.Session.SearchTables

open Foundations Query

/-! ## The program -/

inductive IndexTableLayout
  | manifestedCid
  | plain
deriving DecidableEq

/-- What a search asks of its session and of its context. -/
inductive Operation
  | indexTable (key : String) (layout : IndexTableLayout)
  | indexTableForCids (key : String) (cids : List ℤ)
  | selectClusters (cids : List ℤ)
  | compileIndexOnlyPlan
  | sourceBinding (key : String)
  | selectedBatch (cids : List ℤ)
  | registerTable (name : String)
  | sql (statement : String)
  | deregisterTable (name : String)
deriving DecidableEq

/-- An operation fails, or returns something; only a binding has a name. -/
abbrev Answer := Except String (Option String)

/-- The operations at which a search can be dropped. -/
def Operation.awaits : Operation → Bool
  | .indexTable _ _ => true
  | .indexTableForCids _ _ => true
  | .sql _ => true
  | _ => false

abbrev Task := Program Operation (fun _ => Answer) String

/-- An operation whose error is passed on. -/
def perform (operation : Operation) : Task Unit :=
  .await operation fun answer =>
    match answer with
    | .ok _ => .done ()
    | .error error => .fail error

structure RegisteredSearchTables (F : Type) where
  execution : ResolvedSearch F
  source : Option String
  postings : Option String
  centroids : Option String
  selectedClusters : Option String

def postingsTable (token : String) : String := "parqdb_postings_" ++ token

def centroidsTable (token : String) : String := "parqdb_centroids_" ++ token

def selectedClustersTable (token : String) : String := "parqdb_selected_clusters_" ++ token

section

variable {F : Type} (display : F → String)

/-- The temporary tables, in the order in which they are deregistered. -/
def RegisteredSearchTables.temporary (registered : RegisteredSearchTables F) : List String :=
  registered.postings.toList ++ registered.centroids.toList ++
    registered.selectedClusters.toList

/-- Stops at the first table that is not deregistered. -/
def deregisterAll : List String → Task Unit
  | [] => .done ()
  | name :: rest => do
      perform (.deregisterTable name)
      deregisterAll rest

def deregisterTemporary (registered : RegisteredSearchTables F) : Task Unit :=
  deregisterAll registered.temporary

/-- Whether there is a plan over the postings alone. -/
def indexOnlyPostings (resolved : ResolvedSearch F) : Task Bool := do
  let required ← Program.ofExcept (sourceTableRequired resolved)
  if required then pure false
  else match resolved.postingsTableKey, resolved.clusterSelection with
    | some key, some (.native cids) => do
        perform (.indexTableForCids key cids)
        perform (.selectClusters cids)
        pure true
    | some key, some .all => do
        perform (.indexTable key .manifestedCid)
        pure true
    | _, _ => pure false

def sourceTable (resolved : ResolvedSearch F) : Task (Option String) := do
  let required ← Program.ofExcept (sourceTableRequired resolved)
  if required then
    .await (.sourceBinding resolved.sourceTableKey) fun answer =>
      match answer with
      | .ok (some name) => .done (some name)
      | .ok none => .fail "resolved source is not bound to this session"
      | .error error => .fail error
  else pure none

/-- Opens the postings, and returns the search as it is executed: selected clusters become a filter
of the postings. -/
def openPostings (resolved : ResolvedSearch F) (key : String) : Task (ResolvedSearch F) :=
  match resolved.clusterSelection with
  | some (.native cids) => do
      perform (.indexTableForCids key cids)
      perform (.selectClusters cids)
      pure { resolved with clusterSelection := some .all }
  | _ => do
      perform (.indexTable key .manifestedCid)
      pure resolved

def registerPostings (resolved : ResolvedSearch F) (token : String) :
    Task (ResolvedSearch F × Option String) :=
  match resolved.postingsTableKey with
  | none => pure (resolved, none)
  | some key => do
      let execution ← openPostings resolved key
      perform (.registerTable (postingsTable token))
      pure (execution, some (postingsTable token))

def registerCentroids (resolved execution : ResolvedSearch F) (token : String) :
    Task (Option String) := do
  let required ← Program.ofExcept (centroidTableRequired execution)
  if required then
    match resolved.clusterSelection with
    | some (.dataFusion centroidsTableKey _) => do
        perform (.indexTable centroidsTableKey .plain)
        perform (.registerTable (centroidsTable token))
        pure (some (centroidsTable token))
    | _ => .fail "unreachable: validated DataFusion cluster selection"
  else pure none

def registerSelectedClusters (resolved execution : ResolvedSearch F) (token : String) :
    Task (Option String) := do
  let required ← Program.ofExcept (clusterTableRequired execution)
  if required then
    match resolved.clusterSelection with
    | some (.native cids) => do
        perform (.selectedBatch cids)
        perform (.registerTable (selectedClustersTable token))
        pure (some (selectedClustersTable token))
    | _ => .fail "unreachable: validated native cluster selection"
  else pure none

def registerSearchTables (resolved : ResolvedSearch F) (token : String) :
    Task (RegisteredSearchTables F) := do
  let source ← sourceTable resolved
  let (execution, postings) ← registerPostings resolved token
  let centroids ← registerCentroids resolved execution token
  let selectedClusters ← registerSelectedClusters resolved execution token
  pure { execution, source, postings, centroids, selectedClusters }

/-- The statement that a filter is tried with. -/
def filterProbe (source filter : String) : String :=
  "SELECT * FROM " ++ quoteIdentifier source ++ " WHERE (" ++ filter ++ ") LIMIT 0"

def checkFilter (filter sourceName : Option String) : Task Unit :=
  match filter, sourceName with
  | none, _ => pure ()
  | some _, none => .fail "a filtered search requires the source table"
  | some filter, some source =>
      .await (.sql (filterProbe source filter)) fun answer =>
        match answer with
        | .ok _ => .done ()
        | .error error => .fail ("invalid filter: " ++ error)

def compileRegisteredSearch (registered : RegisteredSearchTables F) : Task Unit := do
  checkFilter registered.execution.filter registered.source
  let statement ← Program.ofExcept (compileDataFusionSql display registered.execution
    registered.source registered.postings registered.centroids registered.selectedClusters)
  perform (.sql statement)

def datafusionPlan (resolved : ResolvedSearch F) (token : String) : Task Unit := do
  let indexOnly ← indexOnlyPostings resolved
  if indexOnly then perform .compileIndexOnlyPlan
  else
    let registered ← registerSearchTables resolved token
    let result ← (compileRegisteredSearch display registered).attempt
    let cleanup ← (deregisterTemporary registered).attempt
    Program.ofExcept result
    Program.ofExcept cleanup

end

/-! ## The session -/

/-- A change of the registered tables. -/
inductive Change
  | add (name : String)
  | remove (name : String)
deriving DecidableEq

def Change.name : Change → String
  | .add name => name
  | .remove name => name

def Change.apply (tables : Finset String) : Change → Finset String
  | .add name => insert name tables
  | .remove name => tables.erase name

/-- What an answered operation has changed. -/
def Operation.change : Operation → Answer → Option Change
  | .registerTable name, .ok _ => some (.add name)
  | .deregisterTable name, .ok _ => some (.remove name)
  | _, _ => none

/-- The tables after a change, if there is one. -/
def changed (tables : Finset String) (change : Option Change) : Finset String :=
  change.elim tables (Change.apply tables)

/-- A search; one that was dropped has no program. -/
structure Search where
  token : String
  program : Option (Task Unit)

def Search.Ended (search : Search) : Prop := ∀ program ∈ search.program, program.Ended

def temporaryNames (token : String) : List String :=
  [postingsTable token, centroidsTable token, selectedClustersTable token]

structure Context where
  tables : Finset String
  searches : List Search

inductive Label (F : Type)
  | begin (resolved : ResolvedSearch F) (token : String)
  /-- The operation of a search is answered. -/
  | answer (index : ℕ) (operation : Operation) (answer : Answer)
  /-- A search is dropped while it awaits. -/
  | drop (index : ℕ)
  /-- Another operation of the session. -/
  | other (change : Change)

namespace Label

variable {F : Type}

/-- The search that takes the step. -/
def search : Label F → Option ℕ
  | .answer index .. => some index
  | .drop index => some index
  | _ => none

def change : Label F → Option Change
  | .answer _ operation outcome => operation.change outcome
  | .other change => some change
  | _ => none

end Label

section

variable {F : Type} (display : F → String)

/-- One step of a session.  Nobody else uses the names of a token. -/
def step (context : Context) : Label F → Option Context
  | .begin resolved token =>
      if (∀ search ∈ context.searches, search.token ≠ token) ∧
          ∀ name ∈ temporaryNames token, name ∉ context.tables then
        some { context with
          searches := context.searches ++ [⟨token, some (datafusionPlan display resolved token)⟩] }
      else none
  | .answer index operation answer =>
      match context.searches[index]? with
      | some ⟨token, some (.await awaited next)⟩ =>
          if awaited = operation then
            some {
              tables := changed context.tables (operation.change answer)
              searches := context.searches.set index ⟨token, some (next answer)⟩ }
          else none
      | _ => none
  | .drop index =>
      match context.searches[index]? with
      | some ⟨token, some (.await awaited _)⟩ =>
          if awaited.awaits then
            some { context with searches := context.searches.set index ⟨token, none⟩ }
          else none
      | _ => none
  | .other change =>
      if ∀ search ∈ context.searches, change.name ∉ temporaryNames search.token then
        some { context with tables := change.apply context.tables }
      else none

/-- A step of a session. -/
def Steps (before : Context) (label : Label F) (after : Context) : Prop :=
  step display before label = some after

/-- The tables as they would be without one of the searches. -/
def tablesWithout (index : ℕ) (tables : Finset String) (labels : List (Label F)) :
    Finset String :=
  (labels.filter fun label => label.search ≠ some index).foldl
    (fun tables label => changed tables label.change) tables

end

/-! ## What goes wrong -/

/-- The operations that prepare and register the tables. -/
def Operation.registers : Operation → Bool
  | .indexTable _ _ => true
  | .indexTableForCids _ _ => true
  | .selectClusters _ => true
  | .selectedBatch _ => true
  | .registerTable _ => true
  | _ => false

def Operation.deregisters : Operation → Bool
  | .deregisterTable _ => true
  | _ => false

/-- A failure of this operation skips the clean-up of what is registered. -/
def Operation.Skips (operation : Operation) (registered : Prop) : Prop :=
  operation.deregisters = true ∨ operation.registers = true ∧ registered

/-- A table of the search is registered. -/
def Registered (context : Context) (index : ℕ) : Prop :=
  ∃ search, context.searches[index]? = some search ∧
    ∃ name ∈ temporaryNames search.token, name ∈ context.tables

/-- The step makes a search leave its tables behind: it is dropped, or fails before the clean-up,
while one of them is registered, or the clean-up fails. -/
def LeavesTables {F : Type} (index : ℕ) (context : Context) : Label F → Prop
  | .answer other operation answer => other = index ∧ (∃ error, answer = .error error) ∧
      operation.Skips (Registered context index)
  | .drop other => other = index ∧ Registered context index
  | _ => False

/-!
## Clean-up of a search

What a search has registered at each of its operations, from the structure of its program.

**Results.**  `keeps_datafusionPlan`: a search that returns has deregistered its tables, unless an
operation of the registration failed when one of them was there, or the clean-up itself failed.
-/

open Foundations.Program

variable {F : Type} {display : F → String} {resolved execution : ResolvedSearch F} {token : String}

/-! ## Names of tables -/

/-- The letter behind `parqdb_` tells the tables of a token apart. -/
theorem letter_append {start : String} {letter : Char} (hstart : start.toList[7]? = some letter)
    (token : String) : (start ++ token).toList[7]? = some letter := by
  rw [String.toList_append, List.getElem?_append_left (List.getElem?_eq_some_iff.mp hstart).1,
    hstart]

theorem letter_postings (token : String) : (postingsTable token).toList[7]? = some 'p' :=
  letter_append (by decide) token

theorem letter_centroids (token : String) : (centroidsTable token).toList[7]? = some 'c' :=
  letter_append (by decide) token

theorem letter_selectedClusters (token : String) :
    (selectedClustersTable token).toList[7]? = some 's' :=
  letter_append (by decide) token

theorem ne_of_letter {left right : String} {first second : Char}
    (hleft : left.toList[7]? = some first) (hright : right.toList[7]? = some second)
    (hne : first ≠ second) : left ≠ right := by
  rintro rfl
  rw [hleft, Option.some.injEq] at hright
  exact hne hright

/-! ## What a program has registered -/

/-- The registered tables of a search, in order, and whether it leaves them behind. -/
structure Record where
  registered : List String
  leaves : Bool
deriving DecidableEq

def Record.empty : Record := ⟨[], false⟩

/-- The registered tables after a change. -/
def changedNames (names : List String) : Option Change → List String
  | none => names
  | some (.add name) => names ++ [name]
  | some (.remove name) => names.filter fun other => other ≠ name

def Record.after (record : Record) (operation : Operation) (answer : Answer) : Record where
  registered := changedNames record.registered (operation.change answer)
  leaves := record.leaves || match answer with
    | .ok _ => false
    | .error _ => operation.deregisters || (operation.registers && !record.registered.isEmpty)

/-- Nothing is left behind, or it is known. -/
def Record.Settled (record : Record) : Prop := record.registered = [] ↔ record.leaves = false

/-- A search goes on only while it leaves nothing behind, and uses the names of its token. -/
def Allowed (token : String) (record : Record) (operation : Operation) : Prop :=
  record.leaves = false ∧
    ∀ answer change, operation.change answer = some change → change.name ∈ temporaryNames token

/-- The contract of a part of a search. -/
abbrev Keeps {α : Type} (token : String) (post : Record → α → Prop) (failed : Record → Prop)
    (record : Record) (task : Task α) : Prop :=
  Guarded Record.after (Allowed token) post failed record task

variable {failed : Record → Prop} {operation : Operation} {record : Record} {key : String}

theorem keeps_perform {post : Record → Unit → Prop} (hallowed : Allowed token record operation)
    (hok : ∀ found, post (record.after operation (.ok found)) ())
    (herror : ∀ error, failed (record.after operation (.error error))) :
    Keeps token post failed record (perform operation) := by
  refine ⟨hallowed, fun answer => ?_⟩
  cases answer with
  | ok found => exact hok found
  | error error => exact herror error

theorem keeps_pure {α : Type} {post : Record → α → Prop} {value : α} (hpost : post record value) :
    Keeps token post failed record (pure value) := hpost

/-- An operation on no table. -/
def Quiet (operation : Operation) : Prop :=
  operation.deregisters = false ∧ ∀ answer, operation.change answer = none

section

variable (hquiet : Quiet operation)

include hquiet

theorem Quiet.allowed (hleaves : record.leaves = false) :
    Allowed token record operation := by
  refine ⟨hleaves, fun answer change hchange => ?_⟩
  rw [hquiet.2 answer] at hchange
  cases hchange

theorem Quiet.after_ok (record : Record) (found : Option String) :
    record.after operation (.ok found) = record := by
  unfold Record.after
  rw [hquiet.2]
  simp [changedNames]

/-- A quiet operation that fails before the clean-up settles the record. -/
theorem Quiet.settled (hleaves : record.leaves = false)
    (hregisters : operation.registers = true) (error : String) :
    (record.after operation (.error error)).Settled := by
  unfold Record.Settled Record.after
  rw [hquiet.2, hquiet.1, hleaves, hregisters]
  simp [changedNames]

/-- An operation before the registration that fails settles the record too. -/
theorem settled_of_empty (error : String) :
    (Record.empty.after operation (.error error)).Settled := by
  unfold Record.Settled Record.after
  rw [hquiet.2, hquiet.1]
  simp [changedNames, Record.empty]

theorem keeps_prepare (hleaves : record.leaves = false)
    (hregisters : operation.registers = true) :
    Keeps token (fun later _ => later = record) Record.Settled record (perform operation) :=
  keeps_perform (hquiet.allowed hleaves) (fun found => hquiet.after_ok record found)
    (fun error => hquiet.settled hleaves hregisters error)

end

theorem quiet_indexTable {layout : IndexTableLayout} :
    Quiet (.indexTable key layout) := ⟨rfl, fun _ => rfl⟩

variable {cids : List ℤ} {statement : String}

theorem quiet_indexTableForCids :
    Quiet (.indexTableForCids key cids) := ⟨rfl, fun _ => rfl⟩

theorem quiet_selectClusters : Quiet (.selectClusters cids) :=
  ⟨rfl, fun _ => rfl⟩

theorem quiet_sourceBinding : Quiet (.sourceBinding key) := ⟨rfl, fun _ => rfl⟩

theorem quiet_compileIndexOnlyPlan : Quiet .compileIndexOnlyPlan := ⟨rfl, fun _ => rfl⟩

theorem quiet_sql : Quiet (.sql statement) := ⟨rfl, fun _ => rfl⟩

/-- A table is registered, or the registration fails and settles the record. -/
theorem keeps_registerTable {name : String} (hleaves : record.leaves = false)
    (hname : name ∈ temporaryNames token) :
    Keeps token (fun later _ => later = ⟨record.registered ++ [name], false⟩) Record.Settled record
      (perform (.registerTable name)) := by
  refine keeps_perform ⟨hleaves, fun answer change hchange => ?_⟩ (fun found => ?_)
    fun error => ?_
  · cases answer with
    | ok found =>
        cases hchange
        exact hname
    | error error => cases hchange
  · simp [Record.after, Operation.change, changedNames, hleaves]
  · simp [Record.after, Record.Settled, Operation.change, changedNames, Operation.deregisters,
      Operation.registers, hleaves]

/-- The clean-up ends with nothing registered, or leaves tables behind. -/
theorem keeps_deregisterAll {names : List String} (hnames : ∀ name ∈ names,
    name ∈ temporaryNames token) (hnodup : names.Nodup) :
    Keeps token (fun later _ => later = Record.empty) Record.Settled ⟨names, false⟩
      (deregisterAll names) := by
  induction names with
  | nil => exact rfl
  | cons name names ih =>
      obtain ⟨hnew, hrest⟩ := List.nodup_cons.mp hnodup
      have hfilter : (name :: names).filter (fun other => other ≠ name) = names := by
        rw [List.filter_cons_of_neg (by simp), List.filter_eq_self]
        intro other hother
        have hne : other ≠ name := fun heq => hnew (heq ▸ hother)
        simpa using hne
      have hhead : Keeps token (fun later _ => later = ⟨names, false⟩) Record.Settled
          ⟨name :: names, false⟩ (perform (.deregisterTable name)) := by
        refine keeps_perform ⟨rfl, fun answer change hchange => ?_⟩ (fun found => ?_)
          fun error => ?_
        · cases answer with
          | ok found =>
              cases hchange
              exact hnames name List.mem_cons_self
          | error error => cases hchange
        · simp only [Record.after, Operation.change, changedNames, hfilter, Bool.or_false]
        · simp [Record.after, Record.Settled, Operation.change, changedNames,
            Operation.deregisters]
      refine hhead.bind fun later _ hlater => ?_
      rw [hlater]
      exact ih (fun other hother => hnames other (List.mem_cons_of_mem _ hother)) hrest

/-! ## The parts of a search -/

theorem keeps_ofExcept_settled {α : Type} {outcome : Except String α} {post : Record → α → Prop}
    (hok : ∀ value, outcome = .ok value → post Record.empty value) :
    Keeps token post Record.Settled Record.empty (Program.ofExcept outcome) :=
  guarded_ofExcept hok fun _ _ => ⟨fun _ => rfl, fun _ => rfl⟩

/-- Without a source table there is nothing to clean up. -/
theorem keeps_indexOnlyPostings :
    Keeps token (fun later _ => later = Record.empty) Record.Settled Record.empty
      (indexOnlyPostings resolved) := by
  unfold indexOnlyPostings
  refine (@keeps_ofExcept_settled token Bool _ (fun later _ => later = Record.empty)
    fun _ _ => rfl).bind fun later required hlater => ?_
  rw [hlater]
  split
  · exact keeps_pure rfl
  · split
    · refine (keeps_prepare quiet_indexTableForCids rfl rfl).bind fun second _ hsecond => ?_
      rw [hsecond]
      refine (keeps_prepare quiet_selectClusters rfl rfl).bind fun third _ hthird => ?_
      rw [hthird]
      exact keeps_pure rfl
    · refine (keeps_prepare quiet_indexTable rfl rfl).bind fun second _ hsecond => ?_
      rw [hsecond]
      exact keeps_pure rfl
    · exact keeps_pure rfl

theorem keeps_sourceTable :
    Keeps token (fun later _ => later = Record.empty ∧
      ∃ filter, clusterFilter resolved = .ok filter) Record.Settled Record.empty (sourceTable resolved) := by
  unfold sourceTable
  refine (@keeps_ofExcept_settled token Bool _ (fun later _ => later = Record.empty ∧
    ∃ filter, clusterFilter resolved = .ok filter) fun required hrequired =>
      ⟨rfl, clusterFilter_of_sourceTableRequired hrequired⟩).bind fun later required hlater => ?_
  rw [hlater.1]
  split
  · refine ⟨quiet_sourceBinding.allowed rfl, fun answer => ?_⟩
    have hquiet : Quiet (.sourceBinding resolved.sourceTableKey) := quiet_sourceBinding
    cases answer with
    | error error => exact settled_of_empty hquiet error
    | ok found =>
        have hafter := hquiet.after_ok Record.empty found
        cases found with
        | none =>
            show Record.Settled _
            rw [hafter]
            exact ⟨fun _ => rfl, fun _ => rfl⟩
        | some name => exact ⟨hafter, hlater.2⟩
  · exact keeps_pure ⟨rfl, hlater.2⟩

/-- What the registration relies on in the search that it executes. -/
structure Executes (resolved execution : ResolvedSearch F) : Prop where
  checked : ∃ filter, clusterFilter execution = .ok filter
  routed : clusterFilter execution = .ok .dataFusion →
    ∃ centroidsTableKey nprobe,
      resolved.clusterSelection = some (.dataFusion centroidsTableKey nprobe)
  /-- Selected clusters are a filter of the postings. -/
  inlined : clusterFilter execution ≠ .ok .nativeTable

variable {filter : DataFusionClusterFilter}

theorem executes_self (hchecked : clusterFilter resolved = .ok filter)
    (hselection : ∀ key, resolved.postingsTableKey = some key →
      ∀ cids, resolved.clusterSelection ≠ some (.native cids)) : Executes resolved resolved where
  checked := ⟨filter, hchecked⟩
  routed := exists_of_clusterFilter_dataFusion
  inlined := by
    cases hkey : resolved.postingsTableKey with
    | none =>
        intro hnative
        cases clusterFilter_of_none hkey hnative
    | some key => exact clusterFilter_ne_nativeTable hkey (hselection key hkey)

theorem executes_all (hkey : resolved.postingsTableKey = some key)
    (hchecked : clusterFilter resolved = .ok filter) :
    Executes resolved { resolved with clusterSelection := some .all } := by
  have hall := clusterFilter_all hkey hchecked
  refine ⟨⟨_, hall⟩, fun hrouted => ?_, fun hnative => ?_⟩
  · rw [hall] at hrouted
    cases hrouted
  · rw [hall] at hnative
    cases hnative

theorem keeps_openPostings (hkey : resolved.postingsTableKey = some key)
    (hchecked : clusterFilter resolved = .ok filter) :
    Keeps token (fun later execution => later = Record.empty ∧ Executes resolved execution)
      Record.Settled Record.empty (openPostings resolved key) := by
  unfold openPostings
  split
  · refine (keeps_prepare quiet_indexTableForCids rfl rfl).bind fun second _ hsecond => ?_
    rw [hsecond]
    refine (keeps_prepare quiet_selectClusters rfl rfl).bind fun third _ hthird => ?_
    rw [hthird]
    exact keeps_pure ⟨rfl, executes_all hkey hchecked⟩
  · next hselection =>
      refine (keeps_prepare quiet_indexTable rfl rfl).bind fun second _ hsecond => ?_
      rw [hsecond]
      exact keeps_pure ⟨rfl, executes_self hchecked fun _ _ => hselection⟩

theorem keeps_registerPostings (hchecked : clusterFilter resolved = .ok filter) :
    Keeps token (fun later result => later = ⟨result.2.toList, false⟩ ∧
      Executes resolved result.1 ∧ ∀ name ∈ result.2, name = postingsTable token) Record.Settled Record.empty
      (registerPostings resolved token) := by
  unfold registerPostings
  split
  · next hkey =>
      refine keeps_pure ⟨rfl, executes_self hchecked fun key hsome => ?_, fun name hname => ?_⟩
      · rw [hkey] at hsome
        cases hsome
      · cases hname
  · next key hkey =>
      have hmember : postingsTable token ∈ temporaryNames token := List.mem_cons_self
      refine (keeps_openPostings hkey hchecked).bind fun later execution hlater => ?_
      obtain ⟨rfl, hexecutes⟩ := hlater
      refine (keeps_registerTable rfl hmember).bind fun second _ hsecond => ?_
      rw [hsecond]
      refine keeps_pure ⟨rfl, hexecutes, fun name hname => ?_⟩
      rw [Option.mem_some_iff.mp hname]

theorem keeps_registerCentroids (hleaves : record.leaves = false)
    (hexecutes : Executes resolved execution) :
    Keeps token (fun later result => later = ⟨record.registered ++ result.toList, false⟩ ∧
      ∀ name ∈ result, name = centroidsTable token) Record.Settled record
      (registerCentroids resolved execution token) := by
  obtain ⟨filter, hfilter⟩ := hexecutes.checked
  have hrequired : centroidTableRequired execution = .ok (decide (filter = .dataFusion)) := by
    unfold centroidTableRequired
    rw [hfilter]
    rfl
  have hmember : centroidsTable token ∈ temporaryNames token :=
    List.mem_cons_of_mem _ List.mem_cons_self
  have hrecord : record = ⟨record.registered ++ (none : Option String).toList, false⟩ := by
    rw [Option.toList_none, List.append_nil, ← hleaves]
  unfold registerCentroids
  rw [hrequired]
  show Keeps token _ _ record (if decide (filter = .dataFusion) = true then _ else _)
  split
  · next hdataFusion =>
      obtain ⟨key, nprobe, hselection⟩ :=
        hexecutes.routed (by rw [hfilter, of_decide_eq_true hdataFusion])
      rw [hselection]
      refine (keeps_prepare quiet_indexTable hleaves rfl).bind fun second _ hsecond => ?_
      rw [hsecond]
      refine (keeps_registerTable hleaves hmember).bind fun third _ hthird => ?_
      rw [hthird]
      refine keeps_pure ⟨rfl, fun name hname => ?_⟩
      rw [Option.mem_some_iff.mp hname]
  · exact keeps_pure ⟨hrecord, fun name hname => by cases hname⟩

/-- A table of selected clusters is never registered: the selection is a filter of the postings. -/
theorem keeps_registerSelectedClusters (hexecutes : Executes resolved execution) :
    Keeps token (fun later result => later = record ∧ result = none) Record.Settled record
      (registerSelectedClusters resolved execution token) := by
  obtain ⟨filter, hfilter⟩ := hexecutes.checked
  have hrequired : clusterTableRequired execution = .ok false := by
    unfold clusterTableRequired
    rw [hfilter]
    have hne : filter ≠ .nativeTable := fun heq => hexecutes.inlined (by rw [hfilter, heq])
    show Except.ok (decide (filter = .nativeTable)) = _
    rw [decide_eq_false hne]
  unfold registerSelectedClusters
  rw [hrequired]
  exact keeps_pure ⟨rfl, rfl⟩

theorem keeps_registerSearchTables :
    Keeps token (fun later registered => later = ⟨registered.temporary, false⟩ ∧
      (∀ name ∈ registered.temporary, name ∈ temporaryNames token) ∧ registered.temporary.Nodup)
      Record.Settled Record.empty (registerSearchTables resolved token) := by
  unfold registerSearchTables
  refine keeps_sourceTable.bind fun first source hfirst => ?_
  obtain ⟨rfl, filter, hchecked⟩ := hfirst
  refine (keeps_registerPostings hchecked).bind fun second result hsecond => ?_
  obtain ⟨execution, postings⟩ := result
  obtain ⟨rfl, hexecutes, hpostings⟩ := hsecond
  refine (keeps_registerCentroids rfl hexecutes).bind fun third centroids hthird => ?_
  obtain ⟨rfl, hcentroids⟩ := hthird
  refine (keeps_registerSelectedClusters hexecutes).bind fun fourth clusters hfourth => ?_
  obtain ⟨rfl, rfl⟩ := hfourth
  have hdiffer : postingsTable token ≠ centroidsTable token := by
    refine ne_of_letter (letter_postings token) (letter_centroids token) ?_
    decide
  refine keeps_pure ⟨?_, fun name hname => ?_, ?_⟩
  · rw [RegisteredSearchTables.temporary, Option.toList_none, List.append_nil]
  · rw [RegisteredSearchTables.temporary, Option.toList_none, List.append_nil, List.mem_append,
      Option.mem_toList, Option.mem_toList] at hname
    rcases hname with hname | hname
    · rw [hpostings name hname]
      exact List.mem_cons_self
    · rw [hcentroids name hname]
      exact List.mem_cons_of_mem _ List.mem_cons_self
  · rw [RegisteredSearchTables.temporary, Option.toList_none, List.append_nil]
    cases postings with
    | none => cases centroids <;> simp
    | some first =>
        cases centroids with
        | none => simp
        | some second =>
            rw [hpostings first rfl, hcentroids second rfl]
            simpa using hdiffer

/-- A failure to plan leaves the clean-up to do. -/
theorem after_sql_error (hleaves : record.leaves = false) (error : String) :
    record.after (.sql statement) (.error error) = record := by
  obtain ⟨registered, leaves⟩ := record
  subst hleaves
  rfl

theorem keeps_checkFilter {filter sourceName : Option String} (hleaves : record.leaves = false) :
    Keeps token (fun later _ => later = record) (fun later => later = record) record
      (checkFilter filter sourceName) := by
  unfold checkFilter
  split
  · exact keeps_pure rfl
  · exact rfl
  · refine ⟨quiet_sql.allowed hleaves, fun answer => ?_⟩
    cases answer with
    | ok found => exact quiet_sql.after_ok record found
    | error error => exact after_sql_error hleaves error

theorem keeps_compileRegisteredSearch {registered : RegisteredSearchTables F}
    (hleaves : record.leaves = false) :
    Keeps token (fun later _ => later = record) (fun later => later = record) record
      (compileRegisteredSearch display registered) := by
  unfold compileRegisteredSearch
  refine (keeps_checkFilter hleaves).bind fun second _ hsecond => ?_
  rw [hsecond]
  have hcompiled (outcome : Except String String) :
      Keeps token (fun later _ => later = record) (fun later => later = record) record
        (Program.ofExcept outcome) := guarded_ofExcept (fun _ _ => rfl) fun _ _ => rfl
  refine (hcompiled _).bind fun third statement hthird => ?_
  rw [hthird]
  exact keeps_perform (quiet_sql.allowed hleaves) (fun found => quiet_sql.after_ok record found)
    fun error => after_sql_error hleaves error

/-- A search that ends has cleaned up, or is known to leave its tables behind. -/
theorem keeps_datafusionPlan :
    Keeps token (fun later _ => later.Settled) Record.Settled Record.empty
      (datafusionPlan display resolved token) := by
  have hempty : Record.empty.Settled := ⟨fun _ => rfl, fun _ => rfl⟩
  unfold datafusionPlan
  refine keeps_indexOnlyPostings.bind fun first indexOnly hfirst => ?_
  rw [hfirst]
  split
  · refine keeps_perform (quiet_compileIndexOnlyPlan.allowed rfl) (fun found => ?_) fun error => ?_
    · rw [quiet_compileIndexOnlyPlan.after_ok]
      exact hempty
    · exact settled_of_empty quiet_compileIndexOnlyPlan error
  · refine keeps_registerSearchTables.bind fun second registered hsecond => ?_
    obtain ⟨rfl, hnames, hnodup⟩ := hsecond
    refine (keeps_compileRegisteredSearch rfl).attempt.bind fun third result hthird => ?_
    -- the plan may have failed, but the tables are still there to deregister
    obtain rfl : third = ⟨registered.temporary, false⟩ := by
      rcases hthird with ⟨-, -, hthird⟩ | ⟨-, hthird⟩
      · exact hthird
      · exact hthird
    refine (keeps_deregisterAll hnames hnodup).attempt.bind fun fourth cleanup hfourth => ?_
    have hsettled : fourth.Settled := by
      rcases hfourth with ⟨-, -, hfourth⟩ | ⟨-, hfourth⟩
      · rw [hfourth]
        exact hempty
      · exact hfourth
    refine (@guarded_ofExcept _ _ _ _ _ _ _ (fun later _ => later.Settled) _ _ _
      (fun _ _ => hsettled) fun _ _ => hsettled).bind fun fifth _ hfifth => ?_
    exact guarded_ofExcept (fun _ _ => hfifth) fun _ _ => hfifth

/-! ## Searches of one session -/

theorem disjoint_names {other : String} (hne : token ≠ other) :
    ∀ name ∈ temporaryNames token, name ∉ temporaryNames other := by
  have hsame (start : String) (heq : start ++ token = start ++ other) : False :=
    hne (String.append_right_inj start |>.mp heq)
  intro name hname hother
  simp only [temporaryNames, List.mem_cons, List.not_mem_nil, or_false] at hname hother
  rcases hname with rfl | rfl | rfl
  · rcases hother with heq | heq | heq
    · exact hsame _ heq
    · exact ne_of_letter (letter_postings _) (letter_centroids _) (by decide) heq
    · exact ne_of_letter (letter_postings _) (letter_selectedClusters _) (by decide) heq
  · rcases hother with heq | heq | heq
    · exact ne_of_letter (letter_centroids _) (letter_postings _) (by decide) heq
    · exact hsame _ heq
    · exact ne_of_letter (letter_centroids _) (letter_selectedClusters _) (by decide) heq
  · rcases hother with heq | heq | heq
    · exact ne_of_letter (letter_selectedClusters _) (letter_postings _) (by decide) heq
    · exact ne_of_letter (letter_selectedClusters _) (letter_centroids _) (by decide) heq
    · exact hsame _ heq

end ParqDB.Session.SearchTables
