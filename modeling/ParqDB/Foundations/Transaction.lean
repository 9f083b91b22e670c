import Mathlib.Data.List.Basic
import Mathlib.Data.Option.Basic

/-!
# Calls on a transactional database

A client call is a program of statements on one database connection.  A statement
outside a transaction takes effect at once; a statement inside one changes a
*working copy*, which `commitTransaction` publishes and which is lost when the call
ends without reaching that point.  This is what dropping an open transaction does
in an embedded database: it rolls back.

Any statement may fail for a reason of the database's own (a full disk, a lock
timeout, a broken file).  The `fuse` of a connection says after how many
statements that happens, so a theorem about every fuse is a theorem about every
point of failure.

The rules:

* `Quiet` programs run inside a transaction and leave the durable tables alone;
* `Atomic` programs, inside a transaction, and `FailsClean` programs, outside one, leave
  the durable tables alone whenever they fail;
* `Effect` describes a successful program by what it does to the durable tables
  and to the working copy, forgetting the fuse, and is decomposed along `bind`.
-/

namespace ParqDB.Foundations

/-- One connection: the published tables, the open transaction's working copy, and
the number of statements before the database fails. -/
@[ext]
structure Connection (Tables : Type) where
  durable : Tables
  working : Option Tables
  fuse : Option ℕ

/-- A program of statements that returns `α` or stops with an error. -/
def Sql (Tables Err α : Type) : Type :=
  Connection Tables → Except Err α × Connection Tables

namespace Sql

variable {Tables Err α β : Type}

protected def pure (value : α) : Sql Tables Err α := fun connection => (.ok value, connection)

protected def bind (first : Sql Tables Err α) (next : α → Sql Tables Err β) : Sql Tables Err β :=
  fun connection =>
    match first connection with
    | (.ok value, connection') => next value connection'
    | (.error error, connection') => (.error error, connection')

instance : Monad (Sql Tables Err) where
  pure := Sql.pure
  bind := Sql.bind

/-- Stops the call with an error. -/
def fail (error : Err) : Sql Tables Err α := fun connection => (.error error, connection)

/-- Runs a check that touches no table. -/
def check (outcome : Except Err α) : Sql Tables Err α := fun connection => (outcome, connection)

/-- One statement.  It works on the transaction's copy when a transaction is open and
commits by itself otherwise; a statement that fails changes nothing. -/
def statement (fault : Err) (change : Tables → Except Err (α × Tables)) : Sql Tables Err α :=
  fun connection =>
    match connection.fuse with
    | some 0 => (.error fault, connection)
    | fuse =>
        let connection := { connection with fuse := fuse.map Nat.pred }
        match connection.working with
        | some tables =>
            match change tables with
            | .ok (value, tables') => (.ok value, { connection with working := some tables' })
            | .error error => (.error error, connection)
        | none =>
            match change connection.durable with
            | .ok (value, tables') => (.ok value, { connection with durable := tables' })
            | .error error => (.error error, connection)

/-- A statement that only reads. -/
def query (fault : Err) (read : Tables → α) : Sql Tables Err α :=
  statement fault fun tables => .ok (read tables, tables)

/-- `BEGIN IMMEDIATE`: the working copy starts as the published tables. -/
def beginTransaction (fault : Err) : Sql Tables Err Unit := fun connection =>
  match connection.fuse with
  | some 0 => (.error fault, connection)
  | fuse => (.ok (), ⟨connection.durable, some connection.durable, fuse.map Nat.pred⟩)

/-- `COMMIT`: publishes the working copy.  A failing commit publishes nothing. -/
def commitTransaction (fault : Err) : Sql Tables Err Unit := fun connection =>
  match connection.fuse with
  | some 0 => (.error fault, connection)
  | fuse => (.ok (), ⟨connection.working.getD connection.durable, none, fuse.map Nat.pred⟩)

/-- Drops the open transaction, which rolls it back. -/
def rollback : Sql Tables Err Unit := fun connection =>
  (.ok (), { connection with working := none })

/-- A whole call: a fresh connection, the program, and the connection's end, which
drops whatever transaction is still open. -/
def call (program : Sql Tables Err α) (fuse : Option ℕ) (tables : Tables) :
    Except Err α × Tables :=
  let ended := program ⟨tables, none, fuse⟩
  (ended.1, ended.2.durable)

theorem bind_apply (first : Sql Tables Err α) (next : α → Sql Tables Err β)
    (connection : Connection Tables) :
    (first >>= next) connection =
      match first connection with
      | (.ok value, connection') => next value connection'
      | (.error error, connection') => (.error error, connection') := rfl

theorem pure_apply (value : α) (connection : Connection Tables) :
    (pure value : Sql Tables Err α) connection = (.ok value, connection) := rfl

variable {program : Sql Tables Err α} {tables : Tables} {value : α} {first : Sql Tables Err α}
  {next : α → Sql Tables Err β}

theorem call_bind_pure {fuse : Option ℕ} (h : (call program fuse tables).1 = .ok value)
    (result : α → β) :
    (call (program >>= fun value => pure (result value)) fuse tables).1 = .ok (result value) := by
  unfold call at h ⊢
  rw [bind_apply]
  rcases hrun : program ⟨tables, none, fuse⟩ with ⟨outcome, connection⟩
  rw [hrun] at h
  obtain rfl : outcome = .ok value := h
  rfl

/-! ## Programs that publish nothing -/

/-- Inside a transaction, the program leaves the published tables alone and the
transaction open, whether it succeeds or fails. -/
def Quiet (program : Sql Tables Err α) : Prop :=
  ∀ connection : Connection Tables, connection.working.isSome →
    (program connection).2.durable = connection.durable ∧
      (program connection).2.working.isSome

theorem quiet_fail (error : Err) : Quiet (fail error : Sql Tables Err α) :=
  fun _ hopen => ⟨rfl, hopen⟩

theorem quiet_check (outcome : Except Err α) : Quiet (check outcome : Sql Tables Err α) :=
  fun _ hopen => ⟨rfl, hopen⟩

theorem quiet_statement (fault : Err) (change : Tables → Except Err (α × Tables)) :
    Quiet (statement fault change) := by
  rintro ⟨durable, working, fuse⟩ hopen
  obtain ⟨tables, rfl⟩ := Option.isSome_iff_exists.mp hopen
  unfold statement
  split
  · exact ⟨rfl, rfl⟩
  · cases hchange : change tables with
    | error error => simp [hchange]
    | ok result => simp [hchange]

theorem quiet_query (fault : Err) (read : Tables → α) : Quiet (query fault read) :=
  quiet_statement fault _

/-! ## Programs that fail without a trace -/

/-- Inside a transaction, a failing run leaves the published tables alone. -/
def Atomic (program : Sql Tables Err α) : Prop :=
  ∀ (connection : Connection Tables) (error : Err), connection.working.isSome →
    (program connection).1 = .error error → (program connection).2.durable = connection.durable

theorem Quiet.atomic (hquiet : Quiet program) : Atomic program :=
  fun connection _ hopen _ => (hquiet connection hopen).1

theorem atomic_bind (hfirst : Quiet first) (hnext : ∀ value, Atomic (next value)) :
    Atomic (first >>= next) := by
  intro connection error hopen herror
  obtain ⟨hdurable, hworking⟩ := hfirst connection hopen
  rw [bind_apply] at herror ⊢
  rcases hrun : first connection with ⟨_ | value, connection'⟩
  · rw [hrun] at hdurable
    exact hdurable
  · rw [hrun] at hdurable hworking herror
    exact (hnext value connection' error hworking herror).trans hdurable

theorem atomic_commit (fault : Err) : Atomic (commitTransaction fault : Sql Tables Err Unit) := by
  intro connection error _ herror
  rcases hfuse : connection.fuse with _ | _ | _ <;> simp [commitTransaction, hfuse] at herror ⊢

/-- Computing the result from the value of an atomic program cannot fail. -/
theorem Atomic.bind_pure (hatomic : Atomic program) (result : α → β) :
    Atomic (program >>= fun value => pure (result value)) := by
  intro connection error hopen herror
  rw [bind_apply] at herror ⊢
  rcases hrun : program connection with ⟨_ | value, connection'⟩
  · have hdurable := hatomic connection _ hopen (by rw [hrun])
    rw [hrun] at hdurable
    exact hdurable
  · rw [hrun] at herror
    cases herror

/-- Outside a transaction, a failing run leaves the published tables alone. -/
def FailsClean (program : Sql Tables Err α) : Prop :=
  ∀ (connection : Connection Tables) (error : Err), connection.working = none →
    (program connection).1 = .error error → (program connection).2.durable = connection.durable

theorem FailsClean.call (hclean : FailsClean program) {fuse : Option ℕ} {error : Err}
    (herror : (call program fuse tables).1 = .error error) :
    (call program fuse tables).2 = tables :=
  hclean ⟨tables, none, fuse⟩ error rfl herror

theorem FailsClean.bind_pure (hclean : FailsClean program) (result : α → β) :
    FailsClean (program >>= fun value => pure (result value)) := by
  intro connection error hclosed herror
  rw [bind_apply] at herror ⊢
  rcases hrun : program connection with ⟨_ | value, connection'⟩
  · have hdurable := hclean connection _ hclosed (by rw [hrun])
    rw [hrun] at hdurable
    exact hdurable
  · rw [hrun] at herror
    cases herror

theorem failsClean_fail (error : Err) : FailsClean (fail error : Sql Tables Err α) :=
  fun _ _ _ _ => rfl

variable {outcome : Except Err α} {fault : Err} {read : Tables → α}
  {change : Tables → Except Err (α × Tables)} {after before : Tables × Option Tables} {result : β}

theorem failsClean_check_bind (hnext : ∀ value, FailsClean (next value)) :
    FailsClean (check outcome >>= next) := by
  intro connection error hclosed herror
  cases outcome with
  | error _ => rfl
  | ok value => exact hnext value connection error hclosed herror

theorem failsClean_query_bind (hnext : ∀ value, FailsClean (next value)) :
    FailsClean (query fault read >>= next) := by
  rintro ⟨durable, working, fuse⟩ error rfl herror
  rcases fuse with _ | _ | remaining
  · exact hnext (read durable) ⟨durable, none, none⟩ error rfl herror
  · rfl
  · exact hnext (read durable) ⟨durable, none, some remaining⟩ error rfl herror

/-- What follows `BEGIN` has to be atomic. -/
theorem failsClean_begin_bind {next : Unit → Sql Tables Err α} (hnext : Atomic (next ())) :
    FailsClean (beginTransaction fault >>= next) := by
  rintro ⟨durable, working, fuse⟩ error rfl herror
  rcases fuse with _ | _ | remaining
  · exact hnext ⟨durable, some durable, none⟩ error rfl herror
  · rfl
  · exact hnext ⟨durable, some durable, some remaining⟩ error rfl herror

theorem atomic_rollback_bind {next : Unit → Sql Tables Err α} (hnext : FailsClean (next ())) :
    Atomic (rollback >>= next) :=
  fun connection error _ herror => hnext { connection with working := none } error rfl herror

/-- The three ways a self-committing statement ends. -/
theorem statement_alone (fault : Err) (change : Tables → Except Err (α × Tables))
    (durable : Tables) (fuse : Option ℕ) :
    statement fault change ⟨durable, none, fuse⟩ = (.error fault, ⟨durable, none, fuse⟩) ∨
    (∃ error, change durable = .error error ∧ statement fault change ⟨durable, none, fuse⟩ =
      (.error error, ⟨durable, none, fuse.map Nat.pred⟩)) ∨
    (∃ value tables', change durable = .ok (value, tables') ∧
      statement fault change ⟨durable, none, fuse⟩ =
        (.ok value, ⟨tables', none, fuse.map Nat.pred⟩)) := by
  rcases fuse with _ | _ | remaining
  · cases hchange : change durable <;> simp [statement, hchange]
  · exact Or.inl rfl
  · cases hchange : change durable <;> simp [statement, hchange]

/-- A self-committing statement whose result is rejected only when it changed nothing. -/
theorem failsClean_statement_check {verdict : α → Except Err β}
    (hverdict : ∀ tables value tables' error, change tables = .ok (value, tables') →
      verdict value = .error error → tables' = tables) :
    FailsClean (statement fault change >>= fun value => check (verdict value)) := by
  rintro ⟨durable, working, fuse⟩ error rfl herror
  rw [bind_apply] at herror ⊢
  rcases statement_alone fault change durable fuse with
    hrun | ⟨failure, -, hrun⟩ | ⟨value, tables', hchange, hrun⟩
  · rw [hrun]
  · rw [hrun]
  · rw [hrun] at herror ⊢
    exact hverdict durable value tables' error hchange herror

theorem failsClean_statement : FailsClean (statement fault change) := by
  rintro ⟨durable, working, fuse⟩ error rfl herror
  rcases statement_alone fault change durable fuse with
    hrun | ⟨failure, -, hrun⟩ | ⟨value, tables', hchange, hrun⟩
  · rw [hrun]
  · rw [hrun]
  · rw [hrun] at herror
    cases herror

/-! ## What a successful program did -/

/-- A successful run, as a relation between the (published, working) tables before and
after. -/
def Effect (program : Sql Tables Err α) (before : Tables × Option Tables) (value : α)
    (after : Tables × Option Tables) : Prop :=
  ∃ fuse fuse' : Option ℕ, program ⟨before.1, before.2, fuse⟩ =
    (.ok value, ⟨after.1, after.2, fuse'⟩)

theorem effect_of_call {fuse : Option ℕ} {tables' : Tables}
    (hcall : call program fuse tables = (.ok value, tables')) :
    ∃ working, Effect program (tables, none) value (tables', working) := by
  unfold call at hcall
  rcases hrun : program ⟨tables, none, fuse⟩ with ⟨result, durable, working, fuse'⟩
  rw [hrun] at hcall
  obtain ⟨rfl, rfl⟩ := Prod.mk.inj hcall
  exact ⟨working, fuse, fuse', hrun⟩

theorem effect_bind (heffect : Effect (first >>= next) before result after) :
    ∃ value middle, Effect first before value middle ∧ Effect (next value) middle result after := by
  obtain ⟨fuse, fuse', hrun⟩ := heffect
  rw [bind_apply] at hrun
  rcases hfirst : first ⟨before.1, before.2, fuse⟩ with ⟨_ | value, durable, working, middle⟩
  · rw [hfirst] at hrun
    cases hrun
  · rw [hfirst] at hrun
    exact ⟨value, (durable, working), ⟨fuse, middle, hfirst⟩, ⟨middle, fuse', hrun⟩⟩

theorem effect_pure {result : α}
    (heffect : Effect (pure value : Sql Tables Err α) before result after) :
    result = value ∧ after = before := by
  obtain ⟨tables, working⟩ := before
  obtain ⟨tables', working'⟩ := after
  obtain ⟨fuse, fuse', hrun⟩ := heffect
  rw [pure_apply] at hrun
  cases hrun
  exact ⟨rfl, rfl⟩

theorem not_effect_fail {error : Err} {result : α} :
    ¬ Effect (fail error : Sql Tables Err α) before result after := by
  rintro ⟨fuse, fuse', hrun⟩
  cases hrun

theorem effect_check {result : α}
    (heffect : Effect (check outcome : Sql Tables Err α) before result after) :
    outcome = .ok result ∧ after = before := by
  obtain ⟨tables, working⟩ := before
  obtain ⟨tables', working'⟩ := after
  obtain ⟨fuse, fuse', hrun⟩ := heffect
  cases hrun
  exact ⟨rfl, rfl⟩

theorem effect_commit {result : Unit} {working : Tables}
    (heffect : Effect (commitTransaction fault) (tables, some working) result after) :
    after = (working, none) := by
  obtain ⟨tables', working'⟩ := after
  obtain ⟨fuse, fuse', hrun⟩ := heffect
  rcases fuse with _ | _ | remaining
  all_goals cases hrun
  · rfl
  · rfl

theorem effect_statement_alone {result : α}
    (heffect : Effect (statement fault change) (tables, none) result after) :
    ∃ tables', change tables = .ok (result, tables') ∧ after = (tables', none) := by
  obtain ⟨published, working⟩ := after
  obtain ⟨fuse, fuse', hrun⟩ := heffect
  rcases statement_alone fault change tables fuse with
    hfault | ⟨_, -, hfault⟩ | ⟨value, tables', hchange, hstatement⟩
  · rw [hfault] at hrun
    cases hrun
  · rw [hfault] at hrun
    cases hrun
  · rw [hstatement] at hrun
    cases hrun
    exact ⟨published, hchange, rfl⟩

/-! The same, for the first statement of a longer program. -/

theorem effect_check_bind (heffect : Effect (check outcome >>= next) before result after) :
    ∃ value, outcome = .ok value ∧ Effect (next value) before result after := by
  obtain ⟨value, middle, hcheck, hnext⟩ := effect_bind heffect
  obtain ⟨hvalue, rfl⟩ := effect_check hcheck
  exact ⟨value, hvalue, hnext⟩

theorem effect_begin_bind {next : Unit → Sql Tables Err β} {working : Option Tables}
    (heffect : Effect (beginTransaction fault >>= next) (tables, working) result after) :
    Effect (next ()) (tables, some tables) result after := by
  obtain ⟨fuse, fuse', hrun⟩ := heffect
  rcases fuse with _ | _ | remaining
  · exact ⟨none, fuse', hrun⟩
  · cases hrun
  · exact ⟨some remaining, fuse', hrun⟩

theorem effect_statement_bind {working : Tables}
    (heffect : Effect (statement fault change >>= next) (tables, some working) result after) :
    ∃ value working', change working = .ok (value, working') ∧
      Effect (next value) (tables, some working') result after := by
  obtain ⟨value, middle, ⟨fuse, fuse', hrun⟩, hnext⟩ := effect_bind heffect
  unfold statement at hrun
  split at hrun
  · cases hrun
  · cases hchange : change working with
    | error _ => simp [hchange] at hrun
    | ok pair =>
        simp only [hchange, Prod.mk.injEq, Except.ok.injEq, Connection.mk.injEq] at hrun
        obtain ⟨rfl, hdurable, hworking, -⟩ := hrun
        obtain rfl : middle = (tables, some pair.2) := Prod.ext hdurable.symm hworking.symm
        exact ⟨pair.1, pair.2, rfl, hnext⟩

theorem effect_query_bind {working : Tables}
    (heffect : Effect (query fault read >>= next) (tables, some working) result after) :
    Effect (next (read working)) (tables, some working) result after := by
  obtain ⟨value, working', hread, hnext⟩ := effect_statement_bind heffect
  cases hread
  exact hnext

theorem effect_statement_alone_bind
    (heffect : Effect (statement fault change >>= next) (tables, none) result after) :
    ∃ value tables', change tables = .ok (value, tables') ∧
      Effect (next value) (tables', none) result after := by
  obtain ⟨value, middle, hstatement, hnext⟩ := effect_bind heffect
  obtain ⟨tables', hchange, rfl⟩ := effect_statement_alone hstatement
  exact ⟨value, tables', hchange, hnext⟩

theorem effect_query_alone_bind
    (heffect : Effect (query fault read >>= next) (tables, none) result after) :
    Effect (next (read tables)) (tables, none) result after := by
  obtain ⟨_, _, hread, hnext⟩ := effect_statement_alone_bind heffect
  cases hread
  exact hnext

end Sql

end ParqDB.Foundations
