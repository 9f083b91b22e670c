import Mathlib.Data.List.Basic

/-!
# Programs that await operations

A `Program` issues operations one after the other and continues with their responses, as
an `async` function does at its awaits.  It can be run in one go against a handler
(`Program.run`), or one await at a time between the steps of other parties; the program
that remains after an await is itself a `Program`.

**Rules.**

* `Program.Meets` is the contract of a program whose environment only promises what each
  response may be: every operation it can still issue is allowed, and its result
  satisfies a postcondition.  It is preserved by every await, so it can be kept as an
  invariant while other parties take steps.
* `Program.Meets.run_reads` reads such a contract in a run whose allowed operations leave
  the state alone.
-/

namespace ParqDB.Foundations

/-- A program over operations `Op`, each with its type of responses. -/
inductive Program (Op : Type) (Response : Op → Type) (Error : Type) (α : Type)
  | done (value : α)
  | fail (error : Error)
  | await (operation : Op) (next : Response operation → Program Op Response Error α)

namespace Program

variable {Op : Type} {Response : Op → Type} {Error α β γ : Type}

/-- Sequential composition; a failure skips the rest. -/
def bind (program : Program Op Response Error α) (next : α → Program Op Response Error β) :
    Program Op Response Error β :=
  match program with
  | done value => next value
  | fail error => fail error
  | await operation continuation =>
      await operation fun response => (continuation response).bind next

instance : Monad (Program Op Response Error) where
  pure := done
  bind := bind

/-- Issues one operation and returns its response. -/
def call (operation : Op) : Program Op Response Error (Response operation) :=
  await operation done

/-- Continues with a value or fails with its error. -/
def ofExcept (outcome : Except Error α) : Program Op Response Error α :=
  match outcome with
  | .ok value => done value
  | .error error => fail error

/-! ## Running against a handler -/

section

variable {State : Type} (handle : (operation : Op) → State → Response operation × State)

/-- Runs a program to its end, answering every operation by the handler. -/
def run : Program Op Response Error α → State → Except Error α × State
  | done value, state => (.ok value, state)
  | fail error, state => (.error error, state)
  | await operation next, state =>
      let answer := handle operation state
      (next answer.1).run answer.2

variable {handle}

theorem run_bind (program : Program Op Response Error α) (next : α → Program Op Response Error β)
    (state : State) :
    (program >>= next).run handle state =
      match program.run handle state with
      | (.ok value, middle) => (next value).run handle middle
      | (.error error, middle) => (.error error, middle) := by
  induction program generalizing state with
  | done value => rfl
  | fail error => rfl
  | await operation continuation ih => exact ih _ _

variable {next : α → Program Op Response Error β} {program : Program Op Response Error α}
  {state middle : State}

theorem run_bind_ok {value : α} (hprogram : program.run handle state = (.ok value, middle)) :
    (program >>= next).run handle state = (next value).run handle middle := by
  rw [run_bind, hprogram]

theorem run_bind_error {error : Error}
    (hprogram : program.run handle state = (.error error, middle)) :
    (program >>= next).run handle state = (.error error, middle) := by
  rw [run_bind, hprogram]

/-- Returning another value afterwards does not change the final state. -/
theorem run_bind_pure_snd (program : Program Op Response Error α) (result : β) :
    ((program >>= fun _ => pure result).run handle state).2 = (program.run handle state).2 := by
  rw [run_bind]
  rcases program.run handle state with ⟨outcome, middle⟩
  cases outcome <;> rfl

/-- A composition that succeeds is made of two runs that succeed. -/
theorem run_bind_eq_ok {last : State} {result : β}
    (hrun : (program >>= next).run handle state = (.ok result, last)) :
    ∃ value middle, program.run handle state = (.ok value, middle) ∧
      (next value).run handle middle = (.ok result, last) := by
  rw [run_bind] at hrun
  rcases hprogram : program.run handle state with ⟨outcome, middle⟩
  rw [hprogram] at hrun
  cases outcome with
  | ok value => exact ⟨value, middle, rfl, hrun⟩
  | error error => cases hrun

end

/-! ## Contracts -/

section

variable (allowed : Op → Prop) (answers : (operation : Op) → Response operation → Prop)

/-- Every operation the program can issue is allowed, and a result satisfies `post`,
provided every response is one of its operation's answers. -/
def Meets (post : α → Prop) : Program Op Response Error α → Prop
  | done value => post value
  | fail _ => True
  | await operation next =>
      allowed operation ∧ ∀ response, answers operation response → Meets post (next response)

variable {allowed answers} {post : α → Prop} {program : Program Op Response Error α}
  {next : α → Program Op Response Error β} {step : β → γ → Program Op Response Error β}

theorem Meets.mono {weaker : α → Prop} (hmeets : Meets allowed answers post program)
    (hpost : ∀ value, post value → weaker value) : Meets allowed answers weaker program := by
  induction program with
  | done value => exact hpost value hmeets
  | fail error => trivial
  | await operation next ih =>
      exact ⟨hmeets.1, fun response hanswer => ih response (hmeets.2 response hanswer)⟩

variable {final : β → Prop} {items : List γ}

theorem Meets.bind (hprogram : Meets allowed answers post program)
    (hnext : ∀ value, post value → Meets allowed answers final (next value)) :
    Meets allowed answers final (program >>= next) := by
  induction program with
  | done value => exact hnext value hprogram
  | fail error => trivial
  | await operation continuation ih =>
      exact ⟨hprogram.1, fun response hanswer => ih response (hprogram.2 response hanswer)⟩

theorem Meets.andThen (hprogram : Meets allowed answers (fun _ => True) program)
    (hnext : ∀ value, Meets allowed answers final (next value)) :
    Meets allowed answers final (program >>= next) :=
  hprogram.bind fun value _ => hnext value

theorem meets_call {operation : Op} (hallowed : allowed operation) :
    Meets allowed answers (answers operation)
      (call operation : Program Op Response Error (Response operation)) :=
  ⟨hallowed, fun _ hanswer => hanswer⟩

theorem meets_ofExcept {outcome : Except Error α} :
    Meets allowed answers (fun value => outcome = .ok value)
      (ofExcept outcome : Program Op Response Error α) := by
  cases outcome with
  | ok value => exact rfl
  | error error => trivial

/-- The loop rule: the invariant relates the items done so far to the accumulator. -/
theorem meets_foldlM (invariant : List γ → β → Prop) {value : β} (hfirst : invariant [] value)
    (hstep : ∀ before item after value, items = before ++ item :: after → invariant before value →
      Meets allowed answers (invariant (before ++ [item])) (step value item)) :
    Meets allowed answers (invariant items) (items.foldlM step value) := by
  suffices hloop : ∀ rest before value, items = before ++ rest → invariant before value →
      Meets allowed answers (invariant items) (rest.foldlM step value) from
    hloop items [] value rfl hfirst
  intro rest
  induction rest with
  | nil =>
      intro before value hitems hbefore
      rw [List.append_nil] at hitems
      subst hitems
      exact hbefore
  | cons item rest ih =>
      intro before value hitems hbefore
      rw [List.foldlM_cons]
      refine (hstep before item rest value hitems hbefore).bind fun next hnext => ?_
      exact ih (before ++ [item]) next (by simpa using hitems) hnext

/-- The loop rule for an invariant that does not depend on the items done so far. -/
theorem meets_foldlM_const {invariant : β → Prop} {value : β} (hfirst : invariant value)
    (hstep : ∀ item ∈ items, ∀ value, invariant value →
      Meets allowed answers invariant (step value item)) :
    Meets allowed answers invariant (items.foldlM step value) := by
  induction items generalizing value with
  | nil => exact hfirst
  | cons item items ih =>
      rw [List.foldlM_cons]
      refine (hstep item List.mem_cons_self value hfirst).bind fun next hnext => ?_
      exact ih hnext fun item hitem => hstep item (List.mem_cons_of_mem _ hitem)

/-- If the allowed operations leave the state alone and are answered accordingly, a run ends
in the state it started from, with a result that meets the postcondition. -/
theorem Meets.run_reads {State : Type}
    {handle : (operation : Op) → State → Response operation × State} {state : State}
    (hmeets : Meets allowed answers post program) (hhandle : ∀ operation, allowed operation →
      answers operation (handle operation state).1 ∧ (handle operation state).2 = state) :
    (program.run handle state).2 = state ∧
      ∀ value, (program.run handle state).1 = .ok value → post value := by
  induction program with
  | done value =>
      refine ⟨rfl, fun other hother => ?_⟩
      cases hother
      exact hmeets
  | fail error =>
      refine ⟨rfl, fun other hother => ?_⟩
      cases hother
  | await operation next ih =>
      obtain ⟨hanswer, hstate⟩ := hhandle operation hmeets.1
      have hnext := ih (handle operation state).1 (hmeets.2 _ hanswer)
      unfold run
      dsimp only
      rw [hstate]
      exact hnext

end

end Program

end ParqDB.Foundations

/-!
## Contracts with a history

What a program owes can depend on the operations it has issued and on their responses.  A history
records them, and `Program.Guarded` is the contract of a program from some history on: which
operations are allowed then, and what holds when the program ends or fails.

**Rules.**  `Guarded.bind`, `Guarded.attempt` and `guarded_ofExcept` follow the structure of a
program; `Guarded.answer` keeps the contract while other parties take steps between the awaits.
-/

namespace ParqDB.Foundations.Program

variable {Op : Type} {Response : Op → Type} {Error α β History : Type}

/-- Catches a failure. -/
def attempt : Program Op Response Error α → Program Op Response Error (Except Error α)
  | done value => done (.ok value)
  | fail error => done (.error error)
  | await operation next => await operation fun response => (next response).attempt

/-- The program has returned. -/
def Ended : Program Op Response Error α → Prop
  | done _ => True
  | fail _ => True
  | await _ _ => False

variable (record : History → (operation : Op) → Response operation → History)
  (allowed : History → Op → Prop)

/-- From this history on, every operation the program issues is allowed, a result satisfies `post`
and a failure `failed`. -/
def Guarded (post : History → α → Prop) (failed : History → Prop) :
    History → Program Op Response Error α → Prop
  | history, done value => post history value
  | history, fail _ => failed history
  | history, await operation next =>
      allowed history operation ∧
        ∀ response, Guarded post failed (record history operation response) (next response)

variable {record allowed} {post : History → α → Prop} {failed : History → Prop}
  {history : History} {program : Program Op Response Error α}

theorem Guarded.bind {final : History → β → Prop} {next : α → Program Op Response Error β}
    (hprogram : Guarded record allowed post failed history program)
    (hnext : ∀ later value, post later value →
      Guarded record allowed final failed later (next value)) :
    Guarded record allowed final failed history (program >>= next) := by
  induction program generalizing history with
  | done value => exact hnext history value hprogram
  | fail error => exact hprogram
  | await operation continuation ih =>
      exact ⟨hprogram.1, fun response => ih response (hprogram.2 response)⟩

theorem Guarded.attempt {other : History → Prop}
    (hprogram : Guarded record allowed post failed history program) :
    Guarded record allowed
      (fun later outcome => (∃ value, outcome = .ok value ∧ post later value) ∨
        ((∃ error, outcome = .error error) ∧ failed later))
      other history program.attempt := by
  induction program generalizing history with
  | done value => exact Or.inl ⟨value, rfl, hprogram⟩
  | fail error => exact Or.inr ⟨⟨error, rfl⟩, hprogram⟩
  | await operation continuation ih =>
      exact ⟨hprogram.1, fun response => ih response (hprogram.2 response)⟩

theorem guarded_ofExcept {outcome : Except Error α}
    (hok : ∀ value, outcome = .ok value → post history value)
    (herror : ∀ error, outcome = .error error → failed history) :
    Guarded record allowed post failed history
      (ofExcept outcome : Program Op Response Error α) := by
  cases outcome with
  | ok value => exact hok value rfl
  | error error => exact herror error rfl

/-- An answer leaves the rest of the program under its contract. -/
theorem Guarded.answer {operation : Op} {next : Response operation → Program Op Response Error α}
    (hprogram : Guarded record allowed post failed history (await operation next))
    (response : Response operation) :
    Guarded record allowed post failed (record history operation response) (next response) :=
  hprogram.2 response

end ParqDB.Foundations.Program
