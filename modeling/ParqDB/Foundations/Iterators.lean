import ParqDB.Foundations.Outcome

/-!
# Iterators that may raise

An iterator is a function from its state to an item, or to none at the end.  `drain` runs it to
its end, for at most `fuel` items.
-/

namespace ParqDB.Foundations

variable {σ β : Type}

/-- Why a run gives no result. -/
inductive Failure where
  | raised (message : String)
  | outOfFuel
  deriving DecidableEq, Repr

/-- An outcome of code that cannot run out of fuel. -/
def raised (outcome : Except String β) : Except Failure β :=
  outcome.mapError .raised

@[simp] theorem raised_ok (value : β) : raised (.ok value) = .ok value := rfl

@[simp] theorem raised_error (message : String) :
    raised (.error message : Except String β) = .error (.raised message) := rfl

/-- All items that an iterator still has. -/
def drain (next : σ → Except Failure (Option β × σ)) : ℕ → σ → Except Failure (List β)
  | 0, _ => .error .outOfFuel
  | fuel + 1, state =>
      match next state with
      | .error failure => .error failure
      | .ok (none, _) => .ok []
      | .ok (some item, state) => (drain next fuel state).map (item :: ·)

variable {next : σ → Except Failure (Option β × σ)} {count : ℕ} {state state' : σ} {item : β}

theorem drain_stop (hnext : next state = .ok (none, state')) :
    drain next (count + 1) state = .ok [] := by
  simp only [drain, hnext]

theorem drain_item (hnext : next state = .ok (some item, state')) :
    drain next (count + 1) state = (drain next count state').map (item :: ·) := by
  simp only [drain, hnext]

theorem drain_error {failure : Failure} (hnext : next state = .error failure) :
    drain next (count + 1) state = .error failure := by
  simp only [drain, hnext]

/-! ## Enough fuel

The function of an iterator may itself need fuel.
-/

/-- With enough fuel an iterator yields its items and then ends, or raises. -/
def Drains (next : ℕ → σ → Except Failure (Option β × σ)) (state : σ)
    (outcome : Except String (List β)) : Prop :=
  ∃ least, ∀ fuel ≥ least, ∀ count ≥ least, drain (next fuel) count state = raised outcome

variable {next : ℕ → σ → Except Failure (Option β × σ)} {outcome : Except String (List β)}

theorem Drains.stop (least : ℕ) (hnext : ∀ fuel ≥ least, next fuel state = .ok (none, state')) :
    Drains next state (.ok []) := by
  refine ⟨least + 1, fun fuel hfuel count hcount => ?_⟩
  obtain ⟨count, rfl⟩ : ∃ fewer, count = fewer + 1 := ⟨count - 1, by omega⟩
  exact drain_stop (hnext fuel (by omega))

theorem Drains.error (least : ℕ) {message : String}
    (hnext : ∀ fuel ≥ least, next fuel state = .error (.raised message)) :
    Drains next state (.error message) := by
  refine ⟨least + 1, fun fuel hfuel count hcount => ?_⟩
  obtain ⟨count, rfl⟩ : ∃ fewer, count = fewer + 1 := ⟨count - 1, by omega⟩
  exact drain_error (hnext fuel (by omega))

theorem Drains.cons (least : ℕ)
    (hnext : ∀ fuel ≥ least, next fuel state = .ok (some item, state'))
    (hrest : Drains next state' outcome) : Drains next state (outcome.map (item :: ·)) := by
  obtain ⟨other, hrest⟩ := hrest
  refine ⟨max least other + 1, fun fuel hfuel count hcount => ?_⟩
  obtain ⟨count, rfl⟩ : ∃ fewer, count = fewer + 1 := ⟨count - 1, by omega⟩
  rw [drain_item (hnext fuel (by omega)), hrest fuel (by omega) count (by omega)]
  cases outcome <;> rfl

/-- What an iterator yields depends on what it yields next. -/
theorem Drains.congr (least : ℕ) (hnext : ∀ fuel ≥ least, next fuel state = next fuel state')
    (hdrains : Drains next state' outcome) : Drains next state outcome := by
  obtain ⟨other, hdrains⟩ := hdrains
  refine ⟨max least other + 1, fun fuel hfuel count hcount => ?_⟩
  obtain ⟨count, rfl⟩ : ∃ fewer, count = fewer + 1 := ⟨count - 1, by omega⟩
  calc drain (next fuel) (count + 1) state
      = drain (next fuel) (count + 1) state' := by simp only [drain, hnext fuel (by omega)]
    _ = raised outcome := hdrains fuel (by omega) (count + 1) (by omega)

end ParqDB.Foundations
