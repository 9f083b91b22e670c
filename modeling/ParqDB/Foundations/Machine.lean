import Mathlib.Logic.Relation
import Mathlib.Order.WellFounded

/-!
# Iterators that end

An iterator as a state machine with a `next` function, which ends because its steps are
well founded.  The loops of a consumer (`tryFold`) and of an adapter that calls `next` of
an inner iterator several times (`flatten`) recurse on that.

**Rules.**

* `items_unique`: a function that unfolds as the machine does gives the items of the
  machine.  The items of every adapter are found by it.
* `tryFold_eq_foldlM`: what a consumer computes depends on the items only.
-/

namespace ParqDB.Foundations

variable {α β γ ε : Type}

/-- An iterator, apart from its current state. -/
structure Machine (α : Type) where
  State : Type
  next : State → Option (α × State)
  finite : WellFounded fun later earlier => ∃ item, next earlier = some (item, later)

namespace Machine

/-- All that a machine yields from a state. -/
def items (machine : Machine α) (state : machine.State) : List α :=
  match _hnext : machine.next state with
  | none => []
  | some (item, later) => item :: machine.items later
termination_by machine.finite.wrap state
decreasing_by exact ⟨item, _hnext⟩

/-- A consumer that stops at its first error. -/
def tryFold (machine : Machine α) (step : β → α → Except ε β) (start : β)
    (state : machine.State) : Except ε β :=
  match _hnext : machine.next state with
  | none => .ok start
  | some (item, later) =>
      match step start item with
      | .error error => .error error
      | .ok result => machine.tryFold step result later
termination_by machine.finite.wrap state
decreasing_by exact ⟨item, _hnext⟩

variable {machine : Machine α} {state later : machine.State} {item : α}

theorem items_of_none (hnext : machine.next state = none) : machine.items state = [] := by
  rw [items]
  split
  · rfl
  · rename_i hother
    rw [hnext] at hother
    cases hother

theorem items_of_some (hnext : machine.next state = some (item, later)) :
    machine.items state = item :: machine.items later := by
  rw [items]
  split
  · rename_i hother
    rw [hnext] at hother
    cases hother
  · rename_i hother
    rw [hnext] at hother
    cases hother
    rfl

/-- A function that unfolds as the machine does gives its items. -/
theorem items_unique (machine : Machine α) (rest : machine.State → List α)
    (hnone : ∀ state, machine.next state = none → rest state = [])
    (hsome : ∀ state item later, machine.next state = some (item, later) →
      rest state = item :: rest later) (state : machine.State) :
    machine.items state = rest state := by
  induction state using machine.finite.induction with
  | _ state ih =>
      cases hnext : machine.next state with
      | none => rw [items_of_none hnext, hnone state hnext]
      | some pair =>
          obtain ⟨item, later⟩ := pair
          rw [items_of_some hnext, hsome state item later hnext, ih later ⟨item, hnext⟩]

theorem tryFold_eq_foldlM (machine : Machine α) (step : β → α → Except ε β) (start : β)
    (state : machine.State) :
    machine.tryFold step start state = (machine.items state).foldlM step start := by
  induction state using machine.finite.induction generalizing start with
  | _ state ih =>
      rw [tryFold]
      split
      · rename_i hnext
        rw [items_of_none hnext]
        rfl
      · rename_i item later hnext
        rw [items_of_some hnext, List.foldlM_cons]
        cases step start item with
        | error error => rfl
        | ok result => exact ih later ⟨item, hnext⟩ result

/-! ## Adapters -/

/-- The rest of a list. -/
def ofList (α : Type) : Machine α where
  State := List α
  next
    | [] => none
    | item :: rest => some (item, rest)
  finite := by
    refine Subrelation.wf ?_ (measure List.length).wf
    rintro later (_ | ⟨item, rest⟩) ⟨other, hnext⟩
    · cases hnext
    · cases hnext
      exact Nat.lt_succ_self _

@[simp] theorem items_ofList (list : List α) : (ofList α).items list = list := by
  refine items_unique (ofList α) (fun list => list) ?_ ?_ list
  · rintro (_ | ⟨item, rest⟩) hnext
    · rfl
    · cases hnext
  · rintro (_ | ⟨first, rest⟩) item later hnext
    · cases hnext
    · cases hnext
      rfl

/-- Applies a function to every item. -/
def map (machine : Machine α) (change : α → β) : Machine β where
  State := machine.State
  next state := (machine.next state).map fun pair => (change pair.1, pair.2)
  finite := by
    refine Subrelation.wf ?_ machine.finite
    rintro later earlier ⟨item, hnext⟩
    obtain ⟨⟨original, _⟩, horiginal, hpair⟩ := Option.map_eq_some_iff.mp hnext
    cases hpair
    exact ⟨original, horiginal⟩

@[simp] theorem items_map (machine : Machine α) (change : α → β) (state : machine.State) :
    (machine.map change).items state = (machine.items state).map change := by
  refine items_unique (machine.map change) (fun state => (machine.items state).map change) ?_ ?_
    state
  · intro state hnext
    rw [items_of_none (Option.map_eq_none_iff.mp hnext), List.map_nil]
  · intro state item later hnext
    obtain ⟨⟨original, _⟩, horiginal, hpair⟩ := Option.map_eq_some_iff.mp hnext
    cases hpair
    rw [items_of_some horiginal, List.map_cons]

/-! ## Flattening -/

section

variable (machine : Machine (Except ε γ)) (intoIter : γ → List β)

/-- The loop of a flattening adapter: the current inner items first, then the next outer item;
an outer error is passed on and the current items, which are used up, stay. -/
def flattenNext (outer : machine.State) (current : Option (List β)) :
    Option (Except ε β × machine.State × Option (List β)) :=
  match current.getD [] with
  | item :: rest => some (.ok item, outer, some rest)
  | [] =>
      match _hnext : machine.next outer with
      | none => none
      | some (.error error, later) => some (.error error, later, current)
      | some (.ok values, later) => flattenNext later (some (intoIter values))
termination_by machine.finite.wrap outer
decreasing_by exact ⟨_, _hnext⟩

/-- The items of an outer item. -/
def expand : Except ε γ → List (Except ε β)
  | .ok values => (intoIter values).map .ok
  | .error error => [.error error]

/-- What is left of a flattening adapter. -/
def flattenRest (outer : machine.State) (current : Option (List β)) : List (Except ε β) :=
  (current.getD []).map .ok ++ (machine.items outer).flatMap (expand intoIter)

/-- The outer state is after another one. -/
def Later (later earlier : machine.State) : Prop :=
  Relation.TransGen (fun later earlier => ∃ item, machine.next earlier = some (item, later)) later
    earlier

variable {machine intoIter} {outer later : machine.State} {current : Option (List β)}

theorem flattenNext_of_none (hcurrent : current.getD [] = []) (hnext : machine.next outer = none) :
    machine.flattenNext intoIter outer current = none := by
  rw [flattenNext, hcurrent]
  dsimp only
  split <;> simp_all

theorem flattenNext_of_error {error : ε} (hcurrent : current.getD [] = [])
    (hnext : machine.next outer = some (.error error, later)) :
    machine.flattenNext intoIter outer current = some (.error error, later, current) := by
  rw [flattenNext, hcurrent]
  dsimp only
  split <;> simp_all

theorem flattenNext_of_ok {values : γ} (hcurrent : current.getD [] = [])
    (hnext : machine.next outer = some (.ok values, later)) :
    machine.flattenNext intoIter outer current =
      machine.flattenNext intoIter later (some (intoIter values)) := by
  rw [flattenNext, hcurrent]
  dsimp only
  split <;> simp_all

variable (machine intoIter) in
/-- One call of the loop yields the first item that is left, and makes progress: in the outer
iterator, or in the current items. -/
theorem flattenNext_spec (outer : machine.State) (current : Option (List β)) :
    match machine.flattenNext intoIter outer current with
    | none => machine.flattenRest intoIter outer current = []
    | some (item, later, rest) =>
        machine.flattenRest intoIter outer current =
            item :: machine.flattenRest intoIter later rest ∧
          (machine.Later later outer ∨
            later = outer ∧ (rest.getD []).length < (current.getD []).length) := by
  induction outer using machine.finite.induction generalizing current with
  | _ outer ih =>
      cases hcurrent : current.getD [] with
      | cons item rest =>
          rw [flattenNext, hcurrent]
          dsimp only
          refine ⟨?_, Or.inr ⟨rfl, Nat.lt_succ_self _⟩⟩
          simp [flattenRest, hcurrent]
      | nil =>
          cases hnext : machine.next outer with
          | none =>
              rw [flattenNext_of_none hcurrent hnext]
              simp [flattenRest, hcurrent, items_of_none hnext]
          | some pair =>
              obtain ⟨outcome, later⟩ := pair
              have hlater : machine.Later later outer := Relation.TransGen.single ⟨outcome, hnext⟩
              cases outcome with
              | error error =>
                  rw [flattenNext_of_error hcurrent hnext]
                  refine ⟨?_, Or.inl hlater⟩
                  simp [flattenRest, hcurrent, items_of_some hnext, expand]
              | ok values =>
                  -- the loop goes on with the items of the new outer item
                  have hrest : machine.flattenRest intoIter outer current =
                      machine.flattenRest intoIter later (some (intoIter values)) := by
                    simp [flattenRest, hcurrent, items_of_some hnext, expand]
                  have hih := ih later ⟨_, hnext⟩ (some (intoIter values))
                  rw [flattenNext_of_ok hcurrent hnext, hrest]
                  split at hih
                  · exact hih
                  · refine ⟨hih.1, Or.inl ?_⟩
                    rcases hih.2 with hmore | ⟨rfl, -⟩
                    · exact hmore.trans hlater
                    · exact hlater

variable (machine intoIter) in
/-- Flattens successful items and passes errors on. -/
def flatten : Machine (Except ε β) where
  State := machine.State × Option (List β)
  next state := machine.flattenNext intoIter state.1 state.2
  finite := by
    have houter : WellFounded machine.Later := machine.finite.transGen
    have hlex := WellFounded.prod_lex houter (measure (fun rest : List β => rest.length)).wf
    refine Subrelation.wf ?_ (InvImage.wf (fun state => (state.1, state.2.getD [])) hlex)
    rintro ⟨later, rest⟩ ⟨outer, current⟩ ⟨item, hnext⟩
    have hspec := machine.flattenNext_spec intoIter outer current
    dsimp only at hnext
    rw [hnext] at hspec
    rcases hspec.2 with hlater | ⟨rfl, hshorter⟩
    · exact Prod.Lex.left _ _ hlater
    · exact Prod.Lex.right _ hshorter

@[simp] theorem items_flatten (state : (machine.flatten intoIter).State) :
    (machine.flatten intoIter).items state = machine.flattenRest intoIter state.1 state.2 := by
  refine items_unique (machine.flatten intoIter)
    (fun state => machine.flattenRest intoIter state.1 state.2) ?_ ?_ state
  · intro state hnext
    have hspec := machine.flattenNext_spec intoIter state.1 state.2
    rw [show machine.flattenNext intoIter state.1 state.2 = none from hnext] at hspec
    exact hspec
  · intro state item later hnext
    have hspec := machine.flattenNext_spec intoIter state.1 state.2
    rw [show machine.flattenNext intoIter state.1 state.2 = some (item, later) from hnext] at hspec
    exact hspec.1

end

end Machine

end ParqDB.Foundations
