import Mathlib.Data.List.Basic

/-!
# Runs of a labelled transition system

A run is a list of labels together with the states it leads through.  Invariants are
proved for one step and lifted by `Run.invariant`; a property that changes along a run
changes at some step (`Run.exists_step`).
-/

namespace ParqDB.Foundations

variable {State Label : Type*}

/-- `labels` lead from `first` to `last`. -/
def Run (step : State → Label → State → Prop) : State → List Label → State → Prop
  | first, [], last => first = last
  | first, label :: labels, last => ∃ next, step first label next ∧ Run step next labels last

namespace Run

variable {step : State → Label → State → Prop} {first last : State}

theorem append_iff {left right : List Label} :
    Run step first (left ++ right) last ↔
      ∃ middle, Run step first left middle ∧ Run step middle right last := by
  induction left generalizing first with
  | nil => simp [Run]
  | cons label labels ih =>
      simp only [List.cons_append, Run, ih]
      constructor
      · rintro ⟨next, hstep, middle, hleft, hright⟩
        exact ⟨middle, ⟨next, hstep, hleft⟩, hright⟩
      · rintro ⟨middle, ⟨next, hstep, hleft⟩, hright⟩
        exact ⟨next, hstep, middle, hleft, hright⟩

/-- A run passes through a state before and a state after each of its labels. -/
theorem split {labels left right : List Label} {label : Label} (hrun : Run step first labels last)
    (hlabels : labels = left ++ label :: right) :
    ∃ before after, Run step first left before ∧ step before label after ∧
      Run step after right last := by
  subst hlabels
  obtain ⟨before, hleft, after, hstep, hright⟩ := append_iff.mp hrun
  exact ⟨before, after, hleft, hstep, hright⟩

/-- What every step preserves, every run preserves. -/
theorem invariant {inv : State → Prop}
    (hstep : ∀ before label after, inv before → step before label after → inv after)
    {labels : List Label} (hfirst : inv first) (hrun : Run step first labels last) : inv last := by
  induction labels generalizing first with
  | nil => exact (hrun : first = last) ▸ hfirst
  | cons label labels ih =>
      obtain ⟨next, hnext, hrest⟩ := hrun
      exact ih (hstep first label next hfirst hnext) hrest

variable {labels : List Label} {other : State → Label → State → Prop}

/-- A run by steps that keep an invariant is a run by whatever these steps are under it. -/
theorem map (inv : State → Prop)
    (hkeep : ∀ before label after, inv before → step before label after → inv after)
    (hstep : ∀ before label after, inv before → step before label after → other before label after)
    (hfirst : inv first) (hrun : Run step first labels last) : Run other first labels last := by
  induction labels generalizing first with
  | nil => exact hrun
  | cons label labels ih =>
      obtain ⟨next, hnext, hrest⟩ := hrun
      exact ⟨next, hstep first label next hfirst hnext,
        ih (hkeep first label next hfirst hnext) hrest⟩

/-- Two runs of a deterministic system by the same labels are one. -/
theorem and {final : State} (hdetermined : ∀ before label after after', step before label after →
      other before label after' → after = after') (hrun : Run step first labels last)
    (hother : Run other first labels final) :
    last = final ∧ Run (fun before label after => step before label after ∧
      other before label after) first labels last := by
  induction labels generalizing first with
  | nil =>
      have hlast : first = last := hrun
      have hend : first = final := hother
      exact ⟨hlast.symm.trans hend, hlast⟩
  | cons label labels ih =>
      obtain ⟨next, hnext, hrest⟩ := hrun
      obtain ⟨next', hnext', hrest'⟩ := hother
      obtain rfl := hdetermined first label next next' hnext hnext'
      obtain ⟨hlast, hboth⟩ := ih hrest hrest'
      exact ⟨hlast, next, ⟨hnext, hnext'⟩, hboth⟩

/-- A property that holds at the end and not at the start was brought about by some step. -/
theorem exists_step (hrun : Run step first labels last) (property : State → Prop)
    (hfirst : ¬ property first) (hlast : property last) :
    ∃ label ∈ labels, ∃ before after, step before label after ∧ ¬ property before ∧
      property after := by
  induction labels generalizing first with
  | nil => exact absurd ((hrun : first = last) ▸ hlast) hfirst
  | cons label labels ih =>
      obtain ⟨next, hnext, hrest⟩ := hrun
      by_cases hproperty : property next
      · exact ⟨label, List.mem_cons_self, first, next, hnext, hfirst, hproperty⟩
      · obtain ⟨later, hlater, found⟩ := ih hrest hproperty
        exact ⟨later, List.mem_cons_of_mem label hlater, found⟩

/-- A run of a partial function, computed. -/
theorem of_foldlM {next : State → Label → Option State} {labels : List Label}
    (hlabels : labels.foldlM next first = some last) :
    Run (fun before label after => next before label = some after) first labels last := by
  induction labels generalizing first with
  | nil => exact Option.some.inj hlabels
  | cons label labels ih =>
      rw [List.foldlM_cons] at hlabels
      obtain ⟨middle, hnext, hrest⟩ := Option.bind_eq_some_iff.mp hlabels
      exact ⟨middle, hnext, ih hrest⟩

end Run

/-! ## Machines driven by a list of inputs -/

section

variable {Input : Type*} (next : State → Input → State)

/-- The states an input sequence passes through, the first and the last included. -/
def statesOf : State → List Input → List State
  | first, [] => [first]
  | first, input :: inputs => first :: statesOf (next first input) inputs

/-- The steps of an input sequence: each input with the state that receives it. -/
def stepsOf : State → List Input → List (State × Input)
  | _, [] => []
  | first, input :: inputs => (first, input) :: stepsOf (next first input) inputs

variable {next} {property : State → Prop} {good : State → Input → Prop} {first : State}
  {inputs : List Input}

/-- The last state. -/
theorem foldl_mem_statesOf : inputs.foldl next first ∈ statesOf next first inputs := by
  induction inputs generalizing first with
  | nil => exact List.mem_cons_self
  | cons input inputs ih => exact List.mem_cons_of_mem first ih

/-- The state that receives an input is one of the states. -/
theorem fst_mem_statesOf {pair : State × Input} (hpair : pair ∈ stepsOf next first inputs) :
    pair.1 ∈ statesOf next first inputs := by
  induction inputs generalizing first with
  | nil => cases hpair
  | cons input inputs ih =>
      rcases List.mem_cons.mp hpair with rfl | hlater
      · exact List.mem_cons_self
      · exact List.mem_cons_of_mem first (ih hlater)

variable {left right : List Input}

theorem stepsOf_append :
    stepsOf next first (left ++ right) =
      stepsOf next first left ++ stepsOf next (left.foldl next first) right := by
  induction left generalizing first with
  | nil => rfl
  | cons input inputs ih =>
      rw [List.cons_append, stepsOf, stepsOf, List.cons_append, ih]
      rfl

/-- The states of the rest of a run are states of the run. -/
theorem mem_statesOf_append {state : State}
    (hstate : state ∈ statesOf next (left.foldl next first) right) :
    state ∈ statesOf next first (left ++ right) := by
  induction left generalizing first with
  | nil => exact hstate
  | cons input inputs ih => exact List.mem_cons_of_mem first (ih hstate)

/-- What every input preserves holds throughout every run. -/
theorem invariant_statesOf (hstep : ∀ state input, property state → property (next state input))
    (hfirst : property first) (inputs : List Input) :
    ∀ state ∈ statesOf next first inputs, property state := by
  induction inputs generalizing first with
  | nil => simpa [statesOf] using hfirst
  | cons input inputs ih =>
      simp only [statesOf, List.forall_mem_cons]
      exact ⟨hfirst, ih (hstep first input hfirst)⟩

/-- If good inputs preserve the property, it holds throughout every run of good inputs. -/
theorem forall_mem_statesOf
    (hstep : ∀ state input, property state → good state input → property (next state input))
    (hfirst : property first) (hgood : ∀ pair ∈ stepsOf next first inputs, good pair.1 pair.2) :
    ∀ state ∈ statesOf next first inputs, property state := by
  induction inputs generalizing first with
  | nil => simpa [statesOf] using hfirst
  | cons input inputs ih =>
      simp only [stepsOf, List.forall_mem_cons] at hgood
      simp only [statesOf, List.forall_mem_cons]
      exact ⟨hfirst, ih (hstep first input hfirst hgood.1) hgood.2⟩

/-- If only good inputs preserve the property, it holds throughout a run only if all inputs
are good. -/
theorem forall_mem_stepsOf {admissible : Input → Prop}
    (hstep : ∀ state input, admissible input → property state → property (next state input) →
      good state input) (hadmissible : ∀ input ∈ inputs, admissible input)
    (hstates : ∀ state ∈ statesOf next first inputs, property state) :
    ∀ pair ∈ stepsOf next first inputs, good pair.1 pair.2 := by
  induction inputs generalizing first with
  | nil => simp [stepsOf]
  | cons input inputs ih =>
      simp only [statesOf, List.forall_mem_cons] at hstates
      simp only [List.forall_mem_cons] at hadmissible
      have hnext : property (next first input) := by
        apply hstates.2
        cases inputs <;> simp [statesOf]
      simp only [stepsOf, List.forall_mem_cons]
      exact ⟨hstep first input hadmissible.1 hstates.1 hnext, ih hadmissible.2 hstates.2⟩

end

end ParqDB.Foundations
