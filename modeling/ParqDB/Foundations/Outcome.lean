import Mathlib.Data.List.Forall2

/-!
# Fallible computations over lists

What `List.mapM` returns in `Except`: the results of all items, in order.
-/

namespace ParqDB.Foundations

variable {α : Type*} {β ε : Type} {result : β} {error : ε} {items : List α} {results : List β}
  {step : α → Except ε β}

theorem bind_eq_ok {γ : Type} {outcome : Except ε γ} {next : γ → Except ε β} :
    (outcome >>= next) = .ok result ↔ ∃ value, outcome = .ok value ∧ next value = .ok result := by
  cases outcome with
  | ok value =>
      constructor
      · intro hnext
        exact ⟨value, rfl, hnext⟩
      · rintro ⟨other, hother, hnext⟩
        cases hother
        exact hnext
  | error error =>
      constructor
      · intro hnext
        cases hnext
      · rintro ⟨other, hother, -⟩
        cases hother

theorem ok_bind {γ : Type} {value : γ} {next : γ → Except ε β} :
    (.ok value >>= next) = next value := rfl

/-- The outcome of a computation without a result, and of what comes after it. -/
theorem seq_eq_ok {outcome : Except ε Unit} {next : Unit → Except ε β} :
    (outcome >>= next) = .ok result ↔ outcome = .ok () ∧ next () = .ok result := by
  rw [bind_eq_ok]
  exact ⟨fun ⟨_, hfirst, hnext⟩ => ⟨hfirst, hnext⟩, fun ⟨hfirst, hnext⟩ => ⟨(), hfirst, hnext⟩⟩

/-- A check that fails with an error if its condition holds. -/
def rejectIf (condition : Prop) [Decidable condition] (error : ε) : Except ε Unit :=
  if condition then .error error else .ok ()

@[simp] theorem rejectIf_eq_ok {condition : Prop} [Decidable condition] :
    rejectIf condition error = .ok () ↔ ¬ condition := by
  by_cases hcondition : condition <;> simp [rejectIf, hcondition]

/-- A check that is passed lets the rest decide. -/
theorem rejectIf_bind_eq_ok {condition : Prop} [Decidable condition] {next : Unit → Except ε β} :
    (rejectIf condition error >>= next) = .ok result ↔ ¬ condition ∧ next () = .ok result := by
  rw [seq_eq_ok, rejectIf_eq_ok]

/-- A loop succeeds if every round does. -/
theorem forM_eq_ok {step : α → Except ε PUnit} (hitems : ∀ item ∈ items, step item = .ok ()) :
    items.forM step = .ok () := by
  induction items with
  | nil => rfl
  | cons item items ih =>
      show (step item >>= fun _ => items.forM step) = .ok ()
      rw [hitems item List.mem_cons_self]
      exact ih fun other hother => hitems other (List.mem_cons_of_mem _ hother)

/-- If a loop succeeds, every round does. -/
theorem forall_of_forM_eq_ok {step : α → Except ε PUnit} (hall : items.forM step = .ok ()) :
    ∀ item ∈ items, step item = .ok () := by
  induction items with
  | nil => simp
  | cons item items ih =>
      have hsteps : step item = .ok () ∧ items.forM step = .ok () := seq_eq_ok.mp hall
      intro other hother
      rcases List.mem_cons.mp hother with rfl | hrest
      · exact hsteps.1
      · exact ih hsteps.2 other hrest

/-- `mapM` succeeds exactly when every item does, with the list of their results. -/
theorem mapM_eq_ok :
    items.mapM step = .ok results ↔
      List.Forall₂ (fun item result => step item = .ok result) items results := by
  induction items generalizing results with
  | nil =>
      rw [List.mapM_nil]
      constructor
      · intro hnil
        cases hnil
        exact List.Forall₂.nil
      · intro hall
        cases hall
        rfl
  | cons item items ih =>
      rw [List.mapM_cons, bind_eq_ok]
      constructor
      · rintro ⟨result, hresult, hrest⟩
        obtain ⟨rest, hmap, hcons⟩ := bind_eq_ok.mp hrest
        cases hcons
        exact List.Forall₂.cons hresult (ih.mp hmap)
      · intro hall
        cases hall with
        | cons hresult hrest =>
            exact ⟨_, hresult, bind_eq_ok.mpr ⟨_, ih.mpr hrest, rfl⟩⟩

theorem exists_of_forall₂ {β : Type*} {related : α → β → Prop} {first : List α} {second : List β}
    (hall : List.Forall₂ related first second) {right : β} (hright : right ∈ second) :
    ∃ left ∈ first, related left right := by
  induction hall with
  | nil => cases hright
  | cons hrelated _ ih =>
      rcases List.mem_cons.mp hright with rfl | hrest
      · exact ⟨_, List.mem_cons_self, hrelated⟩
      · obtain ⟨left, hleft, hfound⟩ := ih hrest
        exact ⟨left, List.mem_cons_of_mem _ hleft, hfound⟩

theorem exists_of_mem_mapM (hmap : items.mapM step = .ok results) (hresult : result ∈ results) :
    ∃ item ∈ items, step item = .ok result :=
  exists_of_forall₂ (mapM_eq_ok.mp hmap) hresult

theorem exists_result_of_mapM (hmap : items.mapM step = .ok results) {item : α}
    (hitem : item ∈ items) : ∃ result ∈ results, step item = .ok result :=
  exists_of_forall₂ (mapM_eq_ok.mp hmap).flip hitem

/-- An error of `mapM` is that of one of the items. -/
theorem exists_of_mapM_eq_error (hmap : items.mapM step = .error error) :
    ∃ item ∈ items, step item = .error error := by
  induction items with
  | nil => cases hmap
  | cons item items ih =>
      rw [List.mapM_cons] at hmap
      cases hstep : step item with
      | error other =>
          rw [hstep] at hmap
          cases hmap
          exact ⟨item, List.mem_cons_self, hstep⟩
      | ok result =>
          rw [hstep, ok_bind] at hmap
          cases hrest : items.mapM step with
          | ok results =>
              rw [hrest] at hmap
              cases hmap
          | error other =>
              rw [hrest] at hmap
              cases hmap
              obtain ⟨found, hfound, herror⟩ := ih hrest
              exact ⟨found, List.mem_cons_of_mem _ hfound, herror⟩

/-- `mapM` over items of which each gives a result with some property. -/
theorem exists_mapM_of_forall {post : α → β → Prop}
    (hstep : ∀ item ∈ items, ∃ result, step item = .ok result ∧ post item result) :
    ∃ results, items.mapM step = .ok results ∧ List.Forall₂ post items results := by
  induction items with
  | nil => exact ⟨[], rfl, List.Forall₂.nil⟩
  | cons item items ih =>
      obtain ⟨result, hresult, hpost⟩ := hstep item List.mem_cons_self
      obtain ⟨results, hresults, hall⟩ :=
        ih fun other hother => hstep other (List.mem_cons_of_mem _ hother)
      refine ⟨result :: results, ?_, List.Forall₂.cons hpost hall⟩
      rw [List.mapM_cons, hresult, ok_bind, hresults, ok_bind]
      rfl

/-- `mapM` over items with known results. -/
theorem mapM_of_forall_eq_ok {result : α → β} (hok : ∀ item ∈ items, step item = .ok (result item)) :
    items.mapM step = .ok (items.map result) := by
  rw [mapM_eq_ok, List.forall₂_map_right_iff]
  exact List.forall₂_same.mpr hok

/-- `mapM` over items that all succeed. -/
theorem mapM_of_forall_ok (hok : ∀ item ∈ items, ∀ error, step item ≠ .error error) :
    items.mapM step = .ok (items.filterMap fun item => (step item).toOption) := by
  induction items with
  | nil => rfl
  | cons item items ih =>
      rw [List.mapM_cons, ih fun other hother => hok other (List.mem_cons_of_mem _ hother)]
      cases hitem : step item with
      | error error => exact absurd hitem (hok item List.mem_cons_self error)
      | ok result =>
          rw [List.filterMap_cons, hitem]
          rfl

/-- `mapM` over items of which one fails. -/
theorem mapM_of_exists_error {item : α} (hitem : item ∈ items) (herror : step item = .error error) :
    ∃ other, items.mapM step = .error other := by
  cases hmap : items.mapM step with
  | error other => exact ⟨other, rfl⟩
  | ok results =>
      obtain ⟨result, -, hresult⟩ := exists_result_of_mapM hmap hitem
      rw [herror] at hresult
      cases hresult

/-!
## How computations end

`Ends admitted outcome post`: a fallible computation returns a result with some property, or it
fails in one of the ways that are admitted.  The rules follow the steps of a computation.
-/

variable {α : Type*} {β γ ε : Type} {admitted : ε → Prop}

/-- A result with some property, or an admitted error. -/
def Ends (admitted : ε → Prop) (outcome : Except ε β) (post : β → Prop) : Prop :=
  match outcome with
  | .ok result => post result
  | .error error => admitted error

variable {outcome : Except ε β}

theorem Ends.intro {post : β → Prop} (hok : ∀ result, outcome = .ok result → post result)
    (herror : ∀ error, outcome = .error error → admitted error) : Ends admitted outcome post := by
  cases outcome with
  | ok result => exact hok result rfl
  | error error => exact herror error rfl

theorem Ends.bind {next : β → Except ε γ} {middle : β → Prop} {post : γ → Prop}
    (houtcome : Ends admitted outcome middle)
    (hnext : ∀ result, middle result → Ends admitted (next result) post) :
    Ends admitted (outcome >>= next) post := by
  cases outcome with
  | ok result => exact hnext result houtcome
  | error error => exact houtcome

/-- A check that is passed lets the rest decide. -/
theorem Ends.rejectIf {condition : Prop} [Decidable condition] {error : ε}
    {next : Unit → Except ε γ} {post : γ → Prop} (hpasses : ¬ condition)
    (hnext : Ends admitted (next ()) post) :
    Ends admitted (ParqDB.Foundations.rejectIf condition error >>= next) post := by
  rw [rejectIf_eq_ok.mpr hpasses]
  exact hnext

theorem Ends.mono {weaker post : β → Prop} (houtcome : Ends admitted outcome weaker)
    (himplies : ∀ result, weaker result → post result) : Ends admitted outcome post := by
  cases outcome with
  | ok result => exact himplies result houtcome
  | error error => exact houtcome

end ParqDB.Foundations
