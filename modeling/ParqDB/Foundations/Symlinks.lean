import Mathlib.Data.List.Basic

/-!
# File trees with symbolic links

A file tree says what stands at each place, a list of names from the root on.  `follow` walks
along steps and follows the links on its way, as `realpath` does; it goes on past what is not
there.  It is given up after so many steps, since links can lead in circles.

**Results.**

* `follow_unlinked`: what a walk reaches lies behind no link.
* `follow_down`: a walk along names without a link reaches the place of these names.
* `follow_mono`: more fuel does not change where a walk leads.
-/

namespace ParqDB.Foundations.Symlinks

variable {Name : Type}

/-- One step of a path. -/
inductive Step (Name : Type)
  | up
  | down (name : Name)
  deriving DecidableEq

/-- What stands at a place. -/
inductive Entry (Name : Type)
  | directory
  | file
  | link (absolute : Bool) (target : List (Step Name))
  deriving DecidableEq

abbrev Place (Name : Type) := List Name

/-- A file tree. -/
abbrev Tree (Name : Type) := Place Name → Option (Entry Name)

def Entry.isLink : Entry Name → Bool
  | .link _ _ => true
  | _ => false

/-- No link stands at the place or above it. -/
def Unlinked (tree : Tree Name) (place : Place Name) : Prop :=
  ∀ start, start <+: place → ¬ (tree start).any Entry.isLink = true

variable {tree : Tree Name} {place other : Place Name}

/-- The place where the steps lead from a place. -/
def follow (tree : Tree Name) : ℕ → Place Name → List (Step Name) → Option (Place Name)
  | _, place, [] => some place
  | 0, _, _ :: _ => none
  | fuel + 1, place, .up :: steps => follow tree fuel place.dropLast steps
  | fuel + 1, place, .down name :: steps =>
      match tree (place ++ [name]) with
      | some (.link absolute target) =>
          follow tree fuel (if absolute then [] else place) (target ++ steps)
      | _ => follow tree fuel (place ++ [name]) steps

theorem Unlinked.of_prefix (hplace : Unlinked tree place) (hother : other <+: place) :
    Unlinked tree other :=
  fun start hstart => hplace start (hstart.trans hother)

theorem unlinked_nil (hroot : ¬ (tree []).any Entry.isLink = true) : Unlinked tree [] := by
  intro start hstart
  rw [List.prefix_nil.mp hstart]
  exact hroot

variable {name : Name} {fuel : ℕ} {steps : List (Step Name)}

theorem Unlinked.append_singleton (hplace : Unlinked tree place)
    (hname : ¬ (tree (place ++ [name])).any Entry.isLink = true) :
    Unlinked tree (place ++ [name]) := by
  intro start hstart
  rcases List.prefix_concat_iff.mp hstart with rfl | hstart
  · exact hname
  · exact hplace start hstart

theorem follow_link {absolute : Bool} {target : List (Step Name)}
    (hlink : tree (place ++ [name]) = some (.link absolute target)) (fuel : ℕ)
    (steps : List (Step Name)) :
    follow tree (fuel + 1) place (.down name :: steps) =
      follow tree fuel (if absolute then [] else place) (target ++ steps) := by
  rw [follow, hlink]

theorem follow_name (hname : ¬ (tree (place ++ [name])).any Entry.isLink = true) (fuel : ℕ)
    (steps : List (Step Name)) :
    follow tree (fuel + 1) place (.down name :: steps) =
      follow tree fuel (place ++ [name]) steps := by
  cases hentry : tree (place ++ [name]) with
  | none => rw [follow, hentry]
  | some entry =>
      rw [hentry] at hname
      cases entry with
      | directory => rw [follow, hentry]
      | file => rw [follow, hentry]
      | link absolute target => exact absurd rfl hname

theorem exists_link (hlink : (tree place).any Entry.isLink = true) :
    ∃ absolute target, tree place = some (.link absolute target) := by
  cases hentry : tree place with
  | none =>
      rw [hentry] at hlink
      cases hlink
  | some entry =>
      rw [hentry] at hlink
      cases entry with
      | directory => cases hlink
      | file => cases hlink
      | link absolute target => exact ⟨absolute, target, rfl⟩

/-- What a walk reaches lies behind no link. -/
theorem follow_unlinked {reached : Place Name} (hplace : Unlinked tree place)
    (hfollow : follow tree fuel place steps = some reached) : Unlinked tree reached := by
  induction fuel generalizing place steps with
  | zero =>
      cases steps with
      | nil =>
          cases hfollow
          exact hplace
      | cons step steps => cases hfollow
  | succ fuel ih =>
      cases steps with
      | nil =>
          cases hfollow
          exact hplace
      | cons step steps =>
          cases step with
          | up => exact ih (hplace.of_prefix (List.dropLast_prefix place)) hfollow
          | down name =>
              by_cases hname : (tree (place ++ [name])).any Entry.isLink = true
              · obtain ⟨absolute, target, hlink⟩ := exists_link hname
                rw [follow_link hlink] at hfollow
                have hroot := hplace.of_prefix List.nil_prefix
                cases absolute with
                | true => exact ih hroot hfollow
                | false => exact ih hplace hfollow
              · rw [follow_name hname] at hfollow
                exact ih (hplace.append_singleton hname) hfollow

/-- A walk along names without a link reaches their place. -/
theorem follow_down {names : List Name} (hplace : Unlinked tree (place ++ names))
    (hfuel : names.length ≤ fuel) :
    follow tree fuel place (names.map .down) = some (place ++ names) := by
  induction names generalizing place fuel with
  | nil =>
      rw [List.append_nil, List.map_nil]
      cases fuel <;> rfl
  | cons name names ih =>
      obtain ⟨fewer, rfl⟩ : ∃ fewer, fuel = fewer + 1 :=
        ⟨fuel - 1, by rw [List.length_cons] at hfuel; omega⟩
      have hsplit : place ++ name :: names = place ++ [name] ++ names := by
        rw [List.append_assoc]
        rfl
      rw [hsplit] at hplace ⊢
      have hname := hplace (place ++ [name]) ⟨names, rfl⟩
      rw [List.map_cons, follow_name hname]
      apply ih hplace
      rw [List.length_cons] at hfuel
      omega

/-- More fuel does not change where a walk leads. -/
theorem follow_mono {more : ℕ} {reached : Place Name} (hmore : fuel ≤ more)
    (hfollow : follow tree fuel place steps = some reached) :
    follow tree more place steps = some reached := by
  induction fuel generalizing place steps more with
  | zero =>
      cases steps with
      | nil =>
          cases hfollow
          cases more <;> rfl
      | cons step steps => cases hfollow
  | succ fuel ih =>
      obtain ⟨less, rfl⟩ : ∃ less, more = less + 1 := ⟨more - 1, by omega⟩
      have hless : fuel ≤ less := by omega
      cases steps with
      | nil => exact hfollow
      | cons step steps =>
          cases step with
          | up =>
              rw [follow] at hfollow ⊢
              exact ih hless hfollow
          | down name =>
              by_cases hname : (tree (place ++ [name])).any Entry.isLink = true
              · obtain ⟨absolute, target, hlink⟩ := exists_link hname
                rw [follow_link hlink] at hfollow ⊢
                exact ih hless hfollow
              · rw [follow_name hname] at hfollow ⊢
                exact ih hless hfollow

end ParqDB.Foundations.Symlinks
