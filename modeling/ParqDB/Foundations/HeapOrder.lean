import Mathlib.Algebra.Order.Ring.Int
import Mathlib.Logic.Equiv.Basic
import Mathlib.Order.Nat
import Mathlib.Tactic.Cases

/-!
# Heap order in an array

The entries of a binary heap are at the positions below a length; the children of `position`
are `2 * position + 1` and `2 * position + 2`.  Only the keys of the entries matter here, so a
heap is a function from positions to keys, and exchanging two entries is composing it with a
transposition.

**Strategy.**  While an entry moves up, the heap is ordered but for the edge above it
(`Rising`); while one moves down, but for the edges below it (`Sinking`).  Both say as well that
the children of the moving entry fit below its parent, which is what the next exchange needs.
-/

namespace ParqDB.Foundations.HeapOrder

def parent (position : ℕ) : ℕ := (position - 1) / 2

theorem parent_lt {position : ℕ} (hposition : 0 < position) : parent position < position := by
  unfold parent
  omega

theorem parent_eq_iff {child position : ℕ} (hchild : 0 < child) :
    parent child = position ↔ child = position * 2 + 1 ∨ child = position * 2 + 2 := by
  unfold parent
  omega

variable {κ : Type*} [LinearOrder κ] {key : ℕ → κ} {length position child : ℕ}

/-- No entry is greater than the one above it. -/
def Ordered (key : ℕ → κ) (length : ℕ) : Prop :=
  ∀ child < length, 0 < child → key child ≤ key (parent child)

/-- Ordered, except that the entry at the position may be greater than the one above it. -/
structure Rising (key : ℕ → κ) (length position : ℕ) : Prop where
  others : ∀ child < length, 0 < child → child ≠ position → key child ≤ key (parent child)
  grandchildren : 0 < position → ∀ child < length, 0 < child → parent child = position →
    key child ≤ key (parent position)

/-- Ordered, except that the entry at the position may be smaller than those below it. -/
structure Sinking (key : ℕ → κ) (length position : ℕ) : Prop where
  others : ∀ child < length, 0 < child → parent child ≠ position → key child ≤ key (parent child)
  grandchildren : 0 < position → ∀ child < length, 0 < child → parent child = position →
    key child ≤ key (parent position)

theorem Ordered.congr {other : ℕ → κ} (hordered : Ordered key length)
    (hkey : ∀ child < length, other child = key child) : Ordered other length := by
  intro child hchild hpositive
  rw [hkey child hchild, hkey _ ((parent_lt hpositive).trans hchild)]
  exact hordered child hchild hpositive

theorem Ordered.mono {fewer : ℕ} (hordered : Ordered key length) (hfewer : fewer ≤ length) :
    Ordered key fewer :=
  fun child hchild => hordered child (hchild.trans_le hfewer)

/-- The top is the greatest. -/
theorem Ordered.le_top (hordered : Ordered key length) :
    ∀ position < length, key position ≤ key 0 := by
  intro position
  induction position using Nat.strongRecOn with
  | ind position ih =>
      intro hposition
      rcases Nat.eq_zero_or_pos position with rfl | hpositive
      · exact le_rfl
      · have hup := parent_lt hpositive
        calc key position
            ≤ key (parent position) := hordered position hposition hpositive
          _ ≤ key 0 := ih (parent position) hup (hup.trans hposition)

/-! ## Moving up -/

/-- An entry that was put behind the others. -/
theorem Ordered.rising (hordered : Ordered key length) : Rising key (length + 1) length where
  others child hchild hpositive hne :=
    hordered child (Nat.lt_of_le_of_ne (Nat.le_of_lt_succ hchild) hne) hpositive
  grandchildren _ child hchild hpositive hparent := by
    rcases (parent_eq_iff hpositive).mp hparent with hleft | hright <;> omega

theorem Rising.ordered (hrising : Rising key length position)
    (hstop : position = 0 ∨ key position ≤ key (parent position)) : Ordered key length := by
  intro child hchild hpositive
  by_cases hsame : child = position
  · subst hsame
    exact hstop.resolve_left hpositive.ne'
  · exact hrising.others child hchild hpositive hsame

/-- The entry is exchanged with the one above it, which is smaller. -/
theorem Rising.exchange (hrising : Rising key length position) (hpositive : 0 < position)
    (hposition : position < length) (hgreater : key (parent position) < key position) :
    Rising (key ∘ Equiv.swap position (parent position)) length (parent position) := by
  have hup := parent_lt hpositive
  have hself : (key ∘ Equiv.swap position (parent position)) position = key (parent position) := by
    rw [Function.comp_apply, Equiv.swap_apply_left]
  have habove : (key ∘ Equiv.swap position (parent position)) (parent position) = key position := by
    rw [Function.comp_apply, Equiv.swap_apply_right]
  have hother : ∀ other, other ≠ position → other ≠ parent position →
      (key ∘ Equiv.swap position (parent position)) other = key other := by
    intro other hself habove
    rw [Function.comp_apply, Equiv.swap_apply_of_ne_of_ne hself habove]
  constructor
  · intro child hchild hchildPositive hne
    by_cases hsame : child = position
    · rw [hsame, hself, habove]
      exact hgreater.le
    · rw [hother child hsame hne]
      by_cases hbelow : parent child = position
      · -- a child of the position fits below what was above it
        rw [hbelow, hself]
        exact hrising.grandchildren hpositive child hchild hchildPositive hbelow
      · by_cases hsibling : parent child = parent position
        · rw [hsibling, habove]
          calc key child
              ≤ key (parent child) := hrising.others child hchild hchildPositive hsame
            _ = key (parent position) := by rw [hsibling]
            _ ≤ key position := hgreater.le
        · rw [hother _ hbelow hsibling]
          exact hrising.others child hchild hchildPositive hsame
  · intro habovePositive child hchild hchildPositive hparent
    have hfurther := parent_lt habovePositive
    rw [hother (parent (parent position)) (by omega) hfurther.ne]
    have htop : key (parent position) ≤ key (parent (parent position)) :=
      hrising.others _ (hup.trans hposition) habovePositive hup.ne
    by_cases hsame : child = position
    · rw [hsame, hself]
      exact htop
    · have hne : child ≠ parent position := by
        rintro rfl
        exact hfurther.ne hparent
      rw [hother child hsame hne]
      calc key child
          ≤ key (parent child) := hrising.others child hchild hchildPositive hsame
        _ = key (parent position) := by rw [hparent]
        _ ≤ key (parent (parent position)) := htop

/-! ## Moving down -/

/-- An entry that was put on top. -/
theorem Ordered.sinking {other : ℕ → κ} (hordered : Ordered key length)
    (hkey : ∀ child < length, 0 < child → other child = key child) : Sinking other length 0 where
  others child hchild hpositive hparent := by
    rw [hkey child hchild hpositive, hkey (parent child) ((parent_lt hpositive).trans hchild)
      (Nat.pos_of_ne_zero hparent)]
    exact hordered child hchild hpositive
  grandchildren hpositive := absurd hpositive (Nat.lt_irrefl 0)

theorem Sinking.ordered (hsinking : Sinking key length position)
    (hstop : ∀ child < length, 0 < child → parent child = position → key child ≤ key position) :
    Ordered key length := by
  intro child hchild hpositive
  by_cases hbelow : parent child = position
  · rw [hbelow]
    exact hstop child hchild hpositive hbelow
  · exact hsinking.others child hchild hpositive hbelow

/-- The entry is exchanged with the greatest one below it, which is greater. -/
theorem Sinking.exchange (hsinking : Sinking key length position) (hchild : child < length)
    (hpositive : 0 < child) (hparent : parent child = position)
    (hgreatest : ∀ other < length, 0 < other → parent other = position → key other ≤ key child)
    (hgreater : key position < key child) :
    Sinking (key ∘ Equiv.swap position child) length child := by
  have hdown : position < child := hparent ▸ parent_lt hpositive
  have hself : (key ∘ Equiv.swap position child) position = key child := by
    rw [Function.comp_apply, Equiv.swap_apply_left]
  have hbelow : (key ∘ Equiv.swap position child) child = key position := by
    rw [Function.comp_apply, Equiv.swap_apply_right]
  have hother : ∀ other, other ≠ position → other ≠ child →
      (key ∘ Equiv.swap position child) other = key other := by
    intro other hself hbelow
    rw [Function.comp_apply, Equiv.swap_apply_of_ne_of_ne hself hbelow]
  constructor
  · intro other hlength hotherPositive hne
    by_cases hsame : other = child
    · rw [hsame, hparent, hself, hbelow]
      exact hgreater.le
    · by_cases hsibling : parent other = position
      · have hmoved : other ≠ position := by
          have hup := parent_lt hotherPositive
          omega
        rw [hsibling, hself, hother other hmoved hsame]
        exact hgreatest other hlength hotherPositive hsibling
      · rw [hother (parent other) hsibling hne]
        by_cases hmoved : other = position
        · -- the greater child fits below what is above the position
          rw [hmoved, hself]
          rw [hmoved] at hotherPositive
          exact hsinking.grandchildren hotherPositive child hchild hpositive hparent
        · rw [hother other hmoved hsame]
          exact hsinking.others other hlength hotherPositive hsibling
  · intro _ other hlength hotherPositive hgrandchild
    have hfurther := parent_lt hotherPositive
    have hne : parent other ≠ position := by omega
    rw [hparent, hself, hother other (by omega) (by omega)]
    calc key other
        ≤ key (parent other) := hsinking.others other hlength hotherPositive hne
      _ = key child := by rw [hgrandchild]

end ParqDB.Foundations.HeapOrder
