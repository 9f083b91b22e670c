import Mathlib.Data.List.Forall2
import Mathlib.Data.List.Infix

/-!
# Globs

Patterns in which a star stands for any text.  A pattern is a first part that the text starts with,
and then parts that follow it in turn with gaps between them; the last one ends the text.

**Results.**

* `globs_iff_filled`: a pattern matches the texts that it becomes when every star is replaced by a
  text.
* `globs_iff`: what a pattern matches, by the parts between its stars.
* `GlobParts.append`: a longer gap does no harm, so that it is enough to look for each part at its
  first occurrence (`globParts_cons_iff_of_first`).
-/

namespace ParqDB.Foundations

universe u

variable {α : Type u}

/-! ## Patterns -/

/-- Matches a text with a pattern. -/
def Globs [DecidableEq α] (star : α) : List α → List α → Prop
  | [], text => text = []
  | c :: pattern, text =>
      if c = star then ∃ gap rest, text = gap ++ rest ∧ Globs star pattern rest
      else ∃ rest, text = c :: rest ∧ Globs star pattern rest

/-- What may stand in the place of a letter: any text for a star, otherwise the letter itself. -/
def Replaces (star c : α) (part : List α) : Prop := c = star ∨ part = [c]

/-- The text is the pattern with each of its stars replaced by some text. -/
def Filled (star : α) (pattern text : List α) : Prop :=
  ∃ parts, List.Forall₂ (Replaces star) pattern parts ∧ text = parts.flatten

variable {text : List α} {parts : List (List α)} {star : α} {pattern : List α}

theorem filled_nil_iff : Filled star [] text ↔ text = [] := by
  constructor
  · rintro ⟨parts, hparts, rfl⟩
    rw [List.forall₂_nil_left_iff.mp hparts, List.flatten_nil]
  · rintro rfl
    exact ⟨[], List.Forall₂.nil, rfl⟩

theorem filled_cons_iff {c : α} :
    Filled star (c :: pattern) text ↔
      ∃ part rest, Replaces star c part ∧ text = part ++ rest ∧ Filled star pattern rest := by
  constructor
  · rintro ⟨parts, hparts, rfl⟩
    obtain ⟨part, others, hpart, hothers, rfl⟩ := List.forall₂_cons_left_iff.mp hparts
    exact ⟨part, others.flatten, hpart, List.flatten_cons, others, hothers, rfl⟩
  · rintro ⟨part, rest, hpart, rfl, others, hothers, rfl⟩
    exact ⟨part :: others, List.Forall₂.cons hpart hothers, List.flatten_cons.symm⟩

theorem globs_iff_filled [DecidableEq α] : Globs star pattern text ↔ Filled star pattern text := by
  induction pattern generalizing text with
  | nil => exact filled_nil_iff.symm
  | cons c pattern ih =>
      rw [filled_cons_iff, Globs]
      split
      · next hstar =>
          constructor
          · rintro ⟨gap, rest, htext, hrest⟩
            exact ⟨gap, rest, .inl hstar, htext, ih.mp hrest⟩
          · rintro ⟨gap, rest, -, htext, hrest⟩
            exact ⟨gap, rest, htext, ih.mpr hrest⟩
      · next hplain =>
          constructor
          · rintro ⟨rest, htext, hrest⟩
            exact ⟨[c], rest, .inr rfl, htext, ih.mp hrest⟩
          · rintro ⟨part, rest, hpart, htext, hrest⟩
            rw [hpart.resolve_left hplain] at htext
            exact ⟨rest, htext, ih.mpr hrest⟩

/-- Matches a text with parts, each of them after a gap. -/
def GlobParts : List (List α) → List α → Prop
  | [], _ => True
  | [last], text => last <:+ text
  | part :: parts, text => ∃ gap rest, text = gap ++ part ++ rest ∧ GlobParts parts rest

theorem GlobParts.append (hparts : GlobParts parts text) (gap : List α) :
    GlobParts parts (gap ++ text) := by
  match parts, hparts with
  | [], _ => trivial
  | [last], hlast => exact hlast.trans (List.suffix_append gap text)
  | part :: next :: parts, ⟨inner, rest, htext, hrest⟩ =>
      refine ⟨gap ++ inner, rest, ?_, hrest⟩
      rw [htext, List.append_assoc, List.append_assoc, List.append_assoc]

/-- The first part, what follows it, and the gap before it. -/
theorem globParts_cons_iff (part : List α) (parts : List (List α)) (text : List α) :
    GlobParts (part :: parts) text ↔
      ∃ gap rest, text = gap ++ part ++ rest ∧ (parts = [] → rest = []) ∧ GlobParts parts rest := by
  cases parts with
  | nil =>
      constructor
      · rintro ⟨gap, rfl⟩
        exact ⟨gap, [], (List.append_nil _).symm, fun _ => rfl, trivial⟩
      · rintro ⟨gap, rest, rfl, hrest, -⟩
        rw [hrest rfl, List.append_nil]
        exact List.suffix_append gap part
  | cons next parts =>
      constructor
      · rintro ⟨gap, rest, htext, hrest⟩
        exact ⟨gap, rest, htext, fun hnil => absurd hnil (List.cons_ne_nil _ _), hrest⟩
      · rintro ⟨gap, rest, htext, -, hrest⟩
        exact ⟨gap, rest, htext, hrest⟩

/-- An empty part takes no place. -/
theorem globParts_nil_cons (hparts : parts ≠ []) (text : List α) :
    GlobParts ([] :: parts) text ↔ GlobParts parts text := by
  obtain ⟨next, rest, rfl⟩ := List.exists_cons_of_ne_nil hparts
  constructor
  · rintro ⟨gap, tail, rfl, htail⟩
    rw [List.append_nil]
    exact htail.append gap
  · intro htext
    exact ⟨[], text, rfl, htext⟩

/-- What follows the first occurrence of a part: what follows any other occurrence is a suffix. -/
structure FollowsFirst (part text rest : List α) : Prop where
  occurs : ∃ gap, text = gap ++ part ++ rest
  first : ∀ gap other, text = gap ++ part ++ other → other <:+ rest

theorem globParts_cons_iff_of_first {part : List α} (hparts : parts ≠ []) {rest : List α}
    (hfirst : FollowsFirst part text rest) :
    GlobParts (part :: parts) text ↔ GlobParts parts rest := by
  obtain ⟨next, more, rfl⟩ := List.exists_cons_of_ne_nil hparts
  constructor
  · rintro ⟨gap, tail, htext, htail⟩
    obtain ⟨skipped, rfl⟩ := hfirst.first gap tail htext
    exact htail.append skipped
  · intro hrest
    obtain ⟨gap, htext⟩ := hfirst.occurs
    exact ⟨gap, rest, htext, hrest⟩

/-! ## Parts of a pattern -/

section

variable [DecidableEq α]

theorem splitOn_star (pattern : List α) :
    (star :: pattern).splitOn star = [] :: pattern.splitOn star :=
  List.splitOn_append_cons_self [] pattern

theorem splitOn_plain {c : α} (hplain : c ≠ star) {first : List α}
    (hsplit : pattern.splitOn star = first :: parts) :
    (c :: pattern).splitOn star = (c :: first) :: parts := by
  rw [List.splitOn_cons_eq_if_modifyHead, if_neg (by simpa using hplain), hsplit]
  rfl

theorem exists_splitOn (star : α) (pattern : List α) :
    ∃ first parts, pattern.splitOn star = first :: parts :=
  List.exists_cons_of_ne_nil (List.splitOn_ne_nil star pattern)

/-- The last part, which may be empty. -/
theorem exists_last_part (hstar : star ∈ pattern) :
    ∃ front last, star ∉ last ∧ pattern = front ++ star :: last ∧
      pattern.splitOn star = front.splitOn star ++ [last] := by
  obtain ⟨before, after, hreverse, hplain⟩ :=
    List.eq_append_cons_of_mem (List.mem_reverse.mpr hstar)
  have hpattern : pattern = after.reverse ++ star :: before.reverse := by
    rw [← List.reverse_reverse pattern, hreverse, List.reverse_append, List.reverse_cons,
      List.append_assoc]
    rfl
  have hlast : star ∉ before.reverse := fun hmem => hplain (List.mem_reverse.mp hmem)
  refine ⟨after.reverse, before.reverse, hlast, hpattern, ?_⟩
  rw [hpattern, List.splitOn_append_cons_self, List.splitOn_eq_singleton hlast]

/-- A text matches a pattern if it starts with the first part and the others follow. -/
theorem globs_iff (pattern text : List α) {first : List α}
    (hsplit : pattern.splitOn star = first :: parts) :
    Globs star pattern text ↔
      ∃ rest, text = first ++ rest ∧ (parts = [] → rest = []) ∧ GlobParts parts rest := by
  induction pattern generalizing text first parts with
  | nil =>
      obtain ⟨rfl, rfl⟩ : first = [] ∧ parts = [] := by
        rw [List.splitOn_nil] at hsplit
        exact List.cons.inj hsplit.symm
      constructor
      · intro htext
        exact ⟨[], htext, fun _ => rfl, trivial⟩
      · rintro ⟨rest, rfl, hrest, -⟩
        rw [hrest rfl]
        rfl
  | cons c pattern ih =>
      obtain ⟨start, others, hothers⟩ := exists_splitOn star pattern
      by_cases hc : c = star
      · subst hc
        rw [splitOn_star, hothers] at hsplit
        cases hsplit
        have hempty : (∃ rest, text = [] ++ rest ∧ (start :: others = [] → rest = []) ∧
            GlobParts (start :: others) rest) ↔ GlobParts (start :: others) text := by
          constructor
          · rintro ⟨rest, rfl, -, hrest⟩
            exact hrest
          · intro htext
            exact ⟨text, rfl, fun hnil => absurd hnil (List.cons_ne_nil _ _), htext⟩
        rw [Globs, if_pos rfl, hempty, globParts_cons_iff]
        constructor
        · rintro ⟨gap, tail, rfl, htail⟩
          obtain ⟨rest, rfl, hends, hrest⟩ := (ih tail hothers).mp htail
          exact ⟨gap, rest, (List.append_assoc _ _ _).symm, hends, hrest⟩
        · rintro ⟨gap, rest, rfl, hends, hrest⟩
          exact ⟨gap, start ++ rest, List.append_assoc _ _ _,
            (ih _ hothers).mpr ⟨rest, rfl, hends, hrest⟩⟩
      · rw [splitOn_plain hc hothers] at hsplit
        cases hsplit
        rw [Globs, if_neg hc]
        constructor
        · rintro ⟨tail, rfl, htail⟩
          obtain ⟨rest, rfl, hends, hrest⟩ := (ih tail hothers).mp htail
          exact ⟨rest, rfl, hends, hrest⟩
        · rintro ⟨rest, rfl, hends, hrest⟩
          exact ⟨start ++ rest, rfl, (ih _ hothers).mpr ⟨rest, rfl, hends, hrest⟩⟩

end

end ParqDB.Foundations
