import Mathlib.Data.List.Infix

/-!
# Path patterns

Patterns of literal texts and parameters, matched as backtracking regular expressions do: a
parameter takes as much as the pieces after it leave.

**Results.**

* `match_one`: a pattern with one parameter matches in one way.
* `match_two`: of two parameters the first takes as much as it can.
-/

namespace ParqDB.Foundations

inductive Piece (Name α : Type)
  | literal (text : List α)
  | parameter (name : Name)

variable {Name α : Type} [DecidableEq α]

/-- The parameters of a text with their values, if the pieces make up the text. -/
def matchPieces : List (Piece Name α) → List α → Option (List (Name × List α))
  | [], input => if input = [] then some [] else none
  | .literal text :: pieces, input =>
      if text <+: input then matchPieces pieces (input.drop text.length) else none
  | .parameter name :: pieces, input =>
      -- the longest value first
      (List.range (input.length + 1)).reverse.findSome? fun length =>
        (matchPieces pieces (input.drop length)).map ((name, input.take length) :: ·)

/-! ## Literals -/

theorem match_literal (text : List α) (pieces : List (Piece Name α)) (rest : List α) :
    matchPieces (.literal text :: pieces) (text ++ rest) = matchPieces pieces rest := by
  rw [matchPieces, if_pos (List.prefix_append text rest), List.drop_left]

theorem match_last {text input : List α} :
    matchPieces ([.literal text] : List (Piece Name α)) input =
      if input = text then some [] else none := by
  by_cases hprefix : text <+: input
  · obtain ⟨rest, rfl⟩ := hprefix
    rw [match_literal, matchPieces]
    by_cases hrest : rest = []
    · rw [if_pos hrest, if_pos (by rw [hrest, List.append_nil])]
    · rw [if_neg hrest, if_neg (by simpa using hrest)]
  · rw [matchPieces, if_neg hprefix, if_neg]
    rintro rfl
    exact hprefix (List.prefix_refl _)

/-- What is matched ends with the last literal. -/
theorem suffix_of_match {pieces : List (Piece Name α)} {text input : List α}
    {values : List (Name × List α)}
    (hmatch : matchPieces (pieces ++ [.literal text]) input = some values) : text <:+ input := by
  induction pieces generalizing input values with
  | nil =>
      rw [List.nil_append, match_last] at hmatch
      split at hmatch
      · rename_i heq
        exact heq ▸ List.suffix_refl _
      · cases hmatch
  | cons piece pieces ih =>
      cases piece with
      | literal other =>
          rw [List.cons_append, matchPieces] at hmatch
          split at hmatch
          · exact (ih hmatch).trans (List.drop_suffix _ _)
          · cases hmatch
      | parameter name =>
          rw [List.cons_append, matchPieces] at hmatch
          obtain ⟨length, -, hlength⟩ := List.exists_of_findSome?_eq_some hmatch
          obtain ⟨others, hothers, -⟩ := Option.map_eq_some_iff.mp hlength
          exact (ih hothers).trans (List.drop_suffix _ _)

/-! ## Parameters -/

/-- The first success of a search from above. -/
theorem findSome?_range_reverse {β : Type} {attempt : ℕ → Option β} {result : β} {length bound : ℕ}
    (hresult : attempt length = some result) (hlength : length ≤ bound)
    (hlonger : ∀ longer, length < longer → longer ≤ bound → attempt longer = none) :
    (List.range (bound + 1)).reverse.findSome? attempt = some result := by
  induction bound with
  | zero =>
      obtain rfl : length = 0 := by omega
      simp [hresult]
  | succ bound ih =>
      rw [List.range_succ, List.reverse_append, List.reverse_singleton, List.singleton_append,
        List.findSome?_cons]
      rcases Nat.lt_or_ge bound length with habove | hbelow
      · obtain rfl : length = bound + 1 := by omega
        rw [hresult]
      · rw [hlonger (bound + 1) (by omega) le_rfl]
        exact ih hbelow fun longer hlt hle => hlonger longer hlt (by omega)

/-- The longest value with which the rest is matched. -/
theorem match_parameter {name : Name} {pieces : List (Piece Name α)} {value rest : List α}
    {values : List (Name × List α)} (hrest : matchPieces pieces rest = some values)
    (hlonger : ∀ other remainder, other ++ remainder = value ++ rest →
      value.length < other.length → matchPieces pieces remainder = none) :
    matchPieces (.parameter name :: pieces) (value ++ rest) = some ((name, value) :: values) := by
  have hresult : (matchPieces pieces ((value ++ rest).drop value.length)).map
      ((name, (value ++ rest).take value.length) :: ·) = some ((name, value) :: values) := by
    rw [List.drop_left, List.take_left, hrest]
    rfl
  rw [matchPieces]
  refine findSome?_range_reverse hresult ?_ ?_
  · rw [List.length_append]
    omega
  · intro longer hlt hle
    have hnone := hlonger ((value ++ rest).take longer) ((value ++ rest).drop longer)
      (List.take_append_drop longer _) (by rwa [List.length_take_of_le hle])
    rw [hnone]
    rfl

/-- One parameter between two literals. -/
theorem match_one (name : Name) (before value after : List α) :
    matchPieces [.literal before, .parameter name, .literal after] (before ++ (value ++ after)) =
      some [(name, value)] := by
  rw [match_literal]
  refine match_parameter ?_ ?_
  · rw [match_last, if_pos rfl]
  · intro other remainder hsame hlonger
    rw [match_last, if_neg]
    rintro rfl
    have hlength := congrArg List.length hsame
    rw [List.length_append, List.length_append] at hlength
    omega

/-- There is no later place to divide at the separator. -/
def DividesLast (separator left right : List α) : Prop :=
  ∀ left' right', left' ++ separator ++ right' = left ++ separator ++ right →
    left'.length ≤ left.length

/-- What two parameters take is divided at the separator as late as possible. -/
theorem match_two (first second : Name) {before separator after left right : List α}
    (hlast : DividesLast separator left right) :
    matchPieces [.literal before, .parameter first, .literal separator, .parameter second,
        .literal after] (before ++ (left ++ (separator ++ (right ++ after)))) =
      some [(first, left), (second, right)] := by
  rw [match_literal]
  refine match_parameter ?_ ?_
  · rw [match_literal]
    have hone := match_one second [] right after
    rwa [match_literal] at hone
  · intro other remainder hsame hlonger
    by_contra hsome
    obtain ⟨values, hvalues⟩ := Option.ne_none_iff_exists'.mp hsome
    rw [matchPieces] at hvalues
    split at hvalues
    · rename_i hseparator
      obtain ⟨tail, rfl⟩ := hseparator
      rw [List.drop_left] at hvalues
      obtain ⟨right', rfl⟩ :=
        @suffix_of_match Name α _ [.parameter second] after tail values hvalues
      have hdivided : other ++ separator ++ right' = left ++ separator ++ right := by
        refine @List.append_cancel_right _ _ after _ ?_
        simpa using hsame
      exact absurd (hlast other right' hdivided) (not_le.mpr hlonger)
    · cases hvalues

/-- Without the separator there is no match. -/
theorem match_two_eq_none (first second : Name) {before separator after value : List α}
    (hseparator : ¬ separator <:+: value) :
    matchPieces [.literal before, .parameter first, .literal separator, .parameter second,
      .literal after] (before ++ (value ++ after)) = none := by
  by_contra hsome
  obtain ⟨values, hvalues⟩ := Option.ne_none_iff_exists'.mp hsome
  rw [match_literal, matchPieces] at hvalues
  obtain ⟨length, -, hlength⟩ := List.exists_of_findSome?_eq_some hvalues
  obtain ⟨others, hothers, -⟩ := Option.map_eq_some_iff.mp hlength
  rw [matchPieces] at hothers
  split at hothers
  · rename_i hprefix
    obtain ⟨tail, htail⟩ := hprefix
    rw [← htail, List.drop_left] at hothers
    obtain ⟨right, rfl⟩ := @suffix_of_match Name α _ [.parameter second] after tail others hothers
    refine hseparator ⟨(value ++ after).take length, right, ?_⟩
    refine @List.append_cancel_right _ _ after _ ?_
    have hsame := List.take_append_drop length (value ++ after)
    rw [← htail] at hsame
    simpa using hsame
  · cases hothers

omit [DecidableEq α] in
/-- There is always a last place. -/
theorem exists_dividesLast (separator left right : List α) :
    ∃ left' right', left' ++ separator ++ right' = left ++ separator ++ right ∧
      left.length ≤ left'.length ∧ DividesLast separator left' right' := by
  induction hroom : right.length using Nat.strong_induction_on generalizing left right with
  | _ room ih =>
      subst hroom
      by_cases hlast : DividesLast separator left right
      · exact ⟨left, right, rfl, le_rfl, hlast⟩
      · simp only [DividesLast, not_forall, not_le] at hlast
        obtain ⟨left', right', hsame, hlonger⟩ := hlast
        have hlength := congrArg List.length hsame
        simp only [List.length_append] at hlength
        obtain ⟨left'', right'', hsame', hle, hlast⟩ := ih right'.length (by omega) left' right' rfl
        exact ⟨left'', right'', hsame'.trans hsame, by omega, hlast⟩

end ParqDB.Foundations
