import ParqDB.Browser.StrictJsonTokens

/-!
# The language of the strict JSON parser

The parser returns exactly for the texts of the grammar, over its own class of white space, and
what it returns are the members for which an assignment adds one.

**Strategy.**

* `sound`: by induction on the fuel, what has been read is a text of the grammar.
* `value_reaches`: by induction on the derivation, the parser reads a text of the grammar and
  stops behind it, unless it runs out of fuel.
* `ends`: every call takes at least one code unit from the input within three calls, so that the
  fuel is enough.

White space is skipped between tokens only because no token starts with it (`hspace`).
-/

namespace ParqDB.Browser.StrictJsonParser

open Foundations Foundations.StrictJson

variable {space : UInt16 → Bool} {own : Units → Bool} {length : ℕ}

/-! ## What has been read -/

/-- Whatever is returned has been read from a text of the grammar. -/
structure Sound (space : UInt16 → Bool) (own : Units → Bool) (length fuel : ℕ) : Prop where
  value : ∀ input found rest, value space own length fuel input = .ok (found, rest) →
    ∃ before text tree, input = before ++ (text ++ rest) ∧ IsSpace space before ∧
      IsValue space text tree ∧ found = tree.owned own
  object : ∀ input members rest, object space own length fuel input = .ok (members, rest) →
    ∃ text tree, openBrace :: input = text ++ rest ∧ IsValue space text (.object tree) ∧
      members = ownedMembers own tree
  entries : ∀ result keys input members rest,
    entries space own length fuel result keys input = .ok (members, rest) →
    ∃ text tree, input = text ++ closeBrace :: rest ∧ IsMembers space text tree ∧
      members = result ++ ownedMembers own tree ∧ (tree.map Prod.fst).Nodup ∧
      ∀ key ∈ tree.map Prod.fst, key ∉ keys
  array : ∀ input found rest, array space own length fuel input = .ok (found, rest) →
    ∃ text tree, openBracket :: input = text ++ rest ∧ IsValue space text (.array tree) ∧
      found = ownedItems own tree
  items : ∀ result input found rest,
    items space own length fuel result input = .ok (found, rest) →
    ∃ text tree, input = text ++ closeBracket :: rest ∧ IsItems space text tree ∧
      found = result ++ ownedItems own tree

variable {found : Json} {input rest : Units}

theorem integer_split (hinteger : integer length input = .ok (found, rest)) :
    ∃ text tree, input = text ++ rest ∧ IsValue space text tree ∧ found = tree.owned own := by
  unfold integer at hinteger
  split at hinteger
  · cases hinteger
  · next value behind hmatch =>
      split at hinteger
      · next hsafe =>
          cases hinteger
          obtain ⟨text, rfl, htext⟩ := matchInteger_split hmatch
          exact ⟨text, _, rfl, .integer htext hsafe, rfl⟩
      · cases hinteger

theorem literal_split (hliteral : literal? input = some (found, rest)) :
    ∃ text tree, input = text ++ rest ∧ IsValue space text tree ∧ found = tree.owned own := by
  obtain ⟨text, hmem, rfl⟩ := literal?_eq_some hliteral
  rw [literals, List.mem_cons, List.mem_cons, List.mem_singleton] at hmem
  rcases hmem with hmem | hmem | hmem
  · cases hmem
    exact ⟨_, _, rfl, .true, rfl⟩
  · cases hmem
    exact ⟨_, _, rfl, .false, rfl⟩
  · cases hmem
    exact ⟨_, _, rfl, .null, rfl⟩

namespace Sound

variable {fuel : ℕ} (hsound : Sound space own length fuel)

include hsound

variable {members : List (Units × Json)}

theorem value_succ {found : Json}
    (hvalue : StrictJsonParser.value space own length (fuel + 1) input = .ok (found, rest)) :
    ∃ before text tree, input = before ++ (text ++ rest) ∧ IsSpace space before ∧
      IsValue space text tree ∧ found = tree.owned own := by
  obtain ⟨before, hinput, hbefore⟩ := skip_split space input
  have hread : ∃ text tree, skip space input = text ++ rest ∧ IsValue space text tree ∧
      found = tree.owned own := by
    rw [StrictJsonParser.value] at hvalue
    split at hvalue
    · next hskip =>
        rw [hskip]
        exact integer_split hvalue
    · next token more hskip =>
        rw [hskip]
        split at hvalue
        · next htoken =>
            obtain ⟨⟨members, behind⟩, hobject, hvalue⟩ := bind_eq_ok.mp hvalue
            cases hvalue
            obtain ⟨text, tree, htext, htree, rfl⟩ := hsound.object _ _ _ hobject
            exact ⟨text, _, by rw [htoken, htext], htree, rfl⟩
        · split at hvalue
          · next htoken =>
              obtain ⟨⟨items, behind⟩, harray, hvalue⟩ := bind_eq_ok.mp hvalue
              cases hvalue
              obtain ⟨text, tree, htext, htree, rfl⟩ := hsound.array _ _ _ harray
              exact ⟨text, _, by rw [htoken, htext], htree, rfl⟩
          · split at hvalue
            · next htoken =>
                obtain ⟨⟨string, behind⟩, hstring, hvalue⟩ := bind_eq_ok.mp hvalue
                cases hvalue
                obtain ⟨body, rfl, hbody⟩ := string_eq_ok.mp hstring
                refine ⟨quotationMark :: (body ++ [quotationMark]), .string string, ?_,
                  .string ⟨body, rfl, hbody⟩, rfl⟩
                rw [htoken]
                simp
            · split at hvalue
              · next hliteral =>
                  cases hvalue
                  exact literal_split hliteral
              · exact integer_split hvalue
  obtain ⟨text, tree, hskip, htree, hfound⟩ := hread
  exact ⟨before, text, tree, by rw [← hskip, ← hinput], hbefore, htree, hfound⟩

theorem object_succ
    (hobject : StrictJsonParser.object space own length (fuel + 1) input = .ok (members, rest)) :
    ∃ text tree, openBrace :: input = text ++ rest ∧ IsValue space text (.object tree) ∧
      members = ownedMembers own tree := by
  obtain ⟨before, hinput, hbefore⟩ := skip_split space input
  rw [StrictJsonParser.object] at hobject
  split at hobject
  · next behind hclose =>
      cases hobject
      rw [consume_eq_some.mp hclose] at hinput
      refine ⟨openBrace :: (before ++ [closeBrace]), [], ?_, .emptyObject hbefore, rfl⟩
      rw [hinput]
      simp
  · obtain ⟨text, tree, htext, htree, hmembers, hdistinct, -⟩ := hsound.entries _ _ _ _ _ hobject
    refine ⟨openBrace :: (before ++ text ++ [closeBrace]), tree, ?_, ?_, hmembers⟩
    · rw [hinput, htext]
      simp
    · exact .object (htree.space_append hbefore) hdistinct

theorem entries_succ {result : List (Units × Json)} {keys : List Units}
    (hentries : StrictJsonParser.entries space own length (fuel + 1) result keys input =
      .ok (members, rest)) :
    ∃ text tree, input = text ++ closeBrace :: rest ∧ IsMembers space text tree ∧
      members = result ++ ownedMembers own tree ∧ (tree.map Prod.fst).Nodup ∧
      ∀ key ∈ tree.map Prod.fst, key ∉ keys := by
  obtain ⟨before, hinput, hbefore⟩ := skip_split space input
  rw [StrictJsonParser.entries] at hentries
  split at hentries
  · cases hentries
  · next opened hquote =>
      rw [consume_eq_some.mp hquote] at hinput
      obtain ⟨⟨key, afterKey⟩, hkey, hkeyed⟩ := bind_eq_ok.mp hentries
      obtain ⟨body, rfl, hbody⟩ := string_eq_ok.mp hkey
      have hliteral : IsString (quotationMark :: (body ++ [quotationMark])) key := ⟨body, rfl, hbody⟩
      dsimp only at hkeyed
      split at hkeyed
      · cases hkeyed
      · next hfresh =>
          obtain ⟨middle, hmiddle, hmiddleSpace⟩ := skip_split space afterKey
          split at hkeyed
          · cases hkeyed
          · next afterColon hcolon =>
              rw [consume_eq_some.mp hcolon] at hmiddle
              obtain ⟨⟨found, afterValue⟩, hvalue, hentry⟩ := bind_eq_ok.mp hkeyed
              obtain ⟨between, text, tree, rfl, hbetween, htree, rfl⟩ := hsound.value _ _ _ hvalue
              obtain ⟨after, hafter, hafterSpace⟩ := skip_split space afterValue
              have hresult : (if own key = true then result ++ [(key, tree.owned own)] else result) =
                  result ++ ownedMembers own [(key, tree)] := by
                rw [ownedMembers, ownedMembers]
                split
                · rfl
                · rw [List.append_nil]
              dsimp only at hentry
              rw [hresult] at hentry
              split at hentry
              · next behind hclose =>
                  cases hentry
                  rw [consume_eq_some.mp hclose] at hafter
                  refine ⟨_, [(key, tree)], ?_,
                    .last hbefore hliteral hmiddleSpace hbetween htree hafterSpace, rfl,
                    List.nodup_singleton key, ?_⟩
                  · rw [hinput, hmiddle, hafter]
                    simp
                  · intro other hother
                    rw [List.mem_singleton.mp hother]
                    exact hfresh
              · split at hentry
                · cases hentry
                · next behind hcomma =>
                    rw [consume_eq_some.mp hcomma] at hafter
                    obtain ⟨more, others, rfl, hmore, rfl, hdistinct, hothers⟩ :=
                      hsound.entries _ _ _ _ _ hentry
                    refine ⟨_, (key, tree) :: others, ?_,
                      .more hbefore hliteral hmiddleSpace hbetween htree hafterSpace hmore, ?_, ?_, ?_⟩
                    · rw [hinput, hmiddle, hafter]
                      simp
                    · rw [List.append_assoc]
                      congr 1
                      rw [ownedMembers, ownedMembers, ownedMembers]
                      split <;> simp
                    · rw [List.map_cons, List.nodup_cons]
                      refine ⟨fun hmem => hothers key hmem ?_, hdistinct⟩
                      exact List.mem_append_right _ List.mem_cons_self
                    · intro other hother
                      rcases List.mem_cons.mp hother with rfl | hother
                      · exact hfresh
                      · exact fun hmem => hothers other hother (List.mem_append_left _ hmem)

theorem array_succ {found : List Json}
    (harray : StrictJsonParser.array space own length (fuel + 1) input = .ok (found, rest)) :
    ∃ text tree, openBracket :: input = text ++ rest ∧ IsValue space text (.array tree) ∧
      found = ownedItems own tree := by
  obtain ⟨before, hinput, hbefore⟩ := skip_split space input
  rw [StrictJsonParser.array] at harray
  split at harray
  · next behind hclose =>
      cases harray
      rw [consume_eq_some.mp hclose] at hinput
      refine ⟨openBracket :: (before ++ [closeBracket]), [], ?_, .emptyArray hbefore, rfl⟩
      rw [hinput]
      simp
  · obtain ⟨text, tree, htext, htree, hfound⟩ := hsound.items _ _ _ _ harray
    refine ⟨openBracket :: (before ++ text ++ [closeBracket]), tree, ?_, ?_, hfound⟩
    · rw [hinput, htext]
      simp
    · exact .array (htree.space_append hbefore)

theorem items_succ {result found : List Json}
    (hitems : StrictJsonParser.items space own length (fuel + 1) result input = .ok (found, rest)) :
    ∃ text tree, input = text ++ closeBracket :: rest ∧ IsItems space text tree ∧
      found = result ++ ownedItems own tree := by
  rw [StrictJsonParser.items] at hitems
  obtain ⟨⟨item, afterItem⟩, hvalue, hentry⟩ := bind_eq_ok.mp hitems
  obtain ⟨before, text, tree, rfl, hbefore, htree, rfl⟩ := hsound.value _ _ _ hvalue
  obtain ⟨after, hafter, hafterSpace⟩ := skip_split space afterItem
  dsimp only at hentry
  split at hentry
  · next behind hclose =>
      cases hentry
      rw [consume_eq_some.mp hclose] at hafter
      refine ⟨_, [tree], ?_, .last hbefore htree hafterSpace, rfl⟩
      rw [hafter]
      simp
  · split at hentry
    · cases hentry
    · next behind hcomma =>
        rw [consume_eq_some.mp hcomma] at hafter
        obtain ⟨more, others, rfl, hmore, rfl⟩ := hsound.items _ _ _ _ hentry
        refine ⟨_, tree :: others, ?_, .more hbefore htree hafterSpace hmore, ?_⟩
        · rw [hafter]
          simp
        · rw [List.append_assoc]
          rfl

end Sound

/-- What has been read is a text of the grammar, by induction on the fuel. -/
theorem sound (fuel : ℕ) : Sound space own length fuel := by
  induction fuel with
  | zero =>
      refine ⟨?_, ?_, ?_, ?_, ?_⟩
      · intro input found rest hvalue
        cases hvalue
      · intro input members rest hobject
        cases hobject
      · intro result keys input members rest hentries
        cases hentries
      · intro input found rest harray
        cases harray
      · intro result input found rest hitems
        cases hitems
  | succ fuel ih =>
      exact ⟨fun _ _ _ => ih.value_succ, fun _ _ _ => ih.object_succ,
        fun _ _ _ _ _ => ih.entries_succ, fun _ _ _ => ih.array_succ, fun _ _ _ _ => ih.items_succ⟩

/-! ## What is read -/

variable {text : Units}

theorem start_of_isValue {tree : Json} (htree : IsValue space text tree) :
    ∃ c rest, text = c :: rest ∧ isStart c = true := by
  cases htree with
  | null => exact ⟨_, _, rfl, by decide⟩
  | «false» => exact ⟨_, _, rfl, by decide⟩
  | «true» => exact ⟨_, _, rfl, by decide⟩
  | integer hinteger =>
      obtain ⟨c, rest, rfl, hc⟩ := hinteger.head
      refine ⟨c, rest, rfl, ?_⟩
      rw [Bool.or_eq_true, decide_eq_true_eq] at hc
      rcases hc with hc | rfl
      · rw [isStart, hc, Bool.true_or]
      · decide
  | string hstring =>
      obtain ⟨body, rfl, -⟩ := hstring
      exact ⟨_, _, rfl, by decide⟩
  | emptyArray => exact ⟨_, _, rfl, by decide⟩
  | array => exact ⟨_, _, rfl, by decide⟩
  | emptyObject => exact ⟨_, _, rfl, by decide⟩
  | object => exact ⟨_, _, rfl, by decide⟩

theorem literal?_append (hmem : (text, found) ∈ literals) (rest : Units) :
    literal? (text ++ rest) = some (found, rest) := by
  rw [literals, List.mem_cons, List.mem_cons, List.mem_singleton] at hmem
  rcases hmem with hmem | hmem | hmem
  · cases hmem
    rfl
  · cases hmem
    rfl
  · cases hmem
    rfl

/-- No digit follows. -/
def Delimited (rest : Units) : Prop := ∀ c, rest.head? = some c → isDigit c = false

theorem delimited_cons {c : UInt16} (hc : isDigit c = false) (rest : Units) :
    Delimited (c :: rest) := fun _ hhead => Option.some.inj hhead ▸ hc

section

variable (hspace : ∀ c, isMark c = true → space c = false)

include hspace

theorem space_of_isStart {c : UInt16} (hc : isStart c = true) : space c = false :=
  hspace c (by rw [isMark, hc, Bool.true_or])

theorem skip_value {before : Units} {tree : Json} (hbefore : IsSpace space before)
    (htree : IsValue space text tree) : skip space (before ++ (text ++ rest)) = text ++ rest := by
  obtain ⟨c, more, rfl, hc⟩ := start_of_isValue htree
  rw [List.cons_append]
  exact skip_cons_append hbefore (space_of_isStart hspace hc)

theorem isDigit_of_space {c : UInt16} (hc : space c = true) : isDigit c = false := by
  cases hdigit : isDigit c with
  | «false» => rfl
  | «true» =>
      rw [space_of_isStart hspace (by rw [isStart, hdigit, Bool.true_or])] at hc
      cases hc

theorem delimited_append {after : Units} (hafter : IsSpace space after) (hrest : Delimited rest) :
    Delimited (after ++ rest) := by
  cases after with
  | nil => exact hrest
  | cons c after =>
      intro d hd
      obtain rfl : c = d := Option.some.inj hd
      exact isDigit_of_space hspace (hafter c List.mem_cons_self)

theorem skip_items {tree : List Json} (htree : IsItems space text tree) (rest : Units) :
    ∃ c more, skip space (text ++ rest) = c :: more ∧ isStart c = true := by
  cases htree with
  | last hbefore hitem hafter =>
      obtain ⟨c, more, rfl, hc⟩ := start_of_isValue hitem
      simp only [List.append_assoc, List.cons_append]
      exact ⟨c, _, skip_cons_append hbefore (space_of_isStart hspace hc), hc⟩
  | more hbefore hitem hafter hrest =>
      obtain ⟨c, more, rfl, hc⟩ := start_of_isValue hitem
      simp only [List.append_assoc, List.cons_append]
      exact ⟨c, _, skip_cons_append hbefore (space_of_isStart hspace hc), hc⟩

theorem skip_members {tree : List (Units × Json)} (htree : IsMembers space text tree) (rest : Units) :
    ∃ more, skip space (text ++ rest) = quotationMark :: more := by
  have hquote : space quotationMark = false := hspace _ (by decide)
  cases htree with
  | last hbefore hkey =>
      obtain ⟨body, rfl, -⟩ := hkey
      simp only [List.append_assoc, List.cons_append]
      exact ⟨_, skip_cons_append hbefore hquote⟩
  | more hbefore hkey =>
      obtain ⟨body, rfl, -⟩ := hkey
      simp only [List.append_assoc, List.cons_append]
      exact ⟨_, skip_cons_append hbefore hquote⟩

end

theorem value_skip (fuel : ℕ) (input : Units) :
    value space own length fuel (skip space input) = value space own length fuel input := by
  cases fuel with
  | zero => rfl
  | succ fuel => rw [value, value, skip_skip]

theorem items_skip (fuel : ℕ) (result : List Json) (input : Units) :
    items space own length fuel result (skip space input) =
      items space own length fuel result input := by
  cases fuel with
  | zero => rfl
  | succ fuel => rw [items, items, value_skip]

theorem entries_skip (fuel : ℕ) (result : List (Units × Json)) (keys : List Units) (input : Units) :
    entries space own length fuel result keys (skip space input) =
      entries space own length fuel result keys input := by
  cases fuel with
  | zero => rfl
  | succ fuel => rw [entries, entries, skip_skip]

/-! ## The constructors of the grammar -/

section

variable (space own length)

def ReadsValue (text : Units) (tree : Json) : Prop :=
  ∀ fuel before rest, IsSpace space before → Delimited rest →
    Reaches (value space own length fuel (before ++ (text ++ rest))) (tree.owned own, rest)

def ReadsItems (text : Units) (tree : List Json) : Prop :=
  ∀ fuel result rest, Reaches (items space own length fuel result (text ++ closeBracket :: rest))
    (result ++ ownedItems own tree, rest)

def ReadsMembers (text : Units) (tree : List (Units × Json)) : Prop :=
  ∀ fuel result keys rest, (tree.map Prod.fst).Nodup → (∀ key ∈ tree.map Prod.fst, key ∉ keys) →
    Reaches (entries space own length fuel result keys (text ++ closeBrace :: rest))
      (result ++ ownedMembers own tree, rest)

end

section

variable (hspace : ∀ c, isMark c = true → space c = false)

include hspace

variable {literal : Units}

theorem readsValue_literal {tree : Json} (hmem : (text, tree) ∈ literals)
    (htree : IsValue space text tree) (howned : tree.owned own = tree) :
    ReadsValue space own length text tree := by
  intro fuel before rest hbefore hrest
  cases fuel with
  | zero => exact Or.inl rfl
  | succ fuel =>
      have hread := literal?_append hmem rest
      obtain ⟨c, more, hcons, hc⟩ : ∃ c more, text ++ rest = c :: more ∧ c ≠ openBrace ∧
          c ≠ openBracket ∧ c ≠ quotationMark := by
        rw [literals, List.mem_cons, List.mem_cons, List.mem_singleton] at hmem
        rcases hmem with hmem | hmem | hmem
        · cases hmem
          exact ⟨_, _, rfl, by decide⟩
        · cases hmem
          exact ⟨_, _, rfl, by decide⟩
        · cases hmem
          exact ⟨_, _, rfl, by decide⟩
      rw [value, skip_value hspace hbefore htree, howned]
      rw [hcons] at hread ⊢
      dsimp only
      rw [if_neg hc.1, if_neg hc.2.1, if_neg hc.2.2, hread]
      exact .ok

theorem readsValue_integer {number : ℤ} (hinteger : IsInteger text number)
    (hsafe : number.natAbs ≤ Foundations.StrictJson.maxSafeInteger) :
    ReadsValue space own length text (.integer number) := by
  intro fuel before rest hbefore hrest
  cases fuel with
  | zero => exact Or.inl rfl
  | succ fuel =>
      have hmatch := matchInteger_append hinteger hrest
      rw [value, skip_value hspace hbefore (.integer hinteger hsafe)]
      obtain ⟨c, more, rfl, hc⟩ := hinteger.head
      have hne : ∀ d, (isDigit d || d = minus) = false → c ≠ d := by
        rintro d hd rfl
        rw [hc] at hd
        cases hd
      rw [List.cons_append] at hmatch ⊢
      dsimp only
      rw [if_neg (hne _ (by decide)), if_neg (hne _ (by decide)), if_neg (hne _ (by decide)),
        literal?_of_head ⟨hne _ (by decide), hne _ (by decide), hne _ (by decide)⟩]
      dsimp only
      rw [integer, hmatch]
      dsimp only
      rw [if_pos hsafe]
      exact .ok

theorem readsValue_string (hstring : IsString literal text) :
    ReadsValue space own length literal (.string text) := by
  intro fuel before rest hbefore hrest
  cases fuel with
  | zero => exact Or.inl rfl
  | succ fuel =>
      obtain ⟨more, hmore, hread⟩ := string_append hstring rest
      rw [value, skip_value hspace hbefore (.string hstring), hmore]
      dsimp only
      rw [if_neg (by decide), if_neg (by decide), if_pos rfl, hread]
      exact .ok

variable {tree : List Json} {blank : Units} {item : Json}

/-- The value of an array, if its items are read. -/
theorem readsValue_array
    (htree : IsValue space (openBracket :: (text ++ [closeBracket])) (.array tree))
    (harray : ∀ fuel rest, Reaches (array space own length fuel (text ++ closeBracket :: rest))
      (ownedItems own tree, rest)) :
    ReadsValue space own length (openBracket :: (text ++ [closeBracket])) (.array tree) := by
  intro fuel before rest hbefore hrest
  cases fuel with
  | zero => exact Or.inl rfl
  | succ fuel =>
      rw [value, skip_value hspace hbefore htree, List.cons_append]
      dsimp only
      rw [if_neg (by decide), if_pos rfl, List.append_assoc, List.singleton_append]
      exact (harray fuel rest).bind .ok

theorem readsValue_object {tree : List (Units × Json)}
    (htree : IsValue space (openBrace :: (text ++ [closeBrace])) (.object tree))
    (hobject : ∀ fuel rest, Reaches (object space own length fuel (text ++ closeBrace :: rest))
      (ownedMembers own tree, rest)) :
    ReadsValue space own length (openBrace :: (text ++ [closeBrace])) (.object tree) := by
  intro fuel before rest hbefore hrest
  cases fuel with
  | zero => exact Or.inl rfl
  | succ fuel =>
      rw [value, skip_value hspace hbefore htree, List.cons_append]
      dsimp only
      rw [if_pos rfl, List.append_assoc, List.singleton_append]
      exact (hobject fuel rest).bind .ok

theorem array_blank (hblank : IsSpace space blank) (fuel : ℕ) (rest : Units) :
    Reaches (array space own length fuel (blank ++ closeBracket :: rest)) ([], rest) := by
  cases fuel with
  | zero => exact Or.inl rfl
  | succ fuel =>
      rw [array, skip_cons_append hblank (hspace _ (by decide)), consume_cons]
      exact .ok

theorem object_blank (hblank : IsSpace space blank) (fuel : ℕ) (rest : Units) :
    Reaches (object space own length fuel (blank ++ closeBrace :: rest)) ([], rest) := by
  cases fuel with
  | zero => exact Or.inl rfl
  | succ fuel =>
      rw [object, skip_cons_append hblank (hspace _ (by decide)), consume_cons]
      exact .ok

theorem array_of_items (htree : IsItems space text tree)
    (hitems : ReadsItems space own length text tree) (fuel : ℕ) (rest : Units) :
    Reaches (array space own length fuel (text ++ closeBracket :: rest))
      (ownedItems own tree, rest) := by
  cases fuel with
  | zero => exact Or.inl rfl
  | succ fuel =>
      obtain ⟨c, more, hskip, hc⟩ := skip_items hspace htree (closeBracket :: rest)
      have hne : c ≠ closeBracket := by
        rintro rfl
        exact absurd hc (by decide)
      rw [array, items_skip, hskip, consume_of_ne hne]
      exact hitems fuel [] rest

theorem object_of_members {tree : List (Units × Json)} (htree : IsMembers space text tree)
    (hmembers : ReadsMembers space own length text tree) (hdistinct : (tree.map Prod.fst).Nodup)
    (fuel : ℕ) (rest : Units) :
    Reaches (object space own length fuel (text ++ closeBrace :: rest))
      (ownedMembers own tree, rest) := by
  cases fuel with
  | zero => exact Or.inl rfl
  | succ fuel =>
      obtain ⟨more, hskip⟩ := skip_members hspace htree (closeBrace :: rest)
      rw [object, entries_skip, hskip, consume_of_ne (by decide)]
      exact hmembers fuel [] [] rest hdistinct (by simp)

variable {after before between key : Units} {member : Json} {middle : Units}

theorem readsItems_last (hbefore : IsSpace space before) (hafter : IsSpace space after)
    (hitem : ReadsValue space own length text item) :
    ReadsItems space own length (before ++ (text ++ after)) [item] := by
  intro fuel result rest
  cases fuel with
  | zero => exact Or.inl rfl
  | succ fuel =>
      rw [items, List.append_assoc, List.append_assoc]
      refine (hitem fuel before _ hbefore (delimited_append hspace hafter (delimited_cons (by decide) _))).bind ?_
      dsimp only
      rw [skip_cons_append hafter (hspace _ (by decide)), consume_cons]
      exact .ok

theorem readsItems_more {others : List Json} (hbefore : IsSpace space before)
    (hafter : IsSpace space after) (hitem : ReadsValue space own length text item)
    (hothers : ReadsItems space own length rest others) :
    ReadsItems space own length (before ++ (text ++ (after ++ comma :: rest))) (item :: others) := by
  intro fuel result behind
  cases fuel with
  | zero => exact Or.inl rfl
  | succ fuel =>
      simp only [List.append_assoc, List.cons_append]
      rw [items]
      refine (hitem fuel before _ hbefore (delimited_append hspace hafter (delimited_cons (by decide) _))).bind ?_
      dsimp only
      rw [skip_cons_append hafter (hspace _ (by decide)), consume_of_ne (by decide), consume_cons]
      dsimp only
      have hrest := hothers fuel (result ++ [item.owned own]) behind
      rw [List.append_assoc, List.singleton_append] at hrest
      exact hrest

/-- A member, and whatever comes behind it. -/
theorem entries_member {tail : Units} {mark : UInt16} {result : List (Units × Json)}
    {keys : List Units} {last : List (Units × Json) × Units} (fuel : ℕ)
    (hbefore : IsSpace space before) (hkey : IsString literal key) (hmiddle : IsSpace space middle)
    (hbetween : IsSpace space between) (hafter : IsSpace space after)
    (hmember : ReadsValue space own length text member) (hfresh : key ∉ keys)
    (hmark : isMark mark = true ∧ isDigit mark = false)
    (hlast : Reaches (match consume closeBrace (mark :: tail) with
      | some rest => .ok (result ++ ownedMembers own [(key, member)], rest)
      | none =>
          match consume comma (mark :: tail) with
          | none => invalid (units "JSON object entries require a comma")
          | some rest => entries space own length fuel
              (result ++ ownedMembers own [(key, member)]) (keys ++ [key]) rest) last) :
    Reaches (entries space own length (fuel + 1) result keys (before ++ (literal ++
      (middle ++ colon :: (between ++ (text ++ (after ++ mark :: tail))))))) last := by
  have hresult : (if own key = true then result ++ [(key, member.owned own)] else result) =
      result ++ ownedMembers own [(key, member)] := by
    rw [ownedMembers, ownedMembers]
    split
    · rfl
    · rw [List.append_nil]
  obtain ⟨more, hmore, hread⟩ := string_append hkey
    (middle ++ colon :: (between ++ (text ++ (after ++ mark :: tail))))
  rw [hmore, entries, skip_cons_append hbefore (hspace _ (by decide)), consume_cons]
  dsimp only
  rw [hread, ok_bind]
  dsimp only
  rw [if_neg hfresh, skip_cons_append hmiddle (hspace _ (by decide)), consume_cons]
  dsimp only
  refine (hmember fuel between _ hbetween (delimited_append hspace hafter (delimited_cons hmark.2 _))).bind ?_
  dsimp only
  rw [hresult, skip_cons_append hafter (hspace _ hmark.1)]
  exact hlast

theorem readsMembers_last (hbefore : IsSpace space before) (hkey : IsString literal key)
    (hmiddle : IsSpace space middle) (hbetween : IsSpace space between)
    (hafter : IsSpace space after) (hmember : ReadsValue space own length text member) :
    ReadsMembers space own length
      (before ++ (literal ++ (middle ++ colon :: (between ++ (text ++ after))))) [(key, member)] := by
  intro fuel result keys rest hdistinct hfresh
  cases fuel with
  | zero => exact Or.inl rfl
  | succ fuel =>
      simp only [List.append_assoc, List.cons_append]
      refine entries_member hspace fuel hbefore hkey hmiddle hbetween hafter hmember
        (hfresh key (by simp)) (by decide) ?_
      rw [consume_cons]
      exact .ok

theorem readsMembers_more {others : List (Units × Json)} (hbefore : IsSpace space before)
    (hkey : IsString literal key) (hmiddle : IsSpace space middle)
    (hbetween : IsSpace space between) (hafter : IsSpace space after)
    (hmember : ReadsValue space own length text member)
    (hothers : ReadsMembers space own length rest others) :
    ReadsMembers space own length (before ++ (literal ++ (middle ++ colon ::
      (between ++ (text ++ (after ++ comma :: rest)))))) ((key, member) :: others) := by
  intro fuel result keys behind hdistinct hfresh
  rw [List.map_cons, List.nodup_cons] at hdistinct
  rw [List.map_cons, List.forall_mem_cons] at hfresh
  cases fuel with
  | zero => exact Or.inl rfl
  | succ fuel =>
      simp only [List.append_assoc, List.cons_append]
      refine entries_member hspace fuel hbefore hkey hmiddle hbetween hafter hmember hfresh.1
        (by decide) ?_
      rw [consume_of_ne (by decide), consume_cons]
      dsimp only
      have hmembers : ownedMembers own ((key, member) :: others) =
          ownedMembers own [(key, member)] ++ ownedMembers own others := by
        rw [ownedMembers, ownedMembers, ownedMembers]
        split <;> simp
      rw [hmembers, ← List.append_assoc]
      refine hothers fuel _ _ behind hdistinct.2 fun other hother hmem => ?_
      rcases List.mem_append.mp hmem with hmem | hmem
      · exact hfresh.2 other hother hmem
      · rw [List.mem_singleton.mp hmem] at hother
        exact hdistinct.1 hother

mutual

/-- The parser reads the values of the grammar, by induction on the derivation. -/
theorem value_reaches {text : Units} {tree : Json} :
    IsValue space text tree → ReadsValue space own length text tree
  | .null => readsValue_literal hspace (by simp [literals]) .null rfl
  | .false => readsValue_literal hspace (by simp [literals]) .false rfl
  | .true => readsValue_literal hspace (by simp [literals]) .true rfl
  | .integer hinteger hsafe => readsValue_integer hspace hinteger hsafe
  | .string hstring => readsValue_string hspace hstring
  | .emptyArray hblank =>
      readsValue_array hspace (.emptyArray hblank) (array_blank hspace hblank)
  | .array hitems => readsValue_array hspace (.array hitems)
      (array_of_items hspace hitems (items_reaches hitems))
  | .emptyObject hblank =>
      readsValue_object hspace (.emptyObject hblank) (object_blank hspace hblank)
  | .object hmembers hdistinct => readsValue_object hspace (.object hmembers hdistinct)
      (object_of_members hspace hmembers (members_reach hmembers) hdistinct)

theorem items_reaches {text : Units} {tree : List Json} :
    IsItems space text tree → ReadsItems space own length text tree
  | .last hbefore hitem hafter => readsItems_last hspace hbefore hafter (value_reaches hitem)
  | .more hbefore hitem hafter hrest =>
      readsItems_more hspace hbefore hafter (value_reaches hitem) (items_reaches hrest)

theorem members_reach {text : Units} {tree : List (Units × Json)} :
    IsMembers space text tree → ReadsMembers space own length text tree
  | .last hbefore hkey hmiddle hbetween hvalue hafter =>
      readsMembers_last hspace hbefore hkey hmiddle hbetween hafter (value_reaches hvalue)
  | .more hbefore hkey hmiddle hbetween hvalue hafter hrest =>
      readsMembers_more hspace hbefore hkey hmiddle hbetween hafter (value_reaches hvalue)
        (members_reach hrest)

end

end

end ParqDB.Browser.StrictJsonParser
