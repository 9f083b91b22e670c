import Mathlib.Data.Bool.AllAny
import ParqDB.Browser.StrictJsonLanguage

/-!
# What the strict parser of the manifest accepts

The parser always comes to an end (`ends`), and it returns exactly for the texts of its grammar
(`returns_iff`).  Its white space is that of a regular expression, which has more characters than
that of RFC 8259, and the member `__proto__` of an object is lost.

**Results.**  `parses_strictly_iff`: for a text, the parser does what RFC 8259 says, up to the
integers and the repeated keys, if and only if the text is not read with more white space and has
no key `__proto__`.
-/

namespace ParqDB.Browser.StrictJsonParser

open Foundations Foundations.StrictJson

variable {space : UInt16 → Bool} {own : Units → Bool} {length : ℕ}

/-! ## The parser comes to an end -/

theorem bind_outOfFuel {α β : Type} {outcome : Except ParseError α} {next : α → Except ParseError β}
    (hbind : (outcome >>= next) = .error .outOfFuel) :
    outcome = .error .outOfFuel ∨ ∃ found, outcome = .ok found ∧ next found = .error .outOfFuel := by
  cases outcome with
  | error error =>
      cases hbind
      exact Or.inl rfl
  | ok found => exact Or.inr ⟨found, rfl, hbind⟩

theorem length_skip (space : UInt16 → Bool) (input : Units) : (skip space input).length ≤ input.length :=
  (List.dropWhile_suffix space).length_le

variable {input rest : Units} {fuel : ℕ}

theorem length_consume {token : UInt16} (hconsume : consume token (skip space input) = some rest) :
    rest.length < input.length := by
  have hlength := length_skip space input
  rw [consume_eq_some.mp hconsume, List.length_cons] at hlength
  omega

theorem length_string {text : Units} (hstring : string input = .ok (text, rest)) :
    rest.length < input.length := by
  obtain ⟨body, rfl, -⟩ := string_eq_ok.mp hstring
  rw [List.length_append, List.length_cons]
  omega

variable {found : Json}

theorem length_value (hvalue : value space own length fuel input = .ok (found, rest)) :
    rest.length ≤ input.length := by
  obtain ⟨before, text, tree, rfl, -⟩ := (sound fuel).value _ _ _ hvalue
  rw [List.length_append, List.length_append]
  omega

theorem string_ne_outOfFuel (input : Units) : string input ≠ .error .outOfFuel := by
  unfold string
  split
  · exact fun hfuel => by cases hfuel
  · split
    · exact fun hfuel => by cases hfuel
    · exact fun hfuel => by cases hfuel

theorem integer_ne_outOfFuel (input : Units) : integer length input ≠ .error .outOfFuel := by
  unfold integer
  split
  · exact fun hfuel => by cases hfuel
  · split
    · exact fun hfuel => by cases hfuel
    · exact fun hfuel => by cases hfuel

/-- With this much fuel no call runs out of it. -/
structure Ends (space : UInt16 → Bool) (own : Units → Bool) (length fuel : ℕ) : Prop where
  value : ∀ input, 3 * input.length + 1 ≤ fuel →
    value space own length fuel input ≠ .error .outOfFuel
  object : ∀ input, 3 * input.length + 3 ≤ fuel →
    object space own length fuel input ≠ .error .outOfFuel
  entries : ∀ result keys input, 3 * input.length + 2 ≤ fuel →
    entries space own length fuel result keys input ≠ .error .outOfFuel
  array : ∀ input, 3 * input.length + 3 ≤ fuel →
    array space own length fuel input ≠ .error .outOfFuel
  items : ∀ result input, 3 * input.length + 2 ≤ fuel →
    items space own length fuel result input ≠ .error .outOfFuel

namespace Ends

variable (hends : Ends space own length fuel)

include hends

theorem value_succ (hfuel : 3 * input.length + 1 ≤ fuel + 1) :
    StrictJsonParser.value space own length (fuel + 1) input ≠ .error .outOfFuel := by
  intro hvalue
  have hskip := length_skip space input
  rw [StrictJsonParser.value] at hvalue
  split at hvalue
  · exact integer_ne_outOfFuel _ hvalue
  · next token rest hcons =>
      rw [hcons, List.length_cons] at hskip
      split at hvalue
      · rcases bind_outOfFuel hvalue with hobject | ⟨found, -, hfound⟩
        · exact hends.object rest (by omega) hobject
        · cases hfound
      · split at hvalue
        · rcases bind_outOfFuel hvalue with harray | ⟨found, -, hfound⟩
          · exact hends.array rest (by omega) harray
          · cases hfound
        · split at hvalue
          · rcases bind_outOfFuel hvalue with hstring | ⟨found, -, hfound⟩
            · exact string_ne_outOfFuel _ hstring
            · cases hfound
          · split at hvalue
            · cases hvalue
            · exact integer_ne_outOfFuel _ hvalue

theorem object_succ (hfuel : 3 * input.length + 3 ≤ fuel + 1) :
    StrictJsonParser.object space own length (fuel + 1) input ≠ .error .outOfFuel := by
  intro hobject
  have hskip := length_skip space input
  rw [StrictJsonParser.object] at hobject
  split at hobject
  · cases hobject
  · exact hends.entries _ _ _ (by omega) hobject

theorem entries_succ {result : List (Units × Json)} {keys : List Units}
    (hfuel : 3 * input.length + 2 ≤ fuel + 1) :
    StrictJsonParser.entries space own length (fuel + 1) result keys input ≠
      .error .outOfFuel := by
  intro hentries
  rw [StrictJsonParser.entries] at hentries
  split at hentries
  · cases hentries
  · next opened hquote =>
      have hopened := length_consume hquote
      rcases bind_outOfFuel hentries with hstring | ⟨⟨key, afterKey⟩, hkey, hkeyed⟩
      · exact string_ne_outOfFuel _ hstring
      · have hafterKey := length_string hkey
        dsimp only at hkeyed
        split at hkeyed
        · cases hkeyed
        · split at hkeyed
          · cases hkeyed
          · next afterColon hcolon =>
              have hafterColon := length_consume hcolon
              rcases bind_outOfFuel hkeyed with hvalue | ⟨⟨found, afterValue⟩, hvalue, hentry⟩
              · exact hends.value _ (by omega) hvalue
              · have hafterValue := length_value hvalue
                dsimp only at hentry
                split at hentry
                · cases hentry
                · split at hentry
                  · cases hentry
                  · next rest hcomma =>
                      have hrest := length_consume hcomma
                      exact hends.entries _ _ _ (by omega) hentry

theorem array_succ (hfuel : 3 * input.length + 3 ≤ fuel + 1) :
    StrictJsonParser.array space own length (fuel + 1) input ≠ .error .outOfFuel := by
  intro harray
  have hskip := length_skip space input
  rw [StrictJsonParser.array] at harray
  split at harray
  · cases harray
  · exact hends.items _ _ (by omega) harray

theorem items_succ {result : List Json} (hfuel : 3 * input.length + 2 ≤ fuel + 1) :
    StrictJsonParser.items space own length (fuel + 1) result input ≠ .error .outOfFuel := by
  intro hitems
  rw [StrictJsonParser.items] at hitems
  rcases bind_outOfFuel hitems with hvalue | ⟨⟨found, afterValue⟩, hvalue, hitem⟩
  · exact hends.value _ (by omega) hvalue
  · have hafterValue := length_value hvalue
    dsimp only at hitem
    split at hitem
    · cases hitem
    · split at hitem
      · cases hitem
      · next rest hcomma =>
          have hrest := length_consume hcomma
          exact hends.items _ _ (by omega) hitem

end Ends

theorem ends (fuel : ℕ) : Ends space own length fuel := by
  induction fuel with
  | zero =>
      refine ⟨?_, ?_, ?_, ?_, ?_⟩
      · intro input hfuel
        omega
      · intro input hfuel
        omega
      · intro result keys input hfuel
        omega
      · intro input hfuel
        omega
      · intro result input hfuel
        omega
  | succ fuel ih =>
      exact ⟨fun _ => ih.value_succ, fun _ => ih.object_succ, fun _ _ _ => ih.entries_succ,
        fun _ => ih.array_succ, fun _ _ => ih.items_succ⟩

/-! ## The language -/

variable {source : Units}

theorem parseWith_ends (hfuel : 3 * source.length + 1 ≤ fuel) :
    parseWith space own fuel source ≠ .error .outOfFuel := by
  intro hparse
  rcases bind_outOfFuel hparse with hvalue | ⟨⟨found, rest⟩, -, hrest⟩
  · exact (ends fuel).value source hfuel hvalue
  · dsimp only at hrest
    split at hrest
    · cases hrest
    · cases hrest

theorem isText_of_parseWith (hparse : parseWith space own fuel source = .ok found) :
    ∃ tree, IsText space source tree ∧ found = tree.owned own := by
  obtain ⟨⟨value, rest⟩, hvalue, hrest⟩ := bind_eq_ok.mp hparse
  obtain ⟨before, text, tree, rfl, hbefore, htree, rfl⟩ := (sound fuel).value _ _ _ hvalue
  dsimp only at hrest
  split at hrest
  · next hempty =>
      cases hrest
      obtain ⟨after, hafter, hafterSpace⟩ := skip_split space rest
      rw [hempty, List.append_nil] at hafter
      exact ⟨tree, ⟨before, text, rest, rfl, hbefore, htree, hafter ▸ hafterSpace⟩, rfl⟩
  · cases hrest

theorem parseWith_reaches (hspace : ∀ c, isMark c = true → space c = false) {source : Units}
    {tree : Json} (htext : IsText space source tree) (fuel : ℕ) :
    Reaches (parseWith space own fuel source) (tree.owned own) := by
  obtain ⟨before, text, after, rfl, hbefore, htree, hafter⟩ := htext
  have hdelimited : Delimited after := by
    have hnil : Delimited [] := fun c hc => by cases hc
    have happend := delimited_append hspace hafter hnil
    rwa [List.append_nil] at happend
  refine (value_reaches hspace htree fuel before after hbefore hdelimited).bind ?_
  have hskip : skip space after = [] := by
    have hall := @skip_append space after [] hafter (by simp)
    rwa [List.append_nil] at hall
  dsimp only
  rw [if_pos hskip]
  exact .ok

variable {other tree : Json}

/-- A text has one value. -/
theorem isText_unique (hspace : ∀ c, isMark c = true → space c = false)
    (htree : IsText space source tree) (hother : IsText space source other) : tree = other := by
  have hkept (value : Json) : value.owned (fun _ => true) = value :=
    (Json.owned_eq_self_iff value).mpr fun _ _ => rfl
  have hread (value : Json) (htext : IsText space source value) :
      parseWith space (fun _ => true) (3 * source.length + 1) source = .ok value := by
    have hreaches := @parseWith_reaches space (fun _ => true) hspace source value htext
      (3 * source.length + 1)
    rw [hkept] at hreaches
    exact hreaches.resolve_left (parseWith_ends le_rfl)
  exact Except.ok.inj ((hread tree htree).symm.trans (hread other hother))

/-! ## JavaScript and RFC 8259 -/

theorem jsSpace_of_isMark : ∀ c, isMark c = true → jsSpace c = false := by
  have hlist : ∀ c ∈ [0x09, 0x0A, 0x0B, 0x0C, 0x0D, 0x20, 0xA0, 0x1680, 0x2000, 0x2001, 0x2002,
      0x2003, 0x2004, 0x2005, 0x2006, 0x2007, 0x2008, 0x2009, 0x200A, 0x2028, 0x2029, 0x202F, 0x205F,
      0x3000, 0xFEFF], isMark c = false := List.all_iff_forall_prop.mp (by decide)
  intro c hc
  rw [jsSpace, ← Bool.not_eq_true, List.contains_iff_mem]
  intro hmem
  rw [hlist c hmem] at hc
  cases hc

theorem jsSpace_of_isJsonSpace : ∀ c, isJsonSpace c = true → jsSpace c = true := by
  have hlist : ∀ c ∈ [0x20, 0x09, 0x0A, 0x0D], jsSpace c = true :=
    List.all_iff_forall_prop.mp (by decide)
  intro c hc
  rw [isJsonSpace, List.contains_iff_mem] at hc
  exact hlist c hc

/-- The parser returns a value, if it has enough fuel. -/
def Returns (source : Units) (value : Json) : Prop := ∃ fuel, parse fuel source = .ok value

theorem returns_iff {value : Json} :
    Returns source value ↔ ∃ tree, IsText jsSpace source tree ∧ value = tree.owned ownKey := by
  constructor
  · rintro ⟨fuel, hparse⟩
    exact isText_of_parseWith hparse
  · rintro ⟨tree, htext, rfl⟩
    exact ⟨_, (parseWith_reaches jsSpace_of_isMark htext _).resolve_left (parseWith_ends le_rfl)⟩

theorem returns_unique {value : Json} (hvalue : Returns source value)
    (hother : Returns source other) : value = other := by
  obtain ⟨tree, htree, rfl⟩ := returns_iff.mp hvalue
  obtain ⟨tree', htree', rfl⟩ := returns_iff.mp hother
  rw [isText_unique jsSpace_of_isMark htree htree']

theorem ownKey_iff {key : Units} : ownKey key = true ↔ key ≠ protoKey := by
  rw [ownKey, decide_eq_true_eq]

theorem owned_ownKey_iff : tree.owned ownKey = tree ↔ protoKey ∉ tree.keys := by
  rw [Json.owned_eq_self_iff]
  constructor
  · exact fun hkeys hmem => ownKey_iff.mp (hkeys protoKey hmem) rfl
  · exact fun hproto key hkey => ownKey_iff.mpr fun heq => hproto (heq ▸ hkey)

/-- The parser comes to an end, and it returns exactly for the strict texts with the white space of
RFC 8259, and then all of their members. -/
structure ParsesStrictly (source : Units) : Prop where
  ends : ∃ enough, ∀ fuel, enough ≤ fuel → (∃ value, parse fuel source = .ok value) ∨
    ∃ message, parse fuel source = .error (.invalid message)
  returns : ∀ value, Returns source value ↔ IsText isJsonSpace source value

theorem parse_settles (source : Units) (fuel : ℕ) (hfuel : 3 * source.length + 1 ≤ fuel) :
    (∃ value, parse fuel source = .ok value) ∨
      ∃ message, parse fuel source = .error (.invalid message) := by
  cases hparse : parse fuel source with
  | ok value => exact Or.inl ⟨value, rfl⟩
  | error error =>
      cases error with
      | outOfFuel => exact absurd hparse (parseWith_ends hfuel)
      | invalid message => exact Or.inr ⟨message, rfl⟩

/-- The parser keeps to RFC 8259 if and only if no other white space stands between the tokens of
the text and no object has the key `__proto__`. -/
theorem parses_strictly_iff (source : Units) :
    ParsesStrictly source ↔
      ∀ tree, IsText jsSpace source tree →
        IsText isJsonSpace source tree ∧ protoKey ∉ tree.keys := by
  constructor
  · intro hstrict tree htext
    have hreturned := hstrict.returns (tree.owned ownKey)
    have hstrictText := hreturned.mp (returns_iff.mpr ⟨tree, htext, rfl⟩)
    have hsame : tree.owned ownKey = tree :=
      isText_unique jsSpace_of_isMark (hstrictText.mono jsSpace_of_isJsonSpace) htext
    rw [hsame] at hstrictText
    exact ⟨hstrictText, owned_ownKey_iff.mp hsame⟩
  · intro hplain
    refine ⟨⟨_, parse_settles source⟩, fun value => ?_⟩
    rw [returns_iff]
    constructor
    · rintro ⟨tree, htext, rfl⟩
      obtain ⟨hstrictText, hproto⟩ := hplain tree htext
      rwa [owned_ownKey_iff.mpr hproto]
    · intro hstrictText
      have htext := hstrictText.mono jsSpace_of_isJsonSpace
      exact ⟨value, htext, (owned_ownKey_iff.mpr (hplain value htext).2).symm⟩

/-! ## A lost member -/

/-- `\x7b"__proto__":1\x7d`. -/
def protoSource : Units := units "\x7b\"__proto__\":1\x7d"

theorem isText_protoSource :
    IsText isJsonSpace protoSource (.object [(protoKey, .integer 1)]) := by
  have hblank : IsSpace isJsonSpace [] := fun c hc => by cases hc
  have hkey : IsString (quotationMark :: (protoKey ++ [quotationMark])) protoKey :=
    ⟨protoKey, rfl, decodeBody_eq_some.mp (by decide +kernel)⟩
  have hone : IsInteger [0x31] 1 := by
    have hdigits : IsDigits [0x31] := .inr ⟨List.cons_ne_nil _ _, by decide,
      List.all_iff_forall_prop.mp (by decide)⟩
    exact .positive hdigits
  have hmembers := IsMembers.last hblank hkey hblank hblank (.integer hone (by decide)) hblank
  exact ⟨[], _, [], by decide +kernel, hblank, .object hmembers (by simp), hblank⟩

/-- The member is lost, and `exactKeys` finds no unknown field. -/
theorem proto_member_lost :
    IsText isJsonSpace protoSource (.object [(protoKey, .integer 1)]) ∧
    Returns protoSource (.object []) ∧ exactKeys [] [] = .ok () ∧ ¬ ParsesStrictly protoSource := by
  have hlost : ownKey protoKey = false := by decide
  have hreturns : Returns protoSource (.object []) := by
    refine returns_iff.mpr ⟨_, isText_protoSource.mono jsSpace_of_isJsonSpace, ?_⟩
    rw [Json.owned, ownedMembers, hlost, ownedMembers]
    rfl
  refine ⟨isText_protoSource, hreturns, rfl, fun hstrict => ?_⟩
  have hsame := returns_unique hreturns ((hstrict.returns _).mpr isText_protoSource)
  cases hsame

end ParqDB.Browser.StrictJsonParser
