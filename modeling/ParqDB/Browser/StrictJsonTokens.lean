import Mathlib.Data.List.DropRight
import ParqDB.Foundations.Outcome
import ParqDB.Foundations.StrictJson

/-!
# The strict JSON parser

`StrictJsonParser` of the browser (`browser/src/manifest.ts`).  The input is what is left of the
source from the position of the parser on.

* `space` is the class of white space that `space()` skips, and `own` tells the keys for which
  `result[key] = value` adds a member to an object literal (`jsSpace`, `ownKey`).
* The fuel bounds the depth of the calls.  A text never needs more than three calls for each of its
  code units (`value_settles`).
-/

namespace ParqDB.Browser

open Foundations Foundations.StrictJson

inductive ParseError
  | outOfFuel
  | invalid (message : Units)
  deriving DecidableEq

/-- `invalid`. -/
def invalid {α : Type} (message : Units) : Except ParseError α :=
  .error (.invalid (units "invalid ParqDB artifact manifest: " ++ message))

namespace StrictJsonParser

section

variable (space : UInt16 → Bool) (own : Units → Bool) (length : ℕ)

/-- `space`. -/
def skip (input : Units) : Units := input.dropWhile space

def consume (token : UInt16) : Units → Option Units
  | [] => none
  | c :: rest => if c = token then some rest else none

/-! ## Strings -/

/-- The scan for the closing quotation mark: what is before it, and what is behind it. -/
def scanString : Units → Option (Units × Units)
  | [] => none
  | c :: rest =>
      if c = quotationMark then some ([], rest)
      else if c = backslash then
        match rest with
        | [] => none
        | d :: rest => (scanString rest).map fun (body, behind) => (c :: d :: body, behind)
      else (scanString rest).map fun (body, behind) => (c :: body, behind)

/-- `JSON.parse` of the literal with this body. -/
def decodeBody : Units → Option Units
  | [] => some []
  | c :: rest =>
      if c = backslash then
        match rest with
        | [] => none
        | d :: rest =>
            if d = 0x75 then
              match rest with
              | c₁ :: c₂ :: c₃ :: c₄ :: rest => do
                  let code ← hexUnit c₁ c₂ c₃ c₄
                  let text ← decodeBody rest
                  some (code :: text)
              | _ => none
            else do
              let code ← shortEscape d
              let text ← decodeBody rest
              some (code :: text)
      else if c < 0x20 ∨ c = quotationMark then none
      else (decodeBody rest).map (c :: ·)

/-- `string`, behind the opening quotation mark. -/
def string (input : Units) : Except ParseError (Units × Units) :=
  match scanString input with
  | none => invalid (units "unterminated JSON string")
  | some (body, rest) =>
      match decodeBody body with
      | none => invalid (units "invalid JSON string")
      | some text => .ok (text, rest)

/-! ## Literals and integers -/

def literals : List (Units × Json) :=
  [(units "true", .bool true), (units "false", .bool false), (units "null", .null)]

def literal? (input : Units) : Option (Json × Units) :=
  literals.findSome? fun (text, value) =>
    if text.isPrefixOf input then some (value, input.drop text.length) else none

/-- `0|[1-9][0-9]*`. -/
def matchDigits : Units → Option (Units × Units)
  | [] => none
  | c :: rest =>
      if c = zero then some ([zero], rest)
      else if isDigit c then
        some ((c :: rest).takeWhile isDigit, (c :: rest).dropWhile isDigit)
      else none

/-- `^-?(?:0|[1-9][0-9]*)`, and the number that is matched. -/
def matchInteger (input : Units) : Option (ℤ × Units) :=
  match consume minus input with
  | some rest => (matchDigits rest).map fun (digits, rest) => (-(digitsValue digits : ℤ), rest)
  | none => (matchDigits input).map fun (digits, rest) => (digitsValue digits, rest)

/-- The end of `value`.  Beyond `maxSafeInteger` a double is not safe, however it is rounded. -/
def integer (input : Units) : Except ParseError (Json × Units) :=
  match matchInteger input with
  | none => invalid (units "unexpected JSON token at " ++
      units (toString (length - input.length)))
  | some (value, rest) =>
      if value.natAbs ≤ Foundations.StrictJson.maxSafeInteger then .ok (.integer value, rest)
      else invalid (units "JSON integer is not portable")

/-! ## Values -/

mutual

def value : ℕ → Units → Except ParseError (Json × Units)
  | 0, _ => .error .outOfFuel
  | fuel + 1, input =>
      match skip space input with
      | [] => integer length []
      | token :: rest =>
          if token = openBrace then do
            let (members, rest) ← object fuel rest
            .ok (.object members, rest)
          else if token = openBracket then do
            let (items, rest) ← array fuel rest
            .ok (.array items, rest)
          else if token = quotationMark then do
            let (text, rest) ← string rest
            .ok (.string text, rest)
          else
            match literal? (token :: rest) with
            | some found => .ok found
            | none => integer length (token :: rest)

def object : ℕ → Units → Except ParseError (List (Units × Json) × Units)
  | 0, _ => .error .outOfFuel
  | fuel + 1, input =>
      match consume closeBrace (skip space input) with
      | some rest => .ok ([], rest)
      | none => entries fuel [] [] (skip space input)

/-- The loop of `object`. -/
def entries : ℕ → List (Units × Json) → List Units → Units →
    Except ParseError (List (Units × Json) × Units)
  | 0, _, _, _ => .error .outOfFuel
  | fuel + 1, result, keys, input =>
      match consume quotationMark (skip space input) with
      | none => invalid (units "JSON object key must be a string")
      | some rest => do
          let (key, rest) ← string rest
          if key ∈ keys then invalid (units "duplicate JSON key " ++ key)
          else
            match consume colon (skip space rest) with
            | none => invalid (units "JSON object key requires a value")
            | some rest => do
                let (found, rest) ← value fuel rest
                let result := if own key then result ++ [(key, found)] else result
                match consume closeBrace (skip space rest) with
                | some rest => .ok (result, rest)
                | none =>
                    match consume comma (skip space rest) with
                    | none => invalid (units "JSON object entries require a comma")
                    | some rest => entries fuel result (keys ++ [key]) rest

def array : ℕ → Units → Except ParseError (List Json × Units)
  | 0, _ => .error .outOfFuel
  | fuel + 1, input =>
      match consume closeBracket (skip space input) with
      | some rest => .ok ([], rest)
      | none => items fuel [] (skip space input)

/-- The loop of `array`. -/
def items : ℕ → List Json → Units → Except ParseError (List Json × Units)
  | 0, _, _ => .error .outOfFuel
  | fuel + 1, result, input => do
      let (found, rest) ← value fuel input
      match consume closeBracket (skip space rest) with
      | some rest => .ok (result ++ [found], rest)
      | none =>
          match consume comma (skip space rest) with
          | none => invalid (units "JSON array entries require a comma")
          | some rest => items fuel (result ++ [found]) rest

end

/-- `parse`. -/
def parseWith (fuel : ℕ) (source : Units) : Except ParseError Json := do
  let (found, rest) ← value space own source.length fuel source
  if skip space rest = [] then .ok found
  else invalid (units "trailing JSON input")

end

/-! ## JavaScript -/

/-- The class `\s` of a regular expression. -/
def jsSpace (c : UInt16) : Bool :=
  [0x09, 0x0A, 0x0B, 0x0C, 0x0D, 0x20, 0xA0, 0x1680, 0x2000, 0x2001, 0x2002, 0x2003, 0x2004, 0x2005,
    0x2006, 0x2007, 0x2008, 0x2009, 0x200A, 0x2028, 0x2029, 0x202F, 0x205F, 0x3000, 0xFEFF].contains c

def protoKey : Units := units "__proto__"

/-- Assigning to `__proto__` calls the setter of `Object.prototype`: it may change the prototype of
an object literal, and adds no member. -/
def ownKey (key : Units) : Bool := key ≠ protoKey

def parse (fuel : ℕ) (source : Units) : Except ParseError Json :=
  parseWith jsSpace ownKey fuel source

end StrictJsonParser

/-- `exactKeys`, of an object with these members. -/
def exactKeys (members : List (Units × Json)) (expected : List Units) : Except ParseError Unit :=
  if members.length ≠ expected.length ∨ members.any fun member => !expected.contains member.1 then
    invalid (units "JSON object has unknown or missing fields")
  else .ok ()

end ParqDB.Browser

/-!
## The tokens of the strict JSON parser

What the parser reads in one piece: white space, strings, literals and integers.  Each of them is
read exactly if it is there, and a token is not longer than the grammar says.
-/

namespace ParqDB.Browser.StrictJsonParser

open Foundations Foundations.StrictJson

/-- A code unit that a value starts with. -/
def isStart (c : UInt16) : Bool :=
  isDigit c || [quotationMark, minus, openBracket, openBrace, 0x66, 0x6E, 0x74].contains c

/-- A code unit that means something between values. -/
def isMark (c : UInt16) : Bool :=
  isStart c || [comma, colon, closeBracket, closeBrace].contains c

/-- What the parser does with some text behind it: it runs out of fuel, or it gets there. -/
def Reaches {α : Type} (outcome : Except ParseError α) (result : α) : Prop :=
  outcome = .error .outOfFuel ∨ outcome = .ok result

namespace Reaches

variable {α β : Type} {outcome : Except ParseError α} {result : α}

theorem ok : Reaches (.ok result) result := Or.inr rfl

theorem bind (hfirst : Reaches outcome result) {next : α → Except ParseError β} {last : β}
    (hnext : Reaches (next result) last) : Reaches (outcome >>= next) last := by
  rcases hfirst with rfl | rfl
  · exact Or.inl rfl
  · exact hnext

end Reaches

/-! ## White space -/

section

variable {space : UInt16 → Bool}

theorem skip_skip (input : Units) : skip space (skip space input) = skip space input :=
  List.dropWhile_idempotent space input

theorem skip_split (space : UInt16 → Bool) (input : Units) :
    ∃ before, input = before ++ skip space input ∧ IsSpace space before := by
  refine ⟨input.takeWhile space, (List.takeWhile_append_dropWhile).symm, fun c hc => ?_⟩
  exact List.mem_takeWhile_imp hc

theorem skip_append {before text : Units} (hbefore : IsSpace space before)
    (htext : ∀ c, text.head? = some c → space c = false) : skip space (before ++ text) = text := by
  unfold skip
  rw [List.dropWhile_append_of_pos hbefore]
  cases text with
  | nil => rfl
  | cons c rest => rw [List.dropWhile_cons_of_neg (by simp [htext c rfl])]

theorem skip_cons_append {before rest : Units} {c : UInt16} (hbefore : IsSpace space before)
    (hc : space c = false) : skip space (before ++ c :: rest) = c :: rest :=
  skip_append hbefore fun _ hhead => Option.some.inj hhead ▸ hc

end

variable {input rest : Units} {c : UInt16} {body text : Units} {token : UInt16}

theorem consume_eq_some : consume token input = some rest ↔ input = token :: rest := by
  cases input with
  | nil => simp [consume]
  | cons c more =>
      rw [consume]
      split
      · next hc => simp [hc]
      · next hc => simp [hc]

theorem consume_cons (token : UInt16) (rest : Units) : consume token (token :: rest) = some rest :=
  consume_eq_some.mpr rfl

theorem consume_of_ne (hc : c ≠ token) (rest : Units) : consume token (c :: rest) = none := by
  rw [consume, if_neg hc]

/-! ## Strings -/

theorem scanString_quote (rest : Units) : scanString (quotationMark :: rest) = some ([], rest) := by
  rw [scanString.eq_def]
  rfl

theorem scanString_escape (d : UInt16) (rest : Units) :
    scanString (backslash :: d :: rest) =
      (scanString rest).map fun (body, behind) => (backslash :: d :: body, behind) := by
  rw [scanString.eq_def]
  rfl

theorem scanString_plain (hquote : c ≠ quotationMark) (hslash : c ≠ backslash) (rest : Units) :
    scanString (c :: rest) = (scanString rest).map fun (body, behind) => (c :: body, behind) := by
  rw [scanString.eq_def]
  simp only [hquote, hslash, if_false]

/-- The digits of an escape are no quotation marks and no backslashes. -/
theorem hexValue_ne_none (hc : hexValue c ≠ none) : c ≠ quotationMark ∧ c ≠ backslash := by
  refine ⟨?_, ?_⟩
  · rintro rfl
    exact hc (by decide)
  · rintro rfl
    exact hc (by decide)

theorem hexUnit_digits {c₁ c₂ c₃ c₄ d : UInt16} (hunit : hexUnit c₁ c₂ c₃ c₄ = some d) :
    hexValue c₁ ≠ none ∧ hexValue c₂ ≠ none ∧ hexValue c₃ ≠ none ∧ hexValue c₄ ≠ none := by
  refine ⟨?_, ?_, ?_, ?_⟩ <;> intro hnone <;> simp [hexUnit, hnone] at hunit

/-- The scan ends at the first quotation mark that is not escaped. -/
theorem scanString_append (hbody : IsBody body text) (rest : Units) :
    scanString (body ++ quotationMark :: rest) = some (body, rest) := by
  induction hbody with
  | nil => rw [List.nil_append, scanString_quote]
  | plain hlow hquote hslash hbody ih =>
      rw [List.cons_append, scanString_plain hquote hslash, ih]
      rfl
  | short hescape hbody ih =>
      rw [List.cons_append, List.cons_append, scanString_escape, ih]
      rfl
  | hex hescape hbody ih =>
      obtain ⟨h₁, h₂, h₃, h₄⟩ := hexUnit_digits hescape
      simp only [List.cons_append]
      rw [scanString_escape, scanString_plain (hexValue_ne_none h₁).1 (hexValue_ne_none h₁).2,
        scanString_plain (hexValue_ne_none h₂).1 (hexValue_ne_none h₂).2,
        scanString_plain (hexValue_ne_none h₃).1 (hexValue_ne_none h₃).2,
        scanString_plain (hexValue_ne_none h₄).1 (hexValue_ne_none h₄).2, ih]
      rfl

theorem scanString_split (hscan : scanString input = some (body, rest)) :
    input = body ++ quotationMark :: rest := by
  induction input using scanString.induct generalizing body with
  | case1 => cases hscan
  | case2 more =>
      rw [scanString_quote] at hscan
      cases hscan
      rfl
  | case3 => cases hscan
  | case4 d more _ ih =>
      rw [scanString_escape] at hscan
      obtain ⟨⟨inner, behind⟩, hinner, hsame⟩ := Option.map_eq_some_iff.mp hscan
      cases hsame
      rw [ih hinner]
      rfl
  | case5 c more hquote hslash ih =>
      rw [scanString_plain hquote hslash] at hscan
      obtain ⟨⟨inner, behind⟩, hinner, hsame⟩ := Option.map_eq_some_iff.mp hscan
      cases hsame
      rw [ih hinner]
      rfl

theorem decodeBody_hex (c₁ c₂ c₃ c₄ : UInt16) (rest : Units) :
    decodeBody (backslash :: 0x75 :: c₁ :: c₂ :: c₃ :: c₄ :: rest) = (do
      let code ← hexUnit c₁ c₂ c₃ c₄
      let text ← decodeBody rest
      some (code :: text)) := by
  rw [decodeBody.eq_def]
  rfl

theorem decodeBody_short (hc : c ≠ 0x75) (rest : Units) :
    decodeBody (backslash :: c :: rest) = (do
      let code ← shortEscape c
      let text ← decodeBody rest
      some (code :: text)) := by
  rw [decodeBody.eq_def]
  simp only [if_true, hc, if_false]

theorem decodeBody_plain (hslash : c ≠ backslash) (hplain : ¬ (c < 0x20 ∨ c = quotationMark))
    (rest : Units) : decodeBody (c :: rest) = (decodeBody rest).map (c :: ·) := by
  rw [decodeBody.eq_def]
  simp only [hslash, hplain, if_false]

/-- `JSON.parse` reads the strings of the grammar. -/
theorem decodeBody_eq_some : decodeBody body = some text ↔ IsBody body text := by
  constructor
  · intro hdecode
    induction body using decodeBody.induct generalizing text with
    | case1 =>
        cases hdecode
        exact .nil
    | case2 => cases hdecode
    | case3 c₁ c₂ c₃ c₄ rest ih =>
        rw [decodeBody_hex] at hdecode
        obtain ⟨code, hcode, hdecode⟩ := Option.bind_eq_some_iff.mp hdecode
        obtain ⟨more, hmore, hdecode⟩ := Option.bind_eq_some_iff.mp hdecode
        cases hdecode
        exact .hex hcode (ih hmore)
    | case4 rest hshort =>
        rw [decodeBody.eq_def] at hdecode
        simp only [if_true] at hdecode
        cases hdecode
    | case5 c rest hc ih =>
        rw [decodeBody_short hc] at hdecode
        obtain ⟨code, hcode, hdecode⟩ := Option.bind_eq_some_iff.mp hdecode
        obtain ⟨more, hmore, hdecode⟩ := Option.bind_eq_some_iff.mp hdecode
        cases hdecode
        exact .short hcode (ih hmore)
    | case6 c rest hslash hplain =>
        rw [decodeBody.eq_def] at hdecode
        simp only [hslash, hplain, if_false, if_true] at hdecode
        cases hdecode
    | case7 c rest hslash hplain ih =>
        rw [decodeBody_plain hslash hplain] at hdecode
        obtain ⟨more, hmore, hsame⟩ := Option.map_eq_some_iff.mp hdecode
        cases hsame
        rw [not_or, UInt16.not_lt] at hplain
        exact .plain hplain.1 hplain.2 hslash (ih hmore)
  · intro hbody
    induction hbody with
    | nil => rfl
    | plain hlow hquote hslash hbody ih =>
        have hplain := not_or.mpr ⟨UInt16.not_lt.mpr hlow, hquote⟩
        rw [decodeBody_plain hslash hplain, ih]
        rfl
    | short hescape hbody ih =>
        have hu : ∀ c d, shortEscape c = some d → c ≠ 0x75 := by
          rintro c d hc rfl
          cases hc
        rw [decodeBody_short (hu _ _ hescape), hescape, ih]
        rfl
    | hex hescape hbody ih =>
        rw [decodeBody_hex, hescape, ih]
        rfl

theorem string_eq_ok :
    string input = .ok (text, rest) ↔
      ∃ body, input = body ++ quotationMark :: rest ∧ IsBody body text := by
  unfold string
  constructor
  · intro hstring
    split at hstring
    · cases hstring
    · next body behind hscan =>
        split at hstring
        · cases hstring
        · next decoded hdecoded =>
            cases hstring
            exact ⟨body, scanString_split hscan, decodeBody_eq_some.mp hdecoded⟩
  · rintro ⟨body, rfl, hbody⟩
    rw [scanString_append hbody]
    dsimp only
    rw [decodeBody_eq_some.mpr hbody]

/-- Reading the literal of a string, from its opening quotation mark on. -/
theorem string_append {literal : Units} (hliteral : IsString literal text) (rest : Units) :
    ∃ more, literal ++ rest = quotationMark :: more ∧ string more = .ok (text, rest) := by
  obtain ⟨body, rfl, hbody⟩ := hliteral
  refine ⟨body ++ quotationMark :: rest, by simp, string_eq_ok.mpr ⟨body, rfl, hbody⟩⟩

/-! ## Integers -/

theorem matchDigits_zero (rest : Units) : matchDigits (zero :: rest) = some ([zero], rest) := by
  rw [matchDigits, if_pos rfl]

variable {digits : Units}

theorem matchDigits_split (hmatch : matchDigits input = some (digits, rest)) :
    IsDigits digits ∧ input = digits ++ rest := by
  unfold matchDigits at hmatch
  split at hmatch
  · cases hmatch
  · next c more =>
      split at hmatch
      · next hzero =>
          cases hmatch
          exact ⟨Or.inl rfl, by rw [hzero]; rfl⟩
      · next hzero =>
          split at hmatch
          · next hdigit =>
              cases hmatch
              refine ⟨Or.inr ⟨?_, ?_, fun d hd => List.mem_takeWhile_imp hd⟩,
                (List.takeWhile_append_dropWhile).symm⟩
              · rw [List.takeWhile_cons_of_pos hdigit]
                exact List.cons_ne_nil _ _
              · rw [List.takeWhile_cons_of_pos hdigit]
                exact fun hhead => hzero (Option.some.inj hhead)
          · cases hmatch

theorem matchDigits_append (hdigits : IsDigits digits)
    (hrest : ∀ c, rest.head? = some c → isDigit c = false) :
    matchDigits (digits ++ rest) = some (digits, rest) := by
  rcases hdigits with rfl | ⟨hne, hzero, hdigits⟩
  · exact matchDigits_zero rest
  · obtain ⟨c, more, rfl⟩ := List.exists_cons_of_ne_nil hne
    have hc : c ≠ zero := fun heq => hzero (congrArg some heq)
    have hdrop : rest.dropWhile isDigit = rest := by
      cases rest with
      | nil => rfl
      | cons d rest => rw [List.dropWhile_cons_of_neg (by simp [hrest d rfl])]
    have htake : rest.takeWhile isDigit = [] := by
      cases rest with
      | nil => rfl
      | cons d rest => rw [List.takeWhile_cons_of_neg (by simp [hrest d rfl])]
    rw [List.cons_append, matchDigits, if_neg hc, if_pos (hdigits c List.mem_cons_self),
      ← List.cons_append, List.takeWhile_append_of_pos hdigits, List.dropWhile_append_of_pos hdigits,
      hdrop, htake, List.append_nil]

theorem matchInteger_split {value : ℤ} (hmatch : matchInteger input = some (value, rest)) :
    ∃ text, input = text ++ rest ∧ IsInteger text value := by
  unfold matchInteger at hmatch
  split at hmatch
  · next more hminus =>
      obtain ⟨⟨digits, behind⟩, hdigits, hsame⟩ := Option.map_eq_some_iff.mp hmatch
      cases hsame
      obtain ⟨hvalid, rfl⟩ := matchDigits_split hdigits
      exact ⟨minus :: digits, consume_eq_some.mp hminus, .negative hvalid⟩
  · obtain ⟨⟨digits, behind⟩, hdigits, hsame⟩ := Option.map_eq_some_iff.mp hmatch
    cases hsame
    obtain ⟨hvalid, rfl⟩ := matchDigits_split hdigits
    exact ⟨digits, rfl, .positive hvalid⟩

theorem matchInteger_append {value : ℤ} (htext : IsInteger text value)
    (hrest : ∀ c, rest.head? = some c → isDigit c = false) :
    matchInteger (text ++ rest) = some (value, rest) := by
  unfold matchInteger
  cases htext with
  | positive hdigits =>
      obtain ⟨c, more, rfl, hc⟩ := hdigits.head
      have hminus : c ≠ minus := by
        rintro rfl
        exact absurd hc (by decide)
      have hmatched := matchDigits_append hdigits hrest
      rw [List.cons_append] at hmatched ⊢
      rw [consume_of_ne hminus]
      dsimp only
      rw [hmatched]
      rfl
  | negative hdigits =>
      rw [List.cons_append, consume_cons]
      dsimp only
      rw [matchDigits_append hdigits hrest]
      rfl

/-! ## Literals -/

theorem literal?_eq_some {value : Json} (hliteral : literal? input = some (value, rest)) :
    ∃ text, (text, value) ∈ literals ∧ input = text ++ rest := by
  obtain ⟨⟨text, found⟩, hmem, hfound⟩ := List.exists_of_findSome?_eq_some hliteral
  dsimp only at hfound
  split at hfound
  · next hprefix =>
      cases hfound
      obtain ⟨more, rfl⟩ := List.isPrefixOf_iff_prefix.mp hprefix
      exact ⟨text, hmem, by simp⟩
  · cases hfound

/-- Every literal starts with a letter. -/
theorem literal?_of_head (hc : c ≠ 0x74 ∧ c ≠ 0x66 ∧ c ≠ 0x6E) (rest : Units) :
    literal? (c :: rest) = none := by
  obtain ⟨ht, hf, hn⟩ := hc
  have hnone : ∀ text value, (text, value) ∈ literals → ¬ text.isPrefixOf (c :: rest) = true := by
    intro text value hmem hprefix
    rw [literals, List.mem_cons, List.mem_cons, List.mem_singleton] at hmem
    obtain ⟨more, hmore⟩ := List.isPrefixOf_iff_prefix.mp hprefix
    rcases hmem with hmem | hmem | hmem
    · cases hmem
      exact ht (List.cons.inj hmore).1.symm
    · cases hmem
      exact hf (List.cons.inj hmore).1.symm
    · cases hmem
      exact hn (List.cons.inj hmore).1.symm
  unfold literal?
  rw [List.findSome?_eq_none_iff]
  rintro ⟨text, value⟩ hmem
  dsimp only
  rw [if_neg (hnone text value hmem)]

end ParqDB.Browser.StrictJsonParser
