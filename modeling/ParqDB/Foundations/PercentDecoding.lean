import ParqDB.Foundations.UrlPaths

/-!
# Percent-decoding

The bytes that a text stands for once its escapes are read.

`percentBytes_eq_utf8Bytes`: the bytes are those of the text itself exactly if it has no escape.
-/

namespace ParqDB.Foundations.Whatwg

/-! ## Bytes of texts -/

def utf8Bytes (text : Text) : List UInt8 := text.flatMap String.utf8EncodeChar

@[simp]
theorem utf8Bytes_nil : utf8Bytes [] = [] := rfl

@[simp]
theorem utf8Bytes_cons (c : Char) (rest : Text) :
    utf8Bytes (c :: rest) = String.utf8EncodeChar c ++ utf8Bytes rest := rfl

@[simp]
theorem utf8Bytes_append (left right : Text) :
    utf8Bytes (left ++ right) = utf8Bytes left ++ utf8Bytes right := by
  simp [utf8Bytes]

/-! ## Escapes -/

def hexValue (c : Char) : Option ℕ :=
  if c.isDigit then some (c.toNat - 48)
  else if 'a' ≤ c ∧ c ≤ 'f' then some (c.toNat - 87)
  else if 'A' ≤ c ∧ c ≤ 'F' then some (c.toNat - 55)
  else none

/-- The byte that two hexadecimal digits spell. -/
def hexByte (high low : Char) : Option UInt8 := do
  let high ← hexValue high
  let low ← hexValue low
  some (UInt8.ofNat (16 * high + low))

def startsWithHexByte : Text → Bool
  | high :: low :: _ => (hexByte high low).isSome
  | _ => false

/-- A percent sign with two hexadecimal digits after it. -/
def hasEscape : Text → Bool
  | [] => false
  | c :: rest => c = '%' && startsWithHexByte rest || hasEscape rest

/-- The bytes of a text, escapes read. -/
def percentBytes : Text → List UInt8
  | '%' :: high :: low :: rest =>
      match hexByte high low with
      | some byte => byte :: percentBytes rest
      | none => String.utf8EncodeChar '%' ++ percentBytes (high :: low :: rest)
  | c :: rest => String.utf8EncodeChar c ++ percentBytes rest
  | [] => []

@[simp]
theorem percentBytes_nil : percentBytes [] = [] := rfl

theorem percentBytes_plain {c : Char} (rest : Text)
    (hplain : c = '%' → startsWithHexByte rest = false) :
    percentBytes (c :: rest) = String.utf8EncodeChar c ++ percentBytes rest := by
  by_cases hc : c = '%'
  · subst hc
    match rest, hplain rfl with
    | [], _ => rfl
    | [_], _ => rfl
    | high :: low :: rest, hpair =>
        have hnone : hexByte high low = none := by simpa [startsWithHexByte] using hpair
        rw [percentBytes, hnone]
  · rw [percentBytes]
    rintro high low rest' rfl
    exact absurd rfl hc

theorem percentBytes_escape {high low : Char} {byte : UInt8} (rest : Text)
    (hbyte : hexByte high low = some byte) :
    percentBytes ('%' :: high :: low :: rest) = byte :: percentBytes rest := by
  rw [percentBytes, hbyte]

/-- A text begins with an escape, or with a code point that stands for itself. -/
theorem escape_cases (c : Char) (rest : Text) :
    (∃ high low byte rest', c = '%' ∧ rest = high :: low :: rest' ∧
      hexByte high low = some byte) ∨ (c = '%' → startsWithHexByte rest = false) := by
  by_cases hpair : startsWithHexByte rest = true
  · by_cases hc : c = '%'
    · match rest, hpair with
      | high :: low :: rest', hpair =>
          obtain ⟨byte, hbyte⟩ := Option.isSome_iff_exists.mp hpair
          exact Or.inl ⟨high, low, byte, rest', hc, rfl, hbyte⟩
    · exact Or.inr fun heq => absurd heq hc
  · exact Or.inr fun _ => by simpa using hpair

/-- Induction along the escapes of a text. -/
theorem escape_induction {motive : Text → Prop} (nil : motive [])
    (escape : ∀ high low byte rest, hexByte high low = some byte → motive rest →
      motive ('%' :: high :: low :: rest))
    (plain : ∀ c rest, (c = '%' → startsWithHexByte rest = false) → motive rest →
      motive (c :: rest)) (text : Text) : motive text := by
  induction hlength : text.length using Nat.strong_induction_on generalizing text with
  | _ length ih =>
      subst hlength
      cases text with
      | nil => exact nil
      | cons c rest =>
          rcases escape_cases c rest with ⟨high, low, byte, rest', rfl, rfl, hbyte⟩ | hplain
          · exact escape high low byte rest' hbyte (ih _ (by simp; omega) rest' rfl)
          · exact plain c rest hplain (ih _ (by simp) rest rfl)

/-! ## Texts without escapes -/

theorem hasEscape_of_startsWithHexByte {rest : Text} (hpair : startsWithHexByte rest = true) :
    hasEscape ('%' :: rest) = true := by
  simp [hasEscape, hpair]

theorem percentBytes_eq_utf8Bytes {text : Text} (hescape : hasEscape text = false) :
    percentBytes text = utf8Bytes text := by
  induction text using escape_induction with
  | nil => rfl
  | escape high low byte rest hbyte ih =>
      rw [hasEscape_of_startsWithHexByte (by simp [startsWithHexByte, hbyte])] at hescape
      cases hescape
  | plain c rest hplain ih =>
      rw [hasEscape, Bool.or_eq_false_iff] at hescape
      rw [percentBytes_plain rest hplain, utf8Bytes_cons, ih hescape.2]

/-! ## Escapes that encoding writes -/

theorem hexByte_hexDigit (byte : UInt8) :
    hexByte (hexDigit (byte.toNat / 16)) (hexDigit (byte.toNat % 16)) = some byte := by
  have hdigit : ∀ value < 16, hexValue (hexDigit value) = some value := by decide
  have hbyte := byte.toNat_lt
  have hsum : 16 * (byte.toNat / 16) + byte.toNat % 16 = byte.toNat := Nat.div_add_mod _ 16
  rw [hexByte, hdigit _ (by omega), hdigit _ (by omega)]
  simp only [Option.bind_eq_bind, Option.bind_some]
  rw [hsum, UInt8.ofNat_toNat]

theorem percentBytes_bytes (bytes : List UInt8) (rest : Text) :
    percentBytes (bytes.flatMap percentEncodeByte ++ rest) = bytes ++ percentBytes rest := by
  induction bytes with
  | nil => rfl
  | cons byte bytes ih =>
      rw [List.flatMap_cons, List.append_assoc, percentEncodeByte]
      simp only [List.cons_append, List.nil_append]
      rw [percentBytes_escape _ (hexByte_hexDigit byte), ih]

theorem percentEncode_cons (set : Char → Bool) (c : Char) (rest : Text) :
    percentEncode set (c :: rest) =
      (if set c then (String.utf8EncodeChar c).flatMap percentEncodeByte else [c]) ++
        percentEncode set rest := rfl

/-!
## Decoding UTF-8 with replacement

Bytes as code points, with U+FFFD for what is not UTF-8: one for each longest beginning of an
encoded code point.

**Results.**

* `decodeReplace_utf8Bytes`: text is read back.
* `length_decodeReplace_cons`: one more byte in front makes at most one more code point.
-/

/-! ## Malformed sequences -/

def isContinuation (byte : UInt8) : Bool := 0x80 ≤ byte.toNat && byte.toNat ≤ 0xBF

/-- The bytes that may follow the first byte of a longer sequence. -/
def isSecond (first second : UInt8) : Bool :=
  isContinuation second && match first.toNat with
    | 0xE0 => 0xA0 ≤ second.toNat
    | 0xED => second.toNat ≤ 0x9F
    | 0xF0 => 0x90 ≤ second.toNat
    | 0xF4 => second.toNat ≤ 0x8F
    | _ => true

/-- How many bytes after the first one belong to the same malformed sequence. -/
def malformedRest (first : UInt8) : List UInt8 → ℕ
  | second :: rest =>
      if 0xE0 ≤ first.toNat ∧ first.toNat ≤ 0xEF ∧ isSecond first second then 1
      else if 0xF0 ≤ first.toNat ∧ first.toNat ≤ 0xF4 ∧ isSecond first second then
        match rest with
        | third :: _ => if isContinuation third then 2 else 1
        | [] => 1
      else 0
  | [] => 0

/-- What stands for a malformed sequence. -/
def replacement : Char := Char.ofNat 0xFFFD

/-- The first code point, and how many bytes after the first byte it takes. -/
def decodeFirst (first : UInt8) (rest : List UInt8) : Char × ℕ :=
  match (first :: rest).toByteArray.utf8DecodeChar? 0 with
  | some c => (c, c.utf8Size - 1)
  | none => (replacement, malformedRest first rest)

/-- The code points after some bytes that are skipped. -/
def decodeAfter : ℕ → List UInt8 → Text
  | _, [] => []
  | 0, first :: rest => (decodeFirst first rest).1 :: decodeAfter (decodeFirst first rest).2 rest
  | skipped + 1, _ :: rest => decodeAfter skipped rest

def decodeReplace (bytes : List UInt8) : Text := decodeAfter 0 bytes

/-! ## Text -/

theorem decodeAfter_append (skipped rest : List UInt8) :
    decodeAfter skipped.length (skipped ++ rest) = decodeReplace rest := by
  induction skipped with
  | nil => rfl
  | cons byte skipped ih => exact ih

/-- An encoded code point is read back. -/
theorem decodeReplace_utf8EncodeChar (c : Char) (rest : List UInt8) :
    decodeReplace (String.utf8EncodeChar c ++ rest) = c :: decodeReplace rest := by
  obtain ⟨first, more, hbytes⟩ :=
    List.exists_cons_of_ne_nil (String.utf8EncodeChar_ne_nil (c := c))
  have hdecoded : (first :: (more ++ rest)).toByteArray.utf8DecodeChar? 0 = some c := by
    rw [← List.cons_append, ← hbytes, List.toByteArray_append]
    exact ByteArray.utf8DecodeChar?_utf8EncodeChar_append
  have hlength : c.utf8Size - 1 = more.length := by
    rw [← String.length_utf8EncodeChar, hbytes, List.length_cons, Nat.add_sub_cancel]
  have hfirst : decodeFirst first (more ++ rest) = (c, more.length) := by
    rw [decodeFirst, hdecoded, ← hlength]
  rw [hbytes, List.cons_append, decodeReplace, decodeAfter, hfirst, decodeAfter_append]

theorem decodeReplace_append (text : Text) (rest : List UInt8) :
    decodeReplace (utf8Bytes text ++ rest) = text ++ decodeReplace rest := by
  induction text with
  | nil => rfl
  | cons c text ih =>
      rw [utf8Bytes_cons, List.append_assoc, decodeReplace_utf8EncodeChar, ih, List.cons_append]

/-- Text is read back. -/
theorem decodeReplace_utf8Bytes (text : Text) : decodeReplace (utf8Bytes text) = text := by
  have hread := decodeReplace_append text []
  rw [List.append_nil] at hread
  exact hread.trans (List.append_nil text)

/-! ## Lengths -/

/-- A byte that begins no sequence. -/
def Stray (byte : UInt8) : Prop := ¬ byte.IsUTF8FirstByte

variable {byte : UInt8}

theorem stray_of_isContinuation (hcontinuation : isContinuation byte = true) : Stray byte := by
  have hall : ∀ value : Fin 256, isContinuation (UInt8.ofNat value) = true →
      ¬ ((UInt8.ofNat value) &&& 0x80 = 0 ∨ (UInt8.ofNat value) &&& 0xe0 = 0xc0 ∨
        (UInt8.ofNat value) &&& 0xf0 = 0xe0 ∨ (UInt8.ofNat value) &&& 0xf8 = 0xf0) := by
    decide +kernel
  have hbyte := hall ⟨byte.toNat, byte.toNat_lt⟩
  rw [UInt8.ofNat_toNat] at hbyte
  exact hbyte hcontinuation

/-- The first byte of a malformed sequence that has more bytes. -/
theorem not_stray_of_between (hlow : 0xE0 ≤ byte.toNat) (hhigh : byte.toNat ≤ 0xF4) :
    ¬ Stray byte := by
  have hall : ∀ value : Fin 256, 0xE0 ≤ (UInt8.ofNat value).toNat →
      (UInt8.ofNat value).toNat ≤ 0xF4 →
      ((UInt8.ofNat value) &&& 0x80 = 0 ∨ (UInt8.ofNat value) &&& 0xe0 = 0xc0 ∨
        (UInt8.ofNat value) &&& 0xf0 = 0xe0 ∨ (UInt8.ofNat value) &&& 0xf8 = 0xf0) := by
    decide +kernel
  have hbyte := hall ⟨byte.toNat, byte.toNat_lt⟩
  rw [UInt8.ofNat_toNat] at hbyte
  exact not_not.mpr (hbyte hlow hhigh)

/-- A stray byte is replaced alone. -/
theorem decodeReplace_stray (hstray : Stray byte) (rest : List UInt8) :
    decodeReplace (byte :: rest) = replacement :: decodeReplace rest := by
  have hnone : (byte :: rest).toByteArray.utf8DecodeChar? 0 = none := by
    by_contra hsome
    have hfirst := ByteArray.isUTF8FirstByte_of_isSome_utf8DecodeChar?
      (Option.isSome_iff_ne_none.mpr hsome)
    rw [List.getElem_toByteArray] at hfirst
    exact hstray hfirst
  have halone : malformedRest byte rest = 0 := by
    cases rest with
    | nil => rfl
    | cons second rest =>
        rw [malformedRest.eq_def]
        dsimp only
        rw [if_neg, if_neg]
        · rintro ⟨hlow, hhigh, -⟩
          exact not_stray_of_between (by omega) hhigh hstray
        · rintro ⟨hlow, hhigh, -⟩
          exact not_stray_of_between hlow (by omega) hstray
  have hfirst : decodeFirst byte rest = (replacement, 0) := by
    rw [decodeFirst, hnone, halone]
  rw [decodeReplace, decodeAfter, hfirst]
  rfl

/-- Skipping stray bytes does not make more code points. -/
theorem length_decodeAfter_le {skipped : ℕ} {bytes : List UInt8}
    (hstray : ∀ byte ∈ bytes.take skipped, Stray byte) :
    (decodeAfter skipped bytes).length ≤ (decodeReplace bytes).length := by
  induction skipped generalizing bytes with
  | zero => exact le_rfl
  | succ skipped ih =>
      cases bytes with
      | nil => exact le_rfl
      | cons byte bytes =>
          rw [List.take_succ_cons] at hstray
          have hrest := ih fun other hother => hstray other (List.mem_cons_of_mem _ hother)
          rw [decodeReplace_stray (hstray byte List.mem_cons_self), List.length_cons]
          exact hrest.trans (Nat.le_succ _)

theorem stray_of_malformedRest (first : UInt8) (rest : List UInt8) :
    ∀ byte ∈ rest.take (malformedRest first rest), Stray byte := by
  intro byte hbyte
  cases rest with
  | nil => cases hbyte
  | cons second rest =>
      have hsecond : isSecond first second = true → Stray second := fun hsecond =>
        stray_of_isContinuation (Bool.and_eq_true_iff.mp hsecond).1
      rw [malformedRest.eq_def] at hbyte
      dsimp only at hbyte
      split at hbyte
      · rename_i hthree
        obtain rfl := List.mem_singleton.mp hbyte
        exact hsecond hthree.2.2
      · split at hbyte
        · rename_i hfour
          cases rest with
          | nil =>
              obtain rfl := List.mem_singleton.mp hbyte
              exact hsecond hfour.2.2
          | cons third rest =>
              dsimp only at hbyte
              split at hbyte
              · rename_i hthird
                rcases List.mem_cons.mp hbyte with rfl | hthirdByte
                · exact hsecond hfour.2.2
                · obtain rfl := List.mem_singleton.mp hthirdByte
                  exact stray_of_isContinuation hthird
              · obtain rfl := List.mem_singleton.mp hbyte
                exact hsecond hfour.2.2
        · cases hbyte

/-- The bytes that the first code point takes after its first byte are stray. -/
theorem stray_of_decodeFirst (first : UInt8) (rest : List UInt8) :
    ∀ byte ∈ rest.take (decodeFirst first rest).2, Stray byte := by
  cases hdecoded : (first :: rest).toByteArray.utf8DecodeChar? 0 with
  | some c =>
      have htaken : (decodeFirst first rest).2 = c.utf8Size - 1 := by
        rw [decodeFirst, hdecoded]
      obtain ⟨others, hothers⟩ := ByteArray.exists_of_utf8DecodeChar?_eq_some hdecoded
      have hbytes : first :: rest = String.utf8EncodeChar c ++ others.data.toList := by
        have hlists := congrArg (fun array => array.data.toList) hothers
        simpa using hlists
      have hrest : rest.take (c.utf8Size - 1) = (String.utf8EncodeChar c).tail := by
        obtain ⟨head, tail, hencoded⟩ :=
          List.exists_cons_of_ne_nil (String.utf8EncodeChar_ne_nil (c := c))
        have hlength : c.utf8Size - 1 = tail.length := by
          rw [← String.length_utf8EncodeChar, hencoded, List.length_cons, Nat.add_sub_cancel]
        rw [hencoded, List.cons_append] at hbytes
        rw [hencoded, List.tail_cons, (List.cons.inj hbytes).2, hlength, List.take_left]
      rw [htaken, hrest]
      intro byte hbyte
      obtain ⟨position, hposition, rfl⟩ := List.getElem_of_mem hbyte
      rw [List.getElem_tail, Stray, UInt8.isUTF8FirstByte_getElem_utf8EncodeChar]
      omega
  | none =>
      have htaken : (decodeFirst first rest).2 = malformedRest first rest := by
        rw [decodeFirst, hdecoded]
      rw [htaken]
      exact stray_of_malformedRest first rest

/-- One more byte makes at most one more code point. -/
theorem length_decodeReplace_cons (first : UInt8) (rest : List UInt8) :
    (decodeReplace (first :: rest)).length ≤ (decodeReplace rest).length + 1 := by
  rw [decodeReplace, decodeAfter, List.length_cons]
  exact Nat.succ_le_succ (length_decodeAfter_le (stray_of_decodeFirst first rest))

end ParqDB.Foundations.Whatwg
