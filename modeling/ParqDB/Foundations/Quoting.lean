import ParqDB.Foundations.PercentDecoding

/-!
# Quoting

`quote` with no safe characters, and `unquote`, of `urllib.parse`.

**Results.**

* `unquote_eq_self_iff`: a text that is not quoted stays what it is if it has no escape, and
  only then.
* `Quotes`: a text that is made of quoted pieces and plain ones is read back piece by piece.
-/

namespace ParqDB.Foundations.Whatwg

/-- The characters that `quote` leaves alone. -/
def unreserved (c : Char) : Bool :=
  'a' ≤ c && c ≤ 'z' || 'A' ≤ c && c ≤ 'Z' || '0' ≤ c && c ≤ '9' || ['_', '.', '-', '~'].contains c

def quote (text : Text) : Text := percentEncode (fun c => !unreserved c) text

def unquote (text : Text) : Text := decodeReplace (percentBytes text)

/-! ## Quoted pieces -/

/-- What `unquote` makes of the path, whatever stands behind it. -/
def Quotes (path decoded : Text) : Prop :=
  ∀ rest, percentBytes (path ++ rest) = utf8Bytes decoded ++ percentBytes rest

namespace Quotes

variable {path other decoded otherDecoded : Text}

theorem nil : Quotes [] [] := fun _ => rfl

theorem append (hpath : Quotes path decoded) (hother : Quotes other otherDecoded) :
    Quotes (path ++ other) (decoded ++ otherDecoded) := by
  intro rest
  rw [List.append_assoc, hpath, hother, utf8Bytes_append, List.append_assoc]

theorem unquote_eq (hpath : Quotes path decoded) : unquote path = decoded := by
  have hbytes := hpath []
  rw [List.append_nil, percentBytes_nil, List.append_nil] at hbytes
  rw [unquote, hbytes, decodeReplace_utf8Bytes]

/-- A character other than the percent sign. -/
theorem singleton {c : Char} (hc : c ≠ '%') : Quotes [c] [c] := by
  intro rest
  rw [List.cons_append, List.nil_append, percentBytes_plain rest fun heq => absurd heq hc,
    utf8Bytes_cons, utf8Bytes_nil, List.append_nil]

/-- A text without percent signs. -/
theorem plain (hplain : '%' ∉ path) : Quotes path path := by
  induction path with
  | nil => exact nil
  | cons c path ih =>
      have hc : c ≠ '%' := fun heq => hplain (heq ▸ List.mem_cons_self)
      exact (singleton hc).append (ih fun hmember => hplain (List.mem_cons_of_mem _ hmember))

/-- Encoding is undone if the percent signs of the text are encoded too. -/
theorem percentEncode {set : Char → Bool} (hpercent : set '%' = true) (text : Text) :
    Quotes (percentEncode set text) text := by
  induction text with
  | nil => exact nil
  | cons c text ih =>
      have hfirst : Quotes
          (if set c = true then (String.utf8EncodeChar c).flatMap percentEncodeByte
            else [c]) [c] := by
        by_cases hset : set c = true
        · rw [if_pos hset]
          intro rest
          rw [percentBytes_bytes, utf8Bytes_cons, utf8Bytes_nil, List.append_nil]
        · rw [if_neg hset]
          refine singleton ?_
          rintro rfl
          exact hset hpercent
      rw [percentEncode_cons]
      exact hfirst.append ih

theorem quote (text : Text) : Quotes (quote text) text :=
  percentEncode (by decide) text

/-- Pieces with a separator between them. -/
theorem intercalate {separator : Text} (hseparator : '%' ∉ separator) (texts : List Text) :
    Quotes (separator.intercalate (texts.map Whatwg.quote)) (separator.intercalate texts) := by
  induction texts with
  | nil => exact nil
  | cons text texts ih =>
      cases texts with
      | nil => simpa [List.intercalate] using Quotes.quote text
      | cons next texts =>
          have hjoined := ((Quotes.quote text).append (plain hseparator)).append ih
          simpa [List.intercalate, List.intersperse] using hjoined

end Quotes

/-! ## Texts that are not quoted -/

theorem unquote_plain {c : Char} {rest : Text}
    (hplain : c = '%' → startsWithHexByte rest = false) :
    unquote (c :: rest) = c :: unquote rest := by
  rw [unquote, percentBytes_plain rest hplain, decodeReplace_utf8EncodeChar]
  rfl

theorem length_unquote_escape {high low : Char} {byte : UInt8} {rest : Text}
    (hbyte : hexByte high low = some byte) :
    (unquote ('%' :: high :: low :: rest)).length ≤ (unquote rest).length + 1 := by
  rw [unquote, percentBytes_escape rest hbyte]
  exact length_decodeReplace_cons byte (percentBytes rest)

theorem length_unquote_le (text : Text) : (unquote text).length ≤ text.length := by
  induction text using escape_induction with
  | nil => exact le_rfl
  | escape high low byte rest hbyte ih =>
      have hescape := @length_unquote_escape high low byte rest hbyte
      simp only [List.length_cons]
      omega
  | plain c rest hplain ih =>
      rw [unquote_plain hplain, List.length_cons, List.length_cons]
      omega

theorem length_unquote_lt {text : Text} (hescape : hasEscape text = true) :
    (unquote text).length < text.length := by
  induction text using escape_induction with
  | nil => cases hescape
  | escape high low byte rest hbyte ih =>
      have hfirst := @length_unquote_escape high low byte rest hbyte
      have hrest := length_unquote_le rest
      simp only [List.length_cons]
      omega
  | plain c rest hplain ih =>
      rw [hasEscape, Bool.or_eq_true, Bool.and_eq_true, decide_eq_true_eq] at hescape
      rcases hescape with ⟨hc, hpair⟩ | hrest
      · rw [hplain hc] at hpair
        cases hpair
      · have hlt := ih hrest
        rw [unquote_plain hplain, List.length_cons, List.length_cons]
        omega

/-- Only a text with an escape changes. -/
theorem unquote_eq_self_iff {text : Text} : unquote text = text ↔ hasEscape text = false := by
  constructor
  · intro hsame
    by_contra hescape
    have hlt := length_unquote_lt (Bool.not_eq_false _ ▸ hescape)
    rw [hsame] at hlt
    exact absurd hlt (lt_irrefl _)
  · intro hplain
    rw [unquote, percentBytes_eq_utf8Bytes hplain, decodeReplace_utf8Bytes]

end ParqDB.Foundations.Whatwg
