import Mathlib.Data.Bool.AllAny
import ParqDB.Foundations.Outcome
import ParqDB.Foundations.UrlReferences

/-!
# Reading the text of a URL

The parser of URLs ignores some code points of a text, and ends the path at others.  There is none
of them in a scheme and in a normal path.  The authority of a `file` URL is a host at most
(`fileState_local`).
-/

namespace ParqDB.Foundations.Whatwg

variable {hosts : HostParser}

/-! ## Texts without ignored code points -/

variable {text : Text} {c : Char} {scheme : Text}

theorem not_isControlOrSpace (htext : ∀ c ∈ text, 0x20 < c.toNat) :
    ∀ c ∈ text, isControlOrSpace c = false := by
  intro c hc
  have hlarge := htext c hc
  simp [isControlOrSpace, hlarge]

theorem dropWhile_isControlOrSpace (htext : ∀ c ∈ text, 0x20 < c.toNat) :
    text.dropWhile isControlOrSpace = text := by
  cases text with
  | nil => rfl
  | cons c rest =>
      rw [List.dropWhile_cons_of_neg]
      simp [not_isControlOrSpace htext c List.mem_cons_self]

theorem not_isTabOrNewline (hc : 0x20 < c.toNat) : isTabOrNewline c = false := by
  rw [isTabOrNewline, ← Bool.not_eq_true, List.contains_iff_mem]
  intro hmem
  simp only [List.mem_cons, List.not_mem_nil, or_false] at hmem
  rcases hmem with rfl | rfl | rfl <;> exact absurd hc (by decide)

theorem filter_isTabOrNewline (htext : ∀ c ∈ text, 0x20 < c.toNat) :
    text.filter (!isTabOrNewline ·) = text := by
  rw [List.filter_eq_self]
  intro c hc
  rw [not_isTabOrNewline (htext c hc)]
  rfl

theorem clean_eq_self (htext : ∀ c ∈ text, 0x20 < c.toNat) : clean text = text := by
  have hright : text.rdropWhile isControlOrSpace = text := by
    rw [List.rdropWhile_eq_self_iff]
    intro hne
    simp [not_isControlOrSpace htext _ (List.getLast_mem hne)]
  rw [clean, dropWhile_isControlOrSpace htext, hright, filter_isTabOrNewline htext]

/-- A scheme as the parser stores it. -/
structure IsScheme (scheme : Text) : Prop where
  chars : ∀ c ∈ scheme, isSchemeChar c = true
  first : ∃ first rest, scheme = first :: rest ∧ first.isAlpha = true
  lower : scheme.map Char.toLower = scheme

theorem scheme?_append (hscheme : IsScheme scheme) (rest : Text) :
    scheme? (scheme ++ ':' :: rest) = some (scheme, rest) := by
  obtain ⟨first, more, rfl, halpha⟩ := hscheme.first
  have hcolon : ¬ isSchemeChar ':' = true := by decide
  have hdrop : (first :: more ++ ':' :: rest).dropWhile isSchemeChar = ':' :: rest := by
    rw [List.dropWhile_append_of_pos hscheme.chars, List.dropWhile_cons_of_neg hcolon]
  have htake : (first :: more ++ ':' :: rest).takeWhile isSchemeChar = first :: more := by
    rw [List.takeWhile_append_of_pos hscheme.chars, List.takeWhile_cons_of_neg hcolon,
      List.append_nil]
  unfold scheme?
  rw [List.cons_append]
  dsimp only
  rw [if_pos halpha, ← List.cons_append, hdrop, htake, hscheme.lower]
  rfl

/-! ## Paths -/

theorem not_pathSet_bounds (hc : pathSet c = false) : 0x20 < c.toNat ∧ isTail c = false := by
  simp only [pathSet, querySet, controlSet, Bool.or_eq_false_iff, decide_eq_false_iff_not] at hc
  obtain ⟨⟨⟨hlow, -⟩, hquery⟩, hpath⟩ := hc
  have hspace : c.toNat ≠ 0x20 := by
    intro heq
    rw [heq] at hquery
    exact absurd hquery (by decide)
  refine ⟨by omega, ?_⟩
  rw [isTail, Bool.or_eq_false_iff, decide_eq_false_iff_not, decide_eq_false_iff_not]
  constructor
  · rintro rfl
    exact absurd hpath (by decide)
  · rintro rfl
    exact absurd hquery (by decide)

/-- Code points of a path text. -/
theorem Normal.mem_segmentsText {segments : List Text} (hnormal : Normal scheme segments)
    (hc : c ∈ segmentsText segments) : 0x20 < c.toNat ∧ isTail c = false := by
  obtain ⟨segment, hsegment, hc⟩ := List.mem_flatMap.mp hc
  rcases List.mem_cons.mp hc with rfl | hc
  · decide
  · exact not_pathSet_bounds (hnormal.plain segment hsegment c hc).1

/-! ## Authorities -/

theorem isScheme_file : IsScheme file where
  chars := List.all_iff_forall_prop.mp (by decide)
  first := ⟨'f', _, rfl, by decide⟩
  lower := by decide

/-! ## Hosts and ports -/

/-- The authority of a `file` URL is a host at most. -/
theorem fileState_local {input : Text} {url : Url} (hstate : fileState hosts none input = .ok url) :
    ∃ host, url.authority = some { localAuthority with host := host } := by
  have hpath : ∀ path input, ∃ host, (pathState (fileUrl (some localAuthority)) path
      input).authority = some { localAuthority with host := host } := by
    intro path input
    exact ⟨[], by simp [fileUrl, localAuthority]⟩
  have hstart : ∀ host input, (pathStartState (fileUrl (some { localAuthority with host := host }))
      input).authority = some { localAuthority with host := host } := by
    intro host input
    rw [pathStartState_authority]
    rfl
  have hhost : ∀ input, fileHostState hosts input = .ok url →
      ∃ host, url.authority = some { localAuthority with host := host } := by
    intro input hstate
    unfold fileHostState at hstate
    dsimp only at hstate
    split at hstate
    · cases hstate
      exact hpath _ _
    · split at hstate
      · cases hstate
        exact ⟨[], hstart [] _⟩
      · obtain ⟨host, -, hurl⟩ := bind_eq_ok.mp hstate
        cases hurl
        exact ⟨_, hstart _ _⟩
  unfold fileState at hstate
  split at hstate
  · cases hstate
    exact hpath _ _
  · next hbase => cases hbase
  · split at hstate
    · unfold fileSlashState at hstate
      split at hstate
      · split at hstate
        · exact hhost _ hstate
        · cases hstate
          exact hpath _ _
      · next hbase => cases hbase
      · cases hstate
        exact hpath _ _
    · cases hstate
      exact hpath _ _

end ParqDB.Foundations.Whatwg
