import ParqDB.Foundations.Url

/-!
# Relative references and path texts

Facts about the path state of the URL parser.

* `walk_append`: reading segments onto a path leaves the path below alone as long as the
  dot segments do not climb out of what was read; `climbs_irrelevant` is the converse,
  once they do climb, what was below no longer matters.
* `Normal`: a path as the parser stores it, and `readPath_normal`: reading the text of a
  normal path again gives the path back.
* `segmentsText_injective`: the text of a path determines its segments.
-/

namespace ParqDB.Foundations.Whatwg

/-! ## Dot segments -/

/-- The dot segments of a path leave the directory they start from, with `depth` segments
read so far. -/
def climbs : ℕ → List Text → Bool
  | _, [] => false
  | depth, segment :: rest =>
      if isDoubleDot segment then depth = 0 || climbs (depth - 1) rest
      else if isSingleDot segment then climbs depth rest
      else climbs (depth + 1) rest

@[simp]
theorem shorten_false (path : List Text) : shorten false path = path.dropLast := by
  unfold shorten
  split <;> simp

variable {isFile : Bool} {segment : Text} {segments : List Text}

theorem shorten_append (below own : List Text) (hown : own ≠ []) :
    shorten isFile (below ++ own) = below ++ shorten (isFile && below.isEmpty) own := by
  cases below with
  | nil => simp
  | cons first below =>
      have hlong : ∀ only, first :: below ++ own ≠ [only] := by
        intro only hsingle
        have hlength := congrArg List.length hsingle
        have hpos := List.length_pos_of_ne_nil hown
        simp only [List.length_append, List.length_cons, List.length_nil] at hlength
        omega
      have hplain : shorten isFile (first :: below ++ own) = (first :: below ++ own).dropLast := by
        unfold shorten
        split
        · next only hsingle => exact absurd hsingle (hlong only)
        · rfl
      rw [hplain, List.dropLast_append_of_ne_nil hown]
      simp

theorem pushSegment_append {below own : List Text}
    (hstays : below ≠ [] → isDoubleDot segment = true → own ≠ []) :
    pushSegment isFile (below ++ own) segment =
      below ++ pushSegment (isFile && below.isEmpty) own segment := by
  unfold pushSegment
  by_cases hdouble : isDoubleDot segment = true
  · simp only [hdouble, if_true]
    cases hbelow : below with
    | nil => simp
    | cons first rest =>
        rw [← hbelow, shorten_append]
        exact hstays (by simp [hbelow]) hdouble
  · simp only [hdouble, Bool.false_eq_true, if_false]
    by_cases hsingle : isSingleDot segment = true
    · simp [hsingle]
    · simp only [hsingle, Bool.false_eq_true, if_false, storedSegment, List.append_assoc]
      cases below <;> simp

/-- What was there before stays, and is not looked at, unless the dot segments climb. -/
theorem walk_append {below : List Text} :
    ∀ {own : List Text}, (below ≠ [] → climbs own.length segments = false) →
      walk isFile (below ++ own) segments =
        below ++ walk (isFile && below.isEmpty) own segments := by
  induction segments with
  | nil =>
      intro own _
      rfl
  | cons segment rest ih =>
      intro own hstays
      have hhead : below ≠ [] → isDoubleDot segment = true → own ≠ [] := by
        rintro hbelow hdouble rfl
        have := hstays hbelow
        simp [climbs, hdouble] at this
      have hpush : pushSegment isFile (below ++ own) segment =
          below ++ pushSegment (isFile && below.isEmpty) own segment := pushSegment_append hhead
      cases rest with
      | nil =>
          simp only [walk, hpush]
          split <;> simp
      | cons next rest =>
          simp only [walk, hpush]
          refine ih fun hbelow => ?_
          have hempty : below.isEmpty = false := by simpa using hbelow
          have hclimbs := hstays hbelow
          rw [climbs] at hclimbs
          rw [hempty, Bool.and_false]
          unfold pushSegment
          by_cases hdouble : isDoubleDot segment = true
          · simp only [hdouble, if_true, Bool.or_eq_false_iff] at hclimbs ⊢
            simpa using hclimbs.2
          · by_cases hsingle : isSingleDot segment = true
            · simpa [hdouble, hsingle] using hclimbs
            · simpa [hdouble, hsingle] using hclimbs

/-- Once the dot segments climb out, the directory they started from no longer matters. -/
theorem climbs_irrelevant {first second : Text} :
    ∀ {own : List Text}, climbs own.length segments = true →
      walk false (first :: own) segments = walk false (second :: own) segments := by
  induction segments with
  | nil =>
      intro own hclimbs
      cases hclimbs
  | cons segment rest ih =>
      intro own hclimbs
      rw [climbs] at hclimbs
      by_cases hdouble : isDoubleDot segment = true
      · simp only [hdouble, if_true, Bool.or_eq_true, decide_eq_true_eq] at hclimbs
        cases own with
        | nil => cases rest <;> simp [walk, pushSegment, hdouble]
        | cons head own =>
            have hrest : climbs (head :: own).dropLast.length rest = true := by
              simpa using hclimbs
            cases rest with
            | nil => cases hrest
            | cons next rest => simpa [walk, pushSegment, hdouble] using ih hrest
      · by_cases hsingle : isSingleDot segment = true
        · have hrest : climbs own.length rest = true := by simpa [hdouble, hsingle] using hclimbs
          cases rest with
          | nil => cases hrest
          | cons next rest => simpa [walk, pushSegment, hdouble, hsingle] using ih hrest
        · have hrest : climbs (own ++ [segment]).length rest = true := by
            simpa [hdouble, hsingle] using hclimbs
          cases rest with
          | nil => cases hrest
          | cons next rest =>
              simpa [walk, pushSegment, hdouble, hsingle, storedSegment] using ih hrest

theorem walk_ne_nil (hsegments : segments ≠ []) :
    ∀ {path : List Text}, walk isFile path segments ≠ [] := by
  induction segments with
  | nil => exact absurd rfl hsegments
  | cons segment rest ih =>
      intro path
      cases rest with
      | nil =>
          simp only [walk]
          split
          · simp
          · next hplain =>
              simp only [Bool.or_eq_true, not_or] at hplain
              simp [pushSegment, hplain.1, hplain.2]
      | cons next rest =>
          rw [walk]
          · exact ih (by simp)
          · simp

theorem encodedSegments_ne_nil (special : Bool) (text : Text) :
    encodedSegments special text ≠ [] := by
  simp [encodedSegments]

/-! ## Code points that stand for themselves -/

/-- A code point that the path state copies into its segment. -/
def isPlain (special : Bool) (c : Char) : Prop := pathSet c = false ∧ isSlash special c = false

theorem isPlain_hexDigit (special : Bool) {value : ℕ} (hvalue : value < 16) :
    isPlain special (hexDigit value) := by
  have hall : ∀ special, ∀ value < 16, pathSet (hexDigit value) = false ∧
      isSlash special (hexDigit value) = false := by decide
  exact hall special value hvalue

theorem isPlain_of_mem_percentEncodeByte {special : Bool} {byte : UInt8} {c : Char}
    (hc : c ∈ percentEncodeByte byte) : isPlain special c := by
  have hbyte := byte.toNat_lt
  have hpercent : isPlain special '%' := by
    revert special
    unfold isPlain
    decide
  simp only [percentEncodeByte, List.mem_cons, List.not_mem_nil, or_false] at hc
  rcases hc with rfl | rfl | rfl
  · exact hpercent
  · exact isPlain_hexDigit special (by omega)
  · exact isPlain_hexDigit special (by omega)

variable {special : Bool} {text : Text} {path : List Text} {scheme : Text}

theorem isPlain_of_mem_percentEncode {c : Char} (htext : ∀ d ∈ text, isSlash special d = false)
    (hc : c ∈ percentEncode pathSet text) : isPlain special c := by
  obtain ⟨d, hd, hc⟩ := List.mem_flatMap.mp hc
  split at hc
  · obtain ⟨byte, -, hbyte⟩ := List.mem_flatMap.mp hc
    exact isPlain_of_mem_percentEncodeByte hbyte
  · next hplain =>
      obtain rfl := List.mem_singleton.mp hc
      exact ⟨by simpa using hplain, htext c hd⟩

theorem percentEncode_of_plain (htext : ∀ c ∈ text, isPlain special c) :
    percentEncode pathSet text = text := by
  induction text with
  | nil => rfl
  | cons c rest ih =>
      have hc := (htext c (by simp)).1
      have hrest := ih fun d hd => htext d (by simp [hd])
      simpa [percentEncode, hc] using hrest

theorem forall_mem_splitOnP {separator : Char → Bool} :
    ∀ segment ∈ text.splitOnP separator, ∀ c ∈ segment, separator c = false := by
  induction text with
  | nil => simp
  | cons c rest ih =>
      rw [List.splitOnP_cons_eq_if_modifyHead]
      by_cases hc : separator c = true
      · simp only [hc, if_true, List.mem_cons]
        rintro segment (rfl | hsegment)
        · simp
        · exact ih segment hsegment
      · simp only [hc, Bool.false_eq_true, if_false]
        cases hsplit : rest.splitOnP separator with
        | nil => simp
        | cons head tail =>
            rw [hsplit] at ih
            simp only [List.modifyHead_cons, List.mem_cons]
            rintro segment (rfl | hsegment) d hd
            · rcases List.mem_cons.mp hd with rfl | hd
              · simpa using hc
              · exact ih head (by simp) d hd
            · exact ih segment (by simp [hsegment]) d hd

theorem encodedSegments_plain (hsegment : segment ∈ encodedSegments special text) :
    ∀ c ∈ segment, isPlain special c := by
  obtain ⟨piece, hpiece, rfl⟩ := List.mem_map.mp hsegment
  intro c hc
  exact isPlain_of_mem_percentEncode (forall_mem_splitOnP piece hpiece) hc

/-! ## Normal paths -/

/-- A path as the parser stores it. -/
structure Normal (scheme : Text) (path : List Text) : Prop where
  plain : ∀ segment ∈ path, ∀ c ∈ segment, isPlain (isSpecial scheme) c
  dotless : ∀ segment ∈ path, isDoubleDot segment = false ∧ isSingleDot segment = false
  drive : scheme = file → ∀ first ∈ path.head?, isDriveLetter first = true →
    isNormalizedDriveLetter first = true

theorem Normal.nil (scheme : Text) : Normal scheme [] where
  plain := by simp
  dotless := by simp
  drive := by simp

theorem Normal.of_prefix {shorter : List Text} (hnormal : Normal scheme path)
    (hinitial : shorter <+: path) : Normal scheme shorter where
  plain := fun segment hsegment => hnormal.plain segment (hinitial.subset hsegment)
  dotless := fun segment hsegment => hnormal.dotless segment (hinitial.subset hsegment)
  drive := by
    intro hfile first hfirst
    obtain ⟨rest, rfl⟩ := hinitial
    refine hnormal.drive hfile first ?_
    cases shorter with
    | nil => cases hfirst
    | cons head shorter => exact hfirst

theorem shorten_initial (isFile : Bool) (path : List Text) : shorten isFile path <+: path := by
  unfold shorten
  split
  · split
    · exact List.prefix_refl _
    · exact List.nil_prefix
  · exact List.dropLast_prefix _

theorem Normal.append_singleton (hnormal : Normal scheme path)
    (hplain : ∀ c ∈ segment, isPlain (isSpecial scheme) c)
    (hdotless : isDoubleDot segment = false ∧ isSingleDot segment = false)
    (hdrive : scheme = file → path = [] → isDriveLetter segment = true →
      isNormalizedDriveLetter segment = true) : Normal scheme (path ++ [segment]) where
  plain := by
    intro other hother
    rcases List.mem_append.mp hother with hother | hother
    · exact hnormal.plain other hother
    · rw [List.mem_singleton.mp hother]
      exact hplain
  dotless := by
    intro other hother
    rcases List.mem_append.mp hother with hother | hother
    · exact hnormal.dotless other hother
    · rw [List.mem_singleton.mp hother]
      exact hdotless
  drive := by
    intro hfile first hfirst
    cases path with
    | nil =>
        obtain rfl : segment = first := by simpa using hfirst
        exact hdrive hfile rfl
    | cons head path => exact hnormal.drive hfile first hfirst

theorem Normal.append_nil_segment (hnormal : Normal scheme path) : Normal scheme (path ++ [[]]) :=
  hnormal.append_singleton (by simp) ⟨by decide, by decide⟩ fun _ _ hdrive => by cases hdrive

/-- The stored form of a drive letter. -/
theorem storedSegment_drive (hdrive : isDriveLetter segment = true) :
    ∃ letter mark, segment = [letter, mark] ∧ letter.isAlpha = true ∧
      storedSegment true [] segment = [letter, ':'] := by
  match segment, hdrive with
  | [letter, mark], hdrive =>
      refine ⟨letter, mark, rfl, ?_, ?_⟩
      · simp only [isDriveLetter, Bool.and_eq_true] at hdrive
        exact hdrive.1
      · simp [storedSegment, hdrive]

theorem colon_dotless (letter : Char) :
    isDoubleDot [letter, ':'] = false ∧ isSingleDot [letter, ':'] = false := by
  have hcolon : Char.toLower ':' = ':' := by decide
  constructor <;> simp [isDoubleDot, isSingleDot, hcolon]

theorem Normal.pushSegment (hnormal : Normal scheme path)
    (hplain : ∀ c ∈ segment, isPlain (isSpecial scheme) c) :
    Normal scheme (pushSegment (scheme = file) path segment) := by
  unfold Whatwg.pushSegment
  split
  · exact hnormal.of_prefix (shorten_initial _ _)
  · next hdouble =>
      split
      · exact hnormal
      · next hsingle =>
          have hdotless : isDoubleDot segment = false ∧ isSingleDot segment = false :=
            ⟨by simpa using hdouble, by simpa using hsingle⟩
          by_cases hstored : (decide (scheme = file) && path.isEmpty && isDriveLetter segment) = true
          · simp only [Bool.and_eq_true, decide_eq_true_eq, List.isEmpty_iff] at hstored
            obtain ⟨⟨hfile, rfl⟩, hdrive⟩ := hstored
            obtain ⟨letter, mark, rfl, halpha, hform⟩ := storedSegment_drive hdrive
            have hform : storedSegment (decide (scheme = file)) [] [letter, mark] = [letter, ':'] := by
              rw [decide_eq_true hfile]
              exact hform
            rw [hform]
            refine hnormal.append_singleton ?_ (colon_dotless letter) fun _ _ _ => ?_
            · intro c hc
              simp only [List.mem_cons, List.not_mem_nil, or_false] at hc
              rcases hc with rfl | rfl
              · exact hplain c (by simp)
              · subst hfile
                unfold isPlain
                decide
            · simp [isNormalizedDriveLetter, halpha]
          · have hform : storedSegment (decide (scheme = file)) path segment = segment := by
              unfold storedSegment
              rw [if_neg hstored]
            rw [hform]
            refine hnormal.append_singleton hplain hdotless fun hfile hpath hdrive => ?_
            simp [hfile, hpath, hdrive] at hstored

theorem Normal.walk (hplain : ∀ segment ∈ segments, ∀ c ∈ segment, isPlain (isSpecial scheme) c) :
    ∀ {path : List Text}, Normal scheme path → Normal scheme (walk (scheme = file) path segments) := by
  induction segments with
  | nil =>
      intro path hnormal
      exact hnormal
  | cons segment rest ih =>
      intro path hnormal
      have hpush := hnormal.pushSegment (hplain segment (by simp))
      cases rest with
      | nil =>
          simp only [Whatwg.walk]
          split
          · exact hpush.append_nil_segment
          · exact hpush
      | cons next rest =>
          rw [Whatwg.walk]
          · exact ih (fun other hother => hplain other (by simp [hother])) hpush
          · simp

theorem Normal.readPath (hnormal : Normal scheme path) :
    Normal scheme (readPath scheme path text) :=
  hnormal.walk fun _ hsegment => encodedSegments_plain hsegment

/-! ## Path texts -/

/-- The text of a list of segments. -/
def segmentsText (segments : List Text) : Text := segments.flatMap ('/' :: ·)

@[simp]
theorem segmentsText_nil : segmentsText [] = [] := rfl

@[simp]
theorem segmentsText_cons (segment : Text) (rest : List Text) :
    segmentsText (segment :: rest) = '/' :: (segment ++ segmentsText rest) := by
  simp [segmentsText]

@[simp]
theorem segmentsText_append (left right : List Text) :
    segmentsText (left ++ right) = segmentsText left ++ segmentsText right := by
  simp [segmentsText]

theorem Url.pathText_eq {url : Url} (hpath : url.path = .segments segments) :
    url.pathText = segmentsText segments := by
  rw [Url.pathText, hpath]
  rfl

/-- No segment holds a slash. -/
def SlashFree (segments : List Text) : Prop := ∀ segment ∈ segments, '/' ∉ segment

theorem Normal.slashFree (hnormal : Normal scheme path) : SlashFree path := by
  intro segment hsegment hslash
  have := (hnormal.plain segment hsegment _ hslash).2
  simp [isSlash] at this

theorem append_slash_injective {left right leftRest rightRest : Text} (hleft : '/' ∉ left)
    (hright : '/' ∉ right) (hsame : left ++ '/' :: leftRest = right ++ '/' :: rightRest) :
    left = right ∧ leftRest = rightRest := by
  induction left generalizing right with
  | nil =>
      cases right with
      | nil => simpa using hsame
      | cons c right =>
          simp only [List.nil_append, List.cons_append, List.cons.injEq] at hsame
          exact absurd (List.mem_cons.mpr (Or.inl hsame.1)) hright
  | cons c left ih =>
      cases right with
      | nil =>
          simp only [List.nil_append, List.cons_append, List.cons.injEq] at hsame
          exact absurd (List.mem_cons.mpr (Or.inl hsame.1.symm)) hleft
      | cons d right =>
          simp only [List.cons_append, List.cons.injEq] at hsame
          obtain ⟨rfl, hsame⟩ := hsame
          obtain ⟨rfl, hrest⟩ := ih (fun hmem => hleft (by simp [hmem]))
            (fun hmem => hright (by simp [hmem])) hsame
          exact ⟨rfl, hrest⟩

/-- The text of a path determines its segments. -/
theorem segmentsText_injective {left right : List Text} (hleft : SlashFree left)
    (hright : SlashFree right) (hsame : segmentsText left = segmentsText right) : left = right := by
  have hclosed : ∀ segments, segmentsText segments ++ ['/'] = '/' ::
      ((segmentsText segments ++ ['/']).drop 1) := by
    intro segments
    cases segments <;> simp
  induction left generalizing right with
  | nil =>
      cases right with
      | nil => rfl
      | cons segment right => simp at hsame
  | cons segment left ih =>
      cases right with
      | nil => simp at hsame
      | cons other right =>
          simp only [segmentsText_cons, List.cons.injEq, true_and] at hsame
          have hcut := congrArg (· ++ ['/']) hsame
          simp only [List.append_assoc] at hcut
          rw [hclosed left, hclosed right] at hcut
          obtain ⟨rfl, -⟩ := append_slash_injective (hleft segment (by simp))
            (hright other (by simp)) hcut
          rw [ih (fun item hitem => hleft item (by simp [hitem]))
            (fun item hitem => hright item (by simp [hitem])) (List.append_cancel_left hsame)]

theorem segmentsText_endsWith_slash (hfree : SlashFree segments) :
    (segmentsText segments).getLast? = some '/' ↔ segments.getLast? = some [] := by
  rcases List.eq_nil_or_concat segments with rfl | ⟨initial, last, rfl⟩
  · simp
  · have hlast : '/' ∉ last := hfree last (by simp)
    rcases List.eq_nil_or_concat last with rfl | ⟨front, c, rfl⟩
    · simp
    · have hc : c ≠ '/' := by
        rintro rfl
        exact hlast (by simp)
      have hend : ('/' :: (front ++ [c])).getLast? = some c := by
        rw [← List.cons_append, List.getLast?_concat]
      simp [hend, hc]

theorem splitOnP_segmentsText {rest : List Text}
    (hplain : ∀ other ∈ segment :: rest, ∀ c ∈ other, isPlain special c) :
    (segment ++ segmentsText rest).splitOnP (isSlash special) = segment :: rest := by
  have hsegment : ∀ c ∈ segment, isSlash special c = false :=
    fun c hc => (hplain segment (by simp) c hc).2
  induction rest generalizing segment with
  | nil => simpa using List.splitOnP_eq_singleton hsegment
  | cons next rest ih =>
      rw [segmentsText_cons, List.splitOnP_append_cons_of_forall_mem hsegment _ (by simp [isSlash]),
        ih (fun other hother => hplain other (by simp [hother]))
          fun c hc => (hplain next (by simp) c hc).2]

/-- Reading a normal path onto a part of it gives the path back. -/
theorem walk_normal :
    ∀ {path : List Text}, Normal scheme (path ++ segments) →
      walk (scheme = file) path segments = path ++ segments := by
  induction segments with
  | nil =>
      intro path _
      simp [walk]
  | cons segment rest ih =>
      intro path hnormal
      have hdotless := hnormal.dotless segment (by simp)
      have hstored : storedSegment (scheme = file) path segment = segment := by
        unfold storedSegment
        split
        · next hdrive =>
            simp only [Bool.and_eq_true, decide_eq_true_eq, List.isEmpty_iff] at hdrive
            obtain ⟨⟨hfile, rfl⟩, hletter⟩ := hdrive
            have hnormalized := hnormal.drive hfile segment (by simp) hletter
            match segment, hnormalized with
            | [letter, mark], hnormalized =>
                simp only [isNormalizedDriveLetter, Bool.and_eq_true, decide_eq_true_eq] at hnormalized
                simp [hnormalized.2]
        · rfl
      have hpush : pushSegment (scheme = file) path segment = path ++ [segment] := by
        simp [pushSegment, hdotless.1, hdotless.2, hstored]
      cases rest with
      | nil => simp [walk, hdotless.1, hdotless.2, hpush]
      | cons next rest =>
          rw [walk, hpush, ih (by simpa using hnormal)]
          · simp
          · simp

/-- Reading the text of a normal path gives the path back. -/
theorem readPath_normal {rest : List Text} (hnormal : Normal scheme (segment :: rest)) :
    readPath scheme [] (segment ++ segmentsText rest) = segment :: rest := by
  have hencode : (segment :: rest).map (percentEncode pathSet) = segment :: rest := by
    calc (segment :: rest).map (percentEncode pathSet)
        = (segment :: rest).map id :=
          List.map_congr_left fun other hother => percentEncode_of_plain (hnormal.plain other hother)
      _ = segment :: rest := List.map_id _
  rw [readPath, encodedSegments, splitOnP_segmentsText hnormal.plain, hencode]
  exact walk_normal hnormal

end ParqDB.Foundations.Whatwg
