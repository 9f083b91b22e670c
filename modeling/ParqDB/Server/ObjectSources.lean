import ParqDB.Server.WildcardSources

/-!
# The canonical URI of an object

`authorize` writes the URI of an object from its scheme, its authority and the normalised names on
its decoded path.  What it writes is read back as the same three.

* `normpath_placeText`: names are read back from the text of their path.
* `matchesObjectPrefix_iff`: a path is below an allowed one if it goes on with whole names.
* `urlsplit_uri`, `unquote_quoted`: the URI is split where it was joined, and its path is decoded
  to what was encoded.
-/

namespace ParqDB.Server

open Foundations Foundations.Whatwg Foundations.Symlinks
open Storage.Addressing

variable {host : Host}

/-! ## Normalised paths -/

/-- A name on a normalised path. -/
structure IsName (name : Text) : Prop where
  nonempty : name ≠ []
  noDot : name ≠ ['.']
  noDots : name ≠ ['.', '.']
  noSlash : '/' ∉ name

/-- What `normpath` does with one more part. -/
def normpathStep (parts : List Text) (part : Text) : List Text :=
  if part.isEmpty || part = ['.'] then parts
  else if part = ['.', '.'] then parts.dropLast
  else parts ++ [part]

theorem normpath_eq (path : Text) : normpath path = (path.splitOn '/').foldl normpathStep [] := rfl

variable {name part : Text}

theorem mem_normpathStep {parts : List Text} (hname : name ∈ normpathStep parts part) :
    name ∈ parts ∨ name = part ∧ name ≠ [] ∧ name ≠ ['.'] ∧ name ≠ ['.', '.'] := by
  unfold normpathStep at hname
  split at hname
  · exact Or.inl hname
  · next hkept =>
      rw [Bool.or_eq_true, not_or, List.isEmpty_iff, decide_eq_true_eq] at hkept
      split at hname
      · exact Or.inl (List.dropLast_subset _ hname)
      · next hdots =>
          rcases List.mem_append.mp hname with hname | hname
          · exact Or.inl hname
          · obtain rfl := List.mem_singleton.mp hname
            exact Or.inr ⟨rfl, hkept.1, hkept.2, hdots⟩

variable {path : Text} {c : Char} {names : List Text}

/-- A normalised path has only parts of the path, and no dots. -/
theorem mem_normpath (hname : name ∈ normpath path) : name ∈ path.splitOn '/' ∧ IsName name := by
  have hfold : ∀ parts names : List Text, name ∈ parts.foldl normpathStep names →
      name ∈ names ∨ name ∈ parts ∧ name ≠ [] ∧ name ≠ ['.'] ∧ name ≠ ['.', '.'] := by
    intro parts
    induction parts with
    | nil => exact fun names hname => Or.inl hname
    | cons part parts ih =>
        intro names hname
        rcases ih _ hname with hname | ⟨hmem, hname⟩
        · rcases mem_normpathStep hname with hname | ⟨rfl, hkept⟩
          · exact Or.inl hname
          · exact Or.inr ⟨List.mem_cons_self, hkept⟩
        · exact Or.inr ⟨List.mem_cons_of_mem _ hmem, hname⟩
  rcases hfold _ [] hname with hname | ⟨hmem, hnonempty, hdot, hdots⟩
  · cases hname
  · exact ⟨hmem, hnonempty, hdot, hdots, slashFree_splitOn path name hmem⟩

theorem isName_of_mem_normpath : ∀ name ∈ normpath path, IsName name :=
  fun _ hname => (mem_normpath hname).2

theorem mem_of_mem_splitOn (hpart : part ∈ path.splitOn '/') (hc : c ∈ part) : c ∈ path := by
  have hfree := slashFree_splitOn path part hpart
  have hmem : c ∈ segmentsText (path.splitOn '/') :=
    List.mem_flatMap.mpr ⟨part, hpart, List.mem_cons_of_mem _ hc⟩
  rw [segmentsText_splitOn] at hmem
  rcases List.mem_cons.mp hmem with rfl | hmem
  · exact absurd hc hfree
  · exact hmem

/-- The characters of a normalised path were in the path. -/
theorem mem_placeText_normpath (hc : c ∈ placeText (normpath path)) : c = '/' ∨ c ∈ path := by
  unfold placeText at hc
  split at hc
  · exact Or.inl (List.mem_singleton.mp hc)
  · obtain ⟨name, hname, hc⟩ := List.mem_flatMap.mp hc
    rcases List.mem_cons.mp hc with rfl | hc
    · exact Or.inl rfl
    · exact Or.inr (mem_of_mem_splitOn (mem_normpath hname).1 hc)

theorem foldl_normpathStep (hnames : ∀ name ∈ names, IsName name) (parts : List Text) :
    names.foldl normpathStep parts = parts ++ names := by
  induction names generalizing parts with
  | nil => rw [List.foldl_nil, List.append_nil]
  | cons name names ih =>
      rw [List.forall_mem_cons] at hnames
      obtain ⟨hname, hnames⟩ := hnames
      have hstep : normpathStep parts name = parts ++ [name] := by
        unfold normpathStep
        rw [if_neg (by simp [hname.nonempty, hname.noDot]), if_neg hname.noDots]
      rw [List.foldl_cons, hstep, ih hnames, List.append_assoc, List.singleton_append]

theorem slashFree_of_isName (hnames : ∀ name ∈ names, IsName name) :
    SlashFree names := fun name hname => (hnames name hname).noSlash

theorem placeText_eq (hne : names ≠ []) : placeText names = segmentsText names := by
  rw [placeText, if_neg hne, segmentsText]

theorem placeText_head (names : List Text) : ∃ rest, placeText names = '/' :: rest := by
  cases names with
  | nil => exact ⟨[], rfl⟩
  | cons name names => exact ⟨_, by rw [placeText_eq (by simp), segmentsText_cons]⟩

/-- Between the slashes of a text are the segments that it was written from. -/
theorem splitOn_segmentsText (hfree : SlashFree names) (hne : names ≠ []) :
    (segmentsText names).splitOn '/' = [] :: names := by
  obtain ⟨name, rest, rfl⟩ := List.exists_cons_of_ne_nil hne
  have hsplit : (name ++ segmentsText rest).splitOn '/' = name :: rest := by
    refine segmentsText_injective (slashFree_splitOn _) hfree ?_
    rw [segmentsText_splitOn, segmentsText_cons]
  have hfirst := splitOn_append_slash [] (name ++ segmentsText rest)
  rw [List.nil_append] at hfirst
  rw [segmentsText_cons, hfirst, hsplit]
  rfl

theorem normpath_placeText (hnames : ∀ name ∈ names, IsName name) :
    normpath (placeText names) = names := by
  by_cases hne : names = []
  · subst hne
    rfl
  · have hempty : normpathStep [] [] = [] := rfl
    rw [placeText_eq hne, normpath_eq, splitOn_segmentsText (slashFree_of_isName hnames) hne,
      List.foldl_cons, hempty, foldl_normpathStep hnames, List.nil_append]

/-! ## Below a prefix -/

theorem rdropWhile_segmentsText (hnames : ∀ name ∈ names, IsName name) :
    (segmentsText names).rdropWhile (· = '/') = segmentsText names := by
  by_cases hne : names = []
  · subst hne
    rfl
  · have hlast : (segmentsText names).getLast? ≠ some '/' := by
      rw [Ne, segmentsText_endsWith_slash (slashFree_of_isName hnames)]
      intro hempty
      exact (hnames [] (List.mem_of_getLast? hempty)).nonempty rfl
    rw [List.rdropWhile_eq_self_iff]
    intro htext hslash
    rw [List.getLast?_eq_getLast_of_ne_nil htext] at hlast
    exact hlast (congrArg some (of_decide_eq_true hslash))

theorem segmentsText_ne_nil (hne : names ≠ []) : segmentsText names ≠ [] := by
  obtain ⟨name, rest, rfl⟩ := List.exists_cons_of_ne_nil hne
  rw [segmentsText_cons]
  exact List.cons_ne_nil _ _

variable {rest authority scheme : Text} {root : List Text}

/-- A text that goes on behind a slash has more names. -/
theorem prefix_of_append_slash (hnames : SlashFree names) (hroot : SlashFree root)
    (htext : segmentsText root ++ '/' :: rest = segmentsText names) : root <+: names := by
  refine ⟨rest.splitOn '/', ?_⟩
  refine segmentsText_injective ?_ hnames ?_
  · intro segment hsegment
    rcases List.mem_append.mp hsegment with hsegment | hsegment
    · exact hroot segment hsegment
    · exact slashFree_splitOn rest segment hsegment
  · rw [segmentsText_append, segmentsText_splitOn, htext]

theorem matchesObjectPrefix_iff {scheme' authority' : Text} (hnames : ∀ name ∈ names, IsName name)
    (hroot : ∀ name ∈ root, IsName name) :
    matchesObjectPrefix ⟨scheme, authority, placeText names⟩ ⟨scheme', authority', placeText root⟩ =
        true ↔
      scheme = scheme' ∧ authority = authority' ∧ root <+: names := by
  unfold matchesObjectPrefix
  simp only [Bool.and_eq_true, Bool.or_eq_true, decide_eq_true_eq, and_assoc]
  refine and_congr_right fun _ => and_congr_right fun _ => ?_
  by_cases hempty : root = []
  · subst hempty
    obtain ⟨rest, hrest⟩ := placeText_head names
    have hroot : (placeText []).rdropWhile (· = '/') = [] := rfl
    have hslash : (['/'] : Text).rdropWhile (· = '/') = [] := rfl
    rw [hroot, if_pos rfl, hslash, hrest]
    simp
  · have hstripped : (placeText root).rdropWhile (· = '/') = segmentsText root := by
      rw [placeText_eq hempty, rdropWhile_segmentsText hroot]
    rw [hstripped, if_neg (segmentsText_ne_nil hempty), rdropWhile_segmentsText hroot,
      List.isPrefixOf_iff_prefix]
    constructor
    · rintro (hsame | ⟨rest, hrest⟩)
      · have hne : names ≠ [] := by
          rintro rfl
          have hnormal := normpath_placeText hroot
          rw [placeText_eq hempty, ← hsame] at hnormal
          exact hempty hnormal.symm
        rw [placeText_eq hne] at hsame
        obtain rfl :=
          segmentsText_injective (slashFree_of_isName hnames) (slashFree_of_isName hroot) hsame
        exact List.prefix_rfl
      · rw [List.append_assoc, List.singleton_append] at hrest
        have hne : names ≠ [] := by
          rintro rfl
          have hlength := congrArg List.length hrest
          have hpos := List.length_pos_of_ne_nil (segmentsText_ne_nil hempty)
          rw [List.length_append, List.length_cons] at hlength
          have hone : (placeText []).length = 1 := rfl
          omega
        rw [placeText_eq hne] at hrest
        exact prefix_of_append_slash (slashFree_of_isName hnames) (slashFree_of_isName hroot) hrest
    · rintro ⟨rest, rfl⟩
      rw [placeText_eq (by simp [hempty]), segmentsText_append]
      cases rest with
      | nil => exact Or.inl (by simp)
      | cons name rest =>
          refine Or.inr ⟨name ++ segmentsText rest, ?_⟩
          rw [List.append_assoc, List.singleton_append, segmentsText_cons]

/-! ## Schemes and authorities -/

theorem toLower_toLower (c : Char) : c.toLower.toLower = c.toLower := by
  rcases toLower_cases c with hsame | ⟨hbounds, hcode⟩
  · rw [hsame, hsame]
  · rcases toLower_cases c.toLower with hsame | ⟨hlower, -⟩
    · exact hsame
    · omega

theorem isAlpha_iff :
    c.isAlpha = true ↔ 65 ≤ c.toNat ∧ c.toNat ≤ 90 ∨ 97 ≤ c.toNat ∧ c.toNat ≤ 122 := by
  have hlower : c.isLower = true ↔ 97 ≤ c.toNat ∧ c.toNat ≤ 122 := by
    show (decide _ && decide _) = true ↔ _
    rw [Bool.and_eq_true, decide_eq_true_eq, decide_eq_true_eq]
    rfl
  have hupper : c.isUpper = true ↔ 65 ≤ c.toNat ∧ c.toNat ≤ 90 := by
    exact decide_eq_true_iff
  show (c.isUpper || c.isLower) = true ↔ _
  rw [Bool.or_eq_true, hlower, hupper]

theorem isAlpha_toLower (hc : c.isAlpha = true) : c.toLower.isAlpha = true := by
  rcases toLower_cases c with hsame | ⟨hbounds, hcode⟩
  · rwa [hsame]
  · rw [isAlpha_iff]
    omega

theorem isSchemeChar_toLower (hc : isSchemeChar c = true) : isSchemeChar c.toLower = true := by
  rcases toLower_cases c with hsame | ⟨hbounds, hcode⟩
  · rwa [hsame]
  · have halpha : c.toLower.isAlpha = true := by
      rw [isAlpha_iff]
      omega
    simp [isSchemeChar, Char.isAlphanum, halpha]

theorem schemeChar_not_isTabOrNewline (hc : isSchemeChar c = true) : isTabOrNewline c = false := by
  have hmarks : ∀ mark ∈ ['\t', '\n', '\r'], isSchemeChar mark = false :=
    List.all_iff_forall_prop.mp (by decide)
  rw [isTabOrNewline, ← Bool.not_eq_true, List.contains_iff_mem]
  intro hmark
  rw [hmarks c hmark] at hc
  cases hc

variable {input : Text} {parsed : SplitResult}

/-- What is found as a scheme is one. -/
theorem isScheme_of_scheme? (hfound : scheme? input = some (scheme, rest)) : IsScheme scheme := by
  unfold scheme? at hfound
  split at hfound
  · cases hfound
  · next first more =>
      split at hfound
      · next halpha =>
          split at hfound
          · next hcolon =>
              cases hfound
              refine ⟨?_, ?_, ?_⟩
              · intro c hc
                obtain ⟨d, hd, rfl⟩ := List.mem_map.mp hc
                exact isSchemeChar_toLower (List.mem_takeWhile_imp hd)
              · have hfirst : isSchemeChar first = true := by
                  simp [isSchemeChar, Char.isAlphanum, halpha]
                rw [List.takeWhile_cons_of_pos hfirst]
                exact ⟨_, _, rfl, isAlpha_toLower halpha⟩
              · rw [List.map_map]
                exact List.map_congr_left fun c _ => toLower_toLower c
          · cases hfound
      · cases hfound

/-- A character that an authority may have after the URL has been split. -/
def inAuthority (c : Char) : Bool := !(c = '/' || isTail c) && !isTabOrNewline c

variable {checkNetloc : Text → Except String Unit} {url : Text}

theorem urlsplit_steps (hsplit : urlsplit checkNetloc url = .ok parsed) :
    ∃ cleaned rest, (∀ c ∈ cleaned, (!isTabOrNewline c) = true) ∧
      (scheme? cleaned).getD ([], cleaned) = (parsed.scheme, rest) ∧
      parsed.netloc = (splitNetloc rest).1 ∧ checkNetloc parsed.netloc = .ok () := by
  obtain ⟨⟨⟩, hchecked, hparsed⟩ := bind_eq_ok.mp hsplit
  cases hparsed
  exact ⟨_, _, fun c hc => (List.mem_filter.mp hc).2, rfl, rfl, hchecked⟩

theorem mem_of_scheme? (hfound : scheme? input = some (scheme, rest)) : ∀ c ∈ rest, c ∈ input := by
  unfold scheme? at hfound
  split at hfound
  · cases hfound
  · split at hfound
    · split at hfound
      · next hcolon =>
          cases hfound
          intro c hc
          refine (List.dropWhile_suffix isSchemeChar).subset ?_
          rw [hcolon]
          exact List.mem_cons_of_mem _ hc
      · cases hfound
    · cases hfound

theorem mem_splitNetloc (hc : c ∈ (splitNetloc url).1) :
    c ∈ url ∧ (!(c = '/' || isTail c)) = true := by
  unfold splitNetloc at hc
  split at hc
  · next rest =>
      have hmem := (List.takeWhile_prefix _).subset hc
      exact ⟨List.mem_cons_of_mem _ (List.mem_cons_of_mem _ hmem),
        (List.mem_takeWhile_imp hc :)⟩
  · cases hc

/-- An authority ends at the path. -/
theorem splitNetloc_append (hauthority : ∀ c ∈ authority, inAuthority c = true) (path : Text) :
    splitNetloc ('/' :: '/' :: (authority ++ '/' :: path)) = (authority, '/' :: path) := by
  have hinside : ∀ c ∈ authority, (!(c = '/' || isTail c)) = true := by
    intro c hc
    have hc := hauthority c hc
    rw [inAuthority, Bool.and_eq_true] at hc
    exact hc.1
  rw [splitNetloc, List.takeWhile_append_of_pos hinside, List.dropWhile_append_of_pos hinside,
    List.takeWhile_cons_of_neg (p := fun c => !(c = '/' || isTail c)) (by decide),
    List.dropWhile_cons_of_neg (p := fun c => !(c = '/' || isTail c)) (by decide), List.append_nil]

/-- What `urlsplit` returns. -/
theorem urlsplit_parts (hsplit : urlsplit checkNetloc url = .ok parsed) :
    (parsed.scheme = [] ∨ IsScheme parsed.scheme) ∧
      (∀ c ∈ parsed.netloc, inAuthority c = true) ∧ checkNetloc parsed.netloc = .ok () := by
  obtain ⟨cleaned, rest, hcleaned, hscheme, hnetloc, hchecked⟩ := urlsplit_steps hsplit
  have hrest : (parsed.scheme = [] ∨ IsScheme parsed.scheme) ∧ ∀ c ∈ rest, c ∈ cleaned := by
    cases hfound : scheme? cleaned with
    | none =>
        rw [hfound, Option.getD_none, Prod.mk.injEq] at hscheme
        exact ⟨Or.inl hscheme.1.symm, by simp [hscheme.2]⟩
    | some found =>
        rw [hfound, Option.getD_some] at hscheme
        rw [hscheme] at hfound
        exact ⟨Or.inr (isScheme_of_scheme? hfound), mem_of_scheme? hfound⟩
  refine ⟨hrest.1, fun c hc => ?_, hchecked⟩
  rw [hnetloc] at hc
  obtain ⟨hmem, hauthority⟩ := mem_splitNetloc hc
  rw [inAuthority, hauthority, hcleaned c (hrest.2 c hmem)]
  rfl

/-! ## The URI -/

/-- A quoted path has nothing in it that ends a path or that the URL parser skips. -/
theorem mem_quoted (hc : c ∈ percentEncode (fun c => !objectSafe c) path) :
    isTail c = false ∧ isTabOrNewline c = false := by
  obtain ⟨d, hd, hc⟩ := List.mem_flatMap.mp hc
  split at hc
  · obtain ⟨byte, -, hbyte⟩ := List.mem_flatMap.mp hc
    have hplain := not_pathSet_bounds (@isPlain_of_mem_percentEncodeByte false _ _ hbyte).1
    exact ⟨hplain.2, not_isTabOrNewline hplain.1⟩
  · next hsafe =>
      rw [List.mem_singleton.mp hc]
      have hunsafe : ∀ mark ∈ ['?', '#', '\t', '\n', '\r'], d ≠ mark := by
        rintro mark hmark rfl
        have hall : ∀ mark ∈ ['?', '#', '\t', '\n', '\r'], (!objectSafe mark) = true :=
          List.all_iff_forall_prop.mp (by decide)
        exact hsafe (hall d hmark)
      simp only [List.forall_mem_cons, List.not_mem_nil, false_implies, implies_true,
        and_true] at hunsafe
      obtain ⟨hquery, hfragment, htab, hline, hreturn⟩ := hunsafe
      simp [isTail, isTabOrNewline, hquery, hfragment, htab, hline, hreturn]

theorem unquote_quoted (path : Text) :
    unquote (percentEncode (fun c => !objectSafe c) path) = path :=
  (Quotes.percentEncode (by decide) path).unquote_eq

/-- The parts of a canonical URI. -/
theorem urlsplit_uri (hscheme : IsScheme scheme)
    (hauthority : ∀ c ∈ authority, inAuthority c = true)
    (hchecked : host.checkNetloc authority = .ok ()) :
    urlsplit host.checkNetloc (ObjectPrefix.uri ⟨scheme, authority, '/' :: path⟩) =
      .ok ⟨scheme, authority, percentEncode (fun c => !objectSafe c) ('/' :: path), [], []⟩ := by
  have hquoted : percentEncode (fun c => !objectSafe c) ('/' :: path) =
      '/' :: percentEncode (fun c => !objectSafe c) path := by
    rw [percentEncode_cons, if_neg (by decide)]
    rfl
  have huri : ObjectPrefix.uri ⟨scheme, authority, '/' :: path⟩ = scheme ++ ':' :: '/' :: '/' ::
      (authority ++ percentEncode (fun c => !objectSafe c) ('/' :: path)) := by
    have hmarks : "://".toList = [':', '/', '/'] := by decide
    rw [ObjectPrefix.uri, hmarks]
    simp
  have hclean : ((ObjectPrefix.uri ⟨scheme, authority, '/' :: path⟩).dropWhile
      isControlOrSpace).filter (!isTabOrNewline ·) =
        ObjectPrefix.uri ⟨scheme, authority, '/' :: path⟩ := by
    obtain ⟨first, rest, rfl, halpha⟩ := hscheme.first
    have hfirst : ¬ isControlOrSpace first = true := by
      rw [isAlpha_iff] at halpha
      rw [isControlOrSpace, decide_eq_true_eq]
      omega
    rw [huri, List.cons_append, List.dropWhile_cons_of_neg hfirst, List.filter_eq_self]
    intro c hc
    rw [← List.cons_append, List.mem_append] at hc
    rcases hc with hc | hc
    · rw [schemeChar_not_isTabOrNewline (hscheme.chars c hc)]
      rfl
    · rw [List.mem_cons, List.mem_cons, List.mem_cons, List.mem_append] at hc
      rcases hc with rfl | rfl | rfl | hc | hc
      · rfl
      · rfl
      · rfl
      · have hc := hauthority c hc
        rw [inAuthority, Bool.and_eq_true] at hc
        exact hc.2
      · rw [(mem_quoted hc).2]
        rfl
  have hnetloc : splitNetloc ('/' :: '/' ::
      (authority ++ percentEncode (fun c => !objectSafe c) ('/' :: path))) =
        (authority, percentEncode (fun c => !objectSafe c) ('/' :: path)) := by
    rw [hquoted, splitNetloc_append hauthority]
  have htail (mark : Char) (hmark : isTail mark = true) :
      mark ∉ percentEncode (fun c => !objectSafe c) ('/' :: path) := by
    intro hmem
    rw [(mem_quoted hmem).1] at hmark
    cases hmark
  unfold urlsplit
  simp only [hclean]
  rw [huri, scheme?_append hscheme]
  simp only [Option.getD_some, hnetloc, splitOnce_of_not_mem (htail '#' rfl),
    splitOnce_of_not_mem (htail '?' rfl), hchecked]
  rfl

/-!
## Objects that a server may read

A reference with a scheme other than that of files names an object of a store.  `authorize` decodes
its path once, resolves the dots, compares the names with those of the allowed prefixes, and returns
the canonical URI.

**Strategy.**  What `authorize` decides is a function of the split reference (`authorizeObject`),
and of its scheme, its authority and its names only, once the guards are passed
(`objectPrefix_eq_ok`).  The canonical URI has the same three, and passes the guards again.

**Results.**  `object_sources_confined`: what is returned lies below an allowed prefix and is
returned unchanged the next time, and references that denote the same object are treated alike if
they pass the guards.  A control character on a part of the path that the dots leave again is not
looked over (`left_control_rejected`).
-/

variable {policy : SourceUriPolicy}

/-! ## What a reference denotes -/

/-- The scheme and the authority of a reference, and the names on its decoded path. -/
def Denotes (host : Host) (reference scheme authority : Text) (names : List Text) : Prop :=
  ∃ parsed, urlsplit host.checkNetloc reference = .ok parsed ∧ parsed.scheme = scheme ∧
    parsed.netloc = authority ∧ normpath (unquote parsed.path) = names

/-- `urlsplit` finds a scheme that is not that of files. -/
def IsObjectReference (host : Host) (reference : Text) : Prop :=
  ∃ parsed, urlsplit host.checkNetloc reference = .ok parsed ∧
    parsed.scheme ≠ [] ∧ parsed.scheme ≠ file

def isControl (c : Char) : Bool := c.toNat < 32 || c.toNat = 127

/-- A reference without a query, a fragment and control characters on its decoded path. -/
def IsPathOnly (host : Host) (reference : Text) : Prop :=
  ∃ parsed, urlsplit host.checkNetloc reference = .ok parsed ∧ parsed.query = [] ∧
    parsed.fragment = [] ∧ (unquote parsed.path).any isControl = false

/-! ## The decision -/

theorem normalizeObjectPath_eq_ok {normalized : Text} :
    normalizeObjectPath path = .ok normalized ↔
      (unquote path).any isControl = false ∧ normalized = placeText (normpath (unquote path)) := by
  unfold normalizeObjectPath
  rw [rejectIf_bind_eq_ok, Bool.not_eq_true]
  refine and_congr_right fun _ => ?_
  rw [Except.ok.injEq, eq_comm]

variable {location : ObjectPrefix} {fuel : ℕ} {reference : Text} {allowed : ObjectPrefix}

/-- The guards of `_object_prefix`, and what it returns. -/
theorem objectPrefix_eq_ok :
    objectPrefix parsed = .ok location ↔
      (¬ (parsed.scheme = [] ∨ parsed.scheme = file) ∧ '@' ∉ parsed.netloc ∧
        ¬ parsed.netloc = [] ∧ ¬ (parsed.query ≠ [] ∨ parsed.fragment ≠ [])) ∧
      (unquote parsed.path).any isControl = false ∧
      location = ⟨parsed.scheme, parsed.netloc, placeText (normpath (unquote parsed.path))⟩ := by
  unfold objectPrefix
  rw [rejectIf_bind_eq_ok, rejectIf_bind_eq_ok, rejectIf_bind_eq_ok, rejectIf_bind_eq_ok, bind_eq_ok]
  simp only [normalizeObjectPath_eq_ok, Except.ok.injEq]
  constructor
  · rintro ⟨hscheme, hcredentials, hauthority, htail, path, ⟨hplain, rfl⟩, rfl⟩
    exact ⟨⟨hscheme, hcredentials, hauthority, htail⟩, hplain, rfl⟩
  · rintro ⟨⟨hscheme, hcredentials, hauthority, htail⟩, hplain, rfl⟩
    exact ⟨hscheme, hcredentials, hauthority, htail, _, ⟨hplain, rfl⟩, rfl⟩

namespace SourceUriPolicy

/-- `authorize`, after the reference has been split and is no file. -/
def authorizeObject (policy : SourceUriPolicy) (parsed : SplitResult) : Except Failure Text := do
  let candidate ← raised (objectPrefix parsed)
  raised (rejectIf (policy.objectPrefixes.all fun allowed =>
    !matchesObjectPrefix candidate allowed)
    (policy.resourceName ++ " is outside the allowed URI prefixes"))
  .ok candidate.uri

end SourceUriPolicy

theorem authorize_object (hsplit : urlsplit host.checkNetloc reference = .ok parsed)
    (hobject : ¬ (parsed.scheme = [] ∨ parsed.scheme = file)) :
    policy.authorize host fuel reference = policy.authorizeObject parsed := by
  have hne : reference ≠ [] := by
    rintro rfl
    obtain ⟨⟨⟩, -, hparsed⟩ := bind_eq_ok.mp hsplit
    cases hparsed
    exact hobject (Or.inl rfl)
  have hreject : rejectIf (reference = []) (policy.resourceName ++ " must not be empty") =
      .ok () := by rw [rejectIf, if_neg hne]
  unfold SourceUriPolicy.authorize
  rw [hreject, hsplit, raised_ok, raised_ok, ok_bind, ok_bind, if_neg hobject]
  rfl

theorem raised_eq_ok {α : Type} {outcome : Except String α} {value : α} :
    raised outcome = .ok value ↔ outcome = .ok value := by
  cases outcome with
  | ok found => simp
  | error message => simp

theorem authorizeObject_eq_ok {uri : Text} :
    policy.authorizeObject parsed = .ok uri ↔
      ∃ location, objectPrefix parsed = .ok location ∧
        (∃ allowed ∈ policy.objectPrefixes, matchesObjectPrefix location allowed = true) ∧
        uri = location.uri := by
  unfold SourceUriPolicy.authorizeObject
  rw [bind_eq_ok]
  refine exists_congr fun location => ?_
  rw [raised_rejectIf_bind_eq_ok, raised_eq_ok, Except.ok.injEq, @eq_comm _ location.uri]
  simp

/-! ## Where the prefixes come from -/

theorem mem_allow {before after : SourceUriPolicy}
    (hallow : before.allow host fuel reference = .ok after)
    (hallowed : allowed ∈ after.objectPrefixes) :
    allowed ∈ before.objectPrefixes ∨ ∃ parsed,
      urlsplit host.checkNetloc reference = .ok parsed ∧ objectPrefix parsed = .ok allowed := by
  unfold SourceUriPolicy.allow at hallow
  obtain ⟨parsed, hparsed, hallow⟩ := bind_eq_ok.mp hallow
  split at hallow
  · obtain ⟨path, -, hallow⟩ := bind_eq_ok.mp hallow
    obtain ⟨root, -, hallow⟩ := bind_eq_ok.mp hallow
    split at hallow
    · cases hallow
      exact Or.inl hallowed
    · cases hallow
  · obtain ⟨found, hfound, hallow⟩ := bind_eq_ok.mp hallow
    split at hallow
    · cases hallow
      rcases List.mem_append.mp hallowed with hallowed | hallowed
      · exact Or.inl hallowed
      · rw [List.mem_singleton.mp hallowed]
        exact Or.inr ⟨parsed, raised_eq_ok.mp hparsed, raised_eq_ok.mp hfound⟩
    · cases hallow

/-- Every prefix of the policy was read from one of the references. -/
theorem mem_new {references : List Text} {resourceName : String}
    (hnew : SourceUriPolicy.new host fuel references resourceName = .ok policy)
    (hallowed : allowed ∈ policy.objectPrefixes) :
    ∃ reference ∈ references, ∃ parsed,
      urlsplit host.checkNetloc reference = .ok parsed ∧ objectPrefix parsed = .ok allowed := by
  have hfold : ∀ (references : List Text) (before : SourceUriPolicy),
      references.foldlM (SourceUriPolicy.allow host fuel) before = .ok policy →
      allowed ∈ before.objectPrefixes ∨ ∃ reference ∈ references, ∃ parsed,
        urlsplit host.checkNetloc reference = .ok parsed ∧ objectPrefix parsed = .ok allowed := by
    intro references
    induction references with
    | nil =>
        intro before hnew
        cases hnew
        exact Or.inl hallowed
    | cons reference references ih =>
        intro before hnew
        rw [List.foldlM_cons] at hnew
        obtain ⟨after, hallow, hnew⟩ := bind_eq_ok.mp hnew
        rcases ih after hnew with hafter | ⟨other, hother, hfound⟩
        · rcases mem_allow hallow hafter with hbefore | hfound
          · exact Or.inl hbefore
          · exact Or.inr ⟨reference, List.mem_cons_self, hfound⟩
        · exact Or.inr ⟨other, List.mem_cons_of_mem _ hother, hfound⟩
  rcases hfold references _ hnew with hnone | hfound
  · cases hnone
  · exact hfound

/-! ## The canonical URI -/

/-- What was normalised has no control characters if it had none before. -/
theorem isControl_normpath (hplain : path.any isControl = false) :
    (placeText (normpath path)).any isControl = false := by
  rw [List.any_eq_false] at hplain ⊢
  intro c hc
  rcases mem_placeText_normpath hc with rfl | hc
  · decide
  · exact hplain c hc

/-- The canonical URI of a reference is split into the same scheme and authority, and its path
is the normalised one, encoded. -/
theorem urlsplit_location (hsplit : urlsplit host.checkNetloc reference = .ok parsed)
    (hlocation : objectPrefix parsed = .ok location) :
    urlsplit host.checkNetloc location.uri = .ok ⟨parsed.scheme, parsed.netloc,
      percentEncode (fun c => !objectSafe c) (placeText (normpath (unquote parsed.path))), [], []⟩ := by
  obtain ⟨⟨hobject, -⟩, -, rfl⟩ := objectPrefix_eq_ok.mp hlocation
  rw [not_or] at hobject
  obtain ⟨hscheme, hauthority, hchecked⟩ := urlsplit_parts hsplit
  obtain ⟨rest, hrest⟩ := placeText_head (normpath (unquote parsed.path))
  rw [hrest]
  exact urlsplit_uri (hscheme.resolve_left hobject.1) hauthority hchecked

theorem unquote_location (path : Text) :
    unquote (percentEncode (fun c => !objectSafe c) (placeText (normpath path))) =
      placeText (normpath path) := unquote_quoted _

/-- The canonical URI leads to the same location. -/
theorem objectPrefix_location (hlocation : objectPrefix parsed = .ok location) :
    objectPrefix ⟨parsed.scheme, parsed.netloc,
      percentEncode (fun c => !objectSafe c) (placeText (normpath (unquote parsed.path))), [], []⟩ =
        .ok location := by
  obtain ⟨⟨hobject, hcredentials, hauthority, -⟩, hplain, rfl⟩ := objectPrefix_eq_ok.mp hlocation
  rw [objectPrefix_eq_ok]
  dsimp only
  rw [unquote_location, normpath_placeText isName_of_mem_normpath]
  exact ⟨⟨hobject, hcredentials, hauthority, by simp⟩, isControl_normpath hplain, rfl⟩

/-! ## The policy -/

/-- References that split alike and pass the guards are decided alike. -/
theorem authorizeObject_congr {other : SplitResult} (hscheme : parsed.scheme = other.scheme)
    (hauthority : parsed.netloc = other.netloc)
    (hnames : normpath (unquote parsed.path) = normpath (unquote other.path))
    (hparsed : parsed.query = [] ∧ parsed.fragment = [] ∧
      (unquote parsed.path).any isControl = false)
    (hother : other.query = [] ∧ other.fragment = [] ∧ (unquote other.path).any isControl = false) :
    policy.authorizeObject parsed = policy.authorizeObject other := by
  obtain ⟨hquery, hfragment, hplain⟩ := hparsed
  obtain ⟨hquery', hfragment', hplain'⟩ := hother
  have hpath (path : Text) (hplain : (unquote path).any isControl = false) :
      normalizeObjectPath path = .ok (placeText (normpath (unquote path))) :=
    normalizeObjectPath_eq_ok.mpr ⟨hplain, rfl⟩
  have hsame : objectPrefix parsed = objectPrefix other := by
    unfold objectPrefix
    rw [hpath _ hplain, hpath _ hplain', hscheme, hauthority, hnames, hquery, hfragment, hquery',
      hfragment']
  rw [SourceUriPolicy.authorizeObject, hsame, SourceUriPolicy.authorizeObject]

/-- What the policy returns for an object lies below one of the allowed prefixes and is returned
unchanged the next time; references to the same object are decided alike if they pass the guards. -/
theorem object_sources_confined (host : Host) (policy : SourceUriPolicy) (rootFuel : ℕ)
    (references : List Text) (resourceName : String)
    (hnew : SourceUriPolicy.new host rootFuel references resourceName = .ok policy) :
    (∀ fuel reference uri, IsObjectReference host reference →
      policy.authorize host fuel reference = .ok uri →
        (∃ allowed ∈ references, ∃ scheme authority root names,
          Denotes host allowed scheme authority root ∧
          Denotes host reference scheme authority names ∧
          Denotes host uri scheme authority names ∧ root <+: names) ∧
        ∀ fuel, policy.authorize host fuel uri = .ok uri) ∧
    ∀ fuel fuel' reference other scheme authority names, scheme ≠ [] → scheme ≠ file →
      Denotes host reference scheme authority names → Denotes host other scheme authority names →
      IsPathOnly host reference → IsPathOnly host other →
        policy.authorize host fuel reference = policy.authorize host fuel' other := by
  constructor
  · rintro fuel reference uri ⟨parsed, hsplit, hscheme, hfile⟩ hauthorize
    have hobject : ¬ (parsed.scheme = [] ∨ parsed.scheme = file) := by
      rw [not_or]
      exact ⟨hscheme, hfile⟩
    rw [authorize_object hsplit hobject, authorizeObject_eq_ok] at hauthorize
    obtain ⟨location, hlocation, ⟨allowed, hallowed, hmatches⟩, rfl⟩ := hauthorize
    obtain ⟨origin, horigin, found, hfound, hfoundPrefix⟩ := mem_new hnew hallowed
    have hagain := urlsplit_location hsplit hlocation
    constructor
    · obtain ⟨-, -, rfl⟩ := objectPrefix_eq_ok.mp hfoundPrefix
      obtain ⟨-, -, rfl⟩ := objectPrefix_eq_ok.mp hlocation
      rw [matchesObjectPrefix_iff isName_of_mem_normpath isName_of_mem_normpath] at hmatches
      obtain ⟨hsame, hauthority, hbelow⟩ := hmatches
      refine ⟨origin, horigin, parsed.scheme, parsed.netloc, _, _,
        ⟨found, hfound, hsame.symm, hauthority.symm, rfl⟩, ⟨parsed, hsplit, rfl, rfl, rfl⟩,
        ⟨_, hagain, rfl, rfl, ?_⟩, hbelow⟩
      dsimp only
      rw [unquote_location, normpath_placeText isName_of_mem_normpath]
    · intro fuel
      rw [authorize_object hagain hobject, authorizeObject_eq_ok]
      exact ⟨location, objectPrefix_location hlocation, ⟨allowed, hallowed, hmatches⟩, rfl⟩
  · rintro fuel fuel' reference other scheme authority names hscheme hfile
      ⟨parsed, hsplit, rfl, rfl, hnames⟩ ⟨found, hfound, hsame, hauthority, hnames'⟩
      ⟨parsed', hsplit', hplain⟩ ⟨found', hfound', hplain'⟩
    rw [hsplit] at hsplit'
    cases hsplit'
    rw [hfound] at hfound'
    cases hfound'
    have hobject : ¬ (parsed.scheme = [] ∨ parsed.scheme = file) := by
      rw [not_or]
      exact ⟨hscheme, hfile⟩
    rw [authorize_object hsplit hobject, authorize_object hfound (by rwa [hsame])]
    exact authorizeObject_congr hsame.symm hauthority.symm (hnames.trans hnames'.symm) hplain hplain'

/-! ## A bucket -/

theorem containsGlob_of_none : ∀ root ∈ ([] : List (Symlinks.Place Text)),
    containsGlob (placeText root) = false :=
  List.forall_mem_nil _

theorem containsGlob_data :
    ∀ allowed ∈ [ObjectPrefix.mk "s3".toList "bucket".toList "/data".toList],
      containsGlob allowed.path = false :=
  List.forall_mem_singleton.mpr (by decide)

def bucketPolicy : SourceUriPolicy where
  fileRoots := []
  objectPrefixes := [⟨"s3".toList, "bucket".toList, "/data".toList⟩]
  resourceName := "Parquet source"
  roots_plain := containsGlob_of_none
  prefixes_plain := containsGlob_data

theorem new_bucketPolicy : SourceUriPolicy.new linkedHost 0 ["s3://bucket/data/".toList]
    "Parquet source" = .ok bucketPolicy := by
  have hsplit : urlsplit linkedHost.checkNetloc "s3://bucket/data/".toList =
      .ok ⟨"s3".toList, "bucket".toList, "/data/".toList, [], []⟩ := by decide +kernel
  have hprefix : objectPrefix ⟨"s3".toList, "bucket".toList, "/data/".toList, [], []⟩ =
      .ok ⟨"s3".toList, "bucket".toList, "/data".toList⟩ := by decide +kernel
  unfold SourceUriPolicy.new
  rw [List.foldlM_cons, SourceUriPolicy.allow, hsplit, raised_ok, ok_bind, if_neg (by decide),
    hprefix, raised_ok, ok_bind, dif_pos (by decide)]
  rfl

/-- Percent signs that were encoded twice stay encoded once more than the path. -/
theorem bucket_sources_confined :
    (∃ allowed ∈ ["s3://bucket/data/".toList], ∃ scheme authority root names,
      Denotes linkedHost allowed scheme authority root ∧
      Denotes linkedHost "S3://bucket/x/..//data/./a%252Fb".toList scheme authority names ∧
      Denotes linkedHost "s3://bucket/data/a%252Fb".toList scheme authority names ∧
      root <+: names) ∧
    ∀ fuel, bucketPolicy.authorize linkedHost fuel "s3://bucket/data/a%252Fb".toList =
      .ok "s3://bucket/data/a%252Fb".toList :=
  (object_sources_confined linkedHost bucketPolicy 0 _ _ new_bucketPolicy).1 0
    "S3://bucket/x/..//data/./a%252Fb".toList _ ⟨_, rfl, by decide +kernel, by decide +kernel⟩
    (by decide +kernel)

/-- A control character on a part of the path that the dots leave again is not looked over. -/
theorem left_control_rejected :
    SourceUriPolicy.new linkedHost 0 ["s3://bucket/data/".toList] "Parquet source" =
      .ok bucketPolicy ∧
    Denotes linkedHost "s3://bucket/%01/../data".toList "s3".toList "bucket".toList
      ["data".toList] ∧
    Denotes linkedHost "s3://bucket/data".toList "s3".toList "bucket".toList ["data".toList] ∧
    bucketPolicy.authorize linkedHost 0 "s3://bucket/%01/../data".toList =
      .error (.raised "source URI paths must not contain control characters") ∧
    bucketPolicy.authorize linkedHost 0 "s3://bucket/data".toList =
      .ok "s3://bucket/data".toList := by
  have hleft : urlsplit linkedHost.checkNetloc "s3://bucket/%01/../data".toList =
      .ok ⟨"s3".toList, "bucket".toList, "/%01/../data".toList, [], []⟩ := by decide +kernel
  have hplain : urlsplit linkedHost.checkNetloc "s3://bucket/data".toList =
      .ok ⟨"s3".toList, "bucket".toList, "/data".toList, [], []⟩ := by decide +kernel
  refine ⟨new_bucketPolicy, ⟨_, hleft, rfl, rfl, by decide +kernel⟩,
    ⟨_, hplain, rfl, rfl, by decide +kernel⟩, by decide +kernel, by decide +kernel⟩

end ParqDB.Server
