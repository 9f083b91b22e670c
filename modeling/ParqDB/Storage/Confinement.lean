import ParqDB.Meta.History
import ParqDB.Storage.Addressing

/-!
# Relative paths stay below their root

`validate_relative_location` splits a path at its slashes and rejects dot segments; the
resolvers then hand the path to the URL parser, which ignores some code points, finds
schemes, and takes `%2e` for a dot.  So an accepted path can leave its root, and two
accepted paths can name one location.

**Strategy.**  `Base.parse_relative` says where a `Relative` path resolves: onto the
directory of its base, spelled as `Base.spelling` says.  From it follow confinement
(`Site.url_relative`, `Site.confines_of_relative`) and the exact condition for two paths
to share a location (`Site.location_eq_iff`).
-/

namespace ParqDB.Storage.Locations

open Foundations Foundations.Whatwg Meta

variable {hosts : HostParser} {crates : Crates}

/-! ## What the checks say -/

theorem pathOnly_of_valid {relative : String}
    (hvalid : validateRelativeLocation relative = .ok ()) : PathOnly relative.toList := by
  unfold validateRelativeLocation at hvalid
  dsimp only at hvalid
  generalize (if relative.toList.getLast? = some '/' then relative.toList.dropLast
    else relative.toList) = path at hvalid
  split at hvalid
  · cases hvalid
  · next haccepted =>
      simp only [Bool.or_eq_true, not_or, List.contains_iff_mem] at haccepted
      obtain ⟨⟨⟨⟨-, hbackslash⟩, hquestion⟩, hhash⟩, -⟩ := haccepted.1
      intro c hc
      refine ⟨?_, ?_⟩
      · simp only [isTail, Bool.or_eq_false_iff, decide_eq_false_iff_not]
        constructor
        · rintro rfl
          exact hquestion hc
        · rintro rfl
          exact hhash hc
      · rintro rfl
        exact hbackslash hc

variable {input : Text} {url : Whatwg.Url}

/-- A `file` URL has an authority, if an empty one. -/
theorem fileState_authority (hstate : fileState hosts none input = .ok url) :
    url.authority ≠ none := by
  obtain ⟨host, hauthority⟩ := fileState_local hstate
  rw [hauthority]
  exact Option.some_ne_none _

theorem parse_none_ok (hparse : parse hosts none input = .ok url) :
    ∃ rest, afterScheme hosts none url.scheme rest = .ok url := by
  unfold parse at hparse
  split at hparse
  · next scheme rest _ =>
      have hscheme := (reads_afterScheme (by simp) _ _ url hparse).1
      exact ⟨rest, by rw [hscheme]; exact hparse⟩
  · cases hparse

namespace Base

variable (base : Base hosts crates)

theorem accepted : (view base.url).query = none ∧ (view base.url).fragment = none ∧
    ((view base.url).hasHost = true ∨ (view base.url).scheme = "file") := by
  have hvalid := base.valid
  unfold validateAbsoluteLocation at hvalid
  obtain ⟨parsed, hparsed, hvalid⟩ := bind_eq_ok.mp hvalid
  simp only [urlCrates, base.parsed, Except.map, Except.ok.injEq] at hparsed
  subst hparsed
  split at hvalid
  · cases hvalid
  · next hchecks =>
      simp only [Bool.or_eq_true, Bool.and_eq_true, not_or, not_and, Option.isSome_iff_ne_none,
        ne_eq, not_not, decide_eq_true_eq] at hchecks
      obtain ⟨⟨⟨⟨hserved, -⟩, -⟩, hquery⟩, hfragment⟩ := hchecks
      refine ⟨hquery, hfragment, ?_⟩
      by_cases hhost : (view base.url).hasHost = true
      · exact Or.inl hhost
      · exact Or.inr (hserved (by simpa using hhost))

theorem query_none : base.url.query = none := by
  simpa [view] using base.accepted.1

theorem fragment_none : base.url.fragment = none := by
  simpa [view] using base.accepted.2.1

theorem isNormal : base.url.IsNormal := parse_normal (by simp) base.parsed

theorem authority_ne_none : base.url.authority ≠ none := by
  rcases base.accepted.2.2 with hhost | hfile
  · intro hnone
    simp [view, hnone] at hhost
  · have hscheme : base.url.scheme = file := by
      have hchars := congrArg String.toList hfile
      rw [view, String.toList_ofList] at hchars
      exact hchars
    obtain ⟨rest, hstate⟩ := parse_none_ok base.parsed
    unfold afterScheme at hstate
    rw [if_pos hscheme] at hstate
    exact fileState_authority hstate

/-- The URL of a list of segments below the directory of the base. -/
def under (segments : List Text) : Whatwg.Url :=
  { base.url with path := .segments (base.directory ++ segments) }

theorem under_name : base.under [base.name] = base.url := by
  have hpath := base.path
  unfold under
  rw [← hpath]

theorem shorten_path (isFile : Bool) :
    shorten isFile (base.directory ++ [base.name]) =
      base.directory ++ shorten (isFile && base.directory.isEmpty) [base.name] :=
  shorten_append _ _ (by simp)

variable {relative : String}

/-- A relative path resolves to its spelling below the directory of the base. -/
theorem parse_relative (hvalid : validateRelativeLocation relative = .ok ())
    (hrelative : Relative relative) :
    parse hosts (some base.url) relative.toList = .ok (base.under (base.spelling relative)) := by
  have honly := pathOnly_of_valid hvalid
  have hclean : PathOnly (kept relative) := pathOnly_clean honly
  by_cases hempty : kept relative = []
  · have hspelling : base.spelling relative = [base.name] := by
      unfold spelling
      rw [if_pos hempty]
    rw [parse_empty base.path hempty, hspelling, base.under_name, ← base.fragment_none]
  · rw [Whatwg.parse_relative base.path honly hrelative.scheme hempty hrelative.root]
    have hstart : startingPath base.url (base.directory ++ [base.name]) (kept relative) =
        base.directory ++ shorten (base.url.scheme = file && base.directory.isEmpty) [base.name] := by
      rw [startingPath, if_neg (by simp [hrelative.drive]), base.shorten_path]
    have hread : readPath base.url.scheme (startingPath base.url (base.directory ++ [base.name])
        (kept relative)) (kept relative) = base.directory ++ base.spelling relative := by
      unfold readPath spelling
      rw [hstart, hclean.encodedSegments_eq, if_neg hempty]
      refine walk_append fun hdirectory => ?_
      have hnothing : shorten (decide (base.url.scheme = file) && base.directory.isEmpty)
          [base.name] = [] := by
        have hlong : base.directory.isEmpty = false := by simpa using hdirectory
        rw [hlong, Bool.and_false, shorten_false]
        rfl
      rw [hnothing]
      exact hrelative.stays
    unfold kept at hread
    rw [hread]
    simp [under, base.query_none, base.fragment_none]

theorem spelling_ne_nil (relative : String) : base.spelling relative ≠ [] := by
  unfold spelling
  dsimp only
  split
  · simp
  · exact walk_ne_nil (encodedSegments_ne_nil _ _)

theorem isNormal_under (hvalid : validateRelativeLocation relative = .ok ())
    (hrelative : Relative relative) : (base.under (base.spelling relative)).IsNormal := by
  refine parse_normal ?_ (base.parse_relative hvalid hrelative)
  intro url hurl
  cases hurl
  exact base.isNormal

variable {base}

theorem IsRoot.slashed_eq (hroot : base.IsRoot) : slashed base.url = base.url := by
  have hend : base.url.pathText.getLast? = some '/' := by
    rw [Url.pathText_eq base.path, hroot]
    simp
  rw [slashed, if_pos hend]

variable {segments : List Text}

theorem slashed_under (hsegments : segments ≠ []) (hnormal : (base.under segments).IsNormal) :
    slashed (base.under segments) = base.under (closed segments) := by
  have hfree : SlashFree (base.directory ++ segments) := (hnormal _ rfl).slashFree
  have hlast : (base.directory ++ segments).getLast? = segments.getLast? := by
    rw [List.getLast?_append_of_ne_nil _ hsegments]
  have hend : (base.under segments).pathText.getLast? = some '/' ↔
      segments.getLast? = some [] := by
    rw [Url.pathText_eq rfl, segmentsText_endsWith_slash hfree, hlast]
  unfold slashed closed
  by_cases hclosed : segments.getLast? = some []
  · rw [if_pos (hend.mpr hclosed), if_pos hclosed]
  · rw [if_neg fun hslash => hclosed (hend.mp hslash), if_neg hclosed, setPath_slash rfl hnormal]
    simp [under]

theorem closed_normal (hnormal : (base.under segments).IsNormal) :
    (base.under (closed segments)).IsNormal := by
  unfold closed
  split
  · exact hnormal
  · intro other hother
    obtain rfl : base.directory ++ (segments ++ [[]]) = other := by
      simpa [under] using hother
    rw [← List.append_assoc]
    exact (hnormal _ rfl).append_nil_segment

theorem below_under (hsegments : segments ≠ []) :
    Below (base.under [[]]) (base.under segments) where
  scheme := rfl
  authority := rfl
  path := by
    obtain ⟨first, rest, rfl⟩ := List.exists_cons_of_ne_nil hsegments
    rw [Url.pathText_eq rfl, Url.pathText_eq rfl]
    simp

/-- The text of a location below a base determines its segments. -/
theorem under_injective {left right : List Text} (hleft : (base.under left).IsNormal)
    (hright : (base.under right).IsNormal) (hsame : (base.under left).text = (base.under right).text) :
    left = right := by
  obtain ⟨authority, hauthority⟩ := Option.ne_none_iff_exists'.mp base.authority_ne_none
  have hpart : ∀ segments, (base.under segments).authorityPart =
      '/' :: '/' :: Url.authorityText authority := by
    intro segments
    simp [Url.authorityPart, under, hauthority]
  have htail : ∀ segments, (base.under segments).tailText = [] := by
    intro segments
    simp [Url.tailText, under, base.query_none, base.fragment_none]
  have hpath : (base.under left).pathText = (base.under right).pathText := by
    unfold Url.text at hsame
    rw [hpart, hpart, htail, htail] at hsame
    simpa [under] using hsame
  rw [Url.pathText_eq rfl, Url.pathText_eq rfl] at hpath
  have hlists := segmentsText_injective (hleft _ rfl).slashFree (hright _ rfl).slashFree hpath
  exact List.append_cancel_left hlists

end Base

/-! ## Relative paths at a site -/

namespace Site

variable {site : Site hosts crates} {relative : String}

theorem childUrl_relative {root : Base hosts crates} (hroot : root.IsRoot) (directory : Bool)
    (hvalid : validateRelativeLocation relative = .ok ()) (hrelative : Relative relative) :
    childUrl hosts root.text relative directory = .ok (root.under
      (if directory then closed (root.spelling relative) else root.spelling relative)) := by
  have hslashed := Base.slashed_under (root.spelling_ne_nil relative)
    (root.isNormal_under hvalid hrelative)
  unfold childUrl
  rw [root.parsed]
  simp only [bind, Except.bind, hroot.slashed_eq, root.parse_relative hvalid hrelative, pure,
    Except.pure]
  cases directory with
  | false => rfl
  | true => simp [hslashed]

/-- A relative path resolves to its spelling below the root of the site. -/
theorem url_relative (hvalid : validateRelativeLocation relative = .ok ())
    (hrelative : Relative relative) :
    site.url relative = .ok (site.base.under (site.spelling relative)) := by
  cases site with
  | warehouse root hroot directory =>
      simp only [url, warehouseUrl, hvalid, bind, Except.bind]
      exact childUrl_relative hroot directory hvalid hrelative
  | child root hroot directory => exact childUrl_relative hroot directory hvalid hrelative
  | artifact manifest =>
      simp only [url, artifactUrl, manifest.valid, hvalid, manifest.parsed, bind, Except.bind]
      exact manifest.parse_relative hvalid hrelative

theorem spelling_cases (site : Site hosts crates) (relative : String) :
    site.spelling relative = site.base.spelling relative ∨
      site.spelling relative = closed (site.base.spelling relative) := by
  cases site with
  | warehouse root hroot directory => cases directory <;> simp [spelling, base]
  | child root hroot directory => cases directory <;> simp [spelling, base]
  | artifact manifest => exact Or.inl rfl

theorem spelling_ne_nil (site : Site hosts crates) (relative : String) :
    site.spelling relative ≠ [] := by
  rcases site.spelling_cases relative with hsame | hclosed
  · rw [hsame]
    exact site.base.spelling_ne_nil relative
  · rw [hclosed]
    unfold closed
    split
    · exact site.base.spelling_ne_nil relative
    · simp

theorem isNormal_spelling (hvalid : validateRelativeLocation relative = .ok ())
    (hrelative : Relative relative) : (site.base.under (site.spelling relative)).IsNormal := by
  have hnormal := site.base.isNormal_under hvalid hrelative
  rcases site.spelling_cases relative with hsame | hclosed
  · rw [hsame]
    exact hnormal
  · rw [hclosed]
    exact Base.closed_normal hnormal

theorem confines_of_relative (hvalid : validateRelativeLocation relative = .ok ())
    (hrelative : Relative relative) : site.Confines relative :=
  ⟨_, url_relative hvalid hrelative, Base.below_under (site.spelling_ne_nil relative)⟩

/-- Two relative paths share a location exactly when they are spelled alike. -/
theorem location_eq_iff {first second : String}
    (hfirst : validateRelativeLocation first = .ok ()) (hfirstRelative : Relative first)
    (hsecond : validateRelativeLocation second = .ok ()) (hsecondRelative : Relative second) :
    (∃ location, site.location first = .ok location ∧ site.location second = .ok location) ↔
      site.spelling first = site.spelling second := by
  simp only [location_eq, url_relative hfirst hfirstRelative, url_relative hsecond hsecondRelative,
    Except.map, Except.ok.injEq, exists_eq_left', String.ofList_inj]
  constructor
  · intro hsame
    exact Base.under_injective (isNormal_spelling hfirst hfirstRelative)
      (isNormal_spelling hsecond hsecondRelative) hsame.symm
  · intro hsame
    rw [hsame]

end Site

/-!
## Which accepted paths leave their root

A path that is not `Relative` resolves to one scheme, one authority or one path against
roots that differ in it, so it leaves one of them (`relative_of_confined`).  With
`Site.location_eq_iff` this gives the exact condition under which accepted paths stay
below every root and apart (`locations_confined_iff`); `%2e%2e/x` does not meet it.
-/

/-! ## Roots that differ in their bucket, their directory or their scheme -/

theorem valid_of_parsed {text : String} {url : Whatwg.Url}
    (hparsed : parse hosts none text.toList = .ok url)
    (hserved : (view url).hasHost = true ∨ (view url).scheme = "file")
    (hplain : (view url).username = "" ∧ (view url).password = none ∧ (view url).query = none ∧
      (view url).fragment = none) :
    validateAbsoluteLocation (urlCrates hosts crates) text = .ok () := by
  obtain ⟨husername, hpassword, hquery, hfragment⟩ := hplain
  have hview : (urlCrates hosts crates).parseUrl text = .ok (view url) := by
    simp [urlCrates, hparsed, Except.map]
  unfold validateAbsoluteLocation
  rw [hview]
  rcases hserved with hhost | hfile
  · simp [bind, Except.bind, husername, hpassword, hquery, hfragment, hhost]
  · simp [bind, Except.bind, husername, hpassword, hquery, hfragment, hfile]

def letter (first : Bool) : Char := bif first then 'a' else 'b'

/-- `s3://a/a/`, with `b` for each `false`. -/
def bucketText (bucket directory : Bool) : String :=
  String.ofList ['s', '3', ':', '/', '/', letter bucket, '/', letter directory, '/']

def bucketUrl (bucket directory : Bool) : Whatwg.Url :=
  ⟨['s', '3'], some ⟨[], [], [letter bucket], none⟩, .segments [[letter directory], []], none, none⟩

theorem parse_bucketText (bucket directory : Bool) :
    parse hosts none (bucketText bucket directory).toList = .ok (bucketUrl bucket directory) := by
  rw [bucketText, String.toList_ofList]
  cases bucket <;> cases directory <;> rfl

/-- `file:///a/`, with `b` for `false`. -/
def localText (directory : Bool) : String :=
  String.ofList ['f', 'i', 'l', 'e', ':', '/', '/', '/', letter directory, '/']

def localUrl (directory : Bool) : Whatwg.Url :=
  ⟨file, some localAuthority, .segments [[letter directory], []], none, none⟩

theorem parse_localText (directory : Bool) :
    parse hosts none (localText directory).toList = .ok (localUrl directory) := by
  rw [localText, String.toList_ofList]
  cases directory <;> rfl

variable (hosts crates)

def bucketRoot (bucket directory : Bool) : Base hosts crates where
  text := bucketText bucket directory
  url := bucketUrl bucket directory
  parsed := parse_bucketText bucket directory
  valid := valid_of_parsed (parse_bucketText bucket directory) (Or.inl rfl) ⟨rfl, rfl, rfl, rfl⟩
  directory := [[letter directory]]
  name := []
  path := rfl

def localRoot (directory : Bool) : Base hosts crates where
  text := localText directory
  url := localUrl directory
  parsed := parse_localText directory
  valid := valid_of_parsed (parse_localText directory) (Or.inr rfl) ⟨rfl, rfl, rfl, rfl⟩
  directory := [[letter directory]]
  name := []
  path := rfl

variable {hosts crates}

/-! ## Paths that are not relative -/

/-- A path that stays below every root. -/
def ConfinedEverywhere (hosts : HostParser) (crates : Crates) (relative : String) : Prop :=
  ∀ site : Site hosts crates, site.Confines relative

variable {relative : String}

theorem ConfinedEverywhere.parse_ok (hconfined : ConfinedEverywhere hosts crates relative)
    (hvalid : validateRelativeLocation relative = .ok ()) {root : Base hosts crates}
    (hroot : root.IsRoot) :
    ∃ url, parse hosts (some root.url) relative.toList = .ok url ∧
      Below (root.under [[]]) url := by
  obtain ⟨url, hurl, hbelow⟩ := hconfined (.warehouse root hroot false)
  refine ⟨url, ?_, hbelow⟩
  simp only [Site.url, warehouseUrl, hvalid, bind, Except.bind, childUrl, root.parsed,
    hroot.slashed_eq] at hurl
  cases hparse : parse hosts (some root.url) relative.toList with
  | error error => simp [hparse] at hurl
  | ok other => simpa [hparse, pure, Except.pure] using hurl

/-- No path has both `/a/` and `/b/` as a beginning. -/
theorem not_both_letters {path : Text} (hfirst : ['/', 'a', '/'] <+: path)
    (hsecond : ['/', 'b', '/'] <+: path) : False := by
  obtain ⟨rest, rfl⟩ := hfirst
  obtain ⟨other, hsame⟩ := hsecond
  simp at hsame

/-- A reference that reads the same path against roots that differ in it leaves one. -/
theorem ConfinedEverywhere.bucket_path (hconfined : ConfinedEverywhere hosts crates relative)
    (hvalid : validateRelativeLocation relative = .ok ()) (path : Path)
    (hsame : ∀ directory url, parse hosts (some (bucketUrl true directory)) relative.toList =
      .ok url → url.path = path) : False := by
  obtain ⟨first, hfirst, hbelowFirst⟩ :=
    hconfined.parse_ok hvalid (show (bucketRoot hosts crates true true).IsRoot from rfl)
  obtain ⟨second, hsecond, hbelowSecond⟩ :=
    hconfined.parse_ok hvalid (show (bucketRoot hosts crates true false).IsRoot from rfl)
  have hpaths : first.pathText = second.pathText := by
    unfold Url.pathText
    rw [hsame true first hfirst, hsame false second hsecond]
  refine not_both_letters hbelowFirst.path ?_
  rw [hpaths]
  exact hbelowSecond.path

theorem pathState_path (url : Whatwg.Url) (path : List Text) (input : Text) :
    (pathState url path input).path =
      .segments (readPath url.scheme path (input.takeWhile (!isTail ·))) := by
  simp [pathState]

section

variable (hconfined : ConfinedEverywhere hosts crates relative)
  (hvalid : validateRelativeLocation relative = .ok ())

include hconfined hvalid

theorem no_scheme_of_confined : scheme? (kept relative) = none := by
  cases hfound : scheme? (kept relative) with
  | none => rfl
  | some found =>
      exfalso
      have hread : ∀ {root : Base hosts crates}, root.IsRoot → root.url.scheme = found.1 := by
        intro root hroot
        obtain ⟨url, hurl, hbelow⟩ := hconfined.parse_ok hvalid hroot
        rw [parse_of_scheme hfound] at hurl
        have hnormal : ∀ base ∈ some root.url, base.IsNormal := by
          intro base hbase
          cases hbase
          exact root.isNormal
        exact hbelow.scheme.symm.trans (reads_afterScheme hnormal _ _ url hurl).1
      have hbucket := hread (show (bucketRoot hosts crates true true).IsRoot from rfl)
      have hlocal := hread (show (localRoot hosts crates true).IsRoot from rfl)
      have hboth := hbucket.trans hlocal.symm
      exact absurd hboth (show ['s', '3'] ≠ file by decide)

theorem no_root_of_confined : (kept relative).head? ≠ some '/' := by
  intro hhead
  have hscheme := no_scheme_of_confined hconfined hvalid
  obtain ⟨rest, hkept⟩ : ∃ rest, kept relative = '/' :: rest := by
    cases hinput : kept relative with
    | nil => simp [hinput] at hhead
    | cons first rest =>
        obtain rfl : first = '/' := by simpa [hinput] using hhead
        exact ⟨rest, rfl⟩
  have hparse : ∀ bucket directory, parse hosts (some (bucketUrl bucket directory))
      relative.toList = relativeSlashState hosts (bucketUrl bucket directory) rest := by
    intro bucket directory
    unfold kept at hscheme hkept
    rw [parse_of_segments rfl hscheme, hkept]
    rfl
  by_cases hauthority : rest.head? = some '/'
  · -- the path names an authority, so it cannot stay at both buckets
    obtain ⟨tail, rfl⟩ : ∃ tail, rest = '/' :: tail := by
      cases rest with
      | nil => cases hauthority
      | cons first tail =>
          obtain rfl : first = '/' := by simpa using hauthority
          exact ⟨tail, rfl⟩
    obtain ⟨first, hfirst, hbelowFirst⟩ :=
      hconfined.parse_ok hvalid (show (bucketRoot hosts crates true true).IsRoot from rfl)
    obtain ⟨second, hsecond, hbelowSecond⟩ :=
      hconfined.parse_ok hvalid (show (bucketRoot hosts crates false true).IsRoot from rfl)
    have hsame : first = second := by
      have hone := (hparse true true).symm.trans hfirst
      have htwo := (hparse false true).symm.trans hsecond
      exact Except.ok.inj (hone.symm.trans htwo)
    have hauthorities := hbelowFirst.authority.symm.trans (hsame ▸ hbelowSecond.authority)
    exact absurd hauthorities (by simp [Base.under, bucketRoot, bucketUrl, letter])
  · -- the path is rooted, so it does not depend on the directory
    refine hconfined.bucket_path hvalid (.segments (readPath ['s', '3'] []
      (rest.takeWhile (!isTail ·)))) ?_
    intro directory url hurl
    rw [hparse] at hurl
    cases rest with
    | nil =>
        cases hurl
        rw [pathState_path]
        rfl
    | cons first tail =>
        have hfirst : first ≠ '/' := by simpa using hauthority
        have hspecial : isSpecial (bucketUrl true directory).scheme = false := rfl
        simp only [relativeSlashState, hspecial, Bool.false_and, Bool.false_eq_true, if_false,
          hfirst] at hurl
        cases hurl
        rw [pathState_path]
        rfl

theorem no_drive_of_confined :
    startsWithDriveLetter (kept relative) = false := by
  by_contra hdrive
  have hdrive : startsWithDriveLetter (kept relative) = true := by simpa using hdrive
  have hnonempty : kept relative ≠ [] := by
    intro hempty
    rw [hempty] at hdrive
    cases hdrive
  have hparse : ∀ directory, ∃ url,
      parse hosts (some (localUrl directory)) relative.toList = .ok url ∧
        url.path = .segments (readPath file [] (kept relative)) := by
    intro directory
    refine ⟨_, Whatwg.parse_relative rfl (pathOnly_of_valid hvalid)
      (no_scheme_of_confined hconfined hvalid) hnonempty
      (no_root_of_confined hconfined hvalid), ?_⟩
    have hstart : startingPath (localUrl directory) [[letter directory], []] (kept relative) =
        [] := by
      rw [startingPath, if_pos ⟨rfl, hdrive⟩]
    unfold kept at hstart ⊢
    simp only [hstart]
    rfl
  obtain ⟨first, hfirst, hbelowFirst⟩ :=
    hconfined.parse_ok hvalid (show (localRoot hosts crates true).IsRoot from rfl)
  obtain ⟨second, hsecond, hbelowSecond⟩ :=
    hconfined.parse_ok hvalid (show (localRoot hosts crates false).IsRoot from rfl)
  obtain ⟨one, hone, honePath⟩ := hparse true
  obtain ⟨two, htwo, htwoPath⟩ := hparse false
  obtain rfl : one = first := Except.ok.inj (hone.symm.trans hfirst)
  obtain rfl : two = second := Except.ok.inj (htwo.symm.trans hsecond)
  have hpaths : one.pathText = two.pathText := by
    unfold Url.pathText
    rw [honePath, htwoPath]
  refine not_both_letters hbelowFirst.path ?_
  rw [hpaths]
  exact hbelowSecond.path

theorem stays_of_confined :
    climbs 0 (encodedSegments false (kept relative)) = false := by
  by_contra hclimbs
  have hclimbs : climbs 0 (encodedSegments false (kept relative)) = true := by simpa using hclimbs
  have hnonempty : kept relative ≠ [] := by
    intro hempty
    rw [hempty] at hclimbs
    revert hclimbs
    decide
  refine hconfined.bucket_path hvalid (.segments
    (walk false [['a']] (encodedSegments false (kept relative)))) ?_
  intro directory url hurl
  rw [Whatwg.parse_relative rfl (pathOnly_of_valid hvalid)
    (no_scheme_of_confined hconfined hvalid) hnonempty
    (no_root_of_confined hconfined hvalid)] at hurl
  cases hurl
  have hread : readPath ['s', '3'] [[letter directory]] (kept relative) =
      walk false [['a']] (encodedSegments false (kept relative)) := by
    have hclean : PathOnly (kept relative) := pathOnly_clean (pathOnly_of_valid hvalid)
    have hfile : decide (['s', '3'] = file) = false := by decide
    rw [readPath, hclean.encodedSegments_eq, hfile]
    exact climbs_irrelevant hclimbs
  exact congrArg Path.segments hread

/-- Only relative paths stay below every root. -/
theorem relative_of_confined : Relative relative where
  scheme := no_scheme_of_confined hconfined hvalid
  root := no_root_of_confined hconfined hvalid
  drive := no_drive_of_confined hconfined hvalid
  stays := stays_of_confined hconfined hvalid

end

/-- Two accepted paths stay below every root and name different locations there exactly
when the URL parser reads both as relative paths and spells them differently. -/
theorem locations_confined_iff (hosts : HostParser) (crates : Crates) (first second : String)
    (hfirst : validateRelativeLocation first = .ok ())
    (hsecond : validateRelativeLocation second = .ok ()) :
    (∀ site : Site hosts crates,
      site.Confines first ∧ site.Confines second ∧ site.Separates first second) ↔
    Relative first ∧ Relative second ∧
      ∀ site : Site hosts crates, site.spelling first = site.spelling second → first = second := by
  constructor
  · intro hkept
    have hfirstRelative := relative_of_confined (fun site => (hkept site).1) hfirst
    have hsecondRelative := relative_of_confined (fun site => (hkept site).2.1) hsecond
    refine ⟨hfirstRelative, hsecondRelative, fun site hspelling => ?_⟩
    obtain ⟨location, hlocation, hother⟩ := (Site.location_eq_iff hfirst hfirstRelative hsecond
      hsecondRelative).mpr hspelling
    exact (hkept site).2.2 location hlocation hother
  · rintro ⟨hfirstRelative, hsecondRelative, hdistinct⟩ site
    refine ⟨Site.confines_of_relative hfirst hfirstRelative,
      Site.confines_of_relative hsecond hsecondRelative, fun location hlocation hother => ?_⟩
    exact hdistinct site ((Site.location_eq_iff hfirst hfirstRelative hsecond
      hsecondRelative).mp ⟨location, hlocation, hother⟩)

/-! ## Samples -/

/-- Hosts that are read as they stand. -/
def sampleHosts : HostParser := ⟨.ok, fun _ => .error "invalid IPv6 address"⟩

def oneLetter (c : Char) : String := String.ofList [c]

theorem kept_oneLetter (first : Bool) : kept (oneLetter (letter first)) = [letter first] := by
  rw [kept, oneLetter, String.toList_ofList]
  cases first <;> rfl

theorem spelling_oneLetter (base : Base hosts crates) (first : Bool) :
    base.spelling (oneLetter (letter first)) =
      shorten (base.url.scheme = file && base.directory.isEmpty) [base.name] ++
        [[letter first]] := by
  have hsegments : encodedSegments false [letter first] = [[letter first]] := by
    cases first <;> rfl
  have hdots : isDoubleDot [letter first] = false ∧ isSingleDot [letter first] = false := by
    revert first
    decide
  unfold Base.spelling
  rw [kept_oneLetter, hsegments]
  simp [walk, pushSegment, hdots, storedSegment, isDriveLetter]

theorem accepts_oneLetter (first : Bool) :
    validateRelativeLocation (oneLetter (letter first)) = .ok () := by
  unfold validateRelativeLocation oneLetter
  rw [String.toList_ofList]
  cases first <;> rfl

theorem relative_oneLetter (first : Bool) : Relative (oneLetter (letter first)) where
  scheme := by
    rw [kept_oneLetter]
    cases first <;> rfl
  root := by
    rw [kept_oneLetter]
    revert first
    decide
  drive := by
    rw [kept_oneLetter]
    rfl
  stays := by
    rw [kept_oneLetter]
    cases first <;> rfl

/-- The paths `a` and `b` stay apart below every root. -/
theorem letters_confined : oneLetter 'a' ≠ oneLetter 'b' ∧
    ∀ site : Site sampleHosts sampleCrates,
      site.Confines (oneLetter 'a') ∧ site.Confines (oneLetter 'b') ∧
        site.Separates (oneLetter 'a') (oneLetter 'b') := by
  refine ⟨by decide, (locations_confined_iff sampleHosts sampleCrates (oneLetter 'a')
    (oneLetter 'b') (accepts_oneLetter true) (accepts_oneLetter false)).mpr
    ⟨relative_oneLetter true, relative_oneLetter false, fun site hspelling => ?_⟩⟩
  have hspelled : ∀ (base : Base sampleHosts sampleCrates), ∃ start,
      base.spelling (oneLetter 'a') = start ++ [['a']] ∧
      base.spelling (oneLetter 'b') = start ++ [['b']] :=
    fun base => ⟨_, spelling_oneLetter base true, spelling_oneLetter base false⟩
  exfalso
  cases site with
  | warehouse root hroot directory =>
      obtain ⟨start, hfirst, hsecond⟩ := hspelled root
      cases directory <;> simp [Site.spelling, hfirst, hsecond, closed] at hspelling
  | child root hroot directory =>
      obtain ⟨start, hfirst, hsecond⟩ := hspelled root
      cases directory <;> simp [Site.spelling, hfirst, hsecond, closed] at hspelling
  | artifact manifest =>
      obtain ⟨start, hfirst, hsecond⟩ := hspelled manifest
      simp [Site.spelling, hfirst, hsecond] at hspelling

/-- `%2e%2e/x`, whose dots the URL parser reads as dots. -/
def encodedDots : String := String.ofList ['%', '2', 'e', '%', '2', 'e', '/', 'x']

/-- `file:///x`. -/
def outside : Whatwg.Url := ⟨file, some localAuthority, .segments [['x']], none, none⟩

theorem accepts_encodedDots : validateRelativeLocation encodedDots = .ok () := by
  unfold validateRelativeLocation encodedDots
  rw [String.toList_ofList]
  rfl

theorem encodedDots_url :
    (Site.warehouse (localRoot sampleHosts sampleCrates true) rfl false).url encodedDots =
      .ok outside := by
  have hroot : (localRoot sampleHosts sampleCrates true).IsRoot := rfl
  have hparse : parse sampleHosts (some (localRoot sampleHosts sampleCrates true).url)
      encodedDots.toList = .ok outside := by
    rw [encodedDots, String.toList_ofList]
    rfl
  simp only [Site.url, warehouseUrl, accepts_encodedDots, bind, Except.bind, childUrl,
    (localRoot sampleHosts sampleCrates true).parsed, hroot.slashed_eq, hparse]
  rfl

/-- `%2e%2e/x` is accepted, and leaves the root `file:///a/` for `file:///x`. -/
theorem encoded_dots_leave_root :
    validateRelativeLocation encodedDots = .ok () ∧
    resolveWarehouseLocation sampleHosts (localText true) encodedDots false =
      .ok (String.ofList ['f', 'i', 'l', 'e', ':', '/', '/', '/', 'x']) ∧
    ¬ ∀ relative, validateRelativeLocation relative = .ok () →
      ∀ site : Site sampleHosts sampleCrates, site.Confines relative := by
  refine ⟨accepts_encodedDots, ?_, fun hconfined => ?_⟩
  · have hlocation := (Site.warehouse (localRoot sampleHosts sampleCrates true) rfl
      false).location_eq encodedDots
    rw [encodedDots_url] at hlocation
    exact hlocation
  · obtain ⟨url, hurl, hbelow⟩ := hconfined encodedDots accepts_encodedDots
      (.warehouse (localRoot sampleHosts sampleCrates true) rfl false)
    obtain rfl : outside = url := Except.ok.inj (encodedDots_url.symm.trans hurl)
    exact absurd hbelow.path (by decide)

end ParqDB.Storage.Locations
