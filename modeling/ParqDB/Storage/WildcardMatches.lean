import Mathlib.Data.List.Sort
import ParqDB.Foundations.Globs
import ParqDB.Foundations.Quoting
import ParqDB.Storage.Addressing

/-!
# Sources with wildcards

`StorageRegistry::expand` (`parqdb-storage/src/registry.rs`): a URI whose path has stars is compared
with the objects that its store lists.  How a store lists its objects is a parameter.

* `wildcardPathMatches`: segment by segment, a star stands for a part of one segment.
* `concrete`: the objects that a location stands for, with the URLs that are returned for them.
* `pathToFileUri`: how a session spells a local path (`parqdb-local/src/local_uri.rs`).
-/

namespace ParqDB.Storage.Addressing

open Foundations Foundations.Whatwg

/-! ## Patterns -/

/-- What follows the first occurrence of a part. -/
def afterFirst (part : Text) : Text → Option Text
  | [] => if part = [] then some [] else none
  | c :: rest =>
      if part.isPrefixOf (c :: rest) then some ((c :: rest).drop part.length)
      else afterFirst part rest

/-- The loop over the parts between the stars. -/
def matchParts (endsWithStar : Bool) : Text → List Text → Bool
  | remainder, [] => endsWithStar || remainder.isEmpty
  | remainder, part :: parts =>
      if part = [] then matchParts endsWithStar remainder parts
      else if parts.isEmpty && !endsWithStar then part.isSuffixOf remainder
      else
        match afterFirst part remainder with
        | none => false
        | some remainder => matchParts endsWithStar remainder parts

def wildcardSegmentMatches (pattern candidate : Text) : Bool :=
  if '*' ∉ pattern then pattern = candidate
  else
    match pattern.splitOn '*' with
    | [] => false
    | start :: parts =>
        match candidate.dropPrefix? start with
        | none => false
        | some remainder => matchParts (pattern.getLast? = some '*') remainder parts

def wildcardPathMatches (pattern candidate : Text) : Bool :=
  (pattern.splitOn '/').length = (candidate.splitOn '/').length &&
    ((pattern.splitOn '/').zip (candidate.splitOn '/')).all fun pair =>
      wildcardSegmentMatches pair.1 pair.2

/-! ## Expansion -/

/-- A registry whose stores list their objects, all of them or those below a path. -/
structure ListingRegistry extends StorageRegistry where
  list : Text → Option Text → Except Error (List Text)
  list_valid : ∀ {store start objects}, list store start = .ok objects →
    ∀ object ∈ objects, validPath object = true

/-- An object, and the URL that is returned for it. -/
structure ConcreteFile where
  file : Text
  url : Whatwg.Url
  deriving DecidableEq

namespace ListingRegistry

variable (registry : ListingRegistry)

def concrete (resolved : ResolvedLocation) : Except Error (List ConcreteFile) :=
  if '*' ∉ resolved.path then .ok [⟨resolved.path, resolved.uri⟩]
  else do
    let start := resolved.path.takeWhile (· ≠ '*')
    let objects ← registry.list resolved.baseUrl (if start = [] then none else some start)
    let objects := (objects.filter (wildcardPathMatches resolved.path)).insertionSort (· ≤ ·)
    .ok (objects.map fun object => ⟨object, (baseUrl resolved.uri).setPath ('/' :: object)⟩)

/-- Resolves a concrete URI or expands a URI containing `*` path wildcards. -/
def expand (location : Text) : Except Error (List Text) := do
  let resolved ← registry.toStorageRegistry.resolve location
  let files ← registry.concrete resolved
  if files = [] then .error (.invalidLocation ("pattern matched no objects: ".toList ++ location))
  else .ok (files.map fun file => file.url.text)

end ListingRegistry

/-! ## What the expansion returns -/

variable {registry : ListingRegistry} {resolved : ResolvedLocation} {location : Text}
  {hosts : HostParser} {rest : Text}

theorem resolve_eq_ok {registry : StorageRegistry} :
    registry.resolve location = .ok resolved ↔
      parseLocation registry.hosts location = .ok resolved.uri ∧
        resolved.baseUrl = (baseUrl resolved.uri).text ∧ registry.clients resolved.baseUrl = true ∧
        registry.objectStore.fromUrlPath resolved.uri.pathText = .ok resolved.path := by
  unfold StorageRegistry.resolve
  rw [bind_eq_ok]
  constructor
  · rintro ⟨uri, huri, hresolved⟩
    dsimp only at hresolved
    split at hresolved
    · cases hresolved
    · next hclients =>
        split at hresolved
        · cases hresolved
        · next path hpath =>
            cases hresolved
            exact ⟨huri, rfl, by simpa using hclients, hpath⟩
  · rintro ⟨huri, hbase, hclients, hpath⟩
    refine ⟨resolved.uri, huri, ?_⟩
    dsimp only
    rw [← hbase, hclients, hpath]
    rfl

theorem expand_eq_ok {uris : List Text} :
    registry.expand location = .ok uris ↔
      ∃ resolved files, registry.toStorageRegistry.resolve location = .ok resolved ∧
        registry.concrete resolved = .ok files ∧ files ≠ [] ∧
        uris = files.map fun file => file.url.text := by
  unfold ListingRegistry.expand
  rw [bind_eq_ok]
  constructor
  · rintro ⟨resolved, hresolved, hrest⟩
    obtain ⟨files, hfiles, huris⟩ := bind_eq_ok.mp hrest
    split at huris
    · cases huris
    · next hne =>
        cases huris
        exact ⟨resolved, files, hresolved, hfiles, hne, rfl⟩
  · rintro ⟨resolved, files, hresolved, hfiles, hne, rfl⟩
    refine ⟨resolved, hresolved, ?_⟩
    rw [bind_eq_ok]
    exact ⟨files, hfiles, by rw [if_neg hne]⟩

/-- A file is the object of the path itself, or one that the store lists and the path matches. -/
theorem mem_concrete {files : List ConcreteFile} (hfiles : registry.concrete resolved = .ok files)
    {file : ConcreteFile} (hfile : file ∈ files) :
    ('*' ∉ resolved.path ∧ file = ⟨resolved.path, resolved.uri⟩) ∨
      ∃ start objects, registry.list resolved.baseUrl start = .ok objects ∧ file.file ∈ objects ∧
        wildcardPathMatches resolved.path file.file = true ∧
        file.url = (baseUrl resolved.uri).setPath ('/' :: file.file) := by
  unfold ListingRegistry.concrete at hfiles
  split at hfiles
  · next hplain =>
      cases hfiles
      exact Or.inl ⟨hplain, List.mem_singleton.mp hfile⟩
  · obtain ⟨objects, hobjects, hrest⟩ := bind_eq_ok.mp hfiles
    cases hrest
    obtain ⟨object, hobject, rfl⟩ := List.mem_map.mp hfile
    rw [List.mem_insertionSort, List.mem_filter] at hobject
    exact Or.inr ⟨_, objects, hobjects, hobject.1, hobject.2, rfl⟩

/-! ## Local paths -/

/-- The characters that `Url::from_file_path` encodes in a part of a path. -/
def segmentSet (c : Char) : Bool :=
  pathSet c || c = '/' || c = '%' || c = '\\'

/-- `path_to_file_uri`, for the names of an absolute path. -/
def pathToFileUri (names : List Text) : Text :=
  file ++ ':' :: '/' :: '/' :: '/' :: (segmentsText (names.map (percentEncode segmentSet))).drop 1

/-- A `file` URL without a host, a query and a fragment. -/
structure IsLocal (url : Whatwg.Url) : Prop where
  scheme : url.scheme = file
  authority : url.authority = some localAuthority
  query : url.query = none
  fragment : url.fragment = none
  path : ∃ segments, url.path = .segments segments ∧ segments ≠ [] ∧ Normal file segments

theorem normal_readPath (text : Text) :
    readPath file [] text ≠ [] ∧ Normal file (readPath file [] text) :=
  ⟨walk_ne_nil (encodedSegments_ne_nil _ text), (Normal.nil file).readPath⟩

theorem fileHostState_local (hrest : ∀ c ∈ rest, isTail c = false) :
    fileHostState hosts ('/' :: rest) =
      .ok ⟨file, some localAuthority, .segments (readPath file [] rest), none, none⟩ := by
  have htake : ('/' :: rest).takeWhile (!isAuthorityEnd true ·) = [] := rfl
  have hdrop : ('/' :: rest).dropWhile (!isAuthorityEnd true ·) = '/' :: rest := rfl
  have hall : rest.takeWhile (!isTail ·) = rest := by
    rw [List.takeWhile_eq_self_iff]
    intro c hc
    simp [hrest c hc]
  have hnone : rest.dropWhile (!isTail ·) = [] := by
    rw [List.dropWhile_eq_nil_iff]
    intro c hc
    simp [hrest c hc]
  unfold fileHostState
  rw [htake, hdrop]
  show Except.ok (pathState (fileUrl (some localAuthority)) [] rest) = _
  rw [pathState, hall, hnone]
  rfl

/-- A local path in a URI is read back as a path. -/
theorem parse_local (hrest : ∀ c ∈ rest, 0x20 < c.toNat ∧ isTail c = false) :
    parse hosts none (file ++ ':' :: '/' :: '/' :: '/' :: rest) =
      .ok ⟨file, some localAuthority, .segments (readPath file [] rest), none, none⟩ := by
  have hclean : clean (file ++ ':' :: '/' :: '/' :: '/' :: rest) =
      file ++ ':' :: '/' :: '/' :: '/' :: rest := by
    refine clean_eq_self fun c hc => ?_
    rcases List.mem_append.mp hc with hc | hc
    · have hfile : ∀ c ∈ file, 0x20 < c.toNat := List.all_iff_forall_prop.mp (by decide)
      exact hfile c hc
    · simp only [List.mem_cons] at hc
      rcases hc with rfl | rfl | rfl | rfl | hc
      · decide
      · decide
      · decide
      · decide
      · exact (hrest c hc).1
  rw [parse, hclean, scheme?_append isScheme_file]
  show fileHostState hosts ('/' :: rest) = _
  exact fileHostState_local fun c hc => (hrest c hc).2

theorem mem_percentEncode_segmentSet {text : Text} {c : Char}
    (hc : c ∈ percentEncode segmentSet text) : 0x20 < c.toNat ∧ isTail c = false := by
  obtain ⟨d, -, hc⟩ := List.mem_flatMap.mp hc
  split at hc
  · obtain ⟨byte, -, hbyte⟩ := List.mem_flatMap.mp hc
    exact not_pathSet_bounds (@isPlain_of_mem_percentEncodeByte true _ _ hbyte).1
  · next hplain =>
      obtain rfl := List.mem_singleton.mp hc
      simp only [segmentSet, Bool.or_eq_true, not_or] at hplain
      exact not_pathSet_bounds (by simpa using hplain.1.1.1)

theorem isLocal_of_resolve {registry : StorageRegistry} {names : List Text}
    (hresolved : registry.resolve (pathToFileUri names) = .ok resolved) : IsLocal resolved.uri := by
  obtain ⟨huri, -⟩ := resolve_eq_ok.mp hresolved
  have hchars : ∀ c ∈ (segmentsText (names.map (percentEncode segmentSet))).drop 1,
      0x20 < c.toNat ∧ isTail c = false := by
    intro c hc
    obtain ⟨part, hpart, hc⟩ := List.mem_flatMap.mp (List.mem_of_mem_drop hc)
    obtain ⟨name, -, rfl⟩ := List.mem_map.mp hpart
    rcases List.mem_cons.mp hc with rfl | hc
    · decide
    · exact mem_percentEncode_segmentSet hc
  unfold parseLocation at huri
  rw [pathToFileUri, parse_local hchars] at huri
  dsimp only at huri
  have hlocal : IsLocal ⟨file, some localAuthority, .segments (readPath file []
      ((segmentsText (names.map (percentEncode segmentSet))).drop 1)), none, none⟩ :=
    ⟨rfl, rfl, rfl, rfl, _, rfl, normal_readPath _⟩
  split at huri
  · cases huri
  · split at huri
    · cases huri
    · split at huri
      · cases huri
      · split at huri
        · cases huri
        · rw [← Except.ok.inj huri]
          exact hlocal

theorem IsLocal.setPath_baseUrl {uri : Whatwg.Url} (hlocal : IsLocal uri) (object : Text) :
    IsLocal ((baseUrl uri).setPath ('/' :: object)) := by
  obtain ⟨scheme, authority, path, query, fragment⟩ := uri
  obtain ⟨hscheme, hauthority, hquery, hfragment, segments, hpath, -⟩ := hlocal
  dsimp only at hscheme hauthority hquery hfragment hpath
  subst hscheme hauthority hquery hfragment hpath
  exact ⟨rfl, rfl, rfl, rfl, _, rfl, normal_readPath object⟩

/-!
## What a wildcard pattern matches

`wildcard_segment_matches` looks for each part of a segment at its first occurrence, and for the
last part at the end; `wildcardPathMatches_iff` says that it finds what a star may stand for.

**Results.**  `wildcard_matching_decides`: both matchers say yes to exactly the texts that a pattern
becomes when its stars are replaced, within a segment and segment by segment.
-/

/-! ## Occurrences -/

variable {part text : Text}

theorem followsFirst_of_afterFirst {rest : Text} (hpart : part ≠ [])
    (hafter : afterFirst part text = some rest) : FollowsFirst part text rest := by
  induction text with
  | nil =>
      rw [afterFirst, if_neg hpart] at hafter
      cases hafter
  | cons c text ih =>
      rw [afterFirst] at hafter
      split at hafter
      · next hstarts =>
          cases hafter
          obtain ⟨tail, htail⟩ := List.isPrefixOf_iff_prefix.mp hstarts
          rw [← htail, List.drop_left]
          refine ⟨⟨[], rfl⟩, fun gap other hother => ?_⟩
          rw [List.append_assoc] at hother
          have hlength := congrArg List.length hother
          rw [List.length_append, List.length_append, List.length_append] at hlength
          have hsuffix : other <:+ part ++ tail := ⟨gap ++ part, by
            rw [List.append_assoc]
            exact hother.symm⟩
          exact List.suffix_of_suffix_length_le hsuffix (List.suffix_append part tail) (by omega)
      · next hstarts =>
          obtain ⟨⟨gap, htext⟩, hfirst⟩ := ih hafter
          refine ⟨⟨c :: gap, by rw [htext]; rfl⟩, fun gap other hother => ?_⟩
          cases gap with
          | nil =>
              refine absurd (List.isPrefixOf_iff_prefix.mpr ⟨other, ?_⟩) hstarts
              rw [hother]
              rfl
          | cons skipped gap =>
              rw [List.cons_append, List.cons_append, List.cons.injEq] at hother
              exact hfirst gap other hother.2

theorem not_occurs_of_afterFirst (hafter : afterFirst part text = none) :
    ¬ ∃ gap rest, text = gap ++ part ++ rest := by
  induction text with
  | nil =>
      rw [afterFirst] at hafter
      rintro ⟨gap, rest, hnil⟩
      rw [List.nil_eq, List.append_eq_nil_iff, List.append_eq_nil_iff] at hnil
      rw [if_pos hnil.1.2] at hafter
      cases hafter
  | cons c text ih =>
      rw [afterFirst] at hafter
      split at hafter
      · cases hafter
      · next hstarts =>
          rintro ⟨gap, rest, hoccurs⟩
          cases gap with
          | nil =>
              refine hstarts (List.isPrefixOf_iff_prefix.mpr ⟨rest, ?_⟩)
              rw [hoccurs]
              rfl
          | cons skipped gap =>
              rw [List.cons_append, List.cons_append, List.cons.injEq] at hoccurs
              exact ih hafter ⟨gap, rest, hoccurs.2⟩

/-! ## Segments -/

/-- The loop finds all parts, if the last one is empty when the pattern ends with a star. -/
theorem matchParts_iff {parts : List Text} (hparts : parts ≠ []) {endsWithStar : Bool}
    (hends : endsWithStar = true ↔ parts.getLast hparts = []) (remainder : Text) :
    matchParts endsWithStar remainder parts = true ↔ GlobParts parts remainder := by
  induction parts generalizing remainder with
  | nil => exact absurd rfl hparts
  | cons part parts ih =>
      rw [matchParts]
      by_cases hrest : parts = []
      · subst hrest
        rw [List.getLast_singleton] at hends
        by_cases hpart : part = []
        · rw [if_pos hpart, matchParts, hends.mpr hpart, hpart]
          exact iff_of_true rfl (List.nil_suffix)
        · have hplain : endsWithStar = false := by
            rw [← Bool.not_eq_true]
            exact fun htrue => hpart (hends.mp htrue)
          rw [if_neg hpart, hplain, if_pos (by rfl)]
          exact List.isSuffixOf_iff_suffix
      · rw [List.getLast_cons hrest] at hends
        by_cases hpart : part = []
        · rw [if_pos hpart, hpart, globParts_nil_cons hrest]
          exact ih hrest hends remainder
        · rw [if_neg hpart, if_neg (by simp [hrest])]
          split
          · next hnone =>
              refine iff_of_false Bool.false_ne_true fun hglob => ?_
              obtain ⟨gap, rest, hoccurs, -⟩ := (globParts_cons_iff part parts remainder).mp hglob
              exact not_occurs_of_afterFirst hnone ⟨gap, rest, hoccurs⟩
          · next rest hsome =>
              rw [globParts_cons_iff_of_first hrest (followsFirst_of_afterFirst hpart hsome)]
              exact ih hrest hends rest

theorem wildcardSegmentMatches_iff (pattern candidate : Text) :
    wildcardSegmentMatches pattern candidate = true ↔ Globs '*' pattern candidate := by
  unfold wildcardSegmentMatches
  by_cases hstar : '*' ∈ pattern
  · rw [if_neg (not_not.mpr hstar)]
    obtain ⟨front, last, hplain, hpattern, hsplit⟩ := exists_last_part hstar
    obtain ⟨start, others, hfront⟩ := exists_splitOn '*' front
    rw [hfront, List.cons_append] at hsplit
    have hends : decide (pattern.getLast? = some '*') = true ↔
        (others ++ [last]).getLast (by simp) = [] := by
      rw [decide_eq_true_iff, List.getLast_append_singleton, hpattern]
      cases last with
      | nil => simp
      | cons c last =>
          have hne : c :: last ≠ [] := List.cons_ne_nil c last
          rw [List.getLast?_append_of_ne_nil _ (List.cons_ne_nil _ _), List.getLast?_cons_cons,
            List.getLast?_eq_some_getLast hne]
          refine iff_of_false (fun heq => hplain ?_) hne
          rw [← Option.some.inj heq]
          exact List.getLast_mem hne
    rw [hsplit, globs_iff pattern candidate hsplit]
    dsimp only
    split
    · next hnone =>
        refine iff_of_false Bool.false_ne_true ?_
        rintro ⟨rest, rfl, -⟩
        have hsome : (start ++ rest).dropPrefix? start = some rest :=
          List.dropPrefix?_eq_some_iff.mpr ⟨start, rfl, by simp⟩
        rw [hsome] at hnone
        cases hnone
    · next remainder hsome =>
        obtain ⟨found, rfl, hfound⟩ := List.dropPrefix?_eq_some_iff.mp hsome
        rw [eq_of_beq hfound, matchParts_iff (by simp) hends]
        constructor
        · intro hglob
          exact ⟨remainder, rfl, fun hnil => absurd hnil (by simp), hglob⟩
        · rintro ⟨rest, hrest, -, hglob⟩
          rw [List.append_cancel_left hrest]
          exact hglob
  · rw [if_pos hstar, decide_eq_true_iff,
      globs_iff pattern candidate (List.splitOn_eq_singleton hstar)]
    constructor
    · rintro rfl
      exact ⟨[], (List.append_nil _).symm, fun _ => rfl, trivial⟩
    · rintro ⟨rest, rfl, hrest, -⟩
      rw [hrest rfl, List.append_nil]

/-! ## Paths -/

/-- A path matches a pattern segment by segment; a star stands for any characters of a segment. -/
def Matches (pattern path : Text) : Prop :=
  List.Forall₂ (Globs '*') (pattern.splitOn '/') (path.splitOn '/')

theorem wildcardPathMatches_iff (pattern candidate : Text) :
    wildcardPathMatches pattern candidate = true ↔ Matches pattern candidate := by
  rw [wildcardPathMatches, Bool.and_eq_true, decide_eq_true_iff, Matches,
    List.forall₂_iff_zip, List.all_eq_true]
  refine and_congr_right fun _ => ?_
  constructor
  · intro hall left right hmem
    exact (wildcardSegmentMatches_iff left right).mp (hall _ hmem)
  · rintro hall ⟨left, right⟩ hmem
    exact (wildcardSegmentMatches_iff left right).mpr (hall hmem)

/-- Looking for the first occurrences loses no match, in a segment and in a path. -/
theorem wildcard_matching_decides (pattern candidate : Text) :
    (wildcardSegmentMatches pattern candidate = true ↔ Filled '*' pattern candidate) ∧
      (wildcardPathMatches pattern candidate = true ↔
        (pattern.splitOn '/').length = (candidate.splitOn '/').length ∧
          ∀ pair ∈ (pattern.splitOn '/').zip (candidate.splitOn '/'),
            Filled '*' pair.1 pair.2) := by
  constructor
  · rw [wildcardSegmentMatches_iff, globs_iff_filled]
  · rw [wildcardPathMatches_iff, Matches, List.forall₂_iff_zip]
    refine and_congr_right fun _ => ?_
    constructor
    · intro hall pair hpair
      exact globs_iff_filled.mp (hall hpair)
    · intro hall left right hpair
      exact globs_iff_filled.mpr (hall (left, right) hpair)

example : wildcardSegmentMatches "*ab*b".toList "abab".toList = true := by decide +kernel

end ParqDB.Storage.Addressing
