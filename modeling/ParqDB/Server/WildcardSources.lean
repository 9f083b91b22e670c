import ParqDB.Foundations.Iterators
import ParqDB.Foundations.Symlinks
import ParqDB.Storage.ObjectUris

/-!
# The sources that a server may read

`SourceUriPolicy` of the HTTP server (`server/source_policy.py`): local paths are resolved, with
their symbolic links, and compared with the allowed roots; URIs of object stores are normalised
and compared with the allowed prefixes.

* `urlsplit`, `pathSteps`, `normpath`: what Python's standard library makes of the texts.  The
  check of an authority (brackets, Unicode) is a parameter of the host.
* `resolve`: `Path.expanduser` and `Path.resolve`, with fuel for links that lead in circles.
-/

namespace ParqDB.Server

open Foundations Foundations.Whatwg Foundations.Symlinks

/-! ## Python's URLs and paths -/

structure SplitResult where
  scheme : Text
  netloc : Text
  path : Text
  query : Text
  fragment : Text
  deriving DecidableEq

/-- The text before the first such character, and the text after it. -/
def splitOnce (separator : Char) (text : Text) : Text × Text :=
  (text.takeWhile (· ≠ separator), (text.dropWhile (· ≠ separator)).drop 1)

/-- `_splitnetloc`, if there is an authority. -/
def splitNetloc : Text → Text × Text
  | '/' :: '/' :: rest =>
      (rest.takeWhile fun c => !(c = '/' || isTail c), rest.dropWhile fun c => !(c = '/' || isTail c))
  | url => ([], url)

def urlsplit (checkNetloc : Text → Except String Unit) (url : Text) :
    Except String SplitResult := do
  let url := (url.dropWhile isControlOrSpace).filter (!isTabOrNewline ·)
  let (scheme, url) := (scheme? url).getD ([], url)
  let (netloc, url) := splitNetloc url
  let (url, fragment) := splitOnce '#' url
  let (path, query) := splitOnce '?' url
  checkNetloc netloc
  .ok ⟨scheme, netloc, path, query, fragment⟩

/-- The parts of a path; empty ones and single dots say nothing. -/
def pathSteps (path : Text) : List (Symlinks.Step Text) :=
  ((path.splitOn '/').filter fun part => !(part.isEmpty || part = ['.'])).map fun part =>
    if part = ['.', '.'] then .up else .down part

/-- The text of an absolute path. -/
def placeText (place : Place Text) : Text :=
  if place = [] then ['/'] else place.flatMap ('/' :: ·)

/-- The machine that a server runs on. -/
structure Host where
  tree : Symlinks.Tree Text
  cwd : Place Text
  /-- What `~` or `~name` stands for. -/
  home : Text → Option Text
  checkNetloc : Text → Except String Unit
  root_eq : ¬ (tree []).any Entry.isLink = true
  cwd_unlinked : Unlinked tree cwd
  local_ok : checkNetloc [] = .ok ()

namespace Host

variable (host : Host)

/-- Where a path starts. -/
def start (path : Text) : Place Text :=
  if path.head? = some '/' then [] else host.cwd

/-- `expanduser`: where a walk along the path starts, and its steps. -/
def expanduser (path : Text) : Except String (Place Text × List (Symlinks.Step Text)) :=
  if path.head? = some '/' then .ok ([], pathSteps path)
  else
    match pathSteps path with
    | .down name :: steps =>
        if name.head? = some '~' then
          match host.home name with
          | none => .error "Could not determine home directory."
          | some home => .ok (host.start home, pathSteps home ++ steps)
        else .ok (host.cwd, .down name :: steps)
    | steps => .ok (host.cwd, steps)

/-- `Path(path).expanduser().resolve()`. -/
def resolve (fuel : ℕ) (path : Text) : Except Failure (Place Text) := do
  raised (rejectIf (Char.ofNat 0 ∈ path) "embedded null byte")
  let (start, steps) ← raised (host.expanduser path)
  match follow host.tree fuel start steps with
  | some place => .ok place
  | none => .error .outOfFuel

end Host

/-- `_local_path`. -/
def localPath (parsed : SplitResult) (reference : Text) : Except String Text :=
  if parsed.scheme = [] then .ok reference
  else do
    rejectIf (parsed.query ≠ [] ∨ parsed.fragment ≠ [])
      "file URIs must not contain a query or fragment"
    rejectIf (parsed.netloc ≠ [] ∧ parsed.netloc ≠ "localhost".toList)
      "file URIs must not contain a remote authority"
    rejectIf ((unquote parsed.path).head? ≠ some '/') "file URIs must contain an absolute path"
    .ok (unquote parsed.path)

/-- `_contains_glob`. -/
def containsGlob (value : Text) : Bool :=
  value.any fun c => c = '*' || c = '?' || c = '['

/-! ## Object stores -/

/-- The parts of `posixpath.normpath`, for an absolute path. -/
def normpath (path : Text) : List Text :=
  (path.splitOn '/').foldl (fun parts part =>
    if part.isEmpty || part = ['.'] then parts
    else if part = ['.', '.'] then parts.dropLast
    else parts ++ [part]) []

structure ObjectPrefix where
  scheme : Text
  authority : Text
  path : Text
  deriving DecidableEq

/-- `_normalize_object_path`. -/
def normalizeObjectPath (path : Text) : Except String Text := do
  let decoded := unquote path
  rejectIf (decoded.any fun c => c.toNat < 32 || c.toNat = 127)
    "source URI paths must not contain control characters"
  .ok (placeText (normpath decoded))

/-- `_object_prefix`. -/
def objectPrefix (parsed : SplitResult) : Except String ObjectPrefix := do
  rejectIf (parsed.scheme = [] ∨ parsed.scheme = file)
    "object-store URI must contain a non-file scheme"
  rejectIf ('@' ∈ parsed.netloc) "source URIs must not contain credentials"
  rejectIf (parsed.netloc = []) "object-store URI must contain an authority"
  rejectIf (parsed.query ≠ [] ∨ parsed.fragment ≠ [])
    "source URIs must not contain a query or fragment"
  let path ← normalizeObjectPath parsed.path
  .ok ⟨parsed.scheme, parsed.netloc, path⟩

/-- `_matches_object_prefix`. -/
def matchesObjectPrefix (candidate allowed : ObjectPrefix) : Bool :=
  let stripped := allowed.path.rdropWhile (· = '/')
  let root := if stripped = [] then ['/'] else stripped
  candidate.scheme = allowed.scheme && candidate.authority = allowed.authority &&
    (candidate.path = root || (root.rdropWhile (· = '/') ++ ['/']).isPrefixOf candidate.path)

/-- The characters that `authorize` leaves as they are. -/
def objectSafe (c : Char) : Bool :=
  unreserved c || "/:@-._~!$&'()*+,;=[]".toList.contains c

def ObjectPrefix.uri (location : ObjectPrefix) : Text :=
  location.scheme ++ "://".toList ++ location.authority ++
    percentEncode (fun c => !objectSafe c) location.path

/-! ## The policy -/

/-- `SourceUriPolicy`. -/
structure SourceUriPolicy where
  fileRoots : List (Place Text)
  objectPrefixes : List ObjectPrefix
  resourceName : String
  roots_plain : ∀ root ∈ fileRoots, containsGlob (placeText root) = false
  prefixes_plain : ∀ allowed ∈ objectPrefixes, containsGlob allowed.path = false

namespace SourceUriPolicy

/-- One more allowed prefix. -/
def allow (host : Host) (fuel : ℕ) (policy : SourceUriPolicy) (reference : Text) :
    Except Failure SourceUriPolicy := do
  let parsed ← raised (urlsplit host.checkNetloc reference)
  if parsed.scheme = [] ∨ parsed.scheme = file then do
    let path ← raised (localPath parsed reference)
    let root ← host.resolve fuel path
    if hplain : containsGlob (placeText root) = false then
      .ok { policy with
        fileRoots := policy.fileRoots ++ [root]
        roots_plain := by
          intro other hother
          rcases List.mem_append.mp hother with hother | hother
          · exact policy.roots_plain other hother
          · rw [List.mem_singleton.mp hother]
            exact hplain }
    else .error (.raised "allowed file roots must not contain glob patterns")
  else do
    let allowed ← raised (objectPrefix parsed)
    if hplain : containsGlob allowed.path = false then
      .ok { policy with
        objectPrefixes := policy.objectPrefixes ++ [allowed]
        prefixes_plain := by
          intro other hother
          rcases List.mem_append.mp hother with hother | hother
          · exact policy.prefixes_plain other hother
          · rw [List.mem_singleton.mp hother]
            exact hplain }
    else .error (.raised "allowed object-store prefixes must not contain glob patterns")

/-- `SourceUriPolicy(prefixes)`. -/
def new (host : Host) (fuel : ℕ) (references : List Text) (resourceName : String) :
    Except Failure SourceUriPolicy :=
  references.foldlM (allow host fuel) ⟨[], [], resourceName, by simp, by simp⟩

/-- `authorize`. -/
def authorize (host : Host) (fuel : ℕ) (policy : SourceUriPolicy) (reference : Text) :
    Except Failure Text := do
  raised (rejectIf (reference = []) (policy.resourceName ++ " must not be empty"))
  let parsed ← raised (urlsplit host.checkNetloc reference)
  if parsed.scheme = [] ∨ parsed.scheme = file then do
    let path ← raised (localPath parsed reference)
    let place ← host.resolve fuel path
    raised (rejectIf (policy.fileRoots.all fun root => !root.isPrefixOf place)
      (policy.resourceName ++ " is outside the allowed file roots"))
    .ok (placeText place)
  else do
    let candidate ← raised (objectPrefix parsed)
    raised (rejectIf (policy.objectPrefixes.all fun allowed =>
      !matchesObjectPrefix candidate allowed)
      (policy.resourceName ++ " is outside the allowed URI prefixes"))
    .ok candidate.uri

/-- With enough fuel `authorize` accepts the reference. -/
def Accepts (host : Host) (policy : SourceUriPolicy) (reference : Text) : Prop :=
  ∃ fuel path, policy.authorize host fuel reference = .ok path

end SourceUriPolicy

/-!
## What an allowed wildcard stands for

`authorize` resolves the part of a pattern that has no wildcard, and compares the text of the rest.
The files are chosen later, by `StorageRegistry::expand`, which knows nothing of the policy.

**Strategy.** The roots have no wildcards, so that a root above a pattern is above its literal
part, and `authorize` has followed all links there.  A file below the literal part that is reached
without another link is where its name says.

**Results.** `wildcard_confined_iff`: all files of an allowed pattern are allowed if and only if
those that stray lead below a root.  A file strays behind a symbolic link that a wildcard matches
(`linked_directory_escapes`).
-/

open Storage.Addressing

variable {host : Host} {policy : SourceUriPolicy}

/-! ## Local references -/

/-- `urlsplit` finds no scheme but that of files. -/
def IsLocalReference (host : Host) (reference : Text) : Prop :=
  ∃ parsed, urlsplit host.checkNetloc reference = .ok parsed ∧
    (parsed.scheme = [] ∨ parsed.scheme = file)

/-- A path leads below one of the allowed roots. -/
def LeadsBelow (host : Host) (policy : SourceUriPolicy) (path : Text) : Prop :=
  ∃ fuel place, host.resolve fuel path = .ok place ∧ ∃ root ∈ policy.fileRoots, root <+: place

theorem raised_rejectIf_bind_eq_ok {condition : Prop} [Decidable condition] {message : String}
    {α : Type} {next : Unit → Except Failure α} {result : α} :
    (raised (rejectIf condition message) >>= next) = .ok result ↔
      ¬ condition ∧ next () = .ok result := by
  by_cases hcondition : condition
  · simp only [rejectIf, hcondition, not_true_eq_false, false_and, iff_false]
    intro hresult
    cases hresult
  · simp only [rejectIf, hcondition, not_false_eq_true, true_and]
    rfl

variable {place : Place Text} {fuel : ℕ} {url : Whatwg.Url}

theorem not_all_roots :
    ¬ (policy.fileRoots.all fun root => !root.isPrefixOf place) = true ↔
      ∃ root ∈ policy.fileRoots, root <+: place := by
  simp

/-- What `authorize` accepts of a local path. -/
theorem authorize_path_eq_ok {path result : Text} :
    (do
      let place ← host.resolve fuel path
      raised (rejectIf (policy.fileRoots.all fun root => !root.isPrefixOf place)
        (policy.resourceName ++ " is outside the allowed file roots"))
      Except.ok (placeText place)) = .ok result ↔
      ∃ place, host.resolve fuel path = .ok place ∧
        (∃ root ∈ policy.fileRoots, root <+: place) ∧ result = placeText place := by
  rw [bind_eq_ok]
  constructor
  · rintro ⟨place, hplace, hresult⟩
    rw [raised_rejectIf_bind_eq_ok, not_all_roots] at hresult
    exact ⟨place, hplace, hresult.1, (Except.ok.inj hresult.2).symm⟩
  · rintro ⟨place, hplace, hroot, rfl⟩
    refine ⟨place, hplace, ?_⟩
    rw [raised_rejectIf_bind_eq_ok, not_all_roots]
    exact ⟨hroot, rfl⟩

theorem resolve_eq_ok_iff {path : Text} :
    host.resolve fuel path = .ok place ↔
      Char.ofNat 0 ∉ path ∧ ∃ start steps, host.expanduser path = .ok (start, steps) ∧
        follow host.tree fuel start steps = some place := by
  unfold Host.resolve
  rw [raised_rejectIf_bind_eq_ok, bind_eq_ok]
  refine and_congr_right fun _ => ?_
  constructor
  · rintro ⟨⟨start, steps⟩, hexpand, hfollow⟩
    refine ⟨start, steps, ?_, ?_⟩
    · cases houtcome : host.expanduser path with
      | error message =>
          rw [houtcome] at hexpand
          cases hexpand
      | ok expanded =>
          rw [houtcome] at hexpand
          rw [Except.ok.inj hexpand]
    · dsimp only at hfollow
      split at hfollow
      · next place' hplace =>
          cases hfollow
          exact hplace
      · cases hfollow
  · rintro ⟨start, steps, hexpand, hfollow⟩
    refine ⟨(start, steps), by rw [hexpand]; rfl, ?_⟩
    dsimp only
    rw [hfollow]

theorem unlinked_root (host : Host) : Unlinked host.tree [] := unlinked_nil host.root_eq

theorem unlinked_start (host : Host) (path : Text) : Unlinked host.tree (host.start path) := by
  unfold Host.start
  split
  · exact unlinked_root host
  · exact host.cwd_unlinked

theorem unlinked_expanduser {path : Text} {start : Place Text} {steps : List (Symlinks.Step Text)}
    (hexpand : host.expanduser path = .ok (start, steps)) : Unlinked host.tree start := by
  unfold Host.expanduser at hexpand
  split at hexpand
  · cases hexpand
    exact unlinked_root host
  · split at hexpand
    · split at hexpand
      · split at hexpand
        · cases hexpand
        · cases hexpand
          exact unlinked_start host _
      · cases hexpand
        exact host.cwd_unlinked
    · cases hexpand
      exact host.cwd_unlinked

/-- An allowed local reference has been resolved to a place below a root. -/
theorem exists_place_of_authorize {reference path : Text} (hlocal : IsLocalReference host reference)
    (hauthorize : policy.authorize host fuel reference = .ok path) :
    ∃ place, path = placeText place ∧ Unlinked host.tree place ∧
      ∃ root ∈ policy.fileRoots, root <+: place := by
  obtain ⟨parsed, hparsed, hscheme⟩ := hlocal
  unfold SourceUriPolicy.authorize at hauthorize
  rw [raised_rejectIf_bind_eq_ok, hparsed, raised_ok, ok_bind] at hauthorize
  obtain ⟨-, hauthorize⟩ := hauthorize
  rw [if_pos hscheme, bind_eq_ok] at hauthorize
  obtain ⟨reached, -, hauthorize⟩ := hauthorize
  obtain ⟨place, hplace, hroot, rfl⟩ := authorize_path_eq_ok.mp hauthorize
  obtain ⟨-, start, steps, hexpand, hfollow⟩ := resolve_eq_ok_iff.mp hplace
  exact ⟨place, rfl, follow_unlinked (unlinked_expanduser hexpand) hfollow, hroot⟩

/-! ## The URIs of files -/

theorem text_eq_of_isLocal (hlocal : IsLocal url) :
    url.text = file ++ ':' :: '/' :: '/' :: url.pathText := by
  obtain ⟨scheme, authority, path, query, fragment⟩ := url
  obtain ⟨hscheme, hauthority, hquery, hfragment, -⟩ := hlocal
  dsimp only at hscheme hauthority hquery hfragment
  subst hscheme hauthority hquery hfragment
  simp [Url.text, Url.authorityPart, Url.authorityText, localAuthority, Url.portText, Url.tailText]

theorem mem_pathText (hlocal : IsLocal url) {c : Char} (hc : c ∈ url.pathText) :
    0x20 < c.toNat ∧ isTail c = false := by
  obtain ⟨segments, hpath, -, hnormal⟩ := hlocal.path
  rw [Url.pathText_eq hpath] at hc
  exact hnormal.mem_segmentsText hc

theorem head_pathText (hlocal : IsLocal url) : ∃ rest, url.pathText = '/' :: rest := by
  obtain ⟨segments, hpath, hne, -⟩ := hlocal.path
  obtain ⟨segment, rest, rfl⟩ := List.exists_cons_of_ne_nil hne
  exact ⟨_, by rw [Url.pathText_eq hpath, segmentsText_cons]⟩

theorem splitOnce_of_not_mem {separator : Char} {text : Text} (hfree : separator ∉ text) :
    splitOnce separator text = (text, []) := by
  have hall : ∀ c ∈ text, (c ≠ separator) := fun c hc heq => hfree (heq ▸ hc)
  unfold splitOnce
  rw [List.takeWhile_eq_self_iff.mpr (by simpa using hall),
    List.dropWhile_eq_nil_iff.mpr (by simpa using hall)]
  rfl

/-- `urlsplit` of the URI of a file. -/
theorem urlsplit_local (hlocal : IsLocal url) :
    urlsplit host.checkNetloc url.text = .ok ⟨file, [], url.pathText, [], []⟩ := by
  obtain ⟨rest, hrest⟩ := head_pathText hlocal
  have hchars : ∀ c ∈ url.text, 0x20 < c.toNat := by
    intro c hc
    have hfile : ∀ c ∈ file, 0x20 < c.toNat := List.all_iff_forall_prop.mp (by decide)
    rw [text_eq_of_isLocal hlocal, List.mem_append, List.mem_cons, List.mem_cons,
      List.mem_cons] at hc
    rcases hc with hc | rfl | rfl | rfl | hc
    · exact hfile c hc
    · decide
    · decide
    · decide
    · exact (mem_pathText hlocal hc).1
  have hclean : (url.text.dropWhile isControlOrSpace).filter (!isTabOrNewline ·) = url.text := by
    rw [dropWhile_isControlOrSpace hchars, filter_isTabOrNewline hchars]
  have htail : ∀ mark, isTail mark = true → mark ∉ url.pathText := by
    intro mark hmark hmem
    rw [(mem_pathText hlocal hmem).2] at hmark
    cases hmark
  have hnetloc : splitNetloc ('/' :: '/' :: url.pathText) = ([], url.pathText) := by
    rw [hrest]
    rfl
  unfold urlsplit
  simp only [hclean]
  rw [text_eq_of_isLocal hlocal, scheme?_append isScheme_file]
  simp only [Option.getD_some, hnetloc, splitOnce_of_not_mem (htail '#' rfl),
    splitOnce_of_not_mem (htail '?' rfl), host.local_ok]
  rfl

/-- A returned URI is allowed exactly if the path that it names leads below a root. -/
theorem accepts_uri_iff (hlocal : IsLocal url) :
    policy.Accepts host url.text ↔ LeadsBelow host policy (unquote url.pathText) := by
  obtain ⟨rest, hrest⟩ := head_pathText hlocal
  have hhead : (unquote url.pathText).head? = some '/' := by
    rw [hrest, unquote_plain fun hslash => absurd hslash (by decide)]
    rfl
  have hpath : localPath ⟨file, [], url.pathText, [], []⟩ url.text = .ok (unquote url.pathText) := by
    unfold localPath
    rw [if_neg (show ¬ file = [] by decide), rejectIf_bind_eq_ok]
    refine ⟨by simp, ?_⟩
    rw [rejectIf_bind_eq_ok]
    refine ⟨by simp, ?_⟩
    rw [rejectIf_bind_eq_ok]
    exact ⟨not_not_intro hhead, rfl⟩
  have hne : url.text ≠ [] := by
    rw [text_eq_of_isLocal hlocal]
    simp
  have hauthorize (fuel : ℕ) (path : Text) : policy.authorize host fuel url.text = .ok path ↔
      ∃ place, host.resolve fuel (unquote url.pathText) = .ok place ∧
        (∃ root ∈ policy.fileRoots, root <+: place) ∧ path = placeText place := by
    unfold SourceUriPolicy.authorize
    rw [raised_rejectIf_bind_eq_ok, urlsplit_local hlocal, raised_ok, ok_bind, if_pos (Or.inr rfl),
      hpath, raised_ok, ok_bind, authorize_path_eq_ok]
    exact and_iff_right hne
  constructor
  · rintro ⟨fuel, path, hpath⟩
    obtain ⟨place, hplace, hroot, -⟩ := (hauthorize fuel path).mp hpath
    exact ⟨fuel, place, hplace, hroot⟩
  · rintro ⟨fuel, place, hplace, hroot⟩
    exact ⟨fuel, placeText place, (hauthorize fuel _).mpr ⟨place, hplace, hroot, rfl⟩⟩

/-! ## Files that stray -/

/-- The names of an object path. -/
def objectNames (object : Text) : Place Text :=
  if object = [] then [] else object.splitOn '/'

/-- The part of a pattern before the first name with a wildcard. -/
def literalPart (pattern : Place Text) : Place Text :=
  pattern.takeWhile fun name => !name.contains '*'

/-- A file is where an allowed pattern says: below its literal part, under the name that the
returned URI has, and without another symbolic link on the way. -/
structure Stays (host : Host) (pattern : Place Text) (file : ConcreteFile) : Prop where
  below : literalPart pattern <+: objectNames file.file
  named : unquote file.url.pathText = '/' :: file.file
  unlinked : ∀ start, start <+: objectNames file.file →
    (literalPart pattern).length < start.length → ¬ (host.tree start).any Entry.isLink = true

variable {pattern root : Place Text} {object : Text}

/-- A root above a pattern is above its literal part. -/
theorem root_isPrefix_literalPart (hroot : root ∈ policy.fileRoots) (hbelow : root <+: pattern) :
    root <+: literalPart pattern := by
  have hplain := policy.roots_plain root hroot
  have hnames : ∀ name ∈ root, (!name.contains '*') = true := by
    intro name hname
    rw [Bool.not_eq_true', ← Bool.not_eq_true, List.contains_iff_mem]
    intro hstar
    have hne : root ≠ [] := List.ne_nil_of_mem hname
    have hglob : containsGlob (placeText root) = true := by
      unfold containsGlob
      rw [placeText, if_neg hne, List.any_eq_true]
      exact ⟨'*', List.mem_flatMap.mpr ⟨name, hname, List.mem_cons_of_mem _ hstar⟩, by decide⟩
    rw [hplain] at hglob
    cases hglob
  obtain ⟨rest, rfl⟩ := hbelow
  unfold literalPart
  rw [List.takeWhile_append_of_pos hnames]
  exact List.prefix_append root _

/-- The steps to a valid object are its names. -/
theorem pathSteps_object (hvalid : validPath object = true) :
    pathSteps ('/' :: object) = (objectNames object).map .down := by
  have hsplit : ('/' :: object).splitOn '/' = [] :: object.splitOn '/' := by
    simpa using splitOn_append_slash [] object
  unfold pathSteps objectNames
  rw [hsplit]
  by_cases hempty : object = []
  · subst hempty
    rfl
  · have hpath := isPath_of_validPath hvalid hempty
    have hkept : (object.splitOn '/').filter (fun part => !(part.isEmpty || part = ['.'])) =
        object.splitOn '/' := by
      rw [List.filter_eq_self]
      intro part hpart
      obtain ⟨hne, hdot, -⟩ := validPart_bounds (hpath part hpart)
      simp [hne, hdot]
    rw [if_neg hempty, List.filter_cons_of_neg (by simp), hkept]
    refine List.map_congr_left fun part hpart => ?_
    obtain ⟨-, -, hdots, -⟩ := validPart_bounds (hpath part hpart)
    rw [if_neg hdots]

theorem nul_not_mem (hvalid : validPath object = true) : Char.ofNat 0 ∉ '/' :: object := by
  intro hmem
  rcases List.mem_cons.mp hmem with hslash | hmem
  · exact absurd hslash (by decide)
  · have hpath := isPath_of_validPath hvalid (List.ne_nil_of_mem hmem)
    have hchars : Char.ofNat 0 ∈ segmentsText (object.splitOn '/') := by
      rw [segmentsText_splitOn]
      exact List.mem_cons_of_mem _ hmem
    obtain ⟨part, hpart, hnul⟩ := List.mem_flatMap.mp hchars
    rcases List.mem_cons.mp hnul with hslash | hnul
    · exact absurd hslash (by decide)
    · obtain ⟨-, -, -, hbounds⟩ := validPart_bounds (hpath part hpart)
      exact absurd (hbounds _ hnul).2.1 (by decide)

/-- A file that stays leads below the root of its pattern. -/
theorem Stays.leadsBelow {file : ConcreteFile} (hstays : Stays host pattern file)
    (hpattern : Unlinked host.tree pattern) (hroot : root ∈ policy.fileRoots)
    (hbelow : root <+: pattern) (hvalid : validPath file.file = true) :
    LeadsBelow host policy (unquote file.url.pathText) := by
  have hliteral : literalPart pattern <+: pattern := List.takeWhile_prefix _
  have hunlinked : Unlinked host.tree ([] ++ objectNames file.file) := by
    intro start hstart
    rcases Nat.lt_or_ge (literalPart pattern).length start.length with hlonger | hshorter
    · exact hstays.unlinked start hstart hlonger
    · have hinside := List.prefix_of_prefix_length_le hstart hstays.below hshorter
      exact hpattern start (hinside.trans hliteral)
  refine ⟨(objectNames file.file).length, objectNames file.file, ?_, root, hroot,
    (root_isPrefix_literalPart hroot hbelow).trans hstays.below⟩
  rw [hstays.named, resolve_eq_ok_iff]
  refine ⟨nul_not_mem hvalid, [], (objectNames file.file).map .down, ?_, ?_⟩
  · have hhead : ('/' :: file.file).head? = some '/' := rfl
    unfold Host.expanduser
    rw [if_pos hhead, pathSteps_object hvalid]
  · exact follow_down hunlinked (Nat.le_refl _)

/-! ## All files of a pattern -/

variable {registry : ListingRegistry} {files : List ConcreteFile} {resolved : ResolvedLocation}

theorem isLocal_of_mem_concrete {names : List Text}
    (hresolved : registry.toStorageRegistry.resolve (pathToFileUri names) = .ok resolved)
    (hfiles : registry.concrete resolved = .ok files) {file : ConcreteFile} (hfile : file ∈ files) :
    IsLocal file.url := by
  have hlocal := isLocal_of_resolve hresolved
  rcases mem_concrete hfiles hfile with ⟨-, rfl⟩ | ⟨-, -, -, -, -, hurl⟩
  · exact hlocal
  · rw [hurl]
    exact hlocal.setPath_baseUrl _

theorem validPath_of_mem_concrete (hdocumented : registry.objectStore.Documented) {location : Text}
    (hresolved : registry.toStorageRegistry.resolve location = .ok resolved)
    (hfiles : registry.concrete resolved = .ok files) {file : ConcreteFile} (hfile : file ∈ files) :
    validPath file.file = true := by
  rcases mem_concrete hfiles hfile with ⟨-, rfl⟩ | ⟨start, objects, hobjects, hmem, -⟩
  · obtain ⟨-, -, -, hpath⟩ := resolve_eq_ok.mp hresolved
    obtain ⟨decoded, -, hparse⟩ := (hdocumented _ _).mp hpath
    exact validPath_of_parsePath hparse
  · exact registry.list_valid hobjects _ hmem

/-- All files of an allowed pattern are allowed, one by one, if and only if every file that does
not stay where the pattern says leads below an allowed root. -/
theorem wildcard_confined_iff (host : Host) (policy : SourceUriPolicy) (registry : ListingRegistry)
    (hdocumented : registry.objectStore.Documented) {fuel : ℕ} {reference path : Text}
    (hlocal : IsLocalReference host reference)
    (hauthorize : policy.authorize host fuel reference = .ok path) :
    ∃ place, path = placeText place ∧
      ((∀ uris, registry.expand (pathToFileUri place) = .ok uris →
          ∀ uri ∈ uris, policy.Accepts host uri) ↔
        ∀ resolved files,
          registry.toStorageRegistry.resolve (pathToFileUri place) = .ok resolved →
          registry.concrete resolved = .ok files →
          ∀ file ∈ files, ¬ Stays host place file →
            LeadsBelow host policy (unquote file.url.pathText)) := by
  obtain ⟨place, rfl, hunlinked, root, hroot, hbelow⟩ := exists_place_of_authorize hlocal hauthorize
  refine ⟨place, rfl, ?_, ?_⟩
  · intro hall resolved files hresolved hfiles file hfile hstrays
    have hurl := isLocal_of_mem_concrete hresolved hfiles hfile
    have huris : registry.expand (pathToFileUri place) =
        .ok (files.map fun file => file.url.text) :=
      expand_eq_ok.mpr ⟨resolved, files, hresolved, hfiles, List.ne_nil_of_mem hfile, rfl⟩
    rw [← accepts_uri_iff hurl]
    exact hall _ huris _ (List.mem_map_of_mem hfile)
  · intro hall uris hexpand uri huri
    obtain ⟨resolved, files, hresolved, hfiles, -, rfl⟩ := expand_eq_ok.mp hexpand
    obtain ⟨file, hfile, rfl⟩ := List.mem_map.mp huri
    have hurl := isLocal_of_mem_concrete hresolved hfiles hfile
    rw [accepts_uri_iff hurl]
    by_cases hstays : Stays host place file
    · exact hstays.leadsBelow hunlinked hroot hbelow
        (validPath_of_mem_concrete hdocumented hresolved hfiles hfile)
    · exact hall resolved files hresolved hfiles file hfile hstays

/-! ## A linked directory -/

/-- The files `/data/part/f` and `/secret/f`, and a link from `/data/link` to `/secret`. -/
def linkedTree : Symlinks.Tree Text := fun place =>
  if place = [] ∨ place = ["data".toList] ∨ place = ["data".toList, "part".toList] ∨
      place = ["secret".toList] then some .directory
  else if place = ["data".toList, "part".toList, "f".toList] ∨
      place = ["secret".toList, "f".toList] then some .file
  else if place = ["data".toList, "link".toList] then some (.link true [.down "secret".toList])
  else none

def linkedHost : Host where
  tree := linkedTree
  cwd := []
  home _ := none
  checkNetloc _ := .ok ()
  root_eq := by decide
  cwd_unlinked := unlinked_nil (by decide)
  local_ok := rfl

/-- A store that finds these files, the second one through the link. -/
def linkedRegistry (objects : List Text) (hvalid : ∀ object ∈ objects, validPath object = true) :
    ListingRegistry where
  hosts := ⟨.ok, fun _ => .error "invalid IPv6 address"⟩
  objectStore := utf8Crate
  clients _ := true
  strict := true
  list _ _ := .ok objects
  list_valid := by
    rintro store start found hfound object hobject
    cases hfound
    exact hvalid object hobject

def dataPolicy : SourceUriPolicy where
  fileRoots := [["data".toList]]
  objectPrefixes := []
  resourceName := "Parquet source"
  roots_plain := by decide
  prefixes_plain := by simp

def dataPattern : Text := "/data/*/f".toList

def partFile : Text := "data/part/f".toList

def linkFile : Text := "data/link/f".toList

def bothFiles : ListingRegistry :=
  linkedRegistry [partFile, linkFile] (by decide)

/-- `file:///data/link/f`. -/
def linkUrl : Whatwg.Url :=
  ⟨file, some localAuthority, .segments (readPath file [] linkFile), none, none⟩

theorem isLocal_linkUrl : IsLocal linkUrl :=
  ⟨rfl, rfl, rfl, rfl, _, rfl, normal_readPath _⟩

theorem authorize_dataPattern :
    dataPolicy.authorize linkedHost 3 dataPattern = .ok dataPattern := by
  decide +kernel

theorem isLocalReference_dataPattern : IsLocalReference linkedHost dataPattern :=
  ⟨_, rfl, by decide⟩

/-- A path leads to one place only. -/
theorem LeadsBelow.root_isPrefix {path : Text} (hleads : LeadsBelow host policy path)
    (hplace : host.resolve fuel path = .ok place) : ∃ root ∈ policy.fileRoots, root <+: place := by
  obtain ⟨other, reached, hreached, hroot⟩ := hleads
  obtain ⟨-, start, steps, hexpand, hfollow⟩ := resolve_eq_ok_iff.mp hplace
  obtain ⟨-, start', steps', hexpand', hfollow'⟩ := resolve_eq_ok_iff.mp hreached
  rw [hexpand] at hexpand'
  cases hexpand'
  have hmore := follow_mono (Nat.le_max_left fuel other) hfollow
  rw [follow_mono (Nat.le_max_right fuel other) hfollow'] at hmore
  cases hmore
  exact hroot

/-- A wildcard reaches a secret file through a link, and the file itself is not allowed. -/
theorem linked_directory_escapes :
    dataPolicy.authorize linkedHost 3 dataPattern = .ok dataPattern ∧
    linkedHost.resolve 4 ('/' :: linkFile) = .ok ["secret".toList, "f".toList] ∧
    bothFiles.expand (pathToFileUri ["data".toList, "*".toList, "f".toList]) =
      .ok ["file:///data/link/f".toList, "file:///data/part/f".toList] ∧
    ¬ dataPolicy.Accepts linkedHost "file:///data/link/f".toList := by
  have htext : linkUrl.text = "file:///data/link/f".toList := by decide +kernel
  have hpath : unquote linkUrl.pathText = '/' :: linkFile := by decide +kernel
  have hplace : linkedHost.resolve 4 ('/' :: linkFile) = .ok ["secret".toList, "f".toList] := by
    decide +kernel
  refine ⟨authorize_dataPattern, hplace, by decide +kernel, fun haccepts => ?_⟩
  rw [← htext, accepts_uri_iff isLocal_linkUrl, hpath] at haccepts
  have houtside : ¬ ∃ root ∈ dataPolicy.fileRoots, root <+: ["secret".toList, "f".toList] := by
    decide +kernel
  exact houtside (haccepts.root_isPrefix hplace)

/-- The pattern of the linked tree. -/
theorem data_pattern_confined_iff :
    ∃ place, dataPattern = placeText place ∧
      ((∀ uris, bothFiles.expand (pathToFileUri place) = .ok uris →
          ∀ uri ∈ uris, dataPolicy.Accepts linkedHost uri) ↔
        ∀ resolved files,
          bothFiles.toStorageRegistry.resolve (pathToFileUri place) = .ok resolved →
          bothFiles.concrete resolved = .ok files →
          ∀ file ∈ files, ¬ Stays linkedHost place file →
            LeadsBelow linkedHost dataPolicy (unquote file.url.pathText)) :=
  wildcard_confined_iff linkedHost dataPolicy bothFiles documented_utf8Crate
    isLocalReference_dataPattern authorize_dataPattern

end ParqDB.Server
