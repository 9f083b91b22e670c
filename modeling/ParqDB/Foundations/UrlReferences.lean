import ParqDB.Foundations.UrlPaths

/-!
# What a parsed reference keeps of its base

* `parse_normal`: every list of segments that the parser returns is normal.
* `reads_afterScheme`: a reference with a scheme yields a URL of that scheme.
* `parse_relative`: a reference that names neither a scheme nor a root is read onto the
  directory of its base, unless it names a drive.
* `setPath_slash`: setting the path to its own text and a slash adds one empty segment.
-/

namespace ParqDB.Foundations.Whatwg

variable {hosts : HostParser}

/-! ## The tail of a URL -/

@[simp]
theorem readTail_scheme (url : Url) (input : Text) : (readTail url input).scheme = url.scheme := by
  unfold readTail
  split
  · dsimp only
    split <;> rfl
  · rfl
  · rfl

@[simp]
theorem readTail_authority (url : Url) (input : Text) :
    (readTail url input).authority = url.authority := by
  unfold readTail
  split
  · dsimp only
    split <;> rfl
  · rfl
  · rfl

@[simp]
theorem readTail_path (url : Url) (input : Text) : (readTail url input).path = url.path := by
  unfold readTail
  split
  · dsimp only
    split <;> rfl
  · rfl
  · rfl

@[simp]
theorem pathState_scheme (url : Url) (path : List Text) (input : Text) :
    (pathState url path input).scheme = url.scheme := by
  simp [pathState]

@[simp]
theorem pathState_authority (url : Url) (path : List Text) (input : Text) :
    (pathState url path input).authority = url.authority := by
  simp [pathState]

@[simp]
theorem pathStartState_scheme (url : Url) (input : Text) :
    (pathStartState url input).scheme = url.scheme := by
  unfold pathStartState
  split
  · split <;> simp
  · split <;> simp

@[simp]
theorem pathStartState_authority (url : Url) (input : Text) :
    (pathStartState url input).authority = url.authority := by
  unfold pathStartState
  split
  · split <;> simp
  · split <;> simp

@[simp]
theorem inherit_scheme (base : Url) (input : Text) : (inherit base input).scheme = base.scheme := by
  unfold inherit
  split <;> simp

@[simp]
theorem inherit_path (base : Url) (input : Text) : (inherit base input).path = base.path := by
  unfold inherit
  split <;> simp

/-! ## Every parsed path is normal -/

/-- The segments of a URL are normal. -/
def Url.IsNormal (url : Url) : Prop :=
  ∀ segments, url.path = .segments segments → Normal url.scheme segments

variable {url base : Url} {input scheme : Text}

theorem Url.IsNormal.baseSegments (hnormal : url.IsNormal) :
    Normal url.scheme url.baseSegments := by
  unfold Url.baseSegments
  split
  · next segments hpath => exact hnormal segments hpath
  · exact Normal.nil _

theorem pathState_normal {path : List Text} (input : Text) (hnormal : Normal url.scheme path) :
    (pathState url path input).IsNormal := by
  intro segments hpath
  simp only [pathState, readTail_path, Path.segments.injEq] at hpath
  rw [← hpath, pathState_scheme]
  exact hnormal.readPath

theorem pathStartState_normal (input : Text) (hnormal : url.IsNormal) :
    (pathStartState url input).IsNormal := by
  unfold pathStartState
  split
  · split
    · exact pathState_normal _ (Normal.nil _)
    · exact pathState_normal _ (Normal.nil _)
  · split
    · exact pathState_normal _ (Normal.nil _)
    · intro segments hpath
      rw [readTail_scheme]
      exact hnormal segments (by simpa using hpath)

theorem isNormal_of_nil (hpath : url.path = .segments []) : url.IsNormal := by
  intro segments hsegments
  obtain rfl : [] = segments := by simpa [hpath] using hsegments
  exact Normal.nil _

theorem inherit_normal (input : Text) (hnormal : base.IsNormal) :
    (inherit base input).IsNormal := by
  intro segments hpath
  rw [inherit_scheme]
  exact hnormal segments (by simpa using hpath)

theorem authorityState_ok (hstate : authorityState hosts scheme input = .ok url) :
    ∃ authority rest,
      parseAuthority hosts scheme (input.takeWhile (!isAuthorityEnd (isSpecial scheme) ·)) =
        .ok authority ∧
      url = pathStartState ⟨scheme, some authority, .segments [], none, none⟩ rest := by
  unfold authorityState at hstate
  cases hauthority : parseAuthority hosts scheme
      (input.takeWhile (!isAuthorityEnd (isSpecial scheme) ·)) with
  | error error => simp [hauthority, bind, Except.bind] at hstate
  | ok authority =>
      simp only [hauthority, bind, Except.bind, pure, Except.pure, Except.ok.injEq] at hstate
      exact ⟨authority, _, rfl, hstate.symm⟩

/-- A URL of one scheme with a normal path. -/
def Reads (scheme : Text) (outcome : Except String Url) : Prop :=
  ∀ url, outcome = .ok url → url.scheme = scheme ∧ url.IsNormal

theorem reads_ok (hscheme : url.scheme = scheme) (hnormal : url.IsNormal) :
    Reads scheme (.ok url) := by
  intro other hother
  cases hother
  exact ⟨hscheme, hnormal⟩

theorem reads_pathState {path : List Text} (input : Text) (hnormal : Normal url.scheme path) :
    Reads url.scheme (.ok (pathState url path input)) :=
  reads_ok (pathState_scheme _ _ _) (pathState_normal input hnormal)

theorem reads_authorityState (scheme input : Text) :
    Reads scheme (authorityState hosts scheme input) := by
  intro url hstate
  obtain ⟨authority, rest, -, rfl⟩ := authorityState_ok hstate
  exact ⟨pathStartState_scheme _ _, pathStartState_normal _ (isNormal_of_nil rfl)⟩

theorem reads_fileHostState (input : Text) : Reads file (fileHostState hosts input) := by
  unfold fileHostState
  dsimp only
  split
  · exact reads_pathState _ (Normal.nil _)
  · split
    · exact reads_ok (pathStartState_scheme _ _) (pathStartState_normal _ (isNormal_of_nil rfl))
    · intro url hurl
      cases hhost : parseHost hosts true (input.takeWhile (!isAuthorityEnd true ·)) with
      | error error => simp [hhost, bind, Except.bind] at hurl
      | ok host =>
          simp only [hhost, bind, Except.bind, pure, Except.pure, Except.ok.injEq] at hurl
          rw [← hurl]
          exact ⟨pathStartState_scheme _ _, pathStartState_normal _ (isNormal_of_nil rfl)⟩

theorem keptDrive_normal (hscheme : base.scheme = file) (hnormal : base.IsNormal) (input : Text) :
    Normal file (keptDrive base input) := by
  have hbase := hnormal.baseSegments
  rw [hscheme] at hbase
  unfold keptDrive
  split
  · next first rest hsegments =>
      split
      · refine hbase.of_prefix ?_
        rw [hsegments]
        exact ⟨rest, rfl⟩
      · exact Normal.nil _
  · exact Normal.nil _

/-- The base of a `file` reference. -/
def FileBase (base : Option Url) : Prop := ∀ url ∈ base, url.scheme = file ∧ url.IsNormal

theorem reads_fileSlashState {base : Option Url} (hbase : FileBase base) (input : Text) :
    Reads file (fileSlashState hosts base input) := by
  unfold fileSlashState
  split
  · split
    · exact reads_fileHostState _
    · split
      · next base =>
          obtain ⟨hscheme, hnormal⟩ := hbase base rfl
          exact reads_pathState _ (keptDrive_normal hscheme hnormal _)
      · exact reads_pathState _ (Normal.nil _)
  · next base =>
      obtain ⟨hscheme, hnormal⟩ := hbase base rfl
      exact reads_pathState _ (keptDrive_normal hscheme hnormal _)
  · exact reads_pathState _ (Normal.nil _)

theorem reads_fileState {base : Option Url} (hbase : FileBase base) (input : Text) :
    Reads file (fileState hosts base input) := by
  unfold fileState
  split
  · exact reads_pathState _ (Normal.nil _)
  · next base =>
      obtain ⟨hscheme, hnormal⟩ := hbase base rfl
      exact reads_ok ((inherit_scheme _ _).trans hscheme) (inherit_normal _ hnormal)
  · split
    · exact reads_fileSlashState hbase _
    · split
      · exact reads_pathState _ (Normal.nil _)
      · next base =>
          obtain ⟨hscheme, hnormal⟩ := hbase base rfl
          split
          · exact reads_ok ((inherit_scheme _ _).trans hscheme) (inherit_normal _ hnormal)
          · dsimp only
            have hsegments := hnormal.baseSegments
            rw [hscheme] at hsegments
            refine reads_pathState _ ?_
            split
            · exact Normal.nil _
            · exact hsegments.of_prefix (shorten_initial _ _)

theorem reads_relativeSlashState (base : Url) (input : Text) :
    Reads base.scheme (relativeSlashState hosts base input) := by
  unfold relativeSlashState
  split
  · split
    · exact reads_authorityState _ _
    · split
      · exact reads_authorityState _ _
      · exact reads_pathState _ (Normal.nil _)
  · exact reads_pathState _ (Normal.nil _)

theorem reads_relativeState (hnormal : base.IsNormal) (input : Text) :
    Reads base.scheme (relativeState hosts base input) := by
  unfold relativeState
  split
  · exact reads_ok (inherit_scheme _ _) (inherit_normal _ hnormal)
  · split
    · exact reads_relativeSlashState base _
    · split
      · exact reads_ok (inherit_scheme _ _) (inherit_normal _ hnormal)
      · exact reads_pathState _ (hnormal.baseSegments.of_prefix (shorten_initial _ _))

/-- A reference with a scheme yields a URL of that scheme. -/
theorem reads_afterScheme {base : Option Url} (hbase : ∀ url ∈ base, url.IsNormal)
    (scheme input : Text) : Reads scheme (afterScheme hosts base scheme input) := by
  unfold afterScheme
  split
  · next hfile =>
      rw [hfile]
      refine reads_fileState ?_ _
      intro url hurl
      obtain ⟨hurl, hscheme⟩ := Option.filter_eq_some_iff.mp hurl
      exact ⟨by simpa using hscheme, hbase url hurl⟩
  · split
    · split
      · next base' hfilter =>
          obtain ⟨hurl, hscheme⟩ := Option.filter_eq_some_iff.mp hfilter
          split
          · exact reads_authorityState _ _
          · have hscheme : base'.scheme = scheme := by simpa using hscheme
            rw [← hscheme]
            exact reads_relativeState (hbase base' hurl) _
      · exact reads_authorityState _ _
    · split
      · exact reads_authorityState _ _
      · exact reads_pathState _ (Normal.nil _)
      · refine reads_ok (readTail_scheme _ _) ?_
        intro segments hpath
        rw [verbatimState, readTail_path] at hpath
        cases hpath

theorem parse_normal {base : Option Url} (hbase : ∀ url ∈ base, url.IsNormal)
    (hparse : parse hosts base input = .ok url) : url.IsNormal := by
  unfold parse at hparse
  split at hparse
  · exact (reads_afterScheme hbase _ _ url hparse).2
  · unfold withoutScheme at hparse
    split at hparse
    · cases hparse
    · next base =>
        have hnormal := hbase base rfl
        split at hparse
        · split at hparse
          · cases hparse
            exact inherit_normal _ hnormal
          · cases hparse
        · split at hparse
          · next hscheme =>
              have hfile : FileBase (some base) := by
                intro other hother
                cases hother
                exact ⟨hscheme, hnormal⟩
              exact (reads_fileState hfile _ url hparse).2
          · exact (reads_relativeState hnormal _ url hparse).2

/-! ## References without a scheme -/

/-- A reference without a query, a fragment or a backslash. -/
def PathOnly (input : Text) : Prop := ∀ c ∈ input, isTail c = false ∧ c ≠ '\\'

theorem PathOnly.isSlash_eq (honly : PathOnly input) (special : Bool) :
    ∀ c ∈ input, isSlash special c = isSlash false c := by
  intro c hc
  simp [isSlash, (honly c hc).2]

theorem PathOnly.encodedSegments_eq (honly : PathOnly input) (special : Bool) :
    encodedSegments special input = encodedSegments false input := by
  have hsplit : input.splitOnP (isSlash special) = input.splitOnP (isSlash false) := by
    induction input with
    | nil => rfl
    | cons c rest ih =>
        rw [List.splitOnP_cons_eq_if_modifyHead, List.splitOnP_cons_eq_if_modifyHead,
          honly.isSlash_eq special c (by simp), ih fun d hd => honly d (by simp [hd])]
  rw [encodedSegments, encodedSegments, hsplit]

theorem PathOnly.pathState_eq (honly : PathOnly input) (url : Url) (path : List Text) :
    pathState url path input = { url with path := .segments (readPath url.scheme path input) } := by
  have htake : input.takeWhile (!isTail ·) = input := by
    rw [List.takeWhile_eq_self_iff]
    intro c hc
    simp [(honly c hc).1]
  have hdrop : input.dropWhile (!isTail ·) = [] := by
    rw [List.dropWhile_eq_nil_iff]
    intro c hc
    simp [(honly c hc).1]
  simp [pathState, htake, hdrop, readTail]

theorem mem_of_mem_clean {c : Char} (hc : c ∈ clean input) : c ∈ input := by
  have hkept := (List.mem_filter.mp hc).1
  exact (List.dropWhile_suffix _).subset ((List.rdropWhile_prefix _ _).subset hkept)

theorem pathOnly_clean (honly : PathOnly input) : PathOnly (clean input) :=
  fun c hc => honly c (mem_of_mem_clean hc)

theorem parse_of_scheme {base : Option Url} {rest : Text}
    (hscheme : scheme? (clean input) = some (scheme, rest)) :
    parse hosts base input = afterScheme hosts base scheme rest := by
  rw [parse, hscheme]

variable {segments : List Text}

theorem parse_of_segments (hpath : base.path = .segments segments)
    (hscheme : scheme? (clean input) = none) :
    parse hosts (some base) input =
      if base.scheme = file then fileState hosts (some base) (clean input)
      else relativeState hosts base (clean input) := by
  rw [parse, hscheme]
  simp only [withoutScheme]
  rw [hpath]

/-- A reference of ignored code points names its base. -/
theorem parse_empty (hpath : base.path = .segments segments) (hempty : clean input = []) :
    parse hosts (some base) input = .ok { base with fragment := none } := by
  rw [parse_of_segments hpath (by rw [hempty]; rfl), hempty]
  split <;> rfl

/-- The path that a reference without a scheme is read onto. -/
def startingPath (base : Url) (segments : List Text) (input : Text) : List Text :=
  if base.scheme = file ∧ startsWithDriveLetter input = true then []
  else shorten (base.scheme = file) segments

theorem parse_relative (hpath : base.path = .segments segments) (honly : PathOnly input)
    (hscheme : scheme? (clean input) = none) (hnonempty : clean input ≠ [])
    (hroot : (clean input).head? ≠ some '/') :
    parse hosts (some base) input = .ok
      { base with
        path := .segments (readPath base.scheme (startingPath base segments (clean input))
          (clean input))
        query := none
        fragment := none } := by
  have hclean := pathOnly_clean honly
  have hbase : base.baseSegments = segments := by rw [Url.baseSegments, hpath]
  rw [parse_of_segments hpath hscheme]
  obtain ⟨first, rest, hinput⟩ := List.exists_cons_of_ne_nil hnonempty
  have hfirst := hclean first (by simp [hinput])
  have hslash : ∀ special, isSlash special first = false := by
    intro special
    have hne : first ≠ '/' := by
      rintro rfl
      exact hroot (by simp [hinput])
    simp [isSlash, hne, hfirst.2]
  split
  · next hfile =>
      have hstate : fileState hosts (some base) (clean input) = .ok (pathState
          (fileUrl base.authority) (startingPath base segments (clean input)) (clean input)) := by
        rw [hinput]
        simp only [fileState, hslash, Bool.false_eq_true, if_false, hfirst.1, hbase, startingPath,
          hfile, true_and, decide_true]
      rw [hstate, hclean.pathState_eq]
      simp only [fileUrl, hfile]
  · next hother =>
      have hstate : relativeState hosts base (clean input) = .ok (pathState
          { base with query := none, fragment := none }
          (startingPath base segments (clean input)) (clean input)) := by
        rw [hinput]
        simp only [relativeState, hslash, Bool.false_eq_true, if_false, hfirst.1, hbase,
          startingPath, hother, false_and, decide_false]
      rw [hstate, hclean.pathState_eq]

/-! ## Ending a path in a slash -/

theorem setPath_slash (hpath : url.path = .segments segments) (hnormal : url.IsNormal) :
    url.setPath (url.pathText ++ ['/']) = { url with path := .segments (segments ++ [[]]) } := by
  have hslash : isSlash (isSpecial url.scheme) '/' = true := by simp [isSlash]
  have hlonger := (hnormal segments hpath).append_nil_segment
  have htext : url.pathText ++ ['/'] = segmentsText (segments ++ [[]]) := by
    rw [Url.pathText_eq hpath]
    simp
  obtain ⟨first, rest, hcons⟩ := List.exists_cons_of_ne_nil
    (show segments ++ [[]] ≠ [] by simp)
  rw [hcons] at hlonger
  rw [htext, hcons, segmentsText_cons]
  unfold Url.setPath
  rw [hpath]
  simp only [hslash, if_true, readPath_normal hlonger]

end ParqDB.Foundations.Whatwg
