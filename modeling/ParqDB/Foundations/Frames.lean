import Mathlib.Data.List.Nodup
import Mathlib.Data.List.Sort
import Mathlib.Data.List.TakeWhile
import ParqDB.Foundations.Outcome

/-!
# Names as identifiers

A name of a column can be taken as it is, or it can be parsed: as parts between periods, where a
part in quotes is taken as it is and any other part in lower case.  The last part is the column
and the parts before it are its relation.  A name that is not of this form is taken as it is.

What such a parser may do to a name is collected in `NameParser`; `identifierParser` is one.
-/

namespace ParqDB.Foundations

/-- A column, perhaps of some relation. -/
structure ColumnName where
  relation : List String
  name : String
deriving DecidableEq

/-- The column of exactly this name. -/
def ColumnName.verbatim (name : String) : ColumnName := ⟨[], name⟩

def lowercase (name : String) : String := String.ofList (name.toList.map Char.toLower)

def lowerLetter (c : Char) : Bool := c = '_' || ('a' ≤ c && c ≤ 'z')

/-- A word in lower case. -/
def isPlainName (name : String) : Bool :=
  match name.toList with
  | [] => false
  | first :: rest => lowerLetter first && rest.all fun c => lowerLetter c || c.isDigit

/-- A parser leaves a plain name as it is.  Of any name it makes this name, or the same in
lowercase case, or something shorter. -/
structure NameParser where
  column : String → ColumnName
  plain : ∀ name, isPlainName name = true → column name = ColumnName.verbatim name
  shrinks : ∀ name, column name = ColumnName.verbatim name ∨
    column name = ColumnName.verbatim (lowercase name) ∨ (column name).name.length < name.length

/-- Only the column of exactly this name has this name. -/
theorem NameParser.column_eq_of_name (parser : NameParser) {name : String}
    (hname : (parser.column name).name = name) : parser.column name = ColumnName.verbatim name := by
  rcases parser.shrinks name with hsame | hlower | hshorter
  · exact hsame
  · rw [hlower] at hname ⊢
    exact congrArg ColumnName.verbatim hname
  · rw [hname] at hshorter
    exact absurd hshorter (Nat.lt_irrefl _)

/-! ## A parser -/

namespace Identifiers

def isStart (c : Char) : Bool := c.isAlpha || c = '_' || c = '#' || c = '@'

def isPart (c : Char) : Bool := isStart c || c.isDigit || c = '$'

/-- What stands behind the opening quote, up to the closing one. -/
def quoted : List Char → Option (List Char × List Char)
  | [] => none
  | '"' :: '"' :: rest => (quoted rest).map fun found => ('"' :: found.1, found.2)
  | '"' :: rest => some ([], rest)
  | c :: rest => (quoted rest).map fun found => (c :: found.1, found.2)

def parsePart : List Char → Option (List Char × List Char)
  | [] => none
  | '"' :: rest => quoted rest
  | c :: rest =>
      if isStart c then
        some ((c :: rest.takeWhile isPart).map Char.toLower, rest.dropWhile isPart)
      else none

/-- The parts, if there are not more than so many. -/
def parseParts : ℕ → List Char → Option (List (List Char))
  | 0, _ => none
  | count + 1, chars =>
      match parsePart chars with
      | some (part, []) => some [part]
      | some (part, '.' :: rest) => (parseParts count rest).map fun parts => part :: parts
      | _ => none

/-- The column of a name, which has at most a catalog, a schema and a table. -/
def column (name : String) : ColumnName :=
  match parseParts 4 name.toList with
  | some parts => ⟨parts.dropLast.map String.ofList, String.ofList (parts.getLastD [])⟩
  | none => ColumnName.verbatim name

variable {chars part rest : List Char}

theorem length_quoted (hquoted : quoted chars = some (part, rest)) :
    part.length + rest.length < chars.length := by
  induction chars using quoted.induct generalizing part rest with
  | case1 => cases hquoted
  | case2 chars ih =>
      rw [quoted, Option.map_eq_some_iff] at hquoted
      obtain ⟨⟨inner, after⟩, hinner, heq⟩ := hquoted
      cases heq
      have hlength := ih hinner
      simp only [List.length_cons]
      omega
  | case3 chars hnot =>
      rw [quoted] at hquoted
      · cases hquoted
        simp
      · exact hnot
  | case4 c chars hdouble hsingle ih =>
      rw [quoted, Option.map_eq_some_iff] at hquoted
      · obtain ⟨⟨inner, after⟩, hinner, heq⟩ := hquoted
        cases heq
        have hlength := ih hinner
        simp only [List.length_cons]
        omega
      · exact hdouble
      · exact hsingle

/-- A part is its text in lower case, or shorter than its text. -/
theorem parsePart_eq_some (hpart : parsePart chars = some (part, rest)) :
    (∃ word, chars = word ++ rest ∧ part = word.map Char.toLower) ∨
      part.length + rest.length < chars.length := by
  unfold parsePart at hpart
  split at hpart
  · cases hpart
  · next after =>
      have hlength := length_quoted hpart
      right
      rw [List.length_cons]
      omega
  · next c after hquote =>
      split at hpart
      · cases hpart
        refine Or.inl ⟨c :: after.takeWhile isPart, ?_, rfl⟩
        rw [List.cons_append, List.takeWhile_append_dropWhile]
      · cases hpart

theorem parsePart_length (hpart : parsePart chars = some (part, rest)) :
    part.length + rest.length ≤ chars.length := by
  rcases parsePart_eq_some hpart with ⟨word, rfl, rfl⟩ | hshorter
  · exact Nat.le_of_eq (by rw [List.length_map, List.length_append])
  · exact Nat.le_of_lt hshorter

theorem parseParts_length {count : ℕ} {parts : List (List Char)}
    (hparts : parseParts count chars = some parts) : (parts.getLastD []).length ≤ chars.length := by
  induction count generalizing chars parts with
  | zero => cases hparts
  | succ count ih =>
      rw [parseParts] at hparts
      split at hparts
      · next part hpart =>
          cases hparts
          exact parsePart_length hpart
      · next part rest hpart =>
          obtain ⟨inner, hinner, rfl⟩ := Option.map_eq_some_iff.mp hparts
          have hlength := parsePart_length hpart
          have hbound := ih hinner
          rw [List.length_cons] at hlength
          cases inner with
          | nil =>
              show part.length ≤ chars.length
              omega
          | cons first others =>
              show ((first :: others).getLastD []).length ≤ chars.length
              omega
      · cases hparts

theorem column_shrinks (name : String) : column name = ColumnName.verbatim name ∨
    column name = ColumnName.verbatim (lowercase name) ∨
      (column name).name.length < name.length := by
  unfold column
  cases hparts : parseParts 4 name.toList with
  | none => exact Or.inl rfl
  | some parts =>
      right
      rw [parseParts] at hparts
      split at hparts
      · next part hpart =>
          cases hparts
          rcases parsePart_eq_some hpart with ⟨word, hword, rfl⟩ | hshorter
          · left
            rw [List.append_nil] at hword
            show ColumnName.mk [] _ = ColumnName.mk [] _
            rw [lowercase, hword]
            rfl
          · right
            show (String.ofList part).length < _
            rw [← String.length_toList, String.toList_ofList, ← String.length_toList]
            exact Nat.lt_of_le_of_lt (Nat.le_add_right _ _) hshorter
      · next part rest hpart =>
          -- the last part stands behind a period
          right
          obtain ⟨inner, hinner, rfl⟩ := Option.map_eq_some_iff.mp hparts
          have hlength := parsePart_length hpart
          have hbound := parseParts_length hinner
          rw [List.length_cons] at hlength
          show (String.ofList ((part :: inner).getLastD [])).length < _
          rw [← String.length_toList, String.toList_ofList, ← String.length_toList]
          cases inner with
          | nil =>
              show part.length < _
              omega
          | cons first others =>
              show ((first :: others).getLastD []).length < _
              omega
      · cases hparts

theorem isStart_of_lowerLetter {c : Char} (hc : lowerLetter c = true) : isStart c = true := by
  simp only [lowerLetter, Bool.or_eq_true, decide_eq_true_eq, Bool.and_eq_true] at hc
  rcases hc with rfl | ⟨hlow, hhigh⟩
  · rfl
  · have halpha : c.isAlpha = true := by
      show (c.isUpper || (decide _ && decide _)) = true
      rw [Bool.or_eq_true, Bool.and_eq_true, decide_eq_true_eq, decide_eq_true_eq]
      exact Or.inr ⟨hlow, hhigh⟩
    rw [isStart, halpha]
    rfl

theorem toLower_of_plain {c : Char} (hc : (lowerLetter c || c.isDigit) = true) :
    c.toLower = c := by
  refine dif_neg ?_
  rintro ⟨hlow, hhigh⟩
  simp only [lowerLetter, Char.isDigit, Bool.or_eq_true, decide_eq_true_eq,
    Bool.and_eq_true] at hc
  rcases hc with (rfl | ⟨hletter, -⟩) | ⟨-, hdigit⟩
  · exact absurd hhigh (by decide)
  · exact absurd (UInt32.le_trans hletter hhigh) (by decide)
  · exact absurd (UInt32.le_trans hlow hdigit) (by decide)

theorem parsePart_of_plain {first : Char} (hfirst : lowerLetter first = true)
    (hrest : ∀ c ∈ rest, (lowerLetter c || c.isDigit) = true) :
    parsePart (first :: rest) = some (first :: rest, []) := by
  have hpart : ∀ c ∈ rest, isPart c = true := by
    intro c hc
    rcases Bool.or_eq_true_iff.mp (hrest c hc) with hletter | hdigit
    · rw [isPart, isStart_of_lowerLetter hletter]
      rfl
    · rw [isPart, hdigit, Bool.or_true]
      rfl
  have hlower : (first :: rest).map Char.toLower = first :: rest := by
    refine (List.map_congr_left fun c hc => ?_).trans (List.map_id _)
    show c.toLower = c
    rcases List.mem_cons.mp hc with rfl | hc
    · exact toLower_of_plain (by rw [hfirst]; rfl)
    · exact toLower_of_plain (hrest c hc)
  rw [parsePart]
  · rw [if_pos (isStart_of_lowerLetter hfirst), List.takeWhile_eq_self_iff.mpr hpart,
      List.dropWhile_eq_nil_iff.mpr hpart, hlower]
  · rintro rfl
    exact absurd hfirst (by decide)

theorem column_of_plain {name : String} (hname : isPlainName name = true) :
    column name = ColumnName.verbatim name := by
  have hparts : parseParts 4 name.toList = some [name.toList] := by
    rw [isPlainName] at hname
    split at hname
    · cases hname
    · next first rest hchars =>
        obtain ⟨hfirst, hrest⟩ := Bool.and_eq_true_iff.mp hname
        rw [hchars, parseParts, parsePart_of_plain hfirst (List.all_eq_true.mp hrest)]
  rw [column, hparts]
  show ColumnName.mk [] (String.ofList name.toList) = _
  rw [String.ofList_toList]
  rfl

end Identifiers

/-- Identifiers as they are written in a statement. -/
def identifierParser : NameParser where
  column := Identifiers.column
  plain _ hname := Identifiers.column_of_plain hname
  shrinks := Identifiers.column_shrinks

/-!
## Frames

A frame is a list of fields with what each of them contains.  An expression names its columns; a
field answers to a column of the same name, if it is of the same relation or the column is of none.
A selection computes new fields from such expressions, and its fields have different names again.

The contents are any type.  They may be tables of values, or what a column is computed from.
-/

structure FrameField where
  qualifier : List String
  name : String
deriving DecidableEq

/-- A field without a qualifier answers to no column of a relation.  Where both are given, their
common parts are compared from the end. -/
def FrameField.answers (field : FrameField) (column : ColumnName) : Bool :=
  field.name = column.name &&
    (column.relation = [] || (field.qualifier ≠ [] &&
      (column.relation.reverse.zip field.qualifier.reverse).all fun parts => parts.1 = parts.2))

theorem FrameField.name_of_answers {field : FrameField} {column : ColumnName}
    (hanswers : field.answers column = true) : field.name = column.name :=
  of_decide_eq_true (Bool.and_eq_true_iff.mp hanswers).1

theorem FrameField.answers_verbatim (field : FrameField) :
    field.answers (ColumnName.verbatim field.name) = true := by
  simp [FrameField.answers, ColumnName.verbatim]

variable {α : Type} {items : List α}

/-- The only item of its key is all that is left of a list by a test that only this key passes. -/
theorem filter_eq_singleton {κ : Type} {key : α → κ} {test : α → Bool} {item : α}
    (hkeys : (items.map key).Nodup) (hitem : item ∈ items) (htest : test item = true)
    (honly : ∀ other, test other = true → key other = key item) : items.filter test = [item] := by
  induction items with
  | nil => cases hitem
  | cons first rest ih =>
      obtain ⟨hfirst, hrest⟩ := List.nodup_cons.mp hkeys
      rcases List.mem_cons.mp hitem with rfl | hmem
      · have hnone : rest.filter test = [] := by
          rw [List.filter_eq_nil_iff]
          intro other hother hpasses
          exact hfirst (honly other hpasses ▸ List.mem_map_of_mem hother)
        rw [List.filter_cons_of_pos htest, hnone]
      · have hfails : ¬ test first = true := by
          intro hpasses
          exact hfirst (honly first hpasses ▸ List.mem_map_of_mem hmem)
        rw [List.filter_cons_of_neg hfails]
        exact ih hrest hmem

/-- What is known of each result of `mapM` from its item is known of the list of results. -/
theorem map_eq_map_of_mapM {β γ ε : Type} {step : α → Except ε β} {results : List β}
    {ofResult : β → γ} {ofItem : α → γ} (hmap : items.mapM step = .ok results)
    (hstep : ∀ item ∈ items, ∀ result, step item = .ok result → ofResult result = ofItem item) :
    results.map ofResult = items.map ofItem := by
  have hall := mapM_eq_ok.mp hmap
  clear hmap
  induction hall with
  | nil => rfl
  | cons hresult _ ih =>
      rw [List.map_cons, List.map_cons, hstep _ List.mem_cons_self _ hresult,
        ih fun item hitem => hstep item (List.mem_cons_of_mem _ hitem)]

theorem exists_mapM {β ε : Type} {step : α → Except ε β}
    (hstep : ∀ item ∈ items, ∃ result, step item = .ok result) :
    ∃ results, items.mapM step = .ok results := by
  have hpost : ∀ item ∈ items, ∃ result, step item = .ok result ∧ True := by
    intro item hitem
    obtain ⟨result, hresult⟩ := hstep item hitem
    exact ⟨result, hresult, trivial⟩
  obtain ⟨results, hresults, -⟩ := exists_mapM_of_forall hpost
  exact ⟨results, hresults⟩

/-- Fields of different names, with their contents. -/
structure Frame (C : Type) where
  entries : List (FrameField × C)
  distinct : (entries.map fun entry => entry.1.name).Nodup

namespace Frame

variable {C : Type} {frame result : Frame C} {column : ColumnName} {entry : FrameField × C}

def names (frame : Frame C) : List String := frame.entries.map fun entry => entry.1.name

def find (frame : Frame C) (column : ColumnName) : Except String (FrameField × C) :=
  match frame.entries.filter fun entry => entry.1.answers column with
  | [] => .error ("No field named " ++ column.name)
  | [entry] => .ok entry
  | _ => .error ("Ambiguous reference to field " ++ column.name)

theorem find_eq_ok (hfind : frame.find column = .ok entry) :
    entry ∈ frame.entries ∧ entry.1.name = column.name := by
  rw [find] at hfind
  split at hfind
  · cases hfind
  · next found hfilter =>
      cases hfind
      have hmem : entry ∈ frame.entries.filter fun entry => entry.1.answers column := by
        rw [hfilter]
        exact List.mem_singleton_self _
      obtain ⟨hentry, hanswers⟩ := List.mem_filter.mp hmem
      exact ⟨hentry, FrameField.name_of_answers hanswers⟩
  · cases hfind

section

variable (hentry : entry ∈ frame.entries)

include hentry

theorem find_of_answers
    (hanswers : entry.1.answers column = true) : frame.find column = .ok entry := by
  have hfilter : frame.entries.filter (fun entry => entry.1.answers column) = [entry] := by
    refine filter_eq_singleton frame.distinct hentry hanswers fun other hother => ?_
    rw [FrameField.name_of_answers hother, FrameField.name_of_answers hanswers]
  rw [find, hfilter]

theorem find_verbatim :
    frame.find (ColumnName.verbatim entry.1.name) = .ok entry :=
  find_of_answers hentry entry.1.answers_verbatim

/-- The entry of a name is the only one. -/
theorem filter_name_of_mem :
    frame.entries.filter (fun other => other.1.name = entry.1.name) = [entry] :=
  filter_eq_singleton frame.distinct hentry (decide_eq_true rfl) fun _ => of_decide_eq_true

theorem find?_of_mem :
    frame.entries.find? (fun other => other.1.name = entry.1.name) = some entry := by
  rw [← List.head?_filter, filter_name_of_mem hentry]
  rfl

end

/-- All fields of one qualifier. -/
def ofFields (qualifier : List String) (contents : List (String × C))
    (hdistinct : (contents.map Prod.fst).Nodup) : Frame C where
  entries := contents.map fun content => (⟨qualifier, content.1⟩, content.2)
  distinct := by
    rw [List.map_map]
    exact hdistinct

/-- The same fields under an alias. -/
def aliased (frame : Frame C) (qualifier : List String) : Frame C where
  entries := frame.entries.map fun entry => (⟨qualifier, entry.1.name⟩, entry.2)
  distinct := by
    rw [List.map_map]
    exact frame.distinct

theorem find_aliased (hentry : entry ∈ frame.entries) (table : String) :
    (frame.aliased [table]).find ⟨[table], entry.1.name⟩ =
      .ok (⟨[table], entry.1.name⟩, entry.2) := by
  refine find_of_answers (List.mem_map.mpr ⟨entry, hentry, rfl⟩) ?_
  simp [FrameField.answers]

/-! ## Selections -/

/-- One expression of a selection: a column, or what is computed from some columns. -/
inductive Item (C : Type)
  | column (column : ColumnName)
  | computed (inputs : List ColumnName) (apply : List C → Except String C) (name : String)

def evaluate (frame : Frame C) : Item C → Except String (FrameField × C)
  | .column column => frame.find column
  | .computed inputs apply name => do
      let arguments ← inputs.mapM frame.find
      let content ← apply (arguments.map Prod.snd)
      pure (⟨[], name⟩, content)

/-- A frame of these entries, if they have different names. -/
def ofEntries (entries : List (FrameField × C)) : Except String (Frame C) :=
  if hdistinct : (entries.map fun entry => entry.1.name).Nodup then .ok ⟨entries, hdistinct⟩
  else .error "Projections require unique expression names"

def select (frame : Frame C) (items : List (Item C)) : Except String (Frame C) := do
  let entries ← items.mapM frame.evaluate
  ofEntries entries

/-- The field of this name becomes a computed one, where it stands or at the end. -/
def withColumn (frame : Frame C) (name : String) (inputs : List ColumnName)
    (apply : List C → Except String C) : Except String (Frame C) := do
  let computed ← frame.evaluate (.computed inputs apply name)
  ofEntries (if name ∈ frame.names then
      frame.entries.map fun entry => if entry.1.name = name then computed else entry
    else frame.entries ++ [computed])

/-- The fields of exactly these names. -/
def selectColumns (frame : Frame C) (names : List String) : Except String (Frame C) := do
  let fields ← names.mapM fun name =>
    match frame.entries.filter fun entry => entry.1.name = name with
    | [] => .error ("No field named " ++ name)
    | found => pure found
  ofEntries fields.flatten

variable {entries : List (FrameField × C)}

theorem ofEntries_eq_ok (hentries : ofEntries entries = .ok result) :
    result.entries = entries := by
  rw [ofEntries] at hentries
  split at hentries
  · cases hentries
    rfl
  · cases hentries

theorem ofEntries_of_nodup (hdistinct : (entries.map fun entry => entry.1.name).Nodup) :
    ofEntries entries = .ok ⟨entries, hdistinct⟩ := dif_pos hdistinct

variable {apply : List C → Except String C} {inputs : List ColumnName} {item : Item C}
  {items : List (Item C)}

theorem evaluate_computed {name : String}
    (hitem : frame.evaluate (.computed inputs apply name) = .ok entry) :
    ∃ arguments, inputs.mapM frame.find = .ok arguments ∧
      apply (arguments.map Prod.snd) = .ok entry.2 ∧ entry.1 = ⟨[], name⟩ := by
  rw [evaluate] at hitem
  obtain ⟨arguments, harguments, hitem⟩ := bind_eq_ok.mp hitem
  obtain ⟨content, hcontent, hentry⟩ := bind_eq_ok.mp hitem
  cases hentry
  exact ⟨arguments, harguments, hcontent, rfl⟩

theorem evaluate_of_arguments {name : String} {arguments : List (FrameField × C)} {content : C}
    (harguments : inputs.mapM frame.find = .ok arguments)
    (hcontent : apply (arguments.map Prod.snd) = .ok content) :
    frame.evaluate (.computed inputs apply name) = .ok (⟨[], name⟩, content) := by
  rw [evaluate, harguments, ok_bind, hcontent]
  rfl

/-- The name of what an expression gives is read off the expression. -/
def Item.name : Item C → String
  | .column column => column.name
  | .computed _ _ name => name

theorem name_of_evaluate (hitem : frame.evaluate item = .ok entry) : entry.1.name = item.name := by
  cases item with
  | column column => exact (find_eq_ok hitem).2
  | computed inputs apply name =>
      obtain ⟨arguments, -, -, hfield⟩ := evaluate_computed hitem
      rw [hfield]
      rfl

theorem names_of_mapM (hentries : items.mapM frame.evaluate = .ok entries) :
    (entries.map fun entry => entry.1.name) = items.map Item.name :=
  map_eq_map_of_mapM hentries fun _ _ _ hitem => name_of_evaluate hitem

section

variable (hselect : frame.select items = .ok result)

include hselect

theorem select_eq_ok :
    items.mapM frame.evaluate = .ok result.entries := by
  obtain ⟨entries, hentries, hresult⟩ := bind_eq_ok.mp hselect
  rw [hentries, ofEntries_eq_ok hresult]

/-- A selection has the names of its expressions. -/
theorem names_of_select :
    result.names = items.map Item.name := names_of_mapM (select_eq_ok hselect)

/-- What an expression of a selection gives is in the result. -/
theorem exists_of_mem_select (hitem : item ∈ items) :
    ∃ entry ∈ result.entries, frame.evaluate item = .ok entry :=
  exists_result_of_mapM (select_eq_ok hselect) hitem

theorem mem_of_select (hitem : item ∈ items)
    (hentry : frame.evaluate item = .ok entry) : entry ∈ result.entries := by
  obtain ⟨found, hfound, heval⟩ := exists_of_mem_select hselect hitem
  rw [hentry] at heval
  cases heval
  exact hfound

end

/-- A selection succeeds if its expressions do and have different names. -/
theorem exists_select
    (hentries : items.mapM frame.evaluate = .ok entries) (hnames : (items.map Item.name).Nodup) :
    ∃ result, frame.select items = .ok result ∧ result.entries = entries := by
  rw [← names_of_mapM hentries] at hnames
  refine ⟨⟨entries, hnames⟩, ?_, rfl⟩
  rw [select, hentries, ok_bind, ofEntries_of_nodup hnames]

section

variable {name : String}

theorem withColumn_eq_ok (hcolumn : frame.withColumn name inputs apply = .ok result)
    (hname : name ∈ frame.names) :
    ∃ computed, frame.evaluate (.computed inputs apply name) = .ok computed ∧
      result.entries =
        frame.entries.map fun entry => if entry.1.name = name then computed else entry := by
  obtain ⟨computed, hcomputed, hresult⟩ := bind_eq_ok.mp hcolumn
  rw [if_pos hname] at hresult
  exact ⟨computed, hcomputed, ofEntries_eq_ok hresult⟩

/-- A computed field takes the place of the field of its name. -/
theorem exists_withColumn_of_mem
    (hcomputed : frame.evaluate (.computed inputs apply name) = .ok entry)
    (hname : name ∈ frame.names) :
    ∃ result, frame.withColumn name inputs apply = .ok result ∧ result.entries =
      frame.entries.map fun other => if other.1.name = name then entry else other := by
  have hnames : ((frame.entries.map fun other => if other.1.name = name then entry else other).map
      fun entry => entry.1.name) = frame.names := by
    rw [List.map_map]
    refine List.map_congr_left fun other hother => ?_
    show (if other.1.name = name then entry else other).1.name = other.1.name
    split
    · next hsame => rw [hsame, name_of_evaluate hcomputed, Item.name]
    · rfl
  have hdistinct := frame.distinct
  rw [← names, ← hnames] at hdistinct
  refine ⟨⟨_, hdistinct⟩, ?_, rfl⟩
  rw [withColumn, hcomputed, ok_bind, if_pos hname, ofEntries_of_nodup hdistinct]

theorem exists_withColumn_of_notMem
    (hcomputed : frame.evaluate (.computed inputs apply name) = .ok entry)
    (hname : name ∉ frame.names) :
    ∃ result, frame.withColumn name inputs apply = .ok result ∧
      result.entries = frame.entries ++ [entry] := by
  have hdistinct : ((frame.entries ++ [entry]).map fun entry => entry.1.name).Nodup := by
    rw [List.map_append, List.map_singleton, name_of_evaluate hcomputed]
    refine frame.distinct.append (List.nodup_singleton _) ?_
    rw [List.disjoint_singleton]
    exact hname
  refine ⟨⟨_, hdistinct⟩, ?_, rfl⟩
  rw [withColumn, hcomputed, ok_bind, if_neg hname, ofEntries_of_nodup hdistinct]

theorem withColumn_eq_ok_of_notMem (hcolumn : frame.withColumn name inputs apply = .ok result)
    (hname : name ∉ frame.names) :
    ∃ computed, frame.evaluate (.computed inputs apply name) = .ok computed ∧
      result.entries = frame.entries ++ [computed] := by
  obtain ⟨computed, hcomputed, hresult⟩ := bind_eq_ok.mp hcolumn
  rw [if_neg hname] at hresult
  exact ⟨computed, hcomputed, ofEntries_eq_ok hresult⟩

/-- A column of exactly this name. -/
theorem selectColumns_singleton (hentry : entry ∈ frame.entries) :
    ∃ result, frame.selectColumns [entry.1.name] = .ok result ∧ result.entries = [entry] := by
  refine ⟨⟨[entry], List.nodup_singleton _⟩, ?_, rfl⟩
  rw [selectColumns, List.mapM_cons, List.mapM_nil, filter_name_of_mem hentry]
  show ofEntries [entry] = _
  exact ofEntries_of_nodup _

end

end Frame

/-!
## Rankings

A ranking computes a value of each row, sorts the rows by it and keeps the first of them.  Rows of
the same value may come in any order, so that a sorter is anything that permutes the rows into the
order of their values.  The values that are kept do not depend on it (`keys_take_sort`), and a
monotone function may be applied to them before or after.
-/

variable {V Row : Type} [LinearOrder V]

/-- A way to sort rows by their values. -/
structure Sorter (V Row : Type) [LinearOrder V] where
  sort : List (V × Row) → List (V × Row)
  perm : ∀ rows, (sort rows).Perm rows
  sorted : ∀ rows, ((sort rows).map Prod.fst).Pairwise (· ≤ ·)

/-- The sort of the library. -/
def Sorter.merge : Sorter V Row where
  sort rows := rows.mergeSort fun first second => first.1 ≤ second.1
  perm rows := List.mergeSort_perm rows _
  sorted rows := by
    have htrans : ∀ first second third : V × Row, decide (first.1 ≤ second.1) = true →
        decide (second.1 ≤ third.1) = true → decide (first.1 ≤ third.1) = true := by
      intro first second third hfirst hsecond
      exact decide_eq_true ((of_decide_eq_true hfirst).trans (of_decide_eq_true hsecond))
    have htotal : ∀ first second : V × Row,
        (decide (first.1 ≤ second.1) || decide (second.1 ≤ first.1)) = true := by
      intro first second
      rw [Bool.or_eq_true, decide_eq_true_eq, decide_eq_true_eq]
      exact le_total first.1 second.1
    rw [List.pairwise_map]
    exact (List.pairwise_mergeSort htrans htotal rows).imp fun hle => of_decide_eq_true hle

/-- The values of the first rows, for any two sorters and rows whose values differ by a monotone
function. -/
theorem keys_take_sort (first second : Sorter V Row) {scale : V → V} (hscale : Monotone scale)
    {rows scaled : List (V × Row)}
    (hscaled : scaled.map Prod.fst = (rows.map Prod.fst).map scale) (limit : ℕ) :
    ((second.sort scaled).take limit).map Prod.fst =
      (((first.sort rows).take limit).map Prod.fst).map scale := by
  have hperm : ((second.sort scaled).map Prod.fst).Perm
      (((first.sort rows).map Prod.fst).map scale) := by
    have hfirst := ((first.perm rows).map Prod.fst).map scale
    rw [← hscaled] at hfirst
    exact ((second.perm scaled).map Prod.fst).trans hfirst.symm
  have hsorted : (((first.sort rows).map Prod.fst).map scale).Pairwise (· ≤ ·) := by
    rw [List.pairwise_map]
    exact (first.sorted rows).imp fun hle => hscale hle
  have hsame := hperm.eq_of_pairwise' (second.sorted scaled) hsorted
  rw [List.map_take, List.map_take, List.map_take, hsame]

/-! ## RankedQuery queries -/

/-- A column as a function of the row. -/
abbrev RowColumn (Row V : Type) := Row → Except String V

/-- The columns that a query returns, of the first rows in the order of one of them. -/
structure RankedQuery (Row V : Type) where
  output : Frame (RowColumn Row V)
  order : RowColumn Row V
  limit : ℕ

namespace RankedQuery

/-- The column of exactly this name. -/
def column (ranked : RankedQuery Row V) (name : String) : RowColumn Row V :=
  match ranked.output.entries.find? fun entry => entry.1.name = name with
  | some entry => entry.2
  | none => fun _ => .error ("No field named " ++ name)

omit [LinearOrder V] in
theorem column_of_mem {ranked : RankedQuery Row V} {entry : FrameField × RowColumn Row V}
    (hentry : entry ∈ ranked.output.entries) : ranked.column entry.1.name = entry.2 := by
  rw [column, Frame.find?_of_mem hentry]

/-- A row with the value that it is sorted by. -/
def keyed (ranked : RankedQuery Row V) (row : Row) : Except String (V × Row) := do
  let value ← ranked.order row
  pure (value, row)

/-- The names of the columns that are returned, and the values of one of them. -/
def run (ranked : RankedQuery Row V) (sorter : Sorter V Row) (name : String) (rows : List Row) :
    Except String (List String × List V) := do
  let keyed ← rows.mapM ranked.keyed
  let values ← ((sorter.sort keyed).take ranked.limit).mapM fun entry =>
    ranked.column name entry.2
  pure (ranked.output.names, values)

section

variable {ranked other : RankedQuery Row V} {name : String} {value : RowColumn Row V}
  {rows : List Row} {values : List V} {key : V → V}

/-- A query over no rows returns its columns. -/
theorem run_nil (ranked : RankedQuery Row V) (sorter : Sorter V Row) (name : String) :
    ranked.run sorter name [] = .ok (ranked.output.names, []) := by
  have hsort : sorter.sort [] = [] := List.perm_nil.mp (sorter.perm [])
  rw [run, List.mapM_nil, pure_bind, hsort, List.take_nil, List.mapM_nil, pure_bind]
  rfl

theorem run_of_mapM_eq_ok (sorter : Sorter V Row) (post : V → V) (hvalues : rows.mapM value = .ok values)
    (horder : ∀ row, ranked.order row = (value row).map key)
    (hcolumn : ∀ row, ranked.column name row = (value row).map (post ∘ key)) :
    ranked.run sorter name rows = .ok (ranked.output.names,
      (((sorter.sort ((values.map key).zip rows)).take ranked.limit).map Prod.fst).map post) := by
  have hall := mapM_eq_ok.mp hvalues
  have hkeyed : rows.mapM ranked.keyed = .ok ((values.map key).zip rows) := by
    rw [mapM_eq_ok]
    clear hvalues
    induction hall with
    | nil => exact List.Forall₂.nil
    | cons hvalue _ ih =>
        refine List.Forall₂.cons ?_ ih
        rw [keyed, horder, hvalue]
        rfl
  have hentries : ∀ entry ∈ (values.map key).zip rows,
      ranked.column name entry.2 = .ok (post entry.1) := by
    clear hvalues hkeyed
    induction hall with
    | nil => exact fun _ hentry => nomatch hentry
    | cons hvalue _ ih =>
        intro entry hentry
        rcases List.mem_cons.mp hentry with rfl | hrest
        · show ranked.column name _ = _
          rw [hcolumn, hvalue]
          rfl
        · exact ih entry hrest
  have hchosen : ((sorter.sort ((values.map key).zip rows)).take ranked.limit).mapM
      (fun entry => ranked.column name entry.2) =
      .ok (((sorter.sort ((values.map key).zip rows)).take ranked.limit).map
        fun entry => post entry.1) :=
    mapM_of_forall_eq_ok fun entry hentry =>
      hentries entry ((sorter.perm _).subset (List.mem_of_mem_take hentry))
  rw [run, hkeyed, ok_bind, hchosen, ok_bind, List.map_map]
  rfl

theorem run_of_mapM_eq_error (sorter : Sorter V Row) (name : String) {error : String}
    (hvalues : rows.mapM value = .error error)
    (horder : ∀ row, ranked.order row = (value row).map key) :
    ∃ error, ranked.run sorter name rows = .error error := by
  obtain ⟨row, hrow, hfails⟩ := exists_of_mapM_eq_error hvalues
  have hkeyed : ranked.keyed row = .error error := by
    rw [keyed, horder, hfails]
    rfl
  obtain ⟨failure, hfailure⟩ := mapM_of_exists_error hrow hkeyed
  refine ⟨failure, ?_⟩
  rw [run, hfailure]
  rfl

/-- Scaling before the sort or after it gives the same values. -/
theorem run_eq_of_scale (first second : Sorter V Row) {scale : V → V} (hscale : Monotone scale)
    (horder : ∀ row, ranked.order row = value row)
    (hcolumn : ∀ row, ranked.column name row = (value row).map scale)
    (hother : ∀ row, other.order row = (value row).map scale)
    (hotherColumn : ∀ row, other.column name row = (value row).map scale)
    (hnames : ranked.output.names = other.output.names) (hlimit : ranked.limit = other.limit)
    (rows : List Row) :
    (ranked.run first name rows).toOption = (other.run second name rows).toOption := by
  have horder' : ∀ row, ranked.order row = (value row).map id := by
    intro row
    rw [horder]
    cases value row <;> rfl
  cases hvalues : rows.mapM value with
  | error error =>
      obtain ⟨_, hfirst⟩ := run_of_mapM_eq_error first name hvalues horder'
      obtain ⟨_, hsecond⟩ := run_of_mapM_eq_error second name hvalues hother
      rw [hfirst, hsecond]
      rfl
  | ok values =>
      rw [run_of_mapM_eq_ok first scale hvalues horder' hcolumn,
        run_of_mapM_eq_ok second id hvalues hother hotherColumn, hnames, hlimit,
        List.map_id, List.map_id]
      have hlength : values.length = rows.length := (mapM_eq_ok.mp hvalues).length_eq.symm
      have hscaled : ((values.map scale).zip rows).map Prod.fst =
          ((values.zip rows).map Prod.fst).map scale := by
        rw [List.map_fst_zip (by rw [List.length_map, hlength]), List.map_fst_zip hlength.le]
      rw [keys_take_sort first second hscale hscaled]

end

end RankedQuery

end ParqDB.Foundations
