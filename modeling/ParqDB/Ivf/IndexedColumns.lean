import ParqDB.Ivf.SourceColumns

/-!
# A build over the columns that it checked

The plan of a build names its columns by `col`, which parses the name, where the validation looks
for a field of exactly the name.

**Results.**  `builtColumns_iff`: every column of the training sample and of the postings is
computed from the field of the requested name, and from no other, if and only if parsing leaves each
of the requested names as it is.  `other_column_built` is a build that trains on a field it did not check.
-/

namespace ParqDB.Ivf

open Foundations Kernels Meta

/-! ## What a selection reads -/

section

variable {frame result : Frame Computed}

/-- The columns with the fields of the source they are computed from. -/
def columnReads (frame : Frame Computed) : List (String × List String) :=
  frame.entries.map fun entry => (entry.1.name, entry.2.reads)

def readsOf (frame : Frame Computed) (name : String) : List String :=
  ((frame.entries.find? fun entry => entry.1.name = name).map fun entry => entry.2.reads).getD []

variable {entry : FrameField × Computed}

theorem readsOf_of_mem (hentry : entry ∈ frame.entries) :
    readsOf frame entry.1.name = entry.2.reads := by
  rw [readsOf, Frame.find?_of_mem hentry]
  rfl

theorem readsOf_of_mem_columnReads {name : String} {reads : List String}
    (hmem : (name, reads) ∈ columnReads frame) : readsOf frame name = reads := by
  obtain ⟨entry, hentry, heq⟩ := List.mem_map.mp hmem
  cases heq
  exact readsOf_of_mem hentry

theorem names_eq_columnReads : frame.names = (columnReads frame).map Prod.fst := by
  rw [columnReads, List.map_map]
  rfl

theorem reads_of_find {column : ColumnName} (hfind : frame.find column = .ok entry) :
    entry.2.reads = readsOf frame column.name := by
  obtain ⟨hentry, hname⟩ := Frame.find_eq_ok hfind
  rw [← hname, readsOf_of_mem hentry]

/-- A function reads what its arguments read. -/
def PreservesReads (apply : List Computed → Except String Computed) : Prop :=
  ∀ arguments result, apply arguments = .ok result → result.reads = arguments.flatMap Computed.reads

/-- The name of an expression with what it reads. -/
def itemReads (frame : Frame Computed) : Frame.Item Computed → String × List String
  | .column column => (column.name, readsOf frame column.name)
  | .computed inputs _ name => (name, inputs.flatMap fun column => readsOf frame column.name)

def Preserving : Frame.Item Computed → Prop
  | .column _ => True
  | .computed _ apply _ => PreservesReads apply

theorem reads_of_evaluate (item : Frame.Item Computed) (hitem : Preserving item)
    (hentry : frame.evaluate item = .ok entry) :
    (entry.1.name, entry.2.reads) = itemReads frame item := by
  have hname := Frame.name_of_evaluate hentry
  cases item with
  | column column =>
      rw [hname, reads_of_find hentry]
      rfl
  | computed inputs apply name =>
      obtain ⟨arguments, harguments, happly, -⟩ := Frame.evaluate_computed hentry
      have hreads : (arguments.map fun argument => argument.2.reads) =
          inputs.map fun column => readsOf frame column.name :=
        map_eq_map_of_mapM harguments fun _ _ _ hfind => reads_of_find hfind
      rw [hname, hitem _ _ happly, List.flatMap_map, itemReads, List.flatMap_def, hreads,
        ← List.flatMap_def]
      rfl

theorem columnReads_of_select {items : List (Frame.Item Computed)}
    (hitems : ∀ item ∈ items, Preserving item) (hselect : frame.select items = .ok result) :
    columnReads result = items.map (itemReads frame) :=
  map_eq_map_of_mapM (Frame.select_eq_ok hselect) fun item hitem _ hentry =>
    reads_of_evaluate item (hitems item hitem) hentry

theorem preservesReads_call (engine : Engine) (function : PlanFunction)
    (declared returned : ColumnType) : PreservesReads (engine.call function declared returned) := by
  intro arguments result hcall
  match arguments with
  | [argument] =>
      rw [Engine.call] at hcall
      split at hcall
      · cases hcall
        exact (List.append_nil _).symm
      · cases hcall
  | [] => cases hcall
  | _ :: _ :: _ => cases hcall

theorem preservesReads_castTo (type : ColumnType) : PreservesReads (castTo type) := by
  intro arguments result hcast
  match arguments with
  | [argument] =>
      cases hcast
      exact (List.append_nil _).symm
  | [] => cases hcast
  | _ :: _ :: _ => cases hcast

theorem preservesReads_transformVector (metric : DistanceMetric) :
    PreservesReads (transformVector metric) := by
  intro arguments result htransform
  match arguments with
  | [argument] =>
      rw [transformVector] at htransform
      split at htransform
      · cases htransform
        exact (List.append_nil _).symm
      · cases htransform
  | [] => cases htransform
  | _ :: _ :: _ => cases htransform

theorem preservesReads_getField (name : String) : PreservesReads (getField name) := by
  intro arguments result hget
  match arguments with
  | [argument] =>
      rw [getField] at hget
      split at hget
      · split at hget
        · cases hget
          exact (List.append_nil _).symm
        · cases hget
      · cases hget
  | [] => cases hget
  | _ :: _ :: _ => cases hget

end

/-! ## The names of the postings -/

/-- The names of the postings before their buckets. -/
def selectedNames (count : ℕ) (bits : Option LvqBits) : List String :=
  "cid" :: (List.range count).map keyName ++ bits.toList.map fun _ => "__parqdb_lvq"

theorem nodup_selectedNames (count : ℕ) (bits : Option LvqBits) :
    ("cid_bucket" :: selectedNames count bits).Nodup := by
  have hkeys : ((List.range count).map keyName).Nodup :=
    List.nodup_range.map keyName_injective
  have hcid (position : ℕ) : keyName position ≠ "cid" := keyName_ne (by decide)
  have hbucket (position : ℕ) : keyName position ≠ "cid_bucket" := keyName_ne (by decide)
  have hcodes (position : ℕ) : keyName position ≠ "__parqdb_lvq" := keyName_ne (by decide)
  rw [selectedNames]
  cases bits with
  | none => simp [hkeys, hcid, hbucket]
  | some bits => simp [List.nodup_append, hkeys, hcid, hbucket, hcodes]

/-! ## What the postings read -/

section

variable {engine : Engine} {source postings : Frame Computed} {vectorField : String}
  {sourceKeyFields : List String} {postingEncoding : PostingEncoding}

/-- The columns of the postings, with what the vector and the keys read. -/
def postingsReads (postingEncoding : PostingEncoding) (vector : List String)
    (keys : List (List String)) : List (String × List String) :=
  let keyColumns := keys.zipIdx.map fun key => (keyName key.2, key.1)
  match lvqBits postingEncoding with
  | none => ("cid", vector) :: keyColumns ++ [("cid_bucket", vector)]
  | some _ =>
      [("cid_bucket", vector), ("cid", vector)] ++ keyColumns ++
        [("offset", vector), ("scale", vector), ("code", vector)]

variable {item : Frame.Item Computed} {bits : Option LvqBits} {keys : List (Frame.Item Computed)}
  {selected : Frame Computed} {vectorType : ColumnType} {bucketed : Frame Computed} {key : String}
  {position : ℕ} {vector : List String} {count : ℕ}

theorem keyItem_eq_ok (hitem : keyItem engine source position key = .ok item) :
    Preserving item ∧
      itemReads source item = (keyName position, readsOf source (engine.col key).name) := by
  rw [keyItem] at hitem
  split at hitem
  · cases hitem
  · next keyType htype =>
      cases hitem
      refine ⟨?_, ?_⟩
      · intro arguments result happly
        dsimp only at happly
        split at happly
        · exact preservesReads_call engine _ _ _ _ _ happly
        · obtain ⟨converted, hconverted, hnonNull⟩ := bind_eq_ok.mp happly
          rw [preservesReads_call engine _ _ _ _ _ hnonNull, List.flatMap_singleton,
            preservesReads_castTo _ _ _ hconverted]
      · rw [itemReads, List.flatMap_singleton]

theorem columnReads_postingsItems
    (hkeys : (sourceKeyFields.zipIdx.mapM fun key => keyItem engine source key.2 key.1) = .ok keys)
    (hselect : source.select (postingsItems engine vectorType vectorField keys bits) =
      .ok selected) :
    columnReads selected = ("cid", readsOf source (engine.col vectorField).name) ::
      ((sourceKeyFields.map fun key => readsOf source (engine.col key).name).zipIdx.map fun key =>
        (keyName key.2, key.1)) ++
      bits.toList.map fun _ => ("__parqdb_lvq", readsOf source (engine.col vectorField).name) := by
  have hpreserving : ∀ item ∈ postingsItems engine vectorType vectorField keys bits,
      Preserving item := by
    intro item hitem
    rw [postingsItems, List.cons_append, List.mem_cons, List.mem_append, List.mem_map] at hitem
    rcases hitem with rfl | hkey | ⟨bits, -, rfl⟩
    · exact preservesReads_call engine _ _ _
    · obtain ⟨key, -, hkeyItem⟩ := exists_of_mem_mapM hkeys hkey
      exact (keyItem_eq_ok hkeyItem).1
    · exact preservesReads_call engine _ _ _
  have hkeyReads : keys.map (itemReads source) = sourceKeyFields.zipIdx.map fun key =>
      (keyName key.2, readsOf source (engine.col key.1).name) :=
    map_eq_map_of_mapM hkeys fun _ _ _ hkeyItem => (keyItem_eq_ok hkeyItem).2
  rw [columnReads_of_select hpreserving hselect, postingsItems, List.map_append, List.map_cons,
    hkeyReads, List.map_map, List.zipIdx_map, List.map_map]
  simp only [itemReads, List.flatMap_singleton, Function.comp_def]
  rfl

theorem names_of_postingsItems {keys : List (List String)}
    (hreads : columnReads selected = ("cid", vector) ::
      (keys.zipIdx.map fun key => (keyName key.2, key.1)) ++
        bits.toList.map fun _ => ("__parqdb_lvq", vector)) :
    selected.names = selectedNames keys.length bits := by
  have hpositions : (keys.zipIdx.map fun key => keyName key.2) =
      (List.range keys.length).map keyName := by
    rw [List.range_eq_range', ← List.zipIdx_map_snd 0 keys, List.map_map]
    rfl
  rw [names_eq_columnReads, hreads, List.cons_append, List.map_cons, List.map_append, List.map_map,
    List.map_map, selectedNames, ← hpositions]
  rfl

theorem preserving_of_mem_lvqItems (hitem : item ∈ lvqItems engine count) : Preserving item := by
  rw [lvqItems, List.mem_append, List.mem_append] at hitem
  rcases hitem with (hitem | hitem) | hitem
  · rcases List.mem_pair.mp hitem with rfl | rfl <;> exact trivial
  · obtain ⟨position, -, rfl⟩ := List.mem_map.mp hitem
    exact trivial
  · simp only [List.mem_cons, List.not_mem_nil, or_false] at hitem
    rcases hitem with rfl | rfl | rfl <;> exact preservesReads_getField _

theorem itemReads_lvqItems (engine : Engine) {keys : List (List String)}
    (hreads : columnReads bucketed = ("cid", vector) ::
      (keys.zipIdx.map fun key => (keyName key.2, key.1)) ++ [("__parqdb_lvq", vector)] ++
        [("cid_bucket", vector)]) :
    (lvqItems engine keys.length).map (itemReads bucketed) =
      [("cid_bucket", vector), ("cid", vector)] ++
        (keys.zipIdx.map fun key => (keyName key.2, key.1)) ++
        [("offset", vector), ("scale", vector), ("code", vector)] := by
  have hbucket : readsOf bucketed "cid_bucket" = vector :=
    readsOf_of_mem_columnReads (by rw [hreads]; simp)
  have hcid : readsOf bucketed "cid" = vector :=
    readsOf_of_mem_columnReads (by rw [hreads]; simp)
  have hlvq : readsOf bucketed "__parqdb_lvq" = vector :=
    readsOf_of_mem_columnReads (by rw [hreads]; simp)
  have hkeys : ((List.range keys.length).map fun position =>
      (keyName position, readsOf bucketed (keyName position))) =
        keys.zipIdx.map fun key => (keyName key.2, key.1) := by
    rw [List.range_eq_range', ← List.zipIdx_map_snd 0 keys, List.map_map]
    refine List.map_congr_left fun key hkey => ?_
    have hmem : (keyName key.2, key.1) ∈ columnReads bucketed := by
      rw [hreads]
      simp only [List.cons_append, List.mem_cons, List.mem_append, List.mem_map]
      exact Or.inr (Or.inl (Or.inl ⟨key, hkey, rfl⟩))
    show (keyName key.2, readsOf bucketed (keyName key.2)) = _
    rw [readsOf_of_mem_columnReads hmem]
  rw [lvqItems, List.map_append, List.map_append, List.map_map]
  simp only [Function.comp_def, itemReads, engine.col_of_plain (isPlainName_keyName _),
    engine.col_of_plain (show isPlainName "cid" = true by decide),
    engine.col_of_plain (show isPlainName "cid_bucket" = true by decide),
    engine.col_of_plain (show isPlainName "__parqdb_lvq" = true by decide),
    ColumnName.verbatim, List.map_cons, List.map_nil, List.flatMap_singleton, hbucket, hcid,
    hlvq, hkeys]

/-- What the columns of the postings read, if the plan succeeds. -/
theorem columnReads_of_projectPostings
    (hproject : projectPostings engine source vectorField sourceKeyFields postingEncoding =
      .ok postings) :
    columnReads postings = postingsReads postingEncoding
      (readsOf source (engine.col vectorField).name)
      (sourceKeyFields.map fun key => readsOf source (engine.col key).name) := by
  rw [projectPostings] at hproject
  split at hproject
  · cases hproject
  obtain ⟨keys, hkeys, hproject⟩ := bind_eq_ok.mp hproject
  obtain ⟨selected, hselected, hproject⟩ := bind_eq_ok.mp hproject
  obtain ⟨bucketed, hbucketed, hproject⟩ := bind_eq_ok.mp hproject
  have hreads := columnReads_postingsItems hkeys hselected
  generalize hvector : readsOf source (engine.col vectorField).name = vector at hreads ⊢
  have hfresh : "cid_bucket" ∉ selected.names := by
    rw [names_of_postingsItems hreads]
    exact (List.nodup_cons.mp (nodup_selectedNames _ _)).1
  obtain ⟨computed, hcomputed, hentries⟩ := Frame.withColumn_eq_ok_of_notMem hbucketed hfresh
  have hbuckets : columnReads bucketed = columnReads selected ++ [("cid_bucket", vector)] := by
    have hcid : ("cid", vector) ∈ columnReads selected := by
      rw [hreads]
      exact List.mem_cons_self
    have heval := reads_of_evaluate (.computed _ _ _) (preservesReads_call engine _ _ _) hcomputed
    rw [itemReads, List.flatMap_singleton, engine.col_of_plain (by decide), ColumnName.verbatim,
      readsOf_of_mem_columnReads hcid] at heval
    rw [columnReads, hentries, List.map_append, List.map_singleton, heval]
    rfl
  rw [hreads] at hbuckets
  rw [postingsReads]
  cases hbits : lvqBits postingEncoding with
  | none =>
      rw [hbits] at hproject hbuckets
      cases hproject
      rw [hbuckets, Option.toList_none, List.map_nil, List.append_nil]
  | some bits =>
      rw [hbits] at hproject hbuckets
      have hcodes := itemReads_lvqItems engine hbuckets
      rw [List.length_map] at hcodes
      rw [columnReads_of_select (fun _ => preserving_of_mem_lvqItems) hproject, hcodes]

/-! ## A plan that succeeds -/

variable {entry : FrameField × Computed} {frame : Frame Computed} {name : String}
  {function : PlanFunction}

theorem typeWithName_of_mem (hentry : entry ∈ source.entries) :
    typeWithName source entry.1.name = some entry.2.type := by
  rw [typeWithName, Frame.find?_of_mem hentry]
  rfl

theorem exists_entry (hname : name ∈ frame.names) :
    ∃ entry ∈ frame.entries, entry.1.name = name := List.mem_map.mp hname

variable {column : ColumnName} {argument : Computed} {declared returned : ColumnType}

/-- A function of one column, which is there and which it takes. -/
theorem exists_evaluate (hentry : entry ∈ frame.entries)
    (hcolumn : column = ColumnName.verbatim entry.1.name)
    {apply : List Computed → Except String Computed} (name : String)
    (happly : ∃ computed, apply [entry.2] = .ok computed) :
    ∃ result, frame.evaluate (.computed [column] apply name) = .ok result := by
  obtain ⟨computed, hcomputed⟩ := happly
  have harguments : [column].mapM frame.find = .ok [entry] := by
    rw [List.mapM_cons, hcolumn, Frame.find_verbatim hentry]
    rfl
  exact ⟨_, Frame.evaluate_of_arguments harguments hcomputed⟩

theorem call_of_type (htype : argument.type = declared) :
    engine.call function declared returned [argument] = .ok (.call function argument returned) := by
  rw [Engine.call, htype, if_pos (engine.accepts_self declared)]

theorem exists_keyItem (hcolumn : engine.col key = ColumnName.verbatim key)
    (hkey : key ∈ source.names) :
    ∃ item, keyItem engine source position key = .ok item ∧ item.name = keyName position ∧
      ∃ entry, source.evaluate item = .ok entry := by
  obtain ⟨entry, hentry, rfl⟩ := exists_entry hkey
  rw [keyItem, typeWithName_of_mem hentry]
  refine ⟨_, rfl, rfl, ?_⟩
  refine exists_evaluate hentry hcolumn _ ?_
  by_cases hsame : entry.2.type = keyOutputType entry.2.type
  · rw [if_pos hsame]
    exact ⟨_, call_of_type hsame⟩
  · rw [if_neg hsame, castTo, ok_bind]
    exact ⟨_, call_of_type rfl⟩

theorem map_name_postingsItems
    (hnames : keys.map Frame.Item.name = (List.range keys.length).map keyName) :
    (postingsItems engine vectorType vectorField keys bits).map Frame.Item.name =
      selectedNames keys.length bits := by
  rw [postingsItems, List.map_append, List.map_cons, hnames, List.map_map, selectedNames]
  rfl

theorem exists_select_postingsItems
    (hvector : engine.col vectorField = ColumnName.verbatim vectorField)
    (hentry : entry ∈ source.entries) (hname : entry.1.name = vectorField)
    (hkeys : ∀ item ∈ keys, ∃ entry, source.evaluate item = .ok entry)
    (hnames : keys.map Frame.Item.name = (List.range keys.length).map keyName)
    (bits : Option LvqBits) :
    ∃ selected,
      source.select (postingsItems engine entry.2.type vectorField keys bits) = .ok selected := by
  rw [← hname] at hvector ⊢
  have heval : ∀ item ∈ postingsItems engine entry.2.type entry.1.name keys bits,
      ∃ result, source.evaluate item = .ok result := by
    intro item hitem
    rw [postingsItems, List.cons_append, List.mem_cons, List.mem_append, List.mem_map] at hitem
    rcases hitem with rfl | hkey | ⟨bits, -, rfl⟩
    · exact exists_evaluate hentry hvector _ ⟨_, call_of_type rfl⟩
    · exact hkeys item hkey
    · exact exists_evaluate hentry hvector _ ⟨_, call_of_type rfl⟩
  obtain ⟨entries, hentries⟩ := exists_mapM heval
  have hdistinct : ((postingsItems engine entry.2.type entry.1.name keys bits).map
      Frame.Item.name).Nodup := by
    rw [map_name_postingsItems hnames]
    exact (List.nodup_cons.mp (nodup_selectedNames _ _)).2
  obtain ⟨selected, hselected, -⟩ := Frame.exists_select hentries hdistinct
  exact ⟨selected, hselected⟩

theorem nodup_lvqItems (engine : Engine) (count : ℕ) :
    ((lvqItems engine count).map Frame.Item.name).Nodup := by
  have hnames : (lvqItems engine count).map Frame.Item.name = postingColumns count := by
    rw [lvqItems, List.map_append, List.map_append, List.map_map]
    simp only [Function.comp_def, Frame.Item.name, engine.col_of_plain (isPlainName_keyName _),
      engine.col_of_plain (show isPlainName "cid" = true by decide),
      engine.col_of_plain (show isPlainName "cid_bucket" = true by decide),
      ColumnName.verbatim, List.map_cons, List.map_nil, postingColumns]
  rw [hnames]
  exact nodup_postingColumns count

/-- The parts of the codes are there. -/
theorem exists_getField (htype : argument.type = lvqType)
    (hname : name ∈ ["offset", "scale", "code"]) :
    ∃ computed, getField name [argument] = .ok computed := by
  rw [getField, htype, lvqType]
  simp only [List.mem_cons, List.not_mem_nil, or_false] at hname
  rcases hname with rfl | rfl | rfl <;> exact ⟨_, rfl⟩

theorem exists_select_lvqItems (hbucket : "cid_bucket" ∈ bucketed.names)
    (hcid : "cid" ∈ bucketed.names) (hkeys : ∀ position < count, keyName position ∈ bucketed.names)
    {codes : FrameField × Computed} (hcodes : codes ∈ bucketed.entries)
    (hname : codes.1.name = "__parqdb_lvq") (htype : codes.2.type = lvqType) :
    ∃ postings, bucketed.select (lvqItems engine count) = .ok postings := by
  have hcolumn {name : String} (hplain : isPlainName name = true) (hmem : name ∈ bucketed.names) :
      ∃ entry, bucketed.evaluate (.column (engine.col name)) = .ok entry := by
    obtain ⟨entry, hentry, rfl⟩ := exists_entry hmem
    rw [engine.col_of_plain hplain]
    exact ⟨entry, Frame.find_verbatim hentry⟩
  have hverbatim : engine.col "__parqdb_lvq" = ColumnName.verbatim codes.1.name := by
    rw [hname]
    exact engine.col_of_plain (by decide)
  have heval : ∀ item ∈ lvqItems engine count, ∃ entry, bucketed.evaluate item = .ok entry := by
    intro item hitem
    rw [lvqItems, List.mem_append, List.mem_append] at hitem
    rcases hitem with (hitem | hitem) | hitem
    · rcases List.mem_pair.mp hitem with rfl | rfl
      · exact hcolumn (by decide) hbucket
      · exact hcolumn (by decide) hcid
    · obtain ⟨position, hposition, rfl⟩ := List.mem_map.mp hitem
      exact hcolumn (isPlainName_keyName position) (hkeys position (List.mem_range.mp hposition))
    · simp only [List.mem_cons, List.not_mem_nil, or_false] at hitem
      rcases hitem with rfl | rfl | rfl <;>
        exact exists_evaluate hcodes hverbatim _ (exists_getField htype (by simp))
  obtain ⟨entries, hentries⟩ := exists_mapM heval
  obtain ⟨postings, hpostings, -⟩ := Frame.exists_select hentries (nodup_lvqItems engine count)
  exact ⟨postings, hpostings⟩

/-- A column that a function computes has the type that this function returns. -/
theorem type_of_evaluate_call
    (hentry : frame.evaluate (.computed [column] (engine.call function declared returned) name) =
      .ok entry) : entry.1.name = name ∧ entry.2.type = returned := by
  refine ⟨Frame.name_of_evaluate hentry, ?_⟩
  obtain ⟨arguments, -, hcall, -⟩ := Frame.evaluate_computed hentry
  generalize arguments.map Prod.snd = contents at hcall
  match contents with
  | [argument] =>
      rw [Engine.call] at hcall
      split at hcall
      · injection hcall with hcall
        rw [← hcall]
        rfl
      · cases hcall
  | [] => cases hcall
  | _ :: _ :: _ => cases hcall

theorem exists_keyItems (hkeys : ∀ key ∈ sourceKeyFields,
      engine.col key = ColumnName.verbatim key ∧ key ∈ source.names) :
    ∃ items, (sourceKeyFields.zipIdx.mapM fun key => keyItem engine source key.2 key.1) =
        .ok items ∧
      items.length = sourceKeyFields.length ∧
      items.map Frame.Item.name = (List.range items.length).map keyName ∧
      ∀ item ∈ items, ∃ entry, source.evaluate item = .ok entry := by
  have hstep : ∀ key ∈ sourceKeyFields.zipIdx, ∃ item,
      keyItem engine source key.2 key.1 = .ok item ∧ item.name = keyName key.2 ∧
        ∃ entry, source.evaluate item = .ok entry := by
    intro key hkey
    obtain ⟨hcolumn, hfield⟩ := hkeys key.1 (List.fst_mem_of_mem_zipIdx hkey)
    exact exists_keyItem hcolumn hfield
  have hspec : ∀ key ∈ sourceKeyFields.zipIdx, ∀ item,
      keyItem engine source key.2 key.1 = .ok item →
        item.name = keyName key.2 ∧ ∃ entry, source.evaluate item = .ok entry := by
    intro key hkey item hitem
    obtain ⟨found, hfound, hpost⟩ := hstep key hkey
    rw [hfound] at hitem
    cases hitem
    exact hpost
  obtain ⟨items, hitems, hall⟩ := exists_mapM_of_forall hstep
  have hcount : items.length = sourceKeyFields.length := by
    rw [← hall.length_eq, List.length_zipIdx]
  refine ⟨items, hitems, hcount, ?_, ?_⟩
  · have hpositions : items.map Frame.Item.name =
        sourceKeyFields.zipIdx.map fun key => keyName key.2 :=
      map_eq_map_of_mapM hitems fun key hkey item hitem => (hspec key hkey item hitem).1
    rw [hpositions, hcount, List.range_eq_range', ← List.zipIdx_map_snd 0 sourceKeyFields,
      List.map_map]
    rfl
  · intro item hitem
    obtain ⟨key, hkey, hkeyItem⟩ := exists_of_mem_mapM hitems hitem
    exact (hspec key hkey item hkeyItem).2

/-- The clusters are there to be divided into buckets. -/
theorem exists_bucketed
    (hselected : source.select (postingsItems engine vectorType vectorField keys bits) =
      .ok selected) (hfresh : "cid_bucket" ∉ selected.names) :
    ∃ bucketed bucket, selected.withColumn "cid_bucket" [engine.col "cid"]
        (engine.call .cidBucket int32Type int32Type) = .ok bucketed ∧
      bucketed.entries = selected.entries ++ [bucket] ∧
      bucketed.names = selected.names ++ ["cid_bucket"] := by
  obtain ⟨cid, hcid, hcidEval⟩ := Frame.exists_of_mem_select hselected List.mem_cons_self
  obtain ⟨hname, htype⟩ := type_of_evaluate_call hcidEval
  have hcolumn : engine.col "cid" = ColumnName.verbatim cid.1.name := by
    rw [hname]
    exact engine.col_of_plain (by decide)
  have hcall : engine.call .cidBucket int32Type int32Type [cid.2] =
      .ok (.call .cidBucket cid.2 int32Type) := call_of_type htype
  obtain ⟨bucket, hbucket⟩ := exists_evaluate hcid hcolumn "cid_bucket" ⟨_, hcall⟩
  obtain ⟨bucketed, hbucketed, hentries⟩ := Frame.exists_withColumn_of_notMem hbucket hfresh
  refine ⟨bucketed, bucket, hbucketed, hentries, ?_⟩
  rw [Frame.names, hentries, List.map_append, List.map_singleton, Frame.name_of_evaluate hbucket]
  rfl

/-- A plan that finds its columns succeeds. -/
theorem exists_projectPostings (postingEncoding : PostingEncoding)
    (hvector : engine.col vectorField = ColumnName.verbatim vectorField)
    (hmem : vectorField ∈ source.names)
    (hkeys : ∀ key ∈ sourceKeyFields,
      engine.col key = ColumnName.verbatim key ∧ key ∈ source.names) :
    ∃ postings,
      projectPostings engine source vectorField sourceKeyFields postingEncoding = .ok postings := by
  obtain ⟨entry, hentry, hname⟩ := exists_entry hmem
  have htype := typeWithName_of_mem hentry
  rw [hname] at htype
  obtain ⟨items, hitems, hcount, hitemNames, heval⟩ := exists_keyItems hkeys
  obtain ⟨selected, hselected⟩ := exists_select_postingsItems hvector hentry hname heval hitemNames
    (lvqBits postingEncoding)
  have hnames : selected.names =
      selectedNames sourceKeyFields.length (lvqBits postingEncoding) := by
    rw [Frame.names_of_select hselected, map_name_postingsItems hitemNames, hcount]
  have hfresh : "cid_bucket" ∉ selected.names := by
    rw [hnames]
    exact (List.nodup_cons.mp (nodup_selectedNames _ _)).1
  obtain ⟨bucketed, bucket, hbucketed, hentries, hbucketedNames⟩ :=
    exists_bucketed hselected hfresh
  rw [projectPostings, htype]
  dsimp only
  rw [hitems, ok_bind, hselected, ok_bind, hbucketed, ok_bind]
  cases hbits : lvqBits postingEncoding with
  | none => exact ⟨bucketed, rfl⟩
  | some bits =>
      rw [hbits] at hselected hnames
      obtain ⟨codes, hcodes, hcodesEval⟩ := Frame.exists_of_mem_select hselected
        (List.mem_append_right _ (List.mem_singleton_self _))
      obtain ⟨hcodesName, hcodesType⟩ := type_of_evaluate_call hcodesEval
      refine exists_select_lvqItems ?_ ?_ ?_ ?_ hcodesName hcodesType
      · simp [hbucketedNames]
      · simp [hbucketedNames, hnames, selectedNames]
      · intro position hposition
        rw [hbucketedNames, hnames, selectedNames]
        simp only [List.cons_append, List.mem_cons, List.mem_append, List.mem_map, List.mem_range]
        exact Or.inr (Or.inl (Or.inl ⟨position, hposition, rfl⟩))
      · rw [hentries]
        exact List.mem_append_left _ hcodes

end

/-! ## Builds -/

section

variable (engine : Engine) (qualifier : List String) (schema : SourceSchema) (vectorField : String)
  (sourceKeyFields : List String) (nlist : ℕ) (metric : DistanceMetric)
  (postingEncoding : PostingEncoding)

/-- The columns of the training sample and of the postings, with what they read. -/
def builtColumns :
    Except String (List (String × List String) × List (String × List String)) := do
  let prepared ← prepareIvf engine qualifier schema vectorField sourceKeyFields nlist metric
  let postings ← projectPostings engine prepared.1 vectorField sourceKeyFields postingEncoding
  pure (columnReads prepared.2, columnReads postings)

/-- The plan succeeds, and each column reads the field of the requested name alone. -/
def IndexesRequested : Prop :=
  builtColumns engine qualifier schema vectorField sourceKeyFields nlist metric postingEncoding =
    .ok ([(vectorField, [vectorField])],
      postingsReads postingEncoding [vectorField] (sourceKeyFields.map fun key => [key]))

instance : Decidable (IndexesRequested engine qualifier schema vectorField sourceKeyFields nlist
    metric postingEncoding) := by
  unfold IndexesRequested
  infer_instance

/-- A request that passes the validation. -/
def Accepted : Prop :=
  validateRequest vectorField sourceKeyFields nlist = .ok () ∧
    validateSourceSchema engine.display schema vectorField sourceKeyFields = .ok ()

end

section

variable {engine : Engine} {qualifier : List String} {schema : SourceSchema} {vectorField : String}
  {sourceKeyFields : List String} {nlist : ℕ} {metric : DistanceMetric}
  {postingEncoding : PostingEncoding} {name : String} {source training : Frame Computed}
  {type : ColumnType}

theorem mem_entries_of_fieldWithName (qualifier : List String)
    (hfield : schema.fieldWithName name = some type) :
    (⟨qualifier, name⟩, .field name type) ∈ (sourceFrame qualifier schema).entries := by
  obtain ⟨field, hfound, rfl⟩ := Option.map_eq_some_iff.mp hfield
  have hname := List.find?_some hfound
  cases of_decide_eq_true hname
  rw [entries_sourceFrame]
  exact List.mem_map.mpr ⟨field, List.mem_of_find?_eq_some hfound, rfl⟩

/-- A field of the source reads itself. -/
theorem reads_of_mem_sourceFrame {entry : FrameField × Computed}
    (hentry : entry ∈ (sourceFrame qualifier schema).entries) :
    entry.2.reads = [entry.1.name] := by
  rw [entries_sourceFrame] at hentry
  obtain ⟨field, -, rfl⟩ := List.mem_map.mp hentry
  rfl

theorem Accepted.exists_types
    (haccepted : Accepted engine schema vectorField sourceKeyFields nlist) :
    (∃ type canonical, schema.fieldWithName vectorField = some type ∧
      canonicalVectorType type = some canonical) ∧
    ∀ key ∈ sourceKeyFields, ∃ type, schema.fieldWithName key = some type := by
  have hschema := haccepted.2
  rw [validateSourceSchema] at hschema
  cases htype : schema.fieldWithName vectorField with
  | none =>
      rw [htype] at hschema
      cases hschema
  | some type =>
      rw [htype] at hschema
      obtain ⟨hvector, hkeys⟩ := seq_eq_ok.mp hschema
      obtain ⟨canonical, hcanonical⟩ := Option.ne_none_iff_exists'.mp (rejectIf_eq_ok.mp hvector)
      refine ⟨⟨type, canonical, rfl, hcanonical⟩, ?_⟩
      intro key hkey
      have hcheck := forall_of_forM_eq_ok hkeys key hkey
      cases hkeyType : schema.fieldWithName key with
      | none =>
          rw [hkeyType] at hcheck
          cases hcheck
      | some keyType => exact ⟨keyType, rfl⟩

theorem mem_names_of_fieldWithName (qualifier : List String)
    (hfield : schema.fieldWithName name = some type) :
    name ∈ (sourceFrame qualifier schema).names :=
  List.mem_map_of_mem (f := fun entry => entry.1.name)
    (mem_entries_of_fieldWithName qualifier hfield)

/-- The transformed source is the source with one field computed, and this one is trained on. -/
theorem prepareIvf_eq_ok
    (hprepare : prepareIvf engine qualifier schema vectorField sourceKeyFields nlist metric =
      .ok (source, training)) (hmem : vectorField ∈ (sourceFrame qualifier schema).names) :
    ∃ computed : FrameField × Computed, computed.1.name = vectorField ∧
      computed.2.reads =
        readsOf (sourceFrame qualifier schema) (engine.col vectorField).name ∧
      source.entries = ((sourceFrame qualifier schema).entries.map fun entry =>
        if entry.1.name = vectorField then computed else entry) ∧
      training.entries = [computed] := by
  rw [prepareIvf] at hprepare
  obtain ⟨-, hprepare⟩ := seq_eq_ok.mp hprepare
  obtain ⟨-, hprepare⟩ := seq_eq_ok.mp hprepare
  obtain ⟨transformed, hcolumn, hprepare⟩ := bind_eq_ok.mp hprepare
  obtain ⟨sample, hsample, hprepare⟩ := bind_eq_ok.mp hprepare
  cases hprepare
  obtain ⟨computed, hcomputed, hentries⟩ := Frame.withColumn_eq_ok hcolumn hmem
  have hname := Frame.name_of_evaluate hcomputed
  have hreads :=
    reads_of_evaluate (.computed _ _ _) (preservesReads_transformVector metric) hcomputed
  rw [itemReads, List.flatMap_singleton] at hreads
  refine ⟨computed, hname, congrArg Prod.snd hreads, hentries, ?_⟩
  have hthere : computed ∈ source.entries := by
    obtain ⟨entry, hentry, hsame⟩ := exists_entry hmem
    rw [hentries]
    exact List.mem_map.mpr ⟨entry, hentry, if_pos hsame⟩
  obtain ⟨only, honly, hsingle⟩ := Frame.selectColumns_singleton hthere
  rw [hname, Frame.Item.name, hsample] at honly
  cases honly
  exact hsingle

theorem exists_prepareIvf (qualifier : List String) (metric : DistanceMetric)
    (haccepted : Accepted engine schema vectorField sourceKeyFields nlist)
    (hvector : engine.col vectorField = ColumnName.verbatim vectorField) :
    ∃ source training,
      prepareIvf engine qualifier schema vectorField sourceKeyFields nlist metric =
        .ok (source, training) ∧
      source.names = (sourceFrame qualifier schema).names := by
  obtain ⟨⟨type, canonical, htype, hcanonical⟩, -⟩ := haccepted.exists_types
  have hentry := mem_entries_of_fieldWithName qualifier htype
  have hmem := mem_names_of_fieldWithName qualifier htype
  have htransform : transformVector metric [.field vectorField type] =
      .ok (.call (.transformVector metric) (.field vectorField type) canonical) := by
    rw [transformVector, Computed.type, hcanonical]
  obtain ⟨computed, hcomputed⟩ := exists_evaluate hentry hvector vectorField ⟨_, htransform⟩
  obtain ⟨source, hsource, hentries⟩ := Frame.exists_withColumn_of_mem hcomputed hmem
  have hname : computed.1.name = vectorField := Frame.name_of_evaluate hcomputed
  have hthere : computed ∈ source.entries := by
    rw [hentries]
    exact List.mem_map.mpr ⟨_, hentry, if_pos rfl⟩
  obtain ⟨training, htraining, -⟩ := Frame.selectColumns_singleton hthere
  refine ⟨source, training, ?_, ?_⟩
  · rw [hname] at htraining
    rw [prepareIvf, haccepted.1, ok_bind, haccepted.2, ok_bind, hsource, ok_bind, htraining,
      ok_bind]
    rfl
  · rw [Frame.names, Frame.names, hentries, List.map_map]
    refine List.map_congr_left fun entry _ => ?_
    show (if entry.1.name = vectorField then computed else entry).1.name = entry.1.name
    split
    · next hsame => rw [hsame, hname]
    · rfl

variable {frame : Frame Computed}

/-- A frame whose columns read the field of their own name. -/
theorem name_eq_of_readsOf (hown : ∀ entry ∈ frame.entries, entry.2.reads = [entry.1.name])
    {found : String} (hreads : readsOf frame found = [name]) : found = name := by
  rw [readsOf] at hreads
  cases hfind : frame.entries.find? fun entry => entry.1.name = found with
  | none =>
      rw [hfind] at hreads
      cases hreads
  | some entry =>
      rw [hfind] at hreads
      have hname := List.find?_some hfind
      cases of_decide_eq_true hname
      have hself : entry.2.reads = [name] := hreads
      rw [hown entry (List.mem_of_find?_eq_some hfind)] at hself
      exact List.singleton_inj.mp hself

theorem readsOf_self (hown : ∀ entry ∈ frame.entries, entry.2.reads = [entry.1.name])
    (hname : name ∈ frame.names) : readsOf frame name = [name] := by
  obtain ⟨entry, hentry, rfl⟩ := exists_entry hname
  rw [readsOf_of_mem hentry, hown entry hentry]

theorem postingsReads_injective {vector other : List String} {first second : List (List String)}
    (hreads : postingsReads postingEncoding vector first =
      postingsReads postingEncoding other second) (hlength : first.length = second.length) :
    first = second := by
  have hkeys (keys : List (List String)) :
      (keys.zipIdx.map fun key => (keyName key.2, key.1)).map Prod.snd = keys := by
    rw [List.map_map]
    exact List.zipIdx_map_fst 0 keys
  have hcount : (first.zipIdx.map fun key => (keyName key.2, key.1)).length =
      (second.zipIdx.map fun key => (keyName key.2, key.1)).length := by
    rw [List.length_map, List.length_map, List.length_zipIdx, List.length_zipIdx, hlength]
  rw [postingsReads, postingsReads] at hreads
  cases hbits : lvqBits postingEncoding with
  | none =>
      rw [hbits] at hreads
      obtain ⟨hcolumns, -⟩ := List.append_inj (List.cons.inj hreads).2 hcount
      rw [← hkeys first, ← hkeys second, hcolumns]
  | some bits =>
      rw [hbits] at hreads
      have hcolumns := (List.append_inj hreads (by simp [hlength])).1
      obtain ⟨-, hcolumns⟩ := List.append_inj hcolumns rfl
      rw [← hkeys first, ← hkeys second, hcolumns]

/-- After the vector is transformed each column still reads the field of its name. -/
theorem reads_of_prepareIvf
    (hprepare : prepareIvf engine qualifier schema vectorField sourceKeyFields nlist metric =
      .ok (source, training)) (hmem : vectorField ∈ (sourceFrame qualifier schema).names)
    (hvector : (engine.col vectorField).name = vectorField) :
    (∀ entry ∈ source.entries, entry.2.reads = [entry.1.name]) ∧
      columnReads training = [(vectorField, [vectorField])] := by
  obtain ⟨computed, hname, hreads, hentries, htraining⟩ := prepareIvf_eq_ok hprepare hmem
  rw [hvector, readsOf_self (fun _ => reads_of_mem_sourceFrame) hmem] at hreads
  constructor
  · intro entry hentry
    rw [hentries] at hentry
    obtain ⟨field, hfield, rfl⟩ := List.mem_map.mp hentry
    split
    · rw [hreads, hname]
    · exact reads_of_mem_sourceFrame hfield
  · rw [columnReads, htraining, List.map_singleton, hname, hreads]

/-- A build reads the fields that it validated, and no others, if and only if parsing leaves their
names as they are. -/
theorem builtColumns_iff (haccepted : Accepted engine schema vectorField sourceKeyFields nlist) :
    IndexesRequested engine qualifier schema vectorField sourceKeyFields nlist metric
      postingEncoding ↔
      ∀ name ∈ vectorField :: sourceKeyFields, engine.col name = ColumnName.verbatim name := by
  obtain ⟨⟨type, canonical, htype, hcanonical⟩, hkeyTypes⟩ := haccepted.exists_types
  have hmem := mem_names_of_fieldWithName qualifier htype
  rw [IndexesRequested, builtColumns]
  constructor
  · intro hbuilt
    obtain ⟨⟨source, training⟩, hprepare, hbuilt⟩ := bind_eq_ok.mp hbuilt
    obtain ⟨postings, hproject, hbuilt⟩ := bind_eq_ok.mp hbuilt
    obtain ⟨htraining, hpostings⟩ := Prod.mk.inj (Except.ok.inj hbuilt)
    have hvector : (engine.col vectorField).name = vectorField := by
      obtain ⟨computed, -, hreads, -, hsample⟩ := prepareIvf_eq_ok hprepare hmem
      rw [columnReads, hsample] at htraining
      have hcomputed := (Prod.mk.inj (List.singleton_inj.mp htraining)).2
      rw [hreads] at hcomputed
      exact name_eq_of_readsOf (fun _ => reads_of_mem_sourceFrame) hcomputed
    have hown := (reads_of_prepareIvf hprepare hmem hvector).1
    rw [columnReads_of_projectPostings hproject] at hpostings
    have hkeys := postingsReads_injective hpostings (by rw [List.length_map, List.length_map])
    intro name hname
    refine engine.parser.column_eq_of_name ?_
    rcases List.mem_cons.mp hname with rfl | hkey
    · exact hvector
    · exact name_eq_of_readsOf hown (List.map_inj_left.mp hkeys name hkey)
  · intro hverbatim
    have hvector := hverbatim vectorField List.mem_cons_self
    have hname : (engine.col vectorField).name = vectorField := by
      rw [hvector]
      rfl
    obtain ⟨source, training, hprepare, hnames⟩ :=
      exists_prepareIvf qualifier metric haccepted hvector
    have hkeys : ∀ key ∈ sourceKeyFields,
        engine.col key = ColumnName.verbatim key ∧ key ∈ source.names := by
      intro key hkey
      obtain ⟨keyType, hkeyType⟩ := hkeyTypes key hkey
      rw [hnames]
      exact ⟨hverbatim key (List.mem_cons_of_mem _ hkey),
        mem_names_of_fieldWithName qualifier hkeyType⟩
    obtain ⟨hown, htraining⟩ := reads_of_prepareIvf hprepare hmem hname
    have hself : readsOf source vectorField = [vectorField] :=
      readsOf_self hown (by rw [hnames]; exact hmem)
    have hkeyReads : (sourceKeyFields.map fun key => readsOf source (engine.col key).name) =
        sourceKeyFields.map fun key => [key] := by
      refine List.map_congr_left fun key hkey => ?_
      obtain ⟨hcolumn, hfield⟩ := hkeys key hkey
      rw [hcolumn, ColumnName.verbatim, readsOf_self hown hfield]
    obtain ⟨postings, hproject⟩ :=
      exists_projectPostings postingEncoding hvector (by rw [hnames]; exact hmem) hkeys
    have hpostings := columnReads_of_projectPostings hproject
    rw [hname, hself, hkeyReads] at hpostings
    rw [hprepare, ok_bind, hproject, ok_bind, htraining, hpostings]
    rfl

end

/-! ## Two sources -/

/-- An engine that parses names as identifiers and converts no arguments. -/
def exactEngine : Engine where
  parser := identifierParser
  accepts declared given := declared = given
  accepts_self _ := decide_eq_true rfl
  display _ := "List"

def floatList : ColumnType := .vector .list "item" float32 false

def plainSource : SourceSchema where
  fields := [("vec", floatList), ("id", .scalar .int64)]
  distinct := by decide

theorem plain_source_indexed :
    Accepted exactEngine plainSource "vec" ["id"] 1 ∧
      IndexesRequested exactEngine ["t"] plainSource "vec" ["id"] 1 .cosine .lvq4 := by
  have haccepted : Accepted exactEngine plainSource "vec" ["id"] 1 := by
    constructor <;> decide +kernel
  refine ⟨haccepted, (builtColumns_iff haccepted).mpr ?_⟩
  decide +kernel

/-- Two vector columns whose names differ in one capital letter. -/
def mixedSource : SourceSchema where
  fields := [("Vec", floatList), ("vec", floatList), ("id", .scalar .int64)]
  distinct := by decide

theorem other_column_built :
    Accepted exactEngine mixedSource "Vec" ["id"] 1 ∧
      builtColumns exactEngine ["t"] mixedSource "Vec" ["id"] 1 .l2Squared .source =
        .ok ([("Vec", ["vec"])],
          [("cid", ["vec"]), ("key_1", ["id"]), ("cid_bucket", ["vec"])]) ∧
      ¬ IndexesRequested exactEngine ["t"] mixedSource "Vec" ["id"] 1 .l2Squared .source := by
  refine ⟨?_, ?_, ?_⟩
  · constructor <;> decide +kernel
  · decide +kernel
  · decide +kernel

end ParqDB.Ivf
