import ParqDB.Query.SearchSql

/-!
# One search, compiled twice

A search of the index alone is compiled to a plan, whose columns are named by `col`, and to a
statement, whose columns are quoted.

**Results.**  `compileDataFusionSql_eq_render`: the statement that is written is the one that
`IndexOnlySearch.statement` builds.  `same_query_iff`: the plan and the statement return the same
columns and the same distances, or both fail, if and only if the metric is not cosine or parsing
leaves every projected name as it is.  `capital_key_differs` is a search whose plan does not find
the column that the statement returns.
-/

namespace ParqDB.Query

open Foundations Ivf Kernels Meta

variable {F V : Type} [LinearOrder V]

namespace IndexOnlySearch

/-! ## What is known of the search -/

section

variable (search : IndexOnlySearch F)

theorem projection_facts :
    search.resolved.projection.Nodup ∧ "_distance" ∉ search.sourceFields ∧
      ∀ name ∈ search.resolved.projection, name ∈ search.sourceFields := by
  have hresolved := search.projection_resolved
  rw [resolveSearchProjection] at hresolved
  obtain ⟨hreserved, hresolved⟩ := rejectIf_bind_eq_ok.mp hresolved
  obtain ⟨hunique, hresolved⟩ := rejectIf_bind_eq_ok.mp hresolved
  obtain ⟨hfound, hprojection⟩ := seq_eq_ok.mp hresolved
  have hsame := Except.ok.inj hprojection
  rw [hsame] at hunique hfound
  refine ⟨Decidable.not_not.mp fun hdup => hunique (Or.inr hdup), hreserved, ?_⟩
  intro name hname
  exact Decidable.not_not.mp (rejectIf_eq_ok.mp (forall_of_forM_eq_ok hfound name hname))

theorem index_facts :
    ∃ filter key bits, clusterFilter search.resolved = .ok filter ∧ filter ≠ .exact ∧
      search.resolved.postingsTableKey = some key ∧
      lvqBits search.resolved.postingEncoding = some bits ∧
      search.resolved.filter = none ∧
      ∀ name ∈ search.resolved.projection, name ∈ search.resolved.sourceKeyFields := by
  have hindex := search.index_only
  rw [sourceTableRequired] at hindex
  obtain ⟨filter, hfilter, hindex⟩ := bind_eq_ok.mp hindex
  split at hindex
  · split at hindex <;> cases hindex
  · next hexact =>
      split at hindex
      · cases hindex
      · next hneeds =>
          obtain ⟨hencoding, hnone⟩ := not_or.mp hneeds
          have hkey : search.resolved.postingsTableKey ≠ none := by
            intro hkey
            exact hexact (clusterFilter_of_none hkey hfilter)
          obtain ⟨key, hkey⟩ := Option.ne_none_iff_exists'.mp hkey
          have hbits : ∃ bits, lvqBits search.resolved.postingEncoding = some bits := by
            cases hsame : search.resolved.postingEncoding with
            | source => exact absurd hsame hencoding
            | lvq4 => exact ⟨_, rfl⟩
            | lvq8 => exact ⟨_, rfl⟩
          obtain ⟨bits, hbits⟩ := hbits
          refine ⟨filter, key, bits, hfilter, hexact, hkey, hbits, ?_, ?_⟩
          · exact Option.not_isSome_iff_eq_none.mp hnone
          · intro name hname
            have hall := List.any_eq_false.mp (Except.ok.inj hindex) name hname
            exact Decidable.not_not.mp fun hmissing => hall (decide_eq_true hmissing)

theorem mem_keys_of_mem_projection {name : String} (hname : name ∈ search.resolved.projection) :
    name ∈ search.resolved.sourceKeyFields := by
  obtain ⟨_, _, _, -, -, -, -, -, hkeys⟩ := search.index_facts
  exact hkeys name hname

theorem distance_notMem_keys : "_distance" ∉ search.resolved.sourceKeyFields :=
  fun hkey => search.projection_facts.2.1 (search.keys_checked _ hkey)

theorem distance_notMem_projection : "_distance" ∉ search.resolved.projection :=
  fun hname => search.projection_facts.2.1 (search.projection_facts.2.2 _ hname)

theorem nodup_projection_distance : (search.resolved.projection ++ ["_distance"]).Nodup := by
  refine search.projection_facts.1.append (List.nodup_singleton _) ?_
  rw [List.disjoint_singleton]
  exact search.distance_notMem_projection

theorem nodup_keys_distance : (search.resolved.sourceKeyFields ++ ["_distance"]).Nodup := by
  refine search.keys_nodup.append (List.nodup_singleton _) ?_
  rw [List.disjoint_singleton]
  exact search.distance_notMem_keys

theorem indexOnlyColumns_eq : indexOnlyColumns search.resolved =
    .ok (search.resolved.sourceKeyFields.zipIdx.map fun key => (keyName key.2, key.1)) := by
  rw [indexOnlyColumns, search.index_only]
  rfl

end

/-! ## The statement that is written -/

def clusters (search : IndexOnlySearch F) : ClusterCondition :=
  match search.resolved.clusterSelection with
  | some (.native cids) =>
      if cids.length ≤ inlineClusterFilterLimit then .inlined cids else .values cids
  | _ => .all

/-- The search over a registered table of postings. -/
def statement (search : IndexOnlySearch F) (postings : String) : IndexOnlyStatement where
  postings := postings
  clusters := search.clusters
  candidates := (search.resolved.sourceKeyFields.zipIdx.map fun key =>
      .renamed "p" (keyName key.2) key.1) ++
    (lvqBits search.resolved.postingEncoding).toList.map .distance
  output := (search.resolved.projection.map (.column "c")) ++
    [match search.resolved.metric with
      | .cosine => .halved
      | .l2Squared => .column "c" "_distance"]
  scaled := search.resolved.metric = .cosine
  limit := search.resolved.limit

variable {key : String}

theorem distanceSql_eq_render (search : IndexOnlySearch F) (literal : String) {bits : LvqBits}
    (hbits : lvqBits search.resolved.postingEncoding = some bits)
    (hkey : search.resolved.postingsTableKey = some key) :
    distanceSql search.resolved literal ++ " AS _distance" =
      (SqlItem.distance bits).render literal := by
  rw [distanceSql, hkey]
  cases hencoding : search.resolved.postingEncoding with
  | source =>
      rw [hencoding] at hbits
      cases hbits
  | lvq4 =>
      rw [hencoding] at hbits
      cases hbits
      rfl
  | lvq8 =>
      rw [hencoding] at hbits
      cases hbits
      rfl

theorem candidatesCte_eq_render (search : IndexOnlySearch F) (literal postings : String) :
    candidatesCte search.resolved false (distanceSql search.resolved literal) =
      .ok ("parqdb_candidates AS (" ++ clause ++ "SELECT " ++
        ", ".intercalate ((search.statement postings).candidates.map (SqlItem.render literal)) ++
        clause ++ "FROM parqdb_postings AS p\n    )") := by
  obtain ⟨filter, key, bits, -, -, hkey, hbits, -⟩ := search.index_facts
  have hitems : (search.statement postings).candidates.map (SqlItem.render literal) =
      (search.resolved.sourceKeyFields.zipIdx.map fun key =>
        (keyName key.2, key.1)).map (fun column =>
          "p." ++ quoteIdentifier column.1 ++ " AS " ++ quoteIdentifier column.2) ++
        [distanceSql search.resolved literal ++ " AS _distance"] := by
    rw [search.distanceSql_eq_render literal hbits hkey, statement, hbits, List.map_append,
      List.map_map, List.map_map, List.map_map]
    rfl
  rw [candidatesCte, hkey, hitems, search.indexOnlyColumns_eq]
  rfl

/-- The clusters of the search, as the checks of the statement see them. -/
theorem clusterFilter_eq (search : IndexOnlySearch F) {filter : DataFusionClusterFilter}
    (hfilter : clusterFilter search.resolved = .ok filter)
    (hkey : search.resolved.postingsTableKey = some key) :
    match search.clusters with
    | .all => filter = .all
    | .inlined cids => filter = .nativeInline ∧ nativeSelectedClusters search.resolved = .ok cids
    | .values cids => filter = .nativeTable ∧ nativeSelectedClusters search.resolved = .ok cids := by
  rw [clusterFilter, hkey] at hfilter
  rw [clusters, nativeSelectedClusters]
  cases hnlist : search.resolved.nlist with
  | none =>
      rw [hnlist] at hfilter
      cases hfilter
  | some nlist =>
      rw [hnlist] at hfilter
      rcases search.selection with hall | ⟨cids, hcids⟩
      · rw [hall] at hfilter ⊢
        cases hfilter
        rfl
      · rw [hcids] at hfilter ⊢
        obtain ⟨-, hfilter⟩ := rejectIf_bind_eq_ok.mp hfilter
        obtain ⟨-, hfilter⟩ := seq_eq_ok.mp hfilter
        dsimp only
        split at hfilter
        · next hfew =>
            rw [if_pos hfew]
            cases hfilter
            exact ⟨rfl, rfl⟩
        · next hmany =>
            rw [if_neg hmany]
            cases hfilter
            exact ⟨rfl, rfl⟩

theorem finish_eq (search : IndexOnlySearch F) (literal postings : String) (ctes : List String) :
    (match search.resolved.metric with
      | .cosine =>
          let output := (search.resolved.projection.map fun name => "c." ++ quoteIdentifier name) ++
            ["c.\"_distance\" * CAST(0.5 AS REAL) AS \"_distance\""]
          let scaled := "parqdb_output AS (" ++ clause ++ "SELECT " ++ ", ".intercalate output ++
            clause ++ "FROM parqdb_candidates AS c\n    )"
          pure ("WITH\n    " ++ ",\n    ".intercalate (ctes ++ [scaled]) ++
            "\nSELECT *\nFROM parqdb_output\nORDER BY \"_distance\" ASC\nLIMIT " ++
            toString search.resolved.limit)
      | .l2Squared =>
          let output := (search.resolved.projection.map fun name => "c." ++ quoteIdentifier name) ++
            ["c.\"_distance\""]
          pure ("WITH\n    " ++ ",\n    ".intercalate ctes ++ "\nSELECT " ++
            ", ".intercalate output ++
            "\nFROM parqdb_candidates AS c\nORDER BY c.\"_distance\" ASC\nLIMIT " ++
            toString search.resolved.limit) : Except String String) =
      .ok ((search.statement postings).finish literal ctes) := by
  have hscaled : (search.statement postings).scaled =
      decide (search.resolved.metric = .cosine) := rfl
  have hdistance : quoteIdentifier "_distance" = "\"_distance\"" := by decide +kernel
  rw [IndexOnlyStatement.finish, hscaled]
  cases hmetric : search.resolved.metric with
  | cosine =>
      rw [statement, hmetric, List.map_append, List.map_map]
      rfl
  | l2Squared =>
      rw [statement, hmetric, List.map_append, List.map_map, List.map_singleton, SqlItem.render,
        hdistance]
      rfl

/-- The text of a search of the index alone is its statement. -/
theorem compileDataFusionSql_eq_render (search : IndexOnlySearch F) (display : F → String)
    (postings : String) :
    compileDataFusionSql display search.resolved none (some postings) none none =
      .ok ((search.statement postings).render (queryLiteral display search.resolved)) := by
  obtain ⟨filter, key, bits, hfilter, hexact, hkey, hbits, hnone, hkeys⟩ := search.index_facts
  have hclusters := search.clusterFilter_eq hfilter hkey
  have hvalid : validatedClusterFilter search.resolved (some postings) none none = .ok filter := by
    have hrouted : filter ≠ .dataFusion := by
      rintro rfl
      split at hclusters
      · cases hclusters
      · cases hclusters.1
      · cases hclusters.1
    rw [validatedClusterFilter, hkey, hfilter]
    simp [rejectIf, hrouted, ok_bind]
  rw [compileDataFusionSql, search.index_only, ok_bind, validatedSourceName, ok_bind, hvalid,
    ok_bind]
  have hcandidates :=
    search.candidatesCte_eq_render (queryLiteral display search.resolved) postings
  have hstatement : (search.statement postings).clusters = search.clusters := rfl
  rw [IndexOnlyStatement.render, hstatement]
  cases hcase : search.clusters with
  | all =>
      rw [hcase] at hclusters
      cases hclusters
      simp only [reduceCtorEq, false_and, if_false, pure_bind, postingsCte, hcandidates, ok_bind,
        Option.map_none, Option.toList_none, List.nil_append]
      exact search.finish_eq _ postings _
  | inlined cids =>
      rw [hcase] at hclusters
      obtain ⟨rfl, hcids⟩ := hclusters
      simp only [reduceCtorEq, false_and, if_false, pure_bind, postingsCte, hcids, hcandidates,
        ok_bind, Option.map_none, Option.toList_none, List.nil_append]
      exact search.finish_eq _ postings _
  | values cids =>
      rw [hcase] at hclusters
      obtain ⟨rfl, hcids⟩ := hclusters
      have hvalues : nativeSelectedClustersCte search.resolved =
          .ok ("parqdb_selected_clusters(\"cid\") AS (" ++ clause ++ "VALUES " ++
            ", ".intercalate (cids.map fun cid => "(" ++ toString cid ++ ")") ++ "\n    )") := by
        rw [nativeSelectedClustersCte, hcids]
        rfl
      simp only [reduceCtorEq, true_and, if_true, if_false, pure_bind, postingsCte, hvalues,
        Except.map, hcandidates, ok_bind, Option.isNone_none, Option.map_none, Option.toList_none,
        List.nil_append]
      exact search.finish_eq _ postings _

/-! ## What the selections compute -/

section

variable (engine : SearchEngine F V)

/-- The distance of a row of the postings. -/
def codeDistance (bits : LvqBits) (query : List F) : RowColumn (PostingRow V) V := fun row =>
  engine.lvqSquaredL2 bits query [row.cells "code", row.cells "offset", row.cells "scale"]

def metricScale : DistanceMetric → V → V
  | .l2Squared => id
  | .cosine => engine.half

theorem monotone_metricScale (metric : DistanceMetric) : Monotone (metricScale engine metric) := by
  cases metric with
  | l2Squared => exact monotone_id
  | cosine => exact engine.half_mono

/-- The distance that is returned. -/
def scaledDistance (resolved : ResolvedSearch F) (bits : LvqBits) :
    RowColumn (PostingRow V) V := fun row =>
  (codeDistance engine bits resolved.query row).map (metricScale engine resolved.metric)

variable {resolved : ResolvedSearch F} {keyCount : ℕ}

theorem scaledDistance_of_l2Squared (bits : LvqBits) (hmetric : resolved.metric = .l2Squared) :
    scaledDistance engine resolved bits = codeDistance engine bits resolved.query := by
  funext row
  rw [scaledDistance, hmetric]
  cases codeDistance engine bits resolved.query row <;> rfl

theorem scaledDistance_of_cosine (bits : LvqBits) (hmetric : resolved.metric = .cosine) :
    scaledDistance engine resolved bits =
      fun row => (codeDistance engine bits resolved.query row).map engine.half := by
  funext row
  rw [scaledDistance, hmetric]
  rfl

/-- A column of the postings. -/
def cell (qualifier : List String) (name : String) : FrameField × RowColumn (PostingRow V) V :=
  (⟨qualifier, name⟩, fun row => .ok (row.cells name))

variable {name : String}

omit [LinearOrder V] in
theorem mem_postingsFrame (qualifier : List String) (hname : name ∈ postingColumns keyCount) :
    cell qualifier name ∈ (postingsFrame V qualifier keyCount).entries :=
  List.mem_map.mpr ⟨_, List.mem_map.mpr ⟨name, hname, rfl⟩, rfl⟩

theorem keyName_mem_postingColumns {position : ℕ} (hposition : position < keyCount) :
    keyName position ∈ postingColumns keyCount := by
  rw [postingColumns, List.mem_append, List.mem_append]
  exact Or.inl (Or.inr (List.mem_map.mpr ⟨position, List.mem_range.mpr hposition, rfl⟩))

theorem code_mem_postingColumns (hname : name ∈ ["code", "offset", "scale"]) :
    name ∈ postingColumns keyCount := by
  rw [postingColumns, List.mem_append]
  simp only [List.mem_cons, List.not_mem_nil, or_false] at hname ⊢
  tauto

variable {frame : PostingFrame V} {column : ColumnName} {field : FrameField}
  {content : RowColumn (PostingRow V) V}

omit [LinearOrder V] in
theorem evaluate_aliasedItem (hfind : frame.find column = .ok (field, content)) (name : String) :
    frame.evaluate (aliasedItem column name) = .ok (⟨[], name⟩, content) := by
  have harguments : [column].mapM frame.find = .ok [(field, content)] := by
    rw [List.mapM_cons, hfind]
    rfl
  exact Frame.evaluate_of_arguments harguments rfl

theorem evaluate_halvedItem (hfind : frame.find column = .ok (field, content)) :
    frame.evaluate (halvedItem engine column) =
      .ok (⟨[], "_distance"⟩, fun row => (content row).map engine.half) := by
  have harguments : [column].mapM frame.find = .ok [(field, content)] := by
    rw [List.mapM_cons, hfind]
    rfl
  exact Frame.evaluate_of_arguments harguments rfl

theorem evaluate_distanceItem (bits : LvqBits) (query : List F) {columns : String → ColumnName}
    (qualifier : List String)
    (hfind : ∀ name ∈ ["code", "offset", "scale"], frame.find (columns name) =
      .ok (cell qualifier name)) :
    frame.evaluate (distanceItem engine bits query columns) =
      .ok (⟨[], "_distance"⟩, codeDistance engine bits query) := by
  have harguments : [columns "code", columns "offset", columns "scale"].mapM frame.find =
      .ok [cell qualifier "code", cell qualifier "offset", cell qualifier "scale"] := by
    rw [List.mapM_cons, List.mapM_cons, List.mapM_cons, hfind "code" (by simp),
      hfind "offset" (by simp), hfind "scale" (by simp)]
    rfl
  exact Frame.evaluate_of_arguments harguments rfl

end

/-! ## The statement succeeds -/

section

variable (engine : SearchEngine F V) (search : IndexOnlySearch F) (qualifier : List String)

/-- The postings of the searched index. -/
def postings (V : Type) (search : IndexOnlySearch F) (qualifier : List String) : PostingFrame V :=
  postingsFrame V qualifier search.resolved.sourceKeyFields.length

variable {bits : LvqBits}

theorem exists_candidates (postings : String)
    (hbits : lvqBits search.resolved.postingEncoding = some bits) :
    ∃ candidates, ((search.postings V qualifier).aliased ["p"]).select
        ((search.statement postings).candidates.map (SqlItem.item engine search.resolved.query)) =
          .ok candidates ∧
      candidates.names = search.resolved.sourceKeyFields ++ ["_distance"] ∧
      (⟨[], "_distance"⟩, codeDistance engine bits search.resolved.query) ∈ candidates.entries := by
  have hfind : ∀ name ∈ postingColumns search.resolved.sourceKeyFields.length,
      ((search.postings V qualifier).aliased ["p"]).find (quotedColumn "p" name) =
        .ok (cell ["p"] name) :=
    fun name hname => Frame.find_aliased (mem_postingsFrame qualifier hname) "p"
  have hdistance : ((search.postings V qualifier).aliased ["p"]).evaluate
      (distanceItem engine bits search.resolved.query (quotedColumn "p")) =
        .ok (⟨[], "_distance"⟩, codeDistance engine bits search.resolved.query) :=
    evaluate_distanceItem engine bits search.resolved.query ["p"] fun name hname =>
      hfind name (code_mem_postingColumns hname)
  have hitems : (search.statement postings).candidates.map
      (SqlItem.item engine search.resolved.query) =
      (search.resolved.sourceKeyFields.zipIdx.map fun key =>
        aliasedItem (quotedColumn "p" (keyName key.2)) key.1) ++
        [distanceItem engine bits search.resolved.query (quotedColumn "p")] := by
    rw [statement, hbits, List.map_append, List.map_map]
    rfl
  have hnames : ((search.statement postings).candidates.map
      (SqlItem.item engine search.resolved.query)).map Frame.Item.name =
        search.resolved.sourceKeyFields ++ ["_distance"] := by
    rw [hitems, List.map_append, List.map_map]
    show (search.resolved.sourceKeyFields.zipIdx.map Prod.fst) ++ ["_distance"] = _
    rw [List.zipIdx_map_fst]
  have heval : ∀ item ∈ (search.statement postings).candidates.map
      (SqlItem.item engine search.resolved.query),
      ∃ entry, ((search.postings V qualifier).aliased ["p"]).evaluate item = .ok entry := by
    rw [hitems]
    intro item hitem
    rcases List.mem_append.mp hitem with hkeyItem | hlast
    · obtain ⟨key, hkey, rfl⟩ := List.mem_map.mp hkeyItem
      have hposition : key.2 < search.resolved.sourceKeyFields.length := by
        have hrange := List.snd_lt_of_mem_zipIdx hkey
        omega
      exact ⟨_, evaluate_aliasedItem (hfind _ (keyName_mem_postingColumns hposition)) _⟩
    · cases List.mem_singleton.mp hlast
      exact ⟨_, hdistance⟩
  obtain ⟨entries, hentries⟩ := exists_mapM heval
  obtain ⟨candidates, hcandidates, -⟩ := Frame.exists_select hentries (by
    rw [hnames]
    exact search.nodup_keys_distance)
  refine ⟨candidates, hcandidates, ?_, ?_⟩
  · rw [Frame.names_of_select hcandidates, hnames]
  · refine Frame.mem_of_select hcandidates ?_ hdistance
    rw [hitems]
    exact List.mem_append_right _ (List.mem_singleton_self _)

/-- What a query ranks, and what it returns. -/
structure Ranks (ranked : RankedQuery (PostingRow V) V) (names : List String) (limit : ℕ)
    (order distance : RowColumn (PostingRow V) V) : Prop where
  names : ranked.output.names = names
  limit : ranked.limit = limit
  order : ranked.order = order
  distance : ranked.column "_distance" = distance

/-- The output of the statement: the projection, and the distance as it is returned. -/
theorem exists_output (postings : String) {candidates : PostingFrame V}
    (hnames : candidates.names = search.resolved.sourceKeyFields ++ ["_distance"])
    (hdistance : (⟨[], "_distance"⟩, codeDistance engine bits search.resolved.query) ∈
      candidates.entries) :
    ∃ output, (candidates.aliased ["c"]).select
        ((search.statement postings).output.map (SqlItem.item engine search.resolved.query)) =
          .ok output ∧
      output.names = search.resolved.projection ++ ["_distance"] ∧
      ∃ field, (⟨field, "_distance"⟩, scaledDistance engine search.resolved bits) ∈
        output.entries := by
  have hfindDistance : (candidates.aliased ["c"]).find (quotedColumn "c" "_distance") =
      .ok (⟨["c"], "_distance"⟩, codeDistance engine bits search.resolved.query) :=
    Frame.find_aliased hdistance "c"
  obtain ⟨item, field, hitem, hname, hlast⟩ : ∃ item field,
      (search.statement postings).output.map (SqlItem.item engine search.resolved.query) =
        (search.resolved.projection.map fun name => .column (quotedColumn "c" name)) ++ [item] ∧
      item.name = "_distance" ∧
      (candidates.aliased ["c"]).evaluate item =
        .ok (⟨field, "_distance"⟩, scaledDistance engine search.resolved bits) := by
    rw [statement]
    cases hmetric : search.resolved.metric with
    | l2Squared =>
        refine ⟨.column (quotedColumn "c" "_distance"), ["c"], ?_, rfl, ?_⟩
        · rw [List.map_append, List.map_map]
          rfl
        · rw [scaledDistance_of_l2Squared engine bits hmetric]
          exact hfindDistance
    | cosine =>
        refine ⟨halvedItem engine (quotedColumn "c" "_distance"), [], ?_, rfl, ?_⟩
        · rw [List.map_append, List.map_map]
          rfl
        · rw [scaledDistance_of_cosine engine bits hmetric]
          exact evaluate_halvedItem engine hfindDistance
  rw [hitem]
  have hitemNames : ((search.resolved.projection.map fun name =>
      (.column (quotedColumn "c" name) : PostingItem V)) ++ [item]).map Frame.Item.name =
        search.resolved.projection ++ ["_distance"] := by
    rw [List.map_append, List.map_map, List.map_singleton, hname]
    show search.resolved.projection.map id ++ _ = _
    rw [List.map_id]
  have heval : ∀ other ∈ (search.resolved.projection.map fun name =>
      (.column (quotedColumn "c" name) : PostingItem V)) ++ [item],
      ∃ entry, (candidates.aliased ["c"]).evaluate other = .ok entry := by
    intro other hother
    rcases List.mem_append.mp hother with hcolumn | hdistanceItem
    · obtain ⟨name, hprojected, rfl⟩ := List.mem_map.mp hcolumn
      have hmem : name ∈ candidates.names := by
        rw [hnames]
        exact List.mem_append_left _ (search.mem_keys_of_mem_projection hprojected)
      obtain ⟨entry, hentry, rfl⟩ := List.mem_map.mp hmem
      exact ⟨_, Frame.find_aliased hentry "c"⟩
    · cases List.mem_singleton.mp hdistanceItem
      exact ⟨_, hlast⟩
  obtain ⟨entries, hentries⟩ := exists_mapM heval
  obtain ⟨output, houtput, -⟩ := Frame.exists_select hentries (by
    rw [hitemNames]
    exact search.nodup_projection_distance)
  refine ⟨output, houtput, ?_, field, ?_⟩
  · rw [Frame.names_of_select houtput, hitemNames]
  · exact Frame.mem_of_select houtput (List.mem_append_right _ (List.mem_singleton_self _)) hlast

omit [LinearOrder V] in
theorem column_of_mem_output {ranked : RankedQuery (PostingRow V) V} {field : List String}
    {content : RowColumn (PostingRow V) V}
    (hentry : (⟨field, "_distance"⟩, content) ∈ ranked.output.entries) :
    ranked.column "_distance" = content := RankedQuery.column_of_mem hentry

theorem exists_statement_plan (postings : String)
    (hbits : lvqBits search.resolved.postingEncoding = some bits) :
    ∃ ranked, (search.statement postings).plan engine search.resolved.query
        (search.postings V qualifier) = .ok ranked ∧
      Ranks ranked (search.resolved.projection ++ ["_distance"]) search.resolved.limit
        (scaledDistance engine search.resolved bits)
        (scaledDistance engine search.resolved bits) := by
  obtain ⟨candidates, hcandidates, hnames, hdistance⟩ :=
    search.exists_candidates engine qualifier postings hbits
  obtain ⟨output, houtput, houtputNames, field, hreturned⟩ :=
    search.exists_output engine postings hnames hdistance
  obtain ⟨order, horder, hcontent⟩ : ∃ order,
      (search.statement postings).orderColumn (candidates.aliased ["c"]) output = .ok order ∧
        order.2 = scaledDistance engine search.resolved bits := by
    have hscaled : (search.statement postings).scaled =
        decide (search.resolved.metric = .cosine) := rfl
    rw [IndexOnlyStatement.orderColumn, hscaled]
    cases hmetric : search.resolved.metric with
    | cosine => exact ⟨_, Frame.find_verbatim hreturned, rfl⟩
    | l2Squared =>
        refine ⟨_, Frame.find_aliased hdistance "c", ?_⟩
        rw [scaledDistance_of_l2Squared engine bits hmetric]
  refine ⟨⟨output, order.2, search.resolved.limit⟩, ?_, houtputNames, rfl, hcontent, ?_⟩
  · rw [IndexOnlyStatement.plan, hcandidates, ok_bind, houtput, ok_bind, horder]
    rfl
  · exact column_of_mem_output hreturned

end

/-! ## The plan -/

section

variable (engine : SearchEngine F V) (search : IndexOnlySearch F) (qualifier : List String)
  {name : String}

omit [LinearOrder V] in
theorem find_postings (hname : name ∈ postingColumns search.resolved.sourceKeyFields.length) :
    (search.postings V qualifier).find (ColumnName.verbatim name) = .ok (cell qualifier name) :=
  Frame.find_verbatim (mem_postingsFrame qualifier hname)

/-- A projected key is found under its number, which is a plain name. -/
theorem exists_projectionItem (hname : name ∈ search.resolved.sourceKeyFields) :
    ∃ item, projectionItem engine search.resolved name = .ok item ∧ item.name = name ∧
      ∃ entry, (search.postings V qualifier).evaluate item = .ok entry := by
  have hthere : (name ∈ (search.resolved.sourceKeyFields.zipIdx.map fun key =>
      (keyName key.2, key.1)).map Prod.snd) := by
    rw [List.map_map]
    show name ∈ search.resolved.sourceKeyFields.zipIdx.map Prod.fst
    rw [List.zipIdx_map_fst]
    exact hname
  obtain ⟨column, hcolumn, hsame⟩ := List.mem_map.mp hthere
  obtain ⟨found, hfound⟩ : ∃ found, (search.resolved.sourceKeyFields.zipIdx.map fun key =>
      (keyName key.2, key.1)).find? (fun column => column.2 = name) = some found := by
    rw [← Option.isSome_iff_exists, List.find?_isSome]
    exact ⟨column, hcolumn, decide_eq_true hsame⟩
  obtain ⟨key, hkey, rfl⟩ := List.mem_map.mp (List.mem_of_find?_eq_some hfound)
  have houtput := List.find?_some hfound
  have hkeyName : key.1 = name := of_decide_eq_true houtput
  have hposition : key.2 < search.resolved.sourceKeyFields.length := by
    have hrange := List.snd_lt_of_mem_zipIdx hkey
    omega
  have hplain : engine.parser.column (keyName key.2) = ColumnName.verbatim (keyName key.2) :=
    engine.parser.plain _ (isPlainName_keyName key.2)
  have hfind := search.find_postings (V := V) qualifier (keyName_mem_postingColumns hposition)
  rw [projectionItem, search.indexOnlyColumns_eq, ok_bind, hfound]
  dsimp only
  rw [hplain]
  split
  · next hbare => exact ⟨_, rfl, hbare, _, hfind⟩
  · exact ⟨_, rfl, rfl, _, evaluate_aliasedItem hfind name⟩

/-- The first selection of the plan. -/
theorem exists_selected (bits : LvqBits) :
    ∃ items selected,
      search.resolved.projection.mapM (projectionItem engine search.resolved) = .ok items ∧
      (search.postings V qualifier).select
        (items ++ [distanceItem engine bits search.resolved.query engine.parser.column]) =
          .ok selected ∧
      selected.names = search.resolved.projection ++ ["_distance"] ∧
      (⟨[], "_distance"⟩, codeDistance engine bits search.resolved.query) ∈ selected.entries := by
  have hdistance : (search.postings V qualifier).evaluate
      (distanceItem engine bits search.resolved.query engine.parser.column) =
        .ok (⟨[], "_distance"⟩, codeDistance engine bits search.resolved.query) := by
    refine evaluate_distanceItem engine bits search.resolved.query qualifier fun name hname => ?_
    have hplain : engine.parser.column name = ColumnName.verbatim name := by
      refine engine.parser.plain name ?_
      simp only [List.mem_cons, List.not_mem_nil, or_false] at hname
      rcases hname with rfl | rfl | rfl <;> decide
    rw [hplain]
    exact search.find_postings qualifier (code_mem_postingColumns hname)
  have hstep : ∀ name ∈ search.resolved.projection, ∃ item,
      projectionItem engine search.resolved name = .ok item ∧ item.name = name ∧
        ∃ entry, (search.postings V qualifier).evaluate item = .ok entry :=
    fun name hname =>
      search.exists_projectionItem engine qualifier (search.mem_keys_of_mem_projection hname)
  obtain ⟨items, hitems, -⟩ := exists_mapM_of_forall hstep
  have hspec : ∀ name ∈ search.resolved.projection, ∀ item,
      projectionItem engine search.resolved name = .ok item →
        item.name = name ∧ ∃ entry, (search.postings V qualifier).evaluate item = .ok entry := by
    intro name hname item hitem
    obtain ⟨found, hfound, hpost⟩ := hstep name hname
    rw [hfound] at hitem
    cases hitem
    exact hpost
  have hnames : (items ++ [distanceItem engine bits search.resolved.query
      engine.parser.column]).map Frame.Item.name = search.resolved.projection ++ ["_distance"] := by
    have hitemNames : items.map Frame.Item.name = search.resolved.projection.map id :=
      map_eq_map_of_mapM hitems fun name hname item hitem => (hspec name hname item hitem).1
    rw [List.map_append, hitemNames, List.map_id]
    rfl
  have heval : ∀ item ∈ items ++ [distanceItem engine bits search.resolved.query
      engine.parser.column], ∃ entry, (search.postings V qualifier).evaluate item = .ok entry := by
    intro item hitem
    rcases List.mem_append.mp hitem with hprojected | hlast
    · obtain ⟨name, hname, hfound⟩ := exists_of_mem_mapM hitems hprojected
      exact (hspec name hname item hfound).2
    · cases List.mem_singleton.mp hlast
      exact ⟨_, hdistance⟩
  obtain ⟨entries, hentries⟩ := exists_mapM heval
  obtain ⟨selected, hselected, -⟩ := Frame.exists_select hentries (by
    rw [hnames]
    exact search.nodup_projection_distance)
  refine ⟨items, selected, hitems, hselected, ?_, ?_⟩
  · rw [Frame.names_of_select hselected, hnames]
  · exact Frame.mem_of_select hselected
      (List.mem_append_right _ (List.mem_singleton_self _)) hdistance

variable {bits : LvqBits} {selected : PostingFrame V}

/-- The last step of the plan: its names are parsed, if there is anything to scale. -/
theorem scale_eq_ok {output : PostingFrame V}
    (hnames : selected.names = search.resolved.projection ++ ["_distance"])
    (hdistance : (⟨[], "_distance"⟩, codeDistance engine bits search.resolved.query) ∈
      selected.entries)
    (hscale : scaleDistanceProjection engine selected search.resolved = .ok output) :
    (⟨[], "_distance"⟩, scaledDistance engine search.resolved bits) ∈ output.entries ∧
      output.names = (search.resolved.projection.map fun name =>
        if search.resolved.metric = .cosine then (engine.parser.column name).name else name) ++
          ["_distance"] := by
  rw [scaleDistanceProjection] at hscale
  cases hmetric : search.resolved.metric with
  | l2Squared =>
      rw [hmetric] at hscale
      cases hscale
      refine ⟨?_, ?_⟩
      · rw [scaledDistance_of_l2Squared engine bits hmetric]
        exact hdistance
      · rw [hnames]
        simp
  | cosine =>
      rw [hmetric] at hscale
      refine ⟨?_, ?_⟩
      · have hplain : engine.parser.column "_distance" = ColumnName.verbatim "_distance" :=
          engine.parser.plain _ (by decide)
        have hfind : selected.find (engine.parser.column "_distance") =
            .ok (⟨[], "_distance"⟩, codeDistance engine bits search.resolved.query) := by
          rw [hplain]
          exact Frame.find_verbatim hdistance
        rw [scaledDistance_of_cosine engine bits hmetric]
        exact Frame.mem_of_select hscale
          (List.mem_append_right _ (List.mem_singleton_self _)) (evaluate_halvedItem engine hfind)
      · rw [Frame.names_of_select hscale, List.map_append, List.map_map]
        simp [Frame.Item.name, halvedItem, Function.comp_def]

theorem exists_scale (hnames : selected.names = search.resolved.projection ++ ["_distance"])
    (hdistance : (⟨[], "_distance"⟩, codeDistance engine bits search.resolved.query) ∈
      selected.entries)
    (hverbatim : search.resolved.metric = .cosine → ∀ name ∈ search.resolved.projection,
      engine.parser.column name = ColumnName.verbatim name) :
    ∃ output, scaleDistanceProjection engine selected search.resolved = .ok output := by
  rw [scaleDistanceProjection]
  cases hmetric : search.resolved.metric with
  | l2Squared => exact ⟨selected, rfl⟩
  | cosine =>
      have hcolumns := hverbatim hmetric
      have heval : ∀ item ∈ (search.resolved.projection.map fun name =>
          (.column (engine.parser.column name) : PostingItem V)) ++
            [halvedItem engine (engine.parser.column "_distance")],
          ∃ entry, selected.evaluate item = .ok entry := by
        intro item hitem
        rcases List.mem_append.mp hitem with hprojected | hlast
        · obtain ⟨name, hname, rfl⟩ := List.mem_map.mp hprojected
          have hmem : name ∈ selected.names := by
            rw [hnames]
            exact List.mem_append_left _ hname
          obtain ⟨entry, hentry, rfl⟩ := List.mem_map.mp hmem
          rw [hcolumns _ hname]
          exact ⟨_, Frame.find_verbatim hentry⟩
        · cases List.mem_singleton.mp hlast
          have hfind : selected.find (engine.parser.column "_distance") =
              .ok (⟨[], "_distance"⟩, codeDistance engine bits search.resolved.query) := by
            rw [engine.parser.plain "_distance" (by decide)]
            exact Frame.find_verbatim hdistance
          exact ⟨_, evaluate_halvedItem engine hfind⟩
      have hitemNames : ((search.resolved.projection.map fun name =>
          (.column (engine.parser.column name) : PostingItem V)) ++
            [halvedItem engine (engine.parser.column "_distance")]).map Frame.Item.name =
          search.resolved.projection ++ ["_distance"] := by
        rw [List.map_append, List.map_map]
        have hsame : search.resolved.projection.map (Frame.Item.name ∘ fun name =>
            (.column (engine.parser.column name) : PostingItem V)) =
              search.resolved.projection.map id := by
          refine List.map_congr_left fun name hname => ?_
          show (engine.parser.column name).name = name
          rw [hcolumns name hname]
          rfl
        rw [hsame, List.map_id]
        rfl
      obtain ⟨entries, hentries⟩ := exists_mapM heval
      obtain ⟨output, houtput, -⟩ := Frame.exists_select hentries (by
        rw [hitemNames]
        exact search.nodup_projection_distance)
      exact ⟨output, houtput⟩

/-- All but the last step of the plan succeeds. -/
theorem exists_compile_eq (hbits : lvqBits search.resolved.postingEncoding = some bits) :
    ∃ selected, selected.names = search.resolved.projection ++ ["_distance"] ∧
      (⟨[], "_distance"⟩, codeDistance engine bits search.resolved.query) ∈ selected.entries ∧
      compileIndexOnlyPlan engine (search.postings V qualifier) search.resolved = (do
        let output ← scaleDistanceProjection engine selected search.resolved
        pure ⟨output, codeDistance engine bits search.resolved.query, search.resolved.limit⟩) := by
  obtain ⟨items, selected, hitems, hselected, hnames, hdistance⟩ :=
    search.exists_selected engine qualifier bits
  have horder : selected.find (engine.parser.column "_distance") =
      .ok (⟨[], "_distance"⟩, codeDistance engine bits search.resolved.query) := by
    rw [engine.parser.plain "_distance" (by decide)]
    exact Frame.find_verbatim hdistance
  refine ⟨selected, hnames, hdistance, ?_⟩
  rw [compileIndexOnlyPlan, search.indexOnlyColumns_eq, ok_bind, hitems, ok_bind, hbits]
  dsimp only
  rw [hselected, ok_bind, horder, ok_bind]

end

/-! ## The same query -/

section

variable (engine : SearchEngine F V) (search : IndexOnlySearch F) (qualifier : List String)
  (display : F → String) (table : String)

/-- The plan of the statement that is written for the search. -/
def sqlPlan : Except String (RankedQuery (PostingRow V) V) := do
  let _ ← compileDataFusionSql display search.resolved none (some table) none none
  (search.statement table).plan engine search.resolved.query (search.postings V qualifier)

def planRun (sorter : Sorter V (PostingRow V)) (rows : List (PostingRow V)) :
    Except String (List String × List V) := do
  let ranked ← compileIndexOnlyPlan engine (search.postings V qualifier) search.resolved
  ranked.run sorter "_distance" (indexOnlyRows search.resolved rows)

def sqlRun (sorter : Sorter V (PostingRow V)) (rows : List (PostingRow V)) :
    Except String (List String × List V) := do
  let ranked ← search.sqlPlan engine qualifier display table
  ranked.run sorter "_distance" ((search.statement table).clusters.rows rows)

/-- One is compiled if the other is, and over any rows they return the same columns and the same
distances, or both fail. -/
structure SameQuery : Prop where
  compiled : (∃ ranked, compileIndexOnlyPlan engine (search.postings V qualifier)
      search.resolved = .ok ranked) ↔
    ∃ ranked, search.sqlPlan engine qualifier display table = .ok ranked
  results : ∀ first second rows, (search.planRun engine qualifier first rows).toOption =
    (search.sqlRun engine qualifier display table second rows).toOption

omit [LinearOrder V] in
/-- Both select the same rows of the postings. -/
theorem rows_clusters (rows : List (PostingRow V)) :
    (search.statement table).clusters.rows rows = indexOnlyRows search.resolved rows := by
  show search.clusters.rows rows = _
  rw [clusters, indexOnlyRows]
  rcases search.selection with hall | ⟨cids, hcids⟩
  · rw [hall]
    rfl
  · rw [hcids]
    dsimp only
    split <;> rfl

omit [LinearOrder V] in
theorem indexOnlyRows_nil (resolved : ResolvedSearch F) :
    indexOnlyRows resolved ([] : List (PostingRow V)) = [] := by
  rw [indexOnlyRows]
  split <;> rfl

/-- The plan and the statement are the same query if and only if the names that a scaled plan
parses are left as they are. -/
theorem same_query_iff :
    search.SameQuery engine qualifier display table ↔
      (search.resolved.metric = .cosine → ∀ name ∈ search.resolved.projection,
        engine.parser.column name = ColumnName.verbatim name) := by
  obtain ⟨_, _, bits, -, -, -, hbits, -⟩ := search.index_facts
  obtain ⟨selected, hnames, hdistance, hcompile⟩ := search.exists_compile_eq engine qualifier hbits
  obtain ⟨ranked, hranked, hranks⟩ := search.exists_statement_plan engine qualifier table hbits
  have hsql : search.sqlPlan engine qualifier display table = .ok ranked := by
    rw [sqlPlan, search.compileDataFusionSql_eq_render display table, ok_bind, hranked]
  constructor
  · rintro ⟨hcompiled, hresults⟩ hmetric
    obtain ⟨plan, hplan⟩ := hcompiled.mpr ⟨ranked, hsql⟩
    have hempty := hresults Sorter.merge Sorter.merge []
    rw [planRun, sqlRun, hplan, hsql, rows_clusters, indexOnlyRows_nil, ok_bind, ok_bind,
      RankedQuery.run_nil, RankedQuery.run_nil] at hempty
    have hsame : plan.output.names = ranked.output.names :=
      congrArg Prod.fst (Option.some.inj hempty)
    rw [hcompile] at hplan
    obtain ⟨output, hscale, hpure⟩ := bind_eq_ok.mp hplan
    cases hpure
    obtain ⟨-, houtput⟩ := search.scale_eq_ok engine hnames hdistance hscale
    rw [houtput, hranks.names, List.append_left_inj] at hsame
    intro name hname
    refine engine.parser.column_eq_of_name ?_
    have hnameSame := List.map_inj_left.mp (hsame.trans (List.map_id _).symm) name hname
    rw [if_pos hmetric] at hnameSame
    exact hnameSame
  · intro hverbatim
    obtain ⟨output, hscale⟩ := search.exists_scale engine hnames hdistance hverbatim
    obtain ⟨hreturned, houtput⟩ := search.scale_eq_ok engine hnames hdistance hscale
    rw [hscale, ok_bind] at hcompile
    refine ⟨iff_of_true ⟨_, hcompile⟩ ⟨_, hsql⟩, fun first second rows => ?_⟩
    have hsame : output.names = ranked.output.names := by
      rw [hranks.names, houtput]
      congr 1
      refine (List.map_congr_left fun name hname => ?_).trans (List.map_id _)
      show _ = name
      split
      · next hmetric =>
          rw [hverbatim hmetric name hname]
          rfl
      · rfl
    rw [planRun, sqlRun, hcompile, hsql, rows_clusters]
    show (RankedQuery.run _ first "_distance" _).toOption =
      (RankedQuery.run ranked second "_distance" _).toOption
    refine RankedQuery.run_eq_of_scale first second
      (monotone_metricScale engine search.resolved.metric) (fun _ => rfl) (fun row => ?_)
      (fun row => ?_) (fun row => ?_) hsame hranks.limit.symm _
    · rw [column_of_mem_output hreturned]
      rfl
    · rw [hranks.order]
      rfl
    · rw [hranks.distance]
      rfl

end

end IndexOnlySearch

/-! ## A key in capital letters -/

/-- Distances are numbers, and identifiers are parsed as they are written. -/
def numberEngine : SearchEngine ℕ ℕ where
  parser := identifierParser
  lvqSquaredL2 _ _ values := .ok values.sum
  half distance := distance / 2
  half_mono _ _ hle := Nat.div_le_div_right hle

def capitalSearch : IndexOnlySearch ℕ where
  resolved := {
    sourceTableKey := "docs"
    query := [1]
    metric := .cosine
    vectorField := "vec"
    sourceVectorIsF64 := false
    sourceKeyFields := ["ID"]
    postingsTableKey := some "postings"
    postingEncoding := .lvq8
    clusterSelection := some .all
    nlist := some 1
    ntotal := some 1
    projection := ["ID"]
    filter := none
    limit := 10 }
  sourceFields := ["ID", "vec"]
  requested := some ["ID"]
  projection_resolved := by decide +kernel
  keys_checked := by decide
  keys_nodup := by decide
  selection := Or.inl rfl
  index_only := by decide +kernel

/-- The statement returns the column that the plan does not find. -/
theorem capital_key_differs :
    ¬ capitalSearch.SameQuery numberEngine ["t"] toString "postings" := by
  have hplan : (compileIndexOnlyPlan numberEngine (capitalSearch.postings ℕ ["t"])
      capitalSearch.resolved).toOption.isSome = false := by decide +kernel
  have hsql : (capitalSearch.sqlPlan numberEngine ["t"] toString "postings").toOption.isSome =
      true := by decide +kernel
  rintro ⟨hcompiled, -⟩
  cases hranked : capitalSearch.sqlPlan numberEngine ["t"] toString "postings" with
  | error error =>
      rw [hranked] at hsql
      cases hsql
  | ok ranked =>
      obtain ⟨plan, hfound⟩ := hcompiled.mpr ⟨ranked, hranked⟩
      rw [hfound] at hplan
      cases hplan

end ParqDB.Query
