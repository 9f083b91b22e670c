import ParqDB.Ivf.SourceColumns

/-!
# Searches as SQL

`ResolvedSearch` and `compile_datafusion_sql`, with what it calls, of
`parqdb-local/src/query/mod.rs`: one resolved search as the text of an SQL statement over
registered tables.

How a float is displayed is a parameter.

**Results.**  The checks of the cluster selection say which tables a statement needs: a search whose
selection is replaced by all clusters needs none for its clusters (`clusterFilter_all`), and
only one that routes in the query plan needs the centroids (`exists_of_clusterFilter_dataFusion`).
-/

namespace ParqDB.Query

open Foundations Meta

/-! ## Resolved searches -/

inductive ClusterSelection
  | all
  | native (cids : List ℤ)
  | dataFusion (centroidsTableKey : String) (nprobe : ℕ)
deriving DecidableEq

/-- Fully resolved inputs for one embedded `DataFusion` vector search. -/
structure ResolvedSearch (F : Type) where
  sourceTableKey : String
  query : List F
  metric : DistanceMetric
  vectorField : String
  sourceVectorIsF64 : Bool
  sourceKeyFields : List String
  postingsTableKey : Option String
  postingEncoding : PostingEncoding
  clusterSelection : Option ClusterSelection
  nlist : Option ℕ
  ntotal : Option ℕ
  projection : List String
  filter : Option String
  limit : ℕ

variable {F : Type}

inductive DataFusionClusterFilter
  | exact
  | all
  | nativeInline
  | nativeTable
  | dataFusion
deriving DecidableEq

def inlineClusterFilterLimit : ℕ := 128

/-- The loop over the selected clusters, with those seen. -/
def checkClusters (nlist : ℕ) : List ℤ → List ℤ → Except String Unit
  | [], _ => .ok ()
  | cid :: rest, seen => do
      rejectIf (cid < 0 ∨ nlist ≤ cid.toNat ∨ cid ∈ seen)
        ("selected IVF cluster IDs must be unique and in 0.." ++ toString nlist)
      checkClusters nlist rest (cid :: seen)

def clusterFilter (resolved : ResolvedSearch F) : Except String DataFusionClusterFilter :=
  match resolved.postingsTableKey with
  | none => do
      rejectIf (resolved.nlist.isSome ∨ resolved.clusterSelection.isSome)
        "exact search cannot contain IVF cluster selection"
      pure .exact
  | some _ =>
      match resolved.nlist, resolved.clusterSelection with
      | none, _ => .error "indexed search is missing nlist"
      | some _, none => .error "indexed search is missing IVF cluster selection"
      | some _, some .all => .ok .all
      | some nlist, some (.native cids) => do
          rejectIf (cids = [] ∨ nlist ≤ cids.length)
            ("native IVF routing must select between 1 and " ++ toString (nlist - 1) ++
              " clusters")
          checkClusters nlist cids []
          pure (if cids.length ≤ inlineClusterFilterLimit then .nativeInline else .nativeTable)
      | some nlist, some (.dataFusion centroidsTableKey nprobe) => do
          rejectIf (centroidsTableKey = "") "DataFusion IVF routing requires a centroid table"
          rejectIf (nprobe = 0 ∨ nlist ≤ nprobe)
            ("DataFusion IVF routing must probe between 1 and " ++ toString (nlist - 1) ++
              " clusters")
          pure .dataFusion

/-- Returns whether a `DataFusion` search must register and scan its source table. -/
def sourceTableRequired (resolved : ResolvedSearch F) : Except String Bool := do
  let filter ← clusterFilter resolved
  if filter = .exact then
    if resolved.postingEncoding ≠ .source then
      .error "exact search cannot use stored IVF vectors"
    else .ok true
  else if resolved.postingEncoding = .source ∨ resolved.filter.isSome then .ok true
  else .ok (resolved.projection.any fun column => column ∉ resolved.sourceKeyFields)

/-- Returns whether a `DataFusion` search needs a registered table of selected CIDs. -/
def clusterTableRequired (resolved : ResolvedSearch F) : Except String Bool := do
  let filter ← clusterFilter resolved
  pure (filter = .nativeTable)

/-- Returns whether a `DataFusion` search routes through the centroid table. -/
def centroidTableRequired (resolved : ResolvedSearch F) : Except String Bool := do
  let filter ← clusterFilter resolved
  pure (filter = .dataFusion)

section

variable {resolved : ResolvedSearch F} {filter : DataFusionClusterFilter}

theorem clusterFilter_of_sourceTableRequired {required : Bool}
    (hrequired : sourceTableRequired resolved = .ok required) :
    ∃ filter, clusterFilter resolved = .ok filter := by
  unfold sourceTableRequired at hrequired
  obtain ⟨filter, hfilter, -⟩ := bind_eq_ok.mp hrequired
  exact ⟨filter, hfilter⟩

theorem clusterFilter_of_none (hkey : resolved.postingsTableKey = none)
    (hfilter : clusterFilter resolved = .ok filter) : filter = .exact := by
  unfold clusterFilter at hfilter
  rw [hkey] at hfilter
  obtain ⟨-, hexact⟩ := rejectIf_bind_eq_ok.mp hfilter
  cases hexact
  rfl

/-- A checked search may as well select all clusters. -/
theorem clusterFilter_all {key : String} (hkey : resolved.postingsTableKey = some key)
    (hfilter : clusterFilter resolved = .ok filter) :
    clusterFilter { resolved with clusterSelection := some .all } = .ok .all := by
  unfold clusterFilter at hfilter ⊢
  rw [hkey] at hfilter
  dsimp only at hfilter ⊢
  rw [hkey]
  cases hnlist : resolved.nlist with
  | none =>
      rw [hnlist] at hfilter
      cases hfilter
  | some nlist => rfl

theorem clusterFilter_ne_nativeTable {key : String}
    (hkey : resolved.postingsTableKey = some key)
    (hselection : ∀ cids, resolved.clusterSelection ≠ some (.native cids)) :
    clusterFilter resolved ≠ .ok .nativeTable := by
  intro hfilter
  unfold clusterFilter at hfilter
  rw [hkey] at hfilter
  dsimp only at hfilter
  split at hfilter
  · cases hfilter
  · cases hfilter
  · cases hfilter
  · next hnative => exact hselection _ hnative
  · obtain ⟨-, hfilter⟩ := rejectIf_bind_eq_ok.mp hfilter
    obtain ⟨-, hfilter⟩ := rejectIf_bind_eq_ok.mp hfilter
    cases hfilter

theorem exists_of_clusterFilter_dataFusion (hfilter : clusterFilter resolved = .ok .dataFusion) :
    ∃ centroidsTableKey nprobe,
      resolved.clusterSelection = some (.dataFusion centroidsTableKey nprobe) := by
  unfold clusterFilter at hfilter
  split at hfilter
  · obtain ⟨-, hfilter⟩ := rejectIf_bind_eq_ok.mp hfilter
    cases hfilter
  · split at hfilter
    · cases hfilter
    · cases hfilter
    · cases hfilter
    · obtain ⟨-, hfilter⟩ := rejectIf_bind_eq_ok.mp hfilter
      obtain ⟨-, hfilter⟩ := seq_eq_ok.mp hfilter
      split at hfilter
      · cases hfilter
      · cases hfilter
    · next hselection => exact ⟨_, _, hselection⟩

end

/-! ## Statements -/

def quoteIdentifier (identifier : String) : String :=
  "\"" ++ String.ofList (identifier.toList.flatMap fun c => if c = '"' then ['"', '"'] else [c]) ++
    "\""

/-- A line break and the indentation of a clause. -/
def clause : String := "\n        "

/-- The query vector as SQL, for a display of its floats. -/
def queryLiteral (display : F → String) (resolved : ResolvedSearch F) : String :=
  ", ".intercalate (resolved.query.map fun value => "CAST(" ++ display value ++ " AS REAL)")

def distanceSql (resolved : ResolvedSearch F) (queryLiteral : String) : String :=
  let query := "make_array(" ++ queryLiteral ++ ")"
  let ofSource :=
    let vector := "s." ++ quoteIdentifier resolved.vectorField
    let vector := match resolved.metric with
      | .cosine => "parqdb_normalize_vector(" ++ vector ++ ")"
      | .l2Squared =>
          if resolved.sourceVectorIsF64 then "parqdb_vector_f32(" ++ vector ++ ")" else vector
    "parqdb_squared_l2(" ++ vector ++ ", " ++ query ++ ")"
  let ofCodes (name : String) :=
    name ++ "(p.\"code\", p.\"offset\", p.\"scale\", " ++ query ++ ")"
  if resolved.postingsTableKey.isNone then ofSource
  else match resolved.postingEncoding with
    | .source => ofSource
    | .lvq4 => ofCodes "parqdb_lvq4_l2"
    | .lvq8 => ofCodes "parqdb_lvq8_l2"

def validatedSourceName (sourceRequired : Bool) (sourceName : Option String) :
    Except String (Option String) :=
  match sourceRequired, sourceName with
  | true, some name =>
      if name = "" then .error "DataFusion source table is required for this search"
      else .ok (some name)
  | true, none => .error "DataFusion source table is required for this search"
  | false, none => .ok none
  | false, some _ => .error "DataFusion source table must be omitted for an index-only search"

def validatedClusterFilter (resolved : ResolvedSearch F)
    (postingsName centroidsName selectedClustersName : Option String) :
    Except String DataFusionClusterFilter := do
  rejectIf (resolved.postingsTableKey.isSome ≠ postingsName.isSome)
    "DataFusion postings registration does not match the resolved search"
  let filter ← clusterFilter resolved
  rejectIf (filter ≠ .nativeTable ∧ selectedClustersName.isSome)
    "DataFusion selected-cluster table is not used by the resolved search"
  rejectIf (decide (filter = .dataFusion) ≠ centroidsName.isSome)
    "DataFusion centroid registration does not match the resolved search"
  pure filter

/-- The posting columns of the source key, with their names. -/
def indexOnlyColumns (resolved : ResolvedSearch F) : Except String (List (String × String)) := do
  let required ← sourceTableRequired resolved
  rejectIf (required = true) "index-only search requires source data"
  pure (resolved.sourceKeyFields.zipIdx.map fun key =>
    ("key_" ++ toString (key.2 + 1), key.1))

def candidatesCte (resolved : ResolvedSearch F) (sourceRequired : Bool) (distance : String) :
    Except String String :=
  if resolved.postingsTableKey.isNone then
    .ok ("parqdb_candidates AS (" ++ clause ++ "SELECT s.*, " ++ distance ++ " AS _distance" ++
      clause ++ "FROM parqdb_source AS s\n    )")
  else if sourceRequired then
    let join := " AND ".intercalate (resolved.sourceKeyFields.zipIdx.map fun key =>
      "s." ++ quoteIdentifier key.1 ++ " = p." ++
        quoteIdentifier ("key_" ++ toString (key.2 + 1)))
    .ok ("parqdb_candidates AS (" ++ clause ++ "SELECT s.*, " ++ distance ++ " AS _distance" ++
      clause ++ "FROM parqdb_source AS s" ++ clause ++ "JOIN parqdb_postings AS p ON " ++ join ++
      "\n    )")
  else do
    let columns ← indexOnlyColumns resolved
    let items := (columns.map fun column =>
      "p." ++ quoteIdentifier column.1 ++ " AS " ++ quoteIdentifier column.2) ++
        [distance ++ " AS _distance"]
    pure ("parqdb_candidates AS (" ++ clause ++ "SELECT " ++ ", ".intercalate items ++ clause ++
      "FROM parqdb_postings AS p\n    )")

def nativeSelectedClusters (resolved : ResolvedSearch F) : Except String (List ℤ) :=
  match resolved.clusterSelection with
  | some (.native cids) => .ok cids
  | _ => .error "native cluster selection is not configured"

def postingsCte (resolved : ResolvedSearch F) (postingsName : String)
    (selectedClustersName : Option String) (filter : DataFusionClusterFilter) :
    Except String String := do
  let postings := quoteIdentifier postingsName
  let semiJoin (selected : String) :=
    "SELECT p.* FROM " ++ postings ++ " AS p" ++ clause ++ "LEFT SEMI JOIN " ++ selected ++
      " AS selected ON p.\"cid\" = selected.\"cid\""
  let query ← match filter with
    | .all => pure ("SELECT * FROM " ++ postings ++ " AS p")
    | .nativeInline => do
        let cids ← nativeSelectedClusters resolved
        pure ("SELECT * FROM " ++ postings ++ " AS p" ++ clause ++ "WHERE p.\"cid\" IN (" ++
          ", ".intercalate (cids.map toString) ++ ")")
    | .nativeTable =>
        match selectedClustersName with
        | none => .error "DataFusion selected-cluster table is not registered"
        | some name => pure (semiJoin (quoteIdentifier name))
    | .dataFusion => pure (semiJoin "parqdb_selected_clusters")
    | .exact => .error "exact search cannot compile an IVF postings table"
  pure ("parqdb_postings AS (" ++ clause ++ query ++ "\n    )")

def nativeSelectedClustersCte (resolved : ResolvedSearch F) : Except String String := do
  let cids ← nativeSelectedClusters resolved
  pure ("parqdb_selected_clusters(\"cid\") AS (" ++ clause ++ "VALUES " ++
    ", ".intercalate (cids.map fun cid => "(" ++ toString cid ++ ")") ++ "\n    )")

def selectedClustersCte (resolved : ResolvedSearch F) (centroidsName queryLiteral : String) :
    Except String String :=
  match resolved.clusterSelection with
  | some (.dataFusion _ nprobe) =>
      .ok ("parqdb_selected_clusters AS (" ++ clause ++ "SELECT c.\"cid\"" ++ clause ++ "FROM " ++
        quoteIdentifier centroidsName ++ " AS c" ++ clause ++
        "ORDER BY parqdb_lvq8_l2(c.\"code\", c.\"offset\", c.\"scale\", make_array(" ++
        queryLiteral ++ ")) ASC, c.\"cid\" ASC" ++ clause ++ "LIMIT " ++ toString nprobe ++
        "\n    )")
  | _ => .error "DataFusion cluster routing is not configured"

/-- The source of a search, as far as its filter selects it. -/
def sourceCte (sourceName : String) (filter : Option String) : String :=
  let predicate := match filter with
    | some filter => clause ++ "WHERE (" ++ filter ++ ")"
    | none => ""
  "parqdb_source AS (" ++ clause ++ "SELECT * FROM " ++ quoteIdentifier sourceName ++ predicate ++
    "\n    )"

/-- Compiles one resolved search into `DataFusion` SQL over registered tables. -/
def compileDataFusionSql (display : F → String) (resolved : ResolvedSearch F)
    (sourceName postingsName centroidsName selectedClustersName : Option String) :
    Except String String := do
  let sourceRequired ← sourceTableRequired resolved
  let sourceName ← validatedSourceName sourceRequired sourceName
  let filter ← validatedClusterFilter resolved postingsName centroidsName selectedClustersName
  let literal := queryLiteral display resolved
  let distance := distanceSql resolved literal
  let source := (sourceName.map fun name => sourceCte name resolved.filter).toList
  let inlined := filter = .nativeTable ∧ selectedClustersName.isNone
  let nativeCtes ← if inlined then (nativeSelectedClustersCte resolved).map fun cte => [cte]
    else pure []
  let selectedClustersName :=
    if inlined then some "parqdb_selected_clusters" else selectedClustersName
  let postings ← match postingsName with
    | none => pure []
    | some postingsName => do
        let clusters ← if filter = .dataFusion then
            match centroidsName with
            | none => .error "DataFusion centroid table is not registered"
            | some centroidsName =>
                (selectedClustersCte resolved centroidsName literal).map fun cte => [cte]
          else pure []
        let postings ← postingsCte resolved postingsName selectedClustersName filter
        pure (clusters ++ [postings])
  let candidates ← candidatesCte resolved sourceRequired distance
  let ctes := source ++ nativeCtes ++ postings ++ [candidates]
  let names := resolved.projection.map fun name => "c." ++ quoteIdentifier name
  match resolved.metric with
  | .cosine =>
      let output := names ++ ["c.\"_distance\" * CAST(0.5 AS REAL) AS \"_distance\""]
      let scaled := "parqdb_output AS (" ++ clause ++ "SELECT " ++ ", ".intercalate output ++
        clause ++ "FROM parqdb_candidates AS c\n    )"
      pure ("WITH\n    " ++ ",\n    ".intercalate (ctes ++ [scaled]) ++
        "\nSELECT *\nFROM parqdb_output\nORDER BY \"_distance\" ASC\nLIMIT " ++
        toString resolved.limit)
  | .l2Squared =>
      let output := names ++ ["c.\"_distance\""]
      pure ("WITH\n    " ++ ",\n    ".intercalate ctes ++ "\nSELECT " ++
        ", ".intercalate output ++
        "\nFROM parqdb_candidates AS c\nORDER BY c.\"_distance\" ASC\nLIMIT " ++
        toString resolved.limit)

/-!
## Searches of the index alone

`compile_index_only_plan`, with `scale_distance_projection`, of `parqdb-local/src/query/mod.rs`, and
`resolve_search_projection` of `session/source.rs`.  Beside the plan stands the statement that
`compile_datafusion_sql` writes for the same search: its selections as data, how they are written
and what they compute, where a quoted identifier is taken verbatim.

A row of the postings has a cluster and some cells.  The parser of names, the distance function
and the scale of a cosine distance are those of the engine.
-/

open Ivf Kernels

/-! ## Searches that need no source table -/

def resolveSearchProjection (fields : List String) (projection : Option (List String)) :
    Except String (List String) := do
  rejectIf ("_distance" ∈ fields) "source table must not contain reserved column _distance"
  let projection := projection.getD fields
  rejectIf (projection = [] ∨ ¬ projection.Nodup)
    "projection must contain unique source column names"
  projection.forM fun name => rejectIf (name ∉ fields) ("column not found: " ++ name)
  pure projection

/-- A resolved search that needs no source table, of all clusters or of those found by native
routing. -/
structure IndexOnlySearch (F : Type) where
  resolved : ResolvedSearch F
  sourceFields : List String
  requested : Option (List String)
  projection_resolved :
    resolveSearchProjection sourceFields requested = .ok resolved.projection
  /-- The keys are columns of the source, as the snapshot names them. -/
  keys_checked : ∀ key ∈ resolved.sourceKeyFields, key ∈ sourceFields
  keys_nodup : resolved.sourceKeyFields.Nodup
  selection : resolved.clusterSelection = some .all ∨
    ∃ cids, resolved.clusterSelection = some (.native cids)
  index_only : sourceTableRequired resolved = .ok false

variable {F V : Type} [LinearOrder V]

/-- A row of the postings. -/
structure PostingRow (V : Type) where
  cid : ℤ
  cells : String → V

/-- The query engine, as far as it ranks postings. -/
structure SearchEngine (F V : Type) [LinearOrder V] where
  parser : NameParser
  /-- The distance of the codes of one row. -/
  lvqSquaredL2 : LvqBits → List F → List V → Except String V
  /-- The product with one half. -/
  half : V → V
  half_mono : Monotone half

abbrev PostingFrame (V : Type) := Frame (RowColumn (PostingRow V) V)

def postingsFrame (V : Type) (qualifier : List String) (keyCount : ℕ) : PostingFrame V :=
  Frame.ofFields qualifier
    ((postingColumns keyCount).map fun name => (name, fun row => .ok (row.cells name))) (by
      rw [List.map_map]
      show ((postingColumns keyCount).map id).Nodup
      rw [List.map_id]
      exact nodup_postingColumns keyCount)

/-- `select_clusters` -/
def selectClusters (cids : List ℤ) (rows : List (PostingRow V)) : List (PostingRow V) :=
  rows.filter fun row => row.cid ∈ cids

/-! ## The plan -/

section

variable (engine : SearchEngine F V)

abbrev PostingItem (V : Type) := Frame.Item (RowColumn (PostingRow V) V)

def aliasedItem (column : ColumnName) (name : String) : PostingItem V :=
  .computed [column] (fun
    | [content] => .ok content
    | _ => .error "one expression expected") name

/-- The distance of the codes, from their columns. -/
def distanceItem (bits : LvqBits) (query : List F) (column : String → ColumnName) :
    PostingItem V :=
  .computed [column "code", column "offset", column "scale"] (fun contents =>
    .ok fun row => do
      let values ← contents.mapM fun content => content row
      engine.lvqSquaredL2 bits query values) "_distance"

/-- The distance times one half. -/
def halvedItem (column : ColumnName) : PostingItem V :=
  .computed [column] (fun
    | [content] => .ok fun row => (content row).map engine.half
    | _ => .error "one expression expected") "_distance"

def projectionItem (resolved : ResolvedSearch F) (output : String) :
    Except String (PostingItem V) := do
  let columns ← indexOnlyColumns resolved
  match columns.find? fun column => column.2 = output with
  | none => .error ("index-only projection cannot resolve source column: " ++ output)
  | some (input, _) =>
      if input = output then pure (.column (engine.parser.column input))
      else pure (aliasedItem (engine.parser.column input) output)

def scaleDistanceProjection (dataframe : PostingFrame V) (resolved : ResolvedSearch F) :
    Except String (PostingFrame V) :=
  match resolved.metric with
  | .l2Squared => .ok dataframe
  | .cosine =>
      dataframe.select ((resolved.projection.map fun name => .column (engine.parser.column name)) ++
        [halvedItem engine (engine.parser.column "_distance")])

/-- Compiles an index-only search without SQL parser and catalog overhead. -/
def compileIndexOnlyPlan (postings : PostingFrame V) (resolved : ResolvedSearch F) :
    Except String (RankedQuery (PostingRow V) V) := do
  let _ ← indexOnlyColumns resolved
  let projection ← resolved.projection.mapM (projectionItem engine resolved)
  match lvqBits resolved.postingEncoding with
  | none => .error "source-backed postings cannot execute an index-only search"
  | some bits => do
      let ranked ← postings.select
        (projection ++ [distanceItem engine bits resolved.query engine.parser.column])
      let order ← ranked.find (engine.parser.column "_distance")
      let output ← scaleDistanceProjection engine ranked resolved
      pure ⟨output, order.2, resolved.limit⟩

/-- The rows that the plan is over: all postings, or those of the selected clusters. -/
def indexOnlyRows (resolved : ResolvedSearch F) (rows : List (PostingRow V)) :
    List (PostingRow V) :=
  match resolved.clusterSelection with
  | some (.native cids) => selectClusters cids rows
  | _ => rows

end

/-! ## The statement -/

/-- What stands in a selection. -/
inductive SqlItem
  /-- `t."name"` -/
  | column (table name : String)
  /-- `t."name" AS "output"` -/
  | renamed (table name output : String)
  /-- the distance of the codes of `p`, `AS _distance` -/
  | distance (bits : LvqBits)
  /-- half of the distance of `c`, `AS "_distance"` -/
  | halved

inductive ClusterCondition
  | all
  /-- `WHERE p."cid" IN (...)` -/
  | inlined (cids : List ℤ)
  /-- a semi join with `VALUES ...` -/
  | values (cids : List ℤ)

/-- The statement of a search of the index alone. -/
structure IndexOnlyStatement where
  postings : String
  clusters : ClusterCondition
  candidates : List SqlItem
  output : List SqlItem
  /-- The output is a table of its own, which is then sorted. -/
  scaled : Bool
  limit : ℕ

def distanceName : LvqBits → String
  | .four => "parqdb_lvq4_l2"
  | .eight => "parqdb_lvq8_l2"

def SqlItem.render (literal : String) : SqlItem → String
  | .column table name => table ++ "." ++ quoteIdentifier name
  | .renamed table name output =>
      table ++ "." ++ quoteIdentifier name ++ " AS " ++ quoteIdentifier output
  | .distance bits =>
      distanceName bits ++ "(p.\"code\", p.\"offset\", p.\"scale\", " ++
        ("make_array(" ++ literal ++ ")") ++ ")" ++ " AS _distance"
  | .halved => "c.\"_distance\" * CAST(0.5 AS REAL) AS \"_distance\""

def ClusterCondition.render (postings : String) : ClusterCondition → List String
  | .all => ["parqdb_postings AS (" ++ clause ++
      ("SELECT * FROM " ++ quoteIdentifier postings ++ " AS p") ++ "\n    )"]
  | .inlined cids => ["parqdb_postings AS (" ++ clause ++
      ("SELECT * FROM " ++ quoteIdentifier postings ++ " AS p" ++ clause ++
        "WHERE p.\"cid\" IN (" ++ ", ".intercalate (cids.map toString) ++ ")") ++ "\n    )"]
  | .values cids =>
      ["parqdb_selected_clusters(\"cid\") AS (" ++ clause ++ "VALUES " ++
        ", ".intercalate (cids.map fun cid => "(" ++ toString cid ++ ")") ++ "\n    )",
      "parqdb_postings AS (" ++ clause ++
        ("SELECT p.* FROM " ++ quoteIdentifier postings ++ " AS p" ++ clause ++
          "LEFT SEMI JOIN " ++ quoteIdentifier "parqdb_selected_clusters" ++
          " AS selected ON p.\"cid\" = selected.\"cid\"") ++ "\n    )"]

/-- The statement behind its common table expressions. -/
def IndexOnlyStatement.finish (literal : String) (statement : IndexOnlyStatement)
    (ctes : List String) : String :=
  let output := ", ".intercalate (statement.output.map (SqlItem.render literal))
  if statement.scaled then
    let scaled := "parqdb_output AS (" ++ clause ++ "SELECT " ++ output ++ clause ++
      "FROM parqdb_candidates AS c\n    )"
    "WITH\n    " ++ ",\n    ".intercalate (ctes ++ [scaled]) ++
      "\nSELECT *\nFROM parqdb_output\nORDER BY \"_distance\" ASC\nLIMIT " ++
      toString statement.limit
  else
    "WITH\n    " ++ ",\n    ".intercalate ctes ++ "\nSELECT " ++ output ++
      "\nFROM parqdb_candidates AS c\nORDER BY c.\"_distance\" ASC\nLIMIT " ++
      toString statement.limit

def IndexOnlyStatement.render (literal : String) (statement : IndexOnlyStatement) : String :=
  let candidates := "parqdb_candidates AS (" ++ clause ++ "SELECT " ++
    ", ".intercalate (statement.candidates.map (SqlItem.render literal)) ++ clause ++
    "FROM parqdb_postings AS p\n    )"
  statement.finish literal (statement.clusters.render statement.postings ++ [candidates])

section

variable (engine : SearchEngine F V)

/-- A quoted identifier is taken verbatim, and its table is an alias. -/
def quotedColumn (table name : String) : ColumnName := ⟨[table], name⟩

def SqlItem.item (query : List F) : SqlItem → PostingItem V
  | .column table name => .column (quotedColumn table name)
  | .renamed table name output => aliasedItem (quotedColumn table name) output
  | .distance bits => distanceItem engine bits query (quotedColumn "p")
  | .halved => halvedItem engine (quotedColumn "c" "_distance")

def ClusterCondition.rows (rows : List (PostingRow V)) : ClusterCondition → List (PostingRow V)
  | .all => rows
  | .inlined cids => selectClusters cids rows
  | .values cids => selectClusters cids rows

/-- The column behind `ORDER BY`. -/
def IndexOnlyStatement.orderColumn (statement : IndexOnlyStatement)
    (candidates output : PostingFrame V) :
    Except String (FrameField × RowColumn (PostingRow V) V) :=
  if statement.scaled then output.find (ColumnName.verbatim "_distance")
  else candidates.find (quotedColumn "c" "_distance")

/-- The ranking of the statement, whose literal is the query vector. -/
def IndexOnlyStatement.plan (query : List F) (postings : PostingFrame V)
    (statement : IndexOnlyStatement) : Except String (RankedQuery (PostingRow V) V) := do
  let candidates ← (postings.aliased ["p"]).select
    (statement.candidates.map (SqlItem.item engine query))
  let output ← (candidates.aliased ["c"]).select
    (statement.output.map (SqlItem.item engine query))
  let order ← statement.orderColumn (candidates.aliased ["c"]) output
  pure ⟨output, order.2, statement.limit⟩

end

end ParqDB.Query
