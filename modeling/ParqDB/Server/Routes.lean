import Mathlib.Data.Bool.AllAny
import Mathlib.Data.List.TakeWhile
import ParqDB.Foundations.Outcome
import ParqDB.Foundations.PathPatterns
import ParqDB.Foundations.Quoting

/-!
# Request paths of tables and indexes

How the HTTP client spells a table in the path of a request (`transport/http.py`), and how a
handler of the server reads the spelling (`transport/models.py`).  Names are lists of code
points.

**Results.**

* `tablePath_spec`, `registrationPath_spec`, `indexPath_spec`: once decoded, a path is made of
  the names themselves, with a delimiter that is in none of them.
* `decodeIdentifierPath_eq_ok_iff`: read once more, the names stay the same exactly if none of
  them has an escape.
-/

namespace ParqDB.Server

open Foundations Foundations.Whatwg

/-- `TableIdentifier`. -/
structure TableIdentifier where
  catalog : Text
  «namespace» : List Text
  name : Text
  catalog_ne : catalog ≠ []
  namespace_ne : ∀ segment ∈ «namespace», segment ≠ []
  name_ne : name ≠ []
deriving DecidableEq

/-- The segments of an identifier in a path. -/
def TableIdentifier.segments (identifier : TableIdentifier) : List Text :=
  identifier.namespace ++ [identifier.name]

theorem TableIdentifier.segments_ne (identifier : TableIdentifier) : identifier.segments ≠ [] :=
  List.append_ne_nil_of_right_ne_nil _ (List.cons_ne_nil _ _)

theorem TableIdentifier.segments_nonempty (identifier : TableIdentifier) :
    ∀ segment ∈ identifier.segments, segment ≠ [] := by
  intro segment hsegment
  rcases List.mem_append.mp hsegment with hnamespace | hname
  · exact identifier.namespace_ne segment hnamespace
  · obtain rfl := List.mem_singleton.mp hname
    exact identifier.name_ne

/-! ## The client -/

/-- The first delimiter that is in none of the segments. -/
def chooseDelimiterForSegments (segments : List Text) : Except String Char :=
  match ['$', '~', '!', '^', '|'].find? fun candidate =>
      segments.all fun segment => !segment.contains candidate with
  | some delimiter => .ok delimiter
  | none => .error "table identifier contains every supported route delimiter"

def identifierDelimiter (delimiter : Char) : Except String Char :=
  if delimiter = '/' ∨ delimiter = '%' then
    .error "delimiter must be one character other than '/' or '%'"
  else .ok delimiter

def encodeIdentifierPath (identifier : TableIdentifier) (delimiter : Char) :
    Except String (Text × Char) := do
  let delimiter ← identifierDelimiter delimiter
  if identifier.segments.any fun segment => segment.contains delimiter then
    .error "identifier delimiter must not occur in a table identifier"
  else .ok ([delimiter].intercalate (identifier.segments.map quote), delimiter)

def tableRoot : Text := "v1/table/".toList

def tablePath (identifier : TableIdentifier) (operation : Text) : Except String (Text × Char) := do
  let delimiter ← chooseDelimiterForSegments identifier.segments
  let (path, delimiter) ← encodeIdentifierPath identifier delimiter
  .ok (tableRoot ++ path ++ '/' :: operation, delimiter)

def registrationPath (name : Text) : Except String (Text × Char) := do
  rejectIf (name = []) "table name must not be empty"
  let delimiter ← chooseDelimiterForSegments [name]
  .ok (tableRoot ++ quote name ++ "/register".toList, delimiter)

/-- `str.isspace` of one character. -/
def isSpace (c : Char) : Bool :=
  [0x09, 0x0A, 0x0B, 0x0C, 0x0D, 0x1C, 0x1D, 0x1E, 0x1F, 0x20, 0x85, 0xA0, 0x1680, 0x2000, 0x2001,
    0x2002, 0x2003, 0x2004, 0x2005, 0x2006, 0x2007, 0x2008, 0x2009, 0x200A, 0x2028, 0x2029, 0x202F,
    0x205F, 0x3000].contains c.toNat

def indexPath (identifier : TableIdentifier) (index operation : Text) :
    Except String (Text × Char) := do
  rejectIf (index.all isSpace) "index name must not be empty"
  tablePath identifier ("index/".toList ++ quote index ++ '/' :: operation)

/-! ## The handlers -/

def decodeIdentifierPath (value : Text) (delimiter : Char) : Except String (List Text) := do
  let delimiter ← identifierDelimiter delimiter
  rejectIf (value = []) "table identifier must not be empty"
  let segments := (value.splitOn delimiter).map unquote
  if segments.any fun segment => segment.isEmpty then
    .error "table identifier contains an empty segment"
  else .ok segments

/-! ## What a path is, decoded -/

/-- A path that is made of these segments once it is decoded. -/
structure Spells (segments : List Text) (delimiter : Char) (tail path : Text) : Prop where
  quotes : Quotes path (tableRoot ++ [delimiter].intercalate segments ++ tail)
  separates : ∀ segment ∈ segments, delimiter ∉ segment
  delimiter_ne : delimiter ≠ '/' ∧ delimiter ≠ '%'

variable {delimiter : Char} {identifier : TableIdentifier} {segments : List Text}

theorem chooseDelimiter_spec (hchosen : chooseDelimiterForSegments segments = .ok delimiter) :
    (∀ segment ∈ segments, delimiter ∉ segment) ∧ delimiter ≠ '/' ∧ delimiter ≠ '%' := by
  rw [chooseDelimiterForSegments] at hchosen
  split at hchosen
  · rename_i candidate hfound
    cases hchosen
    refine ⟨?_, ?_⟩
    · intro segment hsegment hmember
      have hall := List.find?_some hfound
      rw [List.all_eq_true] at hall
      have hfree := hall segment hsegment
      rw [Bool.not_eq_true', ← Bool.not_eq_true, List.contains_iff_mem] at hfree
      exact hfree hmember
    · have hmember := List.mem_of_find?_eq_some hfound
      have hall : ∀ candidate ∈ ['$', '~', '!', '^', '|'], candidate ≠ '/' ∧ candidate ≠ '%' :=
        List.all_iff_forall_prop.mp (by decide)
      exact hall delimiter hmember
  · cases hchosen

theorem identifierDelimiter_eq_ok (hdelimiter : delimiter ≠ '/' ∧ delimiter ≠ '%') :
    identifierDelimiter delimiter = .ok delimiter :=
  if_neg (by
    rintro (heq | heq)
    · exact hdelimiter.1 heq
    · exact hdelimiter.2 heq)

theorem quotes_path (hdelimiter : delimiter ≠ '%') (segments : List Text) {tail decodedTail : Text}
    (htail : Quotes tail decodedTail) :
    Quotes (tableRoot ++ [delimiter].intercalate (segments.map quote) ++ tail)
      (tableRoot ++ [delimiter].intercalate segments ++ decodedTail) := by
  have hroot : Quotes tableRoot tableRoot := Quotes.plain (by decide)
  have hjoined := Quotes.intercalate (fun hmember => hdelimiter (List.mem_singleton.mp hmember).symm)
    segments
  exact (hroot.append hjoined).append htail

theorem tablePath_spec {operation decodedOperation path : Text}
    (hpath : tablePath identifier operation = .ok (path, delimiter))
    (hoperation : Quotes operation decodedOperation) :
    Spells identifier.segments delimiter ('/' :: decodedOperation) path := by
  rw [tablePath, bind_eq_ok] at hpath
  obtain ⟨chosen, hchosen, hpath⟩ := hpath
  obtain ⟨hseparates, hdelimiter⟩ := chooseDelimiter_spec hchosen
  rw [encodeIdentifierPath, identifierDelimiter_eq_ok hdelimiter, ok_bind] at hpath
  have hfree : ¬ (identifier.segments.any fun segment => segment.contains chosen) = true := by
    rw [List.any_eq_true]
    rintro ⟨segment, hsegment, hcontains⟩
    exact hseparates segment hsegment (List.contains_iff_mem.mp hcontains)
  rw [if_neg hfree, ok_bind] at hpath
  cases hpath
  refine ⟨?_, hseparates, hdelimiter⟩
  have hslash : Quotes ['/'] ['/'] := Quotes.singleton (by decide)
  exact quotes_path hdelimiter.2 identifier.segments (hslash.append hoperation)

theorem registrationPath_spec {name path : Text}
    (hpath : registrationPath name = .ok (path, delimiter)) :
    name ≠ [] ∧ Spells [name] delimiter "/register".toList path := by
  rw [registrationPath, rejectIf_bind_eq_ok] at hpath
  obtain ⟨hname, hpath⟩ := hpath
  obtain ⟨chosen, hchosen, hpath⟩ := bind_eq_ok.mp hpath
  obtain ⟨hseparates, hdelimiter⟩ := chooseDelimiter_spec hchosen
  cases hpath
  refine ⟨hname, ?_, hseparates, hdelimiter⟩
  have htail : Quotes "/register".toList "/register".toList := Quotes.plain (by decide)
  have hquotes := quotes_path hdelimiter.2 [name] htail
  simpa [List.intercalate] using hquotes

theorem indexPath_spec {index operation path : Text}
    (hpath : indexPath identifier index operation = .ok (path, delimiter))
    (hoperation : '%' ∉ operation) :
    Spells identifier.segments delimiter
      ("/index/".toList ++ index ++ '/' :: operation) path := by
  rw [indexPath, rejectIf_bind_eq_ok] at hpath
  have hindex : Quotes "index/".toList "index/".toList := Quotes.plain (by decide)
  have hslash : Quotes ['/'] ['/'] := Quotes.singleton (by decide)
  exact tablePath_spec hpath.2
    ((hindex.append (Quotes.quote index)).append (hslash.append (Quotes.plain hoperation)))

/-! ## Reading once more -/

/-- The segments between delimiters. -/
theorem decodeIdentifierPath_intercalate (hsegments : segments ≠ [])
    (hseparates : ∀ segment ∈ segments, delimiter ∉ segment)
    (hnonempty : ∀ segment ∈ segments, segment ≠ [])
    (hdelimiter : delimiter ≠ '/' ∧ delimiter ≠ '%') :
    decodeIdentifierPath ([delimiter].intercalate segments) delimiter =
      if (segments.map unquote).any fun segment => segment.isEmpty then
        .error "table identifier contains an empty segment"
      else .ok (segments.map unquote) := by
  have hvalue : [delimiter].intercalate segments ≠ [] := by
    obtain ⟨segment, rest, rfl⟩ := List.exists_cons_of_ne_nil hsegments
    have hfirst := hnonempty segment List.mem_cons_self
    cases rest with
    | nil => simpa [List.intercalate] using hfirst
    | cons next rest => simp [List.intercalate, hfirst]
  rw [decodeIdentifierPath, identifierDelimiter_eq_ok hdelimiter, ok_bind, rejectIf,
    if_neg hvalue, ok_bind, List.splitOn_intercalate delimiter hseparates hsegments]

/-- The names stay the same if they have no escapes, and only then. -/
theorem decodeIdentifierPath_eq_ok_iff (hsegments : segments ≠ [])
    (hseparates : ∀ segment ∈ segments, delimiter ∉ segment)
    (hnonempty : ∀ segment ∈ segments, segment ≠ [])
    (hdelimiter : delimiter ≠ '/' ∧ delimiter ≠ '%') :
    decodeIdentifierPath ([delimiter].intercalate segments) delimiter = .ok segments ↔
      ∀ segment ∈ segments, hasEscape segment = false := by
  rw [decodeIdentifierPath_intercalate hsegments hseparates hnonempty hdelimiter]
  have hsame : segments.map unquote = segments ↔ ∀ segment ∈ segments, hasEscape segment = false := by
    have hinjective := @List.map_inj_left _ _ segments unquote id
    rw [List.map_id] at hinjective
    rw [hinjective]
    exact forall₂_congr fun segment _ => unquote_eq_self_iff
  rw [← hsame]
  constructor
  · intro hok
    split at hok
    · cases hok
    · exact Except.ok.inj hok
  · intro hmap
    rw [hmap, if_neg]
    rw [List.any_eq_true]
    rintro ⟨segment, hsegment, hempty⟩
    exact hnonempty segment hsegment (List.isEmpty_iff.mp hempty)

/-!
## The route table of the server

The ordered routes of `server/app.py`, tried one after the other on a path that the server has
decoded once, and what the handler that is found reads from it.

**Results.**

* `route_agrees_iff`: a request of the client arrives as what it is exactly if its names have no
  escapes of their own, the index name does not divide the path anew, and the name of a new
  table does not look like a table and an index.
* `escaped_name_rejected`: what happens to other names.

**Strategy.**  All routes but two end with different words, so the last word of a path leaves few
routes (`dispatch_eq`).  What is read is decoded a second time, which changes names with escapes.
-/

inductive Parameter
  | tableId
  | indexName
deriving DecidableEq

inductive Method
  | get
  | post
deriving DecidableEq

inductive Handler
  | health
  | openapi
  | listTables
  | registerIndex
  | registerTable
  | describeTable
  | queryTable
  | explainTable
  | toSql
  | deregisterTable
  | createIndex
  | listIndexes
  | indexStatus
  | refreshIndex
  | dropIndex
  | querySql
  | explainSql
deriving DecidableEq

structure Route where
  pattern : List (Piece Parameter Char)
  handler : Handler
  method : Method

def plainRoute (path : String) (handler : Handler) (method : Method) : Route :=
  ⟨[.literal path.toList], handler, method⟩

def tableRoute (operation : Text) (handler : Handler) : Route :=
  ⟨[.literal ('/' :: tableRoot), .parameter .tableId, .literal ('/' :: operation)], handler, .post⟩

def indexRoute (operation : Text) (handler : Handler) : Route :=
  ⟨[.literal ('/' :: tableRoot), .parameter .tableId, .literal "/index/".toList,
    .parameter .indexName, .literal ('/' :: operation)], handler, .post⟩

def routes : List Route :=
  [plainRoute "/health" .health .get,
    plainRoute "/openapi.json" .openapi .get,
    plainRoute "/v1/table" .listTables .get,
    indexRoute "register".toList .registerIndex,
    tableRoute "register".toList .registerTable,
    tableRoute "describe".toList .describeTable,
    tableRoute "query".toList .queryTable,
    tableRoute "explain".toList .explainTable,
    tableRoute "to_sql".toList .toSql,
    tableRoute "deregister".toList .deregisterTable,
    tableRoute "create_index".toList .createIndex,
    tableRoute "index/list".toList .listIndexes,
    indexRoute "stats".toList .indexStatus,
    indexRoute "refresh".toList .refreshIndex,
    indexRoute "drop".toList .dropIndex,
    plainRoute "/v1/sql" .querySql .post,
    plainRoute "/v1/sql/explain" .explainSql .post]

/-- The first route that matches. -/
def dispatch (method : Method) (path : Text) : Option (Handler × List (Parameter × Text)) :=
  routes.findSome? fun route =>
    if route.method = method then (matchPieces route.pattern path).map (route.handler, ·) else none

/-- What a handler reads from its path. -/
structure Received where
  handler : Handler
  segments : List Text
  index? : Option Text
deriving DecidableEq

/-- The segments of the table, if the route has one. -/
def tableSegments (parameters : List (Parameter × Text)) (delimiter : Char) :
    Except String (List Text) :=
  match parameters.lookup .tableId with
  | some value => decodeIdentifierPath value delimiter
  | none => .ok []

def receive (path : Text) (delimiter : Char) : Except String Received :=
  match dispatch .post path with
  | none => .error "Not Found"
  | some (handler, parameters) =>
      (tableSegments parameters delimiter).map fun segments =>
        ⟨handler, segments, (parameters.lookup .indexName).map unquote⟩

/-- The path that the server sees. -/
def serverPath (path : Text) : Text := unquote ('/' :: path)

/-! ## Requests -/

inductive TableOperation
  | describe
  | query
  | explain
  | toSql
  | deregister
  | createIndex
  | listIndexes
deriving DecidableEq

namespace TableOperation

def text : TableOperation → Text
  | .describe => "describe".toList
  | .query => "query".toList
  | .explain => "explain".toList
  | .toSql => "to_sql".toList
  | .deregister => "deregister".toList
  | .createIndex => "create_index".toList
  | .listIndexes => "index/list".toList

def handler : TableOperation → Handler
  | .describe => .describeTable
  | .query => .queryTable
  | .explain => .explainTable
  | .toSql => .toSql
  | .deregister => .deregisterTable
  | .createIndex => .createIndex
  | .listIndexes => .listIndexes

end TableOperation

inductive IndexOperation
  | register
  | stats
  | refresh
  | drop
deriving DecidableEq

namespace IndexOperation

def text : IndexOperation → Text
  | .register => "register".toList
  | .stats => "stats".toList
  | .refresh => "refresh".toList
  | .drop => "drop".toList

def handler : IndexOperation → Handler
  | .register => .registerIndex
  | .stats => .indexStatus
  | .refresh => .refreshIndex
  | .drop => .dropIndex

end IndexOperation

/-- A request of the client that names a table. -/
inductive Request
  | table (operation : TableOperation) (identifier : TableIdentifier)
  | registration (name : Text)
  | index (operation : IndexOperation) (identifier : TableIdentifier) (index : Text)

namespace Request

def path : Request → Except String (Text × Char)
  | .table operation identifier => tablePath identifier operation.text
  | .registration name => registrationPath name
  | .index operation identifier name => indexPath identifier name operation.text

/-- What the request means. -/
def intended : Request → Received
  | .table operation identifier => ⟨operation.handler, identifier.segments, none⟩
  | .registration name => ⟨.registerTable, [name], none⟩
  | .index operation identifier name => ⟨operation.handler, identifier.segments, some name⟩

/-- The names of the request survive its way to the handler. -/
def Plain : Request → Prop
  | .table _ identifier => ∀ segment ∈ identifier.segments, hasEscape segment = false
  | .registration name => hasEscape name = false ∧ ¬ "/index/".toList <:+: name
  | .index _ identifier name =>
      (∀ segment ∈ identifier.segments, hasEscape segment = false) ∧
        hasEscape name = false ∧ ¬ "/index/".toList <:+: '/' :: name

end Request

/-! ## The last word of a path -/

def lastSegment (text : Text) : Text := (text.reverse.takeWhile (· ≠ '/')).reverse

theorem lastSegment_append (before : Text) {last : Text} (hlast : '/' ∉ last) :
    lastSegment (before ++ '/' :: last) = last := by
  rw [lastSegment, List.reverse_append, List.reverse_cons, List.append_assoc,
    List.takeWhile_append_of_pos, List.singleton_append, List.takeWhile_cons_of_neg,
    List.append_nil, List.reverse_reverse]
  · simp
  · intro c hc
    have hne : c ≠ '/' := by
      rintro rfl
      exact hlast (List.mem_reverse.mp hc)
    simpa using hne

theorem exists_lastSlash {text : Text} (hslash : '/' ∈ text) :
    ∃ before last, text = before ++ '/' :: last ∧ '/' ∉ last := by
  obtain ⟨last, before, hreverse, hlast⟩ := List.eq_append_cons_of_mem (List.mem_reverse.mpr hslash)
  refine ⟨before.reverse, last.reverse, ?_, fun hmember => hlast (List.mem_reverse.mp hmember)⟩
  have htext := congrArg List.reverse hreverse
  rw [List.reverse_reverse, List.reverse_append, List.reverse_cons] at htext
  rw [htext, List.append_assoc, List.singleton_append]

theorem lastSegment_of_suffix {suffix path : Text} (hsuffix : suffix <:+ path)
    (hslash : '/' ∈ suffix) : lastSegment path = lastSegment suffix := by
  obtain ⟨front, rfl⟩ := hsuffix
  obtain ⟨before, last, rfl, hlast⟩ := exists_lastSlash hslash
  rw [← List.append_assoc, lastSegment_append _ hlast, lastSegment_append _ hlast]

/-- The literal at the end of a route. -/
def Route.tail (route : Route) : Text :=
  match route.pattern.getLast? with
  | some (.literal text) => text
  | _ => []

theorem Route.tail_suffix {route : Route} {path : Text} {values : List (Parameter × Text)}
    (hmatch : matchPieces route.pattern path = some values) : route.tail <:+ path := by
  rw [Route.tail]
  split
  · rename_i text hlast
    obtain ⟨pieces, hpieces⟩ := List.getLast?_eq_some_iff.mp hlast
    rw [hpieces] at hmatch
    exact suffix_of_match hmatch
  · exact List.nil_suffix

/-- The routes that end with this word. -/
def candidates (last : Text) : List Route :=
  routes.filter fun route => route.method = .post ∧ lastSegment route.tail = last

/-- The first of some attempts, without those that fail. -/
theorem findSome?_filter {α β : Type} {attempt simpler : α → Option β} {test : α → Bool}
    {items : List α} (hfails : ∀ item ∈ items, test item = false → attempt item = none)
    (hsame : ∀ item ∈ items, test item = true → attempt item = simpler item) :
    items.findSome? attempt = (items.filter test).findSome? simpler := by
  induction items with
  | nil => rfl
  | cons item items ih =>
      have hrest := ih (fun other hother => hfails other (List.mem_cons_of_mem _ hother))
        fun other hother => hsame other (List.mem_cons_of_mem _ hother)
      cases htest : test item with
      | true =>
          rw [List.filter_cons_of_pos htest, List.findSome?_cons, List.findSome?_cons, hrest,
            hsame item List.mem_cons_self htest]
      | false =>
          rw [List.filter_cons_of_neg (by simp [htest]), List.findSome?_cons,
            hfails item List.mem_cons_self htest, hrest]

/-- Only the routes that end as the path does are tried. -/
theorem dispatch_eq (path : Text) :
    dispatch .post path = (candidates (lastSegment path)).findSome? fun route =>
      (matchPieces route.pattern path).map (route.handler, ·) := by
  have hslashes : ∀ route ∈ routes, '/' ∈ route.tail := by decide
  refine findSome?_filter ?_ ?_
  · intro route hroute htest
    have hother := of_decide_eq_false htest
    by_cases hmethod : route.method = .post
    · rw [if_pos hmethod, Option.map_eq_none_iff]
      by_contra hsome
      obtain ⟨values, hvalues⟩ := Option.ne_none_iff_exists'.mp hsome
      refine hother ⟨hmethod, ?_⟩
      exact (lastSegment_of_suffix (Route.tail_suffix hvalues) (hslashes route hroute)).symm
    · rw [if_neg hmethod]
  · intro route hroute htest
    rw [if_pos (of_decide_eq_true htest).1]

/-! ## Dispatching the paths of the client -/

theorem dispatch_table (operation : TableOperation) (table : Text) :
    dispatch .post ('/' :: tableRoot ++ (table ++ '/' :: operation.text)) =
      some (operation.handler, [(.tableId, table)]) := by
  have hlast : lastSegment ('/' :: tableRoot ++ (table ++ '/' :: operation.text)) =
      lastSegment ('/' :: operation.text) := by
    refine lastSegment_of_suffix ⟨'/' :: tableRoot ++ table, ?_⟩ List.mem_cons_self
    rw [List.append_assoc]
  have hcandidates : ∃ others, candidates (lastSegment ('/' :: operation.text)) =
      tableRoute operation.text operation.handler :: others := by
    cases operation <;> exact ⟨_, rfl⟩
  obtain ⟨others, hcandidates⟩ := hcandidates
  rw [dispatch_eq, hlast, hcandidates, List.findSome?_cons]
  have hmatch := match_one Parameter.tableId ('/' :: tableRoot) table ('/' :: operation.text)
  rw [tableRoute, hmatch]
  rfl

theorem dispatch_index (operation : IndexOperation) {table name : Text}
    (hlast : DividesLast "/index/".toList table name) :
    dispatch .post
        ('/' :: tableRoot ++ (table ++ ("/index/".toList ++ (name ++ '/' :: operation.text)))) =
      some (operation.handler, [(.tableId, table), (.indexName, name)]) := by
  have hword : lastSegment
      ('/' :: tableRoot ++ (table ++ ("/index/".toList ++ (name ++ '/' :: operation.text)))) =
      lastSegment ('/' :: operation.text) := by
    refine lastSegment_of_suffix ⟨'/' :: tableRoot ++ (table ++ ("/index/".toList ++ name)), ?_⟩
      List.mem_cons_self
    simp only [List.append_assoc]
  have hcandidates : ∃ others, candidates (lastSegment ('/' :: operation.text)) =
      indexRoute operation.text operation.handler :: others := by
    cases operation <;> exact ⟨_, rfl⟩
  obtain ⟨others, hcandidates⟩ := hcandidates
  rw [dispatch_eq, hword, hcandidates, List.findSome?_cons]
  have hmatch := @match_two _ _ _ Parameter.tableId Parameter.indexName ('/' :: tableRoot) _
    ('/' :: operation.text) _ _ hlast
  rw [indexRoute, hmatch]
  rfl

theorem dispatch_registration {name : Text} (hname : ¬ "/index/".toList <:+: name) :
    dispatch .post ('/' :: tableRoot ++ (name ++ "/register".toList)) =
      some (.registerTable, [(.tableId, name)]) := by
  have hword : lastSegment ('/' :: tableRoot ++ (name ++ "/register".toList)) =
      lastSegment "/register".toList := by
    refine lastSegment_of_suffix ⟨'/' :: tableRoot ++ name, ?_⟩ List.mem_cons_self
    rw [List.append_assoc]
  have hcandidates : candidates (lastSegment "/register".toList) =
      [indexRoute "register".toList .registerIndex, tableRoute "register".toList .registerTable] :=
    rfl
  have hword' : "/register".toList = '/' :: "register".toList := rfl
  have hnone := @match_two_eq_none _ _ _ Parameter.tableId Parameter.indexName
    ('/' :: tableRoot) _ ('/' :: "register".toList) _ hname
  have hmatch := match_one Parameter.tableId ('/' :: tableRoot) name ('/' :: "register".toList)
  rw [dispatch_eq, hword, hcandidates, List.findSome?_cons, indexRoute, hword', hnone,
    Option.map_none, List.findSome?_cons, tableRoute, hmatch]
  rfl

/-- A name with an index in it is taken for a table and an index. -/
theorem dispatch_registration_index {name : Text} (hname : "/index/".toList <:+: name) :
    ∃ table index, dispatch .post ('/' :: tableRoot ++ (name ++ "/register".toList)) =
      some (.registerIndex, [(.tableId, table), (.indexName, index)]) := by
  obtain ⟨before, after, hsplit⟩ := hname
  obtain ⟨table, index, hsame, -, hlast⟩ := exists_dividesLast "/index/".toList before after
  refine ⟨table, index, ?_⟩
  have hregister := dispatch_index .register hlast
  rw [← hsplit, ← hsame, List.append_assoc, List.append_assoc]
  exact hregister

/-! ## Dividing at an index -/

/-- The index name begins where the path is divided last, unless it has an index in it. -/
theorem dividesLast_iff {table name : Text} :
    DividesLast "/index/".toList table name ↔ ¬ "/index/".toList <:+: '/' :: name := by
  have hseparator : "/index/".toList = "/index".toList ++ ['/'] := rfl
  constructor
  · rintro hlast ⟨before, after, hsplit⟩
    have hlater := hlast (table ++ "/index".toList ++ before) after (by
      rw [List.append_assoc, List.append_assoc, ← List.append_assoc before, hsplit, hseparator]
      simp only [List.append_assoc, List.singleton_append])
    rw [List.length_append, List.length_append] at hlater
    have hlength : "/index".toList.length = 6 := rfl
    omega
  · intro hinfix left right hsame
    by_contra hlonger
    rw [not_le] at hlonger
    have hprefix : table <+: left := by
      refine @List.prefix_of_prefix_length_le _ _ _ (table ++ "/index/".toList ++ name) ?_ ?_
        hlonger.le
      · rw [List.append_assoc]
        exact List.prefix_append _ _
      · rw [← hsame, List.append_assoc]
        exact List.prefix_append _ _
    obtain ⟨more, rfl⟩ := hprefix
    cases more with
    | nil =>
        rw [List.append_nil] at hlonger
        exact absurd hlonger (lt_irrefl _)
    | cons c more =>
        have hrest : c :: more ++ "/index/".toList ++ right = "/index/".toList ++ name := by
          refine @List.append_cancel_left _ table _ _ ?_
          simpa using hsame
        have hword : more ++ ('/' :: ("index/".toList ++ right)) =
            "index".toList ++ '/' :: name := by
          have htail := congrArg List.tail hrest
          simpa using htail
        have hfree : '/' ∉ "index".toList := by decide
        rcases List.append_eq_append_iff.mp hword with ⟨between, hindex, hslash⟩ |
          ⟨between, hmore, hslash⟩
        · cases between with
          | nil =>
              refine hinfix ⟨[], right, ?_⟩
              rw [List.nil_append, ← List.nil_append ('/' :: name), ← hslash]
              rfl
          | cons c between =>
              obtain rfl : '/' = c := (List.cons.inj hslash).1
              exact hfree (hindex ▸ List.mem_append_right _ List.mem_cons_self)
        · cases between with
          | nil =>
              refine hinfix ⟨[], right, ?_⟩
              rw [List.nil_append, hslash]
              rfl
          | cons c between =>
              refine hinfix ⟨'/' :: between, right, ?_⟩
              rw [List.append_assoc, (List.cons.inj hslash).2]
              rfl

/-! ## Requests that arrive -/

section

variable {path : Text} {segments : List Text}

/-- The path of the client, decoded by the server. -/
theorem serverPath_eq {tail : Text} (hspells : Spells segments delimiter tail path) :
    serverPath path = '/' :: tableRoot ++ ([delimiter].intercalate segments ++ tail) := by
  have hslash : Quotes ['/'] ['/'] := Quotes.singleton (by decide)
  have hwhole := (hslash.append hspells.quotes).unquote_eq
  rw [List.append_assoc] at hwhole
  exact hwhole

theorem receive_table {handler : Handler} {table : Text}
    (hdispatch : dispatch .post path = some (handler, [(.tableId, table)])) :
    receive path delimiter = (decodeIdentifierPath table delimiter).map fun segments =>
      ⟨handler, segments, none⟩ := by
  rw [receive, hdispatch]
  rfl

theorem receive_index {handler : Handler} {table name : Text}
    (hdispatch : dispatch .post path = some (handler, [(.tableId, table), (.indexName, name)])) :
    receive path delimiter = (decodeIdentifierPath table delimiter).map fun segments =>
      ⟨handler, segments, some (unquote name)⟩ := by
  rw [receive, hdispatch]
  rfl

theorem map_eq_ok_iff {α β ε : Type} {outcome : Except ε α} {next : α → β} {result : β} :
    outcome.map next = .ok result ↔ ∃ value, outcome = .ok value ∧ next value = result := by
  cases outcome <;> simp [Except.map]

theorem intercalate_singleton (name : Text) : [delimiter].intercalate [name] = name := by
  simp [List.intercalate]

/-- A request arrives exactly if its names survive. -/
theorem route_agrees_iff (request : Request) (hpath : request.path = .ok (path, delimiter)) :
    receive (serverPath path) delimiter = .ok request.intended ↔ request.Plain := by
  cases request with
  | table operation identifier =>
      have hoperation : Quotes operation.text operation.text :=
        Quotes.plain (by cases operation <;> decide)
      have hspells := tablePath_spec hpath hoperation
      have hdispatch := dispatch_table operation ([delimiter].intercalate identifier.segments)
      rw [serverPath_eq hspells, receive_table hdispatch, map_eq_ok_iff, Request.Plain,
        ← decodeIdentifierPath_eq_ok_iff identifier.segments_ne hspells.separates
          identifier.segments_nonempty hspells.delimiter_ne]
      constructor
      · rintro ⟨decoded, hdecoded, hsame⟩
        obtain rfl := (Received.mk.inj hsame).2.1
        exact hdecoded
      · intro hdecoded
        exact ⟨_, hdecoded, rfl⟩
  | registration name =>
      obtain ⟨hname, hspells⟩ := registrationPath_spec hpath
      rw [serverPath_eq hspells, intercalate_singleton, Request.Plain]
      by_cases hindex : "/index/".toList <:+: name
      · obtain ⟨table, index, hdispatch⟩ := dispatch_registration_index hindex
        rw [receive_index hdispatch, map_eq_ok_iff]
        refine iff_of_false ?_ fun hplain => hplain.2 hindex
        rintro ⟨decoded, -, hsame⟩
        cases (Received.mk.inj hsame).1
      · have hdecode := decodeIdentifierPath_eq_ok_iff (List.cons_ne_nil name [])
          hspells.separates (fun segment hsegment => List.mem_singleton.mp hsegment ▸ hname)
          hspells.delimiter_ne
        rw [intercalate_singleton, List.forall_mem_singleton] at hdecode
        rw [receive_table (dispatch_registration hindex), map_eq_ok_iff, ← hdecode]
        constructor
        · rintro ⟨decoded, hdecoded, hsame⟩
          obtain rfl := (Received.mk.inj hsame).2.1
          exact ⟨hdecoded, hindex⟩
        · rintro ⟨hdecoded, -⟩
          exact ⟨_, hdecoded, rfl⟩
  | index operation identifier name =>
      have hspells := indexPath_spec hpath (by cases operation <;> decide)
      have hdecode := decodeIdentifierPath_eq_ok_iff identifier.segments_ne hspells.separates
        identifier.segments_nonempty hspells.delimiter_ne
      rw [serverPath_eq hspells]
      clear hspells
      generalize [delimiter].intercalate identifier.segments = table at hdecode ⊢
      obtain ⟨left, right, hsame, hlonger, hlast⟩ :=
        exists_dividesLast "/index/".toList table name
      have hpieces : table ++ ("/index/".toList ++ name ++ '/' :: operation.text) =
          left ++ ("/index/".toList ++ (right ++ '/' :: operation.text)) := by
        have hwhole := congrArg (· ++ '/' :: operation.text) hsame
        simp only [List.append_assoc] at hwhole ⊢
        exact hwhole.symm
      rw [hpieces, receive_index (dispatch_index operation hlast),
        map_eq_ok_iff, Request.Plain, ← hdecode, ← @dividesLast_iff table name]
      constructor
      · rintro ⟨decoded, hdecoded, hintended⟩
        obtain ⟨-, hsegments, hname⟩ := Received.mk.inj hintended
        have hunquoted : unquote right = name := Option.some.inj hname
        -- decoding makes no name longer, so the path is divided where the client joined it
        have hshorter := length_unquote_le right
        rw [hunquoted] at hshorter
        have hlength := congrArg List.length hsame
        simp only [List.length_append] at hlength
        obtain ⟨hleft, hright⟩ := List.append_inj hsame (by simp only [List.length_append]; omega)
        obtain rfl := hright
        obtain rfl := List.append_cancel_right hleft
        exact ⟨hsegments ▸ hdecoded, unquote_eq_self_iff.mp hunquoted, hlast⟩
      · rintro ⟨hdecoded, hescape, hdivides⟩
        have hle := hdivides left right hsame
        have hlength := congrArg List.length hsame
        simp only [List.length_append] at hlength
        obtain ⟨hleft, rfl⟩ := List.append_inj hsame (by simp only [List.length_append]; omega)
        rw [List.append_cancel_right hleft]
        refine ⟨_, hdecoded, ?_⟩
        rw [unquote_eq_self_iff.mpr hescape]
        rfl

end

/-! ## Other names -/

/-- A table of the default catalog. -/
def defaultTable (name : Text) (hname : name ≠ []) : TableIdentifier where
  catalog := "datafusion".toList
  «namespace» := ["public".toList]
  name := name
  catalog_ne := by decide
  namespace_ne := by decide
  name_ne := hname

/-- `100%25` is read as `100%`. -/
theorem escaped_name_rejected :
    ∃ path delimiter,
      (Request.table .describe (defaultTable "100%25".toList (by decide))).path =
        .ok (path, delimiter) ∧
      receive (serverPath path) delimiter =
        .ok ⟨.describeTable, ["public".toList, "100%".toList], none⟩ ∧
      receive (serverPath path) delimiter ≠
        .ok (Request.table .describe (defaultTable "100%25".toList (by decide))).intended :=
  ⟨"v1/table/public$100%2525/describe".toList, '$', by decide +kernel, by decide +kernel,
    by decide +kernel⟩

/-- The index `by/text` of a table whose name holds a delimiter, a slash and an index. -/
theorem index_request_arrives :
    receive (serverPath "v1/table/public~a%24%2Findex%2Fb/index/by%2Ftext/refresh".toList) '~' =
      .ok (Request.index .refresh (defaultTable "a$/index/b".toList (by decide))
        "by/text".toList).intended :=
  (route_agrees_iff (.index .refresh (defaultTable "a$/index/b".toList (by decide))
    "by/text".toList) (by decide +kernel)).mpr (by
      refine ⟨by decide +kernel, by decide +kernel, by decide +kernel⟩)

end ParqDB.Server
