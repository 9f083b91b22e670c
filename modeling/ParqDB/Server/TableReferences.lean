import ParqDB.Foundations.KeyedTable
import ParqDB.Server.Routes

/-!
# Tables by identifier

`SessionService.table` and `deregister_table` (`runtime/service.py`) write an identifier as a
dotted text, which the session parses again (`session/source.rs`).  The parser of such texts is a
parameter; for texts without double quotes it is known.

**Results.**

* `identifier_exact_iff`: both operations, also over HTTP, act on the table that is named exactly
  if its dotted text is read as the identifier again, or there is no table to go wrong with.
* `Resolves.iff_lowered`: without double quotes, the text is read as the identifier again
  exactly if it has one namespace segment and no dots and no upper-case letters.
* `other_table_dropped`: of two tables `Events` and `events` the wrong one is dropped.

**Strategy.**  One lemma for each operation says which tables are registered after it
(`registered_deregister`, `registered_httpDeregister`) or what is found (`table_eq_ok_iff`); the
rest is logic.
-/

namespace ParqDB.Server

open Foundations Foundations.Whatwg

/-! ## References -/

/-- `TableReference` of DataFusion. -/
inductive TableReference
  | bareTable (table : Text)
  | partialTable (schema table : Text)
  | fullTable (catalog schema table : Text)
deriving DecidableEq

/-- A reference with nothing left out. -/
structure ResolvedReference where
  catalog : Text
  schema : Text
  table : Text
deriving DecidableEq

def TableReference.resolve (defaultCatalog defaultSchema : Text) :
    TableReference → ResolvedReference
  | .bareTable table => ⟨defaultCatalog, defaultSchema, table⟩
  | .partialTable schema table => ⟨defaultCatalog, schema, table⟩
  | .fullTable catalog schema table => ⟨catalog, schema, table⟩

/-- A reference of these parts; a text with too many parts is a table by itself. -/
def TableReference.ofParts (text : Text) : List Text → TableReference
  | [table] => .bareTable table
  | [schema, table] => .partialTable schema table
  | [catalog, schema, table] => .fullTable catalog schema table
  | _ => .bareTable text

/-- `to_ascii_lowercase`. -/
def lowercase (text : Text) : Text := text.map Char.toLower

/-- `TableReference::from`, which splits at dots and lower-cases what is not quoted. -/
structure ReferenceParser where
  parse : Text → TableReference
  parse_unquoted : ∀ text, '"' ∉ text →
    parse text = .ofParts text ((text.splitOn '.').map lowercase)

/-- `TableIdentifier::new`. -/
def TableIdentifier.new (catalog : Text) (schemas : List Text) (name : Text) :
    Except String TableIdentifier :=
  if hvalid : catalog ≠ [] ∧ (∀ segment ∈ schemas, segment ≠ []) ∧ name ≠ [] then
    .ok ⟨catalog, schemas, name, hvalid.1, hvalid.2.1, hvalid.2.2⟩
  else .error "catalog, namespace segments, and name must be non-empty"

theorem TableIdentifier.new_eq_ok {catalog : Text} {schemas : List Text} {name : Text}
    {found : TableIdentifier}
    (hnew : TableIdentifier.new catalog schemas name = .ok found) :
    found.catalog = catalog ∧ found.namespace = schemas ∧ found.name = name := by
  rw [TableIdentifier.new] at hnew
  split at hnew
  · cases hnew
    exact ⟨rfl, rfl, rfl⟩
  · cases hnew

/-- `_table_reference`. -/
def tableReference (identifier : TableIdentifier) : Text :=
  ['.'].intercalate (identifier.catalog :: identifier.namespace ++ [identifier.name])

/-! ## Sessions -/

/-- A persistent definition, with the key of its exact state. -/
structure TableDefinition where
  identifier : TableIdentifier
  exactStateKey : Text

structure SourceBinding where
  key : Text
  tableName : Text

structure Session where
  defaultCatalog : Text
  defaultSchema : Text
  definitions : KeyedTable TableDefinition.identifier
  bindings : KeyedTable SourceBinding.key
  schemas : List (Text × Text)
  context : List ResolvedReference

namespace Session

variable (parser : ReferenceParser) (session : Session)

def resolve (name : Text) : ResolvedReference :=
  (parser.parse name).resolve session.defaultCatalog session.defaultSchema

def resolveTableIdentifier (name : Text) : Except String TableIdentifier :=
  let resolved := session.resolve parser name
  TableIdentifier.new resolved.catalog [resolved.schema] resolved.table

def persistentTableDefinition (name : Text) : Except String (Option TableDefinition) :=
  (session.resolveTableIdentifier parser name).map session.definitions.find?

/-- `SessionService.table`; of the descriptor only the identifier. -/
def table (identifier : TableIdentifier) : Except String TableIdentifier :=
  if session.resolve parser (tableReference identifier) ∉ session.context then
    .error "No table named"
  else
    match session.persistentTableDefinition parser (tableReference identifier) with
    | .error message => .error message
    | .ok none =>
        .error ("table is not a registered ParqDB source: " ++
          String.ofList (tableReference identifier))
    | .ok (some definition) => .ok definition.identifier

/-- Without the binding of a definition, if it has its name. -/
def removeBinding (identifier : TableIdentifier) (definition : TableDefinition) :
    KeyedTable SourceBinding.key :=
  session.bindings.delete fun binding =>
    binding.key = definition.exactStateKey ∧ binding.tableName = identifier.name

def dropTableDefinitionIfExists (name : Text) : Except String Session := do
  let identifier ← session.resolveTableIdentifier parser name
  match session.definitions.find? identifier with
  | none => .ok session
  | some definition =>
      .ok { session with
        definitions := session.definitions.delete fun other => other.identifier = identifier
        bindings := session.removeBinding identifier definition }

/-- `SessionContext::deregister_table`. -/
def deregisterContext (name : Text) : Except String Session :=
  let resolved := session.resolve parser name
  if (resolved.catalog, resolved.schema) ∈ session.schemas then
    .ok { session with context := session.context.filter (· ≠ resolved) }
  else .error "failed to resolve schema"

/-- `SessionService.deregister_table`, with the session after it. -/
def deregister (identifier : TableIdentifier) : Except String Unit × Session :=
  let name := tableReference identifier
  match session.dropTableDefinitionIfExists parser name with
  | .error message => (.error message, session)
  | .ok dropped =>
      match dropped.deregisterContext parser name with
      | .error message => (.error message, dropped)
      | .ok after => (.ok (), after)

/-- The same over HTTP: the client's path, the route, and the handler. -/
def httpDeregister (identifier : TableIdentifier) : Except String Unit × Session :=
  match (Request.table .deregister identifier).path with
  | .error message => (.error message, session)
  | .ok (path, delimiter) =>
      match receive (serverPath path) delimiter with
      | .error message => (.error message, session)
      | .ok received =>
          if received = (Request.table .deregister identifier).intended then
            session.deregister parser identifier
          else (.error "route and request table identifiers do not match", session)

/-! ## Registered tables -/

def Registered (identifier : TableIdentifier) : Prop :=
  ∃ definition ∈ session.definitions, definition.identifier = identifier

/-- Every definition has its table in the context. -/
def Restored : Prop :=
  ∀ definition ∈ session.definitions, ∃ resolved ∈ session.context,
    definition.identifier.catalog = resolved.catalog ∧
      definition.identifier.namespace = [resolved.schema] ∧
      definition.identifier.name = resolved.table

/-- The dotted text of the identifier is read as the identifier. -/
def Resolves (identifier : TableIdentifier) : Prop :=
  session.resolveTableIdentifier parser (tableReference identifier) = .ok identifier

variable {parser session} {identifier other found : TableIdentifier} {name : Text}

theorem registered_iff_find? :
    session.Registered identifier ↔ ∃ definition, session.definitions.find? identifier =
      some definition := by
  constructor
  · rintro ⟨definition, hdefinition, rfl⟩
    exact ⟨definition, KeyedTable.find?_key hdefinition⟩
  · rintro ⟨definition, hfound⟩
    obtain ⟨hmember, hidentifier⟩ := KeyedTable.find?_eq_some_iff.mp hfound
    exact ⟨definition, hmember, hidentifier⟩

/-- What `table` finds. -/
theorem table_eq_ok_iff (hrestored : session.Restored) :
    session.table parser identifier = .ok found ↔
      session.resolveTableIdentifier parser (tableReference identifier) = .ok found ∧
        session.Registered found := by
  constructor
  · intro htable
    rw [table] at htable
    split at htable
    · cases htable
    · rw [persistentTableDefinition] at htable
      cases hresolved : session.resolveTableIdentifier parser (tableReference identifier) with
      | error message =>
          rw [hresolved] at htable
          cases htable
      | ok resolved =>
          rw [hresolved] at htable
          cases hfind : session.definitions.find? resolved with
          | none => simp [Except.map, hfind] at htable
          | some definition =>
              obtain ⟨hmember, hidentifier⟩ := KeyedTable.find?_eq_some_iff.mp hfind
              have hfound : definition.identifier = found := by
                simpa [Except.map, hfind] using htable
              exact ⟨congrArg Except.ok (hidentifier.symm.trans hfound),
                definition, hmember, hfound⟩
  · rintro ⟨hresolved, definition, hmember, rfl⟩
    obtain ⟨reference, hreference, hcatalog, hnamespace, hname⟩ := hrestored definition hmember
    have hsame : session.resolve parser (tableReference identifier) = reference := by
      obtain ⟨hcatalog', hnamespace', hname'⟩ := TableIdentifier.new_eq_ok hresolved
      rw [hcatalog] at hcatalog'
      rw [hnamespace, List.singleton_inj] at hnamespace'
      rw [hname] at hname'
      generalize session.resolve parser (tableReference identifier) = resolved at *
      obtain ⟨catalog, schema, table⟩ := resolved
      obtain ⟨catalog', schema', table'⟩ := reference
      dsimp only at hcatalog' hnamespace' hname'
      rw [hcatalog', hnamespace', hname']
    have hcontext : session.resolve parser (tableReference identifier) ∈ session.context :=
      hsame ▸ hreference
    rw [table, if_neg (not_not.mpr hcontext), persistentTableDefinition, hresolved]
    simp [Except.map, KeyedTable.find?_key hmember]

/-- The definitions after a drop. -/
theorem registered_drop {dropped : Session}
    (hdrop : session.dropTableDefinitionIfExists parser name = .ok dropped) :
    dropped.Registered other ↔ session.Registered other ∧
      session.resolveTableIdentifier parser name ≠ .ok other := by
  rw [dropTableDefinitionIfExists, bind_eq_ok] at hdrop
  obtain ⟨resolved, hresolved, hdrop⟩ := hdrop
  rw [hresolved, ne_eq, Except.ok.injEq]
  cases hfind : session.definitions.find? resolved with
  | none =>
      rw [hfind] at hdrop
      cases hdrop
      refine ⟨fun hregistered => ⟨hregistered, ?_⟩, fun hregistered => hregistered.1⟩
      rintro rfl
      obtain ⟨definition, hfound⟩ := registered_iff_find?.mp hregistered
      rw [hfind] at hfound
      cases hfound
  | some definition =>
      rw [hfind] at hdrop
      cases hdrop
      constructor
      · rintro ⟨kept, hkept, rfl⟩
        obtain ⟨hmember, hother⟩ := KeyedTable.mem_delete.mp hkept
        exact ⟨⟨kept, hmember, rfl⟩, fun heq => of_decide_eq_false hother heq.symm⟩
      · rintro ⟨⟨kept, hmember, rfl⟩, hother⟩
        refine ⟨kept, KeyedTable.mem_delete.mpr ⟨hmember, decide_eq_false ?_⟩, rfl⟩
        exact fun heq => hother heq.symm

/-- What is registered after `deregister_table`. -/
theorem registered_deregister :
    (session.deregister parser identifier).2.Registered other ↔ session.Registered other ∧
      session.resolveTableIdentifier parser (tableReference identifier) ≠ .ok other := by
  rw [deregister]
  cases hdrop : session.dropTableDefinitionIfExists parser (tableReference identifier) with
  | error message =>
      have hfailed : ∀ resolved,
          session.resolveTableIdentifier parser (tableReference identifier) ≠ .ok resolved := by
        intro resolved hresolved
        rw [dropTableDefinitionIfExists, hresolved, ok_bind] at hdrop
        split at hdrop <;> cases hdrop
      exact ⟨fun hregistered => ⟨hregistered, hfailed other⟩, fun hregistered => hregistered.1⟩
  | ok dropped =>
      have hdropped := @registered_drop _ _ other _ _ hdrop
      dsimp only
      rw [deregisterContext]
      split
      · rename_i heq
        split at heq
        · cases heq
        · exact hdropped
      · rename_i heq
        split at heq
        · cases heq
          exact hdropped
        · cases heq

/-- A reference is that of the identifier that is made of it. -/
theorem resolveTableIdentifier_eq_ok (hcatalog : found.catalog =
      (session.resolve parser name).catalog)
    (hnamespace : found.namespace = [(session.resolve parser name).schema])
    (hname : found.name = (session.resolve parser name).table) :
    session.resolveTableIdentifier parser name = .ok found := by
  rw [resolveTableIdentifier, ← hcatalog, ← hnamespace, ← hname, TableIdentifier.new,
    dif_pos ⟨found.catalog_ne, found.namespace_ne, found.name_ne⟩]

variable {dropped : Session}

theorem drop_restored (hrestored : session.Restored)
    (hdrop : session.dropTableDefinitionIfExists parser name = .ok dropped) : dropped.Restored := by
  rw [dropTableDefinitionIfExists, bind_eq_ok] at hdrop
  obtain ⟨resolved, -, hdrop⟩ := hdrop
  split at hdrop
  · cases hdrop
    exact hrestored
  · cases hdrop
    exact fun definition hdefinition => hrestored definition (KeyedTable.mem_delete.mp hdefinition).1

/-- A drop does not change how references are read. -/
theorem drop_resolve (hdrop : session.dropTableDefinitionIfExists parser name = .ok dropped)
    (reference : Text) : dropped.resolve parser reference = session.resolve parser reference := by
  rw [dropTableDefinitionIfExists, bind_eq_ok] at hdrop
  obtain ⟨resolved, -, hdrop⟩ := hdrop
  split at hdrop <;> cases hdrop <;> rfl

/-- The tables that stay registered stay in the context. -/
theorem deregister_restored (hrestored : session.Restored) :
    (session.deregister parser identifier).2.Restored := by
  rw [deregister]
  cases hdrop : session.dropTableDefinitionIfExists parser (tableReference identifier) with
  | error message => exact hrestored
  | ok dropped =>
      have hdropped := drop_restored hrestored hdrop
      dsimp only
      cases hcontext : dropped.deregisterContext parser (tableReference identifier) with
      | error message => exact hdropped
      | ok after =>
          rw [deregisterContext] at hcontext
          split at hcontext
          · cases hcontext
            intro definition hdefinition
            obtain ⟨reference, hreference, hcatalog, hnamespace, hname⟩ :=
              hdropped definition hdefinition
            refine ⟨reference, List.mem_filter.mpr ⟨hreference, decide_eq_true ?_⟩, hcatalog,
              hnamespace, hname⟩
            rintro rfl
            refine ((registered_drop hdrop).mp ⟨definition, hdefinition, rfl⟩).2 ?_
            have hsame := drop_resolve hdrop (tableReference identifier)
            exact resolveTableIdentifier_eq_ok (hsame ▸ hcatalog) (hsame ▸ hnamespace)
              (hsame ▸ hname)
          · cases hcontext

/-- The request reaches its handler as what it is. -/
def Reaches (identifier : TableIdentifier) : Prop :=
  (∃ path delimiter, (Request.table .deregister identifier).path = .ok (path, delimiter)) ∧
    (Request.table .deregister identifier).Plain

theorem httpDeregister_of_reaches (hreaches : Reaches identifier) :
    session.httpDeregister parser identifier = session.deregister parser identifier := by
  obtain ⟨⟨path, delimiter, hpath⟩, hplain⟩ := hreaches
  have hreceived := (route_agrees_iff _ hpath).mpr hplain
  rw [httpDeregister, hpath]
  dsimp only
  rw [hreceived]
  exact if_pos rfl

theorem httpDeregister_of_not_reaches (hreaches : ¬ Reaches identifier) :
    (session.httpDeregister parser identifier).2 = session := by
  rw [httpDeregister]
  cases hpath : (Request.table .deregister identifier).path with
  | error message => rfl
  | ok encoded =>
      obtain ⟨path, delimiter⟩ := encoded
      have hother : receive (serverPath path) delimiter ≠
          .ok (Request.table .deregister identifier).intended := by
        rw [ne_eq, route_agrees_iff _ hpath]
        exact fun hplain => hreaches ⟨⟨path, delimiter, hpath⟩, hplain⟩
      dsimp only
      cases hreceived : receive (serverPath path) delimiter with
      | error message => rfl
      | ok received =>
          dsimp only
          rw [if_neg]
          rintro rfl
          exact hother hreceived

/-- What is registered after `deregister_table` over HTTP. -/
theorem registered_httpDeregister :
    (session.httpDeregister parser identifier).2.Registered other ↔ session.Registered other ∧
      ¬ (Reaches identifier ∧
        session.resolveTableIdentifier parser (tableReference identifier) = .ok other) := by
  by_cases hreaches : Reaches identifier
  · rw [httpDeregister_of_reaches hreaches, registered_deregister]
    simp only [hreaches, true_and, ne_eq]
  · rw [httpDeregister_of_not_reaches hreaches]
    simp only [hreaches, false_and, not_false_eq_true, and_true]

theorem httpDeregister_restored (hrestored : session.Restored) :
    (session.httpDeregister parser identifier).2.Restored := by
  by_cases hreaches : Reaches identifier
  · rw [httpDeregister_of_reaches hreaches]
    exact deregister_restored hrestored
  · rw [httpDeregister_of_not_reaches hreaches]
    exact hrestored

/-! ## Exactness -/

variable (parser session identifier)

structure TableExact : Prop where
  descriptor : ∀ found, session.table parser identifier = .ok found → found = identifier
  succeeds : session.Registered identifier →
    ∃ found, session.table parser identifier = .ok found

/-- Of two sessions, the second is the first without the table. -/
structure Deregisters (before after : Session) (identifier : TableIdentifier) : Prop where
  others : ∀ other, other ≠ identifier → before.Registered other → after.Registered other
  gone : ¬ after.Registered identifier
  restored : after.Restored

structure IdentifierExact : Prop where
  table : session.TableExact parser identifier
  embedded : Deregisters session (session.deregister parser identifier).2 identifier
  http : Deregisters session (session.httpDeregister parser identifier).2 identifier

/-- Neither the table nor the one that its dotted text names is registered. -/
def Absent : Prop :=
  ¬ session.Registered identifier ∧ ∀ found,
    session.resolveTableIdentifier parser (tableReference identifier) = .ok found →
      ¬ session.Registered found

/-- One namespace segment, and nothing that the parser changes. -/
def Lowered (identifier : TableIdentifier) : Prop :=
  identifier.namespace.length = 1 ∧
    ∀ part ∈ identifier.catalog :: identifier.segments, '.' ∉ part ∧ lowercase part = part

variable {parser session identifier} {schema : Text}

/-- An identifier with one namespace segment, in dots. -/
theorem tableReference_eq (hnamespace : identifier.namespace = [schema]) :
    tableReference identifier = identifier.catalog ++ '.' :: (schema ++ '.' :: identifier.name) := by
  simp [tableReference, hnamespace, List.intercalate]

theorem splitOn_tableReference (hnamespace : identifier.namespace = [schema]) :
    (tableReference identifier).splitOn '.' =
      identifier.catalog.splitOn '.' ++ (schema.splitOn '.' ++ identifier.name.splitOn '.') := by
  rw [tableReference_eq hnamespace, List.splitOn_append_cons_self, List.splitOn_append_cons_self]

theorem length_splitOn_pos (part : Text) : 0 < (part.splitOn '.').length :=
  List.length_pos_iff.mpr (List.splitOn_ne_nil '.' part)

variable {part : Text}

/-- A dot makes more parts. -/
theorem two_le_length_splitOn (hdot : '.' ∈ part) : 2 ≤ (part.splitOn '.').length := by
  obtain ⟨before, after, rfl⟩ := List.append_of_mem hdot
  have hbefore := length_splitOn_pos before
  have hafter := length_splitOn_pos after
  rw [List.splitOn_append_cons_self, List.length_append]
  omega

/-- Too many parts are one table. -/
theorem ofParts_many {text : Text} {parts : List Text} (hmany : 4 ≤ parts.length) :
    TableReference.ofParts text parts = .bareTable text := by
  match parts, hmany with
  | _ :: _ :: _ :: _ :: _, _ => rfl

/-- The parts of an identifier that has a dot too many. -/
theorem four_le_length_splitOn (hnamespace : identifier.namespace = [schema])
    (hpart : part ∈ [identifier.catalog, schema, identifier.name]) (hdot : '.' ∈ part) :
    4 ≤ ((tableReference identifier).splitOn '.').length := by
  have hcatalog := length_splitOn_pos identifier.catalog
  have hschema := length_splitOn_pos schema
  have hname := length_splitOn_pos identifier.name
  have htwo := two_le_length_splitOn hdot
  rw [splitOn_tableReference hnamespace, List.length_append, List.length_append]
  simp only [List.mem_cons, List.not_mem_nil, or_false] at hpart
  rcases hpart with rfl | rfl | rfl <;> omega

theorem lowered_iff (hnamespace : identifier.namespace = [schema]) :
    Lowered identifier ↔ ∀ part ∈ [identifier.catalog, schema, identifier.name],
      '.' ∉ part ∧ lowercase part = part := by
  rw [Lowered, TableIdentifier.segments, hnamespace]
  exact ⟨fun hlowered => hlowered.2, fun hparts => ⟨rfl, hparts⟩⟩

/-- What the parser makes of an identifier without dots and quotes. -/
theorem resolveTableIdentifier_of_dotless
    (hquotes : '"' ∉ tableReference identifier) (hnamespace : identifier.namespace = [schema])
    (hdots : ∀ part ∈ [identifier.catalog, schema, identifier.name], '.' ∉ part) :
    session.resolveTableIdentifier parser (tableReference identifier) =
      TableIdentifier.new (lowercase identifier.catalog) [lowercase schema]
        (lowercase identifier.name) := by
  have hparts : (tableReference identifier).splitOn '.' =
      [identifier.catalog, schema, identifier.name] := by
    rw [splitOn_tableReference hnamespace, List.splitOn_eq_singleton (hdots _ (by simp)),
      List.splitOn_eq_singleton (hdots _ (by simp)), List.splitOn_eq_singleton (hdots _ (by simp))]
    rfl
  rw [resolveTableIdentifier, resolve, parser.parse_unquoted _ hquotes, hparts]
  rfl

/-- Without quotes, only a lowered identifier is read back. -/
theorem resolves_iff_lowered (hquotes : '"' ∉ tableReference identifier) :
    session.Resolves parser identifier ↔ Lowered identifier := by
  constructor
  · intro hresolves
    obtain ⟨hcatalog, hnamespace, hname⟩ := TableIdentifier.new_eq_ok hresolves
    have hdots : ∀ part ∈ [identifier.catalog,
        (session.resolve parser (tableReference identifier)).schema, identifier.name],
        '.' ∉ part := by
      intro part hpart hdot
      have hmany := four_le_length_splitOn hnamespace hpart hdot
      rw [resolve, parser.parse_unquoted _ hquotes,
        ofParts_many (by rwa [List.length_map])] at hname
      have hlength := congrArg List.length hname
      rw [TableReference.resolve, tableReference_eq hnamespace] at hlength
      simp only [List.length_append, List.length_cons] at hlength
      omega
    have hread := @resolveTableIdentifier_of_dotless parser session identifier _ hquotes hnamespace
      hdots
    rw [Resolves, hread] at hresolves
    obtain ⟨hcatalog', hnamespace', hname'⟩ := TableIdentifier.new_eq_ok hresolves
    rw [hnamespace, List.singleton_inj] at hnamespace'
    rw [lowered_iff hnamespace]
    intro part hpart
    refine ⟨hdots part hpart, ?_⟩
    simp only [List.mem_cons, List.not_mem_nil, or_false] at hpart
    rcases hpart with rfl | rfl | rfl
    · exact hcatalog'.symm
    · exact hnamespace'.symm
    · exact hname'.symm
  · intro hlowered
    obtain ⟨schema, hnamespace⟩ := List.length_eq_one_iff.mp hlowered.1
    have hparts := (lowered_iff hnamespace).mp hlowered
    rw [Resolves, resolveTableIdentifier_of_dotless hquotes hnamespace
      fun part hpart => (hparts part hpart).1, (hparts identifier.catalog (by simp)).2,
      (hparts schema (by simp)).2, (hparts identifier.name (by simp)).2, ← hnamespace,
      TableIdentifier.new, dif_pos ⟨identifier.catalog_ne, identifier.namespace_ne,
        identifier.name_ne⟩]

/-- The operations are exact if the identifier is read back, and only then. -/
theorem identifier_exact_iff (parser : ReferenceParser) (session : Session)
    (hrestored : session.Restored) (identifier : TableIdentifier) :
    (session.IdentifierExact parser identifier ↔
      (session.Resolves parser identifier ∨ session.Absent parser identifier) ∧
        (Reaches identifier ∨ ¬ session.Registered identifier)) ∧
    ('"' ∉ tableReference identifier →
      (session.Resolves parser identifier ↔ Lowered identifier)) := by
  refine ⟨⟨?_, ?_⟩, resolves_iff_lowered⟩
  · rintro ⟨htable, hembedded, hhttp⟩
    have hread : session.Registered identifier → session.Resolves parser identifier := by
      intro hregistered
      by_contra hother
      exact hembedded.gone (registered_deregister.mpr ⟨hregistered, hother⟩)
    refine ⟨?_, ?_⟩
    · by_cases hresolves : session.Resolves parser identifier
      · exact .inl hresolves
      · refine .inr ⟨fun hregistered => hresolves (hread hregistered), ?_⟩
        intro found hfound hregistered
        have hsame := htable.descriptor found
          ((table_eq_ok_iff hrestored).mpr ⟨hfound, hregistered⟩)
        exact hresolves (hsame ▸ hfound)
    · by_cases hreaches : Reaches identifier
      · exact .inl hreaches
      · refine .inr fun hregistered => hhttp.gone ?_
        exact registered_httpDeregister.mpr ⟨hregistered, fun hboth => hreaches hboth.1⟩
  · rintro ⟨hread, hroute⟩
    have hfound : ∀ found,
        session.resolveTableIdentifier parser (tableReference identifier) = .ok found →
          session.Registered found → found = identifier := by
      intro found hresolved hregistered
      rcases hread with hresolves | ⟨-, habsent⟩
      · exact Except.ok.inj (hresolved.symm.trans hresolves)
      · exact absurd hregistered (habsent found hresolved)
    have hresolves : session.Registered identifier → session.Resolves parser identifier :=
      fun hregistered => hread.resolve_right fun habsent => habsent.1 hregistered
    refine ⟨⟨?_, ?_⟩, ⟨?_, ?_, deregister_restored hrestored⟩,
      ⟨?_, ?_, httpDeregister_restored hrestored⟩⟩
    · intro found htable
      obtain ⟨hresolved, hregistered⟩ := (table_eq_ok_iff hrestored).mp htable
      exact hfound found hresolved hregistered
    · intro hregistered
      exact ⟨identifier, (table_eq_ok_iff hrestored).mpr ⟨hresolves hregistered, hregistered⟩⟩
    · intro other hother hregistered
      refine registered_deregister.mpr ⟨hregistered, fun hresolved => hother ?_⟩
      exact hfound other hresolved hregistered
    · intro hafter
      obtain ⟨hregistered, hother⟩ := registered_deregister.mp hafter
      exact hother (hresolves hregistered)
    · intro other hother hregistered
      refine registered_httpDeregister.mpr ⟨hregistered, fun hboth => hother ?_⟩
      exact hfound other hboth.2 hregistered
    · intro hafter
      obtain ⟨hregistered, hother⟩ := registered_httpDeregister.mp hafter
      exact hother ⟨hroute.resolve_right (not_not.mpr hregistered), hresolves hregistered⟩

end Session

/-! ## Two tables that differ by case -/

namespace Letters

/-- A parser that takes a text with quotes for a table by itself. -/
def parser : ReferenceParser where
  parse text :=
    if '"' ∈ text then .bareTable text
    else .ofParts text ((text.splitOn '.').map lowercase)
  parse_unquoted := fun _ hquotes => if_neg hquotes

def upper : TableIdentifier := defaultTable "Events".toList (by decide)

def lower : TableIdentifier := defaultTable "events".toList (by decide)

/-- Both tables are registered. -/
def session : Session where
  defaultCatalog := "datafusion".toList
  defaultSchema := "public".toList
  definitions := ⟨[⟨upper, "1".toList⟩, ⟨lower, "2".toList⟩], by decide +kernel⟩
  bindings := ⟨[⟨"1".toList, "Events".toList⟩, ⟨"2".toList, "events".toList⟩], by decide +kernel⟩
  schemas := [("datafusion".toList, "public".toList)]
  context := [⟨"datafusion".toList, "public".toList, "Events".toList⟩,
    ⟨"datafusion".toList, "public".toList, "events".toList⟩]

theorem session_restored : session.Restored := by
  intro definition hdefinition
  rcases List.mem_cons.mp hdefinition with rfl | hdefinition
  · exact ⟨_, List.mem_cons_self, rfl, rfl, rfl⟩
  · obtain rfl := List.mem_singleton.mp hdefinition
    exact ⟨_, List.mem_cons_of_mem _ List.mem_cons_self, rfl, rfl, rfl⟩

end Letters

/-- `deregister_table` for `Events` drops `events` and leaves `Events`; `table` finds `events`. -/
theorem other_table_dropped :
    Letters.session.table Letters.parser Letters.upper = .ok Letters.lower ∧
      ¬ (Letters.session.deregister Letters.parser Letters.upper).2.Registered Letters.lower ∧
      (Letters.session.deregister Letters.parser Letters.upper).2.Registered Letters.upper ∧
      ¬ Letters.session.IdentifierExact Letters.parser Letters.upper := by
  have hrun : Letters.session.table Letters.parser Letters.upper = .ok Letters.lower := by
    decide +kernel
  have hread : Letters.session.resolveTableIdentifier Letters.parser
      (tableReference Letters.upper) = .ok Letters.lower := by
    decide +kernel
  refine ⟨hrun, ?_, ?_, ?_⟩
  · rw [Session.registered_deregister]
    exact fun hboth => hboth.2 hread
  · rw [Session.registered_deregister, hread]
    exact ⟨⟨_, List.mem_cons_self, rfl⟩, by decide +kernel⟩
  · intro hexact
    exact absurd (hexact.table.descriptor _ hrun) (by decide +kernel)

/-- The lower-case table is dropped by its identifier, and nothing else. -/
theorem lower_case_table_exact :
    Letters.session.IdentifierExact Letters.parser Letters.lower :=
  (Session.identifier_exact_iff Letters.parser Letters.session Letters.session_restored
    Letters.lower).1.mpr ⟨.inl (by unfold Session.Resolves; decide +kernel),
      .inl ⟨⟨"v1/table/public$events/deregister".toList, '$', by decide +kernel⟩,
        by unfold Request.Plain; decide +kernel⟩⟩

end ParqDB.Server
