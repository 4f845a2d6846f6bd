import DDAG.AdminSvc.Lifecycle
import DDAG.Gateway.Statements
import DDAG.Httpx
import DDAG.Lib.Fallible

/-!
# Testing and explaining a query

`testQuery` and `explainQuery` of `internal/adminsvc/handlers_apis.go`, up to the
request they send to the connector.  Both build the SQL text, check it with
`ValidateForExecution` and forward it.  The definition they check has no connector
type, so the text is read without the forms of any dialect.

`forwarded_judged` says what the check with the connector type would have said of a
text that is forwarded.  It accepts it wherever the dialect opens no form of its own
(`SameReading`), which is always so for PostgreSQL, and otherwise exactly when nothing
shows in the dialect's own reading.  A comment of MySQL can hold the quote that hides
a second statement from the check (`hash_comment_forwarded`).
-/

namespace DDAG.AdminSvc

open Models Gateway Machine Httpx
open Connectors

/-! ## The handlers -/

/-- A sample query string, with one value a name. -/
structure SampleQuery where
  entries : List (Text × Text)
  nodup : (entries.map Prod.fst).Nodup

theorem SampleQuery.nodup_nil : (([] : List (Text × Text)).map Prod.fst).Nodup := .nil

/-- The `url.Values` the handlers fill from the sample. -/
def SampleQuery.values (q : SampleQuery) : Values where
  entries := q.entries.map fun e => (e.1, [e.2])
  nodup := by
    rw [List.map_map]
    exact q.nodup

/-- The body of a test. -/
structure TestInput where
  connectionID : Text
  queryTemplate : Text
  responseMapping : ResponseMapping
  parameters : Table Value
  query : SampleQuery
  limit : Int

/-- The body of an explain.  Of its API, the fields the handler reads. -/
structure ExplainInput where
  connectionID : Text
  method : Text
  path : Text
  queryTemplate : Text
  responseMapping : ResponseMapping
  defaultLimit : Int
  maxLimit : Int
  query : SampleQuery
  parameters : Table Value

/-- An error response, with the fields of its details. -/
structure Failure where
  error : APIError
  fields : List (Text × Text) := []

/-- The request to a connector: its type and address, and the body. -/
structure Payload where
  databaseType : Text
  base : Text
  connectionID : Id
  queryTemplate : Text
  parameters : Table Value
  limit : Int

/-- A step of a handler: it hangs, fails with a response or gives a result. -/
abbrev Reply := ExceptT Failure Option

/-- The definition the handlers check: a text and its limits. -/
def executable (sql : Text) (defaultLimit maxLimit : Int) : APIDefinition :=
  { method := [], queryTemplate := sql, defaultLimit := defaultLimit, maxLimit := maxLimit }

/-- `BuildDynamicQuery`, with its error as the response. -/
def builtQuery (api : APIDefinition) (query : SampleQuery) (params : Table Value) :
    Reply BuiltQuery :=
  match buildDynamicQuery api query.values params with
  | .error message => throw { error := ⟨.queryValidationFailed, message⟩ }
  | .ok built => pure built

/-- `ValidateForExecution`, with a response that does not tell its error. -/
def checkExecution (message field : String) (api : APIDefinition) : Reply Unit :=
  match (validateForExecution api).run with
  | none => ExceptT.mk none
  | some (.error _) =>
      throw { error := newError .validation message
              fields := [(field.toList, "query is not permitted".toList)] }
  | some (.ok ()) => pure ()

section Handlers

-- `uuid.Parse`, the database type of a stored connection, and the connectors' addresses.
variable (parseID : Text → Option Id) (getConnection : Id → Option Text) (connectors : Table Text)

def findConnection (connectionID : Text) : Reply (Id × Text) :=
  match parseID connectionID with
  | none => throw { error := newError .validation "valid connection_id is required" }
  | some id =>
      match getConnection id with
      | none => throw { error := newError .validation "connection not found" }
      | some databaseType => pure (id, databaseType)

/-- The start of `callConnectorQuery`: the address of the connector. -/
def callConnectorQuery (code : ErrorCode) (databaseType : Text) : Reply Text :=
  match connectors databaseType with
  | none => throw { error := ⟨code, "connector unavailable for ".toList ++ databaseType⟩ }
  | some base => pure base

def testQuery (req : TestInput) : Reply Payload := do
  let (connID, databaseType) ← findConnection parseID getConnection req.connectionID
  let limit := defInt req.limit 50
  let built ← builtQuery
    { method := [], queryTemplate := req.queryTemplate, responseMapping := req.responseMapping
      defaultLimit := limit, maxLimit := limit } req.query req.parameters
  checkExecution "test query validation failed" "query_template" (executable built.sql limit limit)
  let base ← callConnectorQuery connectors .connectorError databaseType
  return { databaseType := databaseType, base := base, connectionID := connID
           queryTemplate := built.sql, parameters := built.params, limit := limit }

/-- `explainQuery` supports two database types. -/
def checkExplainable (databaseType : Text) : Reply Unit :=
  if databaseType ≠ "postgres".toList ∧ databaseType ≠ "mysql".toList then
    throw { error := newError .queryValidationFailed
              "explain is supported for PostgreSQL and MySQL in v3" }
  else pure ()

def explainQuery (req : ExplainInput) : Reply Payload := do
  let (connID, databaseType) ← findConnection parseID getConnection req.connectionID
  checkExplainable databaseType
  let defaultLimit := defInt req.defaultLimit 100
  let maxLimit := defInt req.maxLimit 1000
  let built ← builtQuery
    { method := req.method, path := req.path, queryTemplate := req.queryTemplate
      responseMapping := req.responseMapping, defaultLimit := defaultLimit, maxLimit := maxLimit }
    req.query req.parameters
  checkExecution "explain query validation failed" "api.query_template"
    (executable built.sql defaultLimit maxLimit)
  let base ← callConnectorQuery connectors .connectorUnavailable databaseType
  return { databaseType := databaseType, base := base, connectionID := connID
           queryTemplate := "EXPLAIN ".toList ++ built.sql, parameters := built.params, limit := 50 }

end Handlers

/-! ## What is forwarded -/

def Accepted (api : APIDefinition) : Prop := (validateForExecution api).run = some (.ok ())

theorem checkExecution_eq_ok {message field : String} {api : APIDefinition}
    (h : (checkExecution message field api).run = some (.ok ())) : Accepted api := by
  unfold checkExecution at h
  split at h
  next _ => cases h
  next _ => cases h
  next hok => exact hok

section Forwarded

variable {parseID : Text → Option Id} {getConnection : Id → Option Text} {connectors : Table Text}

theorem testQuery_forwards {req : TestInput} {payload : Payload}
    (h : (testQuery parseID getConnection connectors req).run = some (.ok payload)) :
    Accepted (executable payload.queryTemplate (defInt req.limit 50) (defInt req.limit 50)) := by
  obtain ⟨⟨connID, databaseType⟩, -, h⟩ := Fallible.run_bind_eq_ok h
  obtain ⟨built, -, h⟩ := Fallible.run_bind_eq_ok h
  obtain ⟨_, hcheck, h⟩ := Fallible.run_bind_eq_ok h
  obtain ⟨base, -, h⟩ := Fallible.run_bind_eq_ok h
  cases h
  exact checkExecution_eq_ok hcheck

theorem explainQuery_forwards {req : ExplainInput} {payload : Payload}
    (h : (explainQuery parseID getConnection connectors req).run = some (.ok payload)) :
    ∃ sql, payload.queryTemplate = "EXPLAIN ".toList ++ sql ∧
      Accepted (executable sql (defInt req.defaultLimit 100) (defInt req.maxLimit 1000)) := by
  obtain ⟨⟨connID, databaseType⟩, -, h⟩ := Fallible.run_bind_eq_ok h
  obtain ⟨_, -, h⟩ := Fallible.run_bind_eq_ok h
  obtain ⟨built, -, h⟩ := Fallible.run_bind_eq_ok h
  obtain ⟨_, hcheck, h⟩ := Fallible.run_bind_eq_ok h
  obtain ⟨base, -, h⟩ := Fallible.run_bind_eq_ok h
  cases h
  exact ⟨built.sql, rfl, checkExecution_eq_ok hcheck⟩

end Forwarded

/-! ## The check with the connector type -/

section Check

variable {api : APIDefinition}

theorem refuseIf_bind_eq_ok {test : Option Bool} {message : Text} {f : Unit → Check Unit} :
    (refuseIf test message >>= f).run = some (.ok ()) ↔
      test = some false ∧ (f ()).run = some (.ok ()) := by
  cases test with
  | none => exact iff_of_false (fun h => by cases h) (fun h => by cases h.1)
  | some b =>
      cases b with
      | true => exact iff_of_false (fun h => by cases h) (fun h => by cases h.1)
      | false => exact ⟨fun h => ⟨rfl, h⟩, fun h => h.2⟩

theorem refuseIf_eq_ok {test : Option Bool} {message : Text} :
    (refuseIf test message).run = some (.ok ()) ↔ test = some false := by
  cases test with
  | none => exact iff_of_false (fun h => by cases h) (fun h => by cases h)
  | some b =>
      cases b with
      | true => exact iff_of_false (fun h => by cases h) (fun h => by cases h)
      | false => exact iff_of_true rfl rfl

/-- What the validator asks of a definition without a builder that must not write. -/
theorem accepted_iff (hbuilder : queryBuilderFromAPI api = .ok none) (hread : api.isWrite = false) :
    Accepted api ↔ Strings.trimSpace api.queryTemplate ≠ [] ∧
      writes (Strings.trimSpace api.queryTemplate) api.dialect = some false ∧
      hasMultipleStatements (Strings.trimSpace api.queryTemplate) api.dialect = some false ∧
      0 < api.defaultLimit := by
  have hrun : validateForExecution api =
      (validateTemplate api (Strings.trimSpace api.queryTemplate) >>= fun _ =>
        validateDefaultLimit api) := by
    rw [validateForExecution, hbuilder]
  have hwrites : andAlso (!api.isWrite) (writes (Strings.trimSpace api.queryTemplate) api.dialect) =
      writes (Strings.trimSpace api.queryTemplate) api.dialect := by rw [hread]; rfl
  rw [Accepted, hrun, validateTemplate, hwrites]
  simp only [bind_assoc, refuseIf_bind_eq_ok, validateDefaultLimit, refuseIf_eq_ok, Option.some.injEq,
    decide_eq_false_iff_not]
  constructor
  · rintro ⟨hne, -, hw, hm, hlimit⟩
    exact ⟨hne, hw, hm, by omega⟩
  · rintro ⟨hne, hw, hm, hlimit⟩
    refine ⟨hne, ?_, hw, hm, by omega⟩
    rw [hw, andAlso_some, Bool.and_false]

end Check

/-- At every position that the scanner without a dialect comes to, the dialect opens what it
opens too. -/
def SameReading (d : Dialect) (s : Text) : Prop :=
  ∀ ts r, LexesTo (lexeme (publishForms .other) false) s ts r →
    publishForms d r = publishForms .other r

theorem publishForms_postgres : publishForms .postgres = publishForms .other := by
  funext s
  simp [publishForms, undollaredForms]

theorem lexeme_of_forms_eq {forms forms' : Forms} {binds : Bool} {s : Text} (h : forms s = forms' s) :
    lexeme forms binds s = lexeme forms' binds s := by
  cases s with
  | nil => rfl
  | cons c rest => simp only [lexeme, h]

/-- The dialect reads the same lexemes. -/
theorem SameReading.lexesTo {d : Dialect} {s r : Text} {ts : List Lexeme} (h : SameReading d s)
    (hts : LexesTo (lexeme (publishForms .other) false) s ts r) :
    LexesTo (lexeme (publishForms d) false) s ts r := by
  induction hts with
  | done => exact .done
  | @read s s' r t ts hl _ ih =>
      refine .read ?_ (ih fun us r' hus => h (t :: us) r' (.read hl hus))
      rw [lexeme_of_forms_eq (h [] s .done)]
      exact hl

/-- The tests of the validators give the same answers. -/
theorem SameReading.tests {d : Dialect} {q : Text} (h : SameReading d (Strings.trimSpace q))
    (hw : writes (Strings.trimSpace q) .other = some false)
    (hm : hasMultipleStatements (Strings.trimSpace q) .other = some false) :
    writes (Strings.trimSpace q) d = some false ∧
      hasMultipleStatements (Strings.trimSpace q) d = some false := by
  obtain ⟨st, hst, hnone⟩ := Option.map_eq_some_iff.mp hw
  obtain ⟨ts, hts, rfl⟩ := strip_eq_some_iff.mp hst
  have hts' : Lexes (lexeme (publishForms d) false) (Strings.trimSpace q) ts := h.lexesTo hts
  have hst' := strip_eq_some_iff.mpr ⟨ts, hts', rfl⟩
  refine ⟨by rw [writes, hst', Option.map_some, hnone], ?_⟩
  -- both scanners keep the same runes, so they keep the same semicolons
  rw [← Strings.trimSpace_trimSpace q] at hst hst'
  obtain ⟨ks, multiple, hks, -, hmultiple, hiff⟩ := multipleStatements_iff hst
  obtain ⟨ks', multiple', hks', -, hmultiple', hiff'⟩ := multipleStatements_iff hst'
  rw [Strings.trimSpace_trimSpace] at hks hks'
  rw [keptRunes_eq hts] at hks
  rw [keptRunes_eq hts', hks] at hks'
  obtain rfl := Option.some.inj hks'
  rw [hmultiple] at hm
  obtain rfl := Option.some.inj hm
  rw [hmultiple']
  congr 1
  exact Bool.eq_false_iff.mpr fun htrue => Bool.false_ne_true (hiff.mpr (hiff'.mp htrue))

/-- What the check with the connector type says of a text: it accepts it if the dialect opens no
form of its own, always for PostgreSQL, and exactly if nothing shows in the reading of the
dialect. -/
structure Judged (databaseType sql : Text) (defaultLimit maxLimit : Int) : Prop where
  same : SameReading (.ofText databaseType) (Strings.trimSpace sql) →
    Accepted { executable sql defaultLimit maxLimit with connectorType := databaseType }
  postgres : Dialect.ofText databaseType = .postgres →
    Accepted { executable sql defaultLimit maxLimit with connectorType := databaseType }
  exact : Accepted { executable sql defaultLimit maxLimit with connectorType := databaseType } ↔
    (∃ st, stripDialect (Strings.trimSpace sql) (.ofText databaseType) = some st) ∧
      ¬ VisibleWrite (.ofText databaseType) sql

theorem visibleWrite_trimSpace {d : Dialect} {q : Text} :
    VisibleWrite d (Strings.trimSpace q) ↔ VisibleWrite d q := by
  simp only [VisibleWrite, Separated, Strings.trimSpace_trimSpace]

/-- Where `StripDialect` returns, the tests say no exactly if nothing shows. -/
theorem tests_iff {d : Dialect} {q : Text} :
    (writes (Strings.trimSpace q) d = some false ∧
        hasMultipleStatements (Strings.trimSpace q) d = some false) ↔
      (∃ st, stripDialect (Strings.trimSpace q) d = some st) ∧ ¬ VisibleWrite d q := by
  have hvisible : ∀ {st : Text}, stripDialect (Strings.trimSpace q) d = some st →
      ∃ w m, writes (Strings.trimSpace q) d = some w ∧
        hasMultipleStatements (Strings.trimSpace q) d = some m ∧
        (VisibleWrite d q ↔ w = true ∨ m = true) := by
    intro st hst
    have hiff := visibleWrite_iff hst
    rwa [Strings.trimSpace_trimSpace, visibleWrite_trimSpace] at hiff
  constructor
  · rintro ⟨hw, hm⟩
    obtain ⟨st, hst, -⟩ := Option.map_eq_some_iff.mp hw
    refine ⟨⟨st, hst⟩, ?_⟩
    obtain ⟨w, m, hw', hm', hiff⟩ := hvisible hst
    rw [hw] at hw'
    rw [hm] at hm'
    cases hw'
    cases hm'
    rw [hiff]
    simp
  · rintro ⟨⟨st, hst⟩, hno⟩
    obtain ⟨w, m, hw, hm, hiff⟩ := hvisible hst
    rw [hiff, not_or, Bool.not_eq_true, Bool.not_eq_true] at hno
    rw [hw, hm, hno.1, hno.2]
    exact ⟨rfl, rfl⟩

theorem judged_of_accepted {sql : Text} {defaultLimit maxLimit : Int}
    (h : Accepted (executable sql defaultLimit maxLimit)) (databaseType : Text) :
    Judged databaseType sql defaultLimit maxLimit := by
  obtain ⟨hne, hw, hm, hlimit⟩ := (accepted_iff rfl rfl).mp h
  -- with the connector type, the tests are those of its dialect
  have hdialect : Accepted
      { executable sql defaultLimit maxLimit with connectorType := databaseType } ↔
        writes (Strings.trimSpace sql) (.ofText databaseType) = some false ∧
          hasMultipleStatements (Strings.trimSpace sql) (.ofText databaseType) = some false := by
    refine (accepted_iff rfl rfl).trans ⟨fun hok => ⟨hok.2.1, hok.2.2.1⟩, fun htests => ?_⟩
    exact ⟨hne, htests.1, htests.2, hlimit⟩
  have hsame : SameReading (.ofText databaseType) (Strings.trimSpace sql) → Accepted _ :=
    fun hsame => hdialect.mpr (hsame.tests hw hm)
  constructor
  case same => exact hsame
  case postgres =>
    intro hpostgres
    refine hsame fun ts r _ => ?_
    rw [hpostgres, publishForms_postgres]
  case exact => exact hdialect.trans tests_iff

/-- Whatever a test or an explain forwards, in whatever deployment, is judged so by the check with
the connector type. -/
theorem forwarded_judged (parseID : Text → Option Id) (getConnection : Id → Option Text)
    (connectors : Table Text) :
    (∀ req payload, (testQuery parseID getConnection connectors req).run = some (.ok payload) →
      Judged payload.databaseType payload.queryTemplate (defInt req.limit 50) (defInt req.limit 50)) ∧
    (∀ req payload, (explainQuery parseID getConnection connectors req).run = some (.ok payload) →
      ∃ sql, payload.queryTemplate = "EXPLAIN ".toList ++ sql ∧
        Judged payload.databaseType sql (defInt req.defaultLimit 100) (defInt req.maxLimit 1000)) := by
  constructor
  · intro req payload h
    exact judged_of_accepted (testQuery_forwards h) payload.databaseType
  · intro req payload h
    obtain ⟨sql, hsql, haccepted⟩ := explainQuery_forwards h
    exact ⟨sql, hsql, judged_of_accepted haccepted payload.databaseType⟩

/-- A test of a template on a connection, without parameters. -/
def plainTest (template : String) : TestInput where
  connectionID := []
  queryTemplate := template.toList
  responseMapping := .absent
  parameters := fun _ => none
  query := ⟨[], SampleQuery.nodup_nil⟩
  limit := 0

/-- A deployment with one connection and one connector, of the type. -/
def testOn (databaseType : Text) (req : TestInput) : Option (Except Failure Payload) :=
  (testQuery (fun _ => some 0) (fun _ => some databaseType) (fun _ => some []) req).run

/-- A template that is accepted without a connector type is forwarded. -/
theorem testOn_forwards (databaseType : Text) {template : String}
    (h : Accepted (executable template.toList 50 50)) :
    testOn databaseType (plainTest template) = some (.ok
      { databaseType := databaseType, base := [], connectionID := 0
        queryTemplate := template.toList, parameters := fun _ => none, limit := 50 }) := by
  have hcheck : checkExecution "test query validation failed" "query_template"
      (executable template.toList 50 50) = pure () := by
    rw [checkExecution, h]
  change (checkExecution "test query validation failed" "query_template"
    (executable template.toList 50 50) >>= fun _ => _).run = _
  rw [hcheck]
  rfl

/-- A test on PostgreSQL forwards what the check with the connector type accepts. -/
theorem postgres_test_judged :
    Accepted { executable "SELECT 1".toList 50 50 with connectorType := "postgres".toList } := by
  have hplain : Accepted (executable "SELECT 1".toList 50 50) := by
    rw [Accepted]
    decide +kernel
  have hjudged := (forwarded_judged _ _ _).1 _ _ (testOn_forwards "postgres".toList hplain)
  exact hjudged.postgres (by decide)

/-- The comment of MySQL holds a quote.  Without the dialect the rest of the text is a literal;
MySQL ends the comment at the line break and runs a second statement. -/
theorem hash_comment_forwarded :
    let sql := "SELECT 1 # '\n; DROP TABLE t".toList
    (∃ payload, testOn "mysql".toList (plainTest "SELECT 1 # '\n; DROP TABLE t") = some (.ok payload) ∧
      payload.databaseType = "mysql".toList ∧ payload.queryTemplate = sql) ∧
      (validateForExecution { executable sql 50 50 with connectorType := "mysql".toList }).run =
        some (.error "write statements are not allowed for read-only APIs".toList) := by
  have hplain : Accepted (executable "SELECT 1 # '\n; DROP TABLE t".toList 50 50) := by
    rw [Accepted]
    decide +kernel
  exact ⟨⟨_, testOn_forwards "mysql".toList hplain, rfl, rfl⟩, by decide +kernel⟩

end DDAG.AdminSvc
