import DDAG.Gateway.QueryBuilder
import DDAG.Httpx

/-!
# A query at the connector

`handleQuery` and `grpcServer.Query` of `internal/connector` for one delivered
request, with the reply they give and the queries they execute.  What the request
meets on its way (its signature, its connection, the breaker, admission, the
pool, the database) is a `Visit`.

A query that is executed is recorded with everything the connector was asked to
run.  `GrpcExecutes` and `HttpExecutes` say which visits execute, and
`grpcReply_code` that the reply to an executed query never carries the code of an
unavailable connector.
-/

namespace DDAG.Connector

open Httpx
open Gateway (Value)

/-! ## Requests and replies -/

/-- `connectors.QueryRequest`: what the connector runs. -/
structure QueryRequest where
  requestID : Text
  queryTemplate : Text
  parameters : Table Value
  timeoutMS : Int
  limit : Int
  offset : Int

/-- The message of the RPC.  The parameters travel as JSON. -/
structure GrpcRequest (J : Type*) where
  requestID : Text
  connectionID : Text
  queryTemplate : Text
  parametersJson : J
  timeoutMS : Int
  limit : Int
  offset : Int

structure HttpRequest extends QueryRequest where
  connectionID : Text

/-- The result of a query.  Rows that have no JSON are `none`. -/
structure QueryResult where
  durationMS : Int
  rowCount : Int
  rows : Option Text
deriving DecidableEq

/-- A reply, of either transport. -/
structure Reply where
  success : Bool
  durationMS : Int := 0
  rowCount : Int := 0
  circuitState : Text := []
  rows : Text := []
  error : Option APIError := none
deriving DecidableEq

/-! ## What a request meets -/

inductive Resolution where
  /-- The id is no UUID. -/
  | invalid
  | notFound
  | failed
  | found (sameType active : Bool)
deriving DecidableEq

/-- How the database answers.  An error tells whether the statement was sent
before it happened. -/
inductive QueryRun where
  | failed (message : Text) (sent : Bool)
  | rows (result : QueryResult)
deriving DecidableEq

structure Visit where
  dbType : Text
  /-- The body of an HTTP request is read within its bound. -/
  readable : Bool := true
  authentic : Bool := true
  resolution : Resolution := .found true true
  allowed : Bool := true
  admitted : Bool := true
  /-- The error of `Registry.Acquire`. -/
  pool : Option Text := none
  query : QueryRun
  /-- The state of the breaker at the reply. -/
  circuitState : Text := "closed".toList
deriving DecidableEq

/-- A status and an error. -/
structure Failure where
  status : Nat
  error : APIError
  circuitState : Text := []
deriving DecidableEq

def Failure.reply (f : Failure) : Reply :=
  { success := false, circuitState := f.circuitState, error := some f.error }

/-! ## Classifying errors -/

def classifyQueryErr (msg : Text) : ErrorCode × Nat :=
  if Strings.contains msg "pool acquire".toList then (.dbPoolExhausted, 503)
  else if Strings.contains msg "context deadline exceeded".toList ||
      Strings.contains msg "timeout".toList then (.dbQueryTimeout, 504)
  else if Strings.contains msg "missing value for parameter".toList then (.queryValidationFailed, 400)
  else (.connectorError, 502)

def classifyPoolErr (err : Text) : ErrorCode × Nat :=
  let msg := Strings.toLower err
  if Strings.contains msg "deadline exceeded".toList || Strings.contains msg "timeout".toList then
    (.dbConnectTimeout, 504)
  else if Strings.contains msg "too many".toList ||
      (Strings.contains msg "pool".toList && Strings.contains msg "acquire".toList) then
    (.dbPoolExhausted, 503)
  else (.connectorUnavailable, 502)

def safePoolMessage : ErrorCode → String
  | .dbConnectTimeout => "Database connection timed out. Please retry later."
  | .dbPoolExhausted => "Database connection pool is full. Please retry later."
  | _ => "Connector or source database unavailable"

/-! ## The handlers -/

/-- The error of the checks from the connection to its pool, if one fails.  The
two handlers name a connection of another type in different words. -/
def refusal (v : Visit) (otherType : Text) : Option Failure :=
  match v.resolution with
  | .invalid => some ⟨400, newError .badRequest "invalid connection id", []⟩
  | .notFound => some ⟨404, newError .notFound "connection not found", []⟩
  | .failed =>
      some ⟨500, newError .internal "failed to resolve connection secret", v.circuitState⟩
  | .found sameType active =>
      if !sameType then some ⟨400, ⟨.badRequest, otherType⟩, []⟩
      else if !active then some ⟨503, newError .connectorUnavailable "connection is disabled", []⟩
      else if !v.allowed then
        some ⟨503, newError .circuitBreakerOpen
          "Database connection temporarily unavailable (circuit open)", v.circuitState⟩
      else if !v.admitted then
        some ⟨503, newError .backpressureLimit "Database is busy. Please retry later.",
          v.circuitState⟩
      else v.pool.map fun err =>
        let c := classifyPoolErr err
        ⟨c.2, newError c.1 (safePoolMessage c.1), v.circuitState⟩

/-- `Query` of the connection: its result, and the query if it was sent. -/
def runQuery (v : Visit) (q : QueryRequest) : Except Failure QueryResult × List QueryRequest :=
  match v.query with
  | .failed msg sent =>
      let c := classifyQueryErr msg
      (.error ⟨c.2, newError c.1 "query failed", v.circuitState⟩, if sent then [q] else [])
  | .rows r => (.ok r, [q])

/-- A conversion to `int32`. -/
def int32 (n : Int) : Int := n.bmod (2 ^ 32)

def GrpcRequest.query {J : Type*} (m : GrpcRequest J) (params : Table Value) : QueryRequest :=
  { requestID := m.requestID, queryTemplate := m.queryTemplate, parameters := params,
    timeoutMS := m.timeoutMS, limit := m.limit, offset := m.offset }

/-- The reply to a query that ran. -/
def grpcReply (v : Visit) (r : Except Failure QueryResult) : Reply :=
  match r with
  | .error f => f.reply
  | .ok res =>
      match res.rows with
      | none =>
          Failure.reply ⟨500, newError .internal "failed to encode query rows", v.circuitState⟩
      | some rows =>
          { success := true, durationMS := res.durationMS, rowCount := int32 res.rowCount
            circuitState := v.circuitState, rows := rows }

section Handlers

variable {J : Type*} (decodeParams : J → Option (Table Value))

/-- `grpcServer.Query`.  A request that is not authentic gets an error of the
transport and no reply. -/
def grpcServerQuery (v : Visit) (m : GrpcRequest J) : Except Text Reply × List QueryRequest :=
  if !v.authentic then (.error "invalid internal service signature".toList, [])
  else
    match refusal v "connection type mismatch".toList with
    | some f => (.ok f.reply, [])
    | none =>
        match decodeParams m.parametersJson with
        | none =>
            (.ok (Failure.reply ⟨400, newError .badRequest "invalid parameters json",
              v.circuitState⟩), [])
        | some params =>
            let r := runQuery v (m.query params)
            (.ok (grpcReply v r.1), r.2)

/-- The reply of `handleQuery`: a status, and a body unless the rows have no
JSON. -/
def httpReply (v : Visit) (r : Except Failure QueryResult) : Nat × Option Reply :=
  match r with
  | .error f => (f.status, some f.reply)
  | .ok res =>
      (200, res.rows.map fun rows =>
        { success := true, durationMS := res.durationMS, rowCount := res.rowCount
          circuitState := v.circuitState, rows := rows })

/-- `handleQuery`, on a body that decodes to a request or not. -/
def handleQuery (v : Visit) (body : Option HttpRequest) : (Nat × Option Reply) × List QueryRequest :=
  let refuse (f : Failure) : (Nat × Option Reply) × List QueryRequest := ((f.status, some f.reply), [])
  if !v.readable then refuse ⟨400, newError .badRequest "invalid request body", []⟩
  else if !v.authentic then
    refuse ⟨401, newError .unauthorized "invalid internal service signature", []⟩
  else
    match body with
    | none => refuse ⟨400, newError .badRequest "invalid request body", []⟩
    | some req =>
        match refusal v ("connection is not a ".toList ++ v.dbType ++ " database".toList) with
        | some f => refuse f
        | none =>
            let r := runQuery v req.toQueryRequest
            (httpReply v r.1, r.2)

end Handlers

/-! ## Which requests are executed -/

def QueryRun.sent : QueryRun → Bool
  | .failed _ sent => sent
  | .rows _ => true

/-- The request passes every check up to the pool of its connection. -/
structure Visit.Passes (v : Visit) : Prop where
  authentic : v.authentic = true
  resolution : v.resolution = .found true true
  allowed : v.allowed = true
  admitted : v.admitted = true
  pool : v.pool = none

theorem refusal_eq_none_iff {v : Visit} {otherType : Text} :
    refusal v otherType = none ↔
      v.resolution = .found true true ∧ v.allowed = true ∧ v.admitted = true ∧ v.pool = none := by
  unfold refusal
  cases v.resolution with
  | invalid => simp
  | notFound => simp
  | failed => simp
  | found sameType active =>
      cases sameType <;> cases active <;> cases v.allowed <;> cases v.admitted <;> simp

/-- A request passes exactly if it is authentic and not refused, whatever the text
of the refusal. -/
theorem Visit.passes_iff {v : Visit} {otherType : Text} :
    v.Passes ↔ v.authentic = true ∧ refusal v otherType = none := by
  rw [refusal_eq_none_iff]
  constructor
  · intro h
    exact ⟨h.authentic, h.resolution, h.allowed, h.admitted, h.pool⟩
  · intro ⟨hauth, hres, hallowed, hadmitted, hpool⟩
    exact ⟨hauth, hres, hallowed, hadmitted, hpool⟩

theorem runQuery_executed (v : Visit) (q : QueryRequest) :
    (runQuery v q).2 = if v.query.sent then [q] else [] := by
  unfold runQuery
  cases v.query with
  | failed msg sent => rfl
  | rows r => rfl

theorem classifyQueryErr_code (msg : Text) : (classifyQueryErr msg).1 ≠ .connectorUnavailable := by
  unfold classifyQueryErr
  split_ifs <;> nofun

section Executed

variable {J : Type*} {decodeParams : J → Option (Table Value)} {v : Visit}

/-- Over gRPC a request is executed when it passes the checks, its parameters
decode, and its statement is sent. -/
def GrpcExecutes (decodeParams : J → Option (Table Value)) (v : Visit) (m : GrpcRequest J) : Prop :=
  v.Passes ∧ (decodeParams m.parametersJson).isSome ∧ v.query.sent = true

/-- A request over gRPC is refused, or runs the query of the message with its
parameters decoded. -/
theorem grpcServerQuery_cases (decodeParams : J → Option (Table Value)) (v : Visit)
    (m : GrpcRequest J) :
    (¬ GrpcExecutes decodeParams v m ∧
        ∃ r, grpcServerQuery decodeParams v m = (r, []) ∧ ∀ x, r = .ok x → x.success = false) ∨
      ∃ params, v.Passes ∧ decodeParams m.parametersJson = some params ∧
        grpcServerQuery decodeParams v m =
          (.ok (grpcReply v (runQuery v (m.query params)).1), (runQuery v (m.query params)).2) := by
  unfold grpcServerQuery
  split
  next hauth =>
    refine .inl ⟨fun h => ?_, _, rfl, nofun⟩
    simp [h.1.authentic] at hauth
  next hauth =>
    split
    next f hf =>
      refine .inl ⟨fun h => ?_, _, rfl, fun x hx => ?_⟩
      · cases hf.symm.trans (Visit.passes_iff.mp h.1).2
      · cases hx
        rfl
    next hrefusal =>
      split
      next hdecode =>
        refine .inl ⟨fun h => ?_, _, rfl, fun x hx => ?_⟩
        · have hsome := h.2.1
          rw [hdecode] at hsome
          cases hsome
        · cases hx
          rfl
      next params hdecode =>
        have hpass : v.Passes := Visit.passes_iff.mpr ⟨by simpa using hauth, hrefusal⟩
        exact .inr ⟨params, hpass, hdecode, rfl⟩

theorem grpcServerQuery_of_executes {m : GrpcRequest J} (h : GrpcExecutes decodeParams v m) :
    ∃ params, grpcServerQuery decodeParams v m =
      (.ok (grpcReply v (runQuery v (m.query params)).1), [m.query params]) := by
  rcases grpcServerQuery_cases decodeParams v m with ⟨hno, -⟩ | ⟨params, -, -, hserved⟩
  · exact absurd h hno
  · rw [runQuery_executed, if_pos h.2.2] at hserved
    exact ⟨params, hserved⟩

theorem grpcServerQuery_of_not_executes {m : GrpcRequest J} (h : ¬ GrpcExecutes decodeParams v m) :
    (grpcServerQuery decodeParams v m).2 = [] := by
  rcases grpcServerQuery_cases decodeParams v m with ⟨-, r, hserved, -⟩ | ⟨params, hpass, hdecode, hserved⟩
  · rw [hserved]
  · have hsent : ¬ v.query.sent = true := fun hsent => h ⟨hpass, by simp [hdecode], hsent⟩
    rw [hserved, runQuery_executed, if_neg hsent]

theorem grpcReply_code {q : QueryRequest} {e : APIError}
    (h : (grpcReply v (runQuery v q).1).error = some e) : e.code ≠ .connectorUnavailable := by
  unfold runQuery at h
  cases hq : v.query with
  | failed msg sent =>
      rw [hq] at h
      cases h
      exact classifyQueryErr_code msg
  | rows r =>
      rw [hq] at h
      unfold grpcReply at h
      cases hrows : r.rows with
      | none =>
          simp only [hrows] at h
          cases h
          nofun
      | some rows =>
          simp only [hrows] at h
          cases h

/-- Over HTTP the body must be read and decode. -/
def HttpExecutes (v : Visit) (body : Option HttpRequest) : Prop :=
  v.Passes ∧ v.readable = true ∧ body.isSome ∧ v.query.sent = true

/-- A request over HTTP is refused, or runs the query of the body. -/
theorem handleQuery_cases (v : Visit) (body : Option HttpRequest) :
    (¬ HttpExecutes v body ∧ ∃ f : Failure, handleQuery v body = ((f.status, some f.reply), [])) ∨
      ∃ req, v.Passes ∧ v.readable = true ∧ body = some req ∧
        handleQuery v body =
          (httpReply v (runQuery v req.toQueryRequest).1, (runQuery v req.toQueryRequest).2) := by
  unfold handleQuery
  split
  next hread =>
    refine .inl ⟨fun h => ?_, _, rfl⟩
    simp [h.2.1] at hread
  next hread =>
    split
    next hauth =>
      refine .inl ⟨fun h => ?_, _, rfl⟩
      simp [h.1.authentic] at hauth
    next hauth =>
      cases body with
      | none =>
          refine .inl ⟨fun h => ?_, _, rfl⟩
          cases h.2.2.1
      | some req =>
          dsimp only
          split
          next f hf =>
            refine .inl ⟨fun h => ?_, f, rfl⟩
            cases hf.symm.trans (Visit.passes_iff.mp h.1).2
          next hrefusal =>
            have hpass : v.Passes := Visit.passes_iff.mpr ⟨by simpa using hauth, hrefusal⟩
            exact .inr ⟨req, hpass, by simpa using hread, rfl, rfl⟩

theorem handleQuery_of_executes {body : Option HttpRequest} (h : HttpExecutes v body) :
    ∃ q, (handleQuery v body).2 = [q] := by
  rcases handleQuery_cases v body with ⟨hno, -⟩ | ⟨req, -, -, -, hserved⟩
  · exact absurd h hno
  · refine ⟨req.toQueryRequest, ?_⟩
    rw [hserved, runQuery_executed, if_pos h.2.2.2]

theorem handleQuery_of_not_executes {body : Option HttpRequest} (h : ¬ HttpExecutes v body) :
    (handleQuery v body).2 = [] := by
  rcases handleQuery_cases v body with ⟨-, f, hserved⟩ | ⟨req, hpass, hread, rfl, hserved⟩
  · rw [hserved]
  · have hsent : ¬ v.query.sent = true := fun hsent => h ⟨hpass, hread, rfl, hsent⟩
    rw [hserved, runQuery_executed, if_neg hsent]

end Executed

/-! ## What is executed and reported -/

theorem mem_runQuery {v : Visit} {q q' : QueryRequest} (h : q' ∈ (runQuery v q).2) : q' = q := by
  rw [runQuery_executed] at h
  split at h
  next _ => exact List.mem_singleton.mp h
  next _ => cases h

theorem runQuery_rows {v : Visit} {res : QueryResult} (h : v.query = .rows res) (q : QueryRequest) :
    (runQuery v q).1 = .ok res := by
  rw [runQuery, h]

/-- A reply of success over gRPC reports the rows of the result, as an `int32`. -/
theorem grpcReply_rowCount {v : Visit} {res : QueryResult}
    (h : (grpcReply v (.ok res)).success = true) :
    (grpcReply v (.ok res)).rowCount = int32 res.rowCount := by
  unfold grpcReply at h ⊢
  dsimp only at h ⊢
  split at h
  next _ => cases h
  next _ => rfl

/-- A reply of success over HTTP reports the rows of the result. -/
theorem httpReply_rowCount {v : Visit} {res : QueryResult} {status : Nat} {r : Reply}
    (h : httpReply v (.ok res) = (status, some r)) : r.rowCount = res.rowCount := by
  simp only [httpReply, Prod.mk.injEq, Option.map_eq_some_iff] at h
  obtain ⟨-, rows, -, rfl⟩ := h
  rfl

end DDAG.Connector
