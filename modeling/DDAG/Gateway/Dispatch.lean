import DDAG.Connector.Query

/-!
# Dispatching a query

`DualTransportClient` of `internal/gateway`: a query goes over gRPC where a
client is configured, and over HTTP when the gRPC client reports an unavailable
connector.  A call may never arrive, or arrive and be worked on while its reply is
lost or late, and the client cannot tell these apart.

`dualQuery_executed` says how often the connector executes the query: a query
whose gRPC reply is lost after its execution is sent again over HTTP.
-/

namespace DDAG.Gateway

open Models Httpx Connector

/-! ## The clients -/

/-- The request of the gateway to a connector. -/
structure ConnectorRequest where
  requestID : Text
  connectionID : Text
  queryTemplate : Text
  parameters : Table Value
  timeoutMS : Int
  limit : Int
  offset : Int

/-- The response the gateway goes on with. -/
structure ConnectorResponse where
  durationMS : Int
  rowCount : Int
  circuitState : Text
  rows : Text
deriving DecidableEq

/-- The JSON of parameters and of HTTP bodies.  Parameters may have none, and
then the body has none either. -/
structure Codec (J : Type*) where
  encodeParams : Table Value → Option J
  decodeParams : J → Option (Table Value)
  /-- The request a connector decodes from the body of a request. -/
  transcode : ConnectorRequest → Option HttpRequest

/-- What becomes of a call. -/
inductive Call where
  | refused (err : Text)
  /-- It arrives; its reply may be lost, or be too late. -/
  | delivered (visit : Visit) (lost : Option Text)
deriving DecidableEq

/-- The gRPC client of a database type: whether it remembers the connection's
circuit as open, and what becomes of its call. -/
structure GrpcLine where
  isOpen : Bool := false
  call : Call
deriving DecidableEq

/-- The HTTP client of a database type. -/
structure HttpLine where
  /-- A URL is configured. -/
  configured : Bool := true
  isOpen : Bool := false
  /-- The URL makes a request. -/
  valid : Bool := true
  call : Call
deriving DecidableEq

/-- A response or an error, and the queries executed. -/
abbrev Outcome := Except APIError ConnectorResponse × List QueryRequest

def circuitOpen : APIError :=
  newError .circuitBreakerOpen "Database connection temporarily unavailable (circuit open)"

def replyError (r : Reply) : APIError := r.error.getD (newError .connectorError "connector error")

def responseOf (r : Reply) : ConnectorResponse :=
  { durationMS := r.durationMS, rowCount := r.rowCount, circuitState := r.circuitState, rows := r.rows }

section Clients

variable {J : Type*} (codec : Codec J)

def grpcRequest (req : ConnectorRequest) (params : J) : GrpcRequest J :=
  { requestID := req.requestID, connectionID := req.connectionID, queryTemplate := req.queryTemplate
    parametersJson := params, timeoutMS := int32 req.timeoutMS, limit := int32 req.limit
    offset := int32 req.offset }

def grpcCallFailed (err : Text) : APIError :=
  ⟨.connectorUnavailable, "gRPC call failed: ".toList ++ err⟩

/-- What the gRPC client makes of a reply. -/
def grpcResult (r : Reply) : Except APIError ConnectorResponse :=
  if !r.success then .error (replyError r) else .ok (responseOf r)

/-- What comes back of a gRPC call that was worked on. -/
def grpcAnswer (lost : Option Text) (served : Except Text Reply) : Except APIError ConnectorResponse :=
  match lost, served with
  | some err, _ => .error (grpcCallFailed err)
  | none, .error err => .error (grpcCallFailed err)
  | none, .ok r => grpcResult r

/-- `grpcConnectorClient.Query`. -/
def grpcQuery (line : GrpcLine) (req : ConnectorRequest) : Outcome :=
  if line.isOpen then (.error circuitOpen, [])
  else
    match codec.encodeParams req.parameters with
    | none => (.error (newError .internal "failed to marshal query parameters"), [])
    | some params =>
        match line.call with
        | .refused err => (.error (grpcCallFailed err), [])
        | .delivered visit lost =>
            let served := grpcServerQuery codec.decodeParams visit (grpcRequest req params)
            (grpcAnswer lost served.1, served.2)

/-- What the HTTP client makes of a status and a body. -/
def httpResult (status : Nat) (r : Reply) : Except APIError ConnectorResponse :=
  if status = 408 then .error (newError .dbQueryTimeout "query timed out")
  else if 400 ≤ status ∨ r.success = false then .error (replyError r)
  else .ok (responseOf r)

/-- What comes back of an HTTP call that was worked on. -/
def httpAnswer (lost : Option Text) (served : Nat × Option Reply) :
    Except APIError ConnectorResponse :=
  match lost, served with
  | some _, _ => .error (newError .connectorUnavailable "connector unavailable")
  | none, (_, none) => .error (newError .connectorUnavailable "invalid connector response")
  | none, (status, some r) => httpResult status r

/-- `ConnectorClient.Query`. -/
def httpQuery (line : HttpLine) (dbType : Text) (req : ConnectorRequest) : Outcome :=
  if !line.configured then
    (.error ⟨.connectorUnavailable, "no connector configured for ".toList ++ dbType⟩, [])
  else if line.isOpen then (.error circuitOpen, [])
  else if !line.valid then (.error (newError .internal "failed to build connector request"), [])
  else
    match line.call with
    | .refused _ => (.error (newError .connectorUnavailable "connector unavailable"), [])
    | .delivered visit lost =>
        let served := handleQuery visit (codec.transcode req)
        (httpAnswer lost served.1, served.2)

/-- The two clients of a database type.  gRPC may not be configured. -/
structure Lines where
  grpc : Option GrpcLine
  http : HttpLine
deriving DecidableEq

/-- `DualTransportClient.Query`. -/
def dualQuery (lines : Lines) (dbType : Text) (req : ConnectorRequest) : Outcome :=
  match lines.grpc with
  | none => httpQuery codec lines.http dbType req
  | some line =>
      let first := grpcQuery codec line req
      match first.1 with
      | .ok _ => first
      | .error e =>
          if e.code ≠ .connectorUnavailable then first
          else
            let second := httpQuery codec lines.http dbType req
            (second.1, first.2 ++ second.2)

end Clients

/-! ## How often a query is executed -/

section Executions

variable {J : Type*} (codec : Codec J) (req : ConnectorRequest)

/-- The connector executes the query of a gRPC call, and its reply is lost. -/
def GrpcLine.LosesExecuted (codec : Codec J) (line : GrpcLine) (req : ConnectorRequest) : Prop :=
  ∃ params visit err, line.isOpen = false ∧ codec.encodeParams req.parameters = some params ∧
    line.call = .delivered visit (some err) ∧
    GrpcExecutes codec.decodeParams visit (grpcRequest req params)

def HttpLine.Executes (codec : Codec J) (line : HttpLine) (req : ConnectorRequest) : Prop :=
  ∃ visit lost, line.configured = true ∧ line.isOpen = false ∧ line.valid = true ∧
    line.call = .delivered visit lost ∧ HttpExecutes visit (codec.transcode req)

/-- The client passes on the error of a reply to an executed query. -/
theorem grpcResult_code {v : Visit} {q : QueryRequest} {e : APIError}
    (h : grpcResult (grpcReply v (runQuery v q).1) = .error e) : e.code ≠ .connectorUnavailable := by
  obtain ⟨r, hr⟩ : ∃ r, grpcReply v (runQuery v q).1 = r := ⟨_, rfl⟩
  rw [hr, grpcResult] at h
  split at h
  next _ =>
    cases h
    rw [replyError]
    cases herror : r.error with
    | none => nofun
    | some e => exact grpcReply_code (hr ▸ herror)
  next _ => cases h

/-- A call over gRPC fails before it is worked on, or is answered by the server. -/
theorem grpcQuery_answered (line : GrpcLine) :
    (∃ e, grpcQuery codec line req = (.error e, []) ∧ ¬ line.LosesExecuted codec req) ∨
      ∃ json v lost, line.isOpen = false ∧ codec.encodeParams req.parameters = some json ∧
        line.call = .delivered v lost ∧
        grpcQuery codec line req =
          (grpcAnswer lost (grpcServerQuery codec.decodeParams v (grpcRequest req json)).1,
            (grpcServerQuery codec.decodeParams v (grpcRequest req json)).2) := by
  unfold grpcQuery
  split
  next hopen =>
    refine .inl ⟨_, rfl, fun ⟨_, _, _, h, _⟩ => ?_⟩
    simp [h] at hopen
  next hopen =>
    split
    next hencode =>
      refine .inl ⟨_, rfl, fun ⟨_, _, _, _, h, _⟩ => ?_⟩
      cases hencode.symm.trans h
    next json hencode =>
      split
      next hcall =>
        refine .inl ⟨_, rfl, fun ⟨_, _, _, _, _, h, _⟩ => ?_⟩
        cases hcall.symm.trans h
      next v lost hcall => exact .inr ⟨json, v, lost, by simpa using hopen, hencode, hcall, rfl⟩

/-- A call over HTTP fails before it is worked on, or is answered by the handler. -/
theorem httpQuery_answered (line : HttpLine) (dbType : Text) :
    (∃ e, httpQuery codec line dbType req = (.error e, []) ∧ ¬ line.Executes codec req) ∨
      ∃ v lost, (line.configured = true ∧ line.isOpen = false ∧ line.valid = true) ∧
        line.call = .delivered v lost ∧
        httpQuery codec line dbType req =
          (httpAnswer lost (handleQuery v (codec.transcode req)).1,
            (handleQuery v (codec.transcode req)).2) := by
  unfold httpQuery
  split
  next hconf =>
    refine .inl ⟨_, rfl, fun ⟨_, _, h, _⟩ => ?_⟩
    simp [h] at hconf
  next hconf =>
    split
    next hopen =>
      refine .inl ⟨_, rfl, fun ⟨_, _, _, h, _⟩ => ?_⟩
      simp [h] at hopen
    next hopen =>
      split
      next hvalid =>
        refine .inl ⟨_, rfl, fun ⟨_, _, _, _, h, _⟩ => ?_⟩
        simp [h] at hvalid
      next hvalid =>
        split
        next hcall =>
          refine .inl ⟨_, rfl, fun ⟨_, _, _, _, _, h, _⟩ => ?_⟩
          cases hcall.symm.trans h
        next v lost hcall =>
          have hline : line.configured = true ∧ line.isOpen = false ∧ line.valid = true :=
            ⟨by simpa using hconf, by simpa using hopen, by simpa using hvalid⟩
          exact .inr ⟨v, lost, hline, hcall, rfl⟩

theorem httpQuery_executed (line : HttpLine) (dbType : Text) :
    (line.Executes codec req ∧ ∃ q, (httpQuery codec line dbType req).2 = [q]) ∨
      (¬ line.Executes codec req ∧ (httpQuery codec line dbType req).2 = []) := by
  rcases httpQuery_answered codec req line dbType with
    ⟨e, heq, hno⟩ | ⟨v, lost, ⟨hconf, hopen, hvalid⟩, hcall, heq⟩
  · exact .inr ⟨hno, by rw [heq]⟩
  rw [heq]
  by_cases hexec : HttpExecutes v (codec.transcode req)
  · exact .inl ⟨⟨v, lost, hconf, hopen, hvalid, hcall, hexec⟩, handleQuery_of_executes hexec⟩
  · refine .inr ⟨fun ⟨_, _, _, _, _, h, h'⟩ => ?_, handleQuery_of_not_executes hexec⟩
    cases hcall.symm.trans h
    exact hexec h'

theorem httpQuery_executed_le (line : HttpLine) (dbType : Text) :
    (httpQuery codec line dbType req).2.length ≤ 1 := by
  rcases httpQuery_executed codec req line dbType with ⟨-, q, hq⟩ | ⟨-, hq⟩
  · rw [hq, List.length_singleton]
  · rw [hq]
    exact Nat.zero_le 1

/-- A gRPC call executes nothing, or executes and loses its reply, or executes
and has a reply that does not ask for HTTP. -/
theorem grpcQuery_cases (line : GrpcLine) :
    (¬ line.LosesExecuted codec req ∧ (grpcQuery codec line req).2 = []) ∨
      (line.LosesExecuted codec req ∧
        ∃ q err, grpcQuery codec line req = (.error (grpcCallFailed err), [q])) ∨
      (¬ line.LosesExecuted codec req ∧ (∃ q, (grpcQuery codec line req).2 = [q]) ∧
        ∀ e, (grpcQuery codec line req).1 = .error e → e.code ≠ .connectorUnavailable) := by
  rcases grpcQuery_answered codec req line with
    ⟨e, heq, hno⟩ | ⟨json, v, lost, hopen, hencode, hcall, heq⟩
  · exact .inl ⟨hno, by rw [heq]⟩
  rw [heq]
  by_cases hexec : GrpcExecutes codec.decodeParams v (grpcRequest req json)
  · obtain ⟨bound, hserved⟩ := grpcServerQuery_of_executes hexec
    rw [hserved]
    cases lost with
    | some err => exact .inr (.inl ⟨⟨json, v, err, hopen, hencode, hcall, hexec⟩, _, _, rfl⟩)
    | none =>
        refine .inr (.inr ⟨fun ⟨_, _, _, _, _, h, _⟩ => ?_, ⟨_, rfl⟩, fun e he => ?_⟩)
        · cases hcall.symm.trans h
        · exact grpcResult_code he
  · refine .inl ⟨fun ⟨_, _, _, _, hp, h, h'⟩ => ?_, grpcServerQuery_of_not_executes hexec⟩
    cases hencode.symm.trans hp
    cases hcall.symm.trans h
    exact hexec h'

/-- The query is executed at most once, unless the connector executes it over
gRPC, loses the reply, and executes it again over HTTP. -/
theorem dualQuery_executed (lines : Lines) (dbType : Text) :
    (dualQuery codec lines dbType req).2.length ≤ 1 ↔
      ¬ ∃ line, lines.grpc = some line ∧ line.LosesExecuted codec req ∧
        lines.http.Executes codec req := by
  unfold dualQuery
  have hhttp := httpQuery_executed_le codec req lines.http dbType
  cases hgrpc : lines.grpc with
  | none => exact iff_of_true hhttp (by simp)
  | some line =>
      have hline : (∃ line', some line = some line' ∧ line'.LosesExecuted codec req ∧
          lines.http.Executes codec req) ↔
          line.LosesExecuted codec req ∧ lines.http.Executes codec req := by simp
      rw [hline]
      rcases grpcQuery_cases codec req line with ⟨hkept, hnone⟩ | ⟨hlost, q, err, hfirst⟩ |
        ⟨hkept, ⟨q, hq⟩, hcode⟩
      · refine iff_of_true ?_ fun h => hkept h.1
        dsimp only
        split
        next _ => simp [hnone]
        next e _ =>
          split
          next _ => simp [hnone]
          next _ => simpa [hnone] using hhttp
      · dsimp only
        rw [hfirst]
        dsimp only [grpcCallFailed]
        rw [if_neg (not_not.mpr rfl)]
        rcases httpQuery_executed codec req lines.http dbType with ⟨hexec, q', hq'⟩ | ⟨hexec, hnone⟩
        · refine iff_of_false ?_ fun h => h ⟨hlost, hexec⟩
          simp [hq']
        · refine iff_of_true ?_ fun h => hexec h.2
          simp [hnone]
      · refine iff_of_true ?_ fun h => hkept h.1
        dsimp only
        split
        next _ => simp [hq]
        next e he =>
          rw [if_pos (hcode e he)]
          simp [hq]

end Executions

end DDAG.Gateway
