import DDAG.Gateway.Dispatch

/-!
# When a query falls back to HTTP

`DualTransportClient.Query` once more, with the codes of errors as the texts they are on
the wire, where any text may stand, and with a record of whether HTTP was called.
`dualDispatch_dualQuery` says that this is `dualQuery` with its codes written out.

The client means to fall back only when the transport fails, and tells that by the code
`CONNECTOR_UNAVAILABLE`.  A connector gives the same code in its replies:
`unavailable_iff` lists the visits that make it do so.  So `response_returned_iff`: the
answer of a connector is returned, without a call over HTTP, unless it has this code.
-/

namespace DDAG.Httpx

/-- The code as it stands in an error. -/
def ErrorCode.text : ErrorCode → Text
  | .badRequest => "BAD_REQUEST".toList
  | .payloadTooLarge => "PAYLOAD_TOO_LARGE".toList
  | .unauthorized => "UNAUTHORIZED".toList
  | .forbidden => "FORBIDDEN".toList
  | .notFound => "API_NOT_FOUND".toList
  | .queryTimeout => "QUERY_TIMEOUT".toList
  | .conflict => "CONFLICT".toList
  | .rateLimited => "RATE_LIMITED".toList
  | .internal => "INTERNAL_ERROR".toList
  | .connectorError => "CONNECTOR_ERROR".toList
  | .sourceDBUnavailable => "SOURCE_DB_UNAVAILABLE".toList
  | .validation => "VALIDATION_ERROR".toList
  | .connectorUnavailable => "CONNECTOR_UNAVAILABLE".toList
  | .dbPoolExhausted => "DB_POOL_EXHAUSTED".toList
  | .dbConnectTimeout => "DB_CONNECT_TIMEOUT".toList
  | .dbQueryTimeout => "DB_QUERY_TIMEOUT".toList
  | .circuitBreakerOpen => "CIRCUIT_BREAKER_OPEN".toList
  | .backpressureLimit => "BACKPRESSURE_LIMIT".toList
  | .queryValidationFailed => "QUERY_VALIDATION_FAILED".toList
  | .scopeForbidden => "SCOPE_FORBIDDEN".toList

theorem ErrorCode.text_ne_nil (c : ErrorCode) : c.text ≠ [] := by
  cases c <;> decide +kernel

theorem ErrorCode.text_eq_unavailable_iff {c : ErrorCode} :
    c.text = ErrorCode.text .connectorUnavailable ↔ c = .connectorUnavailable := by
  cases c <;> decide +kernel

end DDAG.Httpx

namespace DDAG.Gateway

open Httpx Connector

/-! ## Responses -/

/-- A code and a message: `ErrorDetail` of a response, and `APIError` of a client. -/
structure ErrorDetail where
  code : Text
  message : Text
deriving DecidableEq

/-- `connectorv1.QueryResponse`. -/
structure QueryResponse where
  success : Bool
  durationMS : Int := 0
  rowCount : Int := 0
  circuitState : Text := []
  rows : Text := []
  error : Option ErrorDetail := none
deriving DecidableEq

def detail (e : APIError) : ErrorDetail := ⟨e.code.text, e.message⟩

def responseFor (r : Reply) : QueryResponse :=
  { success := r.success, durationMS := r.durationMS, rowCount := r.rowCount
    circuitState := r.circuitState, rows := r.rows, error := r.error.map detail }

/-- What `grpcConnectorClient.Query` derives from a response. -/
def responseResult (res : QueryResponse) : Except ErrorDetail ConnectorResponse :=
  if !res.success then
    match res.error with
    | some e =>
        if e.code ≠ [] then .error e
        else .error (detail (newError .connectorError "connector error"))
    | none => .error (detail (newError .connectorError "connector error"))
  else
    .ok { durationMS := res.durationMS, rowCount := res.rowCount, circuitState := res.circuitState
          rows := res.rows }

/-- The response is a failure with the code of an unavailable connector. -/
def QueryResponse.unavailable (res : QueryResponse) : Bool :=
  !res.success && (res.error.map ErrorDetail.code == some (ErrorCode.text .connectorUnavailable))

/-! ## The dispatcher -/

/-- How far a call of the gRPC client comes. -/
inductive GrpcCall where
  /-- The client remembers the circuit as open. -/
  | circuitOpen
  | notMarshalled
  | failed (err : Text)
  | responded (res : QueryResponse)
deriving DecidableEq

/-- `grpcConnectorClient.Query`. -/
def GrpcCall.result : GrpcCall → Except ErrorDetail ConnectorResponse
  | .circuitOpen => .error (detail Gateway.circuitOpen)
  | .notMarshalled => .error (detail (newError .internal "failed to marshal query parameters"))
  | .failed err => .error (detail (grpcCallFailed err))
  | .responded res => responseResult res

/-- What the dispatcher returns, and whether it called the connector over HTTP. -/
structure Dispatched where
  result : Except ErrorDetail ConnectorResponse
  calledHttp : Bool

/-- `DualTransportClient.Query`, with the call of the gRPC client, where one is configured,
and the result the HTTP client gives if it is called. -/
def dualDispatch (grpc : Option GrpcCall) (http : Except ErrorDetail ConnectorResponse) : Dispatched :=
  match grpc with
  | none => ⟨http, true⟩
  | some call =>
      match call.result with
      | .ok response => ⟨.ok response, false⟩
      | .error e =>
          if e.code ≠ ErrorCode.text .connectorUnavailable then ⟨.error e, false⟩ else ⟨http, true⟩

/-- A response gives the error that asks for HTTP exactly if it has the code itself: the
error made for a response without a code is another one. -/
theorem responseResult_code_iff (res : QueryResponse) :
    (∃ e, responseResult res = .error e ∧ e.code = ErrorCode.text .connectorUnavailable) ↔
      res.unavailable = true := by
  have hother : ErrorCode.text .connectorError ≠ ErrorCode.text .connectorUnavailable :=
    mt ErrorCode.text_eq_unavailable_iff.1 nofun
  unfold responseResult QueryResponse.unavailable
  cases res.success with
  | true => simp
  | false =>
      cases res.error with
      | none => simpa [detail, newError] using hother
      | some e =>
          by_cases hcode : e.code = []
          · simp [hcode, detail, newError, hother, ErrorCode.text_ne_nil]
          · simp [hcode]

/-- The answer of a connector is returned, and HTTP is not called, exactly if it is not a
failure with the code of an unavailable connector. -/
theorem response_returned_iff (res : QueryResponse) (http : Except ErrorDetail ConnectorResponse) :
    dualDispatch (some (.responded res)) http = ⟨responseResult res, false⟩ ↔
      res.unavailable = false := by
  have hcode := responseResult_code_iff res
  rw [← Bool.not_eq_true, ← hcode]
  show (match responseResult res with
    | .ok response => Dispatched.mk (.ok response) false
    | .error e =>
        if e.code ≠ ErrorCode.text .connectorUnavailable then ⟨.error e, false⟩ else ⟨http, true⟩) =
      ⟨responseResult res, false⟩ ↔ _
  cases responseResult res with
  | ok response => simp
  | error e =>
      by_cases he : e.code = ErrorCode.text .connectorUnavailable
      · simp [he]
      · simp [he]

/-! ## The dispatcher with closed codes -/

section Codes

variable {J : Type*} (codec : Codec J) (req : ConnectorRequest)

/-- A result with the code of its error written out. -/
def written (r : Except APIError ConnectorResponse) : Except ErrorDetail ConnectorResponse :=
  r.mapError detail

/-- What comes back of a call that was worked on. -/
def grpcCallOf (lost : Option Text) (served : Except Text Reply) : GrpcCall :=
  match lost, served with
  | some err, _ => .failed err
  | none, .error err => .failed err
  | none, .ok r => .responded (responseFor r)

/-- How far the call of a line comes. -/
def GrpcLine.grpcCall (line : GrpcLine) : GrpcCall :=
  if line.isOpen then .circuitOpen
  else
    match codec.encodeParams req.parameters with
    | none => .notMarshalled
    | some params =>
        match line.call with
        | .refused err => .failed err
        | .delivered visit lost =>
            grpcCallOf lost (grpcServerQuery codec.decodeParams visit (grpcRequest req params)).1

theorem responseResult_responseFor (r : Reply) :
    responseResult (responseFor r) = written (grpcResult r) := by
  unfold responseResult responseFor grpcResult replyError
  cases r.success with
  | true => rfl
  | false =>
      cases r.error with
      | none => rfl
      | some e => simp [written, detail, e.code.text_ne_nil, Except.mapError]

theorem grpcCall_result (line : GrpcLine) :
    (line.grpcCall codec req).result = written (grpcQuery codec line req).1 := by
  unfold GrpcLine.grpcCall grpcQuery
  cases line.isOpen with
  | true => rfl
  | false =>
      cases codec.encodeParams req.parameters with
      | none => rfl
      | some params =>
          cases line.call with
          | refused err => rfl
          | delivered visit lost =>
              dsimp only
              obtain ⟨served, executed⟩ :=
                grpcServerQuery codec.decodeParams visit (grpcRequest req params)
              cases lost with
              | some err => rfl
              | none =>
                  cases served with
                  | error err => rfl
                  | ok r => exact responseResult_responseFor r

/-- The dispatcher returns what `dualQuery` returns, and what it executes without a call
over HTTP it executes over gRPC. -/
theorem dualDispatch_dualQuery (lines : Lines) (dbType : Text) (line : GrpcLine)
    (hline : lines.grpc = some line) :
    let out := dualDispatch (some (line.grpcCall codec req))
      (written (httpQuery codec lines.http dbType req).1)
    out.result = written (dualQuery codec lines dbType req).1 ∧
      (out.calledHttp = false → (dualQuery codec lines dbType req).2 = (grpcQuery codec line req).2) := by
  unfold dualDispatch dualQuery
  rw [hline]
  dsimp only
  rw [grpcCall_result]
  obtain ⟨first, executed⟩ := grpcQuery codec line req
  cases first with
  | ok response => exact ⟨rfl, fun _ => rfl⟩
  | error e =>
      by_cases hcode : e.code = .connectorUnavailable
      · simp [written, detail, Except.mapError, hcode]
      · have htext : e.code.text ≠ ErrorCode.text .connectorUnavailable :=
          mt ErrorCode.text_eq_unavailable_iff.1 hcode
        simp [written, detail, Except.mapError, hcode, htext]

end Codes

/-! ## Which answers of a connector fall back -/

section Visits

variable {J : Type*} {decodeParams : J → Option (Table Value)}

/-- The connection is disabled, or its pool fails in a way that is neither a timeout nor a
full pool. -/
def shut (v : Visit) : Bool :=
  match v.resolution with
  | .found true false => true
  | .found true true =>
      v.allowed && v.admitted && v.pool.any fun err => (classifyPoolErr err).1 == .connectorUnavailable
  | _ => false

theorem refusal_code_iff (v : Visit) (otherType : Text) :
    (∃ f, refusal v otherType = some f ∧ f.error.code = .connectorUnavailable) ↔ shut v = true := by
  unfold refusal shut
  cases v.resolution with
  | invalid => simp [newError]
  | notFound => simp [newError]
  | failed => simp [newError]
  | found sameType active =>
      -- One check after another, as the handlers make them.
      cases sameType with
      | false => simp
      | true =>
          cases active with
          | false => simp [newError]
          | true =>
              cases v.allowed with
              | false => simp [newError]
              | true =>
                  cases v.admitted with
                  | false => simp [newError]
                  | true =>
                      cases v.pool with
                      | none => simp
                      | some err => simp [newError]

theorem responseFor_unavailable_iff (r : Reply) :
    (responseFor r).unavailable = true ↔
      r.success = false ∧ ∃ e, r.error = some e ∧ e.code = .connectorUnavailable := by
  unfold QueryResponse.unavailable responseFor
  cases r.error with
  | none => simp
  | some e => simp [detail, ErrorCode.text_eq_unavailable_iff]

/-- The visits whose reply has the code of an unavailable connector. -/
theorem unavailable_iff (v : Visit) (m : GrpcRequest J) (r : Reply)
    (hserved : (grpcServerQuery decodeParams v m).1 = .ok r) :
    (responseFor r).unavailable = true ↔ shut v = true := by
  rw [responseFor_unavailable_iff, ← refusal_code_iff v "connection type mismatch".toList]
  unfold grpcServerQuery at hserved
  split at hserved
  next _ => cases hserved
  next _ =>
    cases hrefusal : refusal v "connection type mismatch".toList with
    | some f =>
        rw [hrefusal] at hserved
        cases hserved
        simp [Failure.reply]
    | none =>
        rw [hrefusal] at hserved
        -- Past the pool no reply has the code.
        refine iff_of_false ?_ (by simp)
        rintro ⟨_, e, herror, hcode⟩
        dsimp only at hserved
        split at hserved
        next _ =>
          cases hserved
          cases herror
          cases hcode
        next params _ =>
          cases hserved
          exact grpcReply_code herror hcode

end Visits

/-! ## A disabled connection -/

def disabledVisit : Visit :=
  { dbType := "postgresql".toList, resolution := .found true false
    query := .rows ⟨1, 0, some "[]".toList⟩ }

def anyMessage : GrpcRequest Unit :=
  { requestID := [], connectionID := [], queryTemplate := [], parametersJson := ()
    timeoutMS := 0, limit := 0, offset := 0 }

/-- The connector answers over gRPC that the connection is disabled.  The query is sent
again over HTTP, and the answer that comes from there is returned. -/
theorem disabled_connection_falls_back :
    ∃ r, (grpcServerQuery (fun _ => some fun _ => none) disabledVisit anyMessage).1 = .ok r ∧
      responseResult (responseFor r) =
        .error ⟨"CONNECTOR_UNAVAILABLE".toList, "connection is disabled".toList⟩ ∧
      dualDispatch (some (.responded (responseFor r))) (.ok ⟨1, 0, "closed".toList, "[]".toList⟩) =
        ⟨.ok ⟨1, 0, "closed".toList, "[]".toList⟩, true⟩ :=
  ⟨_, rfl, rfl, rfl⟩

end DDAG.Gateway
