import DDAG.Gateway.Dispatch

/-!
# Loading a response

`resolvePayload` of `internal/gatewaysvc/service.go`: the query of a request goes
through the gateway's queue to the connector.  Cached responses are loaded
through a group of flights that shares the load of a key; operations that are not
reads never take that way.

The dispatcher is not told the operation.  `write_executed_once_iff` says when a
write is executed at most once, and `lost_reply_executes_twice` is a write that is
executed twice.
-/

namespace DDAG.GatewaySvc

open Models Httpx Gateway Connector

/-- What a load reads besides the API. -/
structure LoadArgs where
  requestID : Text
  queryTemplate : Text
  params : Table Value
  limit : Int
  offset : Int

/-- The request to the connector.  The connector's own timeout applies. -/
def LoadArgs.request (a : LoadArgs) (connection : Id) : ConnectorRequest :=
  { requestID := a.requestID, connectionID := idText connection, queryTemplate := a.queryTemplate
    parameters := a.params, timeoutMS := 0, limit := a.limit, offset := a.offset }

section Load

variable {J : Type*} (codec : Codec J)

/-- The closure `load`, with a place in the queue or not. -/
def load (api : APIDefinition) (acquired : Bool) (lines : Lines) (a : LoadArgs) : Outcome :=
  match api.databaseConnectionID with
  | none => (.error (newError .internal "API has no database connection configured"), [])
  | some id =>
      if !acquired then
        (.error (newError .backpressureLimit "Too many concurrent requests. Please retry later."), [])
      else dualQuery codec lines api.connectorType (a.request id)

/-- `resolvePayload`, with `flight` for what a group of flights makes of a load. -/
def resolvePayload (flight : Outcome → Outcome) (api : APIDefinition) (cacheEnabled acquired : Bool)
    (lines : Lines) (a : LoadArgs) : Outcome :=
  let cacheEnabled := if !api.operationType.isCacheable then false else cacheEnabled
  if !cacheEnabled then load codec api acquired lines a
  else flight (load codec api acquired lines a)

/-- The connector executes the query over gRPC, loses the reply, and executes it
again over HTTP. -/
def Duplicates (api : APIDefinition) (acquired : Bool) (lines : Lines) (a : LoadArgs) : Prop :=
  ∃ id, api.databaseConnectionID = some id ∧ acquired = true ∧ ∃ line, lines.grpc = some line ∧
    line.LosesExecuted codec (a.request id) ∧ lines.http.Executes codec (a.request id)

theorem load_executed (api : APIDefinition) (acquired : Bool) (lines : Lines) (a : LoadArgs) :
    (load codec api acquired lines a).2.length ≤ 1 ↔ ¬ Duplicates codec api acquired lines a := by
  unfold load Duplicates
  cases hid : api.databaseConnectionID with
  | none => simp
  | some id =>
      cases acquired with
      | false => simp
      | true =>
          simp only [Bool.not_true, Bool.false_eq_true, ↓reduceIte, dualQuery_executed,
            Option.some.injEq, exists_eq_left', true_and]

/-- The query of an operation that is no read is executed at most once, exactly
unless a gRPC call is executed with its reply lost and the HTTP call after it is
executed too. -/
theorem write_executed_once_iff (flight : Outcome → Outcome) {api : APIDefinition}
    (hop : api.operationType ≠ .read) (cacheEnabled acquired : Bool) (lines : Lines)
    (a : LoadArgs) :
    (resolvePayload codec flight api cacheEnabled acquired lines a).2.length ≤ 1 ↔
      ¬ Duplicates codec api acquired lines a := by
  have hcache : api.operationType.isCacheable = false := decide_eq_false hop
  have hload : resolvePayload codec flight api cacheEnabled acquired lines a =
      load codec api acquired lines a := by
    simp [resolvePayload, hcache]
  rw [hload]
  exact load_executed codec api acquired lines a

end Load

/-- Parameters travel unchanged. -/
def plainCodec : Codec (Table Value) :=
  { encodeParams := some
    decodeParams := some
    transcode := fun req => some
      { requestID := req.requestID, connectionID := req.connectionID
        queryTemplate := req.queryTemplate, parameters := req.parameters
        timeoutMS := req.timeoutMS, limit := req.limit, offset := req.offset } }

def inserting : Visit :=
  { dbType := "postgres".toList, query := .rows { durationMS := 1, rowCount := 0, rows := some [] } }

def insertAPI : APIDefinition :=
  { method := "POST".toList, databaseConnectionID := some 1, connectorType := "postgres".toList
    queryTemplate := "INSERT INTO t VALUES (1)".toList, isWrite := true }

def insertArgs : LoadArgs :=
  { requestID := "r".toList, queryTemplate := "INSERT INTO t VALUES (1)".toList
    params := fun _ => none, limit := 100, offset := 0 }

/-- A write whose gRPC call never arrives is executed once, over HTTP. -/
theorem refused_call_executes_once :
    (resolvePayload plainCodec id insertAPI true true
        { grpc := some { call := .refused "connection refused".toList }
          http := { call := .delivered inserting none } } insertArgs).2.length ≤ 1 := by
  refine (write_executed_once_iff plainCodec id (by decide +kernel) true true _ insertArgs).mpr ?_
  rintro ⟨_, _, _, line, hline, ⟨_, _, _, _, _, hcall, _⟩, _⟩
  cases hline
  cases hcall

/-- A write that is executed over gRPC with its reply lost at the deadline is
executed a second time over HTTP. -/
theorem lost_reply_executes_twice :
    insertAPI.operationType = .create ∧
      (resolvePayload plainCodec id insertAPI true true
        { grpc := some { call := .delivered inserting (some "deadline exceeded".toList) }
          http := { call := .delivered inserting none } } insertArgs).2.length = 2 := by
  decide +kernel

end DDAG.GatewaySvc
