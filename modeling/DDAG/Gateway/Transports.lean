import DDAG.Gateway.Dispatch
import DDAG.Lib.Float64

/-!
# The two transports

A request goes to the connector as a message of the RPC, with its parameters as
embedded JSON, or as the body of an HTTP request.  The message has fields of 32
bits where the body has integers of 64.

`transports_agree_iff` says when both ways run the same query and report the same
number of rows: when the integers of the request and the number of rows fit into 32
bits.
-/

namespace DDAG.Gateway

open Models Httpx Connector

/-! ## JSON -/

/-- What a parameter becomes when it is written as JSON and read into an `any`: an
integer becomes the nearest floating-point number.  A floating-point number is
written so that it reads back as itself. -/
def reread : Value → Value
  | .int n => .number (Float64.ofRat n)
  | v => v

/-- The parameters a connector reads. -/
def received (ps : Table Value) : Table Value := fun name => (ps name).map reread

/-- `encoding/json`, with the parameters that have JSON: those without a
floating-point number that is infinite or not a number.  The JSON of parameters is
represented by the parameters it was written from. -/
def jsonCodec (marshals : Table Value → Bool) : Codec (Table Value) where
  encodeParams ps := if marshals ps then some ps else none
  decodeParams json := some (received json)
  transcode req :=
    if marshals req.parameters then
      some
        { requestID := req.requestID, connectionID := req.connectionID
          queryTemplate := req.queryTemplate, parameters := received req.parameters
          timeoutMS := req.timeoutMS, limit := req.limit, offset := req.offset }
    else none

/-! ## Agreement -/

/-- The integer is an `int32`. -/
def Fits (n : Int) : Prop := -2 ^ 31 ≤ n ∧ n < 2 ^ 31

theorem int32_eq_iff {n : Int} : int32 n = n ↔ Fits n := by
  unfold int32 Fits
  rw [Int.bmod_def]
  split <;> omega

/-- Whatever becomes of the calls: a query that is executed over gRPC is the one
that is executed over HTTP, and the responses to a result with `rowCount` rows have
the same number of rows. -/
structure TransportsAgree {J : Type*} (codec : Codec J) (req : ConnectorRequest) (rowCount : Int) :
    Prop where
  query : ∀ {grpc http dbType q q'}, q ∈ (grpcQuery codec grpc req).2 →
    q' ∈ (httpQuery codec http dbType req).2 → q = q'
  rows : ∀ {grpc : GrpcLine} {http : HttpLine} {v v' : Visit} {lost lost' dbType r r' a a'},
    grpc.call = .delivered v lost → v.query = .rows r → r.rowCount = rowCount →
    http.call = .delivered v' lost' → v'.query = .rows r' → r'.rowCount = rowCount →
    (grpcQuery codec grpc req).1 = .ok a → (httpQuery codec http dbType req).1 = .ok a' →
    a.rowCount = a'.rowCount

section Clients

variable {J : Type*} {codec : Codec J} {req : ConnectorRequest}

/-- The query that is executed over gRPC is that of the message. -/
theorem mem_grpcQuery {line : GrpcLine} {q : QueryRequest} (h : q ∈ (grpcQuery codec line req).2) :
    ∃ json params, codec.encodeParams req.parameters = some json ∧
      codec.decodeParams json = some params ∧ q = (grpcRequest req json).query params := by
  rcases grpcQuery_answered codec req line with ⟨e, heq, -⟩ | ⟨json, v, lost, -, hencode, -, heq⟩
  · rw [heq] at h
    cases h
  · rw [heq] at h
    rcases grpcServerQuery_cases codec.decodeParams v (grpcRequest req json) with
      ⟨-, r, hserved, -⟩ | ⟨params, -, hdecode, hserved⟩
    · rw [hserved] at h
      cases h
    · rw [hserved] at h
      exact ⟨json, params, hencode, hdecode, mem_runQuery h⟩

/-- The query that is executed over HTTP is that of the body. -/
theorem mem_httpQuery {line : HttpLine} {dbType : Text} {q : QueryRequest}
    (h : q ∈ (httpQuery codec line dbType req).2) :
    ∃ body, codec.transcode req = some body ∧ q = body.toQueryRequest := by
  rcases httpQuery_answered codec req line dbType with ⟨e, heq, -⟩ | ⟨v, lost, -, -, heq⟩
  · rw [heq] at h
    cases h
  · rw [heq] at h
    rcases handleQuery_cases v (codec.transcode req) with
      ⟨-, f, hserved⟩ | ⟨body, -, -, hbody, hserved⟩
    · rw [hserved] at h
      cases h
    · rw [hserved] at h
      exact ⟨body, hbody, mem_runQuery h⟩

theorem grpcAnswer_ok {lost : Option Text} {served : Except Text Reply} {a : ConnectorResponse}
    (h : grpcAnswer lost served = .ok a) :
    ∃ r, served = .ok r ∧ r.success = true ∧ a = responseOf r := by
  unfold grpcAnswer at h
  split at h
  next _ => cases h
  next _ => cases h
  next r =>
    unfold grpcResult at h
    split at h
    next _ => cases h
    next hok =>
      cases h
      exact ⟨r, rfl, by simpa using hok, rfl⟩

theorem httpAnswer_ok {lost : Option Text} {served : Nat × Option Reply} {a : ConnectorResponse}
    (h : httpAnswer lost served = .ok a) :
    ∃ status r, served = (status, some r) ∧ r.success = true ∧ a = responseOf r := by
  unfold httpAnswer at h
  split at h
  next _ => cases h
  next _ => cases h
  next status r =>
    unfold httpResult at h
    split at h
    next _ => cases h
    next _ =>
      split at h
      next _ => cases h
      next hok =>
        cases h
        rw [not_or, Bool.not_eq_false] at hok
        exact ⟨status, r, rfl, hok.2, rfl⟩

/-- A response over gRPC has the rows of the result, as an `int32`. -/
theorem grpcQuery_rowCount {line : GrpcLine} {v : Visit} {lost : Option Text} {res : QueryResult}
    {a : ConnectorResponse} (hcall : line.call = .delivered v lost) (hres : v.query = .rows res)
    (h : (grpcQuery codec line req).1 = .ok a) : a.rowCount = int32 res.rowCount := by
  rcases grpcQuery_answered codec req line with ⟨e, heq, -⟩ | ⟨json, v', lost', -, -, hcall', heq⟩
  · rw [heq] at h
    cases h
  cases hcall.symm.trans hcall'
  rw [heq] at h
  obtain ⟨r, hserved, hr, rfl⟩ := grpcAnswer_ok h
  rcases grpcServerQuery_cases codec.decodeParams v (grpcRequest req json) with
    ⟨-, r', hrefused, hfalse⟩ | ⟨params, -, -, hran⟩
  · rw [hrefused] at hserved
    rw [hfalse r hserved] at hr
    cases hr
  · rw [hran, runQuery_rows hres] at hserved
    cases hserved
    exact grpcReply_rowCount hr

/-- A response over HTTP has the rows of the result. -/
theorem httpQuery_rowCount {line : HttpLine} {dbType : Text} {v : Visit} {lost : Option Text}
    {res : QueryResult} {a : ConnectorResponse} (hcall : line.call = .delivered v lost)
    (hres : v.query = .rows res) (h : (httpQuery codec line dbType req).1 = .ok a) :
    a.rowCount = res.rowCount := by
  rcases httpQuery_answered codec req line dbType with ⟨e, heq, -⟩ | ⟨v', lost', -, hcall', heq⟩
  · rw [heq] at h
    cases h
  cases hcall.symm.trans hcall'
  rw [heq] at h
  obtain ⟨status, r, hserved, hr, rfl⟩ := httpAnswer_ok h
  rcases handleQuery_cases v (codec.transcode req) with ⟨-, f, hrefused⟩ | ⟨body, -, -, -, hran⟩
  · rw [hrefused] at hserved
    cases hserved
    cases hr
  · rw [hran, runQuery_rows hres] at hserved
    exact httpReply_rowCount hserved

end Clients

/-- The integers of a request and of its result fit into the messages. -/
structure FitsMessages (req : ConnectorRequest) (rowCount : Int) : Prop where
  timeoutMS : Fits req.timeoutMS
  limit : Fits req.limit
  offset : Fits req.offset
  rowCount : Fits rowCount

def answering (rowCount : Int) : Visit :=
  { dbType := [], query := .rows { durationMS := 0, rowCount := rowCount, rows := some [] } }

section Json

variable {marshals : Table Value → Bool} {req : ConnectorRequest}

/-- The query of a request that is executed over gRPC. -/
def grpcExecuted (req : ConnectorRequest) : QueryRequest :=
  (grpcRequest req req.parameters).query (received req.parameters)

/-- The query of a request that is executed over HTTP. -/
def httpExecuted (req : ConnectorRequest) : QueryRequest :=
  { requestID := req.requestID, queryTemplate := req.queryTemplate
    parameters := received req.parameters, timeoutMS := req.timeoutMS, limit := req.limit
    offset := req.offset }

theorem grpcExecuted_of_mem {line : GrpcLine} {q : QueryRequest}
    (h : q ∈ (grpcQuery (jsonCodec marshals) line req).2) :
    marshals req.parameters = true ∧ q = grpcExecuted req := by
  obtain ⟨json, params, hencode, hdecode, rfl⟩ := mem_grpcQuery h
  simp only [jsonCodec] at hencode hdecode
  split at hencode
  next hm =>
    cases hencode
    cases hdecode
    exact ⟨hm, rfl⟩
  next _ => cases hencode

theorem httpExecuted_of_mem {line : HttpLine} {dbType : Text} {q : QueryRequest}
    (h : q ∈ (httpQuery (jsonCodec marshals) line dbType req).2) : q = httpExecuted req := by
  obtain ⟨body, hbody, rfl⟩ := mem_httpQuery h
  simp only [jsonCodec] at hbody
  split at hbody
  next _ =>
    cases hbody
    rfl
  next _ => cases hbody

theorem executed_eq_iff :
    grpcExecuted req = httpExecuted req ↔ Fits req.timeoutMS ∧ Fits req.limit ∧ Fits req.offset := by
  simp only [grpcExecuted, httpExecuted, GrpcRequest.query, grpcRequest, QueryRequest.mk.injEq,
    true_and, int32_eq_iff]

/-- Both ways answer a request that has JSON. -/
theorem grpcQuery_answering (hm : marshals req.parameters = true) (rowCount : Int) :
    grpcQuery (jsonCodec marshals) { call := .delivered (answering rowCount) none } req =
      (.ok { durationMS := 0, rowCount := int32 rowCount, circuitState := "closed".toList, rows := [] },
        [grpcExecuted req]) := by
  simp only [grpcQuery, jsonCodec, hm, ↓reduceIte]
  rfl

theorem httpQuery_answering (hm : marshals req.parameters = true) (rowCount : Int) :
    httpQuery (jsonCodec marshals) { call := .delivered (answering rowCount) none } [] req =
      (.ok { durationMS := 0, rowCount := rowCount, circuitState := "closed".toList, rows := [] },
        [httpExecuted req]) := by
  simp only [httpQuery, jsonCodec, hm, ↓reduceIte]
  rfl

end Json

/-- For every request and number of rows: both transports run the same query and
report the same number of rows, exactly if the parameters have no JSON (and nothing
is run) or the integers fit into 32 bits. -/
theorem transports_agree_iff (marshals : Table Value → Bool) (req : ConnectorRequest)
    (rowCount : Int) :
    TransportsAgree (jsonCodec marshals) req rowCount ↔
      marshals req.parameters = false ∨ FitsMessages req rowCount := by
  constructor
  · intro h
    cases hm : marshals req.parameters with
    | false => exact .inl rfl
    | true =>
        -- a connector that answers both calls
        have hgrpc := grpcQuery_answering hm rowCount
        have hhttp := httpQuery_answering hm rowCount
        have hquery : grpcExecuted req = httpExecuted req :=
          h.query (by rw [hgrpc]; exact List.mem_singleton_self _)
            (by rw [hhttp]; exact List.mem_singleton_self _)
        have hrows : int32 rowCount = rowCount :=
          h.rows rfl rfl rfl rfl rfl rfl (congrArg Prod.fst hgrpc) (congrArg Prod.fst hhttp)
        obtain ⟨htimeout, hlimit, hoffset⟩ := executed_eq_iff.mp hquery
        exact .inr ⟨htimeout, hlimit, hoffset, int32_eq_iff.mp hrows⟩
  · intro h
    constructor
    · intro grpc http dbType q q' hq hq'
      obtain ⟨hm, rfl⟩ := grpcExecuted_of_mem hq
      rw [httpExecuted_of_mem hq']
      rcases h with hnone | hfits
      · rw [hm] at hnone
        cases hnone
      · exact executed_eq_iff.mpr ⟨hfits.timeoutMS, hfits.limit, hfits.offset⟩
    · intro grpc http v v' lost lost' dbType r r' a a' hcall hres hr hcall' hres' hr' ha ha'
      rw [grpcQuery_rowCount hcall hres ha, httpQuery_rowCount hcall' hres' ha', hr, hr']
      rcases h with hnone | hfits
      · -- without JSON there is no response over gRPC
        rcases grpcQuery_answered _ req grpc with ⟨e, heq, -⟩ | ⟨json, -, -, -, hencode, -, -⟩
        · rw [heq] at ha
          cases ha
        · simp [jsonCodec, hnone] at hencode
      · exact int32_eq_iff.mpr hfits.rowCount

/-- A request for the rows from `2 ^ 31` on. -/
def deepPage : ConnectorRequest :=
  { requestID := "r".toList, connectionID := idText 1, queryTemplate := "SELECT id FROM t".toList
    parameters := fun _ => none, timeoutMS := 0, limit := 100, offset := 2 ^ 31 }

/-- Over gRPC the offset of a deep page is negative. -/
theorem deep_page_wraps :
    (grpcQuery (jsonCodec fun _ => true) { call := .delivered (answering 0) none } deepPage).2.map
        QueryRequest.offset = [-2 ^ 31] ∧
      (httpQuery (jsonCodec fun _ => true) { call := .delivered (answering 0) none } [] deepPage).2.map
        QueryRequest.offset = [2 ^ 31] ∧
      ¬TransportsAgree (jsonCodec fun _ => true) deepPage 0 := by
  refine ⟨by decide +kernel, by decide +kernel, fun h => ?_⟩
  have hquery : grpcExecuted deepPage = httpExecuted deepPage :=
    h.query (by rw [grpcQuery_answering rfl 0]; exact List.mem_singleton_self _)
      (by rw [httpQuery_answering rfl 0]; exact List.mem_singleton_self _)
  have hoffset := congrArg QueryRequest.offset hquery
  revert hoffset
  decide

end DDAG.Gateway
