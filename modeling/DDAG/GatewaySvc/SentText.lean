import DDAG.GatewaySvc.Paging
import DDAG.Gateway.Transports
import DDAG.Connectors.Pagination

/-!
# The statement of a write

The gateway computes a limit for every request, whatever its operation, and the
connectors append a clause for every limit of at least one.  So a statement that
writes is sent with a clause behind it.

`write_sent_as_bound_iff` says when it is not: when its limit went over gRPC and
the conversion to 32 bits made it zero or negative.
-/

namespace DDAG.GatewaySvc

open Models Gateway Connector Fallible
open Connectors (statement applyPagination applyPagination_unchanged_iff placeholderForDialect)

/-! ## What the connector executes -/

/-- A query is executed as one of the transports carries it. -/
theorem mem_dualQuery {J : Type*} {codec : Codec J} {lines : Lines} {dbType : Text}
    {req : ConnectorRequest} {r : QueryRequest} (h : r ∈ (dualQuery codec lines dbType req).2) :
    (∃ line, r ∈ (grpcQuery codec line req).2) ∨ r ∈ (httpQuery codec lines.http dbType req).2 := by
  unfold dualQuery at h
  split at h
  next _ => exact .inr h
  next line _ =>
    dsimp only at h
    split at h
    next _ => exact .inl ⟨line, h⟩
    next e _ =>
      split at h
      next _ => exact .inl ⟨line, h⟩
      next _ =>
        rcases List.mem_append.mp h with hfirst | hsecond
        · exact .inl ⟨line, hfirst⟩
        · exact .inr hsecond

section Load

variable {marshals : Table Value → Bool}

/-- The limit of an executed query is the limit of its load, or that limit as an
`int32`. -/
theorem load_limit {api : APIDefinition} {acquired : Bool} {lines : Lines} {a : LoadArgs}
    {r : QueryRequest} (h : r ∈ (load (jsonCodec marshals) api acquired lines a).2) :
    r.limit = a.limit ∨ r.limit = int32 a.limit := by
  unfold load at h
  split at h
  next _ => cases h
  next id _ =>
    split at h
    next _ => cases h
    next _ =>
      rcases mem_dualQuery h with ⟨line, hgrpc⟩ | hhttp
      · rw [(grpcExecuted_of_mem hgrpc).2]
        exact .inr rfl
      · rw [httpExecuted_of_mem hhttp]
        exact .inl rfl

end Load

/-! ## Writes -/

/-- The database is sent the text of the bound template. -/
def SentAsBound (dbType : Text) (r : QueryRequest) : Prop :=
  ∀ sql args, Connectors.bind r.queryTemplate r.parameters (placeholderForDialect (.ofText dbType)) =
    some (.ok (sql, args)) → ∃ args', statement dbType r = some (.ok (sql, args'))

/-- A template that binds is sent as it was bound exactly without a limit. -/
theorem sentAsBound_iff {dbType : Text} (hd : Connectors.Supported dbType) {r : QueryRequest} {sql : Text}
    {args : List Value}
    (hbind : Connectors.bind r.queryTemplate r.parameters (placeholderForDialect (.ofText dbType)) =
      some (.ok (sql, args))) :
    SentAsBound dbType r ↔ r.limit ≤ 0 := by
  have hsent : statement dbType r =
      some (.ok (applyPagination sql args dbType r.limit r.offset)) := by
    rw [statement, hbind]
    rfl
  have hsame : (applyPagination sql args dbType r.limit r.offset).1 = sql ↔ r.limit ≤ 0 :=
    applyPagination_unchanged_iff hd
  rw [← hsame]
  generalize applyPagination sql args dbType r.limit r.offset = sent at hsent
  constructor
  · intro h
    obtain ⟨args', hstatement⟩ := h sql args hbind
    rw [hsent] at hstatement
    cases hstatement
    rfl
  · rintro rfl sql' args' hbind'
    cases hbind.symm.trans hbind'
    exact ⟨sent.2, hsent⟩

section Respond

variable {δ : Type*} [DecidableEq δ] {json : PayloadCodec} {codec : Codec (Table Value)}
  {digest : Table Value × Option Text → δ} {lib : Library} {cfg : GatewayConfig} {q : DataRequest}
  {t : Turn} {cache : ResponseCache δ} {r : QueryRequest}

/-- What is executed for an operation that is no read is its load. -/
theorem mem_executed (hop : q.api.operationType.isCacheable = false)
    (h : r ∈ (respond json codec digest lib cfg q t cache).executed) :
    ∃ p, prepare lib cfg q.api q.declared q.inputs = .ok p ∧
      r ∈ (load codec q.api t.acquired t.lines (q.loadArgs p)).2 := by
  unfold respond at h
  split at h
  next _ => cases h
  next p hprepare =>
    refine ⟨p, hprepare, ?_⟩
    unfold respondPrepared at h
    split at h
    next _ => rwa [dispatch_of_not_cacheable json codec digest hop] at h
    next b _ =>
      split at h
      next _ => cases h
      next _ => rwa [dispatch_of_not_cacheable json codec digest hop] at h

end Respond

/-- For every request to an API whose operation writes, every way its calls go and every
query that is executed for it: the database is sent the text of the bound template exactly
if the limit of the request arrives as an `int32` that is not positive. -/
theorem write_sent_as_bound_iff {δ : Type*} [DecidableEq δ] {json : PayloadCodec}
    {marshals : Table Value → Bool} {digest : Table Value × Option Text → δ} {lib : Library}
    {cfg : GatewayConfig} {q : DataRequest} {t : Turn} {cache : ResponseCache δ} {r : QueryRequest}
    (hop : q.api.operationType.isWriteOperation = true)
    (hr : r ∈ (respond json (jsonCodec marshals) digest lib cfg q t cache).executed)
    {dbType : Text} (hd : Connectors.Supported dbType) {sql : Text} {args : List Value}
    (hbind : Connectors.bind r.queryTemplate r.parameters (placeholderForDialect (.ofText dbType)) =
      some (.ok (sql, args))) :
    SentAsBound dbType r ↔
      r.limit = int32 (effectiveLimit cfg q.inputs.query q.api) ∧ r.limit ≤ 0 := by
  have hread : q.api.operationType.isCacheable = false := by
    cases hcase : q.api.operationType with
    | read =>
        rw [hcase] at hop
        cases hop
    | create => rfl
    | update => rfl
    | delete => rfl
    | unknown => rfl
  obtain ⟨p, hprepare, hload⟩ := mem_executed hread hr
  have hlimit : (q.loadArgs p).limit = effectiveLimit cfg q.inputs.query q.api := by
    rw [DataRequest.loadArgs, prepare_page hprepare, pagination_limit]
  have hpos := one_le_effectiveLimit cfg q.inputs.query q.api
  rw [sentAsBound_iff hd hbind]
  refine ⟨fun h => ⟨?_, h⟩, fun h => h.2⟩
  rcases load_limit hload with hplain | hwrapped
  · rw [hplain, hlimit] at h
    omega
  · rw [hwrapped, hlimit]

def publishedInsert : APIDefinition := { insertAPI with defaultLimit := 100 }

/-- A request to it, with the query string `limit=` and a number. -/
def insertRequest (limit : String) : DataRequest where
  apiID := 7
  api := publishedInsert
  declared := []
  rule := none
  clientID := "app".toList
  requestID := "r".toList
  inputs :=
    { pathParams := fun _ => none
      query := { entries := [("limit".toList, [limit.toList])], nodup := List.nodup_singleton _ }
      body := fun _ => none }

def insertExecuted (limit : String) (lines : Lines) : List QueryRequest :=
  (respond rowCodec (jsonCodec fun _ => true) (fun _ => ()) noLibrary { defaultLimit := 100, maxLimit := 0 }
    (insertRequest limit) { lines := lines } fun _ => none).executed

/-- The connector is called over HTTP only, or over gRPC only. -/
def httpOnly : Lines := { grpc := none, http := { call := .delivered inserting none } }

@[inherit_doc httpOnly]
def grpcOnly : Lines :=
  { grpc := some { call := .delivered inserting none }, http := { call := .refused [] } }

def Binds (dbType : Text) (r : QueryRequest) : Bool :=
  (Connectors.bind r.queryTemplate r.parameters (placeholderForDialect (.ofText dbType))).any
    Except.isOk

theorem exists_binding {dbType : Text} {r : QueryRequest} (h : Binds dbType r = true) :
    ∃ sql args, Connectors.bind r.queryTemplate r.parameters (placeholderForDialect (.ofText dbType)) =
      some (.ok (sql, args)) := by
  unfold Binds at h
  cases hbind : Connectors.bind r.queryTemplate r.parameters (placeholderForDialect (.ofText dbType)) with
  | none =>
      rw [hbind] at h
      cases h
  | some b =>
      cases b with
      | error e =>
          rw [hbind] at h
          cases h
      | ok s => exact ⟨s.1, s.2, rfl⟩

/-- An insert is sent with a limit behind it. -/
theorem insert_is_limited :
    publishedInsert.operationType.isWriteOperation = true ∧
      (validateForPublish (fun _ => none) id publishedInsert []).run = some (.ok ()) ∧
      (insertExecuted "10" httpOnly).map (fun r => (statement "postgres".toList r).bind fun b =>
          b.toOption.map fun s => String.ofList s.1) =
        [some "INSERT INTO t VALUES (1) LIMIT $1 OFFSET $2"] ∧
      ∀ r ∈ insertExecuted "10" httpOnly, ¬SentAsBound "postgres".toList r := by
  refine ⟨by decide +kernel, by decide +kernel, by decide +kernel, fun r hr hsent => ?_⟩
  have hlimited : ∀ r ∈ insertExecuted "10" httpOnly, Binds "postgres".toList r = true ∧ r.limit = 10 := by
    decide +kernel
  obtain ⟨hbinds, hlimit⟩ := hlimited r hr
  obtain ⟨sql, args, hbind⟩ := exists_binding hbinds
  have hnone := (sentAsBound_iff (by decide +kernel) hbind).mp hsent
  omega

/-- A limit that is too large for gRPC is negative, and nothing is appended. -/
theorem large_limit_is_dropped :
    (insertExecuted "2147483648" grpcOnly).length = 1 ∧
      ∀ r ∈ insertExecuted "2147483648" grpcOnly, SentAsBound "postgres".toList r := by
  refine ⟨by decide +kernel, fun r hr => ?_⟩
  have hwraps : ∀ r ∈ insertExecuted "2147483648" grpcOnly,
      Binds "postgres".toList r = true ∧ r.limit = -2147483648 := by
    decide +kernel
  obtain ⟨hbinds, hlimit⟩ := hwraps r hr
  obtain ⟨sql, args, hbind⟩ := exists_binding hbinds
  refine (write_sent_as_bound_iff (by decide +kernel) hr (by decide +kernel) hbind).mpr ⟨?_, by omega⟩
  rw [hlimit]
  decide +kernel

end DDAG.GatewaySvc
