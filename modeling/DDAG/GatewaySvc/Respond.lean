import DDAG.GatewaySvc.CacheKey
import DDAG.GatewaySvc.Load

/-!
# Answering a request

The part of `serve` in `internal/gatewaysvc/service.go` behind the policy checks: the
parameters, the lookup in the response cache, `resolvePayload` with what it stores, and
the response.

`resolvePayload` keeps operations that are no reads away from the cache, but the lookup
before it asks for the cache rule only.  `bypasses_cache_iff` says when a request for
such an operation is dispatched and nothing else: unless a rule is enabled and a
response is cached under its key.  `write_answered_from_cache` is a `POST` that is
answered with what was cached for the `GET` the API was before.
-/

namespace DDAG.GatewaySvc

open Models Httpx Gateway Connector

/-! ## Payloads -/

structure Pagination where
  page : Int
  limit : Int
  offset : Int
  total : Int
  hasNext : Bool
deriving DecidableEq

/-- `payload`. -/
structure Payload where
  data : Text
  pagination : Option Pagination
  circuitState : Text
deriving DecidableEq

/-- The JSON of rows and payloads. -/
structure PayloadCodec where
  /-- The first row of an array of rows. -/
  firstRow : Text → Option Text
  marshal : Payload → Option Text
  unmarshal : Text → Option Payload

variable (json : PayloadCodec)

def buildPayload (resp : ConnectorResponse) (isList : Bool) (page : Page) : Payload :=
  if !isList then
    { data := (json.firstRow resp.rows).getD "null".toList, pagination := none
      circuitState := resp.circuitState }
  else
    { data := if resp.rows = [] ∨ resp.rows = "null".toList then "[]".toList else resp.rows
      circuitState := resp.circuitState
      pagination := some
        { page := page.page, limit := page.limit, offset := page.offset, total := resp.rowCount
          hasNext := resp.rowCount = page.limit } }

/-! ## The response cache -/

abbrev ResponseCache (δ : Type*) := CacheKey δ → Option Text

/-- What a group of flights makes of a request: it leads a flight, or shares the result
of one. -/
inductive Flight where
  | leads
  | joins (shared : Outcome)

def Flight.outcome : Flight → Outcome → Outcome
  | .leads, loaded => loaded
  | .joins shared, _ => shared

/-- What happens around a request: its place in the queue, the calls to the connector,
its flight, and whether Redis answers. -/
structure Turn where
  acquired : Bool := true
  lines : Lines
  flight : Flight := .leads
  get : Bool := true
  del : Bool := true
  set : Bool := true

/-- A request behind the policy checks, with the route and the rule it is served by. -/
structure DataRequest where
  apiID : Id
  api : APIDefinition
  declared : List APIParameter
  rule : Option CacheRule
  clientID : Text
  requestID : Text
  inputs : Inputs

inductive Answer where
  /-- The parameters are rejected. -/
  | rejected (message : Text)
  | failed (e : APIError)
  /-- `X-Cache: HIT`. -/
  | cached (p : Payload)
  /-- `X-Cache: MISS`. -/
  | loaded (p : Payload)
deriving DecidableEq

/-- The answer, the queries that were executed for it, and the cache after it. -/
structure Response (δ : Type*) where
  answer : Answer
  executed : List QueryRequest
  cache : ResponseCache δ

section Respond

variable {J δ : Type*} [DecidableEq δ] (codec : Codec J) (digest : Table Value × Option Text → δ)

instance : DecidableEq (CacheKey δ) := fun a b =>
  decidable_of_iff (a.apiID = b.apiID ∧ a.digest = b.digest) (by cases a; cases b; simp)

/-- `cacheEnabled`. -/
def DataRequest.cacheEnabled (q : DataRequest) : Bool := q.rule.any fun cr => cr.enabled

def DataRequest.isList (q : DataRequest) : Bool := q.api.maxLimit ≠ 1

def DataRequest.cacheKey (q : DataRequest) (p : Prepared) : CacheKey δ :=
  key digest q.apiID q.clientID (q.rule.any fun cr => cr.varyByClient) p.cacheParams

def DataRequest.loadArgs (q : DataRequest) (p : Prepared) : LoadArgs :=
  { requestID := q.requestID, queryTemplate := p.built.sql, params := p.built.params
    limit := p.page.limit, offset := p.page.offset }

def answerOf (q : DataRequest) (p : Prepared) : Except APIError ConnectorResponse → Answer
  | .error e => .failed e
  | .ok resp => .loaded (buildPayload json resp q.isList p.page)

/-- The cache after a load: the leader of a flight stores what it has loaded. -/
def storeLoaded (q : DataRequest) (p : Prepared) (t : Turn) (loaded : Except APIError ConnectorResponse)
    (cache : ResponseCache δ) : ResponseCache δ :=
  match t.flight, loaded with
  | .leads, .ok resp =>
      match json.marshal (buildPayload json resp q.isList p.page) with
      | some b => if t.set then Function.update cache (q.cacheKey digest p) (some b) else cache
      | none => cache
  | _, _ => cache

/-- The connector dispatch of `serve`, with what is stored. -/
def dispatch (q : DataRequest) (p : Prepared) (t : Turn) (cache : ResponseCache δ) : Response δ :=
  let o := resolvePayload codec t.flight.outcome q.api q.cacheEnabled t.acquired t.lines (q.loadArgs p)
  { answer := answerOf json q p o.1
    executed := o.2
    cache :=
      if q.api.operationType.isCacheable && q.cacheEnabled then storeLoaded json digest q p t o.1 cache
      else cache }

def lookupCached (q : DataRequest) (p : Prepared) (t : Turn) (cache : ResponseCache δ) : Option Text :=
  if q.cacheEnabled && t.get then cache (q.cacheKey digest p) else none

/-- A prepared request: bytes that are no payload are evicted. -/
def respondPrepared (q : DataRequest) (p : Prepared) (t : Turn) (cache : ResponseCache δ) : Response δ :=
  match lookupCached digest q p t cache with
  | none => dispatch json codec digest q p t cache
  | some b =>
      match json.unmarshal b with
      | some payload => { answer := .cached payload, executed := [], cache := cache }
      | none =>
          dispatch json codec digest q p t
            (if t.del then Function.update cache (q.cacheKey digest p) none else cache)

/-- `serve`, behind its policy checks. -/
def respond (lib : Library) (cfg : GatewayConfig) (q : DataRequest) (t : Turn)
    (cache : ResponseCache δ) : Response δ :=
  match prepare lib cfg q.api q.declared q.inputs with
  | .error message => { answer := .rejected message, executed := [], cache := cache }
  | .ok p => respondPrepared json codec digest q p t cache

/-! ## Operations that are no reads -/

/-- The request is dispatched, with the answer of the load, and nothing is taken from
the cache or stored in it. -/
structure Bypasses (lib : Library) (cfg : GatewayConfig) (q : DataRequest) (t : Turn)
    (cache : ResponseCache δ) : Prop where
  dispatched : ∀ p, prepare lib cfg q.api q.declared q.inputs = .ok p →
    (respond json codec digest lib cfg q t cache).answer =
        answerOf json q p (load codec q.api t.acquired t.lines (q.loadArgs p)).1 ∧
      (respond json codec digest lib cfg q t cache).executed =
        (load codec q.api t.acquired t.lines (q.loadArgs p)).2
  notCached : ∀ payload, (respond json codec digest lib cfg q t cache).answer ≠ .cached payload
  notStored : ∀ k b, (respond json codec digest lib cfg q t cache).cache k = some b → cache k = some b

/-- A rule is enabled, and Redis has a payload under the key of the request. -/
def Hits (lib : Library) (cfg : GatewayConfig) (q : DataRequest) (t : Turn) (cache : ResponseCache δ) :
    Prop :=
  ∃ p b payload, prepare lib cfg q.api q.declared q.inputs = .ok p ∧ q.cacheEnabled = true ∧
    t.get = true ∧ cache (q.cacheKey digest p) = some b ∧ json.unmarshal b = some payload

section Writes

variable {lib : Library} {cfg : GatewayConfig} {q : DataRequest} {t : Turn} {cache : ResponseCache δ}
  {p : Prepared}

theorem dispatch_of_not_cacheable (hop : q.api.operationType.isCacheable = false) :
    dispatch json codec digest q p t cache =
      { answer := answerOf json q p (load codec q.api t.acquired t.lines (q.loadArgs p)).1
        executed := (load codec q.api t.acquired t.lines (q.loadArgs p)).2
        cache := cache } := by
  simp [dispatch, resolvePayload, hop]

omit [DecidableEq δ] in
theorem lookupCached_eq_some {b : Text} :
    lookupCached digest q p t cache = some b ↔
      q.cacheEnabled = true ∧ t.get = true ∧ cache (q.cacheKey digest p) = some b := by
  unfold lookupCached
  cases q.cacheEnabled <;> cases t.get <;> simp

theorem answerOf_ne_cached (o : Except APIError ConnectorResponse) (payload : Payload) :
    answerOf json q p o ≠ .cached payload := by
  cases o with
  | error e => exact nofun
  | ok resp => exact nofun

theorem respondPrepared_hit {b : Text} {payload : Payload}
    (hlookup : lookupCached digest q p t cache = some b) (hjson : json.unmarshal b = some payload) :
    respondPrepared json codec digest q p t cache =
      { answer := .cached payload, executed := [], cache := cache } := by
  simp [respondPrepared, hlookup, hjson]

/-- Without a payload in the cache an operation that is no read is loaded, with at most
its own entry evicted. -/
theorem respondPrepared_miss (hop : q.api.operationType.isCacheable = false)
    (hmiss : ∀ b payload, lookupCached digest q p t cache = some b → json.unmarshal b ≠ some payload) :
    ∃ cache', (∀ k b, cache' k = some b → cache k = some b) ∧
      respondPrepared json codec digest q p t cache =
        { answer := answerOf json q p (load codec q.api t.acquired t.lines (q.loadArgs p)).1
          executed := (load codec q.api t.acquired t.lines (q.loadArgs p)).2
          cache := cache' } := by
  cases hlookup : lookupCached digest q p t cache with
  | none =>
      refine ⟨cache, fun _ _ h => h, ?_⟩
      rw [respondPrepared, hlookup]
      exact dispatch_of_not_cacheable json codec digest hop
  | some b =>
      have hjson : json.unmarshal b = none :=
        Option.eq_none_iff_forall_ne_some.mpr fun payload => hmiss b payload hlookup
      refine ⟨if t.del then Function.update cache (q.cacheKey digest p) none else cache, ?_, ?_⟩
      · intro k b' h
        split at h
        next _ =>
          rw [Function.update_apply] at h
          split at h
          next _ => cases h
          next _ => exact h
        next _ => exact h
      · simp only [respondPrepared, hlookup, hjson]
        exact dispatch_of_not_cacheable json codec digest hop

/-- A request for an operation that is no read is dispatched, and keeps away from the
cache, exactly unless a rule is enabled and a payload is cached under its key. -/
theorem bypasses_cache_iff (hop : q.api.operationType.isCacheable = false) :
    Bypasses json codec digest lib cfg q t cache ↔ ¬Hits json digest lib cfg q t cache := by
  constructor
  · rintro hbypasses ⟨p, b, payload, hprepare, henabled, hget, hb, hjson⟩
    have hlookup := (lookupCached_eq_some digest).mpr ⟨henabled, hget, hb⟩
    refine hbypasses.notCached payload ?_
    rw [respond, hprepare]
    simp only [respondPrepared_hit json codec digest hlookup hjson]
  · intro hmiss
    cases hprepare : prepare lib cfg q.api q.declared q.inputs with
    | error message =>
        have hrespond : respond json codec digest lib cfg q t cache =
            { answer := .rejected message, executed := [], cache := cache } := by
          rw [respond, hprepare]
        refine ⟨fun p hp => ?_, ?_, ?_⟩
        · rw [hprepare] at hp
          cases hp
        · rw [hrespond]
          exact nofun
        · rw [hrespond]
          exact fun _ _ h => h
    | ok p =>
        have hnone : ∀ b payload, lookupCached digest q p t cache = some b →
            json.unmarshal b ≠ some payload := by
          intro b payload hlookup hjson
          obtain ⟨henabled, hget, hb⟩ := (lookupCached_eq_some digest).mp hlookup
          exact hmiss ⟨p, b, payload, hprepare, henabled, hget, hb, hjson⟩
        obtain ⟨cache', hkept, hmissed⟩ := respondPrepared_miss json codec digest hop hnone
        have hrespond : respond json codec digest lib cfg q t cache =
            respondPrepared json codec digest q p t cache := by
          rw [respond, hprepare]
        refine ⟨fun p' hp' => ?_, ?_, ?_⟩
        · rw [hprepare] at hp'
          cases hp'
          rw [hrespond, hmissed]
          exact ⟨rfl, rfl⟩
        · rw [hrespond, hmissed]
          exact answerOf_ne_cached json _
        · rw [hrespond, hmissed]
          exact hkept

end Writes

end Respond

/-! ## An API that becomes a write -/

/-- JSON of payloads without pages, for a circuit that is closed. -/
def rowCodec : PayloadCodec where
  firstRow := some
  marshal p := some p.data
  unmarshal b := some { data := b, pagination := none, circuitState := "closed".toList }

/-- The same API with one method and query, and with another. -/
def readAPI : APIDefinition :=
  { method := "GET".toList, databaseConnectionID := some 1, connectorType := "postgres".toList
    queryTemplate := "SELECT 1".toList, maxLimit := 1 }

@[inherit_doc readAPI]
def writeAPI : APIDefinition :=
  { readAPI with method := "POST".toList, queryTemplate := "INSERT INTO t VALUES (1)".toList, isWrite := true }

/-- A request for it, with a cache rule that is enabled. -/
def cachedRequest (api : APIDefinition) : DataRequest where
  apiID := 7
  api := api
  declared := []
  rule := some { id := 1, apiDefinitionID := 7, enabled := true }
  clientID := "app".toList
  requestID := "r".toList
  inputs := { pathParams := fun _ => none, query := { entries := [], nodup := .nil }, body := fun _ => none }

/-- A connector that returns a row. -/
def rowTurn : Turn where
  lines :=
    { grpc := none
      http :=
        { call := .delivered { dbType := "postgres".toList
                               query := .rows { durationMS := 1, rowCount := 1, rows := some "[1]".toList } }
            none } }

def answered (api : APIDefinition) (cache : ResponseCache Unit) : Response Unit :=
  respond rowCodec plainCodec (fun _ => ()) noLibrary { defaultLimit := 100, maxLimit := 1000 }
    (cachedRequest api) rowTurn cache

/-- A read is stored in the empty cache.  The API becomes a write, and the next request
is answered with what the read returned, without any query. -/
theorem write_answered_from_cache :
    writeAPI.operationType.isCacheable = false ∧
      (answered readAPI fun _ => none).answer =
        .loaded { data := "[1]".toList, pagination := none, circuitState := "closed".toList } ∧
      (answered writeAPI (answered readAPI fun _ => none).cache).answer =
        .cached { data := "[1]".toList, pagination := none, circuitState := "closed".toList } ∧
      (answered writeAPI (answered readAPI fun _ => none).cache).executed.length = 0 ∧
      ¬Bypasses rowCodec plainCodec (fun _ => ()) noLibrary { defaultLimit := 100, maxLimit := 1000 }
        (cachedRequest writeAPI) rowTurn (answered readAPI fun _ => none).cache := by
  have hcached : (answered writeAPI (answered readAPI fun _ => none).cache).answer =
      .cached { data := "[1]".toList, pagination := none, circuitState := "closed".toList } := by
    decide +kernel
  refine ⟨by decide +kernel, by decide +kernel, hcached, by decide +kernel, fun h => ?_⟩
  exact h.notCached _ hcached

/-- With an empty cache the write is executed and nothing is stored. -/
theorem write_bypasses_empty_cache :
    Bypasses rowCodec plainCodec (fun _ => ()) noLibrary { defaultLimit := 100, maxLimit := 1000 }
      (cachedRequest writeAPI) rowTurn fun _ => none := by
  refine (bypasses_cache_iff rowCodec plainCodec (fun _ => ()) (by decide +kernel)).mpr ?_
  rintro ⟨p, b, payload, -, -, -, hb, -⟩
  cases hb

end DDAG.GatewaySvc
