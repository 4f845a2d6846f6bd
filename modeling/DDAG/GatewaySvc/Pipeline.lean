import DDAG.GatewaySvc.Jwks
import DDAG.GatewaySvc.Respond
import DDAG.Httpx.ClientIP
import DDAG.PolicyEngine.Check

/-!
# A request from the header to the log

The whole of `serve` in `internal/gatewaysvc/service.go`, with `serveCatalogRoutes` and `visibleAPIs` of
`catalog.go` and `writeRequestLog` of `response.go`: the preflight, the catalog, the route, the token, the
scope, the client and its grant, its address, its limits, the body, and the data.  Every lookup may see
another snapshot, since loads replace it at any time.

* `logged_as_answered`: a request with a route leaves one record, with the status, the code and the
  cache hit of its reply; any other request leaves none.
* `touched_by_entitled`: whatever the replicas and the gateway do, a request that gets data, runs a query
  or changes the cache has a token that a replica issued, and has passed every check.
-/

namespace DDAG.GatewaySvc.Pipeline

open Models Httpx Gateway Policy PolicyEngine Machine Auth

/-! ## Requests and replies -/

/-- What the decoder makes of a body. -/
inductive Decoding where
  | eof
  /-- The limit of 1 MiB is reached. -/
  | tooLarge
  | invalid
  /-- An object or null, and whether nothing follows. -/
  | value (object : Option (Table BodyValue)) (single : Bool)

/-- A request.  A header that is absent is the empty text. -/
structure Incoming where
  requestID : Text
  method : Text
  path : Text
  authorization : Text
  contentType : Text
  peer : Httpx.Request
  query : Values
  body : Decoding

inductive Body where
  | empty
  | error (e : APIError)
  | data (p : Payload) (cached : Bool)
  | apis (apis : List PublishedAPI)
  | docs

structure Reply where
  status : Nat
  body : Body
  headers : List (String × Text) := []

/-- `reqLog`, without its times. -/
structure RequestRecord where
  requestID : Text
  method : Text
  path : Text
  ip : Text
  apiID : Id
  apiLabel : Text
  operation : OperationType
  clientID : Option Id := none
  clientLabel : Text := []
  status : Nat := 0
  errCode : Option ErrorCode := none
  cached : Bool := false

/-- What `writeRequestLog` enqueues. -/
def writeRequestLog (rl : RequestRecord) : RequestRecord := if rl.status = 0 then { rl with status := 200 } else rl

/-- `recordSecurity`. -/
structure SecurityEvent where
  action : String
  actorID : Text
  resourceID : Text

/-- What a request leaves behind. -/
structure Served (δ : Type*) where
  reply : Reply
  log : List RequestRecord := []
  security : List SecurityEvent := []
  executed : List Connector.QueryRequest := []
  db : Db
  cache : ResponseCache δ

/-! ## The gateway -/

/-- The settings of a gateway, and what it reads and writes tokens, rows and bodies with. -/
structure Deployment (S α J δ : Type) where
  jwt : JWT S
  pairs : KeyPairs
  issuer : Issuer
  decode : Text → Option (Token S)
  validation : TokenValidation
  fold : Char → Char
  network : Network α
  net : Netip
  trustedProxies : List net.Range
  loopback : List net.Range
  failMode : Text
  cfg : GatewayConfig
  lib : Library
  json : PayloadCodec
  codec : Codec J
  digest : Table Value × Option Text → δ

/-- What a request finds: the routes, the lookups of each of its steps, the time, the limiter's answer,
and what happens around its query. -/
structure Surroundings where
  routes : List Route
  declared : Id → List APIParameter
  now : Int
  client : Lookup
  access : Id → Lookup
  whitelist : Lookup
  rules : Lookup
  cacheRules : Lookup
  call : AllowCall
  turn : Turn

def errorReply (e : APIError) (headers : List (String × Text)) : Reply where
  status := e.code.httpStatus
  body := .error e
  headers := headers ++
    if e.code = .unauthorized then [("WWW-Authenticate", "Bearer realm=\"DDAG API\"".toList)] else []

def readBody (q : Incoming) : Except APIError (Table BodyValue) :=
  if !Strings.isOneOf ["POST".toList, "PUT".toList, "PATCH".toList, "DELETE".toList, "QUERY".toList] q.method then
    .ok fun _ => none
  else if !Strings.contains q.contentType "application/json".toList then .ok fun _ => none
  else
    match q.body with
    | .eof => .ok fun _ => none
    | .tooLarge => .error (newError .payloadTooLarge "JSON request body exceeds 1 MiB")
    | .invalid => .error (newError .validation "Request body must contain valid JSON")
    | .value _ false => .error (newError .validation "Request body must contain a single JSON object")
    | .value none true => .error (newError .validation "Request body must be a JSON object")
    | .value (some object) true => .ok object

/-- `cacheRuleFor`. -/
def cacheRuleFor (g : Lookup) (apiID : Id) : Option CacheRule := g.snapshot.bind fun s => s.cacheRuleFor apiID

/-- `checkRateLimit`, with what it leaves in Redis. -/
def checkRateLimit (mode : Text) (g : Lookup) (db : Db) (c : AllowCall) (client : Client) (apiID : Id) :
    Db × Decision × Bool :=
  match (g.rateLimitRulesFor client.id apiID).bind appliedRule with
  | none => (db, { allowed := true }, false)
  | some rule =>
      let r := allow (limiterBase client.clientID apiID) (ruleWindows rule) db c
      (r.1, ruleDecision mode r.2)

section Serve

variable {S α J δ : Type} [DecidableEq α] [DecidableEq δ] (gw : Deployment S α J δ)

def clientIP (q : Incoming) : Text :=
  clientIPWithTrustedProxies gw.net q.peer (if gw.trustedProxies = [] then gw.loopback else gw.trustedProxies)

/-- `authenticate`, with the keys the gateway has fetched. -/
def claimsOf (s : Platform) (e : Surroundings) (q : Incoming) : Except APIError AccessClaims :=
  authenticate gw.jwt gw.pairs gw.issuer s gw.decode gw.validation e.now q.authorization

/-! ## The catalog -/

/-- `visibleAPIs`. -/
def visibleAPIs (s : Platform) (e : Surroundings) (q : Incoming) : Except APIError (List PublishedAPI) :=
  match claimsOf gw s e q with
  | .error err => .error err
  | .ok claims =>
      match e.client.clientByClientID claims.clientID with
      | none => .error (newError .forbidden "Client is not active")
      | some client =>
          if !client.active then .error (newError .forbidden "Client is not active")
          else .ok ((e.routes.map Route.api).filter fun api =>
            hasScope claims.scope api.requiredScope && (e.access api.id).clientHasAPIAccess client.id api.id)

/-- `serveCatalogRoutes`, with the body of each format left open. -/
def serveCatalogRoutes (s : Platform) (e : Surroundings) (q : Incoming) : Option Reply :=
  if q.method ≠ "GET".toList then none
  else if Strings.isOneOf ["/openapi.json".toList, "/openapi.yaml".toList, "/api-catalog".toList] q.path then
    match visibleAPIs gw s e q with
    | .error err => some (errorReply err [])
    | .ok apis => some { status := 200, body := .apis apis }
  else if q.path = "/docs".toList then some { status := 200, body := .docs }
  else none

/-! ## The data -/

/-- The reply with an error.  The record has the status and the code given. -/
def refuse (rl : RequestRecord) (status : Nat) (code : ErrorCode) (e : APIError) (security : List SecurityEvent)
    (headers : List (String × Text)) (db : Db) (cache : ResponseCache δ) : Served δ where
  reply := errorReply e headers
  log := [writeRequestLog { rl with status := status, errCode := some code }]
  security := security
  db := db
  cache := cache

/-- The error for parameters that are rejected. -/
def rejection (q : DataRequest) (message : Text) : APIError :=
  match resolveParams gw.lib q.declared q.inputs with
  | .error _ => { code := .validation, message := message }
  | .ok _ => { code := .queryValidationFailed, message := message }

/-- The part of `serve` behind the body. -/
def serveData (rl : RequestRecord) (q : DataRequest) (t : Turn) (db : Db) (cache : ResponseCache δ) : Served δ :=
  let r := respond gw.json gw.codec gw.digest gw.lib gw.cfg q t cache
  match r.answer with
  | .rejected message =>
      let err := rejection gw q message
      { refuse rl err.code.httpStatus err.code err [] [] db r.cache with executed := r.executed }
  | .failed err => { refuse rl err.code.httpStatus err.code err [] [] db r.cache with executed := r.executed }
  | .cached p =>
      { reply := { status := 200, body := .data p true, headers := [("X-Cache", "HIT".toList)] }
        log := [writeRequestLog { rl with cached := true, status := 200 }]
        executed := r.executed, db := db, cache := r.cache }
  | .loaded p =>
      { reply := { status := 200, body := .data p false, headers := [("X-Cache", "MISS".toList)] }
        log := [writeRequestLog { rl with status := 200 }]
        executed := r.executed, db := db, cache := r.cache }

/-- The part behind the limits. -/
def serveBody (rl : RequestRecord) (e : Surroundings) (q : Incoming) (api : PublishedAPI) (pathParams : Table Text)
    (client : Client) (db : Db) (cache : ResponseCache δ) : Served δ :=
  match readBody q with
  | .error err => refuse rl err.code.httpStatus err.code err [] [] db cache
  | .ok body =>
      serveData gw rl
        { apiID := api.id, api := api.toAPIDefinition, declared := e.declared api.id
          rule := cacheRuleFor e.cacheRules api.id, clientID := client.clientID, requestID := q.requestID
          inputs := { pathParams := pathParams, query := q.query, body := body } }
        e.turn db cache

/-- The part behind the address. -/
def serveLimited (rl : RequestRecord) (e : Surroundings) (q : Incoming) (api : PublishedAPI) (pathParams : Table Text)
    (client : Client) (db : Db) (cache : ResponseCache δ) : Served δ :=
  let r := checkRateLimit gw.failMode e.rules db e.call client api.id
  if r.2.2 then
    if r.2.1.exceededScope = "fail_closed".toList then
      refuse rl 503 .sourceDBUnavailable (newError .sourceDBUnavailable "Rate limiter unavailable") [] [] r.1 cache
    else
      refuse rl 429 .rateLimited (newError .rateLimited "Rate limit exceeded, retry later") []
        [("Retry-After", Strings.decimalInt r.2.1.resetSeconds),
          ("X-RateLimit-Limit", Strings.decimalInt r.2.1.limit), ("X-RateLimit-Remaining", "0".toList)] r.1 cache
  else serveBody gw rl e q api pathParams client r.1 cache

/-- The part behind the lookup of the client. -/
def serveClient (rl : RequestRecord) (e : Surroundings) (q : Incoming) (api : PublishedAPI) (pathParams : Table Text)
    (claims : AccessClaims) (client : Client) (db : Db) (cache : ResponseCache δ) : Served δ :=
  let rl := { rl with clientID := some client.id }
  if !(e.access api.id).clientHasAPIAccess client.id api.id then
    refuse rl 403 .forbidden (newError .forbidden "Client is not granted access to this API")
      [⟨"forbidden_request", claims.clientID, idText api.id⟩] [] db cache
  else if checkIP gw.network e.whitelist (clientIP gw q) client.id api.id then
    refuse rl 403 .forbidden (newError .forbidden "Source IP is not allowed")
      [⟨"ip_blocked", claims.clientID, idText api.id⟩] [] db cache
  else serveLimited gw rl e q api pathParams client db cache

/-- The part behind the token. -/
def serveClaims (rl : RequestRecord) (e : Surroundings) (q : Incoming) (api : PublishedAPI) (pathParams : Table Text)
    (claims : AccessClaims) (db : Db) (cache : ResponseCache δ) : Served δ :=
  let rl := { rl with clientLabel := claims.clientID }
  if !hasScope claims.scope api.requiredScope then
    refuse rl 403 .scopeForbidden (newError .scopeForbidden "Token scope does not grant access to this API")
      [⟨"forbidden_request", claims.clientID, idText api.id⟩] [] db cache
  else
    match e.client.clientByClientID claims.clientID with
    | none => refuse rl 403 .forbidden (newError .forbidden "Client is not active") [] [] db cache
    | some client =>
        if !client.active then refuse rl 403 .forbidden (newError .forbidden "Client is not active") [] [] db cache
        else serveClient gw rl e q api pathParams claims client db cache

/-- The record a request starts with. -/
def newRecord (q : Incoming) (api : PublishedAPI) : RequestRecord where
  requestID := q.requestID
  method := q.method
  path := q.path
  ip := clientIP gw q
  apiID := api.id
  apiLabel := api.method ++ ' ' :: api.path
  operation := operationFromMethod api.method

/-- The part behind the route. -/
def serveRoute (s : Platform) (e : Surroundings) (q : Incoming) (api : PublishedAPI) (pathParams : Table Text)
    (db : Db) (cache : ResponseCache δ) : Served δ :=
  let rl := newRecord gw q api
  match claimsOf gw s e q with
  | .error err => refuse rl 401 err.code err [⟨"unauthorized_request", [], idText api.id⟩] [] db cache
  | .ok claims => serveClaims gw rl e q api pathParams claims db cache

/-- The answer to `OPTIONS`. -/
def preflight : Reply where
  status := 204
  body := .empty
  headers :=
    [("Access-Control-Allow-Methods", "GET, QUERY, POST, PUT, PATCH, DELETE, OPTIONS".toList),
      ("Access-Control-Allow-Headers", "Authorization, Content-Type, X-Request-ID".toList),
      ("Access-Control-Max-Age", "600".toList)]

/-- `serve`. -/
def serve (s : Platform) (e : Surroundings) (q : Incoming) (db : Db) (cache : ResponseCache δ) : Served δ :=
  if q.method = "OPTIONS".toList then { reply := preflight, db := db, cache := cache }
  else
    match serveCatalogRoutes gw s e q with
    | some reply => { reply := reply, db := db, cache := cache }
    | none =>
        match matchPath gw.fold e.routes q.method q.path with
        | none =>
            { reply := errorReply (newError .notFound "Endpoint not found or not published") []
              db := db, cache := cache }
        | some (route, pathParams) => serveRoute gw s e q route.api pathParams db cache

/-! ## What each part does -/

def Reply.errCode (r : Reply) : Option ErrorCode :=
  match r.body with
  | .error e => some e.code
  | _ => none

def Reply.hit (r : Reply) : Bool :=
  match r.body with
  | .data _ cached => cached
  | _ => false

/-- The record of a request, with what its reply says. -/
def RequestRecord.completed (rl : RequestRecord) (reply : Reply) : RequestRecord :=
  { rl with status := reply.status, errCode := reply.errCode, cached := reply.hit }

/-- Data is sent, a query is run, or the cache is changed. -/
def Touches (cache : ResponseCache δ) (out : Served δ) : Prop :=
  (∃ p cached, out.reply.body = .data p cached) ∨ out.executed ≠ [] ∨ out.cache ≠ cache

/-- The request is refused with an error, whose status and code are recorded, and nothing else happens. -/
def Refused (rl : RequestRecord) (db : Db) (cache : ResponseCache δ) (out : Served δ) : Prop :=
  ∃ status code err security headers, status = ErrorCode.httpStatus err.code ∧ code = err.code ∧
    out = refuse rl status code err security headers db cache

/-- Nothing happens but the reply, which is no success in the log. -/
structure Idle (db : Db) (cache : ResponseCache δ) (out : Served δ) : Prop where
  untouched : ¬Touches cache out
  kept : out.db = db
  log : ∀ r ∈ out.log, r.status ≠ 200

/-- A record that has no reply yet. -/
structure RequestRecord.Pending (rl : RequestRecord) : Prop where
  errCode : rl.errCode = none
  cached : rl.cached = false

theorem lt_httpStatus (code : ErrorCode) : 200 < code.httpStatus := by
  cases code <;> decide

section Parts

variable {rl : RequestRecord} {db : Db} {cache : ResponseCache δ} {s : Platform} {e : Surroundings} {q : Incoming}
  {api : PublishedAPI} {pathParams : Table Text} {client : Client} {claims : AccessClaims} {out : Served δ}

theorem writeRequestLog_error {status : Nat} {code : ErrorCode} (hstatus : status = code.httpStatus) :
    writeRequestLog { rl with status := status, errCode := some code } =
      { rl with status := status, errCode := some code } :=
  if_neg (hstatus ▸ Nat.ne_of_gt (Nat.zero_lt_of_lt (lt_httpStatus code)))

theorem completed_error (hrl : rl.Pending) {status : Nat} {err : APIError} (hstatus : status = err.code.httpStatus)
    (headers : List (String × Text)) :
    writeRequestLog { rl with status := status, errCode := some err.code } = rl.completed (errorReply err headers) := by
  rw [writeRequestLog_error hstatus, hstatus]
  show _ = { rl with status := err.code.httpStatus, errCode := some err.code, cached := false }
  rw [← hrl.cached]

omit [DecidableEq δ] in
theorem Refused.log (h : Refused rl db cache out) (hrl : rl.Pending) : out.log = [rl.completed out.reply] := by
  obtain ⟨status, code, err, security, headers, hstatus, rfl, rfl⟩ := h
  exact congrArg (fun r => [r]) (completed_error hrl hstatus headers)

omit [DecidableEq δ] in
theorem Refused.idle (h : Refused rl db cache out) : Idle db cache out := by
  obtain ⟨status, code, err, security, headers, hstatus, rfl, rfl⟩ := h
  refine ⟨?_, rfl, List.forall_mem_singleton.mpr ?_⟩
  · rintro (⟨p, cached, h⟩ | h | h)
    · cases h
    · exact h rfl
    · exact h rfl
  · rw [writeRequestLog_error hstatus, hstatus]
    exact Nat.ne_of_gt (lt_httpStatus _)

omit [DecidableEq α] in
theorem serveBody_frame (hrl : rl.Pending) :
    (serveBody gw rl e q api pathParams client db cache).db = db ∧
      (serveBody gw rl e q api pathParams client db cache).log =
        [rl.completed (serveBody gw rl e q api pathParams client db cache).reply] := by
  unfold serveBody
  split
  next _ => exact ⟨rfl, congrArg (fun r => [r]) (completed_error hrl rfl _)⟩
  next body _ =>
    unfold serveData
    dsimp only
    split
    next _ => exact ⟨rfl, congrArg (fun r => [r]) (completed_error hrl rfl _)⟩
    next _ => exact ⟨rfl, congrArg (fun r => [r]) (completed_error hrl rfl _)⟩
    next p _ =>
      refine ⟨rfl, congrArg (fun r => [r]) ?_⟩
      show { rl with cached := true, status := 200 } = { rl with status := 200, errCode := none, cached := true }
      rw [← hrl.errCode]
    next p _ =>
      refine ⟨rfl, congrArg (fun r => [r]) ?_⟩
      show { rl with status := 200 } = { rl with status := 200, errCode := none, cached := false }
      rw [← hrl.errCode, ← hrl.cached]

variable (rl) in
omit [DecidableEq α] in
/-- The limits are counted whether they let the request through or not. -/
theorem serveLimited_frame (hrl : rl.Pending) :
    (serveLimited gw rl e q api pathParams client db cache).db =
        (checkRateLimit gw.failMode e.rules db e.call client api.id).1 ∧
      (serveLimited gw rl e q api pathParams client db cache).log =
        [rl.completed (serveLimited gw rl e q api pathParams client db cache).reply] ∧
      ((checkRateLimit gw.failMode e.rules db e.call client api.id).2.2 = true →
        Idle (checkRateLimit gw.failMode e.rules db e.call client api.id).1 cache
          (serveLimited gw rl e q api pathParams client db cache)) := by
  unfold serveLimited
  dsimp only
  split
  next _ =>
    have hrefused {status : Nat} {err : APIError} {headers : List (String × Text)}
        (hstatus : status = err.code.httpStatus) {db : Db} :
        Refused rl db cache (refuse rl status err.code err [] headers db cache) :=
      ⟨status, _, err, [], headers, hstatus, rfl, rfl⟩
    split <;> exact ⟨rfl, (hrefused rfl).log hrl, fun _ => (hrefused rfl).idle⟩
  next hlimited => exact ⟨(serveBody_frame gw hrl).1, (serveBody_frame gw hrl).2, fun h => absurd h hlimited⟩

theorem serveClient_cases :
    Refused { rl with clientID := some client.id } db cache
        (serveClient gw rl e q api pathParams claims client db cache) ∨
      (e.access api.id).clientHasAPIAccess client.id api.id = true ∧
        checkIP gw.network e.whitelist (clientIP gw q) client.id api.id = false ∧
        serveClient gw rl e q api pathParams claims client db cache =
          serveLimited gw { rl with clientID := some client.id } e q api pathParams client db cache := by
  unfold serveClient
  dsimp only
  split
  next _ => exact .inl ⟨_, _, _, _, _, rfl, rfl, rfl⟩
  next hgranted =>
    split
    next _ => exact .inl ⟨_, _, _, _, _, rfl, rfl, rfl⟩
    next haddress => exact .inr ⟨by simpa using hgranted, eq_false_of_ne_true haddress, rfl⟩

theorem serveClaims_cases :
    Refused { rl with clientLabel := claims.clientID } db cache
        (serveClaims gw rl e q api pathParams claims db cache) ∨
      hasScope claims.scope api.requiredScope = true ∧
        ∃ client, e.client.clientByClientID claims.clientID = some client ∧ client.active = true ∧
          serveClaims gw rl e q api pathParams claims db cache =
            serveClient gw { rl with clientLabel := claims.clientID } e q api pathParams claims client db cache := by
  unfold serveClaims
  dsimp only
  split
  next _ => exact .inl ⟨_, _, _, _, _, rfl, rfl, rfl⟩
  next hscope =>
    split
    next _ => exact .inl ⟨_, _, _, _, _, rfl, rfl, rfl⟩
    next client hclient =>
      split
      next _ => exact .inl ⟨_, _, _, _, _, rfl, rfl, rfl⟩
      next hactive => exact .inr ⟨by simpa using hscope, client, hclient, by simpa using hactive, rfl⟩

omit [DecidableEq α] [DecidableEq δ] in
theorem claimsOf_error {err : APIError} (h : claimsOf gw s e q = .error err) : err.code = .unauthorized := by
  unfold claimsOf authenticate at h
  split at h
  next _ =>
    split at h
    next _ => cases h; rfl
    next _ =>
      split at h
      next _ => cases h; rfl
      next _ => cases h
  next _ => cases h; rfl

omit [DecidableEq α] [DecidableEq δ] in
theorem serveCatalogRoutes_body {reply : Reply} (h : serveCatalogRoutes gw s e q = some reply) (p : Payload)
    (cached : Bool) : reply.body ≠ .data p cached := by
  unfold serveCatalogRoutes at h
  split at h
  next _ => cases h
  next _ =>
    split at h
    next _ => split at h <;> cases h <;> exact nofun
    next _ =>
      split at h
      next _ => cases h; exact nofun
      next _ => cases h

end Parts

/-! ## What a request does -/

/-- The route of a request that is answered with data or an error of it. -/
def routed (s : Platform) (e : Surroundings) (q : Incoming) : Option (Route × Table Text) :=
  if q.method = "OPTIONS".toList then none
  else
    match serveCatalogRoutes gw s e q with
    | some _ => none
    | none => matchPath gw.fold e.routes q.method q.path

/-- What a request has passed that comes to its limits. -/
structure Cleared (s : Platform) (e : Surroundings) (q : Incoming) (route : Route) (claims : AccessClaims)
    (client : Client) : Prop where
  matched : ∃ pathParams, matchPath gw.fold e.routes q.method q.path = some (route, pathParams)
  token : claimsOf gw s e q = .ok claims
  scope : hasScope claims.scope route.api.requiredScope = true
  known : e.client.clientByClientID claims.clientID = some client
  active : client.active = true
  granted : (e.access route.api.id).clientHasAPIAccess client.id route.api.id = true
  address : checkIP gw.network e.whitelist (clientIP gw q) client.id route.api.id = false

/-- What becomes of a request that comes to its limits. -/
structure Counts (s : Platform) (e : Surroundings) (q : Incoming) (db : Db) (cache : ResponseCache δ) (route : Route)
    (claims : AccessClaims) (client : Client) (out : Served δ) : Prop extends
    Cleared gw s e q route claims client where
  counted : out.db = (checkRateLimit gw.failMode e.rules db e.call client route.api.id).1
  log : ∀ r ∈ out.log, r.clientLabel = claims.clientID ∧ r.apiID = route.api.id
  limited : (checkRateLimit gw.failMode e.rules db e.call client route.api.id).2.2 = true →
    Idle (checkRateLimit gw.failMode e.rules db e.call client route.api.id).1 cache out

/-- A request with a route is recorded with its reply.  It leaves everything alone, or it comes to its
limits. -/
theorem serveRoute_cases {s : Platform} {e : Surroundings} {q : Incoming} {route : Route} {pathParams : Table Text}
    (hroute : matchPath gw.fold e.routes q.method q.path = some (route, pathParams)) (db : Db)
    (cache : ResponseCache δ) :
    ∃ out, serveRoute gw s e q route.api pathParams db cache = out ∧
      (∃ clientLabel clientID, out.log = [RequestRecord.completed
        { newRecord gw q route.api with clientLabel := clientLabel, clientID := clientID } out.reply]) ∧
      (Idle db cache out ∨ ∃ claims client, Counts gw s e q db cache route claims client out) := by
  unfold serveRoute
  dsimp only
  split
  next err herr =>
    have hrefused : Refused (newRecord gw q route.api) db cache
        (refuse (newRecord gw q route.api) 401 err.code err [⟨"unauthorized_request", [], idText route.api.id⟩] []
          db cache) :=
      ⟨_, _, _, _, _, (congrArg ErrorCode.httpStatus (claimsOf_error gw herr)).symm, rfl, rfl⟩
    exact ⟨_, rfl, ⟨[], none, hrefused.log ⟨rfl, rfl⟩⟩, .inl hrefused.idle⟩
  next claims hclaims =>
    rcases serveClaims_cases gw with hrefused | ⟨hscope, client, hclient, hactive, heq⟩
    · exact ⟨_, rfl, ⟨claims.clientID, none, hrefused.log ⟨rfl, rfl⟩⟩, .inl hrefused.idle⟩
    rw [heq]
    rcases serveClient_cases gw with hrefused | ⟨hgranted, haddress, heq'⟩
    · exact ⟨_, rfl, ⟨claims.clientID, some client.id, hrefused.log ⟨rfl, rfl⟩⟩, .inl hrefused.idle⟩
    rw [heq']
    obtain ⟨hdb, hlog, hlimited⟩ := serveLimited_frame gw
      { newRecord gw q route.api with clientLabel := claims.clientID, clientID := some client.id } ⟨rfl, rfl⟩
    refine ⟨_, rfl, ⟨claims.clientID, some client.id, hlog⟩, .inr ⟨claims, client,
      ⟨⟨pathParams, hroute⟩, hclaims, hscope, hclient, hactive, hgranted, haddress⟩, hdb, ?_, hlimited⟩⟩
    rw [hlog]
    exact List.forall_mem_singleton.mpr ⟨rfl, rfl⟩

/-- A request without a route gets no data and leaves no record. -/
theorem serve_unrouted {s : Platform} {e : Surroundings} {q : Incoming} (h : routed gw s e q = none) (db : Db)
    (cache : ResponseCache δ) :
    (serve gw s e q db cache).log = [] ∧ Idle db cache (serve gw s e q db cache) := by
  have hidle {reply : Reply} (hreply : ∀ p cached, reply.body ≠ .data p cached) :
      Idle db cache { reply := reply, db := db, cache := cache } := by
    refine ⟨?_, rfl, List.forall_mem_nil _⟩
    rintro (⟨p, cached, hdata⟩ | h | h)
    · exact hreply p cached hdata
    · exact h rfl
    · exact h rfl
  unfold routed at h
  unfold serve
  split
  next _ => exact ⟨rfl, hidle fun _ _ h => by cases h⟩
  next hoptions =>
    rw [if_neg hoptions] at h
    split
    next reply hreply => exact ⟨rfl, hidle (serveCatalogRoutes_body gw hreply)⟩
    next hcatalog =>
      rw [hcatalog] at h
      dsimp only at h
      rw [h]
      exact ⟨rfl, hidle fun _ _ h => by cases h⟩

theorem serve_routed {s : Platform} {e : Surroundings} {q : Incoming} {route : Route} {pathParams : Table Text}
    (h : routed gw s e q = some (route, pathParams)) (db : Db) (cache : ResponseCache δ) :
    matchPath gw.fold e.routes q.method q.path = some (route, pathParams) ∧
      serve gw s e q db cache = serveRoute gw s e q route.api pathParams db cache := by
  unfold routed at h
  split at h
  next _ => cases h
  next hoptions =>
    split at h
    next _ => cases h
    next hcatalog => exact ⟨h, by rw [serve, if_neg hoptions, hcatalog, h]⟩

/-- A request leaves everything alone, or it comes to its limits. -/
theorem serve_cases (s : Platform) (e : Surroundings) (q : Incoming) (db : Db) (cache : ResponseCache δ) :
    Idle db cache (serve gw s e q db cache) ∨
      ∃ route claims client, Counts gw s e q db cache route claims client (serve gw s e q db cache) := by
  cases hrouted : routed gw s e q with
  | none => exact .inl (serve_unrouted gw hrouted db cache).2
  | some found =>
      obtain ⟨hmatch, heq⟩ := serve_routed gw hrouted db cache
      obtain ⟨out, hout, -, hcases⟩ := serveRoute_cases gw hmatch db cache
      rw [heq, hout]
      exact hcases.imp_right fun ⟨claims, client, hcounts⟩ => ⟨found.1, claims, client, hcounts⟩

/-- Whatever a request finds: if it has a route it leaves one record, which is of this request and has the
status, the code and the cache hit of its reply.  A preflight, a request for the catalog and one
without a route leave none. -/
theorem logged_as_answered (s : Platform) (e : Surroundings) (q : Incoming) (db : Db) (cache : ResponseCache δ) :
    match routed gw s e q with
    | none => (serve gw s e q db cache).log = []
    | some (route, _) => ∃ clientLabel clientID, (serve gw s e q db cache).log =
        [RequestRecord.completed { newRecord gw q route.api with clientLabel := clientLabel, clientID := clientID }
          (serve gw s e q db cache).reply] := by
  split
  next hrouted => exact (serve_unrouted gw hrouted db cache).1
  next route pathParams hrouted =>
    obtain ⟨hmatch, heq⟩ := serve_routed gw hrouted db cache
    obtain ⟨out, hout, hlog, -⟩ := serveRoute_cases gw hmatch db cache
    rw [heq, hout]
    exact hlog

/-- Over every interleaving of starting replicas, issued tokens and fetched keys, whatever a request finds:
if it gets data, runs a query or changes the cache, it bears a token that a replica issued and that is
in force, the scope of the token is that of the API, its client is active, is granted the API and calls
from an address on its list, and the limits let it through. -/
theorem touched_by_entitled (keys : AuthService.SigningKeys) (es : List PlatformEvent) :
    Along (platformStep gw.pairs) (fun s => ∀ (e : Surroundings) (q : Incoming) (db : Db) (cache : ResponseCache δ),
      Touches cache (serve gw s e q db cache) →
        ∃ x ∈ s.issued, Strings.hasPrefix q.authorization "Bearer ".toList = true ∧
          gw.decode (Strings.trimSpace (q.authorization.drop 7)) =
            some (issuedToken gw.jwt gw.pairs gw.issuer x) ∧
          InForce gw.issuer gw.validation e.now x ∧
          ∃ route client, Cleared gw s e q route (gw.issuer.message x).claims client ∧
            (checkRateLimit gw.failMode e.rules db e.call client route.api.id).2.2 = false)
      (platform keys) es := by
  refine (genuine_along gw.pairs keys es).mono fun s hkeys e q db cache htouches => ?_
  rcases serve_cases gw s e q db cache with hidle | ⟨route, claims, client, hcounts⟩
  · exact absurd htouches hidle.untouched
  · obtain ⟨hbearer, x, hx, hdecode, rfl, -, hforce⟩ := (authenticate_iff_issued hkeys).mp hcounts.token
    refine ⟨x, hx, hbearer, hdecode, hforce, route, client, hcounts.toCleared, eq_false_of_ne_true fun hlimited => ?_⟩
    exact (hcounts.limited hlimited).untouched htouches

end Serve

end DDAG.GatewaySvc.Pipeline
