import DDAG.Gateway.Params

/-!
# Serving a request

The part of `serve` in `internal/gatewaysvc/service.go` from the parameters of a
request to its cache key: `ResolveParams`, `BuildDynamicQuery`, `pagination`,
`cacheVariantParams`, and `Key` of `internal/cache`.

`Key` hashes the JSON of its payload.  The model takes the digest of a payload
as a parameter.
-/

namespace DDAG.GatewaySvc

open Models Gateway

/-! ## Pagination -/

/-- The limits of the gateway's configuration. -/
structure GatewayConfig where
  defaultLimit : Int
  maxLimit : Int

/-- The value of a Go `int`: arithmetic wraps at 64 bits. -/
def wrap (n : Int) : Int := n.bmod (2 ^ 64)

/-- An integer in the query string that passes a test. -/
def queryInt (query : Values) (name : String) (ok : Int → Bool) : Option Int :=
  (Strings.parseInt (query.get name.toList)).filter ok

/-- A limit cut at a maximum, if there is one. -/
def capped (limit max : Int) : Int := if 0 < max ∧ max < limit then max else limit

/-- The first of two limits that is positive. -/
def positiveOr (limit fallback : Int) : Int := if limit ≤ 0 then fallback else limit

def effectiveLimit (cfg : GatewayConfig) (query : Values) (api : APIDefinition) : Int :=
  let asked := (queryInt query "limit" (0 < ·)).getD api.defaultLimit
  let limit := capped (capped asked api.maxLimit) cfg.maxLimit
  positiveOr (positiveOr limit cfg.defaultLimit) 100

structure Page where
  limit : Int
  offset : Int
  page : Int
deriving DecidableEq

def pagination (cfg : GatewayConfig) (query : Values) (api : APIDefinition) : Page :=
  let limit := effectiveLimit cfg query api
  let byPage : Page :=
    match queryInt query "page" (0 < ·) with
    | some n => { limit := limit, offset := wrap ((n - 1) * limit), page := n }
    | none => { limit := limit, offset := 0, page := 1 }
  match queryInt query "offset" (0 ≤ ·) with
  | some n => { limit := limit, offset := n, page := wrap (n.tdiv limit + 1) }
  | none => byPage

/-! ## The key of a cached response -/

def limitKey : Text := "ddag_limit".toList
def offsetKey : Text := "ddag_offset".toList
def queryKey (name : Text) : Text := "query_".toList ++ name

/-- One name of the query string in the loop of `cacheVariantParams`. -/
def variantStep (out : Table Value) (e : Text × List Text) : Table Value :=
  if e.2 = [] then out else setKey out (queryKey e.1) (.text (Strings.join e.2 ",".toList))

def cacheVariantParams (params : Table Value) (query : Values) (limit offset : Int) : Table Value :=
  query.entries.foldl variantStep
    (setKey (setKey params limitKey (.int limit)) offsetKey (.int offset))

/-- A cache key: the prefix of its API, and the digest of its payload. -/
structure CacheKey (δ : Type*) where
  apiID : Id
  digest : δ

/-- `Key`: the payload holds the parameters, and the client if the rule says so. -/
def key {δ : Type*} (digest : Table Value × Option Text → δ) (apiID : Id) (clientID : Text)
    (varyByClient : Bool) (params : Table Value) : CacheKey δ :=
  { apiID := apiID, digest := digest (params, if varyByClient then some clientID else none) }

/-! ## From a request to its query -/

/-- A request that passed resolution and query building. -/
structure Prepared where
  params : Table Value
  built : BuiltQuery
  page : Page
  cacheParams : Table Value

def prepare (lib : Library) (cfg : GatewayConfig) (api : APIDefinition)
    (declared : List APIParameter) (i : Inputs) : Except Text Prepared := do
  let params ← resolveParams lib declared i
  let built ← buildDynamicQuery api i.query params
  let page := pagination cfg i.query api
  return { params := params
           built := built
           page := page
           cacheParams := cacheVariantParams built.params i.query page.limit page.offset }

end DDAG.GatewaySvc
