import DDAG.Connectors.Bind
import DDAG.Lib.Strings

/-!
# Models

The records of `internal/models` that the modelled functions read, and the
configuration of the query builder that an API carries in its response mapping.
The JSON of the response mapping is modelled by what decoding it gives.
-/

namespace DDAG.Models

/-- The key of a row: a UUID. -/
abbrev Id := Nat

def idText (id : Id) : Text := Strings.decimal id

/-! ## Operations -/

inductive OperationType where
  | read
  | create
  | update
  | delete
  | unknown
deriving DecidableEq, Repr

def OperationType.isWriteOperation : OperationType → Bool
  | .create | .update | .delete => true
  | _ => false

def OperationType.isCacheable (o : OperationType) : Bool := o = .read

/-- The method as the source compares it. -/
def normalMethod (method : Text) : Text := Strings.toUpper (Strings.trimSpace method)

def operationFromMethod (method : Text) : OperationType :=
  let m := normalMethod method
  if m = "GET".toList ∨ m = "QUERY".toList then .read
  else if m = "POST".toList then .create
  else if m = "PUT".toList ∨ m = "PATCH".toList then .update
  else if m = "DELETE".toList then .delete
  else .unknown

/-! ## The query builder's configuration -/

structure JoinCondition where
  left : Text
  operator : Text
  right : Text
deriving DecidableEq

structure JoinConfig where
  type : Text
  table : Text
  joinAlias : Text
  on : JoinCondition
deriving DecidableEq

structure FilterConfig where
  name : Text
  column : Text
  operators : List Text
deriving DecidableEq

structure SortableColumn where
  name : Text
  column : Text
deriving DecidableEq

structure QueryBuilderConfig where
  baseTable : Text
  select : List Text
  joins : List JoinConfig
  groupBy : List Text
  filters : List FilterConfig
  sortableColumns : List SortableColumn
  defaultSort : Text
deriving DecidableEq

/-- The response mapping of an API, decoded. -/
inductive ResponseMapping where
  /-- No bytes, or `null`. -/
  | absent
  /-- Bytes that do not decode. -/
  | invalid
  /-- An object, with its field `query_builder`. -/
  | envelope (builder : Option QueryBuilderConfig)
deriving DecidableEq

/-! ## Parameters and APIs -/

/-- Where a parameter is read from.  Any other text is no source. -/
inductive ParamSource where
  | path
  | query
  | body
  | other
deriving DecidableEq

/-- The type a parameter is read as.  Any other text reads as a string. -/
inductive ParamType where
  | int
  | number
  | bool
  | uuid
  | other
deriving DecidableEq

structure APIParameter where
  name : Text
  source : ParamSource := .query
  paramType : ParamType := .other
  required : Bool := false
  defaultValue : Option Text := none
  maxLength : Option Int := none
  validationRule : Option Text := none
deriving DecidableEq

/-- The definition of an API, without its life cycle. -/
structure APIDefinition where
  path : Text := []
  method : Text := "GET".toList
  databaseConnectionID : Option Id := none
  connectorType : Text := []
  queryTemplate : Text := []
  responseMapping : ResponseMapping := .absent
  requiredScope : Text := []
  defaultLimit : Int := 0
  maxLimit : Int := 0
  isWrite : Bool := false
deriving DecidableEq

def APIDefinition.operationType (api : APIDefinition) : OperationType :=
  operationFromMethod api.method

def APIDefinition.dialect (api : APIDefinition) : Connectors.Dialect :=
  .ofText api.connectorType

/-! ## Policies -/

/-- A rate-limit rule, for one client or all and for one API or all. -/
structure RateLimitRule where
  id : Id
  clientID : Option Id := none
  apiDefinitionID : Option Id := none
  requestsPerSecond : Int := 0
  requestsPerMinute : Int := 0
  requestsPerHour : Int := 0
  requestsPerDay : Int := 0
  createdAt : Int := 0
deriving DecidableEq

structure CacheRule where
  id : Id
  apiDefinitionID : Id
  enabled : Bool := false
  ttlSeconds : Int := 300
  varyByClient : Bool := true
  createdAt : Int := 0
deriving DecidableEq

inductive ScopeLevel where
  | global
  | client
  | api
deriving DecidableEq

structure IPWhitelist where
  id : Id
  clientID : Option Id := none
  apiDefinitionID : Option Id := none
  ipCIDR : Text := []
  scopeLevel : ScopeLevel := .client
  /-- The status is `active`, not `inactive`. -/
  active : Bool := true
  createdAt : Int := 0
deriving DecidableEq

/-- A client, with the APIs it is granted. -/
structure Client where
  id : Id
  clientID : Text
  /-- The status is `active`. -/
  active : Bool := true
  apis : List Id := []
deriving DecidableEq

end DDAG.Models
