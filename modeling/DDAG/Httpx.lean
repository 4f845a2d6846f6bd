import DDAG.Connectors.Bind

/-!
# Error codes

The stable error codes of `internal/httpx/errors.go` with their statuses, and the error that
carries one with a message for the client.
-/

namespace DDAG.Httpx

inductive ErrorCode where
  | badRequest
  | payloadTooLarge
  | unauthorized
  | forbidden
  | notFound
  | queryTimeout
  | conflict
  | rateLimited
  | internal
  | connectorError
  | sourceDBUnavailable
  | validation
  | connectorUnavailable
  | dbPoolExhausted
  | dbConnectTimeout
  | dbQueryTimeout
  | circuitBreakerOpen
  | backpressureLimit
  | queryValidationFailed
  | scopeForbidden
deriving DecidableEq, Repr

/-- `statusByCode`. -/
def ErrorCode.httpStatus : ErrorCode → Nat
  | .badRequest | .validation | .queryValidationFailed => 400
  | .unauthorized => 401
  | .forbidden | .scopeForbidden => 403
  | .notFound => 404
  | .conflict => 409
  | .payloadTooLarge => 413
  | .rateLimited => 429
  | .internal => 500
  | .connectorError | .connectorUnavailable => 502
  | .sourceDBUnavailable | .dbPoolExhausted | .circuitBreakerOpen | .backpressureLimit => 503
  | .queryTimeout | .dbConnectTimeout | .dbQueryTimeout => 504

structure APIError where
  code : ErrorCode
  message : Text
deriving DecidableEq

/-- `NewError`. -/
def newError (code : ErrorCode) (message : String) : APIError := ⟨code, message.toList⟩

end DDAG.Httpx
