import DDAG.Lib.Loop
import DDAG.Lib.Lexing
import DDAG.Connectors.Bind
import DDAG.Connectors.Lexemes
import DDAG.Connectors.Termination
import DDAG.Connectors.Trimming
import DDAG.Lib.Regexp
import DDAG.Models
import DDAG.Gateway.QueryBuilder
import DDAG.Gateway.Validate
import DDAG.Gateway.ReadOnly
import DDAG.Gateway.Binding
import DDAG.Circuit.Breaker
import DDAG.Lib.Pool
import DDAG.Lib.Trace
import DDAG.Connector.Handlers
import DDAG.Gateway.Clauses
import DDAG.Gateway.Params
import DDAG.GatewaySvc.CacheKey
import DDAG.Connector.Query
import DDAG.Gateway.Dispatch
import DDAG.GatewaySvc.Load
import DDAG.AdminSvc.Lifecycle
import DDAG.ConnectorPool.Registry
import DDAG.GatewaySvc.Metadata
import DDAG.GatewaySvc.Precedence
import DDAG.GatewaySvc.Coverage
import DDAG.Gateway.Transports
import DDAG.Gateway.Integers
import DDAG.AdminSvc.Transitions
import DDAG.Store.Catalog
import DDAG.Store.Edits
import DDAG.GatewaySvc.Reload
import DDAG.GatewaySvc.Admission
import DDAG.GatewaySvc.Respond
import DDAG.GatewaySvc.CachedReads
import DDAG.GatewaySvc.Serving
import DDAG.GatewaySvc.Revisions
import DDAG.GatewaySvc.Purges
import DDAG.Connector.Admission
import DDAG.GrpcAuth.Deliveries
import DDAG.Gateway.Fallback
import DDAG.Connector.Periods
import DDAG.Connector.Rejections
import DDAG.AuthService.Keys
import DDAG.AuthService.Tokens
import DDAG.AuthService.Scopes
import DDAG.AuthService.Rotation
import DDAG.GatewaySvc.Cancellation
import DDAG.Connector.Wakeups
import DDAG.ConnectorPool.Versions
import DDAG.Gateway.Router
import DDAG.GatewaySvc.RequestLog
import DDAG.Httpx.ClientIP
import DDAG.Lib.Redis
import DDAG.Policy.RateLimiter
import DDAG.Lib.Aead
import DDAG.Secret.Envelope
import DDAG.Connectors.Pagination
import DDAG.GatewaySvc.SentText
import DDAG.Gateway.Tails
import DDAG.Policy.Rules
import DDAG.PolicyEngine.Check
import DDAG.Circuit.Calls
import DDAG.Connectors.Substitution
import DDAG.Connectors.DollarQuotes
import DDAG.Connectors.Regions
import DDAG.Gateway.Statements
import DDAG.AdminSvc.TestQuery
import DDAG.Gateway.OpenAPI
import DDAG.Connectors.Assembled
import DDAG.Gateway.GeneratedNames
import DDAG.Gateway.Placeholders
import DDAG.Connectors.Closing
import DDAG.Gateway.CleanTemplates
import DDAG.Circuit.Failures
import DDAG.Policy.Forecast
import DDAG.Gateway.ParamRules
import DDAG.Lib.Json
import DDAG.AdminSvc.Backup
import DDAG.AdminSvc.Diff
import DDAG.AuthService.Encoding
import DDAG.Gateway.Resolution
import DDAG.AdminSvc.Login
import DDAG.AdminSvc.Middleware
import DDAG.Connector.ConnCache
import DDAG.Gateway.CircuitState
import DDAG.AdminSvc.Connections
import DDAG.Db.Migrate
import DDAG.BackupRunner.Artifact
import DDAG.Store.RequestLogs
import DDAG.Lib.Authority
import DDAG.Lib.Links
import DDAG.Rbac
import DDAG.Store.Identity
import DDAG.AdminSvc.Accounts
import DDAG.Bootstrap.Seed
import DDAG.Lib.Base64
import DDAG.Auth.AccessToken
import DDAG.Lib.Channels
import DDAG.GatewaySvc.Backpressure
import DDAG.Gateway.PathParams
import DDAG.BackupRunner.Retention
import DDAG.GatewaySvc.Jwks
import DDAG.GatewaySvc.Pipeline
import DDAG.AdminSvc.BackupRuns
