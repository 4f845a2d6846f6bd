import DDAG.AdminSvc.Middleware
import Mathlib.Data.List.Nodup

/-!
# Permissions

The catalog of permissions of `internal/rbac/rbac.go`, the seven system roles with what they grant,
and the check every admin route makes of the principal it was called by.
-/

namespace DDAG.Rbac

open AdminSvc Httpx

/-! ## The catalog -/

inductive Permission where
  | viewDashboard
  | manageUser
  | manageRole
  | manageClient
  | manageScope
  | manageConnection
  | viewDBSecret
  | testConnection
  | createAPI
  | editAPI
  | approveAPI
  | publishAPI
  | disableAPI
  | purgeCache
  | viewAudit
  | viewMonitoring
  | viewCircuitState
  | manageRateLimit
  | manageIPWhitelist
  | manageService
deriving DecidableEq

def Permission.code : Permission → Text
  | .viewDashboard => "view_dashboard".toList
  | .manageUser => "manage_user".toList
  | .manageRole => "manage_role".toList
  | .manageClient => "manage_client".toList
  | .manageScope => "manage_scope".toList
  | .manageConnection => "manage_connection".toList
  | .viewDBSecret => "view_db_secret".toList
  | .testConnection => "test_connection".toList
  | .createAPI => "create_api".toList
  | .editAPI => "edit_api".toList
  | .approveAPI => "approve_api".toList
  | .publishAPI => "publish_api".toList
  | .disableAPI => "disable_api".toList
  | .purgeCache => "purge_cache".toList
  | .viewAudit => "view_audit".toList
  | .viewMonitoring => "view_monitoring".toList
  | .viewCircuitState => "view_circuit_state".toList
  | .manageRateLimit => "manage_rate_limit".toList
  | .manageIPWhitelist => "manage_ip_whitelist".toList
  | .manageService => "manage_service".toList

def Permission.description : Permission → Text
  | .viewDashboard => "View the admin dashboard".toList
  | .manageUser => "Create, update and disable users".toList
  | .manageRole => "Manage roles and their permissions".toList
  | .manageClient => "Manage OAuth2 clients/applications".toList
  | .manageScope => "Manage OAuth2 scopes".toList
  | .manageConnection => "Manage source database connections".toList
  | .viewDBSecret => "View database secret references".toList
  | .testConnection => "Test database connections".toList
  | .createAPI => "Create dynamic APIs".toList
  | .editAPI => "Edit dynamic APIs".toList
  | .approveAPI => "Approve/review dynamic APIs".toList
  | .publishAPI => "Publish dynamic APIs".toList
  | .disableAPI => "Disable dynamic APIs".toList
  | .purgeCache => "Purge endpoint cache".toList
  | .viewAudit => "View audit logs".toList
  | .viewMonitoring => "View monitoring dashboards".toList
  | .viewCircuitState => "View circuit breaker state".toList
  | .manageRateLimit => "Manage rate-limit rules".toList
  | .manageIPWhitelist => "Manage IP whitelist rules".toList
  | .manageService => "Manage service registry and health checks".toList

def allPermissions : List Permission :=
  [.viewDashboard, .manageUser, .manageRole, .manageClient, .manageScope, .manageConnection, .viewDBSecret,
    .testConnection, .createAPI, .editAPI, .approveAPI, .publishAPI, .disableAPI, .purgeCache, .viewAudit,
    .viewMonitoring, .viewCircuitState, .manageRateLimit, .manageIPWhitelist, .manageService]

theorem mem_allPermissions (p : Permission) : p ∈ allPermissions := by
  cases p <;> decide

/-! ## The system roles -/

inductive SystemRole where
  | superAdmin
  | platformAdmin
  | dba
  | appAdmin
  | developer
  | viewer
  | auditor
deriving DecidableEq

def SystemRole.name : SystemRole → Text
  | .superAdmin => "SUPER_ADMIN".toList
  | .platformAdmin => "PLATFORM_ADMIN".toList
  | .dba => "DBA".toList
  | .appAdmin => "APP_ADMIN".toList
  | .developer => "DEVELOPER".toList
  | .viewer => "VIEWER".toList
  | .auditor => "AUDITOR".toList

/-- `RoleDescriptions`. -/
def SystemRole.description : SystemRole → Text
  | .superAdmin => "Full access to the entire system".toList
  | .platformAdmin => "Operational platform configuration and API management".toList
  | .dba => "Database connections and query performance".toList
  | .appAdmin => "Tenant/application administration".toList
  | .developer => "API consumer".toList
  | .viewer => "Read-only access".toList
  | .auditor => "Audit and compliance read-only access".toList

/-- `DefaultRolePermissions`. -/
def SystemRole.permissions : SystemRole → List Permission
  | .superAdmin => allPermissions
  | .platformAdmin =>
      [.viewDashboard, .manageClient, .manageScope, .createAPI, .editAPI, .approveAPI, .publishAPI,
        .disableAPI, .purgeCache, .manageRateLimit, .manageIPWhitelist, .manageService, .viewMonitoring,
        .viewCircuitState, .viewAudit, .testConnection]
  | .dba =>
      [.viewDashboard, .manageConnection, .viewDBSecret, .testConnection, .createAPI, .editAPI, .approveAPI,
        .viewMonitoring, .viewCircuitState]
  | .appAdmin => [.viewDashboard, .viewMonitoring]
  | .developer => [.viewDashboard]
  | .viewer => [.viewDashboard, .viewMonitoring, .viewCircuitState, .viewAudit]
  | .auditor => [.viewDashboard, .viewAudit, .viewMonitoring, .viewCircuitState]

/-- The keys of `DefaultRolePermissions`, in one of the orders a loop over the map may take. -/
def systemRoles : List SystemRole :=
  [.superAdmin, .platformAdmin, .dba, .appAdmin, .developer, .viewer, .auditor]

theorem mem_systemRoles (r : SystemRole) : r ∈ systemRoles := by
  cases r <;> decide

theorem nodup_systemRole_names : (systemRoles.map SystemRole.name).Nodup := by
  decide +kernel

theorem SystemRole.name_injective : Function.Injective SystemRole.name := by
  intro p q h
  exact List.inj_on_of_nodup_map nodup_systemRole_names (mem_systemRoles p) (mem_systemRoles q) h

/-! ## The check -/

/-- `Principal.Has`. -/
def has (p : Principal) (code : Text) : Bool := p.permissions.contains code

/-- `RequirePermission`, of a request that has a principal. -/
def requirePermission (needed : Permission) (p : Principal) : Except APIError Unit :=
  if has p needed.code then .ok ()
  else .error ⟨.forbidden, "You do not have permission: ".toList ++ needed.code⟩

theorem requirePermission_eq_ok {needed : Permission} {p : Principal} :
    requirePermission needed p = .ok () ↔ needed.code ∈ p.permissions := by
  unfold requirePermission has
  split
  next h => simpa using h
  next h => simpa using h

end DDAG.Rbac
