import DDAG.AdminSvc.Connections
import DDAG.Lib.Pool
import DDAG.Lib.Trace
import DDAG.Rbac
import DDAG.Store.Identity

/-!
# What an account can get

The routes of `internal/adminsvc/routes.go` over users and roles, with their handlers in
`handlers_users.go` and `handlers_rbac.go`.  A request reads the user of its session, loads the
permissions of that user, and is admitted if the permission of the route is among them.  Then the
handler makes its statements.  Any number of requests run at a time, and any statement may fail.

The permission `manage_user` lets its holder give roles, and `manage_role` lets its holder say what
roles grant, so a session can end up with more than it began with.  `reachable_iff` says with how
much: a coalition of accounts can bring about that one of them holds a permission exactly if the
permission is below the ceiling of `DDAG.Lib.Authority` in the first state.  A coalition takes over
the accounts it creates and those whose password it resets.

`kept_step` is about all requests of all users: the tables keep their constraints, and system roles
are never deleted or renamed.
-/

namespace DDAG.AdminSvc.Accounts

open Machine Httpx Models Rbac Store Authority

/-! ## The routes -/

/-- A route that changes users or roles, with the decoded body. -/
inductive Call where
  | createUser (name email username password : Text) (tenant : Option Text) (roles : List Text)
  | updateUser (id : Id) (name email : Text) (tenant : Option Text) (status : Text)
  | setUserRoles (id : Id) (roles : List Text)
  | resetUserPassword (id : Id) (password : Text)
  | disableUser (id : Id)
  | createRole (name description : Text)
  | updateRole (id : Id) (description : Text)
  | deleteRole (id : Id)
  | setRolePermissions (id : Id) (permissions : List Text)
deriving DecidableEq

def Call.permission : Call → Permission
  | .createUser .. | .updateUser .. | .setUserRoles .. | .resetUserPassword .. | .disableUser .. => .manageUser
  | .createRole .. | .updateRole .. | .deleteRole .. | .setRolePermissions .. => .manageRole

inductive Reply where
  /-- The user as it is read afterwards; the error of the read is ignored. -/
  | user (u : Option (User × List Text))
  | role (id : Id) (name : Text)
  | ok
deriving DecidableEq

inductive Phase where
  | arrived
  /-- The user of the session is read. -/
  | userRead (user : Option (User × List Text))
  | admitted (actor : Principal)
  /-- `createUser` has inserted the user. -/
  | created (id : Id)
  /-- `disableUser` has read the user. -/
  | disabling (u : User)
  /-- The user is to be read for the reply. -/
  | replying (id : Id)
  | answered (answer : Except APIError Reply)

structure Request where
  http : HttpRequest
  call : Call
  phase : Phase := .arrived

/-- A step of a request: whether its statement fails, and the id of a row it inserts. -/
structure Action where
  fails : Bool := false
  newID : Id := 0

/-- The tables, and the accounts of the coalition whose requests are looked at. -/
structure Site where
  tables : Identity
  /-- Ghost: accounts that were there from the start, that were created, or whose password was
  set. -/
  taken : List Id

/-- What a step of a handler leaves. -/
structure Outcome where
  tables : Identity
  phase : Phase
  /-- Ghost: the accounts the step gives the password of. -/
  won : List Id := []

def Action.statement {α : Type} (a : Action) (x : Except StoreError α) : Except StoreError α :=
  if a.fails then .error .failed else x

section Source

variable (cookieName : Text) (parseSession : Text → Option Id) (hashPassword : Text → Option Text)

/-- The user a session is of. -/
def Request.session (rq : Request) : Option Id := parseSession (sessionToken cookieName rq.http)

/-- What `requireSession` gets from the store: the user was read before, the permissions are read
now. -/
def sessionsAt (t : Identity) (a : Action) (user : Option (User × List Text)) : Sessions where
  parseSession := parseSession
  getUserByID _ := user.map fun u => ⟨u.1.username, u.1.active, u.2⟩
  userPermissionCodes userID := if a.fails then none else some (t.userPermissionCodes userID)

/-- The middleware of a route. -/
def authorize (t : Identity) (a : Action) (rq : Request) (user : Option (User × List Text)) :
    Except APIError Principal := do
  let actor ← authenticated cookieName (sessionsAt parseSession t a user) rq.http
  requirePermission rq.call.permission actor
  return actor

/-- The first statement of a handler. -/
def handle (t : Identity) (actor : Principal) (call : Call) (a : Action) : Outcome :=
  let refuse (e : APIError) : Outcome := { tables := t, phase := .answered (.error e) }
  match call with
  | .createUser name email username password tenant _ =>
      if name = [] ∨ email = [] ∨ username = [] ∨ password = [] then
        refuse (newError .validation "name, email, username and password are required")
      else
        match hashPassword password with
        | none => refuse (newError .internal "failed to hash password")
        | some hash =>
            match a.statement (t.createUser
              { id := a.newID, name := name, email := email, username := username, passwordHash := hash,
                tenant := tenant, createdBy := some actor.userID }) with
            | .error _ => refuse (newError .conflict "could not create user (email/username may exist)")
            | .ok t' => { tables := t', phase := .created a.newID, won := [a.newID] }
  | .updateUser id name email tenant status =>
      match a.statement (t.updateUser id name email tenant (defStr status "active")) with
      | .error err => refuse (storeErr err)
      | .ok t' => { tables := t', phase := .replying id }
  | .setUserRoles id roles =>
      match a.statement (t.setUserRoles id roles) with
      | .error err => refuse (storeErr err)
      | .ok t' => { tables := t', phase := .replying id }
  | .resetUserPassword id password =>
      if Strings.byteLength password < 6 then
        refuse (newError .validation "password must be at least 6 characters")
      else
        match hashPassword password with
        | none => refuse (newError .internal "failed to hash password")
        | some hash =>
            match a.statement (.ok (t.setUserPassword id hash)) with
            | .error err => refuse (storeErr err)
            | .ok t' => { tables := t', phase := .answered (.ok .ok), won := [id] }
  | .disableUser id =>
      match a.statement (t.getUserByID id) with
      | .error err => refuse (storeErr err)
      | .ok (u, _) => { tables := t, phase := .disabling u }
  | .createRole name description =>
      if name = [] then refuse (newError .validation "name is required")
      else
        match a.statement (t.createRole a.newID name description) with
        | .error _ => refuse (newError .conflict "role may already exist")
        | .ok t' => { tables := t', phase := .answered (.ok (.role a.newID name)) }
  | .updateRole id description =>
      match a.statement (.ok (t.updateRoleDescription id description)) with
      | .error err => refuse (storeErr err)
      | .ok t' => { tables := t', phase := .answered (.ok .ok) }
  | .deleteRole id =>
      match a.statement (t.deleteRole id) with
      | .error .notFound => refuse (newError .conflict "cannot delete a system role or unknown role")
      | .error err => refuse (storeErr err)
      | .ok t' => { tables := t', phase := .answered (.ok .ok) }
  | .setRolePermissions id permissions =>
      match a.statement (t.setRolePermissions id permissions) with
      | .error err => refuse (storeErr err)
      | .ok t' => { tables := t', phase := .answered (.ok .ok) }

/-- The second statement of `createUser`, whose error is ignored. -/
def assignRoles (t : Identity) (id : Id) (roles : List Text) (a : Action) : Identity :=
  if roles = [] then t
  else
    match a.statement (t.setUserRoles id roles) with
    | .error _ => t
    | .ok t' => t'

/-- The second statement of `disableUser`. -/
def disable (t : Identity) (id : Id) (u : User) (a : Action) : Outcome :=
  match a.statement (t.updateUser id u.name u.email u.tenant "inactive".toList) with
  | .error err => { tables := t, phase := .answered (.error (storeErr err)) }
  | .ok t' => { tables := t', phase := .answered (.ok .ok) }

/-- A step of a request in the phase it is in. -/
def outcome (t : Identity) (rq : Request) (a : Action) : Option Outcome :=
  match rq.phase, rq.call with
  | .arrived, _ =>
      let user := (rq.session cookieName parseSession).bind fun id => (a.statement (t.getUserByID id)).toOption
      some { tables := t, phase := .userRead user }
  | .userRead user, _ =>
      match authorize cookieName parseSession t a rq user with
      | .error e => some { tables := t, phase := .answered (.error e) }
      | .ok actor => some { tables := t, phase := .admitted actor }
  | .admitted actor, call => some (handle hashPassword t actor call a)
  | .created id, .createUser _ _ _ _ _ roles =>
      some { tables := assignRoles t id roles a, phase := .replying id }
  | .disabling u, .disableUser id => some (disable t id u a)
  | .replying id, _ =>
      some { tables := t, phase := .answered (.ok (.user (a.statement (t.getUserByID id)).toOption)) }
  | _, _ => none

def act (s : Site) (rq : Request) (a : Action) : Option (Site × Request) :=
  (outcome cookieName parseSession hashPassword s.tables rq a).map fun o =>
    ({ tables := o.tables, taken := s.taken ++ o.won }, { rq with phase := o.phase })

def Request.isNew (rq : Request) : Bool :=
  match rq.phase with
  | .arrived => true
  | _ => false

abbrev Requests := Pool Site Request

def step (p : Requests) (e : PoolEvent Request Action) : Option Requests :=
  poolStep Request.isNew (act cookieName parseSession hashPassword) p e

end Source

/-! ## What a step does -/

section Steps

variable {t : Identity} {a : Action} {rq : Request}

theorem statement_eq_ok {α : Type} {x : Except StoreError α} {y : α} (h : a.statement x = .ok y) : x = .ok y := by
  unfold Action.statement at h
  split at h
  next _ => cases h
  next _ => exact h

/-- What the routes of a permission write, and the accounts whose password they set. -/
inductive Writes (t : Identity) : Permission → Identity → List Id → Prop
  | nothing (p : Permission) : Writes t p t []
  | createUser {u : User} {t' : Identity} (h : t.createUser u = .ok t') : Writes t .manageUser t' [u.id]
  | updateUser {id : Id} {name email : Text} {tenant : Option Text} {status : Text}
      {t' : Identity} (h : t.updateUser id name email tenant status = .ok t') : Writes t .manageUser t' []
  | setUserRoles {id : Id} {roles : List Text} {t' : Identity} (h : t.setUserRoles id roles = .ok t') :
      Writes t .manageUser t' []
  | setUserPassword (id : Id) (hash : Text) : Writes t .manageUser (t.setUserPassword id hash) [id]
  | createRole {id : Id} {name description : Text} {t' : Identity}
      (h : t.createRole id name description = .ok t') : Writes t .manageRole t' []
  | updateRole (id : Id) (description : Text) : Writes t .manageRole (t.updateRoleDescription id description) []
  | deleteRole {id : Id} {t' : Identity} (h : t.deleteRole id = .ok t') : Writes t .manageRole t' []
  | setRolePermissions {id : Id} {codes : List Text} {t' : Identity}
      (h : t.setRolePermissions id codes = .ok t') : Writes t .manageRole t' []

/-- The request has passed the middleware and is not answered. -/
def Phase.passed : Phase → Bool
  | .admitted _ | .created _ | .disabling _ | .replying _ => true
  | _ => false

/-- The phases after a statement of a handler. -/
def Phase.handled : Phase → Bool
  | .arrived | .userRead _ | .admitted _ => false
  | _ => true

theorem handle_writes (hashPassword : Text → Option Text) (actor : Principal) (call : Call) :
    let o := handle hashPassword t actor call a
    Writes t call.permission o.tables o.won ∧ o.phase.handled = true := by
  cases call with
  | createUser name email username password tenant roles =>
      simp only [handle]
      split
      next _ => exact ⟨.nothing _, rfl⟩
      next _ =>
        split
        next _ => exact ⟨.nothing _, rfl⟩
        next hash _ =>
          split
          next _ _ => exact ⟨.nothing _, rfl⟩
          next t' hok => exact ⟨.createUser (statement_eq_ok hok), rfl⟩
  | updateUser id name email tenant status =>
      simp only [handle]
      split
      next _ _ => exact ⟨.nothing _, rfl⟩
      next t' hok => exact ⟨.updateUser (statement_eq_ok hok), rfl⟩
  | setUserRoles id roles =>
      simp only [handle]
      split
      next _ _ => exact ⟨.nothing _, rfl⟩
      next t' hok => exact ⟨.setUserRoles (statement_eq_ok hok), rfl⟩
  | resetUserPassword id password =>
      simp only [handle]
      split
      next _ => exact ⟨.nothing _, rfl⟩
      next _ =>
        split
        next _ => exact ⟨.nothing _, rfl⟩
        next hash _ =>
          split
          next _ _ => exact ⟨.nothing _, rfl⟩
          next t' hok =>
            cases statement_eq_ok hok
            exact ⟨.setUserPassword id hash, rfl⟩
  | disableUser id =>
      simp only [handle]
      split
      next _ _ => exact ⟨.nothing _, rfl⟩
      next u _ _ => exact ⟨.nothing _, rfl⟩
  | createRole name description =>
      simp only [handle]
      split
      next _ => exact ⟨.nothing _, rfl⟩
      next _ =>
        split
        next _ _ => exact ⟨.nothing _, rfl⟩
        next t' hok => exact ⟨.createRole (statement_eq_ok hok), rfl⟩
  | updateRole id description =>
      simp only [handle]
      split
      next _ _ => exact ⟨.nothing _, rfl⟩
      next t' hok =>
        cases statement_eq_ok hok
        exact ⟨.updateRole id description, rfl⟩
  | deleteRole id =>
      simp only [handle]
      split
      next _ => exact ⟨.nothing _, rfl⟩
      next _ _ _ => exact ⟨.nothing _, rfl⟩
      next t' hok => exact ⟨.deleteRole (statement_eq_ok hok), rfl⟩
  | setRolePermissions id permissions =>
      simp only [handle]
      split
      next _ _ => exact ⟨.nothing _, rfl⟩
      next t' hok => exact ⟨.setRolePermissions (statement_eq_ok hok), rfl⟩

theorem assignRoles_writes (id : Id) (roles : List Text) : Writes t .manageUser (assignRoles t id roles a) [] := by
  unfold assignRoles
  split
  next _ => exact .nothing _
  next _ =>
    split
    next _ _ => exact .nothing _
    next t' hok => exact .setUserRoles (statement_eq_ok hok)

theorem disable_writes (id : Id) (u : User) :
    Writes t .manageUser (disable t id u a).tables (disable t id u a).won ∧
      (disable t id u a).phase.handled = true := by
  unfold disable
  split
  next _ _ => exact ⟨.nothing _, rfl⟩
  next t' hok => exact ⟨.updateUser (statement_eq_ok hok), rfl⟩

section Session

variable {cookieName : Text} {parseSession : Text → Option Id} {hashPassword : Text → Option Text}

theorem requireSession_eq_ok {s : Sessions} {r : HttpRequest} {p : Principal}
    (h : requireSession cookieName s r = .ok p) :
    ∃ userID user, s.parseSession (sessionToken cookieName r) = some userID ∧
      s.getUserByID userID = some user ∧ user.active = true ∧
        s.userPermissionCodes userID = some p.permissions := by
  simp only [requireSession] at h
  split at h
  next _ => cases h
  next _ =>
    split at h
    next _ => cases h
    next userID hparse =>
      split at h
      next _ => cases h
      next user huser =>
        split at h
        next _ => cases h
        next hactive =>
          split at h
          next _ => cases h
          next perms hperms =>
            cases h
            exact ⟨userID, user, hparse, huser, by simpa using hactive, hperms⟩

/-- Who is admitted was found active, and holds the permission of the route now. -/
theorem authorize_eq_ok {user : Option (User × List Text)} {actor : Principal}
    (h : authorize cookieName parseSession t a rq user = .ok actor) :
    ∃ u names id, user = some (u, names) ∧ u.active = true ∧
      rq.session cookieName parseSession = some id ∧
        rq.call.permission.code ∈ t.userPermissionCodes id := by
  obtain ⟨p, hauth, h⟩ := Fallible.bind_eq_ok.mp h
  obtain ⟨u, hperm, h⟩ := Fallible.bind_eq_ok.mp h
  cases h
  obtain ⟨p, hsession, h⟩ := Fallible.bind_eq_ok.mp hauth
  obtain ⟨u, -, h⟩ := Fallible.bind_eq_ok.mp h
  cases h
  obtain ⟨id, found, hid, hfound, hactive, hperms⟩ := requireSession_eq_ok hsession
  obtain ⟨⟨u, names⟩, rfl, rfl⟩ := Option.map_eq_some_iff.mp hfound
  refine ⟨u, names, id, rfl, hactive, hid, ?_⟩
  have hmem := requirePermission_eq_ok.mp hperm
  simp only [sessionsAt] at hperms
  split at hperms
  next _ => cases hperms
  next _ => rwa [Option.some.inj hperms]

/-- The steps of a request. -/
inductive Steps (session : Option Id) (t : Identity) (rq : Request) : Outcome → Prop
  | userRead {user : Option (User × List Text)} (hphase : rq.phase = .arrived)
      (huser : ∀ u names, user = some (u, names) → ∃ id, session = some id ∧ t.getUserByID id = .ok (u, names)) :
      Steps session t rq { tables := t, phase := .userRead user }
  | refused (e : APIError) : Steps session t rq { tables := t, phase := .answered (.error e) }
  | admitted {u : User} {names : List Text} {id : Id} (hphase : rq.phase = .userRead (some (u, names)))
      (hactive : u.active = true) (hsession : session = some id)
      (hperm : rq.call.permission.code ∈ t.userPermissionCodes id) (actor : Principal) :
      Steps session t rq { tables := t, phase := .admitted actor }
  | writes {o : Outcome} (hphase : rq.phase.passed = true)
      (hwrites : Writes t rq.call.permission o.tables o.won) (hnext : o.phase.handled = true) :
      Steps session t rq o

theorem steps_of_outcome {o : Outcome} (h : outcome cookieName parseSession hashPassword t rq a = some o) :
    Steps (rq.session cookieName parseSession) t rq o := by
  unfold outcome at h
  split at h
  next hphase =>
    cases h
    refine .userRead hphase fun u names huser => ?_
    obtain ⟨id, hid, hread⟩ := Option.bind_eq_some_iff.mp huser
    refine ⟨id, hid, ?_⟩
    cases hstatement : a.statement (t.getUserByID id) with
    | error e => simp [hstatement, Except.toOption] at hread
    | ok r =>
        rw [hstatement] at hread
        cases hread
        exact statement_eq_ok hstatement
  next user hphase =>
    split at h
    next e _ =>
      cases h
      exact .refused e
    next actor hok =>
      cases h
      obtain ⟨u, names, id, rfl, hactive, hsession, hperm⟩ := authorize_eq_ok hok
      exact .admitted hphase hactive hsession hperm actor
  next _ actor hphase =>
    cases h
    obtain ⟨hwrites, hnext⟩ := handle_writes hashPassword actor rq.call
    exact .writes (by rw [hphase]; rfl) hwrites hnext
  next id _ _ _ _ _ roles hphase hcall =>
    cases h
    refine .writes (by rw [hphase]; rfl) ?_ rfl
    rw [hcall]
    exact assignRoles_writes id roles
  next u id hphase hcall =>
    cases h
    obtain ⟨hwrites, hnext⟩ := disable_writes id u
    refine .writes (by rw [hphase]; rfl) ?_ hnext
    rw [hcall]
    exact hwrites
  next id hphase =>
    cases h
    exact .writes (by rw [hphase]; rfl) (.nothing _) rfl
  next _ => cases h

end Session

end Steps

/-! ## The ceiling -/

section Ceiling

/-- The permissions of the catalog, and the two that change who has them. -/
def lawOf (t : Identity) : Law Text where
  catalog code := ∃ p ∈ t.permissions, p.code = code
  users := Permission.manageUser.code
  roles := Permission.manageRole.code

def coalition (taken : List Id) : Set Id := {u | u ∈ taken}

variable {t₀ t t' : Identity} {K₀ : Set Id} {taken won : List Id}

theorem getUserByID_active {id : Id} {u : User} {names : List Text} (h : t.getUserByID id = .ok (u, names))
    (hactive : u.active = true) : t.authority.active id := by
  unfold Identity.getUserByID at h
  split at h
  next _ => cases h
  next found hfind =>
    cases h
    exact ⟨u, List.mem_of_find?_eq_some hfind, by simpa using List.find?_some hfind, hactive⟩

theorem Writes.frame_users (h : Writes t .manageUser t' won) :
    t'.permissions = t.permissions ∧ t'.rolePermissions = t.rolePermissions := by
  cases h with
  | nothing => exact ⟨rfl, rfl⟩
  | createUser h =>
      obtain ⟨rfl, -⟩ := Identity.createUser_eq_ok h
      exact ⟨rfl, rfl⟩
  | updateUser h =>
      obtain ⟨_, -, rfl⟩ := Identity.updateUser_eq_ok h
      exact ⟨rfl, rfl⟩
  | setUserRoles h =>
      obtain ⟨_, -, rfl⟩ := Identity.setUserRoles_eq_ok h
      exact ⟨rfl, rfl⟩
  | setUserPassword => exact ⟨rfl, rfl⟩

theorem Writes.frame_roles (h : Writes t .manageRole t' won) :
    t'.users = t.users ∧ t'.permissions = t.permissions ∧ t'.userRoles ⊆ t.userRoles ∧ won = [] := by
  cases h with
  | nothing => exact ⟨rfl, rfl, List.Subset.refl _, rfl⟩
  | createRole h =>
      obtain ⟨rfl, -⟩ := Identity.createRole_eq_ok h
      exact ⟨rfl, rfl, List.Subset.refl _, rfl⟩
  | updateRole => exact ⟨rfl, rfl, List.Subset.refl _, rfl⟩
  | deleteRole h =>
      obtain ⟨-, rfl⟩ := Identity.deleteRole_eq_ok h
      exact ⟨rfl, rfl, List.filter_sublist.subset, rfl⟩
  | setRolePermissions h =>
      obtain ⟨_, -, rfl⟩ := Identity.setRolePermissions_eq_ok h
      exact ⟨rfl, rfl, List.Subset.refl _, rfl⟩

theorem Call.permission_cases (call : Call) :
    call.permission = .manageUser ∨ call.permission = .manageRole := by
  cases call <;> simp [Call.permission]

/-- A write below the ceiling keeps the bound, and the catalog. -/
theorem Writes.bounded {call : Call} (h : Writes t call.permission t' won)
    (hcatalog : t.permissions = t₀.permissions)
    (hbound : Authority.Bounded (lawOf t₀) t₀.authority K₀ t.authority (coalition taken))
    (hmay : Ceiling (lawOf t₀) t₀.authority K₀ call.permission.code) :
    t'.permissions = t₀.permissions ∧
      Authority.Bounded (lawOf t₀) t₀.authority K₀ t'.authority (coalition (taken ++ won)) := by
  rcases call.permission_cases with hp | hp
  · rw [hp] at h hmay
    obtain ⟨hpermissions, hlinks⟩ := h.frame_users
    refine ⟨hpermissions.trans hcatalog, hbound.change_accounts hmay ?_⟩
    rintro r code ⟨p, hmem, hlink, rfl⟩
    exact ⟨p, hpermissions ▸ hmem, hlinks ▸ hlink, rfl⟩
  · rw [hp] at h hmay
    obtain ⟨husers, hpermissions, hroles, rfl⟩ := h.frame_roles
    have hcatalog' := hpermissions.trans hcatalog
    rw [List.append_nil]
    refine ⟨hcatalog', hbound.change_roles hmay ?_ ?_ fun u r hr => hroles hr⟩
    · rintro r code ⟨p, hmem, -, rfl⟩
      exact ⟨p, hcatalog' ▸ hmem, rfl⟩
    · rintro u ⟨row, hrow, hactive⟩
      exact ⟨row, husers ▸ hrow, hactive⟩

end Ceiling

/-! ## Runs of a coalition -/

section Runs

variable (cookieName : Text) (parseSession : Text → Option Id) (hashPassword : Text → Option Text)

/-- Requests come with sessions of accounts that are taken. -/
def ByTaken (p : Requests) : PoolEvent Request Action → Prop
  | .join rq => ∀ id, rq.session cookieName parseSession = some id → id ∈ p.shared.taken
  | .act _ _ => True

/-- What is known of a request of the coalition. -/
structure RequestOk (t₀ : Identity) (K₀ : Set Id) (taken : List Id) (rq : Request) : Prop where
  session : ∀ id, rq.session cookieName parseSession = some id → id ∈ taken
  found : ∀ u names, rq.phase = .userRead (some (u, names)) → u.active = true →
    ∀ id, rq.session cookieName parseSession = some id → WasActive (lawOf t₀) t₀.authority K₀ id
  passed : rq.phase.passed = true → Ceiling (lawOf t₀) t₀.authority K₀ rq.call.permission.code

/-- The coalition has what the first state lets it get. -/
structure CoalitionInv (t₀ : Identity) (K₀ : Set Id) (p : Requests) : Prop where
  catalog : p.shared.tables.permissions = t₀.permissions
  bounded : Authority.Bounded (lawOf t₀) t₀.authority K₀ p.shared.tables.authority (coalition p.shared.taken)
  requests : ∀ rq ∈ p.threads, RequestOk cookieName parseSession t₀ K₀ p.shared.taken rq

variable {cookieName parseSession hashPassword} {t₀ : Identity} {K₀ : Set Id}

theorem RequestOk.mono {taken taken' : List Id} {rq : Request}
    (h : RequestOk cookieName parseSession t₀ K₀ taken rq) (hsub : taken ⊆ taken') :
    RequestOk cookieName parseSession t₀ K₀ taken' rq :=
  { h with session := fun id hid => hsub (h.session id hid) }

theorem coalitionInv_step {p p' : Requests} {e : PoolEvent Request Action}
    (hinv : CoalitionInv cookieName parseSession t₀ K₀ p) (hby : ByTaken cookieName parseSession p e)
    (h : step cookieName parseSession hashPassword p e = some p') :
    CoalitionInv cookieName parseSession t₀ K₀ p' := by
  obtain ⟨rq, rfl, hnew, rfl⟩ | ⟨i, a, rq, s', rq', rfl, hi, hact, rfl⟩ := poolStep_cases h
  · have harrived : rq.phase = .arrived := by
      unfold Request.isNew at hnew
      split at hnew
      next h => exact h
      next _ => cases hnew
    refine { hinv with requests := forall_mem_join hinv.requests ⟨hby, ?_, ?_⟩ }
    · intro u names hphase
      rw [harrived] at hphase
      cases hphase
    · intro hpassed
      rw [harrived] at hpassed
      cases hpassed
  · obtain ⟨o, ho, heq⟩ := Option.map_eq_some_iff.mp hact
    obtain ⟨rfl, rfl⟩ := Prod.mk.inj heq
    have hrq := hinv.requests rq (List.mem_of_getElem? hi)
    have hothers : ∀ r ∈ p.threads, RequestOk cookieName parseSession t₀ K₀ (p.shared.taken ++ o.won) r :=
      fun r hr => (hinv.requests r hr).mono (List.subset_append_left _ _)
    have hsession := (hrq.mono (List.subset_append_left _ o.won)).session
    cases steps_of_outcome ho with
    | userRead hphase huser =>
        refine ⟨hinv.catalog, by simpa using hinv.bounded, forall_mem_set hothers ⟨hsession, ?_, nofun⟩⟩
        rintro u names heq hactive id hid
        cases heq
        obtain ⟨id', hid', hread⟩ := huser u names rfl
        obtain rfl := Option.some.inj (hid'.symm.trans hid)
        exact hinv.bounded.wasActive (hrq.session _ hid') (getUserByID_active hread hactive)
    | refused e =>
        exact ⟨hinv.catalog, by simpa using hinv.bounded, forall_mem_set hothers ⟨hsession, nofun, nofun⟩⟩
    | admitted hphase hactive hid hperm actor =>
        refine ⟨hinv.catalog, by simpa using hinv.bounded, forall_mem_set hothers ⟨hsession, nofun, fun _ => ?_⟩⟩
        exact hinv.bounded.ceiling (hrq.session _ hid) (hrq.found _ _ hphase hactive _ hid)
          (Identity.mem_userPermissionCodes.mp hperm)
    | writes hphase hwrites hnext =>
        have hmay := hrq.passed hphase
        obtain ⟨hcatalog, hbounded⟩ := hwrites.bounded hinv.catalog hinv.bounded hmay
        refine ⟨hcatalog, hbounded, forall_mem_set hothers ⟨hsession, ?_, fun _ => hmay⟩⟩
        rintro u names heq
        rw [show o.phase = _ from heq] at hnext
        cases hnext

/-! ## How the ceiling is reached -/

variable (cookieName parseSession) in
/-- The request has a session of the user. -/
structure SessionOf (u : Id) (http : HttpRequest) : Prop where
  token : sessionToken cookieName http ≠ []
  user : parseSession (sessionToken cookieName http) = some u
  csrf : csrf cookieName http = .ok ()

variable (cookieName parseSession hashPassword) in
/-- Requests of the coalition lead from one state to the other. -/
def Leads (p p' : Requests) : Prop :=
  ∃ es, Each (step cookieName parseSession hashPassword) (ByTaken cookieName parseSession) p es ∧
    runs (step cookieName parseSession hashPassword) p es = some p'

theorem Leads.refl (p : Requests) : Leads cookieName parseSession hashPassword p p := ⟨[], trivial, rfl⟩

theorem Leads.trans {p p' p'' : Requests} (h : Leads cookieName parseSession hashPassword p p')
    (h' : Leads cookieName parseSession hashPassword p' p'') : Leads cookieName parseSession hashPassword p p'' := by
  obtain ⟨es, hby, hrun⟩ := h
  obtain ⟨es', hby', hrun'⟩ := h'
  exact ⟨es ++ es', hby.append hrun hby', (runs_append hrun).trans hrun'⟩

theorem Leads.single {p p' : Requests} {e : PoolEvent Request Action} (hby : ByTaken cookieName parseSession p e)
    (h : step cookieName parseSession hashPassword p e = some p') : Leads cookieName parseSession hashPassword p p' := by
  refine ⟨[e], .cons hby h trivial, ?_⟩
  simp [runs, h]

variable {s : Site} {rq : Request} {u : Id} {http : HttpRequest}

theorem leads_act (ts : List Request) {a : Action} {o : Outcome}
    (h : outcome cookieName parseSession hashPassword s.tables rq a = some o) :
    Leads cookieName parseSession hashPassword { shared := s, threads := ts ++ [rq] }
      { shared := { tables := o.tables, taken := s.taken ++ o.won },
        threads := ts ++ [{ rq with phase := o.phase }] } := by
  refine Leads.single (e := .act ts.length a) trivial ?_
  rw [step, poolStep_act_last, act, h]
  rfl

/-- Who has a session, is active and holds the permission of the route is admitted. -/
theorem authorize_of_commands {call : Call} {row : User} (names : List Text)
    (hsession : SessionOf cookieName parseSession u http) (hactive : row.active = true)
    (hholds : s.tables.authority.Holds u call.permission.code) (phase : Phase) :
    ∃ actor, authorize cookieName parseSession s.tables {} { http := http, call := call, phase := phase }
      (some (row, names)) = .ok actor := by
  let actor : Principal := ⟨u, row.username, names, s.tables.userPermissionCodes u⟩
  have hrequire : requireSession cookieName (sessionsAt parseSession s.tables {} (some (row, names))) http =
      .ok actor := by
    simp [requireSession, sessionsAt, hsession.token, hsession.user, hactive, actor]
  have hpermitted : requirePermission call.permission actor = .ok () :=
    requirePermission_eq_ok.mpr (Identity.mem_userPermissionCodes.mpr hholds)
  have hauth : authenticated cookieName (sessionsAt parseSession s.tables {} (some (row, names))) http =
      .ok actor :=
    Fallible.bind_eq_ok.mpr ⟨actor, hrequire, Fallible.bind_eq_ok.mpr ⟨(), hsession.csrf, rfl⟩⟩
  exact ⟨actor, Fallible.bind_eq_ok.mpr ⟨actor, hauth, Fallible.bind_eq_ok.mpr ⟨(), hpermitted, rfl⟩⟩⟩

variable (hashPassword) in
/-- An account of the coalition can make a request of any route it has the permission of. -/
theorem performs (ts : List Request) (call : Call) (hwf : s.tables.WellFormed) (hu : u ∈ s.taken)
    (hsession : SessionOf cookieName parseSession u http)
    (hcommands : s.tables.authority.Commands u call.permission.code) :
    ∃ actor ts', Leads cookieName parseSession hashPassword { shared := s, threads := ts }
      { shared :=
          { tables := (handle hashPassword s.tables actor call {}).tables
            taken := s.taken ++ (handle hashPassword s.tables actor call {}).won }
        threads := ts' } := by
  obtain ⟨⟨row, hrow, hid, hactive⟩, hholds⟩ := hcommands
  let rq : Request := { http := http, call := call }
  have hjoin : Leads cookieName parseSession hashPassword { shared := s, threads := ts }
      { shared := s, threads := ts ++ [rq] } := by
    refine Leads.single (e := .join rq) ?_ rfl
    intro id hid
    rw [Request.session, hsession.user] at hid
    cases hid
    exact hu
  have hread : s.tables.getUserByID u = .ok (row, s.tables.userRoleNames u) := by
    rw [Identity.getUserByID, (Rows.find_key_eq_some hwf.userIDs).mpr ⟨hrow, hid⟩]
  have hfirst : outcome cookieName parseSession hashPassword s.tables rq {} =
      some { tables := s.tables, phase := .userRead (some (row, s.tables.userRoleNames u)) } := by
    simp [outcome, rq, Request.session, hsession.user, Action.statement, hread, Except.toOption]
  obtain ⟨actor, hactor⟩ := authorize_of_commands (s.tables.userRoleNames u) hsession hactive hholds
    (.userRead (some (row, s.tables.userRoleNames u)))
  have hsecond : outcome cookieName parseSession hashPassword s.tables
      { rq with phase := .userRead (some (row, s.tables.userRoleNames u)) } {} =
        some { tables := s.tables, phase := .admitted actor } := by
    simp only [outcome]
    rw [hactor]
  have hthird : outcome cookieName parseSession hashPassword s.tables { rq with phase := .admitted actor } {} =
      some (handle hashPassword s.tables actor call {}) := rfl
  have h₁ := leads_act ts hfirst
  have h₂ := leads_act ts hsecond
  have h₃ := leads_act ts hthird
  simp only [List.append_nil] at h₁ h₂
  exact ⟨actor, _, ((hjoin.trans h₁).trans h₂).trans h₃⟩

/-- Who may change users can take a role, and has what it grants. -/
theorem gains_role (ts : List Request) {r : Id} {code : Text} (hwf : s.tables.WellFormed) (hu : u ∈ s.taken)
    (hsession : SessionOf cookieName parseSession u http)
    (hcommands : s.tables.authority.Commands u Permission.manageUser.code) (hgrants : s.tables.Grants r code) :
    ∃ s' ts', Leads cookieName parseSession hashPassword { shared := s, threads := ts }
        { shared := s', threads := ts' } ∧
      s'.tables.WellFormed ∧ s'.tables.permissions = s.tables.permissions ∧ u ∈ s'.taken ∧
        s'.tables.authority.Commands u code := by
  obtain ⟨role, hrole, rfl⟩ := hwf.exists_role hgrants
  obtain ⟨⟨row, hrow, hid, hactive⟩, hholds⟩ := hcommands
  have howner : u ∈ s.tables.userIDs := List.mem_map.mpr ⟨row, hrow, hid⟩
  obtain ⟨links, hlinks⟩ := Links.replaceLinks_isSome howner s.tables.roleNamed [role.name] s.tables.userRoles
  have hset : s.tables.setUserRoles u [role.name] = .ok { s.tables with userRoles := links } := by
    rw [Identity.setUserRoles, hlinks]
  obtain ⟨actor, ts', hleads⟩ := performs hashPassword ts (.setUserRoles u [role.name]) hwf hu
    hsession ⟨⟨row, hrow, hid, hactive⟩, hholds⟩
  have hhandle : handle hashPassword s.tables actor (.setUserRoles u [role.name]) {} =
      { tables := { s.tables with userRoles := links }, phase := .replying u } := by
    simp only [handle, Action.statement, Bool.false_eq_true, if_false, hset]
  rw [hhandle] at hleads
  have hlink : (u, role.id) ∈ links :=
    (Links.mem_replaceLinks hlinks).mpr
      (.inr ⟨rfl, role.name, List.mem_singleton_self _, (hwf.roleNamed_name hrole).mpr rfl⟩)
  exact ⟨_, ts', hleads, hwf.setUserRoles hset, rfl, List.mem_append_left _ hu,
    ⟨row, hrow, hid, hactive⟩, role.id, hlink, hgrants⟩

/-- Who may change roles can have its own role grant any permission. -/
theorem gains_permission (ts : List Request) {p : PermissionRow} (hwf : s.tables.WellFormed) (hu : u ∈ s.taken)
    (hsession : SessionOf cookieName parseSession u http)
    (hcommands : s.tables.authority.Commands u Permission.manageRole.code) (hp : p ∈ s.tables.permissions) :
    ∃ s' ts', Leads cookieName parseSession hashPassword { shared := s, threads := ts }
        { shared := s', threads := ts' } ∧
      u ∈ s'.taken ∧ s'.tables.authority.Commands u p.code := by
  obtain ⟨hactive, r, hassigned, hgrants⟩ := hcommands
  have howner : r ∈ s.tables.roleIDs := hwf.userRoles.target _ hassigned
  obtain ⟨links, hlinks⟩ :=
    Links.replaceLinks_isSome howner s.tables.permissionCoded [p.code] s.tables.rolePermissions
  have hset : s.tables.setRolePermissions r [p.code] = .ok { s.tables with rolePermissions := links } := by
    rw [Identity.setRolePermissions, hlinks]
  obtain ⟨actor, ts', hleads⟩ := performs hashPassword ts (.setRolePermissions r [p.code]) hwf hu
    hsession ⟨hactive, r, hassigned, hgrants⟩
  have hhandle : handle hashPassword s.tables actor (.setRolePermissions r [p.code]) {} =
      { tables := { s.tables with rolePermissions := links }, phase := .answered (.ok .ok) } := by
    simp only [handle, Action.statement, Bool.false_eq_true, if_false, hset]
  rw [hhandle] at hleads
  have hlink : (r, p.id) ∈ links :=
    (Links.mem_replaceLinks hlinks).mpr
      (.inr ⟨rfl, p.code, List.mem_singleton_self _, Identity.mem_permissionCoded.mpr ⟨p, hp, rfl, rfl⟩⟩)
  exact ⟨_, ts', hleads, List.mem_append_left _ hu, hactive, r, hassigned, p, hp, hlink, rfl⟩

def start (t : Identity) (K : List Id) : Requests := { shared := { tables := t, taken := K }, threads := [] }

/-- Some account of the coalition is active and holds the permission. -/
def Obtains (p : Requests) (code : Text) : Prop := Has p.shared.tables.authority (coalition p.shared.taken) code

theorem coalitionInv_start {t : Identity} (K : List Id) :
    CoalitionInv cookieName parseSession t (coalition K) (start t K) where
  catalog := rfl
  bounded := Authority.Bounded.refl fun _ _ ⟨p, hp, _, hcode⟩ => ⟨p, hp, hcode⟩
  requests _ h := absurd h List.not_mem_nil

/-- Nothing above the ceiling is obtained. -/
theorem ceiling_of_leads {t : Identity} {K : List Id} {p : Requests} {code : Text}
    (h : Leads cookieName parseSession hashPassword (start t K) p) (hobtains : Obtains p code) :
    Ceiling (lawOf t) t.authority (coalition K) code := by
  obtain ⟨es, hby, hrun⟩ := h
  have hinv : CoalitionInv cookieName parseSession t (coalition K) p :=
    (Along.of_each coalitionInv_step (coalitionInv_start K) hby).last hrun
  obtain ⟨u, hu, hactive, hholds⟩ := hobtains
  exact hinv.bounded.ceiling hu (hinv.bounded.wasActive hu hactive) hholds

/-- Everything below the ceiling is obtained by some requests. -/
theorem leads_of_ceiling {t : Identity} {K : List Id} {code : Text} (hwf : t.WellFormed)
    (hsessions : ∀ u ∈ K, ∃ http, SessionOf cookieName parseSession u http)
    (h : Ceiling (lawOf t) t.authority (coalition K) code) :
    ∃ p, Leads cookieName parseSession hashPassword (start t K) p ∧ Obtains p code := by
  rcases h with hhas | ⟨hroles | ⟨husers, r, hr⟩, p, hp, rfl⟩ | ⟨husers, r, hr⟩
  · exact ⟨start t K, .refl _, hhas⟩
  · obtain ⟨u, hu, hcommands⟩ := hroles
    obtain ⟨http, hsession⟩ := hsessions u hu
    obtain ⟨s', ts', hleads, hu', hobtains⟩ :=
      gains_permission (s := (start t K).shared) [] hwf hu hsession hcommands hp
    exact ⟨_, hleads, u, hu', hobtains⟩
  · -- first the role that may change roles, then the permission
    obtain ⟨u, hu, hcommands⟩ := husers
    obtain ⟨http, hsession⟩ := hsessions u hu
    obtain ⟨s₁, ts₁, hfirst, hwf₁, hcatalog, hu₁, hcommands₁⟩ :=
      gains_role (s := (start t K).shared) [] hwf hu hsession hcommands hr
    have hp₁ : p ∈ s₁.tables.permissions := by
      rw [hcatalog]
      exact hp
    obtain ⟨s', ts', hsecond, hu', hobtains⟩ := gains_permission ts₁ hwf₁ hu₁ hsession hcommands₁ hp₁
    exact ⟨_, hfirst.trans hsecond, u, hu', hobtains⟩
  · obtain ⟨u, hu, hcommands⟩ := husers
    obtain ⟨http, hsession⟩ := hsessions u hu
    obtain ⟨s', ts', hleads, -, -, hu', hobtains⟩ :=
      gains_role (s := (start t K).shared) [] hwf hu hsession hcommands hr
    exact ⟨_, hleads, u, hu', hobtains⟩

/-- What a coalition of accounts with sessions can bring about by requests of its own, in any
interleaving and with accounts it takes over on the way, is exactly what is below its ceiling. -/
theorem reachable_iff (cookieName : Text) (parseSession : Text → Option Id) (hashPassword : Text → Option Text)
    {t : Identity} {K : List Id} (hwf : t.WellFormed)
    (hsessions : ∀ u ∈ K, ∃ http, SessionOf cookieName parseSession u http) (code : Text) :
    (∃ p, Leads cookieName parseSession hashPassword (start t K) p ∧ Obtains p code) ↔
      Ceiling (lawOf t) t.authority (coalition K) code := by
  constructor
  · rintro ⟨p, hleads, hobtains⟩
    exact ceiling_of_leads hleads hobtains
  · exact leads_of_ceiling hwf hsessions

/-- Users may be managed by the account, and roles by another role. -/
def helpdesk : Identity where
  users := [⟨1, "Ops".toList, "ops@ddag.local".toList, "ops".toList, [], true, none, 0, none, none⟩]
  roles := [⟨1, "HELPDESK".toList, [], false⟩, ⟨2, "ROLES".toList, [], false⟩]
  permissions := [⟨1, "manage_user".toList, []⟩, ⟨2, "manage_role".toList, []⟩, ⟨3, "publish_api".toList, []⟩]
  rolePermissions := [(1, 1), (2, 2)]
  userRoles := [(1, 1)]

theorem helpdesk_wellFormed : helpdesk.WellFormed where
  userIDs := by decide
  emails := by decide
  usernames := by decide
  roleIDs := by decide
  roleNames := by decide
  permissionIDs := by decide
  codes := by decide
  rolePermissions := ⟨by decide, by decide, by decide⟩
  userRoles := ⟨by decide, by decide, by decide⟩

/-- A session of the account. -/
def helpdeskRequest : HttpRequest where
  method := "POST".toList
  headers name := if name = "Authorization".toList then ["Bearer t".toList] else []
  cookies := []

theorem helpdesk_session (u : Id) (hu : u ∈ [1]) :
    ∃ http, SessionOf "ddag_session".toList (fun _ => some 1) u http := by
  obtain rfl := List.mem_singleton.mp hu
  exact ⟨helpdeskRequest, by decide, rfl, rfl⟩

/-- The account comes to publish APIs, which no role grants at first. -/
theorem helpdesk_obtains_publish :
    ∃ p, Leads "ddag_session".toList (fun _ => some 1) some (start helpdesk [1]) p ∧
      Obtains p "publish_api".toList := by
  refine (reachable_iff "ddag_session".toList (fun _ => some 1) some helpdesk_wellFormed helpdesk_session
    "publish_api".toList).mpr ?_
  have husers : Has helpdesk.authority (coalition [1]) Permission.manageUser.code := by
    refine ⟨1, List.mem_singleton_self 1, ?_, 1, ?_, ?_⟩
    · exact ⟨_, List.mem_singleton_self _, rfl, rfl⟩
    · exact List.mem_singleton_self _
    · exact ⟨_, List.mem_cons_self, List.mem_cons_self, rfl⟩
  have hroles : ∃ r, helpdesk.Grants r Permission.manageRole.code :=
    ⟨2, _, List.mem_cons_of_mem _ List.mem_cons_self, List.mem_cons_of_mem _ List.mem_cons_self, rfl⟩
  refine .inr (.inl ⟨.inr ⟨husers, hroles⟩, ?_⟩)
  exact ⟨⟨3, "publish_api".toList, []⟩, by decide, rfl⟩

end Runs

/-! ## All requests -/

section Kept

/-- System roles are still there, under their names. -/
def SystemRolesKept (t t' : Identity) : Prop :=
  ∀ r ∈ t.roles, r.isSystem = true → ∃ r' ∈ t'.roles, r'.id = r.id ∧ r'.name = r.name ∧ r'.isSystem = true

variable {t t' t'' : Identity} {won : List Id}

theorem SystemRolesKept.of_roles (h : t'.roles = t.roles) : SystemRolesKept t t' :=
  fun r hr hsystem => ⟨r, h ▸ hr, rfl, rfl, hsystem⟩

theorem SystemRolesKept.trans (h : SystemRolesKept t t') (h' : SystemRolesKept t' t'') :
    SystemRolesKept t t'' := by
  intro r hr hsystem
  obtain ⟨r', hr', hid, hname, hsystem'⟩ := h r hr hsystem
  obtain ⟨r'', hr'', hid', hname', hsystem''⟩ := h' r' hr' hsystem'
  exact ⟨r'', hr'', hid'.trans hid, hname'.trans hname, hsystem''⟩

/-- Every write keeps the constraints and the system roles. -/
theorem Writes.kept {p : Permission} (h : Writes t p t' won) (hwf : t.WellFormed) :
    t'.WellFormed ∧ SystemRolesKept t t' := by
  cases h with
  | nothing => exact ⟨hwf, .of_roles rfl⟩
  | createUser h =>
      obtain ⟨rfl, -⟩ := Identity.createUser_eq_ok h
      exact ⟨hwf.createUser h, .of_roles rfl⟩
  | updateUser h =>
      obtain ⟨_, -, rfl⟩ := Identity.updateUser_eq_ok h
      exact ⟨hwf.updateUser h, .of_roles rfl⟩
  | setUserRoles h =>
      obtain ⟨_, -, rfl⟩ := Identity.setUserRoles_eq_ok h
      exact ⟨hwf.setUserRoles h, .of_roles rfl⟩
  | setUserPassword id hash => exact ⟨hwf.setUserPassword id hash, .of_roles rfl⟩
  | createRole h =>
      obtain ⟨rfl, -⟩ := Identity.createRole_eq_ok h
      exact ⟨hwf.createRole h, fun r hr hsystem => ⟨r, List.mem_append_left _ hr, rfl, rfl, hsystem⟩⟩
  | updateRole id description =>
      refine ⟨hwf.updateRoleDescription id description, fun r hr hsystem => ?_⟩
      refine ⟨_, List.mem_map_of_mem hr, ?_⟩
      split
      next _ => exact ⟨rfl, rfl, hsystem⟩
      next _ => exact ⟨rfl, rfl, hsystem⟩
  | deleteRole h =>
      obtain ⟨-, rfl⟩ := Identity.deleteRole_eq_ok h
      refine ⟨hwf.deleteRole h, fun r hr hsystem => ⟨r, ?_, rfl, rfl, hsystem⟩⟩
      exact List.mem_filter.mpr ⟨hr, by simp [hsystem]⟩
  | setRolePermissions h =>
      obtain ⟨_, -, rfl⟩ := Identity.setRolePermissions_eq_ok h
      exact ⟨hwf.setRolePermissions h, .of_roles rfl⟩

variable {cookieName : Text} {parseSession : Text → Option Id} {hashPassword : Text → Option Text}

theorem kept_step {p p' : Requests} {e : PoolEvent Request Action} (hwf : p.shared.tables.WellFormed)
    (h : step cookieName parseSession hashPassword p e = some p') :
    p'.shared.tables.WellFormed ∧ SystemRolesKept p.shared.tables p'.shared.tables := by
  obtain ⟨rq, rfl, -, rfl⟩ | ⟨i, a, rq, s', rq', rfl, -, hact, rfl⟩ := poolStep_cases h
  · exact ⟨hwf, .of_roles rfl⟩
  · obtain ⟨o, ho, heq⟩ := Option.map_eq_some_iff.mp hact
    obtain ⟨rfl, rfl⟩ := Prod.mk.inj heq
    cases steps_of_outcome ho with
    | userRead hphase huser => exact ⟨hwf, .of_roles rfl⟩
    | refused e => exact ⟨hwf, .of_roles rfl⟩
    | admitted hphase hactive hid hperm actor => exact ⟨hwf, .of_roles rfl⟩
    | writes hphase hwrites hnext => exact hwrites.kept hwf

end Kept

end DDAG.AdminSvc.Accounts
