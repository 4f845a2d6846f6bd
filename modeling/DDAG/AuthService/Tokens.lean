import DDAG.Connectors.Bind
import DDAG.Lib.Pool
import DDAG.Lib.Strings
import DDAG.Lib.Trace
import Mathlib.Logic.Function.Basic

/-!
# Tokens and clients

The token requests of `internal/authservice/service.go` together with the two admin
handlers that take rights away from a client, `setClientScopes` and `rotateClientSecret`
of `internal/adminsvc/handlers_clients.go`.  A request is a thread, and each statement of
the store is one step, so requests of both services interleave anywhere between their
statements.

An access token is signed from a *grant*: a client and a scope.  A grant comes from a
client row and its scopes, or from the refresh token that was stored with an earlier one.
Secrets are compared as they are and not by their hashes, and likewise refresh tokens.

Two ghosts follow a secret: each client row counts the rotations of its secret, and a
grant has, as its *root*, the count of the row whose secret it was obtained with.  A
refresh keeps the root.
-/

namespace DDAG.AuthService

open Machine

/-! ## Scopes -/

/-- The scope to grant, or `none` if a requested scope is not allowed. -/
def resolveScope (requested : Text) (allowed : List Text) : Option Text :=
  if Strings.trimSpace requested = [] then some (Strings.join allowed [' '])
  else if (Strings.fields requested).all (Strings.isOneOf allowed) then
    some (Strings.join (Strings.fields requested) [' '])
  else none

/-- What is granted is allowed, provided that each allowed scope is one word. -/
theorem resolveScope_subset {requested scope : Text} {allowed : List Text}
    (hwords : ∀ code ∈ allowed, Strings.IsWord code) (h : resolveScope requested allowed = some scope) :
    ∀ s ∈ Strings.fields scope, s ∈ allowed := by
  unfold resolveScope at h
  split at h
  next _ =>
    cases h
    rw [Strings.fields_join hwords]
    exact fun s hs => hs
  next _ =>
    split at h
    next hall =>
      cases h
      rw [Strings.fields_join fun w hw => Strings.isWord_of_mem_fields hw]
      intro s hs
      exact Strings.isOneOf_iff.1 (List.all_eq_true.1 hall s hs)
    next _ => cases h

/-! ## The store -/

/-- A row of `clients`. -/
structure ClientRow where
  active : Bool := true
  secret : Text
  /-- Ghost: how often the secret was rotated. -/
  version : Nat := 0
deriving DecidableEq

/-- What tokens are issued from. -/
structure Grant (κ : Type*) where
  client : κ
  scope : Text
  /-- Ghost: the version of the secret the grant was obtained with. -/
  root : Nat
deriving DecidableEq

/-- A row of `refresh_tokens`. -/
structure RefreshToken (κ : Type*) where
  token : Text
  grant : Grant κ
  expiresAt : Int
  revoked : Bool := false
deriving DecidableEq

structure Store (κ : Type*) where
  /-- The codes of `scopes`, in their order. -/
  scopeCodes : List Text
  clients : κ → Option ClientRow
  /-- The rows of `client_scopes`. -/
  clientScopes : κ → List Text
  refreshTokens : List (RefreshToken κ)
  /-- Ghost: the version that the last rotation to return has set. -/
  returned : κ → Nat

namespace Store

variable {κ : Type*} (st : Store κ)

/-- The scopes of a client, as `hydrateClient` reads them. -/
def scopesOf (c : κ) : List Text := st.scopeCodes.filter (Strings.isOneOf (st.clientScopes c))

def version (c : κ) : Nat := ((st.clients c).map ClientRow.version).getD 0

/-- The condition of `consumeRefreshTokenSQL`. -/
def usable (token : Text) (now : Int) (row : RefreshToken κ) : Bool :=
  row.token = token && !row.revoked && now < row.expiresAt

def consumeRefreshToken (token : Text) (now : Int) : Store κ :=
  { st with refreshTokens := st.refreshTokens.map fun row =>
      if usable token now row then { row with revoked := true } else row }

def createRefreshToken (token : Text) (grant : Grant κ) (expiresAt : Int) : Store κ :=
  { st with refreshTokens := st.refreshTokens ++ [{ token := token, grant := grant, expiresAt := expiresAt }] }

section Clients

variable [DecidableEq κ]

def setClientScopes (c : κ) (codes : List Text) : Store κ :=
  { st with clientScopes := Function.update st.clientScopes c (st.scopeCodes.filter (Strings.isOneOf codes)) }

/-- `RotateClientSecret`, which does nothing for a client that is not there. -/
def rotateClientSecret (c : κ) (secret : Text) : Store κ :=
  { st with clients := Function.update st.clients c ((st.clients c).map fun row =>
      { row with secret := secret, version := row.version + 1 }) }

def revokeClientRefreshTokens (c : κ) : Store κ :=
  { st with refreshTokens := st.refreshTokens.map fun row =>
      if row.grant.client = c then { row with revoked := true } else row }

/-- A rotation that set the version `v` returns. -/
def noteReturn (c : κ) (v : Nat) : Store κ :=
  { st with returned := Function.update st.returned c (max (st.returned c) v) }

end Clients

end Store

theorem mem_of_revoke {κ : Type*} {rows : List (RefreshToken κ)} {b : RefreshToken κ → Prop}
    [DecidablePred b] {row : RefreshToken κ}
    (hrow : row ∈ rows.map fun row => if b row then { row with revoked := true } else row)
    (hlive : row.revoked = false) : row ∈ rows ∧ ¬ b row := by
  obtain ⟨old, hold, rfl⟩ := List.mem_map.1 hrow
  by_cases hb : b old
  · rw [if_pos hb] at hlive
    cases hlive
  · rw [if_neg hb]
    exact ⟨hold, hb⟩

/-- What holds of the rows that are not revoked still does when others are revoked. -/
theorem forall_live_revoke {κ : Type*} {rows : List (RefreshToken κ)} {b : RefreshToken κ → Prop}
    [DecidablePred b] {P : RefreshToken κ → Prop} (h : ∀ row ∈ rows, row.revoked = false → P row) :
    ∀ row ∈ rows.map fun row => if b row then { row with revoked := true } else row,
      row.revoked = false → P row :=
  fun row hrow hlive => h row (mem_of_revoke hrow hlive).1 hlive

theorem Store.usable_live {κ : Type*} {token : Text} {now : Int} {row : RefreshToken κ}
    (h : Store.usable token now row = true) : row.revoked = false := by
  simp only [Store.usable, Bool.and_eq_true, Bool.not_eq_true'] at h
  exact h.1.2

theorem Store.usable_unexpired {κ : Type*} {token : Text} {now : Int} {row : RefreshToken κ}
    (h : Store.usable token now row = true) : now < row.expiresAt := by
  simp only [Store.usable, Bool.and_eq_true, decide_eq_true_eq] at h
  exact h.2

/-! ## Requests -/

/-- The body of an OAuth error. -/
structure OAuthError where
  status : Nat
  error : Text
  description : Text
deriving DecidableEq

def oauthError (status : Nat) (error description : String) : OAuthError :=
  ⟨status, error.toList, description.toList⟩

/-- A request of either service, and how far it is. -/
inductive Request (κ : Type*) where
  /-- `clientCredentials`. -/
  | credentials (client : κ) (secret scope : Text)
  /-- The client row is read, its scopes are not. -/
  | found (client : κ) (row : ClientRow) (secret scope : Text)
  /-- `refresh`. -/
  | refreshing (token : Text)
  /-- The refresh token is consumed. -/
  | consumed (grant : Grant κ)
  /-- `issueTokens` is called. -/
  | granted (grant : Grant κ)
  /-- The access token is signed, and its refresh token is not stored. -/
  | signed (grant : Grant κ)
  | answered (grant : Grant κ) (token : Text)
  | refused (err : OAuthError)
  /-- `setClientScopes`. -/
  | settingScopes (client : κ) (codes : List Text)
  /-- `rotateClientSecret`. -/
  | rotating (client : κ) (secret : Text)
  /-- The new secret is stored, as the version `v`. -/
  | revoking (client : κ) (v : Nat)
  /-- Refresh tokens are revoked, or failed to be. -/
  | returning (client : κ) (v : Nat)
  | done
deriving DecidableEq

def Request.isNew {κ : Type*} : Request κ → Bool
  | .credentials _ _ _ | .refreshing _ | .settingScopes _ _ | .rotating _ _ => true
  | _ => false

/-- The statements.  Each may fail. -/
inductive Statement where
  /-- `SELECT` of a client row. -/
  | readClient (err : Bool)
  /-- `SELECT` of the scopes of the client. -/
  | readScopes (err : Bool)
  | consume (now : Int) (err : Bool)
  /-- `IssueAccessToken`, which is no statement but may fail as well. -/
  | sign (err : Bool)
  /-- `CreateRefreshToken`, with the token that was drawn. -/
  | create (token : Text) (expiresAt : Int) (err : Bool)
  /-- `SetClientScopes`, with the time at which it is executed. -/
  | setScopes (now : Int) (err : Bool)
  | rotate (err : Bool)
  | revoke (err : Bool)
  /-- The admin handler writes its answer. -/
  | respond

/-- `clientCredentials` once the client is read with its scopes. -/
def checkClient (row : ClientRow) (secret scope : Text) (scopes : List Text) : Except OAuthError Text :=
  if !row.active then .error (oauthError 401 "invalid_client" "client not found or inactive")
  else if row.secret ≠ secret then .error (oauthError 401 "invalid_client" "invalid client secret")
  else
    match resolveScope scope scopes with
    | none => .error (oauthError 400 "invalid_scope" "requested scope exceeds client grants")
    | some granted => .ok granted

theorem checkClient_ok {row : ClientRow} {secret scope granted : Text} {scopes : List Text}
    (h : checkClient row secret scope scopes = .ok granted) :
    row.active = true ∧ row.secret = secret ∧ resolveScope scope scopes = some granted := by
  unfold checkClient at h
  split at h
  next _ => cases h
  next hactive =>
    split at h
    next _ => cases h
    next hsecret =>
      split at h
      next _ => cases h
      next hscope =>
        cases h
        exact ⟨by simpa using hactive, not_not.1 hsecret, hscope⟩

section Statements

variable {κ : Type*} [DecidableEq κ]

/-- One statement of a request. -/
def tokenAct (st : Store κ) : Request κ → Statement → Option (Store κ × Request κ)
  | .credentials c secret scope, .readClient err =>
      match st.clients c with
      | some row =>
          if err then some (st, .refused (oauthError 401 "invalid_client" "client not found or inactive"))
          else some (st, .found c row secret scope)
      | none => some (st, .refused (oauthError 401 "invalid_client" "client not found or inactive"))
  | .found c row secret scope, .readScopes err =>
      if err then some (st, .refused (oauthError 401 "invalid_client" "client not found or inactive"))
      else
        match checkClient row secret scope (st.scopesOf c) with
        | .error e => some (st, .refused e)
        | .ok granted => some (st, .granted ⟨c, granted, row.version⟩)
  | .refreshing token, .consume now err =>
      if token = [] then some (st, .refused (oauthError 400 "invalid_request" "refresh_token is required"))
      else
        match st.refreshTokens.find? (Store.usable token now) with
        | some row =>
            if err then some (st, .refused (oauthError 400 "invalid_grant"
              "refresh token is invalid, expired or revoked"))
            else some (st.consumeRefreshToken token now, .consumed row.grant)
        | none => some (st, .refused (oauthError 400 "invalid_grant"
            "refresh token is invalid, expired or revoked"))
  | .consumed grant, .readClient err =>
      match st.clients grant.client with
      | some row =>
          if err || !row.active then some (st, .refused (oauthError 400 "invalid_grant" "client is inactive"))
          else some (st, .granted grant)
      | none => some (st, .refused (oauthError 400 "invalid_grant" "client is inactive"))
  | .granted grant, .sign err =>
      if err then some (st, .refused (oauthError 500 "server_error" "failed to issue token"))
      else some (st, .signed grant)
  | .signed grant, .create token expiresAt err =>
      -- The hashes of refresh tokens are unique.
      if err || st.refreshTokens.any (fun row => row.token = token) then
        some (st, .refused (oauthError 500 "server_error" "failed to persist refresh token"))
      else some (st.createRefreshToken token grant expiresAt, .answered grant token)
  | .settingScopes c codes, .setScopes _ err =>
      if err then some (st, .done) else some (st.setClientScopes c codes, .done)
  | .rotating c secret, .rotate err =>
      if err then some (st, .done)
      else
        let st' := st.rotateClientSecret c secret
        some (st', .revoking c (st'.version c))
  | .revoking c v, .revoke err =>
      -- An error of the revocation is ignored.
      some (if err then st else st.revokeClientRefreshTokens c, .returning c v)
  | .returning c v, .respond => some (st.noteReturn c v, .done)
  | _, _ => none

abbrev TokenService (κ : Type*) := Pool (Store κ) (Request κ)

abbrev TokenEvent (κ : Type*) := PoolEvent (Request κ) Statement

def tokenStep (p : TokenService κ) (e : TokenEvent κ) : Option (TokenService κ) :=
  poolStep Request.isNew tokenAct p e

/-- Clients with their scopes, before any request. -/
def opening (scopeCodes : List Text) (clients : κ → Option ClientRow) (clientScopes : κ → List Text) :
    TokenService κ :=
  { shared := { scopeCodes := scopeCodes, clients := clients, clientScopes := clientScopes
                refreshTokens := [], returned := fun _ => 0 }
    threads := [] }

/-! ## What a statement does -/

/-- What a statement can do to the store and to its request. -/
inductive Executes (st : Store κ) : Request κ → Statement → Store κ → Request κ → Prop where
  | refused (r : Request κ) (a : Statement) (err : OAuthError) : Executes st r a st (.refused err)
  | stopped (r : Request κ) (a : Statement) : Executes st r a st .done
  | found {c : κ} {row : ClientRow} (secret scope : Text) (hrow : st.clients c = some row) :
      Executes st (.credentials c secret scope) (.readClient false) st (.found c row secret scope)
  | granted {c : κ} {row : ClientRow} {secret scope granted : Text} (hactive : row.active = true)
      (hsecret : row.secret = secret) (hscope : resolveScope scope (st.scopesOf c) = some granted) :
      Executes st (.found c row secret scope) (.readScopes false) st
        (.granted ⟨c, granted, row.version⟩)
  | consumed {row : RefreshToken κ} {token : Text} {now : Int} (hrow : row ∈ st.refreshTokens)
      (husable : Store.usable token now row = true) :
      Executes st (.refreshing token) (.consume now false) (st.consumeRefreshToken token now)
        (.consumed row.grant)
  | regranted (grant : Grant κ) :
      Executes st (.consumed grant) (.readClient false) st (.granted grant)
  | signed (grant : Grant κ) : Executes st (.granted grant) (.sign false) st (.signed grant)
  | created (grant : Grant κ) (token : Text) (expiresAt : Int) :
      Executes st (.signed grant) (.create token expiresAt false)
        (st.createRefreshToken token grant expiresAt) (.answered grant token)
  | scopesSet (c : κ) (codes : List Text) (now : Int) :
      Executes st (.settingScopes c codes) (.setScopes now false) (st.setClientScopes c codes) .done
  | rotated (c : κ) (secret : Text) :
      Executes st (.rotating c secret) (.rotate false) (st.rotateClientSecret c secret)
        (.revoking c ((st.rotateClientSecret c secret).version c))
  | revoked (c : κ) (v : Nat) :
      Executes st (.revoking c v) (.revoke false) (st.revokeClientRefreshTokens c) (.returning c v)
  | unrevoked (c : κ) (v : Nat) : Executes st (.revoking c v) (.revoke true) st (.returning c v)
  | returned (c : κ) (v : Nat) : Executes st (.returning c v) .respond (st.noteReturn c v) .done

theorem tokenAct_cases {st st' : Store κ} {r r' : Request κ} {a : Statement}
    (h : tokenAct st r a = some (st', r')) : Executes st r a st' r' := by
  unfold tokenAct at h
  split at h
  next c secret scope err =>
    split at h
    next row hrow =>
      cases err with
      | true => cases h; exact .refused _ _ _
      | false => cases h; exact .found secret scope hrow
    next _ => cases h; exact .refused _ _ _
  next c row secret scope err =>
    cases err with
    | true => cases h; exact .refused _ _ _
    | false =>
        rw [if_neg Bool.false_ne_true] at h
        split at h
        next e _ => cases h; exact .refused _ _ _
        next granted hcheck =>
          cases h
          obtain ⟨hactive, hsecret, hscope⟩ := checkClient_ok hcheck
          exact .granted hactive hsecret hscope
  next token now err =>
    split at h
    next _ => cases h; exact .refused _ _ _
    next _ =>
      split at h
      next row hfind =>
        cases err with
        | true => cases h; exact .refused _ _ _
        | false =>
            cases h
            exact .consumed (List.mem_of_find?_eq_some hfind) (List.find?_some hfind)
      next _ => cases h; exact .refused _ _ _
  next grant err =>
    split at h
    next row _ =>
      split at h
      next _ => cases h; exact .refused _ _ _
      next herr =>
        cases h
        cases err with
        | true => exact absurd rfl herr
        | false => exact .regranted grant
    next _ => cases h; exact .refused _ _ _
  next grant err =>
    cases err with
    | true => cases h; exact .refused _ _ _
    | false => cases h; exact .signed grant
  next grant token expiresAt err =>
    split at h
    next _ => cases h; exact .refused _ _ _
    next herr =>
      cases h
      cases err with
      | true => exact absurd rfl herr
      | false => exact .created grant token expiresAt
  next c codes now err =>
    cases err with
    | true => cases h; exact .stopped _ _
    | false => cases h; exact .scopesSet c codes now
  next c secret err =>
    cases err with
    | true => cases h; exact .stopped _ _
    | false => cases h; exact .rotated c secret
  next c v err =>
    cases err with
    | true => cases h; exact .unrevoked c v
    | false => cases h; exact .revoked c v
  next c v =>
    cases h
    exact .returned c v
  next => cases h

end Statements

end DDAG.AuthService
