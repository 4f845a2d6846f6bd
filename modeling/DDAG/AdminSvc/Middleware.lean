import DDAG.Httpx
import DDAG.Lib.Fallible
import DDAG.Models

/-!
# Sessions and request forgery

The middleware of `internal/adminsvc/middleware.go` around every authenticated route.
`requireSession` finds the user of a request by the session token, which `sessionToken` takes
from the session cookie first and from a bearer header second.  `csrf` asks requests that change
state for a token that a foreign site does not know, unless they carry a bearer header: it takes
the header first.

`csrf_sound_iff` says for which `Authorization` headers no state change is accepted on the
strength of the cookie alone: for those that are no bearer header.  `forged_request_accepted` is a
request with any bearer header at all, and with the cookie that a browser adds.
-/

namespace DDAG.AdminSvc

open Models Httpx Fallible

/-! ## Requests -/

/-- What the middleware reads of a request: its headers by their canonical names, and its
cookies. -/
structure HttpRequest where
  method : Text
  headers : Text → List Text
  cookies : List (Text × Text)

/-- `r.Header.Get`. -/
def HttpRequest.get (r : HttpRequest) (name : String) : Text := (r.headers name.toList).headD []

/-- `r.Cookie`: the first cookie of the name. -/
def HttpRequest.cookie? (r : HttpRequest) (name : Text) : Option Text :=
  if name = [] then none else r.cookies.lookup name

def safeMethod (method : Text) : Bool :=
  method = "GET".toList || method = "HEAD".toList || method = "OPTIONS".toList

/-- `strings.HasPrefix(h, "Bearer ")`. -/
def isBearer (authorization : Text) : Bool := Strings.hasPrefix authorization "Bearer ".toList

/-! ## The middleware -/

section Source

variable (cookieName : Text)

def csrf (r : HttpRequest) : Except APIError Unit :=
  if safeMethod r.method then .ok ()
  else if isBearer (r.get "Authorization") then .ok ()
  else
    match r.cookie? cookieName with
    | none => .ok ()
    | some _ =>
        match r.cookie? "ddag_csrf".toList with
        | none => .error (newError .forbidden "csrf token is required")
        | some v =>
            if v = [] ∨ r.get "X-CSRF-Token" ≠ v then .error (newError .forbidden "csrf token is required")
            else .ok ()

def sessionToken (r : HttpRequest) : Text :=
  match r.cookie? cookieName with
  | some (c :: rest) => c :: rest
  | _ =>
      let h := r.get "Authorization"
      if isBearer h then Strings.trimSpace (h.drop "Bearer ".length) else []

structure DashboardUser where
  username : Text
  /-- The status is `active`. -/
  active : Bool
  roles : List Text

structure Principal where
  userID : Id
  username : Text
  roles : List Text
  permissions : List Text

/-- What sessions are checked against. -/
structure Sessions where
  parseSession : Text → Option Id
  getUserByID : Id → Option DashboardUser
  userPermissionCodes : Id → Option (List Text)

def requireSession (s : Sessions) (r : HttpRequest) : Except APIError Principal :=
  let tok := sessionToken cookieName r
  if tok = [] then .error (newError .unauthorized "authentication required")
  else
    match s.parseSession tok with
    | none => .error (newError .unauthorized "invalid or expired session")
    | some userID =>
        match s.getUserByID userID with
        | none => .error (newError .unauthorized "user not found or inactive")
        | some user =>
            if !user.active then .error (newError .unauthorized "user not found or inactive")
            else
              match s.userPermissionCodes userID with
              | none => .error (newError .internal "failed to load permissions")
              | some perms => .ok ⟨userID, user.username, user.roles, perms⟩

/-- The two in the order of the routes: the principal a handler gets. -/
def authenticated (s : Sessions) (r : HttpRequest) : Except APIError Principal := do
  let principal ← requireSession cookieName s r
  csrf cookieName r
  return principal

/-! ## Who is asked for a token -/

/-- The session is that of the cookie. -/
def CookieAuthenticated (r : HttpRequest) : Prop :=
  ∃ c, r.cookie? cookieName = some c ∧ sessionToken cookieName r = c

/-- The header repeats the cookie `ddag_csrf`, which is not empty. -/
def TokenMatches (r : HttpRequest) : Prop :=
  ∃ v, r.cookie? "ddag_csrf".toList = some v ∧ v ≠ [] ∧ r.get "X-CSRF-Token" = v

/-- No request with this `Authorization` header changes state by its cookie, unless the token
matches. -/
def CsrfSound (authorization : Text) : Prop :=
  ∀ r : HttpRequest, r.get "Authorization" = authorization → safeMethod r.method = false →
    csrf cookieName r = .ok () → CookieAuthenticated cookieName r → TokenMatches r

variable {cookieName}

theorem tokenMatches_of_csrf {r : HttpRequest} {c : Text} (hmethod : safeMethod r.method = false)
    (hbearer : isBearer (r.get "Authorization") = false) (hcookie : r.cookie? cookieName = some c)
    (h : csrf cookieName r = .ok ()) : TokenMatches r := by
  simp only [csrf, hmethod, hbearer, hcookie, Bool.false_eq_true, if_false] at h
  split at h
  next _ => cases h
  next v hv =>
    rcases ite_eq_ok h with ⟨-, h⟩ | ⟨hmatch, -⟩
    · cases h
    · obtain ⟨hne, hheader⟩ := not_or.mp hmatch
      exact ⟨v, hv, hne, not_not.mp hheader⟩

theorem csrf_of_bearer {r : HttpRequest} (h : isBearer (r.get "Authorization") = true) :
    csrf cookieName r = .ok () := by
  simp [csrf, h]

theorem sessionToken_of_cookie {r : HttpRequest} {c : Text} (h : r.cookie? cookieName = some c)
    (hne : c ≠ []) : sessionToken cookieName r = c := by
  obtain ⟨x, rest, rfl⟩ := List.exists_cons_of_ne_nil hne
  simp [sessionToken, h]

end Source

/-- A request from a foreign site: the browser adds the session cookie. -/
def forgedRequest (cookieName authorization : Text) : HttpRequest where
  method := "POST".toList
  headers name := if name = "Authorization".toList then [authorization] else []
  cookies := [(cookieName, "session".toList)]

theorem forged_cookie {cookieName : Text} (hname : cookieName ≠ []) (authorization : Text) :
    (forgedRequest cookieName authorization).cookie? cookieName = some "session".toList := by
  rw [HttpRequest.cookie?, if_neg hname]
  exact List.lookup_cons_self

theorem not_tokenMatches_forged (cookieName authorization : Text) :
    ¬TokenMatches (forgedRequest cookieName authorization) := by
  rintro ⟨v, -, hne, hheader⟩
  exact hne hheader.symm

/-- No state change is accepted on the strength of the session cookie alone exactly for the
`Authorization` headers that are no bearer header, or if sessions have no cookie. -/
theorem csrf_sound_iff (cookieName authorization : Text) :
    CsrfSound cookieName authorization ↔ cookieName = [] ∨ isBearer authorization = false := by
  constructor
  · intro h
    by_contra hno
    obtain ⟨hname, hbearer⟩ := not_or.mp hno
    have hcookie := forged_cookie hname authorization
    refine not_tokenMatches_forged cookieName authorization
      (h _ rfl rfl (csrf_of_bearer ?_) ⟨_, hcookie, sessionToken_of_cookie hcookie ?_⟩)
    · exact Bool.of_not_eq_false hbearer
    · exact List.cons_ne_nil _ _
  · rintro (rfl | hbearer) r hauth hmethod hpassed ⟨c, hcookie, -⟩
    · simp [HttpRequest.cookie?] at hcookie
    · subst hauth
      exact tokenMatches_of_csrf hmethod hbearer hcookie hpassed

/-- Any bearer header will do: the forged request is accepted, with the session of the cookie. -/
theorem forged_request_accepted :
    let r := forgedRequest "ddag_session".toList "Bearer x".toList
    let s : Sessions :=
      { parseSession := fun tok => if tok = "session".toList then some 1 else none
        getUserByID := fun _ => some ⟨"admin".toList, true, []⟩
        userPermissionCodes := fun _ => some ["manage_user".toList] }
    safeMethod r.method = false ∧ csrf "ddag_session".toList r = .ok () ∧
      r.cookie? "ddag_session".toList = some (sessionToken "ddag_session".toList r) ∧
      (authenticated "ddag_session".toList s r).map Principal.username = .ok "admin".toList ∧
      r.get "X-CSRF-Token" = [] ∧ r.cookie? "ddag_csrf".toList = none := by
  exact ⟨rfl, rfl, rfl, rfl, rfl, rfl⟩

end DDAG.AdminSvc
