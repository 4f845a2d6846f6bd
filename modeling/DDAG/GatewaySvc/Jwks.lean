import DDAG.Auth.AccessToken
import DDAG.AuthService.Keys
import DDAG.Httpx

/-!
# Tokens from the replicas to the gateway

`jwksCache` of `internal/gatewaysvc/jwks.go` and `authenticate` of `internal/gatewaysvc/service.go`, with
`jwks` of the key manager and the call of `IssueAccessToken` in `issueTokens` of
`internal/authservice`.  The replicas of the auth service start as in `DDAG.AuthService.Keys`, sign
tokens, and publish their keys.  The gateway fetches the keys of any of them, or fails to, and looks at
tokens with the keys of the last fetch that was good.  All of it interleaves in any order.

* `authenticated_iff`: the gateway accepts exactly the tokens that a replica signed with these claims, under
  a key of its last good fetch, as long as their time and its issuer and audience agree.
* `issued_accepted`: if no key is inserted after a replica has started, a gateway that has fetched keys
  once accepts every token in force, whichever replica issued it.
* `introspection_agrees`: in such runs the introspection of a replica answers as the gateway does.
-/

namespace DDAG.GatewaySvc

open Machine AuthService Auth

/-! ## The keys of the gateway -/

/-- `keys` of the cache: the last entry of a `kid` counts. -/
abbrev KeySet := List (Text × PublicKey)

def keyfunc (keys : KeySet) (kid : Text) : Option PublicKey := (keys.reverse.find? (·.1 = kid)).map Prod.snd

def usableKeys (set : List JWK) : KeySet := set.filterMap fun j => (jwkToPublic j).map (j.kid, ·)

/-- `refresh`, with the set that was fetched. -/
def refresh (keys : KeySet) : Except Text (List JWK) → KeySet × Option Text
  | .error err => (keys, some err)
  | .ok set =>
      if usableKeys set = [] then (keys, some "jwks contained no usable keys".toList)
      else (usableKeys set, none)

/-! ## Replicas, tokens and the gateway -/

/-- The keys that belong to the ids of the table. -/
structure KeyPairs where
  pub : Text → PublicKey
  valid : ∀ kid, (pub kid).Valid

/-- A token that was issued: the key, the client and its scope, and the time. -/
structure Issue where
  kid : Text
  clientID : Text
  scope : Text
  ttl : Int
  now : Int
  random : Text

/-- What the auth service has in its configuration. -/
structure Issuer where
  issuer : Text
  audience : Text

def Issuer.message (cfg : Issuer) (x : Issue) : Message :=
  accessMessage x.kid cfg.issuer cfg.audience x.clientID x.scope x.ttl x.now x.random

structure Platform where
  fleet : Fleet
  issued : List Issue
  keys : KeySet

inductive PlatformEvent where
  /-- A statement of a replica that starts. -/
  | load (e : PoolEvent Replica LoadStep)
  | issue (i : Nat) (clientID scope : Text) (ttl now : Int) (random : Text)
  /-- The gateway fetches the keys of a replica, in the order of its map. -/
  | refresh (i : Nat) (order : List Text)
  | refreshFails (err : Text)

def Platform.manager (s : Platform) (i : Nat) : Option KeyManager := s.fleet.threads[i]?.bind Replica.manager

/-- `jwks` of the key manager, which goes over a map. -/
def published (pairs : KeyPairs) (order : List Text) : List JWK :=
  order.map fun kid => publicToJWK kid (pairs.pub kid)

def platformStep (pairs : KeyPairs) (s : Platform) : PlatformEvent → Option Platform
  | .load e => (loadStep s.fleet e).map fun fleet => { s with fleet := fleet }
  | .issue i clientID scope ttl now random =>
      (s.manager i).map fun m => { s with issued := s.issued ++ [⟨m.signer, clientID, scope, ttl, now, random⟩] }
  | .refresh i order =>
      (s.manager i).bind fun m =>
        if order.isPerm m.jwks then some { s with keys := (refresh s.keys (.ok (published pairs order))).1 } else none
  | .refreshFails err => some { s with keys := (refresh s.keys (.error err)).1 }

def platform (keys : SigningKeys) : Platform := { fleet := fleet keys, issued := [], keys := [] }

section Authenticate

variable {S : Type} (jwt : JWT S) (pairs : KeyPairs) (cfg : Issuer)

def Platform.signed (s : Platform) : List (PublicKey × Message) :=
  s.issued.map fun x => (pairs.pub x.kid, cfg.message x)

/-- `authenticate` of the gateway, where `decode` splits and decodes a token. -/
def authenticate (s : Platform) (decode : Text → Option (Token S)) (v : TokenValidation) (now : Int)
    (header : Text) : Except Httpx.APIError AccessClaims :=
  if Strings.hasPrefix header "Bearer ".toList then
    match decode (Strings.trimSpace (header.drop 7)) with
    | none => .error (Httpx.newError .unauthorized "Invalid or expired token")
    | some t =>
        match parseAccessToken jwt (s.signed pairs cfg) (keyfunc s.keys) v now t with
        | none => .error (Httpx.newError .unauthorized "Invalid or expired token")
        | some claims => .ok claims
  else .error (Httpx.newError .unauthorized "Missing or malformed Authorization header")

/-- What the introspection of a token answers. -/
inductive Introspection where
  | inactive
  | active (clientID scope : Text) (exp iat : Int) (iss sub : Text)
deriving DecidableEq

/-- `keyfunc` of the key manager. -/
def managerKeyfunc (m : KeyManager) (kid : Text) : Option PublicKey :=
  if Strings.isOneOf m.verify kid then some (pairs.pub kid) else none

/-- `handleIntrospect`.  A token without times panics, which is `none`. -/
def handleIntrospect (s : Platform) (m : KeyManager) (decode : Text → Option (Token S)) (v : TokenValidation)
    (now : Int) (token : Text) : Option Introspection :=
  if token = [] then some .inactive
  else match (decode token).bind (parseAccessToken jwt (s.signed pairs cfg) (managerKeyfunc pairs m) v now) with
    | none => some .inactive
    | some c => do
        let exp ← c.expiresAt
        let iat ← c.issuedAt
        return .active c.clientID c.scope exp iat c.issuer c.subject

end Authenticate

/-! ## Keys are those of their ids -/

theorem keyfunc_eq {keys : KeySet} {pairs : KeyPairs} (h : ∀ x ∈ keys, x.2 = pairs.pub x.1) (kid : Text) :
    keyfunc keys kid = if kid ∈ keys.map Prod.fst then some (pairs.pub kid) else none := by
  cases hfind : keys.reverse.find? (·.1 = kid) with
  | none =>
      have hno : kid ∉ keys.map Prod.fst := by
        intro hmem
        obtain ⟨x, hx, rfl⟩ := List.mem_map.mp hmem
        have := List.find?_eq_none.mp hfind x (List.mem_reverse.mpr hx)
        exact this (decide_eq_true rfl)
      rw [keyfunc, hfind, if_neg hno]
      rfl
  | some x =>
      have hx := List.mem_reverse.mp (List.mem_of_find?_eq_some hfind)
      have hfound := List.find?_some hfind
      have hkid : x.1 = kid := of_decide_eq_true hfound
      have hmem : kid ∈ keys.map Prod.fst := List.mem_map.mpr ⟨x, hx, hkid⟩
      rw [keyfunc, hfind, if_pos hmem, Option.map_some, h x hx, hkid]

/-- A published set is read back as the keys of its ids. -/
theorem usableKeys_published (pairs : KeyPairs) (order : List Text) :
    usableKeys (published pairs order) = order.map fun kid => (kid, pairs.pub kid) := by
  induction order with
  | nil => rfl
  | cons kid order ih =>
      have hread := jwkToPublic_publicToJWK kid (pairs.valid kid)
      rw [published, List.map_cons, usableKeys, List.filterMap_cons, hread, List.map_cons, ← ih]
      rfl

/-- The ids of a good fetch. -/
def PlatformEvent.fetched? : PlatformEvent → Option (List Text)
  | .refresh _ order => if order = [] then none else some order
  | _ => none

/-- The ids of the last good fetch of a run. -/
def fetched (es : List PlatformEvent) : List Text := (es.filterMap PlatformEvent.fetched?).getLast?.getD []

theorem keys_step {pairs : KeyPairs} {s s' : Platform} {e : PlatformEvent} (h : platformStep pairs s e = some s') :
    s'.keys = (e.fetched?.map fun order => order.map fun kid => (kid, pairs.pub kid)).getD s.keys := by
  cases e with
  | load e =>
      obtain ⟨_, -, rfl⟩ := Option.map_eq_some_iff.mp h
      rfl
  | issue i clientID scope ttl now random =>
      obtain ⟨_, -, rfl⟩ := Option.map_eq_some_iff.mp h
      rfl
  | refreshFails err =>
      cases h
      rfl
  | refresh i order =>
      obtain ⟨m, -, h⟩ := Option.bind_eq_some_iff.mp h
      split at h
      next =>
        cases h
        cases order with
        | nil => rfl
        | cons kid order =>
            simp only [refresh, usableKeys_published, List.map_cons, reduceCtorEq, if_false]
            rfl
      next => cases h

/-- The keys of the gateway are those of the ids that it has fetched last. -/
theorem keys_eq_fetched {pairs : KeyPairs} {keys : SigningKeys} {es : List PlatformEvent} {s : Platform}
    (h : runs (platformStep pairs) (platform keys) es = some s) :
    s.keys = (fetched es).map fun kid => (kid, pairs.pub kid) := by
  refine runs_induction (I := fun es s => s.keys = (fetched es).map fun kid => (kid, pairs.pub kid)) rfl ?_ h
  intro es e t t' _ ih hs
  rw [keys_step hs, ih, fetched, fetched, List.filterMap_append]
  cases hf : e.fetched? with
  | none => simp [hf]
  | some order => simp [hf]

theorem genuine_step {pairs : KeyPairs} {s s' : Platform} {e : PlatformEvent}
    (hkeys : ∀ x ∈ s.keys, x.2 = pairs.pub x.1) (h : platformStep pairs s e = some s') :
    ∀ x ∈ s'.keys, x.2 = pairs.pub x.1 := by
  rw [keys_step h]
  cases e.fetched? with
  | none => exact hkeys
  | some order =>
      intro x hx
      obtain ⟨kid, -, rfl⟩ := List.mem_map.mp hx
      rfl

section Accepted

variable {S : Type} {jwt : JWT S} {pairs : KeyPairs} {cfg : Issuer}

variable (jwt pairs cfg) in
def issuedToken (x : Issue) : Token S :=
  { cfg.message x with signature := jwt.sign (pairs.pub x.kid) (cfg.message x) }

variable (cfg) in
/-- The time is that of the token, up to the clock skew, and the gateway expects its issuer and
audience. -/
def InForce (v : TokenValidation) (now : Int) (x : Issue) : Prop :=
  numericDate x.now * second - v.leeway ≤ now ∧ now < numericDate (x.now + x.ttl) * second + v.leeway ∧
    (v.audience = [] ∨ v.audience = cfg.audience) ∧ (v.issuer = [] ∨ v.issuer = cfg.issuer)

/-- Who knows the keys of some ids accepts what was issued with them and is in force. -/
theorem parse_iff_issued {s : Platform} {f : Text → Option PublicKey} {known : List Text}
    (hf : ∀ kid, f kid = if kid ∈ known then some (pairs.pub kid) else none) {v : TokenValidation} {now : Int}
    {t : Token S} {c : AccessClaims} :
    parseAccessToken jwt (s.signed pairs cfg) f v now t = some c ↔
      ∃ x ∈ s.issued, t = issuedToken jwt pairs cfg x ∧ c = (cfg.message x).claims ∧
        x.kid ∈ known ∧ InForce cfg v now x := by
  rw [parseAccessToken_eq_some]
  constructor
  · rintro ⟨-, rfl, hvalid, key, hkey, hmem, hsig⟩
    obtain ⟨x, hx, heq⟩ := List.mem_map.mp hmem
    obtain ⟨message, signature⟩ := t
    have hsig : signature = jwt.sign key message := hsig
    subst hsig
    cases heq
    refine ⟨x, hx, rfl, rfl, ?_, (validate_accessMessage ..).mp hvalid⟩
    have hkid : f x.kid = some (pairs.pub x.kid) := hkey
    rw [hf] at hkid
    split at hkid
    next hknown => exact hknown
    next _ => cases hkid
  · rintro ⟨x, hx, rfl, rfl, hknown, hforce⟩
    refine ⟨rfl, rfl, (validate_accessMessage ..).mpr hforce, pairs.pub x.kid, ?_, ?_, rfl⟩
    · exact (hf x.kid).trans (if_pos hknown)
    · exact List.mem_map_of_mem hx

theorem authenticate_eq_ok {s : Platform} {decode : Text → Option (Token S)} {v : TokenValidation} {now : Int}
    {header : Text} {c : AccessClaims} :
    authenticate jwt pairs cfg s decode v now header = .ok c ↔
      Strings.hasPrefix header "Bearer ".toList = true ∧ ∃ t, decode (Strings.trimSpace (header.drop 7)) = some t ∧
        parseAccessToken jwt (s.signed pairs cfg) (keyfunc s.keys) v now t = some c := by
  unfold authenticate
  split
  next hbearer =>
    rw [and_iff_right hbearer]
    cases decode (Strings.trimSpace (header.drop 7)) with
    | none => simp
    | some t => cases hparse : parseAccessToken jwt (s.signed pairs cfg) (keyfunc s.keys) v now t <;> simp [hparse]
  next hbearer => exact ⟨nofun, fun h => absurd h.1 hbearer⟩

/-- The gateway accepts what was issued with a key it knows and is in force. -/
theorem authenticate_iff_issued {s : Platform} (hkeys : ∀ x ∈ s.keys, x.2 = pairs.pub x.1)
    {decode : Text → Option (Token S)} {v : TokenValidation} {now : Int} {header : Text} {c : AccessClaims} :
    authenticate jwt pairs cfg s decode v now header = .ok c ↔
      Strings.hasPrefix header "Bearer ".toList = true ∧ ∃ x ∈ s.issued,
        decode (Strings.trimSpace (header.drop 7)) = some (issuedToken jwt pairs cfg x) ∧
        c = (cfg.message x).claims ∧ x.kid ∈ s.keys.map Prod.fst ∧ InForce cfg v now x := by
  rw [authenticate_eq_ok]
  refine and_congr_right fun _ => ?_
  constructor
  · rintro ⟨t, ht, hparse⟩
    obtain ⟨x, hx, rfl, hrest⟩ := (parse_iff_issued (keyfunc_eq hkeys)).mp hparse
    exact ⟨x, hx, ht, hrest⟩
  · rintro ⟨x, hx, hdecode, hrest⟩
    exact ⟨_, hdecode, (parse_iff_issued (keyfunc_eq hkeys)).mpr ⟨x, hx, rfl, hrest⟩⟩

end Accepted

theorem genuine_along (pairs : KeyPairs) (keys : SigningKeys) (es : List PlatformEvent) :
    Along (platformStep pairs) (fun s => ∀ x ∈ s.keys, x.2 = pairs.pub x.1) (platform keys) es :=
  Along.of_step genuine_step (List.forall_mem_nil _) es

/-- Over every interleaving of starting replicas, issued tokens and fetches, the gateway accepts a header
with claims exactly if it bears a token that a replica returned with these claims, the key of the token
is one of the last good fetch, and the token is in force. -/
theorem authenticated_iff {S : Type} (jwt : JWT S) (pairs : KeyPairs) (cfg : Issuer) (keys : SigningKeys)
    (es : List PlatformEvent) {s : Platform} (h : runs (platformStep pairs) (platform keys) es = some s)
    (decode : Text → Option (Token S)) (v : TokenValidation) (now : Int) (header : Text) (c : AccessClaims) :
    authenticate jwt pairs cfg s decode v now header = .ok c ↔
      Strings.hasPrefix header "Bearer ".toList = true ∧ ∃ x ∈ s.issued,
        decode (Strings.trimSpace (header.drop 7)) = some (issuedToken jwt pairs cfg x) ∧
        c = (cfg.message x).claims ∧ x.kid ∈ fetched es ∧ InForce cfg v now x := by
  have hids : s.keys.map Prod.fst = fetched es := by
    rw [keys_eq_fetched h, List.map_map]
    exact List.map_id _
  rw [authenticate_iff_issued ((genuine_along pairs keys es).last h), hids]

/-! ## Every issued token has a known key -/

/-- Keys are inserted only while no replica has started. -/
def LoadsInTime (s : Platform) : PlatformEvent → Prop
  | .load e => InTime s.fleet e
  | _ => True

/-- Each id that signs is in the table, and a gateway with keys has those of the whole table. -/
structure Covered (s : Platform) : Prop where
  current : ∀ r ∈ s.fleet.threads, r.Current s.fleet.shared
  issued : ∀ x ∈ s.issued, x.kid ∈ s.fleet.shared.kids
  keys : s.keys ≠ [] → ∀ kid ∈ s.fleet.shared.kids, kid ∈ s.keys.map Prod.fst
  fetched : s.keys ≠ [] → ∃ r ∈ s.fleet.threads, r.manager ≠ none

theorem loadAct_started (keys : SigningKeys) (m : KeyManager) (a : LoadStep) :
    loadAct keys (.started m) a = none := by
  cases a <;> rfl

theorem manager_step {p p' : Fleet} {e : PoolEvent Replica LoadStep} (h : loadStep p e = some p')
    (hstarted : ∃ r ∈ p.threads, r.manager ≠ none) : ∃ r ∈ p'.threads, r.manager ≠ none := by
  obtain ⟨r, hr, hmanager⟩ := hstarted
  rcases poolStep_cases h with ⟨u, rfl, -, rfl⟩ | ⟨i, a, u, keys', u', rfl, hu, hact, rfl⟩
  · exact ⟨r, List.mem_append_left _ hr, hmanager⟩
  · obtain ⟨k, hk⟩ := List.getElem?_of_mem hr
    have hik : i ≠ k := by
      rintro rfl
      cases Option.some.inj (hu.symm.trans hk)
      cases r with
      | started m =>
          rw [loadAct_started] at hact
          cases hact
      | _ => exact hmanager rfl
    exact ⟨r, List.mem_of_getElem? ((List.getElem?_set_ne hik).trans hk), hmanager⟩

/-- The table stays as it is, or it grows while no replica has started. -/
theorem kids_step {p p' : Fleet} {e : PoolEvent Replica LoadStep} (h : loadStep p e = some p') (hearly : InTime p e) :
    p'.shared = p.shared ∨
      (∀ r ∈ p.threads, r.manager = none) ∧ ∀ kid ∈ p.shared.kids, kid ∈ p'.shared.kids := by
  rcases poolStep_cases h with ⟨u, rfl, -, rfl⟩ | ⟨i, a, u, keys', u', rfl, hu, hact, rfl⟩
  · exact .inl rfl
  · cases loadAct_cases hact with
    | inserted kid createdAt =>
        refine .inr ⟨hearly, fun other hother => ?_⟩
        rw [SigningKeys.kids, List.map_append]
        exact List.mem_append_left _ hother
    | _ => exact .inl rfl

theorem covered_load {s : Platform} (h : Covered s) {e : PoolEvent Replica LoadStep} {p' : Fleet}
    (hearly : InTime s.fleet e) (hs : loadStep s.fleet e = some p') : Covered { s with fleet := p' } := by
  have hcurrent := current_step h.current hearly hs
  have hfetched := fun hkeys => manager_step hs (h.fetched hkeys)
  rcases kids_step hs hearly with hsame | ⟨hnone, hgrows⟩
  · refine ⟨hcurrent, ?_, ?_, hfetched⟩
    · exact hsame ▸ h.issued
    · exact hsame ▸ h.keys
  · refine ⟨hcurrent, fun x hx => hgrows _ (h.issued x hx), fun hkeys => ?_, hfetched⟩
    -- a gateway that has keys had them from a replica that had started
    obtain ⟨r, hr, hmanager⟩ := h.fetched hkeys
    exact absurd (hnone r hr) hmanager

/-- What is known of a replica that has started. -/
theorem Covered.manager {s : Platform} (h : Covered s) {i : Nat} {m : KeyManager} (hm : s.manager i = some m) :
    m.signer ∈ s.fleet.shared.kids ∧ (∀ kid ∈ s.fleet.shared.kids, kid ∈ m.jwks) ∧
      ∃ r ∈ s.fleet.threads, r.manager ≠ none := by
  obtain ⟨r, hr, hmanager⟩ := Option.bind_eq_some_iff.mp hm
  have hmem := List.mem_of_getElem? hr
  cases r with
  | started m' =>
      cases hmanager
      exact ⟨(h.current _ hmem).1, (h.current _ hmem).2, _, hmem, Option.some_ne_none _⟩
  | _ => cases hmanager

theorem covered_step {pairs : KeyPairs} {s s' : Platform} {e : PlatformEvent} (h : Covered s) (hearly : LoadsInTime s e)
    (hs : platformStep pairs s e = some s') : Covered s' := by
  cases e with
  | load e =>
      obtain ⟨p', hload, rfl⟩ := Option.map_eq_some_iff.mp hs
      exact covered_load h hearly hload
  | issue i clientID scope ttl now random =>
      obtain ⟨m, hm, rfl⟩ := Option.map_eq_some_iff.mp hs
      exact ⟨h.current, forall_mem_join h.issued (h.manager hm).1, h.keys, h.fetched⟩
  | refreshFails err =>
      cases hs
      exact h
  | refresh i order =>
      obtain ⟨m, hm, hs⟩ := Option.bind_eq_some_iff.mp hs
      obtain ⟨-, hall, hstarted⟩ := h.manager hm
      split at hs
      next hperm =>
        cases hs
        simp only [refresh]
        split
        next _ => exact ⟨h.current, h.issued, h.keys, h.fetched⟩
        next _ =>
          refine ⟨h.current, h.issued, fun _ kid hkid => ?_, fun _ => hstarted⟩
          rw [usableKeys_published, List.map_map]
          have hmem : kid ∈ order := (List.isPerm_iff.mp hperm).mem_iff.mpr (hall kid hkid)
          exact List.mem_map.mpr ⟨kid, hmem, rfl⟩
      next _ => cases hs

theorem covered_platform (keys : SigningKeys) : Covered (platform keys) :=
  ⟨List.forall_mem_nil _, List.forall_mem_nil _, fun h => absurd rfl h, fun h => absurd rfl h⟩

/-- The keys of the gateway are those of their ids and of every token. -/
theorem keys_along {pairs : KeyPairs} {keys : SigningKeys} {es : List PlatformEvent}
    (hearly : Each (platformStep pairs) LoadsInTime (platform keys) es) :
    Along (platformStep pairs) (fun s => Covered s ∧ ∀ x ∈ s.keys, x.2 = pairs.pub x.1) (platform keys) es :=
  Along.of_each (fun h he hs => ⟨covered_step h.1 he hs, genuine_step h.2 hs⟩)
    ⟨covered_platform keys, List.forall_mem_nil _⟩ hearly

/-- If no key is inserted after a replica has started, a gateway that has fetched keys accepts every
token that was issued, by whichever replica and whenever, as long as it is in force. -/
theorem issued_accepted {S : Type} (jwt : JWT S) (pairs : KeyPairs) (cfg : Issuer)
    (keys : SigningKeys) (es : List PlatformEvent)
    (hearly : Each (platformStep pairs) LoadsInTime (platform keys) es) :
    Along (platformStep pairs) (fun s => s.keys ≠ [] → ∀ x ∈ s.issued, ∀ (decode : Text → Option (Token S)) v now header,
      Strings.hasPrefix header "Bearer ".toList = true →
      decode (Strings.trimSpace (header.drop 7)) = some (issuedToken jwt pairs cfg x) → InForce cfg v now x →
      authenticate jwt pairs cfg s decode v now header = .ok (cfg.message x).claims) (platform keys) es := by
  refine (keys_along hearly).mono ?_
  rintro s ⟨hcovered, hkeys⟩ hne x hx decode v now header hbearer hdecode hforce
  have hknown := hcovered.keys hne _ (hcovered.issued x hx)
  exact (authenticate_iff_issued hkeys).mpr ⟨hbearer, x, hx, hdecode, rfl, hknown, hforce⟩

/-! One replica, which has a key before it starts, and its first token. -/

namespace Sample

def pairs : KeyPairs where
  pub _ := { n := 3233, e := 17 }
  valid _ := ⟨by decide, by decide⟩

def cfg : Issuer := { issuer := "ddag".toList, audience := "api".toList }

def table : SigningKeys := [{ kid := "ddag-a".toList, createdAt := 1 }]

def token : Issue := ⟨"ddag-a".toList, "app".toList, "orders".toList, 3600 * second, 5 * second, "r".toList⟩

def events : List PlatformEvent :=
  [.load (.join .checking), .load (.act 0 (.check false)),
    .load (.act 0 (.readCurrent (some { kid := "ddag-a".toList, createdAt := 1 }))), .load (.act 0 .readAll),
    .issue 0 "app".toList "orders".toList (3600 * second) (5 * second) "r".toList, .refresh 0 ["ddag-a".toList]]

def jwt : JWT Unit where
  sign _ _ := ()
  verify signed key t := (key, t.toMessage) ∈ signed
  validate o now c := c.notBefore.all (· * second - o.leeway ≤ now) && c.expiresAt.all (now < · * second + o.leeway) &&
    o.audience.all (Strings.isOneOf c.audience) && o.issuer.all (· = c.issuer)
  verify_iff := by simp
  validate_iff := by simp [Option.all_eq_true, Strings.isOneOf_iff, and_assoc]

def decode (s : Text) : Option (Token Unit) :=
  if s = "t".toList then some (issuedToken jwt pairs cfg token) else none

def validation : TokenValidation := { issuer := "ddag".toList, audience := "api".toList, clockSkew := 0 }

end Sample

instance (s : Platform) (e : PlatformEvent) : Decidable (LoadsInTime s e) :=
  match e with
  | .load e => inferInstanceAs (Decidable (InTime s.fleet e))
  | .issue .. => .isTrue trivial
  | .refresh .. => .isTrue trivial
  | .refreshFails _ => .isTrue trivial

theorem sample_inTime : Each (platformStep Sample.pairs) LoadsInTime (platform Sample.table) Sample.events := by decide

theorem sample_run : (runs (platformStep Sample.pairs) (platform Sample.table) Sample.events).map
    (fun s => (s.issued, s.keys.map Prod.fst, s.manager 0)) =
      some ([Sample.token], ["ddag-a".toList], some ⟨"ddag-a".toList, ["ddag-a".toList]⟩) := rfl

/-- The gateway refuses the token before its first fetch, and accepts it afterwards. -/
theorem accepted_after_fetch :
    ∃ s s', runs (platformStep Sample.pairs) (platform Sample.table) (Sample.events.take 5) = some s ∧
      runs (platformStep Sample.pairs) (platform Sample.table) Sample.events = some s' ∧
      authenticate Sample.jwt Sample.pairs Sample.cfg s Sample.decode Sample.validation (6 * second)
        "Bearer t".toList ≠ .ok (Sample.cfg.message Sample.token).claims ∧
      authenticate Sample.jwt Sample.pairs Sample.cfg s' Sample.decode Sample.validation (6 * second)
        "Bearer t".toList = .ok (Sample.cfg.message Sample.token).claims := by
  obtain ⟨s', hs', heq⟩ := Option.map_eq_some_iff.mp sample_run
  have hissued : s'.issued = [Sample.token] := (Prod.mk.inj heq).1
  have hbefore : (runs (platformStep Sample.pairs) (platform Sample.table) (Sample.events.take 5)).isSome = true := rfl
  obtain ⟨s, hs⟩ := Option.isSome_iff_exists.mp hbefore
  refine ⟨s, s', hs, hs', fun hok => ?_, ?_⟩
  · obtain ⟨-, x, -, -, -, hfetched, -⟩ := (authenticated_iff Sample.jwt _ _ _ _ hs _ _ _ _ _).mp hok
    exact List.not_mem_nil hfetched
  · refine (authenticated_iff Sample.jwt _ _ _ _ hs' _ _ _ _ _).mpr ⟨rfl, Sample.token, ?_, rfl, rfl, ?_, ?_⟩
    · exact hissued ▸ List.mem_singleton_self _
    · exact List.mem_singleton_self _
    · refine ⟨?_, ?_, .inr rfl, .inr rfl⟩ <;> decide

/-- The gateway accepts the token one second after it was issued. -/
theorem first_token_accepted :
    ∃ s, runs (platformStep Sample.pairs) (platform Sample.table) Sample.events = some s ∧
      authenticate Sample.jwt Sample.pairs Sample.cfg s Sample.decode Sample.validation (6 * second)
        "Bearer t".toList = .ok (Sample.cfg.message Sample.token).claims := by
  obtain ⟨s, hs, heq⟩ := Option.map_eq_some_iff.mp sample_run
  obtain ⟨hissued, hrest⟩ := Prod.mk.inj heq
  have hne : s.keys ≠ [] := by
    intro hnil
    rw [hnil] at hrest
    cases (Prod.mk.inj hrest).1
  have hforce : InForce Sample.cfg Sample.validation (6 * second) Sample.token := by
    refine ⟨?_, ?_, .inr rfl, .inr rfl⟩ <;> decide
  have hlast := (issued_accepted Sample.jwt Sample.pairs Sample.cfg _ _ sample_inTime).last hs hne Sample.token
  exact ⟨s, hs, hlast (hissued ▸ List.mem_singleton_self _) Sample.decode _ _ _ rfl rfl hforce⟩

/-! ## Introspection -/

section Introspection

variable {S : Type} {jwt : JWT S} {pairs : KeyPairs} {cfg : Issuer}

theorem managerKeyfunc_eq (m : KeyManager) (kid : Text) :
    managerKeyfunc pairs m kid = if kid ∈ m.verify then some (pairs.pub kid) else none := by
  by_cases h : kid ∈ m.verify
  · rw [managerKeyfunc, if_pos (Strings.isOneOf_iff.mpr h), if_pos h]
  · rw [managerKeyfunc, if_neg fun hone => h (Strings.isOneOf_iff.mp hone), if_neg h]

/-- A gateway with keys accepts a token exactly if a replica does. -/
theorem Covered.parse_eq {s : Platform} (h : Covered s) (hkeys : ∀ x ∈ s.keys, x.2 = pairs.pub x.1)
    (hne : s.keys ≠ []) {i : Nat} {m : KeyManager} (hm : s.manager i = some m) (v : TokenValidation) (now : Int)
    (t : Token S) :
    parseAccessToken jwt (s.signed pairs cfg) (managerKeyfunc pairs m) v now t =
      parseAccessToken jwt (s.signed pairs cfg) (keyfunc s.keys) v now t := by
  refine Option.ext fun c => ?_
  rw [parse_iff_issued (managerKeyfunc_eq m), parse_iff_issued (keyfunc_eq hkeys)]
  refine exists_congr fun x => and_congr_right fun hx => ?_
  have hkid := h.issued x hx
  have hreplica : x.kid ∈ m.verify := (h.manager hm).2.1 _ hkid
  simp only [hreplica, h.keys hne _ hkid]

theorem times_of_parse {s : Platform} (hkeys : ∀ x ∈ s.keys, x.2 = pairs.pub x.1) {v : TokenValidation} {now : Int}
    {t : Token S} {c : AccessClaims}
    (h : parseAccessToken jwt (s.signed pairs cfg) (keyfunc s.keys) v now t = some c) :
    ∃ exp iat, c.expiresAt = some exp ∧ c.issuedAt = some iat := by
  obtain ⟨x, -, -, rfl, -⟩ := (parse_iff_issued (keyfunc_eq hkeys)).mp h
  exact ⟨_, _, rfl, rfl⟩

theorem authenticate_bearer (s : Platform) (decode : Text → Option (Token S)) (v : TokenValidation) (now : Int)
    {token : Text} (htrim : Strings.trimSpace token = token) :
    authenticate jwt pairs cfg s decode v now ("Bearer ".toList ++ token) =
      match (decode token).bind (parseAccessToken jwt (s.signed pairs cfg) (keyfunc s.keys) v now) with
      | none => .error (Httpx.newError .unauthorized "Invalid or expired token")
      | some c => .ok c := by
  have hbearer : Strings.hasPrefix ("Bearer ".toList ++ token) "Bearer ".toList = true :=
    List.isPrefixOf_iff_prefix.mpr (List.prefix_append _ _)
  have hdrop : ("Bearer ".toList ++ token).drop 7 = token := List.drop_left' rfl
  rw [authenticate, if_pos hbearer, hdrop, htrim]
  cases hdecode : decode token with
  | none => rfl
  | some t => rw [Option.bind_some]

end Introspection

/-- If no key is inserted after a replica has started, the introspection of a token at any replica that
has started does not panic, and agrees with a gateway that has fetched keys and validates alike: it
answers with the claims that the gateway accepts, and that the token is inactive if the gateway refuses
it.  The token is not empty and has no white space around it, which the gateway trims. -/
theorem introspection_agrees {S : Type} (jwt : JWT S) (pairs : KeyPairs)
    (cfg : Issuer) (keys : SigningKeys) (es : List PlatformEvent)
    (hearly : Each (platformStep pairs) LoadsInTime (platform keys) es) :
    Along (platformStep pairs) (fun s => s.keys ≠ [] → ∀ i m, s.manager i = some m →
      ∀ (decode : Text → Option (Token S)) v now token, token ≠ [] → Strings.trimSpace token = token →
        match authenticate jwt pairs cfg s decode v now ("Bearer ".toList ++ token) with
        | .ok c => ∃ exp iat, c.expiresAt = some exp ∧ c.issuedAt = some iat ∧
            handleIntrospect jwt pairs cfg s m decode v now token =
              some (.active c.clientID c.scope exp iat c.issuer c.subject)
        | .error _ => handleIntrospect jwt pairs cfg s m decode v now token = some .inactive)
      (platform keys) es := by
  refine (keys_along hearly).mono ?_
  rintro s ⟨hcovered, hkeys⟩ hne i m hm decode v now token htoken htrim
  have hsame : (decode token).bind (parseAccessToken jwt (s.signed pairs cfg) (managerKeyfunc pairs m) v now) =
      (decode token).bind (parseAccessToken jwt (s.signed pairs cfg) (keyfunc s.keys) v now) :=
    Option.bind_congr fun t _ => hcovered.parse_eq hkeys hne hm v now t
  rw [authenticate_bearer s decode v now htrim, handleIntrospect, if_neg htoken, hsame]
  cases hparse : (decode token).bind (parseAccessToken jwt (s.signed pairs cfg) (keyfunc s.keys) v now) with
  | none => rfl
  | some c =>
      obtain ⟨t, -, ht⟩ := Option.bind_eq_some_iff.mp hparse
      obtain ⟨exp, iat, hexp, hiat⟩ := times_of_parse hkeys ht
      refine ⟨exp, iat, hexp, hiat, ?_⟩
      simp only [hexp, hiat, Option.bind_eq_bind, Option.bind_some]
      rfl

/-- The replica and the gateway agree on the first token. -/
theorem first_token_introspected :
    ∃ s m, runs (platformStep Sample.pairs) (platform Sample.table) Sample.events = some s ∧ s.manager 0 = some m ∧
      match authenticate Sample.jwt Sample.pairs Sample.cfg s Sample.decode Sample.validation (6 * second)
        ("Bearer ".toList ++ "t".toList) with
      | .ok c => ∃ exp iat, c.expiresAt = some exp ∧ c.issuedAt = some iat ∧
          handleIntrospect Sample.jwt Sample.pairs Sample.cfg s m Sample.decode Sample.validation (6 * second)
            "t".toList = some (.active c.clientID c.scope exp iat c.issuer c.subject)
      | .error _ => handleIntrospect Sample.jwt Sample.pairs Sample.cfg s m Sample.decode Sample.validation
          (6 * second) "t".toList = some .inactive := by
  obtain ⟨s, hs, heq⟩ := Option.map_eq_some_iff.mp sample_run
  obtain ⟨-, hrest⟩ := Prod.mk.inj heq
  obtain ⟨hkeys, hmanager⟩ := Prod.mk.inj hrest
  have hne : s.keys ≠ [] := by
    intro hnil
    rw [hnil] at hkeys
    cases hkeys
  have hlast := (introspection_agrees Sample.jwt Sample.pairs Sample.cfg _ _ sample_inTime).last hs hne 0 _ hmanager
  exact ⟨s, _, hs, hmanager, hlast Sample.decode _ _ _ (by decide) rfl⟩

end DDAG.GatewaySvc
