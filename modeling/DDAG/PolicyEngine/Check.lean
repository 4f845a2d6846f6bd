import DDAG.Gateway.Router
import DDAG.GatewaySvc.Admission
import DDAG.GatewaySvc.Precedence
import DDAG.Policy.Rules

/-!
# The policy engine and the gateway

`handleCheck` of `internal/policyengine/service.go` decides on a request with queries to the
store, and `serve` of `internal/gatewaysvc/service.go` with its snapshot.  The steps up to the
limits are the same.  The rules come in another order, the policy engine allows what Redis
does not answer whatever the fail mode is, and the gateway answers some requests before it
looks for a route.

`check_agrees_iff` says for which requests the two decide alike whatever the limiter does:
those that fail before the limits, and those whose applied rules have the same positive
limits, with no positive limit if the fail mode is `closed`.
-/

namespace DDAG.PolicyEngine

open Models Store Gateway GatewaySvc Policy

/-! ## The policy engine -/

structure CheckRequest where
  clientID : Text
  method : Text
  path : Text
  scope : Text
  ipAddress : Text

structure CheckResponse where
  allowed : Bool
  reason : Option Text := none
  remaining : Int := 0
  resetSeconds : Int := 0
deriving DecidableEq

def deny (reason : String) : CheckResponse := { allowed := false, reason := some reason.toList }

/-- The key the limiter counts a client and an API under. -/
def limiterBase (clientID : Text) (apiID : Id) : Text := clientID ++ ":".toList ++ idText apiID

section Decisions

variable {α : Type*} [DecidableEq α] (fold : Char → Char) (net : Network α) (routes : List Route)

/-- What `handleCheck` makes of a call of the limiter: an error is ignored. -/
def limitResponse (dec : Option Decision) : CheckResponse :=
  match dec with
  | none => { allowed := true, remaining := -1 }
  | some dec =>
      if !dec.allowed then deny "rate_limited"
      else { allowed := true, remaining := dec.remaining, resetSeconds := dec.resetSeconds }

/-- The rules of the store are applied; an error of the query is no rule. -/
def limitStep (store : Directory) (db : Db) (c : AllowCall) (client : Client) (apiID : Id) :
    CheckResponse :=
  match (store.rateLimitRulesFor client.id apiID).bind appliedRule with
  | none => { allowed := true, remaining := -1 }
  | some rule => limitResponse (allow (limiterBase client.clientID apiID) (ruleWindows rule) db c).2

def handleCheck (store : Directory) (db : Db) (c : AllowCall) (req : CheckRequest) : CheckResponse :=
  match matchPath fold routes req.method req.path with
  | none => deny "api_not_found"
  | some (route, _) =>
      let api := route.api
      match store.getClientByClientID req.clientID with
      | none => deny "client_inactive"
      | some client =>
          if !client.active then deny "client_inactive"
          else if !hasScope req.scope api.requiredScope then deny "scope_denied"
          else if !store.clientHasAPIAccess client.id api.id then deny "access_denied"
          else
            match store.ipWhitelistsFor client.id api.id with
            | none => deny "ip_blocked"
            | some entries =>
                if entries = [] then deny "ip_blocked"
                else if !ipAllowed net req.ipAddress (entries.map IPWhitelist.ipCIDR) then
                  deny "ip_blocked"
                else limitStep store db c client api.id

/-! ## The gateway -/

/-- The paths of `serveCatalogRoutes`. -/
def catalogPaths : List Text :=
  ["/openapi.json".toList, "/openapi.yaml".toList, "/api-catalog".toList, "/docs".toList]

/-- What `serve` answers before it looks for a route. -/
def answersFirst (method path : Text) : Bool :=
  method = "OPTIONS".toList || (method = "GET".toList && Strings.isOneOf catalogPaths path)

/-- What `checkRateLimit` makes of a call of the limiter. -/
def ruleDecision (mode : Text) (dec : Option Decision) : Decision × Bool :=
  match dec with
  | none => rateLimitFailureDecision mode
  | some dec => (dec, !dec.allowed)

/-- The request as the checks of the gateway read it, with its claims. -/
def callerOf (mode : Text) (db : Db) (c : AllowCall) (req : CheckRequest) (apiID : Id) : Caller where
  clientID := req.clientID
  apiID := apiID
  ip := req.ipAddress
  limited rule :=
    (ruleDecision mode (allow (limiterBase req.clientID apiID) (ruleWindows rule) db c).2).2

/-- `serve` lets the request through its checks. -/
def serveAdmits (g : Lookup) (mode : Text) (db : Db) (c : AllowCall) (req : CheckRequest) : Bool :=
  if answersFirst req.method req.path then false
  else
    match matchPath fold routes req.method req.path with
    | none => false
    | some (route, _) =>
        if !hasScope req.scope route.api.requiredScope then false
        else
          let next := check net (callerOf mode db c req route.api.id) g
          next (next (next (next .start))) = .admitted

end Decisions

/-! ## One metadata state -/

/-- The tables, with the clients. -/
structure Metadata extends Tables where
  clients : List Client
  clientIDs_nodup : (clients.map Client.clientID).Nodup
  clients_nodup : (clients.map Client.id).Nodup

/-- The store answers from the tables. -/
structure Answers (m : Metadata) (store : Directory) : Prop where
  client : ∀ clientID, store.getClientByClientID clientID = m.clients.find? (·.clientID = clientID)
  access : ∀ clientID apiID, store.clientHasAPIAccess clientID apiID =
    m.clients.any fun c => c.id = clientID && c.apis.contains apiID
  whitelists : ∀ clientID apiID, ∃ out, store.ipWhitelistsFor clientID apiID = some out ∧
    IPWhitelistsFor clientID apiID m.whitelists out
  rules : ∀ clientID apiID, ∃ out, store.rateLimitRulesFor clientID apiID = some out ∧
    RateLimitRulesFor clientID apiID m.rateRules out

/-- The snapshot holds all rows of the tables, in any order. -/
def Mirrors (m : Metadata) (s : Snapshot) : Prop :=
  ∃ clients cacheRules rateRules ips, clients.Perm m.clients ∧ rateRules.Perm m.rateRules ∧
    ips.Perm m.whitelists ∧ s = newSnapshot clients cacheRules rateRules ips

instance : DecidableRel ranksBefore := fun _ _ => inferInstanceAs (Decidable (_ ∧ (_ → _ → _)))

/-- The store on a connection that does not fail. -/
def Metadata.directory (m : Metadata) : Directory where
  getClientByClientID clientID := m.clients.find? (·.clientID = clientID)
  clientHasAPIAccess clientID apiID := m.clients.any fun c => c.id = clientID && c.apis.contains apiID
  ipWhitelistsFor clientID apiID := some (m.whitelists.filter (whitelistApplies clientID apiID))
  rateLimitRulesFor clientID apiID :=
    some ((m.rateRules.filter (rateRuleMatches clientID apiID)).insertionSort ranksBefore)

/-- The snapshot of a load that reads whole tables. -/
def Metadata.snapshot (m : Metadata) : Snapshot :=
  newSnapshot m.clients m.cacheRules m.rateRules m.whitelists

theorem answers_directory (m : Metadata) : Answers m m.directory where
  client _ := rfl
  access _ _ := rfl
  whitelists _ _ := ⟨_, rfl, .refl _, List.pairwise_iff_forall_sublist.mpr fun _ => trivial⟩
  rules _ _ := ⟨_, rfl, List.perm_insertionSort _ _, List.pairwise_insertionSort _ _⟩

theorem mirrors_snapshot (m : Metadata) : Mirrors m m.snapshot :=
  ⟨_, _, _, _, .refl _, .refl _, .refl _, rfl⟩

section Mirrored

variable {m : Metadata} {s : Snapshot} {store : Directory}

theorem clientByClientID_eq (hstore : Answers m store) (hs : Mirrors m s) (clientID : Text) :
    Lookup.clientByClientID { snapshot := some s, store := store } clientID =
      store.getClientByClientID clientID := by
  obtain ⟨clients, cacheRules, rateRules, ips, hclients, -, -, rfl⟩ := hs
  have hfound : (newSnapshot clients cacheRules rateRules ips).clientByClientID clientID =
      store.getClientByClientID clientID := by
    rw [hstore.client]
    exact Rows.index_eq_find m.clientIDs_nodup hclients clientID
  simp only [Lookup.clientByClientID, Option.bind_some, hfound]
  cases store.getClientByClientID clientID <;> rfl

theorem clientHasAPIAccess_eq (hstore : Answers m store) (hs : Mirrors m s) (clientID apiID : Id) :
    Lookup.clientHasAPIAccess { snapshot := some s, store := store } clientID apiID =
      store.clientHasAPIAccess clientID apiID := by
  obtain ⟨clients, cacheRules, rateRules, ips, hclients, -, -, rfl⟩ := hs
  rw [hstore.access]
  show (match Rows.index Client.id clients clientID with
    | none => false
    | some c => c.apis.contains apiID) = _
  rw [Rows.index_eq_find m.clients_nodup hclients, Bool.eq_iff_iff, List.any_eq_true]
  simp only [Bool.and_eq_true, decide_eq_true_eq]
  cases hfind : m.clients.find? (·.id = clientID) with
  | none =>
      have hno : ∀ c ∈ m.clients, c.id ≠ clientID := by simpa using List.find?_eq_none.mp hfind
      exact iff_of_false Bool.false_ne_true fun ⟨c, hc, hid, _⟩ => hno c hc hid
  | some client =>
      obtain ⟨hmem, hid⟩ := (Rows.find_key_eq_some m.clients_nodup).mp hfind
      refine ⟨fun h => ⟨client, hmem, hid, h⟩, fun ⟨c, hc, hcid, h⟩ => ?_⟩
      cases hfind.symm.trans ((Rows.find_key_eq_some m.clients_nodup).mpr ⟨hc, hcid⟩)
      exact h

section IP

variable {α : Type*} [DecidableEq α] (net : Network α)

theorem checkIP_eq (hstore : Answers m store) (hs : Mirrors m s) (ip : Text) (clientID apiID : Id) :
    checkIP net { snapshot := some s, store := store } ip clientID apiID =
      checkIP net { snapshot := none, store := store } ip clientID apiID := by
  obtain ⟨clients, cacheRules, rateRules, ips, -, -, hips, rfl⟩ := hs
  obtain ⟨out, hout, hselected⟩ := hstore.whitelists clientID apiID
  have hperm : (ips.filter (keepsWhitelist clientID apiID)).Perm out := by
    rw [funext (keepsWhitelist_eq clientID apiID)]
    exact (hips.filter _).trans hselected.perm.symm
  have hnil : ips.filter (keepsWhitelist clientID apiID) = [] ↔ out = [] := by
    rw [List.eq_nil_iff_length_eq_zero, List.eq_nil_iff_length_eq_zero, hperm.length_eq]
  show (if ips.filter (keepsWhitelist clientID apiID) = [] then true
      else !ipAllowed net ip ((ips.filter (keepsWhitelist clientID apiID)).map IPWhitelist.ipCIDR)) =
    match store.ipWhitelistsFor clientID apiID with
    | none => true
    | some entries => if entries = [] then true else !ipAllowed net ip (entries.map IPWhitelist.ipCIDR)
  rw [hout]
  simp only [hnil, ipAllowed_perm net (hperm.map IPWhitelist.ipCIDR)]

end IP

end Mirrored

/-! ## Up to the limits -/

section Reaching

variable {α : Type*} [DecidableEq α] (fold : Char → Char) (net : Network α) (routes : List Route)

/-- The route and the client of a request that passes the checks before the limits. -/
def reaches (store : Directory) (req : CheckRequest) : Option (Route × Client) :=
  match matchPath fold routes req.method req.path with
  | none => none
  | some (route, _) =>
      match store.getClientByClientID req.clientID with
      | none => none
      | some client =>
          if client.active && hasScope req.scope route.api.requiredScope &&
              store.clientHasAPIAccess client.id route.api.id &&
              !checkIP net { snapshot := none, store := store } req.ipAddress client.id route.api.id then
            some (route, client)
          else none

variable {fold net routes} {store : Directory} {db : Db} {c : AllowCall} {req : CheckRequest}

/-- The rule of the store decides, and what Redis does not answer is allowed. -/
theorem limitStep_allowed (client : Client) (apiID : Id) :
    (limitStep store db c client apiID).allowed =
      letsThrough true (limiter (limiterBase client.clientID apiID)
        ((store.rateLimitRulesFor client.id apiID).bind appliedRule) db c) := by
  unfold limitStep
  cases (store.rateLimitRulesFor client.id apiID).bind appliedRule with
  | none => rfl
  | some rule =>
      show (limitResponse (allow (limiterBase client.clientID apiID) (ruleWindows rule) db c).2).allowed =
        letsThrough true (allow (limiterBase client.clientID apiID) (ruleWindows rule) db c).2
      cases (allow (limiterBase client.clientID apiID) (ruleWindows rule) db c).2 with
      | none => rfl
      | some d =>
          cases hd : d.allowed with
          | true => simp [limitResponse, letsThrough, hd]
          | false => simp [limitResponse, letsThrough, hd, deny]

theorem checkIP_store (ip : Text) (clientID apiID : Id) :
    checkIP net { snapshot := none, store := store } ip clientID apiID =
      match store.ipWhitelistsFor clientID apiID with
      | none => true
      | some entries =>
          if entries = [] then true else !ipAllowed net ip (entries.map IPWhitelist.ipCIDR) :=
  rfl

theorem handleCheck_allowed :
    (handleCheck fold net routes store db c req).allowed =
      (reaches fold net routes store req).any fun p =>
        letsThrough true (limiter (limiterBase p.2.clientID p.1.api.id)
          ((store.rateLimitRulesFor p.2.id p.1.api.id).bind appliedRule) db c) := by
  unfold handleCheck reaches
  cases matchPath fold routes req.method req.path with
  | none => rfl
  | some found =>
      cases store.getClientByClientID req.clientID with
      | none => rfl
      | some client =>
          dsimp only
          rw [checkIP_store]
          -- each check that fails denies on both sides
          cases client.active
          · rfl
          cases hasScope req.scope found.1.api.requiredScope
          · rfl
          cases store.clientHasAPIAccess client.id found.1.api.id
          · rfl
          cases store.ipWhitelistsFor client.id found.1.api.id with
          | none => rfl
          | some entries =>
              by_cases hempty : entries = []
              · simp [hempty, deny]
              cases hip : ipAllowed net req.ipAddress (entries.map IPWhitelist.ipCIDR) with
              | false => simp [hempty, hip, deny]
              | true => simp [hempty, hip, limitStep_allowed]

section Gateway

variable {m : Metadata} {s : Snapshot} {mode : Text}

theorem checks_admitted (q : Caller) (g : Lookup) :
    decide (check net q g (check net q g (check net q g (check net q g .start))) = .admitted) =
      (g.clientByClientID q.clientID).any fun client =>
        client.active && g.clientHasAPIAccess client.id q.apiID &&
          !checkIP net g q.ip client.id q.apiID && !checkRateLimit g q client.id := by
  cases hclient : g.clientByClientID q.clientID with
  | none => simp [check, hclient]
  | some client =>
      cases hactive : client.active
      · simp [check, hclient, hactive]
      cases haccess : g.clientHasAPIAccess client.id q.apiID
      · simp [check, hclient, hactive, haccess]
      cases hip : checkIP net g q.ip client.id q.apiID
      · cases hlimit : checkRateLimit g q client.id <;>
          simp [check, hclient, hactive, haccess, hip, hlimit]
      · simp [check, hclient, hactive, haccess, hip]

/-- The rule of the snapshot decides, and the fail mode where Redis does not answer. -/
theorem checkRateLimit_eq (clientID apiID : Id) :
    (!checkRateLimit { snapshot := some s, store := store } (callerOf mode db c req apiID) clientID) =
      letsThrough (!(rateLimitFailureDecision mode).2)
        (limiter (limiterBase req.clientID apiID) (appliedRule (s.rateLimitRulesFor clientID apiID))
          db c) := by
  show (!(match appliedRule (s.rateLimitRulesFor clientID apiID) with
    | none => false
    | some rule => (callerOf mode db c req apiID).limited rule)) = _
  cases appliedRule (s.rateLimitRulesFor clientID apiID) with
  | none => rfl
  | some rule =>
      show (!(ruleDecision mode (allow (limiterBase req.clientID apiID) (ruleWindows rule) db c).2).2) =
        letsThrough _ (allow (limiterBase req.clientID apiID) (ruleWindows rule) db c).2
      cases (allow (limiterBase req.clientID apiID) (ruleWindows rule) db c).2 with
      | none => rfl
      | some d => exact Bool.not_not d.allowed

theorem serveAdmits_eq (hstore : Answers m store) (hs : Mirrors m s) :
    serveAdmits fold net routes { snapshot := some s, store := store } mode db c req =
      (!answersFirst req.method req.path && (reaches fold net routes store req).any fun p =>
        letsThrough (!(rateLimitFailureDecision mode).2)
          (limiter (limiterBase req.clientID p.1.api.id)
            (appliedRule (s.rateLimitRulesFor p.2.id p.1.api.id)) db c)) := by
  unfold serveAdmits reaches
  cases answersFirst req.method req.path
  case true => rfl
  cases matchPath fold routes req.method req.path with
  | none => rfl
  | some found =>
      dsimp only
      rw [checks_admitted, clientByClientID_eq hstore hs]
      -- each lookup in the snapshot is one in the store
      simp only [clientHasAPIAccess_eq hstore hs, checkIP_eq net hstore hs, checkRateLimit_eq]
      dsimp only [callerOf]
      cases store.getClientByClientID req.clientID with
      | none => simp
      | some client =>
          rw [Option.any_some]
          cases hasScope req.scope found.1.api.requiredScope
          · simp
          dsimp only
          cases client.active
          · rfl
          cases store.clientHasAPIAccess client.id found.1.api.id
          · rfl
          cases checkIP net { snapshot := none, store := store } req.ipAddress client.id found.1.api.id
          · rfl
          · rfl

/-- The client of a request that reaches the limits has the id of the request. -/
theorem clientID_of_reaches (hstore : Answers m store) {route : Route} {client : Client}
    (h : reaches fold net routes store req = some (route, client)) : client.clientID = req.clientID := by
  have hclient : store.getClientByClientID req.clientID = some client := by
    unfold reaches at h
    split at h
    · cases h
    · split at h
      · cases h
      next found hfound =>
        split at h
        · cases h
          exact hfound
        · cases h
  rw [hstore.client] at hclient
  simpa using List.find?_some hclient

/-- Both apply rules with the same positive limits to the client and the route, and Redis is
not asked where the gateway refuses what it does not answer. -/
structure AgreesAt (store : Directory) (s : Snapshot) (mode : Text) (req : CheckRequest)
    (route : Route) (client : Client) : Prop where
  routed : answersFirst req.method req.path = false
  limits : SameLimits ((store.rateLimitRulesFor client.id route.api.id).bind appliedRule)
    (appliedRule (s.rateLimitRulesFor client.id route.api.id))
  closed : (rateLimitFailureDecision mode).2 = true →
    limitsOf (appliedRule (s.rateLimitRulesFor client.id route.api.id)) = []

/-- On one state of the metadata the policy engine and the gateway decide alike on a request,
whatever the counters are and whether Redis answers, exactly if the request fails before the
limits or both agree at the limits. -/
theorem check_agrees_iff (hstore : Answers m store) (hs : Mirrors m s) :
    (∀ db c, (handleCheck fold net routes store db c req).allowed =
        serveAdmits fold net routes { snapshot := some s, store := store } mode db c req) ↔
      ∀ route client, reaches fold net routes store req = some (route, client) →
        AgreesAt store s mode req route client := by
  simp only [handleCheck_allowed, serveAdmits_eq hstore hs]
  cases hreach : reaches fold net routes store req with
  | none => simp
  | some p =>
      obtain ⟨route, client⟩ := p
      simp only [Option.any_some, clientID_of_reaches hstore hreach]
      constructor
      · intro h route' client' hp
        cases hp
        have hrouted : answersFirst req.method req.path = false := by
          -- without counters the policy engine allows the request
          have hcall := h (fun _ => none) { now := 0 }
          obtain ⟨d, hd⟩ := limiter_answered (limiterBase req.clientID route.api.id)
            ((store.rateLimitRulesFor client.id route.api.id).bind appliedRule) (fun _ => none)
          rw [hd, letsThrough, limiter_of_no_counters hd] at hcall
          have hboth := Bool.and_eq_true_iff.mp hcall.symm
          exact Bool.not_eq_true' _ |>.mp hboth.1
        simp only [hrouted, Bool.not_false, Bool.true_and] at h
        obtain ⟨hlimits, hclosed⟩ := (limiter_agrees_iff _).mp h
        refine ⟨hrouted, hlimits, fun hmode => hclosed ?_⟩
        rw [hmode]
        rfl
      · intro h db c
        obtain ⟨hrouted, hlimits, hclosed⟩ := h route client rfl
        rw [hrouted, Bool.not_false, Bool.true_and]
        exact (limiter_agrees_iff _).mpr
          ⟨hlimits, fun hmode => hclosed ((Bool.not_eq_false' _).mp hmode)⟩ db c

end Gateway

end Reaching

/-! ## One client -/

/-- The tables with one client that has a grant and a whitelist entry. -/
def oneClient (rules : List RateLimitRule) (h : (rules.map RateLimitRule.id).Nodup) : Metadata where
  rateRules := rules
  cacheRules := []
  whitelists := [appWhitelist]
  clients := [{ app with apis := [20] }]
  rateRules_nodup := h
  cacheRules_nodup := .nil
  whitelists_nodup := List.nodup_singleton _
  clientIDs_nodup := List.nodup_singleton _
  clients_nodup := List.nodup_singleton _

def limitedClient : Metadata := oneClient [clientRule] (by decide)

def limitedTwice : Metadata := oneClient [apiRule, clientRule] (by decide)

def itemRoutes : List Route := [routeOf (getAt 20 "/items")]

def itemRequest : CheckRequest where
  clientID := "app".toList
  method := "GET".toList
  path := "/items".toList
  scope := []
  ipAddress := "10.0.0.1".toList

def admitsItem (m : Metadata) (mode : String) (db : Db) (c : AllowCall) : Bool :=
  serveAdmits Strings.foldRune textNetwork itemRoutes
    { snapshot := some m.snapshot, store := m.directory } mode.toList db c itemRequest

/-- The policy engine's. -/
def allowsItem (m : Metadata) (db : Db) (c : AllowCall) : Bool :=
  (handleCheck Strings.foldRune textNetwork itemRoutes m.directory db c itemRequest).allowed

def oneCall : Db := reached (limiterBase "app".toList 20) ("s".toList, 1)

/-- A limit of the client is not reached, is reached, or Redis fails: with the fail mode `open`
both decide alike. -/
theorem one_rule_agrees :
    Answers limitedClient limitedClient.directory ∧ Mirrors limitedClient limitedClient.snapshot ∧
      ∀ db c, allowsItem limitedClient db c = admitsItem limitedClient "open" db c := by
  refine ⟨answers_directory _, mirrors_snapshot _, ?_⟩
  refine (check_agrees_iff (answers_directory limitedClient) (mirrors_snapshot limitedClient)).mpr ?_
  intro route client hreach
  have happ : some (route, client) = some (routeOf (getAt 20 "/items"), { app with apis := [20] }) :=
    hreach.symm.trans (by decide)
  cases happ
  exact ⟨by decide, fun _ => Iff.rfl, fun hclosed => absurd hclosed (by decide)⟩

/-- Redis refuses the call and the fail mode is `closed`: the policy engine allows the request,
the gateway refuses it.  A rule of the client and one of the API: the policy engine denies by
the first, the gateway goes by the second. -/
theorem decisions_differ :
    allowsItem limitedClient (fun _ => none) { now := 0, delivery := .refused } = true ∧
    admitsItem limitedClient "closed" (fun _ => none) { now := 0, delivery := .refused } = false ∧
    allowsItem limitedTwice oneCall { now := 0 } = false ∧
    admitsItem limitedTwice "open" oneCall { now := 0 } = true := by
  refine ⟨?_, ?_, ?_, ?_⟩
  · decide
  · decide
  · decide
  · decide

end DDAG.PolicyEngine
