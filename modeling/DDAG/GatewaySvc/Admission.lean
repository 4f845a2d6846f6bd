import DDAG.GatewaySvc.Metadata
import DDAG.Lib.Trace
import DDAG.Policy.Access

/-!
# The policy checks of a request

The steps of `serve` in `internal/gatewaysvc/service.go` that look up the client of a
request, its grant for the API, the IP whitelist and the rate-limit rule.  Each of them
asks for the metadata snapshot that is current when it runs, and asks the store where
there is no snapshot, or no client in it.  Loads replace the snapshot at any time.

`admitted_by_one_snapshot` says that a request that passes all checks is admitted by
one snapshot that was current during the request, in every run in which the client is
found in a snapshot and no load takes back what the request was already found to have.
`combined_snapshots_admit` is a run in which neither of two snapshots admits a request
that passes.
-/

namespace DDAG.GatewaySvc

open Models Store Machine
open Policy (Network ipAllowed)

/-! ## Lookups -/

/-- The whole snapshot, with its clients. -/
structure Snapshot extends MetadataSnapshot where
  clientsByClientID : Text → Option Client
  clientsByID : Id → Option Client

/-- `newMetadataSnapshot`, with the clients. -/
def newSnapshot (clients : List Client) (cacheRules : List CacheRule)
    (rateRules : List RateLimitRule) (ips : List IPWhitelist) : Snapshot :=
  { newMetadataSnapshot cacheRules rateRules ips with
    clientsByClientID := Rows.index Client.clientID clients
    clientsByID := Rows.index Client.id clients }

def Snapshot.clientByClientID (s : Snapshot) (clientID : Text) : Option Client :=
  s.clientsByClientID clientID

def Snapshot.clientHasAPIAccess (s : Snapshot) (clientID apiID : Id) : Bool :=
  match s.clientsByID clientID with
  | none => false
  | some c => c.apis.contains apiID

/-- What the store answers, where an error is no answer. -/
structure Directory where
  getClientByClientID : Text → Option Client
  clientHasAPIAccess : Id → Id → Bool
  ipWhitelistsFor : Id → Id → Option (List IPWhitelist)
  rateLimitRulesFor : Id → Id → Option (List RateLimitRule)

/-- Where the gateway looks: its snapshot, if it has loaded one, and the store. -/
structure Lookup where
  snapshot : Option Snapshot
  store : Directory

def Lookup.clientByClientID (g : Lookup) (clientID : Text) : Option Client :=
  match g.snapshot.bind fun s => s.clientByClientID clientID with
  | some c => some c
  | none => g.store.getClientByClientID clientID

def Lookup.clientHasAPIAccess (g : Lookup) (clientID apiID : Id) : Bool :=
  match g.snapshot with
  | some s => s.clientHasAPIAccess clientID apiID
  | none => g.store.clientHasAPIAccess clientID apiID

def Lookup.ipWhitelistsFor (g : Lookup) (clientID apiID : Id) : Option (List IPWhitelist) :=
  match g.snapshot with
  | some s => some (s.ipWhitelistsFor clientID apiID)
  | none => g.store.ipWhitelistsFor clientID apiID

def Lookup.rateLimitRulesFor (g : Lookup) (clientID apiID : Id) : Option (List RateLimitRule) :=
  match g.snapshot with
  | some s => some (s.rateLimitRulesFor clientID apiID)
  | none => g.store.rateLimitRulesFor clientID apiID

/-! ## Checks -/

/-- What the checks read of a request, and what the limiter says to a rule. -/
structure Caller where
  clientID : Text
  apiID : Id
  ip : Text
  limited : RateLimitRule → Bool

section Checks

variable {α : Type*} [DecidableEq α] (net : Network α)

/-- `checkIP`: the address is blocked. -/
def checkIP (g : Lookup) (ip : Text) (clientID apiID : Id) : Bool :=
  match g.ipWhitelistsFor clientID apiID with
  | none => true
  | some entries =>
      if entries = [] then true else !ipAllowed net ip (entries.map IPWhitelist.ipCIDR)

/-- `checkRateLimit`: the client is over a limit. -/
def checkRateLimit (g : Lookup) (q : Caller) (clientID : Id) : Bool :=
  match (g.rateLimitRulesFor clientID q.apiID).bind appliedRule with
  | none => false
  | some rule => q.limited rule

inductive CheckPhase where
  | start
  | found (client : Client)
  | granted (client : Client)
  | whitelisted (client : Client)
  | admitted
  | refused
deriving DecidableEq

/-- The next check of a request. -/
def check (q : Caller) (g : Lookup) : CheckPhase → CheckPhase
  | .start =>
      match g.clientByClientID q.clientID with
      | none => .refused
      | some c => if c.active then .found c else .refused
  | .found c => if g.clientHasAPIAccess c.id q.apiID then .granted c else .refused
  | .granted c => if checkIP net g q.ip c.id q.apiID then .refused else .whitelisted c
  | .whitelisted c => if checkRateLimit g q c.id then .refused else .admitted
  | .admitted => .admitted
  | .refused => .refused

/-- A request in the gateway, with the snapshots that were current since it arrived. -/
structure Checking where
  lookup : Lookup
  phase : CheckPhase
  current : List Snapshot

inductive CheckEvent where
  | swap (s : Snapshot)
  | commit (store : Directory)
  | check

def checkStep (q : Caller) (p : Checking) : CheckEvent → Option Checking
  | .swap s => some { p with lookup.snapshot := some s, current := s :: p.current }
  | .commit store => some { p with lookup.store := store }
  | .check => some { p with phase := check net q p.lookup p.phase }

def arriving (g : Lookup) : Checking :=
  { lookup := g, phase := .start, current := g.snapshot.toList }

/-! ## Admission by one snapshot -/

/-- The snapshot knows the client of the request under this id, as an active one. -/
def Snapshot.Knows (s : Snapshot) (q : Caller) (id : Id) : Prop :=
  ∃ c, s.clientByClientID q.clientID = some c ∧ c.id = id ∧ c.active = true

/-- The client is active, is granted the API, and has a whitelist entry that matches
the address. -/
def Snapshot.Admits (s : Snapshot) (q : Caller) : Prop :=
  ∃ id, s.Knows q id ∧ s.clientHasAPIAccess id q.apiID = true ∧
    ipAllowed net q.ip ((s.ipWhitelistsFor id q.apiID).map IPWhitelist.ipCIDR) = true

/-- A request that was admitted is admitted by one snapshot that was current. -/
def AdmittedByOne (q : Caller) (p : Checking) : Prop :=
  p.phase = .admitted → ∃ s ∈ p.current, s.Admits net q

end Checks

/-- The client of the request is not looked up in a snapshot. -/
def AsksStore (q : Caller) (p : Checking) (e : CheckEvent) : Prop :=
  e = .check ∧ p.phase = .start ∧ ∀ s, p.lookup.snapshot = some s → s.clientByClientID q.clientID = none

/-- A load takes back what the request was found to have: its client, before the IP
check, or its grant, between the check of the grant and the IP check. -/
def Revokes (q : Caller) (p : Checking) (e : CheckEvent) : Prop :=
  ∃ s, e = .swap s ∧
    ((∃ c, p.phase = .found c ∧ ¬s.Knows q c.id) ∨
      ∃ c, p.phase = .granted c ∧ ¬(s.Knows q c.id ∧ s.clientHasAPIAccess c.id q.apiID = true))

section Runs

variable {α : Type*} [DecidableEq α] {net : Network α} {q : Caller} {p p' : Checking}

/-- What the checks so far have found is what the current snapshot says, until one
snapshot has said all of it. -/
def Supported (net : Network α) (q : Caller) (g : Lookup) (current : List Snapshot) :
    CheckPhase → Prop
  | .start | .refused => True
  | .found c => ∃ s, g.snapshot = some s ∧ s.Knows q c.id
  | .granted c => ∃ s, g.snapshot = some s ∧ s.Knows q c.id ∧ s.clientHasAPIAccess c.id q.apiID = true
  | .whitelisted _ | .admitted => ∃ s ∈ current, s.Admits net q

structure Consistent (net : Network α) (q : Caller) (p : Checking) : Prop where
  current : ∀ s, p.lookup.snapshot = some s → s ∈ p.current
  supported : Supported net q p.lookup p.current p.phase

theorem consistent_arriving (net : Network α) (q : Caller) (g : Lookup) :
    Consistent net q (arriving g) where
  current s hs := by simpa [arriving] using hs
  supported := trivial

theorem consistent_swap (hp : Consistent net q p) {s : Snapshot} (hs : ¬Revokes q p (.swap s)) :
    Consistent net q { p with lookup.snapshot := some s, current := s :: p.current } := by
  refine ⟨fun t ht => Option.some.inj ht ▸ List.mem_cons_self, ?_⟩
  have hsupported := hp.supported
  have hkept : ∀ {P : Snapshot → Prop}, (∃ t ∈ p.current, P t) → ∃ t ∈ s :: p.current, P t :=
    fun ⟨t, ht, hP⟩ => ⟨t, .tail s ht, hP⟩
  cases hphase : p.phase with
  | start => trivial
  | refused => trivial
  | found c =>
      refine ⟨s, rfl, ?_⟩
      by_contra hnot
      exact hs ⟨s, rfl, .inl ⟨c, hphase, hnot⟩⟩
  | granted c =>
      refine ⟨s, rfl, ?_⟩
      by_contra hnot
      exact hs ⟨s, rfl, .inr ⟨c, hphase, hnot⟩⟩
  | whitelisted c =>
      rw [hphase] at hsupported
      exact hkept hsupported
  | admitted =>
      rw [hphase] at hsupported
      exact hkept hsupported

theorem check_start (hs : ¬AsksStore q p .check) (hphase : p.phase = .start) :
    Supported net q p.lookup p.current (check net q p.lookup .start) := by
  have hfound : ∃ s c, p.lookup.snapshot = some s ∧ s.clientByClientID q.clientID = some c := by
    by_contra hnone
    refine hs ⟨rfl, hphase, fun s hsnapshot => ?_⟩
    cases hc : s.clientByClientID q.clientID with
    | none => rfl
    | some c => exact absurd ⟨s, c, hsnapshot, hc⟩ hnone
  obtain ⟨s, c, hsnapshot, hc⟩ := hfound
  have hlookup : p.lookup.clientByClientID q.clientID = some c := by
    simp [Lookup.clientByClientID, hsnapshot, hc]
  simp only [check, hlookup]
  split
  next hactive => exact ⟨s, hsnapshot, c, hc, rfl, hactive⟩
  next _ => trivial

/-- An address that is not blocked matches an entry of the snapshot. -/
theorem ipAllowed_of_checkIP {g : Lookup} {s : Snapshot} (hs : g.snapshot = some s) {ip : Text}
    {clientID apiID : Id} (h : ¬checkIP net g ip clientID apiID = true) :
    ipAllowed net ip ((s.ipWhitelistsFor clientID apiID).map IPWhitelist.ipCIDR) = true := by
  simp only [checkIP, Lookup.ipWhitelistsFor, hs] at h
  split at h
  next _ => exact absurd rfl h
  next _ => simpa using h

theorem consistent_check (hp : Consistent net q p) (hs : ¬AsksStore q p .check) :
    Consistent net q { p with phase := check net q p.lookup p.phase } := by
  refine ⟨hp.current, ?_⟩
  have hsupported := hp.supported
  cases hphase : p.phase with
  | start => exact check_start (p := p) hs hphase
  | refused => trivial
  | found c =>
      rw [hphase] at hsupported
      obtain ⟨s, hsnapshot, hknows⟩ := hsupported
      simp only [check, Lookup.clientHasAPIAccess, hsnapshot]
      split
      next hgrant => exact ⟨s, hsnapshot, hknows, hgrant⟩
      next _ => trivial
  | granted c =>
      rw [hphase] at hsupported
      obtain ⟨s, hsnapshot, hknows, hgrant⟩ := hsupported
      simp only [check]
      split
      next _ => trivial
      next hip =>
        exact ⟨s, hp.current s hsnapshot, c.id, hknows, hgrant, ipAllowed_of_checkIP hsnapshot hip⟩
  | whitelisted c =>
      rw [hphase] at hsupported
      simp only [check]
      split
      next _ => trivial
      next _ => exact hsupported
  | admitted =>
      rw [hphase] at hsupported
      exact hsupported

theorem consistent_step {e : CheckEvent} (hp : Consistent net q p)
    (he : ¬AsksStore q p e ∧ ¬Revokes q p e) (hs : checkStep net q p e = some p') :
    Consistent net q p' := by
  cases e with
  | swap s =>
      cases hs
      exact consistent_swap hp he.2
  | commit store =>
      cases hs
      have hsupported : Supported net q { p.lookup with store := store } p.current p.phase := by
        have hold := hp.supported
        cases hphase : p.phase <;> rw [hphase] at hold <;> exact hold
      exact ⟨hp.current, hsupported⟩
  | check =>
      cases hs
      exact consistent_check hp he.1

/-- Whatever loads and commits there are: if the client is found in a snapshot and no
load takes back what was found, a request that passes all checks is admitted by one
snapshot that was current during the request. -/
theorem admitted_by_one_snapshot (net : Network α) (q : Caller) (g : Lookup) {es : List CheckEvent}
    (h : Each (checkStep net q) (fun p e => ¬AsksStore q p e ∧ ¬Revokes q p e) (arriving g) es) :
    Along (checkStep net q) (AdmittedByOne net q) (arriving g) es := by
  refine (Along.of_each consistent_step (consistent_arriving net q g) h).mono fun p hp hphase => ?_
  have hsupported := hp.supported
  rw [hphase] at hsupported
  exact hsupported

end Runs

/-! ## Two snapshots -/

/-- Addresses compared as texts. -/
def textNetwork : Network Text where
  parseIP := some
  parseCIDR _ := none

def app : Client := { id := 10, clientID := "app".toList }

def appCaller : Caller where
  clientID := "app".toList
  apiID := 20
  ip := "10.0.0.1".toList
  limited _ := false

def appWhitelist : IPWhitelist := { id := 1, clientID := some 10, ipCIDR := "10.0.0.1".toList }

def grantOnly : Snapshot := newSnapshot [{ app with apis := [20] }] [] [] []

def whitelistOnly : Snapshot := newSnapshot [app] [] [] [appWhitelist]

def emptyDirectory : Directory where
  getClientByClientID _ := none
  clientHasAPIAccess _ _ := false
  ipWhitelistsFor _ _ := none
  rateLimitRulesFor _ _ := none

theorem grantOnly_not_admits : ¬grantOnly.Admits textNetwork appCaller := by
  rintro ⟨id, -, -, hip⟩
  have hnone : grantOnly.ipWhitelistsFor id appCaller.apiID = [] := rfl
  rw [hnone] at hip
  exact absurd hip (by decide)

theorem whitelistOnly_not_admits : ¬whitelistOnly.Admits textNetwork appCaller := by
  rintro ⟨id, ⟨c, hc, rfl, -⟩, hgrant, -⟩
  have happ : whitelistOnly.clientByClientID appCaller.clientID = some app := by decide
  rw [happ] at hc
  cases hc
  exact absurd hgrant (by decide)

/-- A load between the check of the grant and the IP check: the request passes, and
neither snapshot admits it. -/
theorem combined_snapshots_admit :
    ∃ p, runs (checkStep textNetwork appCaller)
        (arriving { snapshot := some grantOnly, store := emptyDirectory })
        [.check, .check, .swap whitelistOnly, .check, .check] = some p ∧
      p.phase = .admitted ∧ p.current = [whitelistOnly, grantOnly] ∧
      ¬AdmittedByOne textNetwork appCaller p := by
  refine ⟨_, rfl, by decide, rfl, fun hone => ?_⟩
  obtain ⟨s, hs, hadmits⟩ := hone (by decide)
  have hcurrent : s = whitelistOnly ∨ s = grantOnly := by simpa [arriving] using hs
  rcases hcurrent with rfl | rfl
  · exact whitelistOnly_not_admits hadmits
  · exact grantOnly_not_admits hadmits

/-- A snapshot with both admits the request, whatever is loaded before its first check. -/
def wholePolicy : Snapshot := newSnapshot [{ app with apis := [20] }] [] [] [appWhitelist]

theorem whole_policy_admits :
    (runs (checkStep textNetwork appCaller) (arriving { snapshot := none, store := emptyDirectory })
        [.swap wholePolicy, .check, .check, .check, .check]).map (·.phase) = some .admitted ∧
      Along (checkStep textNetwork appCaller) (AdmittedByOne textNetwork appCaller)
        (arriving { snapshot := none, store := emptyDirectory })
        [.swap wholePolicy, .check, .check, .check, .check] := by
  refine ⟨by decide, admitted_by_one_snapshot _ _ _ ?_⟩
  have hcheck : ∀ {p : Checking}, ¬Revokes appCaller p .check := fun ⟨_, he, _⟩ => nomatch he
  have hlater : ∀ {p : Checking}, p.phase ≠ .start → ¬AsksStore appCaller p .check :=
    fun hphase ⟨_, hstart, _⟩ => hphase hstart
  have hswap : ∀ {p : Checking}, ¬AsksStore appCaller p (.swap wholePolicy) :=
    fun ⟨he, _⟩ => nomatch he
  refine .cons ⟨hswap, ?_⟩ rfl (.cons ⟨?_, hcheck⟩ rfl (.cons ⟨hlater (by decide), hcheck⟩ rfl
    (.cons ⟨hlater (by decide), hcheck⟩ rfl (.cons ⟨hlater (by decide), hcheck⟩ rfl trivial))))
  · -- nothing is found yet that could be taken back
    rintro ⟨s, -, ⟨c, hphase, -⟩ | ⟨c, hphase, -⟩⟩ <;> cases hphase
  · rintro ⟨-, -, hnone⟩
    exact absurd (hnone wholePolicy rfl) (by decide)

end DDAG.GatewaySvc
