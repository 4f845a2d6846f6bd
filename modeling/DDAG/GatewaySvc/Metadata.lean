import DDAG.Store.Policy

/-!
# The metadata snapshot

`metadataSnapshot` of `internal/gatewaysvc/metadata.go`: the policies the gateway
keeps in memory, and the lookups a request makes in them.  The clients of the
snapshot are not modelled here.
-/

namespace DDAG.GatewaySvc

open Models Store

structure MetadataSnapshot where
  cacheRules : Id → Option CacheRule
  rateRules : List RateLimitRule
  ipWhitelists : List IPWhitelist

/-- `newMetadataSnapshot`. -/
def newMetadataSnapshot (cacheRules : List CacheRule) (rateRules : List RateLimitRule)
    (ips : List IPWhitelist) : MetadataSnapshot :=
  { cacheRules :=
      cacheRules.foldl (fun m cr => Function.update m cr.apiDefinitionID (some cr)) fun _ => none
    rateRules := rateRules
    ipWhitelists := ips }

@[simp]
theorem newMetadataSnapshot_rateRules (cacheRules : List CacheRule) (rateRules : List RateLimitRule)
    (ips : List IPWhitelist) : (newMetadataSnapshot cacheRules rateRules ips).rateRules = rateRules :=
  rfl

@[simp]
theorem newMetadataSnapshot_ipWhitelists (cacheRules : List CacheRule)
    (rateRules : List RateLimitRule) (ips : List IPWhitelist) :
    (newMetadataSnapshot cacheRules rateRules ips).ipWhitelists = ips :=
  rfl

def MetadataSnapshot.cacheRuleFor (s : MetadataSnapshot) (apiID : Id) : Option CacheRule :=
  s.cacheRules apiID

/-- The number of ids a rule names. -/
def specificity (r : RateLimitRule) : Nat :=
  (if r.clientID.isSome then 1 else 0) + (if r.apiDefinitionID.isSome then 1 else 0)

/-- The test of the loop: neither id names another client or API. -/
def keepsRule (clientID apiID : Id) (r : RateLimitRule) : Bool :=
  !(r.clientID.any (· ≠ clientID)) && !(r.apiDefinitionID.any (· ≠ apiID))

def MetadataSnapshot.rateLimitRulesFor (s : MetadataSnapshot) (clientID apiID : Id) :
    List RateLimitRule :=
  Rows.sortDesc specificity (s.rateRules.filter (keepsRule clientID apiID))

def keepsWhitelist (clientID apiID : Id) (w : IPWhitelist) : Bool :=
  w.active && (w.scopeLevel = .global || w.clientID.any (· = clientID) ||
    w.apiDefinitionID.any (· = apiID))

def MetadataSnapshot.ipWhitelistsFor (s : MetadataSnapshot) (clientID apiID : Id) :
    List IPWhitelist :=
  s.ipWhitelists.filter (keepsWhitelist clientID apiID)

/-- The rule `checkRateLimit` applies: the first one. -/
def appliedRule (rules : List RateLimitRule) : Option RateLimitRule := rules.head?

@[simp]
theorem newMetadataSnapshot_cacheRuleFor (cacheRules : List CacheRule)
    (rateRules : List RateLimitRule) (ips : List IPWhitelist) (apiID : Id) :
    (newMetadataSnapshot cacheRules rateRules ips).cacheRuleFor apiID =
      Rows.index CacheRule.apiDefinitionID cacheRules apiID :=
  rfl

/-! ## The lookups keep the rows the store selects -/

theorem keepsRule_eq (clientID apiID : Id) (r : RateLimitRule) :
    keepsRule clientID apiID r = rateRuleMatches clientID apiID r := by
  unfold keepsRule rateRuleMatches unsetOr
  cases r.clientID <;> cases r.apiDefinitionID <;> simp

theorem keepsWhitelist_eq (clientID apiID : Id) (w : IPWhitelist) :
    keepsWhitelist clientID apiID w = whitelistApplies clientID apiID w := by
  unfold keepsWhitelist whitelistApplies
  cases w.clientID <;> cases w.apiDefinitionID <;> simp

theorem rateLimitRulesFor_eq (s : MetadataSnapshot) (clientID apiID : Id) :
    s.rateLimitRulesFor clientID apiID =
      Rows.sortDesc specificity (s.rateRules.filter (rateRuleMatches clientID apiID)) := by
  rw [MetadataSnapshot.rateLimitRulesFor, funext (keepsRule_eq clientID apiID)]

theorem mem_rateLimitRulesFor {s : MetadataSnapshot} {clientID apiID : Id} {r : RateLimitRule} :
    r ∈ s.rateLimitRulesFor clientID apiID ↔
      r ∈ s.rateRules ∧ rateRuleMatches clientID apiID r = true := by
  rw [rateLimitRulesFor_eq, Rows.mem_sortDesc, List.mem_filter]

theorem mem_ipWhitelistsFor {s : MetadataSnapshot} {clientID apiID : Id} {w : IPWhitelist} :
    w ∈ s.ipWhitelistsFor clientID apiID ↔
      w ∈ s.ipWhitelists ∧ whitelistApplies clientID apiID w = true := by
  rw [MetadataSnapshot.ipWhitelistsFor, List.mem_filter, keepsWhitelist_eq]

end DDAG.GatewaySvc
