import DDAG.GatewaySvc.Metadata
import DDAG.Lib.Fallible

/-!
# What the snapshot covers

`loadRoutes` of `internal/gatewaysvc/service.go` fills the snapshot from the first
page of each policy list, at most 200 rows, the newest first.  The store's queries
for one client and API read the whole tables.

`snapshot_covers_iff` says for which tables the snapshot has every row those
queries return: at most 200 cache rules, at most 200 rate-limit rules, and no
entry of the whitelist that can apply behind the first 200.
-/

namespace DDAG.GatewaySvc

open Models Store Rows

/-! ## Loading -/

/-- The list queries of `loadRoutes`. -/
inductive ListQuery where
  | publishedAPIs
  | cacheRules
  | allClients
  | rateLimitRules
  | ipWhitelists

/-- The orders in which the tables are listed during a load. -/
structure Orders (db : Tables) where
  cacheRules : List CacheRule
  rateRules : List RateLimitRule
  whitelists : List IPWhitelist
  listing_cacheRules : Listing CacheRule.createdAt db.cacheRules cacheRules
  listing_rateRules : Listing RateLimitRule.createdAt db.rateRules rateRules
  listing_whitelists : Listing IPWhitelist.createdAt db.whitelists whitelists

/-- The answer of a query, or the error it fails with. -/
def answer {ε α : Type} (failure : Option ε) (rows : α) : Except ε α :=
  match failure with
  | some e => .error e
  | none => .ok rows

/-- `loadRoutes`: the snapshot it installs if every query succeeds.  The routes and
the clients are not kept here. -/
def loadRoutes {ε : Type} {db : Tables} (fails : ListQuery → Option ε) (o : Orders db) :
    Except ε MetadataSnapshot := do
  answer (fails .publishedAPIs) ()
  let cacheRules ← answer (fails .cacheRules) (firstPage o.cacheRules)
  answer (fails .allClients) ()
  let rateRules ← answer (fails .rateLimitRules) (firstPage o.rateRules)
  let ips ← answer (fails .ipWhitelists) (firstPage o.whitelists)
  return newMetadataSnapshot cacheRules rateRules ips

theorem answer_eq_ok {ε α : Type} {failure : Option ε} {rows a : α}
    (h : answer failure rows = .ok a) : a = rows := by
  cases failure with
  | none =>
      cases h
      rfl
  | some e => cases h

theorem loadRoutes_eq_ok {ε : Type} {db : Tables} {fails : ListQuery → Option ε} {o : Orders db}
    {s : MetadataSnapshot} (h : loadRoutes fails o = .ok s) :
    s = newMetadataSnapshot (firstPage o.cacheRules) (firstPage o.rateRules)
      (firstPage o.whitelists) := by
  obtain ⟨_, _, h⟩ := Fallible.bind_eq_ok.mp h
  obtain ⟨cacheRules, hcache, h⟩ := Fallible.bind_eq_ok.mp h
  obtain ⟨_, _, h⟩ := Fallible.bind_eq_ok.mp h
  obtain ⟨rateRules, hrate, h⟩ := Fallible.bind_eq_ok.mp h
  obtain ⟨ips, hips, h⟩ := Fallible.bind_eq_ok.mp h
  cases h
  rw [answer_eq_ok hcache, answer_eq_ok hrate, answer_eq_ok hips]

/-! ## Coverage -/

/-- The lookups for a client and an API see every row the store's queries return. -/
structure Sees (db : Tables) (s : MetadataSnapshot) (clientID apiID : Id) : Prop where
  whitelists : ∀ out, IPWhitelistsFor clientID apiID db.whitelists out →
    ∀ w ∈ out, w ∈ s.ipWhitelistsFor clientID apiID
  rateRules : ∀ out, RateLimitRulesFor clientID apiID db.rateRules out →
    ∀ r ∈ out, r ∈ s.rateLimitRulesFor clientID apiID
  cacheRule : ∀ cr, getCacheRule db.cacheRules apiID = some cr → s.cacheRuleFor apiID = some cr

section Tables

variable {db : Tables} {s : MetadataSnapshot}

/-- Every entry of the table that can apply is in the snapshot. -/
theorem whitelists_seen_iff :
    (∀ clientID apiID out, IPWhitelistsFor clientID apiID db.whitelists out →
        ∀ w ∈ out, w ∈ s.ipWhitelistsFor clientID apiID) ↔
      ∀ w ∈ db.whitelists, Applicable w → w ∈ s.ipWhitelists := by
  constructor
  · intro hseen w hw happlicable
    obtain ⟨clientID, apiID, happlies⟩ := applicable_iff.mp happlicable
    have hout : IPWhitelistsFor clientID apiID db.whitelists
        (db.whitelists.filter (whitelistApplies clientID apiID)) :=
      ⟨.refl _, List.pairwise_of_forall fun _ _ => trivial⟩
    have hmem := hseen clientID apiID _ hout w (List.mem_filter.mpr ⟨hw, happlies⟩)
    exact (mem_ipWhitelistsFor.mp hmem).1
  · intro hall clientID apiID out hout w hw
    obtain ⟨hrow, happlies⟩ := hout.mem_iff.mp hw
    exact mem_ipWhitelistsFor.mpr
      ⟨hall w hrow (applicable_iff.mpr ⟨clientID, apiID, happlies⟩), happlies⟩

/-- Every rule of the table is in the snapshot, since each matches some request. -/
theorem rateRules_seen_iff :
    (∀ clientID apiID out, RateLimitRulesFor clientID apiID db.rateRules out →
        ∀ r ∈ out, r ∈ s.rateLimitRulesFor clientID apiID) ↔
      ∀ r ∈ db.rateRules, r ∈ s.rateRules := by
  constructor
  · intro hseen r hr
    obtain ⟨clientID, apiID, hmatches⟩ := exists_rateRuleMatches r
    obtain ⟨out, hout⟩ :=
      exists_selected (rateRuleMatches clientID apiID) ranksBefore db.rateRules
    have hmem := hseen clientID apiID out hout r (hout.mem_iff.mpr ⟨hr, hmatches⟩)
    exact (mem_rateLimitRulesFor.mp hmem).1
  · intro hall clientID apiID out hout r hr
    obtain ⟨hrow, hmatches⟩ := hout.mem_iff.mp hr
    exact mem_rateLimitRulesFor.mpr ⟨hall r hrow, hmatches⟩

/-- Every cache rule of the table is among those the snapshot was filled from. -/
theorem cacheRules_seen_iff {listed : List CacheRule} {rateRules : List RateLimitRule}
    {ips : List IPWhitelist} (hnodup : (listed.map CacheRule.apiDefinitionID).Nodup) :
    (∀ apiID cr, getCacheRule db.cacheRules apiID = some cr →
        (newMetadataSnapshot listed rateRules ips).cacheRuleFor apiID = some cr) ↔
      ∀ cr ∈ db.cacheRules, cr ∈ listed := by
  simp only [newMetadataSnapshot_cacheRuleFor, index_eq_some hnodup, getCacheRule,
    find_key_eq_some db.cacheRules_nodup]
  constructor
  · intro hseen cr hcr
    exact (hseen cr.apiDefinitionID cr ⟨hcr, rfl⟩).1
  · intro hall apiID cr hcr
    exact ⟨hall cr hcr.1, hcr.2⟩

theorem forall_sees_iff :
    (∀ clientID apiID, Sees db s clientID apiID) ↔
      (∀ apiID cr, getCacheRule db.cacheRules apiID = some cr → s.cacheRuleFor apiID = some cr) ∧
        (∀ clientID apiID out, RateLimitRulesFor clientID apiID db.rateRules out →
          ∀ r ∈ out, r ∈ s.rateLimitRulesFor clientID apiID) ∧
        ∀ clientID apiID out, IPWhitelistsFor clientID apiID db.whitelists out →
          ∀ w ∈ out, w ∈ s.ipWhitelistsFor clientID apiID := by
  constructor
  · intro h
    exact ⟨fun apiID => (h 0 apiID).cacheRule, fun clientID apiID => (h clientID apiID).rateRules,
      fun clientID apiID => (h clientID apiID).whitelists⟩
  · intro ⟨hcache, hrate, hips⟩ clientID apiID
    exact ⟨hips clientID apiID, hrate clientID apiID, hcache apiID⟩

/-- The rows of a snapshot's first page of cache rules have distinct APIs. -/
theorem firstPage_cacheRules_nodup (o : Orders db) :
    ((firstPage o.cacheRules).map CacheRule.apiDefinitionID).Nodup := by
  have hperm := o.listing_cacheRules.perm_rows.map CacheRule.apiDefinitionID
  have hsub := (List.take_sublist 200 o.cacheRules).map CacheRule.apiDefinitionID
  exact (hperm.nodup_iff.mpr db.cacheRules_nodup).sublist hsub

/-- For every database, listing order and load that succeeds: the lookups of every
client and API see all rows of the store's queries exactly if neither the cache
rules nor the rate-limit rules are more than a page, and no entry that can apply is
listed behind the first page of the whitelist. -/
theorem snapshot_covers_iff {ε : Type} {fails : ListQuery → Option ε} {o : Orders db}
    (h : loadRoutes fails o = .ok s) :
    (∀ clientID apiID, Sees db s clientID apiID) ↔
      db.cacheRules.length ≤ 200 ∧ db.rateRules.length ≤ 200 ∧
        ∀ w ∈ o.whitelists.drop 200, ¬Applicable w := by
  obtain rfl := loadRoutes_eq_ok h
  rw [forall_sees_iff, cacheRules_seen_iff (firstPage_cacheRules_nodup o), rateRules_seen_iff,
    whitelists_seen_iff, newMetadataSnapshot_rateRules, newMetadataSnapshot_ipWhitelists]
  rw [firstPage_all_iff o.listing_cacheRules db.cacheRules_nodup.of_map,
    firstPage_all_iff o.listing_rateRules db.rateRules_nodup.of_map,
    firstPage_covers_iff o.listing_whitelists db.whitelists_nodup.of_map]

end Tables

/-! ## A table of more than a page -/

/-- A rule for client `n`, older the larger `n` is. -/
def clientLimit (n : Nat) : RateLimitRule :=
  { id := n, clientID := some n, requestsPerSecond := 5, createdAt := -n }

/-- One rule for each of `n` clients, a cache rule and a global whitelist entry. -/
def clientLimits (n : Nat) : Tables where
  rateRules := (List.range n).map clientLimit
  cacheRules := [{ id := 0, apiDefinitionID := 0 }]
  whitelists := [{ id := 0, scopeLevel := .global }]
  rateRules_nodup := by
    rw [List.map_map]
    exact List.nodup_range.map fun _ _ h => h
  cacheRules_nodup := List.nodup_singleton _
  whitelists_nodup := List.nodup_singleton _

/-- Its rules are listed in their order. -/
def clientLimitsOrder (n : Nat) : Orders (clientLimits n) where
  cacheRules := (clientLimits n).cacheRules
  rateRules := (clientLimits n).rateRules
  whitelists := (clientLimits n).whitelists
  listing_cacheRules := ⟨.refl _, List.pairwise_singleton _ _⟩
  listing_rateRules := by
    refine ⟨.of_eq (List.filter_true _).symm, List.pairwise_map.mpr ?_⟩
    exact List.pairwise_lt_range.imp fun h => by simpa [clientLimit] using h.le
  listing_whitelists := ⟨.refl _, List.pairwise_singleton _ _⟩

/-- The snapshot a load of these tables installs. -/
def clientLimitsSnapshot (n : Nat) : MetadataSnapshot :=
  newMetadataSnapshot (firstPage (clientLimits n).cacheRules) (firstPage (clientLimits n).rateRules)
    (firstPage (clientLimits n).whitelists)

theorem load_clientLimits (n : Nat) :
    loadRoutes (fun _ => (none : Option Unit)) (clientLimitsOrder n) =
      .ok (clientLimitsSnapshot n) :=
  rfl

/-- With 201 rules the oldest is dropped: its client has a limit in the store and
none in the snapshot. -/
theorem oldest_rule_dropped :
    loadRoutes (fun _ => (none : Option Unit)) (clientLimitsOrder 201) =
        .ok (clientLimitsSnapshot 201) ∧
      RateLimitRulesFor 200 0 (clientLimits 201).rateRules [clientLimit 200] ∧
      (clientLimitsSnapshot 201).rateLimitRulesFor 200 0 = [] ∧
      ¬∀ clientID apiID, Sees (clientLimits 201) (clientLimitsSnapshot 201) clientID apiID := by
  have hstore : RateLimitRulesFor 200 0 (clientLimits 201).rateRules [clientLimit 200] :=
    ⟨.of_eq (by decide +kernel), List.pairwise_singleton _ _⟩
  have hlookup : (clientLimitsSnapshot 201).rateLimitRulesFor 200 0 = [] := by decide +kernel
  refine ⟨load_clientLimits 201, hstore, hlookup, fun hsees => ?_⟩
  have hmem := (hsees 200 0).rateRules _ hstore (clientLimit 200) List.mem_cons_self
  rw [hlookup] at hmem
  cases hmem

/-- With 200 rules the oldest is seen as well. -/
theorem full_page_covered :
    loadRoutes (fun _ => (none : Option Unit)) (clientLimitsOrder 200) =
        .ok (clientLimitsSnapshot 200) ∧
      Sees (clientLimits 200) (clientLimitsSnapshot 200) 199 0 := by
  have hwhitelists : ∀ w ∈ (clientLimitsOrder 200).whitelists.drop 200, ¬Applicable w := by
    intro w hw
    cases hw
  have hcovers := (snapshot_covers_iff (load_clientLimits 200)).mpr
    ⟨by decide, by decide +kernel, hwhitelists⟩
  exact ⟨load_clientLimits 200, hcovers 199 0⟩

end DDAG.GatewaySvc
