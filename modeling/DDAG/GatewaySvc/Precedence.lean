import DDAG.GatewaySvc.Metadata

/-!
# Which rate-limit rule applies

The snapshot sorts the rules of a request by the number of ids they name, and keeps
the listing order among rules that name one id.  The store's query puts rules that
name the client before rules that name the API.  Both apply the first rule.

`applied_rules_agree_iff` says when the two rules have one precedence: unless a
rule for the API alone is listed before the first rule for the client alone and no
rule names both.
-/

namespace DDAG.GatewaySvc

open Models Store Rows

/-- Which ids a rule names: the client, and the API. -/
def precedence (r : RateLimitRule) : Bool × Bool := (r.clientID.isSome, r.apiDefinitionID.isSome)

/-- The rules of both paths have one precedence, and are one rule if only one rule
has it. -/
structure Agrees (matching : List RateLimitRule) (snapshot store : Option RateLimitRule) : Prop where
  same : snapshot.map precedence = store.map precedence
  single : ∀ r, store = some r →
    (matching.filter (precedence · = precedence r)).length = 1 → snapshot = some r

/-- Among the matching rules in listing order: one names both ids, or none names
the client alone, or the first that names one id names the client. -/
def ClientFirst (matching : List RateLimitRule) : Prop :=
  (∃ r ∈ matching, precedence r = (true, true)) ∨ (∀ r ∈ matching, precedence r ≠ (true, false)) ∨
    ∃ r, matching.find? (specificity · = 1) = some r ∧ precedence r = (true, false)

theorem specificity_eq (r : RateLimitRule) :
    specificity r = (precedence r).1.toNat + (precedence r).2.toNat := by
  unfold specificity precedence
  cases r.clientID <;> cases r.apiDefinitionID <;> rfl

theorem ranksBefore_iff {r s : RateLimitRule} :
    ranksBefore r s ↔ ((precedence s).1 = true → (precedence r).1 = true) ∧
      ((precedence r).1 = (precedence s).1 → (precedence s).2 = true → (precedence r).2 = true) :=
  Iff.rfl

theorem precedence_cases (r : RateLimitRule) :
    precedence r = (true, true) ∨ precedence r = (true, false) ∨ precedence r = (false, true) ∨
      precedence r = (false, false) := by
  unfold precedence
  cases r.clientID <;> cases r.apiDefinitionID <;> simp

section Heads

variable {matching : List RateLimitRule} {s t : RateLimitRule}

/-- The store's rule ranks before every matching rule, the snapshot's rule `t` is
the first with the most ids. -/
structure Heads (matching : List RateLimitRule) (s t : RateLimitRule) : Prop where
  store_mem : s ∈ matching
  store_first : ∀ r ∈ matching, ranksBefore s r
  snapshot_mem : t ∈ matching
  snapshot_most : ∀ r ∈ matching, specificity r ≤ specificity t
  snapshot_first : matching.find? (specificity · = specificity t) = some t

theorem specificity_of {r : RateLimitRule} {a b : Bool} (h : precedence r = (a, b)) :
    specificity r = a.toNat + b.toNat := by
  rw [specificity_eq, h]

theorem Heads.clientFirst (h : Heads matching s t) (heq : precedence t = precedence s) :
    ClientFirst matching := by
  rcases precedence_cases t with ht | ht | ht | ht
  · exact .inl ⟨t, h.snapshot_mem, ht⟩
  · have hfirst := h.snapshot_first
    rw [specificity_of ht] at hfirst
    exact .inr (.inr ⟨t, hfirst, ht⟩)
  · refine .inr (.inl fun r hr hclient => ?_)
    -- the store's rule would name the client
    have hnames := (ranksBefore_iff.mp (h.store_first r hr)).1
    rw [hclient, ← heq, ht] at hnames
    cases hnames rfl
  · refine .inr (.inl fun r hr hclient => ?_)
    have hle := h.snapshot_most r hr
    rw [specificity_of hclient, specificity_of ht] at hle
    cases hle

/-- The one way the two rules differ: the store's names the client, the snapshot's
the API. -/
theorem Heads.precedence_or (h : Heads matching s t) :
    precedence t = precedence s ∨ (precedence s = (true, false) ∧ precedence t = (false, true)) := by
  have hle := h.snapshot_most s h.store_mem
  have hranks := ranksBefore_iff.mp (h.store_first t h.snapshot_mem)
  rw [specificity_eq, specificity_eq] at hle
  -- what is left is a finite check on which ids the two rules name
  generalize precedence s = p at hle hranks ⊢
  generalize precedence t = q at hle hranks ⊢
  obtain ⟨a, b⟩ := p
  obtain ⟨c, d⟩ := q
  revert a b c d
  decide

theorem Heads.precedence_iff (h : Heads matching s t) :
    precedence t = precedence s ↔ ClientFirst matching := by
  refine ⟨h.clientFirst, fun hfirst => h.precedence_or.resolve_right ?_⟩
  intro ⟨hs, ht⟩
  have hone : specificity t = 1 := specificity_of ht
  rcases hfirst with ⟨r, hr, hpair⟩ | hno | ⟨r, hr, hclient⟩
  · have hle := h.snapshot_most r hr
    rw [specificity_of hpair, hone] at hle
    exact absurd hle (by decide)
  · exact hno s h.store_mem hs
  · -- the snapshot's rule is the first that names one id
    have hfind := h.snapshot_first
    rw [hone, hr] at hfind
    cases hfind
    rw [hclient] at ht
    cases ht

end Heads

/-! ## Both paths on one table -/

section Paths

variable {clientID apiID : Id} {rows listing out all : List RateLimitRule}

/-- Two matching rules are the first ones of the two paths. -/
theorem heads_of_paths (hperm : listing.Perm rows) (hout : RateLimitRulesFor clientID apiID rows out)
    {s t : RateLimitRule} (hs : appliedRule out = some s)
    (ht : appliedRule (sortDesc specificity (listing.filter (rateRuleMatches clientID apiID))) =
      some t) :
    Heads (listing.filter (rateRuleMatches clientID apiID)) s t := by
  have hmem : ∀ r, r ∈ listing.filter (rateRuleMatches clientID apiID) ↔
      r ∈ rows ∧ rateRuleMatches clientID apiID r = true := by
    intro r
    rw [List.mem_filter, hperm.mem_iff]
  obtain ⟨hstore, hbefore⟩ := hout.head hs
  obtain ⟨hmost, hfirst⟩ := sortDesc_head ht
  refine ⟨(hmem s).mpr hstore, ?_, mem_sortDesc.mp (List.mem_of_head? ht), hmost, hfirst⟩
  intro r hr
  obtain ⟨hrows, hmatch⟩ := (hmem r).mp hr
  rcases hbefore r hrows hmatch with rfl | hrank
  · exact ⟨id, fun _ => id⟩
  · exact hrank

/-- Rules of one precedence are one rule if only one rule has it. -/
theorem eq_of_single {matching : List RateLimitRule} {s t : RateLimitRule}
    (hone : (matching.filter (precedence · = precedence s)).length = 1) (hs : s ∈ matching)
    (ht : t ∈ matching) (heq : precedence t = precedence s) : t = s := by
  obtain ⟨r, hr⟩ := List.length_eq_one_iff.mp hone
  have only : ∀ x ∈ matching, precedence x = precedence s → x = r := by
    intro x hx hpx
    have hfilter : x ∈ matching.filter (precedence · = precedence s) :=
      List.mem_filter.mpr ⟨hx, decide_eq_true hpx⟩
    rw [hr] at hfilter
    exact List.mem_singleton.mp hfilter
  rw [only t ht heq, only s hs rfl]

/-- Two first rules agree if and only if they have one precedence. -/
theorem Heads.agrees_iff {matching : List RateLimitRule} {s t : RateLimitRule}
    (h : Heads matching s t) (hperm : matching.Perm all) :
    Agrees all (some t) (some s) ↔ precedence t = precedence s := by
  refine ⟨fun hagrees => Option.some.inj hagrees.same, fun heq => ⟨congrArg some heq, ?_⟩⟩
  intro r hr hone
  cases hr
  exact congrArg some
    (eq_of_single hone (hperm.mem_iff.mp h.store_mem) (hperm.mem_iff.mp h.snapshot_mem) heq)

/-- For every table, listing order and result of the store's query: the rule that is
applied from the snapshot agrees with the one the store's query puts first, exactly
unless a rule for the API alone is listed before every rule for the client alone,
there is one, and no rule is for both. -/
theorem applied_rules_agree_iff {cacheRules : List CacheRule} {ips : List IPWhitelist}
    (hperm : listing.Perm rows) (hout : RateLimitRulesFor clientID apiID rows out) :
    Agrees (rows.filter (rateRuleMatches clientID apiID))
        (appliedRule
          ((newMetadataSnapshot cacheRules listing ips).rateLimitRulesFor clientID apiID))
        (appliedRule out) ↔
      ClientFirst (listing.filter (rateRuleMatches clientID apiID)) := by
  have hmatching := hperm.filter (rateRuleMatches clientID apiID)
  rw [rateLimitRulesFor_eq, newMetadataSnapshot_rateRules]
  cases hs : appliedRule out with
  | none =>
      -- no rule matches, so neither path applies one
      have hnone : listing.filter (rateRuleMatches clientID apiID) = [] := by
        have hnil : out = [] := List.head?_eq_none_iff.mp hs
        exact (hmatching.trans (hnil ▸ hout.perm).symm).eq_nil
      rw [hnone]
      refine ⟨fun _ => .inr (.inl (by simp)), fun _ => ⟨rfl, ?_⟩⟩
      intro r hr
      cases hr
  | some s =>
      cases ht : appliedRule (sortDesc specificity
          (listing.filter (rateRuleMatches clientID apiID))) with
      | none =>
          have hnil := sortDesc_eq_nil (List.head?_eq_none_iff.mp ht)
          have hmem := hout.perm.mem_iff.mp (List.mem_of_head? hs)
          rw [← hmatching.mem_iff, hnil] at hmem
          cases hmem
      | some t =>
          have heads := heads_of_paths hperm hout hs ht
          rw [heads.agrees_iff hmatching, heads.precedence_iff]

/-- A rule for one API, and an older rule for one client. -/
def apiRule : RateLimitRule :=
  { id := 1, apiDefinitionID := some 20, requestsPerSecond := 100, createdAt := 2 }

@[inherit_doc apiRule]
def clientRule : RateLimitRule :=
  { id := 2, clientID := some 10, requestsPerSecond := 1, createdAt := 1 }

/-- Both rules match, and the store ranks the rule for the client first. -/
theorem store_ranks_client : RateLimitRulesFor 10 20 [apiRule, clientRule] [clientRule, apiRule] where
  perm := .swap _ _ _
  sorted := by
    unfold ranksBefore
    decide

/-- With the newest rule listed first the snapshot applies the rule for the API. -/
theorem api_rule_applied :
    RateLimitRulesFor 10 20 [apiRule, clientRule] [clientRule, apiRule] ∧
      appliedRule ((newMetadataSnapshot [] [apiRule, clientRule] []).rateLimitRulesFor 10 20) =
        some apiRule ∧
      appliedRule [clientRule, apiRule] = some clientRule ∧
      ¬Agrees ([apiRule, clientRule].filter (rateRuleMatches 10 20))
        (appliedRule ((newMetadataSnapshot [] [apiRule, clientRule] []).rateLimitRulesFor 10 20))
        (appliedRule [clientRule, apiRule]) := by
  refine ⟨store_ranks_client, by decide, rfl, fun h => ?_⟩
  have hsame := h.same
  revert hsame
  decide

/-- With the rule for the client listed first both paths apply it. -/
theorem client_rule_listed_first :
    Agrees ([apiRule, clientRule].filter (rateRuleMatches 10 20))
      (appliedRule ((newMetadataSnapshot [] [clientRule, apiRule] []).rateLimitRulesFor 10 20))
      (appliedRule [clientRule, apiRule]) :=
  (applied_rules_agree_iff (.swap _ _ _) store_ranks_client).mpr (.inr (.inr ⟨clientRule, by decide⟩))

end Paths

end DDAG.GatewaySvc
