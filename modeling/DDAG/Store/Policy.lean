import DDAG.Lib.Rows
import DDAG.Models

/-!
# The policy tables

The queries of `internal/store/policy.go` on the tables of rate-limit rules, cache
rules and IP whitelists.  The lists come in pages, newest first; the queries for
one client and API are not paged.  A result of a query is any order of its rows
that its `ORDER BY` allows.
-/

namespace DDAG.Store

open Models Rows

/-! ## Tables -/

/-- The tables, with the keys the schema declares unique. -/
structure Tables where
  rateRules : List RateLimitRule
  cacheRules : List CacheRule
  whitelists : List IPWhitelist
  rateRules_nodup : (rateRules.map RateLimitRule.id).Nodup
  cacheRules_nodup : (cacheRules.map CacheRule.apiDefinitionID).Nodup
  whitelists_nodup : (whitelists.map IPWhitelist.id).Nodup

/-! ## Pages -/

structure ListParams where
  page : Int
  limit : Int

def ListParams.normalize (p : ListParams) : ListParams :=
  { page := if p.page < 1 then 1 else p.page
    limit :=
      let limit := if p.limit < 1 then 25 else p.limit
      if 200 < limit then 200 else limit }

def ListParams.offset (p : ListParams) : Int := (p.page - 1) * p.limit

/-- The rows of a page, `LIMIT` and `OFFSET` of an ordered list. -/
def pageOf {α : Type*} (p : ListParams) (ordered : List α) : List α :=
  let p := p.normalize
  (ordered.drop p.offset.toNat).take p.limit.toNat

/-- An order in which the pages of a table list its rows: the newest first. -/
def Listing {α : Type*} (createdAt : α → Int) (rows ordered : List α) : Prop :=
  Selected (fun _ => true) (fun a b => createdAt b ≤ createdAt a) rows ordered

theorem Listing.perm_rows {α : Type*} {createdAt : α → Int} {rows ordered : List α}
    (h : Listing createdAt rows ordered) : ordered.Perm rows := by
  have hperm := h.perm
  rwa [List.filter_true] at hperm

/-- The page the functions `ListCacheRules`, `ListRateLimitRules` and
`ListIPWhitelists` ask for. -/
def firstPage {α : Type*} (ordered : List α) : List α := pageOf { page := 1, limit := 200 } ordered

theorem firstPage_eq {α : Type*} (ordered : List α) : firstPage ordered = ordered.take 200 := rfl

section FirstPage

variable {α : Type*} {createdAt : α → Int} {rows ordered : List α}

/-- The first page has every row of a kind exactly if none is listed behind it. -/
theorem firstPage_covers_iff (h : Listing createdAt rows ordered) (hnodup : rows.Nodup)
    {P : α → Prop} :
    (∀ x ∈ rows, P x → x ∈ firstPage ordered) ↔ ∀ x ∈ ordered.drop 200, ¬P x := by
  rw [firstPage_eq, ← take_covers_iff (h.perm_rows.nodup_iff.mpr hnodup)]
  simp only [h.perm_rows.mem_iff]

theorem firstPage_all_iff (h : Listing createdAt rows ordered) (hnodup : rows.Nodup) :
    (∀ x ∈ rows, x ∈ firstPage ordered) ↔ rows.length ≤ 200 := by
  have hcovers := firstPage_covers_iff h hnodup (P := fun _ => True)
  simp only [true_implies, not_true_eq_false] at hcovers
  rw [hcovers, ← List.eq_nil_iff_forall_not_mem, List.drop_eq_nil_iff, h.perm_rows.length_eq]

end FirstPage

/-! ## Queries for one client and API -/

/-- A condition on an id: the row names this one, or none. -/
def unsetOr (id : Option Id) (x : Id) : Bool := id = some x || id = none

def rateRuleMatches (clientID apiID : Id) (r : RateLimitRule) : Bool :=
  unsetOr r.clientID clientID && unsetOr r.apiDefinitionID apiID

/-- `ORDER BY (client_id IS NOT NULL) DESC, (api_definition_id IS NOT NULL) DESC`:
the first rule may stand before the second. -/
def ranksBefore (r s : RateLimitRule) : Prop :=
  (s.clientID.isSome = true → r.clientID.isSome = true) ∧
    (r.clientID.isSome = s.clientID.isSome →
      s.apiDefinitionID.isSome = true → r.apiDefinitionID.isSome = true)

instance : Std.Total ranksBefore where
  total r s := by
    unfold ranksBefore
    cases r.clientID.isSome <;> cases s.clientID.isSome <;> cases r.apiDefinitionID.isSome <;>
      simp

instance : IsTrans RateLimitRule ranksBefore where
  trans r s t := by
    unfold ranksBefore
    cases r.clientID.isSome <;> cases s.clientID.isSome <;> cases t.clientID.isSome <;> simp
    all_goals exact fun hrs hst => hrs ∘ hst

/-- A result of `RateLimitRulesFor`. -/
def RateLimitRulesFor (clientID apiID : Id) (rows out : List RateLimitRule) : Prop :=
  Selected (rateRuleMatches clientID apiID) ranksBefore rows out

def whitelistApplies (clientID apiID : Id) (w : IPWhitelist) : Bool :=
  w.active && (w.scopeLevel = .global || w.clientID = some clientID ||
    w.apiDefinitionID = some apiID)

/-- A rule matches its own client and API, and any where it names none. -/
theorem exists_rateRuleMatches (r : RateLimitRule) :
    ∃ clientID apiID, rateRuleMatches clientID apiID r = true := by
  refine ⟨r.clientID.getD 0, r.apiDefinitionID.getD 0, ?_⟩
  unfold rateRuleMatches unsetOr
  cases r.clientID <;> cases r.apiDefinitionID <;> simp

/-- A result of `IPWhitelistsFor`, which has no order. -/
def IPWhitelistsFor (clientID apiID : Id) (rows out : List IPWhitelist) : Prop :=
  Selected (whitelistApplies clientID apiID) (fun _ _ => True) rows out

/-- An entry that `IPWhitelistsFor` selects for some client and API. -/
def Applicable (w : IPWhitelist) : Prop :=
  w.active = true ∧
    (w.scopeLevel = .global ∨ w.clientID.isSome = true ∨ w.apiDefinitionID.isSome = true)

theorem applicable_iff {w : IPWhitelist} :
    Applicable w ↔ ∃ clientID apiID, whitelistApplies clientID apiID w = true := by
  unfold Applicable whitelistApplies
  simp only [Bool.and_eq_true, Bool.or_eq_true, decide_eq_true_eq, or_assoc, Option.isSome_iff_exists]
  constructor
  · rintro ⟨hactive, hglobal | ⟨c, hclient⟩ | ⟨a, hapi⟩⟩
    · exact ⟨0, 0, hactive, .inl hglobal⟩
    · exact ⟨c, 0, hactive, .inr (.inl hclient)⟩
    · exact ⟨0, a, hactive, .inr (.inr hapi)⟩
  · rintro ⟨c, a, hactive, hglobal | hclient | hapi⟩
    · exact ⟨hactive, .inl hglobal⟩
    · exact ⟨hactive, .inr (.inl ⟨c, hclient⟩)⟩
    · exact ⟨hactive, .inr (.inr ⟨a, hapi⟩)⟩

def getCacheRule (rows : List CacheRule) (apiID : Id) : Option CacheRule :=
  rows.find? (·.apiDefinitionID = apiID)

end DDAG.Store
