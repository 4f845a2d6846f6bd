import DDAG.Policy.RateLimiter
import Mathlib.Data.List.Nodup

/-!
# The decisions on a rule

A rule is applied by calling the limiter with its windows, and no rule allows.  What the
limiter decides depends on the positive limits of the rule and on the counters.
`limiter_agrees_iff` says that two rules are decided alike, whatever the counters are and
whether Redis answers or not, exactly if they have the same positive limits.
-/

namespace DDAG.Policy

open Models

def ruleWindows (r : RateLimitRule) : List Window :=
  windowsFromRule r.requestsPerSecond r.requestsPerMinute r.requestsPerHour r.requestsPerDay

/-- What the limiter says to the rule that is applied, if there is one. -/
def limiter (base : Text) (rule : Option RateLimitRule) (db : Db) (c : AllowCall) : Option Decision :=
  match rule with
  | none => some { allowed := true }
  | some r => (allow base (ruleWindows r) db c).2

/-- The positive limits of a rule, with the suffixes of their windows. -/
def limitsOf (rule : Option RateLimitRule) : List (Text × Int) :=
  match rule with
  | none => []
  | some r => (active (ruleWindows r)).map fun w => (w.suffix, w.limit)

/-- The key of the window with a suffix. -/
def windowKey (base suffix : Text) : Text := "ddag:rl:".toList ++ base ++ ":".toList ++ suffix

/-- One more call exceeds the limit. -/
def Over (base : Text) (now : Int) (db : Db) (x : Text × Int) : Prop :=
  x.2 < (Redis.incr now (db (windowKey base x.1))).value

/-! ## What a decision depends on -/

section Limits

variable {rule : Option RateLimitRule} {x y : Text × Int}

theorem suffixes_nodup (r : RateLimitRule) : ((ruleWindows r).map Window.suffix).Nodup := by
  simp [ruleWindows, windowsFromRule]

theorem limitsOf_pos (h : x ∈ limitsOf rule) : 0 < x.2 := by
  cases rule with
  | none => cases h
  | some r =>
      obtain ⟨w, hw, rfl⟩ := List.mem_map.mp h
      simpa [active] using (List.mem_filter.mp hw).2

/-- A suffix has one limit. -/
theorem limitsOf_unique (hx : x ∈ limitsOf rule) (hy : y ∈ limitsOf rule) (h : x.1 = y.1) : x = y := by
  cases rule with
  | none => cases hx
  | some r =>
      obtain ⟨w, hw, rfl⟩ := List.mem_map.mp hx
      obtain ⟨u, hu, rfl⟩ := List.mem_map.mp hy
      have hwindow : w = u :=
        List.inj_on_of_nodup_map (suffixes_nodup r) (List.mem_of_mem_filter hw)
          (List.mem_of_mem_filter hu) h
      rw [hwindow]

end Limits

section Decision

variable {base : Text} {rule : Option RateLimitRule} {db : Db} {c : AllowCall}

theorem limiter_eq_none_iff :
    limiter base rule db c = none ↔ limitsOf rule ≠ [] ∧ c.delivery ≠ .answered := by
  cases rule with
  | none => simp [limiter, limitsOf]
  | some r =>
      simp only [limiter, limitsOf, allow, ne_eq, List.map_eq_nil_iff]
      split
      next hnone => simp [hnone]
      next hsome =>
        cases c.delivery with
        | answered => simp
        | lost => simpa using hsome
        | refused => simpa using hsome

/-- A request is denied exactly if one more call exceeds one of the limits. -/
theorem limiter_denied_iff {d : Decision} (h : limiter base rule db c = some d) :
    d.allowed = false ↔ ∃ x ∈ limitsOf rule, Over base c.now db x := by
  cases rule with
  | none =>
      cases h
      simp [limitsOf]
  | some r =>
      rw [(allow_decides base db (suffixes_nodup r) c).denied_iff d h]
      constructor
      · rintro ⟨w, hw, hexceeds⟩
        exact ⟨(w.suffix, w.limit), List.mem_map_of_mem hw, hexceeds⟩
      · rintro ⟨x, hx, hover⟩
        obtain ⟨w, hw, rfl⟩ := List.mem_map.mp hx
        exact ⟨w, hw, hover⟩

theorem limiter_of_no_counters {d : Decision} (h : limiter base rule (fun _ => none) c = some d) :
    d.allowed = true := by
  by_contra hdenied
  rw [Bool.not_eq_true, limiter_denied_iff h] at hdenied
  obtain ⟨x, hx, hover⟩ := hdenied
  have hpos := limitsOf_pos hx
  have hover' : x.2 < 1 := hover
  omega

end Decision

/-! ## Rules that are decided alike -/

section Alike

variable {base : Text} {r s : Option RateLimitRule}

def reached (base : Text) (x : Text × Int) : Db :=
  Function.update (fun _ => none) (windowKey base x.1) (some { value := x.2 })

theorem windowKey_inj {u v : Text} (h : windowKey base u = windowKey base v) : u = v :=
  List.append_cancel_left h

theorem over_reached (x : Text × Int) : Over base 0 (reached base x) x := by
  rw [Over, reached, Function.update_self]
  exact Int.lt_succ x.2

/-- Only a limit of the same window is exceeded, and it is no larger. -/
theorem of_over_reached {x y : Text × Int} (hy : 0 < y.2) (h : Over base 0 (reached base x) y) :
    y.1 = x.1 ∧ y.2 ≤ x.2 := by
  rw [Over, reached] at h
  by_cases hkey : windowKey base y.1 = windowKey base x.1
  · rw [hkey, Function.update_self] at h
    have hlt : y.2 < x.2 + 1 := h
    exact ⟨windowKey_inj hkey, by omega⟩
  · rw [Function.update_of_ne hkey] at h
    have hlt : y.2 < 1 := h
    omega

/-- If the limits of one rule are exceeded only where those of another are, its limits are
limits of the other. -/
theorem limitsOf_subset
    (hover : ∀ db, (∃ x ∈ limitsOf r, Over base 0 db x) ↔ ∃ x ∈ limitsOf s, Over base 0 db x) :
    ∀ x ∈ limitsOf r, x ∈ limitsOf s := by
  intro x hx
  -- the counter of the window stands at the limit of the one rule, then at that of the other
  obtain ⟨y, hy, hyover⟩ := (hover (reached base x)).mp ⟨x, hx, over_reached x⟩
  obtain ⟨hyx, hle⟩ := of_over_reached (limitsOf_pos hy) hyover
  obtain ⟨z, hz, hzover⟩ := (hover (reached base y)).mpr ⟨y, hy, over_reached y⟩
  obtain ⟨hzy, hle'⟩ := of_over_reached (limitsOf_pos hz) hzover
  have hzx := limitsOf_unique hz hx (hzy.trans hyx)
  subst hzx
  have heq : z = y := Prod.ext hzy (by omega)
  rw [heq]
  exact hy

/-- The two rules have the same positive limits. -/
def SameLimits (r s : Option RateLimitRule) : Prop := ∀ x, x ∈ limitsOf r ↔ x ∈ limitsOf s

section SameLimits

variable {db : Db} {c : AllowCall} (h : SameLimits r s)

include h

theorem SameLimits.nil_iff : limitsOf r = [] ↔ limitsOf s = [] := by
  simp only [List.eq_nil_iff_forall_not_mem, h _]

theorem SameLimits.none_iff : limiter base r db c = none ↔ limiter base s db c = none := by
  rw [limiter_eq_none_iff, limiter_eq_none_iff, ne_eq, ne_eq, h.nil_iff]

theorem SameLimits.allowed_eq {d e : Decision} (hd : limiter base r db c = some d)
    (he : limiter base s db c = some e) : d.allowed = e.allowed := by
  have hdenied : d.allowed = false ↔ e.allowed = false := by
    rw [limiter_denied_iff hd, limiter_denied_iff he]
    simp only [h _]
  rwa [Bool.eq_iff_iff, ← not_iff_not, Bool.not_eq_true, Bool.not_eq_true]

end SameLimits

/-- The decision lets a request through, with the answer for a Redis that fails. -/
def letsThrough (onError : Bool) : Option Decision → Bool
  | none => onError
  | some d => d.allowed

theorem limiter_answered (base : Text) (rule : Option RateLimitRule) (db : Db) :
    ∃ d, limiter base rule db { now := 0 } = some d := by
  cases h : limiter base rule db { now := 0 } with
  | some d => exact ⟨d, rfl⟩
  | none => exact absurd rfl (limiter_eq_none_iff.mp h).2

section Agreement

variable {strict : Bool}

/-- The calls that Redis answers tell the limits apart. -/
theorem sameLimits_of_agrees
    (h : ∀ db c, letsThrough true (limiter base r db c) = letsThrough strict (limiter base s db c)) :
    SameLimits r s := by
  have hover : ∀ db, (∃ x ∈ limitsOf r, Over base 0 db x) ↔ ∃ x ∈ limitsOf s, Over base 0 db x := by
    intro db
    obtain ⟨d, hd⟩ := limiter_answered base r db
    obtain ⟨e, he⟩ := limiter_answered base s db
    have hsame : d.allowed = e.allowed := by
      have hcall := h db { now := 0 }
      rwa [hd, he] at hcall
    rw [← limiter_denied_iff hd, ← limiter_denied_iff he, hsame]
  exact fun x => ⟨limitsOf_subset hover x, limitsOf_subset (fun db => (hover db).symm) x⟩

/-- A call that Redis refuses tells the answers apart. -/
theorem limits_nil_of_agrees
    (h : ∀ db c, letsThrough true (limiter base r db c) = letsThrough false (limiter base s db c)) :
    limitsOf s = [] := by
  by_contra hlimits
  have hcall := h (fun _ => none) { now := 0, delivery := .refused }
  rw [limiter_eq_none_iff.mpr ⟨hlimits, by decide⟩, letsThrough] at hcall
  cases hd : limiter base r (fun _ => none) { now := 0, delivery := .refused } with
  | none =>
      rw [hd] at hcall
      cases hcall
  | some d =>
      rw [hd, letsThrough, limiter_of_no_counters hd] at hcall
      cases hcall

/-- Two services that differ in the answer for a Redis that fails: they let the same requests
through, whatever the counters are and whether Redis answers, exactly if their rules have the
same positive limits, and either the answers are the same or there is no positive limit. -/
theorem limiter_agrees_iff (strict : Bool) :
    (∀ db c, letsThrough true (limiter base r db c) = letsThrough strict (limiter base s db c)) ↔
      SameLimits r s ∧ (strict = false → limitsOf s = []) := by
  constructor
  · intro h
    refine ⟨sameLimits_of_agrees h, fun hstrict => ?_⟩
    subst hstrict
    exact limits_nil_of_agrees h
  · rintro ⟨hsame, hstrict⟩ db c
    cases hd : limiter base r db c with
    | none =>
        rw [hsame.none_iff.mp hd]
        cases strict with
        | true => rfl
        | false => exact absurd (hsame.nil_iff.mpr (hstrict rfl)) (limiter_eq_none_iff.mp hd).1
    | some d =>
        cases he : limiter base s db c with
        | none =>
            rw [hsame.none_iff.mpr he] at hd
            cases hd
        | some e => exact hsame.allowed_eq hd he

end Agreement

end Alike

end DDAG.Policy
