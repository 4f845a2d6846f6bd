import DDAG.Connector.Handlers

/-!
# Who decides a half-open period

Requests on one breaker that ask `Allow` and, if admitted, report once.  `Report` is not
told who reports: any report ends a half-open period, and its outcome decides whether the
breaker closes or opens again.

`Decided` says that a period ends only by the report of one of its own requests.  It holds
along a run in which no admitted request is unreported when a period begins
(`decided_by_own`).  A slow request from before the breaker opened decides the period
otherwise (`late_report_decides`).
-/

namespace DDAG.Connector.Periods

open Machine
open Circuit (Breaker)

/-! ## Requests -/

/-- A request.  An admitted one has the half-open period it was admitted in, if any. -/
inductive Asker where
  | arrived
  | admitted (period : Option Nat)
  | refused
  | reported
deriving DecidableEq

inductive Ask where
  | allow (now : Int)
  | report (success : Bool) (now : Int)

def askAct (c : Line) : Asker → Ask → Option (Line × Asker)
  | .arrived, .allow now =>
      let p := c.allow now
      let period := if p.2.breaker.state = .halfOpen then some p.2.period else none
      some (p.2, if p.1 then .admitted period else .refused)
  | .admitted _, .report success now => some (c.report success now, .reported)
  | _, _ => none

abbrev Askers := Pool Line Asker

def askStep (p : Askers) (e : PoolEvent Asker Ask) : Option Askers :=
  poolStep (fun t => t = .arrived) askAct p e

def quiet (settings : Circuit.Settings) : Askers :=
  { shared := { breaker := Circuit.new settings, period := 0 }, threads := [] }

def Asker.pending : Asker → Bool
  | .admitted _ => true
  | _ => false

/-- What an action does. -/
inductive Asks (c : Line) : Asker → Ask → Line → Asker → Prop where
  | asked (now : Int) {t : Asker} (hpending : t.pending = true →
      t = .admitted (if (c.allow now).2.breaker.state = .halfOpen then some (c.allow now).2.period
        else none)) : Asks c .arrived (.allow now) (c.allow now).2 t
  | reported (period : Option Nat) (success : Bool) (now : Int) :
      Asks c (.admitted period) (.report success now) (c.report success now) .reported

theorem askAct_cases {c c' : Line} {t t' : Asker} {a : Ask} (h : askAct c t a = some (c', t')) :
    Asks c t a c' t' := by
  cases t with
  | arrived =>
      cases a with
      | allow now =>
          cases h
          refine .asked now fun hpending => ?_
          cases hok : (c.allow now).1 with
          | true => rfl
          | false =>
              rw [hok] at hpending
              cases hpending
      | report success now => cases h
  | admitted period =>
      cases a with
      | allow now => cases h
      | report success now =>
          cases h
          exact .reported period success now
  | refused => cases h
  | reported => cases h

/-! ## Periods -/

/-- A half-open breaker closes only by the success of a request admitted in the period,
and opens again only by the failure of one. -/
def Decided (p : Askers) (e : PoolEvent Asker Ask) : Prop :=
  ∀ p', askStep p e = some p' → p.shared.breaker.state = .halfOpen →
    (p'.shared.breaker.state = .closed → ∃ i now, e = .act i (.report true now) ∧
      p.threads[i]? = some (.admitted (some p.shared.period))) ∧
    (p'.shared.breaker.state = .opened → ∃ i now, e = .act i (.report false now) ∧
      p.threads[i]? = some (.admitted (some p.shared.period)))

/-- When an `Allow` finds a breaker that has been open for its timeout, so that a half-open
period begins, every admitted request has reported. -/
def Settled (p : Askers) : PoolEvent Asker Ask → Prop
  | .act _ (.allow now) =>
      p.shared.breaker.state = .opened →
        (p.shared.breaker.limits.timeout : Int) ≤ now - p.shared.breaker.openedAt →
          ∀ t ∈ p.threads, t.pending = false
  | _ => True

instance (p : Askers) (e : PoolEvent Asker Ask) : Decidable (Settled p e) :=
  match e with
  | .join _ => .isTrue trivial
  | .act _ (.report _ _) => .isTrue trivial
  | .act _ (.allow _) => inferInstanceAs (Decidable (_ → _ → ∀ t ∈ p.threads, t.pending = false))

/-- While a period lasts, the requests that have yet to report are its own. -/
def Owned (p : Askers) : Prop :=
  p.shared.breaker.state = .halfOpen →
    ∀ t ∈ p.threads, t.pending = true → t = .admitted (some p.shared.period)

theorem owned_quiet (settings : Circuit.Settings) : Owned (quiet settings) := by
  intro hs
  cases hs

/-- An `Allow` that leaves the breaker half-open found it so, with the same period, or open
for its timeout. -/
theorem allow_begins {c : Line} {now : Int} (hs : (c.allow now).2.breaker.state = .halfOpen) :
    (c.breaker.state = .halfOpen ∧ (c.allow now).2.period = c.period) ∨
      (c.breaker.state = .opened ∧ (c.breaker.limits.timeout : Int) ≤ now - c.breaker.openedAt) := by
  rcases Breaker.allow_halfOpen (Prod.mk.eta).symm hs with ⟨hold, _⟩ | ⟨hold, _⟩
  · refine .inl ⟨hold, ?_⟩
    show (if c.breaker.state ≠ .halfOpen ∧ _ then c.period + 1 else c.period) = c.period
    rw [if_neg fun h => h.1 hold]
  · exact .inr ⟨hold, Breaker.timeout_of_allow hold hs⟩

theorem owned_step {p p' : Askers} {e : PoolEvent Asker Ask} (h : Owned p) (hsettled : Settled p e)
    (hs : askStep p e = some p') : Owned p' := by
  rcases poolStep_cases hs with ⟨t, rfl, hnew, rfl⟩ | ⟨i, a, t, c', t', rfl, ht, hact, rfl⟩
  · intro hhalf
    refine forall_mem_join (h hhalf) ?_
    intro hpending
    rw [of_decide_eq_true hnew] at hpending
    cases hpending
  · cases askAct_cases hact with
    | reported period success now =>
        intro hhalf
        exact absurd hhalf (Breaker.report_not_halfOpen _ success now)
    | asked now hadmitted =>
        intro hhalf
        refine forall_mem_set ?_ ?_
        · intro u hu hpending
          rcases allow_begins hhalf with ⟨hold, hperiod⟩ | ⟨hold, htimeout⟩
          · rw [h hold u hu hpending, hperiod]
          · rw [hsettled hold htimeout u hu] at hpending
            cases hpending
        · intro hpending
          rw [hadmitted hpending, if_pos hhalf]

/-- A step from a state whose pending requests are those of the period is decided by one of
them. -/
theorem decided_of_owned {p : Askers} {e : PoolEvent Asker Ask} (h : Owned p) : Decided p e := by
  intro p' hs hhalf
  rcases poolStep_cases hs with ⟨t, rfl, hnew, rfl⟩ | ⟨i, a, t, c', t', rfl, ht, hact, rfl⟩
  · rw [hhalf]
    exact ⟨nofun, nofun⟩
  · cases askAct_cases hact with
    | asked now _ =>
        have hstays : (p.shared.allow now).2.breaker.state = .halfOpen :=
          Breaker.allow_of_halfOpen hhalf now
        rw [hstays]
        exact ⟨nofun, nofun⟩
    | reported period success now =>
        have hafter : (p.shared.report success now).breaker.state =
            if success then .closed else .opened := Breaker.report_halfOpen hhalf success now
        have hown := h hhalf _ (List.mem_of_getElem? ht) rfl
        rw [hown] at ht
        rw [hafter]
        cases success with
        | true => exact ⟨fun _ => ⟨i, now, rfl, ht⟩, nofun⟩
        | false => exact ⟨nofun, fun _ => ⟨i, now, rfl, ht⟩⟩

/-- In a run in which every admitted request has reported whenever a half-open period
begins, every period is decided by a report of one of its own requests. -/
theorem decided_by_own (settings : Circuit.Settings) (es : List (PoolEvent Asker Ask))
    (hsettled : Each askStep Settled (quiet settings) es) :
    Each askStep Decided (quiet settings) es :=
  Each.of_invariant (fun howned hstep hs => ⟨owned_step howned hstep hs, decided_of_owned howned⟩)
    (owned_quiet settings) hsettled

def brittle : Circuit.Settings :=
  { maxRequests := 1, interval := 0, timeout := 0, failureThreshold := 1, failureRatio := 0 }

/-- Request 0 is admitted while the breaker is closed and is slow.  Request 1 fails, and
request 2 is the probe after the timeout. -/
def slowRequest : List (PoolEvent Asker Ask) :=
  [.join .arrived, .act 0 (.allow 0), .join .arrived, .act 1 (.allow 0), .act 1 (.report false 0),
    .join .arrived, .act 2 (.allow 30000000000)]

/-- The report of the slow request decides the half-open period: the breaker closes by its
success and opens by its failure, before the probe has reported. -/
theorem late_report_decides :
    (runs askStep (quiet brittle) slowRequest).map
        (fun p => (p.shared.breaker.state, p.shared.period, p.threads)) =
      some (.halfOpen, 1, [.admitted none, .reported, .admitted (some 1)]) ∧
    (runs askStep (quiet brittle) (slowRequest ++ [.act 0 (.report true 31000000000)])).map
        (fun p => p.shared.breaker.state) = some .closed ∧
    (runs askStep (quiet brittle) (slowRequest ++ [.act 0 (.report false 31000000000)])).map
        (fun p => p.shared.breaker.state) = some .opened := by
  decide +kernel

/-- The slow request reports before the probe asks. -/
def settledRequests : List (PoolEvent Asker Ask) :=
  [.join .arrived, .act 0 (.allow 0), .join .arrived, .act 1 (.allow 0), .act 1 (.report false 0),
    .act 0 (.report true 1), .join .arrived, .act 2 (.allow 30000000000),
    .act 2 (.report true 31000000000)]

theorem decided_by_own_probe :
    Each askStep Decided (quiet brittle) settledRequests ∧
    (runs askStep (quiet brittle) settledRequests).map (fun p => p.shared.breaker.state) =
      some .closed :=
  ⟨decided_by_own brittle settledRequests (by decide +kernel), by decide +kernel⟩

end DDAG.Connector.Periods
