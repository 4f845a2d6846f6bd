import DDAG.Circuit.Breaker
import DDAG.Lib.Trace

/-!
# Runs of calls on a breaker

`Allow` and `Report` in any order, with any results, at times that do not go
back.  `Rests` says that a breaker that has opened admits nothing and stays as
it is until its timeout has passed.  `Rations` says that a half-open period
admits at most `MaxRequests` calls.

An open breaker looks at the clock only, so the first is a fact about one call
(`call_early`) and the order of the times.  For the second, the slots in use
count the calls a period has admitted: a report would give one back, but every
report ends the period.
-/

namespace DDAG.Circuit

open Machine

inductive Call where
  | allow (now : Int)
  | report (success : Bool) (now : Int)

def Call.now : Call → Int
  | .allow now => now
  | .report _ now => now

namespace Breaker

/-- Whether the call is an `Allow` that returned true, and the breaker after it. -/
def call (b : Breaker) : Call → Bool × Breaker
  | .allow now => b.allow now
  | .report success now => (false, b.report success now)

def after (b : Breaker) (calls : List Call) : Breaker := calls.foldl (fun b c => (b.call c).2) b

def admissions : Breaker → List Call → Nat
  | _, [] => 0
  | b, c :: calls => (b.call c).1.toNat + (b.call c).2.admissions calls

/-- The calls as steps.  None is ever impossible. -/
def callStep (b : Breaker) (c : Call) : Option Breaker := some (b.call c).2

theorem after_cons (b : Breaker) (c : Call) (calls : List Call) :
    b.after (c :: calls) = (b.call c).2.after calls := rfl

/-! ## Limits -/

theorem takeProbe_limits (b : Breaker) : b.takeProbe.2.limits = b.limits := by
  unfold takeProbe
  split
  next => rfl
  next => rfl

theorem allow_limits (b : Breaker) (now : Int) : (b.allow now).2.limits = b.limits := by
  rw [← rotateWindow_limits b now]
  unfold allow
  generalize b.rotateWindow now = r
  cases hs : r.state with
  | closed => simp only [hs]
  | halfOpen =>
      simp only [hs]
      exact takeProbe_limits r
  | opened =>
      simp only [hs]
      split
      next => exact takeProbe_limits _
      next => rfl

theorem counted_limits (b : Breaker) (success : Bool) : (b.counted success).limits = b.limits := by
  cases success with
  | true => rfl
  | false => rfl

theorem report_limits (b : Breaker) (success : Bool) (now : Int) :
    (b.report success now).limits = b.limits := by
  rw [← rotateWindow_limits b now]
  cases hs : b.state with
  | opened => simp only [report, rotateWindow_state, hs]
  | halfOpen =>
      simp only [report, rotateWindow_state, hs]
      cases success with
      | true => rfl
      | false => rfl
  | closed =>
      rw [report_closed_eq hs]
      split
      next => exact counted_limits _ success
      next => exact counted_limits _ success

@[simp] theorem call_limits (b : Breaker) (c : Call) : (b.call c).2.limits = b.limits := by
  cases c with
  | allow now => exact allow_limits b now
  | report success now => exact report_limits b success now

@[simp] theorem after_limits (b : Breaker) (calls : List Call) : (b.after calls).limits = b.limits := by
  induction calls generalizing b with
  | nil => rfl
  | cons c calls ih => rw [after_cons, ih, call_limits]

/-! ## An open breaker before its timeout -/

/-- A breaker that has been open for less than its timeout admits nothing, and a call
changes neither its state nor when it opened. -/
theorem call_early {b : Breaker} (hs : b.state = .opened) {c : Call}
    (hearly : c.now < b.openedAt + b.limits.timeout) :
    (b.call c).1 = false ∧ (b.call c).2.state = .opened ∧ (b.call c).2.openedAt = b.openedAt := by
  cases c with
  | allow now =>
      have hnot : ¬(b.limits.timeout : Int) ≤ now - b.openedAt := by
        simp only [Call.now] at hearly
        omega
      simp only [call, allow, rotateWindow_state, hs, rotateWindow_limits, rotateWindow_openedAt]
      rw [if_neg hnot]
      simp [hs]
  | report success now => simp [call, report, hs]

theorem after_early {b : Breaker} (hs : b.state = .opened) {calls : List Call}
    (hearly : ∀ c ∈ calls, c.now < b.openedAt + b.limits.timeout) :
    (b.after calls).state = .opened ∧ (b.after calls).openedAt = b.openedAt := by
  induction calls generalizing b with
  | nil => exact ⟨hs, rfl⟩
  | cons c calls ih =>
      obtain ⟨_, hstate, hopened⟩ := call_early hs (hearly c List.mem_cons_self)
      rw [after_cons, ← hopened]
      refine ih hstate fun d hd => ?_
      rw [hopened, call_limits]
      exact hearly d (List.mem_cons_of_mem c hd)

theorem openedAt_of_opens {b : Breaker} {c : Call} (hs : b.state ≠ .opened)
    (hopened : (b.call c).2.state = .opened) : (b.call c).2.openedAt = c.now := by
  cases c with
  | allow now =>
      -- an `Allow` never opens a breaker
      cases hb : b.state with
      | closed =>
          have hclosed := (allow_closed hb now).2
          cases hclosed.symm.trans hopened
      | opened => exact absurd hb hs
      | halfOpen =>
          have hhalf := allow_of_halfOpen hb now
          cases hhalf.symm.trans hopened
  | report success now =>
      simp only [call] at hopened ⊢
      cases hb : b.state with
      | opened => exact absurd hb hs
      | halfOpen =>
          simp only [report, rotateWindow_state, hb] at hopened ⊢
          cases success with
          | true => cases hopened
          | false => rfl
      | closed =>
          rw [report_closed hb] at hopened
          split at hopened
          next htrip =>
            rw [report_closed_eq hb, if_pos htrip]
            rfl
          next _ => cases hopened

/-! ## A half-open period -/

/-- `Allow` takes a slot of a half-open period for each call it admits, and never more than
there are. -/
theorem call_halfOpen {b : Breaker} {c : Call} (hs : b.state = .halfOpen)
    (hafter : (b.call c).2.state = .halfOpen) (hle : b.halfOpenInUse ≤ b.limits.maxRequests) :
    (b.call c).2.halfOpenInUse = b.halfOpenInUse + (b.call c).1.toNat ∧
      (b.call c).2.halfOpenInUse ≤ b.limits.maxRequests := by
  cases c with
  | report success now => exact absurd hafter (report_not_halfOpen b success now)
  | allow now =>
      simp only [call, allow, rotateWindow_state, hs, takeProbe, rotateWindow_limits,
        rotateWindow_halfOpenInUse]
      split
      next _ =>
        rw [rotateWindow_halfOpenInUse]
        exact ⟨rfl, hle⟩
      next hfree =>
        refine ⟨rfl, ?_⟩
        show b.halfOpenInUse + 1 ≤ b.limits.maxRequests
        omega

/-- While a period lasts, the slots in use and the calls it goes on to admit are at most
`MaxRequests`. -/
theorem admissions_halfOpen {b : Breaker} {calls : List Call}
    (hlasts : Along callStep (fun b => b.state = .halfOpen) b calls)
    (hle : b.halfOpenInUse ≤ b.limits.maxRequests) :
    b.halfOpenInUse + b.admissions calls ≤ b.limits.maxRequests := by
  induction calls generalizing b with
  | nil => exact hle
  | cons c calls ih =>
      have hrest := hlasts.2 (b.call c).2 rfl
      obtain ⟨huse, hle'⟩ := call_halfOpen hlasts.1 hrest.head hle
      have hle'' := ih hrest (by rwa [call_limits])
      rw [call_limits, huse] at hle''
      rw [admissions]
      omega

theorem call_enters {b : Breaker} {c : Call} (hs : b.state ≠ .halfOpen)
    (hafter : (b.call c).2.state = .halfOpen) :
    (b.call c).2.halfOpenInUse = (b.call c).1.toNat := by
  cases c with
  | report success now => exact absurd hafter (report_not_halfOpen b success now)
  | allow now =>
      rcases allow_halfOpen (Prod.mk.eta).symm hafter with ⟨hold, _⟩ | ⟨_, huse⟩
      · exact absurd hold hs
      · exact huse

/-! ## Runs -/

/-- After a call that opens the breaker, every call before its timeout has passed is refused
and leaves the state and the opening time alone. -/
def Rests (b : Breaker) (calls : List Call) : Prop :=
  ∀ before opening between c rest, calls = before ++ opening :: (between ++ c :: rest) →
    let b₀ := b.after before
    b₀.state ≠ .opened → (b₀.call opening).2.state = .opened →
      c.now < opening.now + b.limits.timeout →
        let b₁ := (b₀.call opening).2.after between
        (b₁.call c).1 = false ∧ b₁.state = .opened ∧ (b₁.call c).2.state = .opened ∧
          b₁.openedAt = opening.now ∧ (b₁.call c).2.openedAt = opening.now

/-- From the call a half-open period begins with, and while it lasts, at most `MaxRequests`
calls are admitted. -/
def Rations (b : Breaker) (calls : List Call) : Prop :=
  ∀ before entering period rest, calls = before ++ entering :: (period ++ rest) →
    let b₀ := b.after before
    b₀.state ≠ .halfOpen →
      Along callStep (fun b => b.state = .halfOpen) (b₀.call entering).2 period →
        b₀.admissions (entering :: period) ≤ b.limits.maxRequests

theorem rests_of_pairwise {b : Breaker} {calls : List Call}
    (htimes : calls.Pairwise fun c d => c.now ≤ d.now) : Rests b calls := by
  rintro before opening between c rest rfl b₀ hs hopened hearly b₁
  have hlimits : (b₀.call opening).2.limits = b.limits :=
    (call_limits b₀ opening).trans (after_limits b before)
  have hat : (b₀.call opening).2.openedAt = opening.now := openedAt_of_opens hs hopened
  -- the calls in between are no later than `c`
  have hbetween : ∀ d ∈ between, d.now ≤ c.now := by
    intro d hd
    have htail := (List.pairwise_cons.mp (List.pairwise_append.mp htimes).2.1).2
    exact (List.pairwise_append.mp htail).2.2 d hd c List.mem_cons_self
  have hrest : b₁.state = .opened ∧ b₁.openedAt = (b₀.call opening).2.openedAt := by
    refine after_early hopened fun d hd => ?_
    rw [hat, hlimits]
    have hle := hbetween d hd
    omega
  have hat' : b₁.openedAt = opening.now := hrest.2.trans hat
  obtain ⟨hrefused, hstate, hopenedAt⟩ := call_early (c := c) hrest.1 (by
    rw [hat', after_limits, hlimits]
    exact hearly)
  exact ⟨hrefused, hrest.1, hstate, hat', hopenedAt.trans hat'⟩

theorem rations (b : Breaker) (calls : List Call) : Rations b calls := by
  rintro before entering period rest rfl b₀ hs hlasts
  have hlimits : b₀.limits = b.limits := after_limits b before
  have huse := call_enters hs hlasts.head
  have hone : (b₀.call entering).1.toNat ≤ 1 := Bool.toNat_le _
  have hpos := b.limits.maxRequests_pos
  have hle := admissions_halfOpen hlasts (by
    rw [huse, call_limits, hlimits]
    omega)
  rw [call_limits, hlimits, huse] at hle
  exact hle

end Breaker

/-- Along every run of calls on a new breaker whose times do not go back, an opened breaker
rests for its timeout and a half-open period admits at most `MaxRequests` calls. -/
theorem calls_rest_and_ration (settings : Settings) (calls : List Call)
    (htimes : calls.Pairwise fun c d => c.now ≤ d.now) :
    (new settings).Rests calls ∧ (new settings).Rations calls :=
  ⟨Breaker.rests_of_pairwise htimes, Breaker.rations (new settings) calls⟩

/-- A breaker that opens at the first failure, for ten nanoseconds, and admits one probe. -/
def brief : Settings where
  maxRequests := 1
  interval := 60
  timeout := 10
  failureThreshold := 1
  failureRatio := 0

/-- A call five nanoseconds after a failure is refused, and of two calls after the timeout at
most one is admitted. -/
theorem brief_rests_and_rations :
    let b := (new brief).after [.report false 0]
    (b.call (.allow 5)).1 = false ∧ (b.after [.allow 5]).admissions [.allow 10, .allow 11] ≤ 1 := by
  obtain ⟨hrests, hrations⟩ := calls_rest_and_ration brief
    [.report false 0, .allow 5, .allow 10, .allow 11] (by simp [Call.now])
  have hlasts : Along Breaker.callStep (fun b => b.state = .halfOpen)
      (((new brief).after [.report false 0, .allow 5]).call (.allow 10)).2 [.allow 11] := by
    refine ⟨rfl, fun b' hb' => ?_⟩
    cases hb'
    rfl
  have hopens : ((new brief).call (.report false 0)).2.state = .opened := rfl
  constructor
  · exact (hrests [] (.report false 0) [] (.allow 5) _ rfl (by decide) hopens (by decide)).1
  · exact hrations [.report false 0, .allow 5] (.allow 10) [.allow 11] [] rfl (by decide) hlasts

end DDAG.Circuit
