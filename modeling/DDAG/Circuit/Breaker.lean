import DDAG.Lib.Float64

/-!
# The circuit breaker

`internal/circuit/breaker.go`.  Times and durations are integers, in
nanoseconds, and zero is the zero time.  `now.Sub` saturates at the bounds of a duration, which no
comparison with a positive duration can see.  Counters are natural numbers.
-/

namespace DDAG.Circuit

inductive State where
  | closed
  | opened
  | halfOpen
deriving DecidableEq, Repr

/-- The settings as they are given. -/
structure Settings where
  maxRequests : Int
  interval : Int
  timeout : Int
  failureThreshold : Int
  failureRatio : ℚ

/-- The settings a breaker runs with. -/
structure Limits where
  maxRequests : Nat
  interval : Nat
  timeout : Nat
  failureThreshold : Nat
  failureRatio : ℚ
  maxRequests_pos : 0 < maxRequests
  interval_pos : 0 < interval
  timeout_pos : 0 < timeout
  failureThreshold_pos : 0 < failureThreshold

/-- A positive setting, or its default. -/
def orDefault (n : Int) (default : Nat) : Nat := if n ≤ 0 then default else n.toNat

theorem orDefault_pos {n : Int} {default : Nat} (h : 0 < default) : 0 < orDefault n default := by
  unfold orDefault
  split
  next _ => exact h
  next hn => omega

def second : Nat := 1000000000

structure Breaker where
  limits : Limits
  state : State
  openedAt : Int
  /-- `none` is the zero time. -/
  intervalStart : Option Int
  requests : Nat
  failures : Nat
  halfOpenInUse : Nat

/-- `New`, with the defaults of the settings. -/
def Settings.limits (settings : Settings) : Limits where
  maxRequests := orDefault settings.maxRequests 1
  timeout := orDefault settings.timeout (30 * second)
  interval := orDefault settings.interval (60 * second)
  failureThreshold := orDefault settings.failureThreshold 5
  failureRatio := settings.failureRatio
  maxRequests_pos := orDefault_pos (by decide)
  timeout_pos := orDefault_pos (by decide)
  interval_pos := orDefault_pos (by decide)
  failureThreshold_pos := orDefault_pos (by decide)

def new (settings : Settings) : Breaker where
  limits := settings.limits
  state := .closed
  openedAt := 0
  intervalStart := none
  requests := 0
  failures := 0
  halfOpenInUse := 0

/-- The start of a window at a time, which may be the zero time. -/
def startAt (now : Int) : Option Int := if now = 0 then none else some now

namespace Breaker

def rotateWindow (b : Breaker) (now : Int) : Breaker :=
  match b.intervalStart with
  | none => { b with intervalStart := startAt now }
  | some start =>
      if (b.limits.interval : Int) ≤ now - start then
        { b with intervalStart := startAt now, requests := 0, failures := 0 }
      else b

def shouldOpen (b : Breaker) : Bool :=
  if b.limits.failureThreshold ≤ b.failures then true
  else if 0 < b.limits.failureRatio ∧ 0 < b.requests then
    b.limits.failureRatio ≤
      Float64.round64 (Float64.round64 b.failures / Float64.round64 b.requests)
  else false

theorem shouldOpen_iff (b : Breaker) :
    b.shouldOpen = true ↔ b.limits.failureThreshold ≤ b.failures ∨
      (0 < b.limits.failureRatio ∧ 0 < b.requests ∧ b.limits.failureRatio ≤
        Float64.round64 (Float64.round64 b.failures / Float64.round64 b.requests)) := by
  unfold shouldOpen
  split
  next hthreshold => simp [hthreshold]
  next hthreshold =>
    split
    next hratio => simp [hthreshold, hratio]
    next hratio => simp only [Bool.false_eq_true, hthreshold, false_or, false_iff]; tauto

/-- The method `open`. -/
def trip (b : Breaker) (now : Int) : Breaker :=
  { b with state := .opened, openedAt := now, halfOpenInUse := 0 }

/-- The method `close`. -/
def close (b : Breaker) (now : Int) : Breaker :=
  { b with state := .closed, intervalStart := startAt now, requests := 0, failures := 0
           halfOpenInUse := 0 }

def takeProbe (b : Breaker) : Bool × Breaker :=
  if b.limits.maxRequests ≤ b.halfOpenInUse then (false, b)
  else (true, { b with halfOpenInUse := b.halfOpenInUse + 1 })

def allow (b : Breaker) (now : Int) : Bool × Breaker :=
  let b := b.rotateWindow now
  match b.state with
  | .closed => (true, { b with requests := b.requests + 1 })
  | .opened =>
      if (b.limits.timeout : Int) ≤ now - b.openedAt then
        { b with state := .halfOpen, halfOpenInUse := 0 }.takeProbe
      else (false, b)
  | .halfOpen => b.takeProbe

def report (b : Breaker) (success : Bool) (now : Int) : Breaker :=
  let b := b.rotateWindow now
  match b.state with
  | .halfOpen =>
      let b := { b with halfOpenInUse := b.halfOpenInUse - 1 }
      if success then b.close now else b.trip now
  | .closed =>
      let b := if success then b else { b with failures := b.failures + 1 }
      if b.shouldOpen then b.trip now else b
  | .opened => b

/-! ## What the methods do to a half-open breaker -/

theorem rotateWindow_eq (b : Breaker) (now : Int) :
    ∃ start requests failures, b.rotateWindow now =
      { b with intervalStart := start, requests := requests, failures := failures } := by
  unfold rotateWindow
  split
  next => exact ⟨_, _, _, rfl⟩
  next =>
    split
    next => exact ⟨_, _, _, rfl⟩
    next => exact ⟨_, _, _, rfl⟩

@[simp] theorem rotateWindow_state (b : Breaker) (now : Int) :
    (b.rotateWindow now).state = b.state := by
  obtain ⟨start, requests, failures, heq⟩ := rotateWindow_eq b now
  rw [heq]

@[simp] theorem rotateWindow_halfOpenInUse (b : Breaker) (now : Int) :
    (b.rotateWindow now).halfOpenInUse = b.halfOpenInUse := by
  obtain ⟨start, requests, failures, heq⟩ := rotateWindow_eq b now
  rw [heq]

@[simp] theorem rotateWindow_limits (b : Breaker) (now : Int) :
    (b.rotateWindow now).limits = b.limits := by
  obtain ⟨start, requests, failures, heq⟩ := rotateWindow_eq b now
  rw [heq]

@[simp] theorem rotateWindow_openedAt (b : Breaker) (now : Int) :
    (b.rotateWindow now).openedAt = b.openedAt := by
  obtain ⟨start, requests, failures, heq⟩ := rotateWindow_eq b now
  rw [heq]

/-- A report decides a half-open period by its outcome. -/
theorem report_halfOpen {b : Breaker} (hs : b.state = .halfOpen) (success : Bool) (now : Int) :
    (b.report success now).state = if success then .closed else .opened := by
  simp only [report, rotateWindow_state, hs]
  cases success with
  | true => rfl
  | false => rfl

/-- The breaker with a failure counted. -/
def counted (b : Breaker) (success : Bool) : Breaker :=
  if success then b else { b with failures := b.failures + 1 }

theorem counted_state (b : Breaker) (success : Bool) : (b.counted success).state = b.state := by
  cases success with
  | true => rfl
  | false => rfl

/-- A report to a closed breaker counts a failure, and opens it if that reaches a limit. -/
theorem report_closed_eq {b : Breaker} (hs : b.state = .closed) (success : Bool) (now : Int) :
    b.report success now =
      if ((b.rotateWindow now).counted success).shouldOpen then
        ((b.rotateWindow now).counted success).trip now
      else (b.rotateWindow now).counted success := by
  have hw : (b.rotateWindow now).state = .closed := (rotateWindow_state b now).trans hs
  unfold report
  generalize b.rotateWindow now = w at hw ⊢
  dsimp only
  split
  next hhalf => cases hhalf.symm.trans hw
  next _ => rfl
  next hopened => cases hopened.symm.trans hw

theorem report_closed {b : Breaker} (hs : b.state = .closed) (success : Bool) (now : Int) :
    (b.report success now).state =
      if ((b.rotateWindow now).counted success).shouldOpen then .opened else .closed := by
  rw [report_closed_eq hs]
  split
  next _ => rfl
  next _ => rw [counted_state, rotateWindow_state, hs]

theorem allow_closed {b : Breaker} (hs : b.state = .closed) (now : Int) :
    (b.allow now).1 = true ∧ (b.allow now).2.state = .closed := by
  simp [allow, rotateWindow_state, hs]

theorem report_not_halfOpen (b : Breaker) (success : Bool) (now : Int) :
    (b.report success now).state ≠ .halfOpen := by
  unfold report
  generalize b.rotateWindow now = r
  cases hs : r.state with
  | halfOpen => cases success <;> simp [hs, close, trip]
  | opened => simp [hs]
  | closed =>
      cases success with
      | true =>
          simp only [hs, ↓reduceIte]
          split
          next _ => simp [trip]
          next _ => simp [hs]
      | false =>
          simp only [hs, Bool.false_eq_true, ↓reduceIte]
          split
          next _ => simp [trip]
          next _ => simp

theorem takeProbe_spec {b b' : Breaker} {ok : Bool} (h : b.takeProbe = (ok, b')) :
    b'.state = b.state ∧ b'.halfOpenInUse = b.halfOpenInUse + ok.toNat := by
  unfold takeProbe at h
  split at h
  next _ =>
    cases h
    exact ⟨rfl, rfl⟩
  next _ =>
    cases h
    exact ⟨rfl, rfl⟩

/-- A breaker that is half-open after `Allow` was so before, or started a new
period; the slots in use are the old ones of the period and the one just taken. -/
theorem allow_halfOpen {b b' : Breaker} {now : Int} {ok : Bool} (h : b.allow now = (ok, b'))
    (hb' : b'.state = .halfOpen) :
    (b.state = .halfOpen ∧ b'.halfOpenInUse = b.halfOpenInUse + ok.toNat) ∨
      (b.state = .opened ∧ b'.halfOpenInUse = ok.toNat) := by
  rw [← rotateWindow_state b now, ← rotateWindow_halfOpenInUse b now]
  unfold allow at h
  revert h
  generalize b.rotateWindow now = r
  intro h
  cases hs : r.state with
  | closed =>
      simp only [hs] at h
      cases h
      simp at hb'
  | opened =>
      simp only [hs] at h
      split at h
      next _ => exact .inr ⟨rfl, by simpa using (takeProbe_spec h).2⟩
      next _ =>
        cases h
        rw [hs] at hb'
        cases hb'
  | halfOpen =>
      simp only [hs] at h
      exact .inl ⟨rfl, (takeProbe_spec h).2⟩

theorem allow_of_halfOpen {b : Breaker} (hs : b.state = .halfOpen) (now : Int) :
    (b.allow now).2.state = .halfOpen := by
  simp only [allow, rotateWindow_state, hs]
  exact (takeProbe_spec rfl).1.trans ((rotateWindow_state b now).trans hs)

/-- An open breaker becomes half-open once it has been open for its timeout. -/
theorem timeout_of_allow {b : Breaker} (hs : b.state = .opened) {now : Int}
    (hhalf : (b.allow now).2.state = .halfOpen) : (b.limits.timeout : Int) ≤ now - b.openedAt := by
  by_contra hearly
  simp only [allow, rotateWindow_state, hs, rotateWindow_limits, rotateWindow_openedAt] at hhalf
  rw [if_neg hearly, rotateWindow_state, hs] at hhalf
  cases hhalf

theorem allow_of_unused {b : Breaker} (now : Int) (hs : b.state = .halfOpen)
    (hu : b.halfOpenInUse = 0) : (b.allow now).1 = true := by
  have hpos := b.limits.maxRequests_pos
  simp only [allow, rotateWindow_state, hs, takeProbe, rotateWindow_limits,
    rotateWindow_halfOpenInUse, hu]
  rw [if_neg (by omega)]

end Breaker

end DDAG.Circuit
