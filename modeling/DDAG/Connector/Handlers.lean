import DDAG.Circuit.Breaker
import DDAG.Lib.Pool
import DDAG.Lib.Trace

/-!
# Query handlers and their breaker

`handleQuery` and `grpcServer.Query` of `internal/connector`, on one connection.
A request is a thread that goes from one call to the next: resolving the
connection, `Allow`, admission, the pool, the parameters of a gRPC request, the
query, `Report`.  Any number of requests take these steps in any interleaving,
and each step that asks for the time may get any time.

The state carries one ghost: the number of half-open periods begun.  A request
that `Allow` admits in a half-open breaker is a *probe* of the current period.

`probes_accounted_iff` says that `halfOpenInUse` is the number of unfinished
probes of the period, in every state of a run, exactly when no step of the run
is a `Leak`: a probe that leaves without a report.
-/

namespace DDAG.Connector

open Machine
open Circuit (Breaker)

/-! ## Requests -/

inductive Transport where
  | http
  | grpc
deriving DecidableEq

/-- How far a handler has got. -/
inductive Phase where
  | arrived
  | allowed
  | admitted
  | acquired
  | reported
  | finished
deriving DecidableEq

/-- A request: its transport, its phase, and the half-open period it is a probe
of. -/
structure Request where
  transport : Transport
  phase : Phase := .arrived
  probe : Option Nat := none
deriving DecidableEq

/-- The breaker of the connection and the number of half-open periods begun. -/
structure Line where
  breaker : Breaker
  period : Nat

def Line.report (c : Line) (success : Bool) (now : Int) : Line :=
  { c with breaker := c.breaker.report success now }

/-- `Allow`, which may begin a half-open period. -/
def Line.allow (c : Line) (now : Int) : Bool × Line :=
  let r := c.breaker.allow now
  (r.1,
    { breaker := r.2
      period := if c.breaker.state ≠ .halfOpen ∧ r.2.state = .halfOpen then c.period + 1
        else c.period })

/-- What a handler does next, and how it turns out. -/
inductive Action where
  /-- The connection does not resolve. -/
  | resolveFailed (now : Int)
  | allow (now : Int)
  | admissionRejected
  | admissionGranted
  | acquireFailed (now : Int)
  | acquire
  /-- The JSON of the parameters of a gRPC request does not decode. -/
  | malformedParameters
  | queryFailed (now : Int)
  | querySucceeded (now : Int)
  | finish
deriving DecidableEq

/-- The request after its breaker let it pass or not. -/
def Request.afterAllow (r : Request) (ok : Bool) (c : Line) : Request :=
  if ok then
    { r with phase := .allowed
             probe := if c.breaker.state = .halfOpen then some c.period else none }
  else { r with phase := .finished }

/-- The phase a handler must be in for an action. -/
def Action.phase : Action → Phase
  | .resolveFailed _ | .allow _ => .arrived
  | .admissionRejected | .admissionGranted => .allowed
  | .acquireFailed _ | .acquire => .admitted
  | .malformedParameters | .queryFailed _ | .querySucceeded _ => .acquired
  | .finish => .reported

/-- One action of a handler.  The two early returns of `admissionRejected` and
`malformedParameters` report nothing. -/
def act (c : Line) (r : Request) (a : Action) : Option (Line × Request) :=
  if r.phase ≠ a.phase then none
  else
    match a with
    | .resolveFailed now => some (c.report false now, { r with phase := .reported })
    | .allow now =>
        let p := c.allow now
        some (p.2, r.afterAllow p.1 p.2)
    | .admissionRejected => some (c, { r with phase := .finished })
    | .admissionGranted => some (c, { r with phase := .admitted })
    | .acquireFailed now => some (c.report false now, { r with phase := .reported })
    | .acquire => some (c, { r with phase := .acquired })
    | .malformedParameters =>
        if r.transport = .grpc then some (c, { r with phase := .finished }) else none
    | .queryFailed now => some (c.report false now, { r with phase := .reported })
    | .querySucceeded now => some (c.report true now, { r with phase := .reported })
    | .finish => some (c, { r with phase := .finished })

abbrev Connection := Pool Line Request

def isNew (r : Request) : Bool := r.phase = .arrived ∧ r.probe = none

def step (p : Connection) (e : PoolEvent Request Action) : Option Connection :=
  poolStep isNew act p e

def initial (settings : Circuit.Settings) : Connection :=
  { shared := { breaker := Circuit.new settings, period := 0 }, threads := [] }

/-! ## Probes in flight -/

/-- One for an unfinished probe of the period `n`. -/
def inPeriod (n : Nat) (r : Request) : Nat :=
  if r.probe = some n ∧ r.phase ≠ .finished then 1 else 0

def probesInFlight (p : Connection) : Nat := total (inPeriod p.shared.period) p.threads

/-- A half-open breaker counts the probes of its period in flight, and admits
when there is none. -/
def Accounted (p : Connection) : Prop :=
  p.shared.breaker.state = .halfOpen →
    p.shared.breaker.halfOpenInUse = probesInFlight p ∧
      (probesInFlight p = 0 → ∀ now, (p.shared.breaker.allow now).1 = true)

/-- A probe of the current half-open period returns without a report: its
admission was rejected, or its gRPC parameters do not decode. -/
def Leak (p : Connection) (e : PoolEvent Request Action) : Prop :=
  ∃ i r a, e = .act i a ∧ (a = .admissionRejected ∨ a = .malformedParameters) ∧
    p.threads[i]? = some r ∧ p.shared.breaker.state = .halfOpen ∧
    r.probe = some p.shared.period

/-! ## What an action does -/

/-- A handler asks its breaker, reports, goes on, or returns.  It returns after
its report, or early. -/
theorem act_cases {c c' : Line} {r r' : Request} {a : Action} (h : act c r a = some (c', r')) :
    (∃ now, r.phase = .arrived ∧ c' = (c.allow now).2 ∧ r' = r.afterAllow (c.allow now).1 c') ∨
      (∃ ok now, c' = c.report ok now ∧ r' = { r with phase := .reported }) ∨
      (∃ ph, c' = c ∧ r.phase ≠ .finished ∧ r' = { r with phase := ph } ∧ ph ≠ .arrived ∧
        ph ≠ .finished ∧ ph ≠ .reported) ∨
      (c' = c ∧ r.phase ≠ .finished ∧ r' = { r with phase := .finished } ∧
        (a = .admissionRejected ∨ a = .malformedParameters ∨ r.phase = .reported)) := by
  unfold act at h
  split at h
  next _ => cases h
  next hphase =>
    rw [not_not] at hphase
    cases a with
    | allow now =>
        cases h
        exact .inl ⟨now, hphase, rfl, rfl⟩
    | resolveFailed now =>
        cases h
        exact .inr (.inl ⟨false, now, rfl, rfl⟩)
    | acquireFailed now =>
        cases h
        exact .inr (.inl ⟨false, now, rfl, rfl⟩)
    | queryFailed now =>
        cases h
        exact .inr (.inl ⟨false, now, rfl, rfl⟩)
    | querySucceeded now =>
        cases h
        exact .inr (.inl ⟨true, now, rfl, rfl⟩)
    | admissionGranted =>
        cases h
        exact .inr (.inr (.inl ⟨.admitted, rfl, by rw [hphase]; decide, rfl, by decide⟩))
    | acquire =>
        cases h
        exact .inr (.inr (.inl ⟨.acquired, rfl, by rw [hphase]; decide, rfl, by decide⟩))
    | admissionRejected =>
        cases h
        exact .inr (.inr (.inr ⟨rfl, by rw [hphase]; decide, rfl, .inl rfl⟩))
    | malformedParameters =>
        simp only at h
        split at h
        next _ =>
          cases h
          exact .inr (.inr (.inr ⟨rfl, by rw [hphase]; decide, rfl, .inr (.inl rfl)⟩))
        next _ => cases h
    | finish =>
        cases h
        exact .inr (.inr (.inr ⟨rfl, by rw [hphase]; decide, rfl, .inr (.inr hphase)⟩))

/-! ## The count of probes is kept -/

structure Inv (p : Connection) : Prop where
  /-- Probes belong to periods that have begun. -/
  begun : ∀ r ∈ p.threads, ∀ n, r.probe = some n → n ≤ p.shared.period
  /-- A request that has not asked the breaker is no probe. -/
  arrived : ∀ r ∈ p.threads, r.phase = .arrived → r.probe = none
  /-- A probe that has reported ended its period. -/
  unreported : p.shared.breaker.state = .halfOpen → ∀ r ∈ p.threads,
    r.probe = some p.shared.period → r.phase ≠ .reported
  counted : p.shared.breaker.state = .halfOpen →
    p.shared.breaker.halfOpenInUse = probesInFlight p

theorem inv_initial (settings : Circuit.Settings) : Inv (initial settings) where
  begun := by simp [initial]
  arrived := by simp [initial]
  unreported := by simp [initial]
  counted := by simp [initial, Circuit.new]

theorem inPeriod_of_probe_ne {n : Nat} {r : Request} (h : r.probe ≠ some n) : inPeriod n r = 0 :=
  if_neg fun hr => h hr.1

/-- No request is a probe of a period that has not begun. -/
theorem Inv.total_next {p : Connection} (h : Inv p) :
    total (inPeriod (p.shared.period + 1)) p.threads = 0 := by
  refine total_eq_zero fun r hr => inPeriod_of_probe_ne fun hprobe => ?_
  have hle := h.begun r hr _ hprobe
  omega

theorem inPeriod_phase {r : Request} {ph : Phase} (n : Nat) (h : r.phase ≠ .finished)
    (hph : ph ≠ .finished) : inPeriod n { r with phase := ph } = inPeriod n r := by
  simp [inPeriod, h, hph]

theorem inv_join {p : Connection} {r : Request} (h : Inv p) (hnew : isNew r = true) :
    Inv { p with threads := p.threads ++ [r] } := by
  obtain ⟨harr, hprobe⟩ : r.phase = .arrived ∧ r.probe = none := by simpa [isNew] using hnew
  refine ⟨forall_mem_join h.begun ?_, forall_mem_join h.arrived fun _ => hprobe, ?_, ?_⟩
  · intro n hn
    rw [hprobe] at hn
    cases hn
  · intro hs
    refine forall_mem_join (h.unreported hs) ?_
    intro _
    rw [harr]
    decide
  · intro hs
    rw [probesInFlight, total_append_singleton, inPeriod_of_probe_ne (by rw [hprobe]; nofun)]
    exact h.counted hs

section Act

variable {p : Connection} {i : Nat} {r : Request}

/-- A report ends the half-open period, if there is one. -/
theorem inv_report (h : Inv p) (hr : p.threads[i]? = some r) (ok : Bool) (now : Int) :
    Inv { shared := p.shared.report ok now
          threads := p.threads.set i { r with phase := .reported } } := by
  have hmem := List.mem_of_getElem? hr
  have hnot : (p.shared.report ok now).breaker.state ≠ .halfOpen :=
    p.shared.breaker.report_not_halfOpen ok now
  refine ⟨?_, ?_, fun hs => absurd hs hnot, fun hs => absurd hs hnot⟩
  · exact forall_mem_set h.begun (h.begun r hmem)
  · exact forall_mem_set h.arrived nofun

/-- Going on, or returning without being an unreported probe of the period,
leaves the count alone. -/
theorem inv_move (h : Inv p) (hr : p.threads[i]? = some r) {ph : Phase} (harr : ph ≠ .arrived)
    (hrep : ph ≠ .reported)
    (hsame : p.shared.breaker.state = .halfOpen →
      inPeriod p.shared.period { r with phase := ph } = inPeriod p.shared.period r) :
    Inv { p with threads := p.threads.set i { r with phase := ph } } := by
  have hmem := List.mem_of_getElem? hr
  refine ⟨?_, ?_, fun hs => ?_, fun hs => ?_⟩
  · exact forall_mem_set h.begun (h.begun r hmem)
  · exact forall_mem_set h.arrived fun ha => absurd ha harr
  · exact forall_mem_set (h.unreported hs) fun _ => hrep
  · have htotal := total_set (inPeriod p.shared.period) { r with phase := ph } hr
    rw [hsame hs] at htotal
    rw [probesInFlight]
    have hcount := h.counted hs
    rw [probesInFlight] at hcount
    simp only
    omega

theorem inPeriod_afterAllow {c : Line} (ok : Bool) (hs : c.breaker.state = .halfOpen) :
    inPeriod c.period (r.afterAllow ok c) = ok.toNat := by
  cases ok with
  | true => simp [Request.afterAllow, inPeriod, hs]
  | false => simp [Request.afterAllow, inPeriod]

theorem afterAllow_probe {c : Line} {ok : Bool} {n : Nat} (hprobe : r.probe = none)
    (h : (r.afterAllow ok c).probe = some n) : n = c.period := by
  unfold Request.afterAllow at h
  split at h
  next _ =>
    simp only [Option.ite_none_right_eq_some, Option.some.injEq] at h
    exact h.2.symm
  next _ =>
    rw [hprobe] at h
    cases h

theorem afterAllow_phase (c : Line) (ok : Bool) :
    (r.afterAllow ok c).phase ≠ .arrived ∧ (r.afterAllow ok c).phase ≠ .reported := by
  cases ok <;> simp [Request.afterAllow]

/-- The period after `Allow`: the old one if the breaker was half-open before, a
new one if it is half-open only now. -/
theorem Line.allow_period (c : Line) (now : Int) :
    c.period ≤ (c.allow now).2.period ∧
      ((c.allow now).2.breaker.state = .halfOpen →
        (c.breaker.state = .halfOpen ∧ (c.allow now).2.period = c.period ∧
          (c.allow now).2.breaker.halfOpenInUse =
            c.breaker.halfOpenInUse + (c.allow now).1.toNat) ∨
        ((c.allow now).2.period = c.period + 1 ∧
          (c.allow now).2.breaker.halfOpenInUse = (c.allow now).1.toNat)) := by
  obtain ⟨ok, b', hb⟩ : ∃ ok b', c.breaker.allow now = (ok, b') := ⟨_, _, rfl⟩
  simp only [Line.allow, hb]
  refine ⟨by split <;> omega, fun hs => ?_⟩
  rcases Breaker.allow_halfOpen hb hs with ⟨hold, huse⟩ | ⟨hold, huse⟩
  · exact .inl ⟨hold, by simp [hold], huse⟩
  · exact .inr ⟨by simp [hold, hs], huse⟩

theorem inv_allow (h : Inv p) (hr : p.threads[i]? = some r) (harr : r.phase = .arrived) (now : Int) :
    Inv { shared := (p.shared.allow now).2
          threads := p.threads.set i
            (r.afterAllow (p.shared.allow now).1 (p.shared.allow now).2) } := by
  have hmem := List.mem_of_getElem? hr
  have hprobe := h.arrived r hmem harr
  obtain ⟨hle, hcases⟩ := p.shared.allow_period now
  obtain ⟨ok, c, hc⟩ : ∃ ok c, p.shared.allow now = (ok, c) := ⟨_, _, rfl⟩
  rw [hc] at hle hcases ⊢
  dsimp only at hle hcases ⊢
  have hold : ∀ r' ∈ p.threads, ∀ n, r'.probe = some n → n ≤ c.period :=
    fun r' hr' n hn => (h.begun r' hr' n hn).trans hle
  refine ⟨?_, ?_, fun hs => ?_, fun hs => ?_⟩
  · exact forall_mem_set hold fun n hn => (afterAllow_probe hprobe hn).le
  · exact forall_mem_set h.arrived fun ha => absurd ha (afterAllow_phase c ok).1
  · refine forall_mem_set (fun r' hr' hp' => ?_) fun _ => (afterAllow_phase c ok).2
    rcases hcases hs with ⟨hso, hper, -⟩ | ⟨hper, -⟩
    · exact h.unreported hso r' hr' (by rw [hp', hper])
    · have hbegun : c.period ≤ p.shared.period := h.begun r' hr' _ hp'
      omega
  · have htotal := total_set (inPeriod c.period) (r.afterAllow ok c) hr
    rw [inPeriod_afterAllow ok hs, inPeriod_of_probe_ne (by rw [hprobe]; nofun)] at htotal
    rw [probesInFlight]
    rcases hcases hs with ⟨hso, hper, huse⟩ | ⟨hper, huse⟩
    · have hcount := h.counted hso
      rw [probesInFlight, ← hper] at hcount
      dsimp only
      omega
    · have hnone := h.total_next
      rw [← hper] at hnone
      dsimp only
      omega

end Act

theorem inv_step {p p' : Connection} {e : PoolEvent Request Action} (h : Inv p) (hleak : ¬ Leak p e)
    (hs : step p e = some p') : Inv p' := by
  rcases poolStep_cases hs with ⟨r, rfl, hnew, rfl⟩ | ⟨i, a, r, c', r', rfl, hr, hact, rfl⟩
  · exact inv_join h hnew
  · rcases act_cases hact with ⟨now, harr, rfl, rfl⟩ | ⟨ok, now, rfl, rfl⟩ |
      ⟨ph, rfl, hlive, rfl, hne, hfin, hrep⟩ | ⟨rfl, hlive, rfl, hwhy⟩
    · exact inv_allow h hr harr now
    · exact inv_report h hr ok now
    · exact inv_move h hr hne hrep fun _ => inPeriod_phase _ hlive hfin
    · refine inv_move h hr (by decide) (by decide) fun hopen => ?_
      -- the request that returns is no probe of the period
      have hprobe : r.probe ≠ some p.shared.period := by
        intro hp
        rcases hwhy with rfl | rfl | hrep
        · exact hleak ⟨i, r, _, rfl, .inl rfl, hr, hopen, hp⟩
        · exact hleak ⟨i, r, _, rfl, .inr rfl, hr, hopen, hp⟩
        · exact h.unreported hopen r (List.mem_of_getElem? hr) hp hrep
      rw [inPeriod_of_probe_ne hprobe, inPeriod_of_probe_ne]
      exact hprobe

/-! ## Probes are accounted for exactly without leaks -/

theorem Inv.accounted {p : Connection} (h : Inv p) : Accounted p := by
  intro hs
  refine ⟨h.counted hs, fun hnone now => ?_⟩
  exact Breaker.allow_of_unused now hs ((h.counted hs).trans hnone)

/-- A leak leaves a state in which the count is wrong. -/
theorem not_leak_of_accounted {p p' : Connection} {e : PoolEvent Request Action} (hp : Accounted p)
    (hs : step p e = some p') (hp' : Accounted p') : ¬ Leak p e := by
  rintro ⟨i, r, a, rfl, ha, hr, hopen, hprobe⟩
  rcases poolStep_cases hs with ⟨_, he, _⟩ | ⟨i', a', r', c', r'', he, hr', hact, rfl⟩
  · cases he
  · cases he
    rw [hr] at hr'
    cases hr'
    obtain ⟨rfl, hlive, rfl⟩ : c' = p.shared ∧ r.phase ≠ .finished ∧
        r'' = { r with phase := .finished } := by
      unfold act at hact
      split at hact
      next _ => cases hact
      next hphase =>
        rw [not_not] at hphase
        rcases ha with rfl | rfl
        · cases hact
          exact ⟨rfl, by rw [hphase]; decide, rfl⟩
        · simp only at hact
          split at hact
          next _ =>
            cases hact
            exact ⟨rfl, by rw [hphase]; decide, rfl⟩
          next _ => cases hact
    have hbefore := (hp hopen).1
    have hafter := (hp' hopen).1
    have htotal := total_set (inPeriod p.shared.period) { r with phase := .finished } hr
    have hone : inPeriod p.shared.period r = 1 := if_pos ⟨hprobe, hlive⟩
    have hzero : inPeriod p.shared.period { r with phase := .finished } = 0 := by simp [inPeriod]
    simp only [probesInFlight] at hbefore hafter
    omega

/-- In a run, `halfOpenInUse` is the number of unfinished probes of the current
half-open period in every state, exactly when no probe of a half-open period
returns without a report while the period lasts. -/
theorem probes_accounted_iff (settings : Circuit.Settings) (es : List (PoolEvent Request Action)) :
    Along step Accounted (initial settings) es ↔
      Each step (fun p e => ¬ Leak p e) (initial settings) es := by
  constructor
  · exact Each.of_along not_leak_of_accounted
  · intro h
    exact (Along.of_each inv_step (inv_initial settings) h).mono fun _ => Inv.accounted

/-- One failed query opens the breaker; the probe after the timeout is rejected
at admission.  The breaker stays half-open with its only slot in use and no
probe in flight, and admits nothing any more. -/
theorem rejected_probe_leaks :
    let settings : Circuit.Settings :=
      { maxRequests := 1, interval := 0, timeout := 0, failureThreshold := 1, failureRatio := 0 }
    let request : Request := { transport := .http }
    let es : List (PoolEvent Request Action) :=
      [.join request, .act 0 (.allow 0), .act 0 .admissionGranted, .act 0 .acquire, .act 0 (.queryFailed 0),
        .act 0 .finish, .join request, .act 1 (.allow 30000000000), .act 1 .admissionRejected]
    (runs step (initial settings) es).map (fun p =>
        (p.shared.breaker.state, p.shared.breaker.halfOpenInUse, probesInFlight p,
          (p.shared.breaker.allow 90000000000).1)) =
      some (.halfOpen, 1, 0, false) := by
  decide +kernel

end DDAG.Connector
