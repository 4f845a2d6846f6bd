import DDAG.Circuit.Breaker
import DDAG.Connectors.Bind
import DDAG.Lib.Pool
import DDAG.Lib.Trace

/-!
# Rejected parameters and the breaker

Requests on one connection whose pool and database never fail.  `Query` of a connection
first runs `Bind`, and an error of it is reported to the breaker as a failure, though
nothing was sent to the database.  So the failures a breaker counts here are requests that
lack a parameter.

`stays_closed_iff` says when such requests open the breaker: exactly when, at a report,
the rejected requests of its window reach the threshold, or their share the ratio.
-/

namespace DDAG.Connector.Rejections

open Machine Connectors
open Circuit (Breaker)

variable {α : Type*}

/-! ## Requests -/

inductive QueryPhase where
  | arrived
  | allowed
  | refused
  | reported
deriving DecidableEq

/-- A request: the template of its API and the values it brings. -/
structure BindRequest (α : Type*) where
  template : Text
  params : Table α
  phase : QueryPhase := .arrived

/-- What the connection makes of the request. -/
def BindRequest.binding (d : Dialect) (r : BindRequest α) : Option (Binding α) :=
  Connectors.bind r.template r.params (placeholderForDialect d)

inductive QueryAction where
  | allow (now : Int)
  /-- `Query`, and the report of its outcome. -/
  | query (now : Int)

/-- A handler on a connection that is admitted, has a connection of the pool and an answer
of the database whenever it asks. -/
def queryAct (d : Dialect) (b : Breaker) (r : BindRequest α) :
    QueryAction → Option (Breaker × BindRequest α)
  | .allow now =>
      if r.phase = .arrived then
        let p := b.allow now
        some (p.2, { r with phase := if p.1 then .allowed else .refused })
      else none
  | .query now =>
      if r.phase = .allowed then
        match r.binding d with
        | none => none
        | some out => some (b.report out.isOk now, { r with phase := .reported })
      else none

abbrev Queries (α : Type*) := Pool Breaker (BindRequest α)

def queryStep (d : Dialect) (p : Queries α) (e : PoolEvent (BindRequest α) QueryAction) :
    Option (Queries α) :=
  poolStep (fun r => r.phase = .arrived) (queryAct d) p e

def unused (α : Type*) (settings : Circuit.Settings) : Queries α :=
  { shared := Circuit.new settings, threads := [] }

/-! ## The breaker stays closed -/

def Steady (p : Queries α) : Prop :=
  p.shared.state = .closed ∧ ∀ now, (p.shared.allow now).1 = true

/-- With so many more rejections, the rejected requests of the window reach the threshold,
or their share of the requests of the window the ratio. -/
def ReachesLimit (w : Breaker) (rejected : Nat) : Prop :=
  w.limits.failureThreshold ≤ w.failures + rejected ∨
    (0 < w.limits.failureRatio ∧ 0 < w.requests ∧ w.limits.failureRatio ≤
      Float64.round64 (Float64.round64 (w.failures + rejected : Nat) / Float64.round64 w.requests))

/-- A request reports, and with it the window it reports in reaches a limit. -/
def Overruns (d : Dialect) (p : Queries α) (e : PoolEvent (BindRequest α) QueryAction) : Prop :=
  ∃ i now r out, e = .act i (.query now) ∧ p.threads[i]? = some r ∧ r.phase = .allowed ∧
    r.binding d = some out ∧
    ReachesLimit (p.shared.rotateWindow now) (if out.isOk then 0 else 1)

/-- What an action does to the breaker. -/
inductive Acts (d : Dialect) (b : Breaker) (r : BindRequest α) : QueryAction → Breaker → Prop where
  | asked (now : Int) : Acts d b r (.allow now) (b.allow now).2
  | reported (now : Int) (out : Binding α) (hphase : r.phase = .allowed)
      (hout : r.binding d = some out) :
      Acts d b r (.query now) (b.report out.isOk now)

theorem queryAct_cases {d : Dialect} {b b' : Breaker} {r r' : BindRequest α} {a : QueryAction}
    (h : queryAct d b r a = some (b', r')) : Acts d b r a b' := by
  cases a with
  | allow now =>
      simp only [queryAct] at h
      split at h
      next _ =>
        cases h
        exact .asked now
      next _ => cases h
  | query now =>
      simp only [queryAct] at h
      split at h
      next hphase =>
        split at h
        next _ => cases h
        next out hout =>
          cases h
          exact .reported now out hphase hout
      next _ => cases h

theorem steady_iff {p : Queries α} : Steady p ↔ p.shared.state = .closed :=
  ⟨And.left, fun hs => ⟨hs, fun now => (Breaker.allow_closed hs now).1⟩⟩

theorem shouldOpen_counted (w : Breaker) (ok : Bool) :
    (w.counted ok).shouldOpen = true ↔ ReachesLimit w (if ok then 0 else 1) := by
  rw [Breaker.shouldOpen_iff]
  cases ok with
  | true => exact Iff.rfl
  | false => exact Iff.rfl

/-- A report leaves a closed breaker closed unless the window reaches a limit. -/
theorem report_closed_iff {b : Breaker} (hs : b.state = .closed) (ok : Bool) (now : Int) :
    (b.report ok now).state = .closed ↔
      ¬ ReachesLimit (b.rotateWindow now) (if ok then 0 else 1) := by
  rw [Breaker.report_closed hs, ← shouldOpen_counted]
  split
  next hopen => simp [hopen]
  next hclosed => simp [hclosed]

theorem steady_step {d : Dialect} {p p' : Queries α} {e : PoolEvent (BindRequest α) QueryAction}
    (hp : Steady p) (hs : queryStep d p e = some p') : Steady p' ↔ ¬ Overruns d p e := by
  rw [steady_iff]
  rcases poolStep_cases hs with ⟨r, rfl, _, rfl⟩ | ⟨i, a, r, b', r', rfl, hr, hact, rfl⟩
  · refine iff_of_true hp.1 ?_
    rintro ⟨i, now, r, out, he, _⟩
    cases he
  · cases queryAct_cases hact with
    | asked now =>
        refine iff_of_true (Breaker.allow_closed hp.1 now).2 ?_
        rintro ⟨i, now, r, out, he, _⟩
        cases he
    | reported now out hphase hout =>
        refine (report_closed_iff hp.1 out.isOk now).trans (not_congr ?_)
        constructor
        · intro hlimit
          exact ⟨i, now, r, out, rfl, hr, hphase, hout, hlimit⟩
        · rintro ⟨i', now', r'', out', he, hr', _, hout', hlimit⟩
          cases he
          rw [hr] at hr'
          cases hr'
          rw [hout] at hout'
          cases hout'
          exact hlimit

/-- A breaker whose requests fail only for a missing parameter stays closed and admits
every request exactly if no report comes when the rejected requests of the window reach
the threshold, or their share the ratio. -/
theorem stays_closed_iff (d : Dialect) (settings : Circuit.Settings)
    (es : List (PoolEvent (BindRequest α) QueryAction)) :
    Along (queryStep d) Steady (unused α settings) es ↔
      Each (queryStep d) (fun p e => ¬ Overruns d p e) (unused α settings) es := by
  constructor
  · exact Each.of_along fun hp hs hp' => (steady_step hp hs).1 hp'
  · exact Along.of_each (fun hp hno hs => (steady_step hp hs).2 hno) (steady_iff.2 rfl)

/-! ## Five rejected requests -/

def withoutId : BindRequest Nat :=
  { template := "SELECT * FROM orders WHERE id = :id".toList, params := fun _ => none }

def healthCheck : BindRequest Nat := { template := "SELECT 1".toList, params := fun _ => none }

def defaults : Circuit.Settings :=
  { maxRequests := 0, interval := 0, timeout := 0, failureThreshold := 0, failureRatio := 0 }

/-- Five requests without the parameter open the breaker, and a request of another API on
the same connection is refused. -/
theorem rejections_open_the_breaker :
    (runs (queryStep .postgres) (unused Nat defaults)
      ((List.range 5).flatMap (fun i => [.join withoutId, .act i (.allow 0), .act i (.query 0)]) ++
        [.join healthCheck, .act 5 (.allow 1)])).map
        (fun p => (p.shared.state, p.threads.map (·.phase))) =
      some (.opened, [.reported, .reported, .reported, .reported, .reported, .refused]) := by
  decide +kernel

end DDAG.Connector.Rejections
