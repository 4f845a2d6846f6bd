import DDAG.Lib.Pool
import DDAG.Lib.Trace

/-!
# Admission

`internal/connector/admission.go`: the slots of each connection, and the queue for them.
A call of `Acquire` is a thread, and each section under the mutex is one step.  The
channel `notify` of a key is the number of channels that were closed before it, so a caller
that waits for one goes on when the number has grown.  Counters are integers, as in the
source, so that nothing is hidden by a counter that stops at zero.

`admission_counts` says that the counters are what they are meant to be in every state of
every run, that a caller is admitted within its own limit, and that keys do not interfere.
-/

namespace DDAG.Connector.Admission

open Machine

/-! ## The controller -/

/-- `admissionState`. -/
structure AdmissionState where
  inflight : Int := 0
  waiting : Int := 0
  /-- The number of channels closed so far. -/
  notify : Nat := 0

/-- `admissionController`.  A key without an entry in `states` has the state that the
first section on it creates. -/
structure Controller (κ : Type*) where
  queueSize : Int
  queueTimeout : Int
  states : κ → AdmissionState

def newAdmissionController (κ : Type*) (queueSize queueTimeout : Int) : Controller κ :=
  { queueSize := if queueSize < 0 then 0 else queueSize, queueTimeout := queueTimeout
    states := fun _ => {} }

/-- How far a call of `Acquire` is, and the release function it returned. -/
inductive CallerPhase where
  | arrived
  /-- In the queue, with the channel it waits for. -/
  | queued (notify : Nat)
  | holding
  | released
  | refused
deriving DecidableEq

/-- The slots a caller holds. -/
def CallerPhase.slots : CallerPhase → Nat
  | .holding => 1
  | _ => 0

/-- The places of a caller in the queue. -/
def CallerPhase.places : CallerPhase → Nat
  | .queued _ => 1
  | _ => 0

structure Caller (κ : Type*) where
  key : κ
  limit : Int
  phase : CallerPhase := .arrived

/-- The limit of a call: below 1 it counts as 1. -/
def Caller.bound {κ : Type*} (h : Caller κ) : Int := if h.limit < 1 then 1 else h.limit

def isArrived {κ : Type*} (h : Caller κ) : Bool := h.phase = .arrived

inductive CallerAction where
  /-- A round of the loop in `Acquire`. -/
  | attempt
  | cancel
  | timeout
  | release
deriving DecidableEq

section Sections

variable {κ : Type*} [DecidableEq κ]

def Controller.set (c : Controller κ) (k : κ) (s : AdmissionState) : Controller κ :=
  { c with states := Function.update c.states k s }

/-- `dequeue`. -/
def Controller.dequeue (c : Controller κ) (k : κ) : Controller κ :=
  let s := c.states k
  if 0 < s.waiting then c.set k { s with waiting := s.waiting - 1 } else c

/-- The section of a release function, which `sync.Once` runs once. -/
def Controller.release (c : Controller κ) (k : κ) : Controller κ :=
  let s := c.states k
  if s.inflight = 0 then c else c.set k { s with inflight := s.inflight - 1, notify := s.notify + 1 }

/-- A round of the loop, of a caller that is in the queue or not. -/
def Controller.attempt (c : Controller κ) (h : Caller κ) (queued : Bool) :
    Controller κ × CallerPhase :=
  let s := c.states h.key
  if s.inflight < h.bound then
    (c.set h.key
      { s with inflight := s.inflight + 1, waiting := if queued then s.waiting - 1 else s.waiting },
      .holding)
  else if queued then (c, .queued s.notify)
  else if c.queueSize = 0 ∨ c.queueSize ≤ s.waiting then (c, .refused)
  else (c.set h.key { s with waiting := s.waiting + 1 }, .queued s.notify)

def admissionAct (c : Controller κ) (h : Caller κ) (x : CallerAction) :
    Option (Controller κ × Caller κ) :=
  match h.phase, x with
  | .arrived, .attempt =>
      let r := c.attempt h false
      some (r.1, { h with phase := r.2 })
  | .queued n, .attempt =>
      -- the channel it waits for is closed
      if n < (c.states h.key).notify then
        let r := c.attempt h true
        some (r.1, { h with phase := r.2 })
      else none
  | .queued _, .cancel => some (c.dequeue h.key, { h with phase := .refused })
  | .queued _, .timeout =>
      if 0 < c.queueTimeout then some (c.dequeue h.key, { h with phase := .refused }) else none
  | .holding, .release => some (c.release h.key, { h with phase := .released })
  | .released, .release => some (c, h)
  | _, _ => none

/-- The controller with all calls of `Acquire`. -/
abbrev Admissions (κ : Type*) := Pool (Controller κ) (Caller κ)

def admissionStep (p : Admissions κ) (e : PoolEvent (Caller κ) CallerAction) : Option (Admissions κ) :=
  poolStep isArrived admissionAct p e

def fresh (κ : Type*) (queueSize queueTimeout : Int) : Admissions κ :=
  { shared := newAdmissionController κ queueSize queueTimeout, threads := [] }

/-! ## What a section does -/

@[simp]
theorem Controller.set_self (c : Controller κ) (k : κ) (s : AdmissionState) : (c.set k s).states k = s := by
  simp [Controller.set]

theorem Controller.set_of_ne (c : Controller κ) {k k' : κ} (s : AdmissionState) (hne : k' ≠ k) :
    (c.set k s).states k' = c.states k' := by
  simp [Controller.set, hne]

/-- The counters of the key follow what the caller holds, and nothing else changes. -/
structure Moves (c : Controller κ) (h : Caller κ) (c' : Controller κ) (phase : CallerPhase) : Prop where
  queueSize : c'.queueSize = c.queueSize
  others : ∀ k, k ≠ h.key → c'.states k = c.states k
  inflight : (c'.states h.key).inflight + h.phase.slots = (c.states h.key).inflight + phase.slots
  waiting : (c'.states h.key).waiting + h.phase.places = (c.states h.key).waiting + phase.places
  queue : (c'.states h.key).waiting ≤ (c.states h.key).waiting ∨
    (c'.states h.key).waiting ≤ c.queueSize
  admitted : phase = .holding → (c'.states h.key).inflight ≤ h.bound

section Moves

variable {c c' : Controller κ} {h h' : Caller κ}

omit [DecidableEq κ] in
theorem moves_refl {phase : CallerPhase} (hslots : h.phase.slots = phase.slots)
    (hplaces : h.phase.places = phase.places) (hphase : phase ≠ .holding) : Moves c h c phase where
  queueSize := rfl
  others _ _ := rfl
  inflight := by rw [hslots]
  waiting := by rw [hplaces]
  queue := .inl (Int.le_refl _)
  admitted hholding := absurd hholding hphase

theorem moves_set {phase : CallerPhase} {s : AdmissionState}
    (hinflight : s.inflight + h.phase.slots = (c.states h.key).inflight + phase.slots)
    (hwaiting : s.waiting + h.phase.places = (c.states h.key).waiting + phase.places)
    (hqueue : s.waiting ≤ (c.states h.key).waiting ∨ s.waiting ≤ c.queueSize)
    (hadmitted : phase = .holding → s.inflight ≤ h.bound) : Moves c h (c.set h.key s) phase where
  queueSize := rfl
  others _ hk := c.set_of_ne s hk
  inflight := by rwa [c.set_self]
  waiting := by rwa [c.set_self]
  queue := by rwa [c.set_self]
  admitted := by rwa [c.set_self]

theorem attempt_moves {queued : Bool} (hslots : h.phase.slots = 0)
    (hplaces : h.phase.places = queued.toNat) :
    Moves c h (c.attempt h queued).1 (c.attempt h queued).2 := by
  unfold Controller.attempt
  dsimp only
  split
  next hfree =>
    refine moves_set ?_ ?_ ?_ fun _ => Int.add_one_le_of_lt hfree
    · rw [hslots]
      simp [CallerPhase.slots]
    · rw [hplaces]
      cases queued <;> simp [CallerPhase.places]
    · left
      cases queued with
      | true => exact Int.sub_le_self _ (by decide)
      | false => exact Int.le_refl _
  next hfull =>
    cases queued with
    | true => exact moves_refl hslots hplaces nofun
    | false =>
        simp only [Bool.false_eq_true, ↓reduceIte]
        split
        next hno => exact moves_refl hslots hplaces nofun
        next hroom =>
          refine moves_set ?_ ?_ (.inr ?_) nofun
          · rw [hslots]
            rfl
          · rw [hplaces]
            simp [CallerPhase.places]
          · dsimp only
            omega

theorem dequeue_moves {n : Nat} (hphase : h.phase = .queued n) (hpos : 0 < (c.states h.key).waiting) :
    Moves c h (c.dequeue h.key) .refused := by
  simp only [Controller.dequeue, hpos, ↓reduceIte]
  refine moves_set ?_ ?_ (.inl ?_) nofun
  · simp [hphase, CallerPhase.slots]
  · simp [hphase, CallerPhase.places]
  · dsimp only
    omega

theorem release_moves (hphase : h.phase = .holding) (hne : (c.states h.key).inflight ≠ 0) :
    Moves c h (c.release h.key) .released := by
  simp only [Controller.release, hne, ↓reduceIte]
  refine moves_set ?_ ?_ (.inl (Int.le_refl _)) nofun
  · simp [hphase, CallerPhase.slots]
  · simp [hphase, CallerPhase.places]

/-- Every section, of a caller that is counted. -/
theorem admissionAct_moves {x : CallerAction} (hact : admissionAct c h x = some (c', h'))
    (hwaiting : h.phase.places = 1 → 0 < (c.states h.key).waiting)
    (hinflight : h.phase.slots = 1 → (c.states h.key).inflight ≠ 0) :
    ∃ phase, h' = { h with phase := phase } ∧ Moves c h c' phase := by
  unfold admissionAct at hact
  split at hact
  next hphase =>
    cases hact
    exact ⟨_, rfl, attempt_moves (by rw [hphase]; rfl) (by rw [hphase]; rfl)⟩
  next n hphase =>
    split at hact
    next _ =>
      cases hact
      exact ⟨_, rfl, attempt_moves (by rw [hphase]; rfl) (by rw [hphase]; rfl)⟩
    next _ => cases hact
  next n hphase =>
    cases hact
    exact ⟨_, rfl, dequeue_moves hphase (hwaiting (by rw [hphase]; rfl))⟩
  next n hphase =>
    split at hact
    next _ =>
      cases hact
      exact ⟨_, rfl, dequeue_moves hphase (hwaiting (by rw [hphase]; rfl))⟩
    next _ => cases hact
  next hphase =>
    cases hact
    exact ⟨_, rfl, release_moves hphase (hinflight (by rw [hphase]; rfl))⟩
  next hphase =>
    cases hact
    exact ⟨h.phase, rfl, moves_refl rfl rfl (by rw [hphase]; nofun)⟩
  next => cases hact

end Moves

/-! ## The counters in every run -/

/-- The number of callers of a key that hold something. -/
def countOf (weight : CallerPhase → Nat) (k : κ) (threads : List (Caller κ)) : Nat :=
  total (fun h => if h.key = k then weight h.phase else 0) threads

/-- The counters of every key are the numbers of callers that hold a slot and of callers in
the queue, which is not longer than it may be. -/
structure Counted (p : Admissions κ) : Prop where
  inflight : ∀ k, (p.shared.states k).inflight = countOf CallerPhase.slots k p.threads
  waiting : ∀ k, (p.shared.states k).waiting = countOf CallerPhase.places k p.threads
  queue : ∀ k, (p.shared.states k).waiting ≤ p.shared.queueSize

/-- What an event may do: a caller that gets a slot leaves the slots of its key within its
limit, and the counters of a key change only by sections of its own callers. -/
structure Respects (p : Admissions κ) (e : PoolEvent (Caller κ) CallerAction) (p' : Admissions κ) :
    Prop where
  admitted : ∀ i h h', e = .act i .attempt → p.threads[i]? = some h → p'.threads[i]? = some h' →
    h'.phase = .holding → (p'.shared.states h.key).inflight ≤ h.bound
  others : ∀ k, (∀ i x h, e = .act i x → p.threads[i]? = some h → h.key ≠ k) →
    p'.shared.states k = p.shared.states k

section Runs

variable {p p' : Admissions κ} {i : Nat} {h : Caller κ} {weight : CallerPhase → Nat}

theorem countOf_pos (hh : p.threads[i]? = some h) (hw : weight h.phase = 1) :
    0 < countOf weight h.key p.threads := by
  have hle := le_total (fun h' : Caller κ => if h'.key = h.key then weight h'.phase else 0)
    (List.mem_of_getElem? hh)
  rw [if_pos rfl, hw] at hle
  exact hle

theorem countOf_append (hw : weight h.phase = 0) (k : κ) (threads : List (Caller κ)) :
    countOf weight k (threads ++ [h]) = countOf weight k threads := by
  simp [countOf, total_append_singleton, hw]

theorem countOf_set_self (weight : CallerPhase → Nat) (hh : p.threads[i]? = some h) (phase : CallerPhase) :
    countOf weight h.key (p.threads.set i { h with phase := phase }) + weight h.phase =
      countOf weight h.key p.threads + weight phase := by
  simpa [countOf] using
    total_set (fun h' : Caller κ => if h'.key = h.key then weight h'.phase else 0)
      { h with phase := phase } hh

theorem countOf_set_of_ne (hh : p.threads[i]? = some h) (phase : CallerPhase) {k : κ} (hk : h.key ≠ k) :
    countOf weight k (p.threads.set i { h with phase := phase }) = countOf weight k p.threads := by
  simpa [countOf, hk] using
    total_set (fun h' : Caller κ => if h'.key = k then weight h'.phase else 0)
      { h with phase := phase } hh

theorem counted_fresh (queueSize queueTimeout : Int) : Counted (fresh κ queueSize queueTimeout) where
  inflight _ := rfl
  waiting _ := rfl
  queue _ := by
    show 0 ≤ (newAdmissionController κ queueSize queueTimeout).queueSize
    unfold newAdmissionController
    dsimp only
    split
    next _ => exact Int.le_refl 0
    next hnot => exact Int.not_lt.mp hnot

theorem Counted.join (hp : Counted p) (hnew : isArrived h = true) :
    Counted { p with threads := p.threads ++ [h] } := by
  have hphase : h.phase = .arrived := of_decide_eq_true hnew
  refine ⟨fun k => ?_, fun k => ?_, hp.queue⟩
  · rw [countOf_append (by rw [hphase]; rfl)]
    exact hp.inflight k
  · rw [countOf_append (by rw [hphase]; rfl)]
    exact hp.waiting k

/-- A section moves the counters of its key with its caller. -/
theorem Counted.move (hp : Counted p) (hh : p.threads[i]? = some h) {c : Controller κ}
    {phase : CallerPhase} (hmoves : Moves p.shared h c phase) :
    Counted { shared := c, threads := p.threads.set i { h with phase := phase } } := by
  refine ⟨fun k => ?_, fun k => ?_, fun k => ?_⟩
  · by_cases hk : h.key = k
    · subst hk
      have hcount := countOf_set_self CallerPhase.slots hh phase
      have hbefore := hp.inflight h.key
      have hmove := hmoves.inflight
      dsimp only
      omega
    · rw [countOf_set_of_ne hh phase hk, hmoves.others k (Ne.symm hk)]
      exact hp.inflight k
  · by_cases hk : h.key = k
    · subst hk
      have hcount := countOf_set_self CallerPhase.places hh phase
      have hbefore := hp.waiting h.key
      have hmove := hmoves.waiting
      dsimp only
      omega
    · rw [countOf_set_of_ne hh phase hk, hmoves.others k (Ne.symm hk)]
      exact hp.waiting k
  · have hbefore := hp.queue k
    rw [hmoves.queueSize]
    by_cases hk : h.key = k
    · subst hk
      exact hmoves.queue.elim (fun hle => hle.trans hbefore) id
    · rw [hmoves.others k (Ne.symm hk)]
      exact hbefore

theorem counted_step {e : PoolEvent (Caller κ) CallerAction} (hp : Counted p)
    (hs : admissionStep p e = some p') : Counted p' ∧ Respects p e p' := by
  rcases poolStep_cases hs with ⟨h, rfl, hnew, rfl⟩ | ⟨i, x, h, c, h', rfl, hh, hact, rfl⟩
  · refine ⟨hp.join hnew, ⟨nofun, fun _ _ => rfl⟩⟩
  · obtain ⟨phase, rfl, hmoves⟩ := admissionAct_moves hact
      (fun hplaces => by rw [hp.waiting]; exact_mod_cast countOf_pos hh hplaces)
      (fun hslots => by rw [hp.inflight]; exact_mod_cast (countOf_pos hh hslots).ne')
    refine ⟨hp.move hh hmoves, fun j g g' he hg hg' hholding => ?_, fun k hother => ?_⟩
    · cases he
      rw [hh] at hg
      cases hg
      obtain ⟨hlt, -⟩ := List.getElem?_eq_some_iff.mp hh
      rw [List.getElem?_set_self hlt] at hg'
      cases hg'
      exact hmoves.admitted hholding
    · exact hmoves.others k fun hk => hother i x h rfl hh hk.symm

end Runs

/-- In every run of a controller, whatever callers there are with whatever keys and limits,
and in any interleaving of their sections: in every state the counters of every key are
the numbers of callers that hold a slot and that are in the queue, and the queue is not
longer than it may be; and every event leaves the slots of a key within the limit of a
caller it admits, and other keys alone. -/
theorem admission_counts (queueSize queueTimeout : Int) (es : List (PoolEvent (Caller κ) CallerAction)) :
    Along admissionStep Counted (fresh κ queueSize queueTimeout) es ∧
      Each admissionStep (fun p e => ∀ p', admissionStep p e = some p' → Respects p e p')
        (fresh κ queueSize queueTimeout) es := by
  have hfresh := counted_fresh (κ := κ) queueSize queueTimeout
  have hall : Each admissionStep (fun _ _ => True) (fresh κ queueSize queueTimeout) es :=
    Each.of_forall (fun _ _ => trivial) _ es
  constructor
  · exact Along.of_each (fun hp _ hs => (counted_step hp hs).1) hfresh hall
  · refine Each.of_invariant (fun hp _ hs => ⟨(counted_step hp hs).1, fun p'' hs' => ?_⟩) hfresh hall
    exact (counted_step hp hs').2

end Sections

/-- One slot: the second caller waits until the first one releases, twice. -/
example :
    (runs admissionStep (fresh Nat 1 0)
      [.join { key := 7, limit := 0 }, .join { key := 7, limit := 1 }, .act 0 .attempt, .act 1 .attempt,
        .act 0 .release, .act 0 .release, .act 1 .attempt]).map
        (fun p => ((p.shared.states 7).inflight, (p.shared.states 7).waiting, p.threads.map (·.phase))) =
      some (1, 0, [.released, .holding]) := by
  decide

end DDAG.Connector.Admission
