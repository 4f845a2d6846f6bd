import DDAG.Httpx
import DDAG.Lib.Pool
import DDAG.Lib.Trace

/-!
# Cancelled requests that others wait for

Requests with one cache key in `resolvePayload` of `internal/gatewaysvc/service.go`.  The
first of them leads a flight, and the others that come before it is over share it.  The
function of the flight uses the context of its leader: to wait for a place in the queue,
and for the call of the connector.  A context is cancelled when the client goes away or
its deadline passes, at any time.

An error says, as a ghost, whose context caused it.  `Unharmed` says that a request whose
own context is not cancelled has no error caused by that of another.  It holds along runs
that are `considerate` (`unharmed_run`).  A leader that is cancelled while others wait
breaks it (`leader_cancelled`).
-/

namespace DDAG.GatewaySvc.Cancellation

open Machine Httpx

/-! ## Requests and flights -/

/-- An error of the function of a flight. -/
structure LoadError where
  error : APIError
  /-- Ghost: the request whose context caused it. -/
  cause : Option Nat := none
deriving DecidableEq

/-- How far the function of a flight is. -/
inductive SharePhase (ρ : Type*) where
  /-- `backpressure.Acquire`. -/
  | acquiring
  /-- `connector.Query`. -/
  | querying
  /-- The result is there, and may be being stored. -/
  | loaded (r : Except LoadError ρ)
  /-- The key is free again. -/
  | finished (r : Except LoadError ρ)

structure SharedLoad (ρ : Type*) where
  leader : Nat
  phase : SharePhase ρ

inductive WaitPhase (ρ : Type*) where
  | arrived
  /-- In `Do`, leading a flight or sharing it. -/
  | waiting (flight : Nat)
  | answered (r : Except LoadError ρ)

/-- A request, and whether its context is cancelled. -/
structure Waiter (ρ : Type*) where
  cancelled : Bool
  phase : WaitPhase ρ

structure Sharing (ρ : Type*) where
  requests : List (Waiter ρ)
  flights : List (SharedLoad ρ)

variable {ρ : Type*}

def SharePhase.active : SharePhase ρ → Bool
  | .finished _ => false
  | _ => true

def SharePhase.result? : SharePhase ρ → Option (Except LoadError ρ)
  | .loaded r | .finished r => some r
  | _ => none

def Sharing.cancelled (s : Sharing ρ) (i : Nat) : Bool := s.requests[i]?.any Waiter.cancelled

/-! ## Steps -/

/-- How the statement goes that the function of a flight waits for. -/
inductive LoadOutcome (ρ : Type*) where
  | notConfigured
  | acquired
  | queueTimeout
  /-- The context of the leader ends the wait for a place. -/
  | queueCancelled
  /-- The connector answers, or fails for a reason of its own. -/
  | answered (r : Except APIError ρ)
  /-- The context of the leader ends the call. -/
  | queryCancelled (err : APIError)

def tooManyRequests : APIError :=
  newError .backpressureLimit "Too many concurrent requests. Please retry later."

/-- The function `load`, with the context of the leader. -/
def loadNext (leader : Nat) (cancelled : Bool) : SharePhase ρ → LoadOutcome ρ → Option (SharePhase ρ)
  | .acquiring, .notConfigured =>
      some (.loaded (.error { error := newError .internal "API has no database connection configured" }))
  | .acquiring, .acquired => some .querying
  | .acquiring, .queueTimeout => some (.loaded (.error { error := tooManyRequests }))
  | .acquiring, .queueCancelled =>
      if cancelled then some (.loaded (.error { error := tooManyRequests, cause := some leader })) else none
  | .querying, .answered (.ok r) => some (.loaded (.ok r))
  | .querying, .answered (.error err) => some (.loaded (.error { error := err }))
  | .querying, .queryCancelled err =>
      if cancelled then some (.loaded (.error { error := err, cause := some leader })) else none
  | _, _ => none

inductive ShareEvent (ρ : Type*) where
  | arrive
  | cancel (i : Nat)
  /-- `flightGroup.Do`. -/
  | join (i : Nat)
  | load (f : Nat) (o : LoadOutcome ρ)
  | finish (f : Nat)
  | receive (i : Nat)

def shareStep (s : Sharing ρ) : ShareEvent ρ → Option (Sharing ρ)
  | .arrive => some { s with requests := s.requests ++ [⟨false, .arrived⟩] }
  | .cancel i =>
      s.requests[i]?.map fun w => { s with requests := s.requests.set i { w with cancelled := true } }
  | .join i =>
      match s.requests[i]? with
      | some ⟨cancelled, .arrived⟩ =>
          match s.flights.findIdx? fun fl => fl.phase.active with
          | some f => some { s with requests := s.requests.set i ⟨cancelled, .waiting f⟩ }
          | none =>
              some { requests := s.requests.set i ⟨cancelled, .waiting s.flights.length⟩
                     flights := s.flights ++ [⟨i, .acquiring⟩] }
      | _ => none
  | .load f o =>
      match s.flights[f]? with
      | some fl =>
          (loadNext fl.leader (s.cancelled fl.leader) fl.phase o).map fun phase =>
            { s with flights := s.flights.set f { fl with phase := phase } }
      | none => none
  | .finish f =>
      match s.flights[f]? with
      | some ⟨leader, .loaded r⟩ => some { s with flights := s.flights.set f ⟨leader, .finished r⟩ }
      | _ => none
  | .receive i =>
      match s.requests[i]? with
      | some ⟨cancelled, .waiting f⟩ =>
          match s.flights[f]? with
          | some ⟨_, .finished r⟩ => some { s with requests := s.requests.set i ⟨cancelled, .answered r⟩ }
          | _ => none
      | _ => none

def idle (ρ : Type*) : Sharing ρ := ⟨[], []⟩

/-! ## The property and the condition -/

/-- A request whose context is not cancelled has no error that another context caused. -/
def Unharmed (s : Sharing ρ) : Prop :=
  ∀ (j : Nat) (w : Waiter ρ) (e : LoadError) (l : Nat), s.requests[j]? = some w →
    w.phase = .answered (.error e) → e.cause = some l → w.cancelled = false → l = j

/-- The request waits for a flight of the leader `i` that has no result yet, while its own
context is not cancelled. -/
def dependsOn (s : Sharing ρ) (i : Nat) (w : Waiter ρ) : Bool :=
  match w.phase with
  | .waiting f => !w.cancelled && s.flights[f]?.any fun fl => fl.leader = i && fl.phase.result?.isNone
  | _ => false

/-- No context is cancelled while another request depends on it, and no request shares a
flight whose leader is cancelled. -/
def considerate (s : Sharing ρ) : ShareEvent ρ → Bool
  | .cancel i => s.requests.zipIdx.all fun x => x.2 = i || !dependsOn s i x.1
  | .join i =>
      s.cancelled i || s.flights.all fun fl => !fl.phase.active || !s.cancelled fl.leader
  | _ => true

/-! ## What a step does -/

/-- The cancellation of the leader shows in the result, or may yet do so. -/
def SharePhase.exposed (phase : SharePhase ρ) : Bool :=
  match phase.result? with
  | none => true
  | some (.error e) => e.cause.isSome
  | some (.ok _) => false

/-- What becomes of a flight: an error caused by a context is caused by that of the leader,
or was there before. -/
structure Advances (s : Sharing ρ) (fl : SharedLoad ρ) (phase : SharePhase ρ) : Prop where
  exposed : phase.exposed = true → fl.phase.exposed = true
  caused : ∀ e l, phase.result? = some (.error e) → e.cause = some l →
    (l = fl.leader ∧ s.cancelled l = true) ∨ fl.phase.result? = some (.error e)

inductive Shares (s : Sharing ρ) : ShareEvent ρ → Sharing ρ → Prop where
  | arrived : Shares s .arrive { s with requests := s.requests ++ [⟨false, .arrived⟩] }
  | cancelled {i : Nat} {w : Waiter ρ} (hw : s.requests[i]? = some w) :
      Shares s (.cancel i) { s with requests := s.requests.set i { w with cancelled := true } }
  | shared {i f : Nat} {c : Bool} {fl : SharedLoad ρ} (hw : s.requests[i]? = some ⟨c, .arrived⟩)
      (hfl : s.flights[f]? = some fl) (hactive : fl.phase.active = true) :
      Shares s (.join i) { s with requests := s.requests.set i ⟨c, .waiting f⟩ }
  | led {i : Nat} {c : Bool} (hw : s.requests[i]? = some ⟨c, .arrived⟩) :
      Shares s (.join i) { requests := s.requests.set i ⟨c, .waiting s.flights.length⟩
                           flights := s.flights ++ [⟨i, .acquiring⟩] }
  | advanced {e : ShareEvent ρ} {f : Nat} {fl : SharedLoad ρ} {phase : SharePhase ρ}
      (hfl : s.flights[f]? = some fl) (hadvances : Advances s fl phase) :
      Shares s e { s with flights := s.flights.set f { fl with phase := phase } }
  | answered {i f : Nat} {c : Bool} {fl : SharedLoad ρ} {r : Except LoadError ρ}
      (hw : s.requests[i]? = some ⟨c, .waiting f⟩) (hfl : s.flights[f]? = some fl)
      (hr : fl.phase.result? = some r) :
      Shares s (.receive i) { s with requests := s.requests.set i ⟨c, .answered r⟩ }

theorem loadNext_advances {s : Sharing ρ} {fl : SharedLoad ρ} {phase : SharePhase ρ} {o : LoadOutcome ρ}
    (h : loadNext fl.leader (s.cancelled fl.leader) fl.phase o = some phase) : Advances s fl phase := by
  have hbefore : fl.phase.exposed = true := by
    cases hphase : fl.phase with
    | acquiring => rfl
    | querying => rfl
    | loaded r => rw [hphase] at h; cases h
    | finished r => rw [hphase] at h; cases h
  refine ⟨fun _ => hbefore, ?_⟩
  intro e l hresult hcause
  refine .inl ?_
  unfold loadNext at h
  split at h
  next => cases h; cases hresult; cases hcause
  next => cases h; cases hresult
  next => cases h; cases hresult; cases hcause
  next =>
    split at h
    next hcancelled => cases h; cases hresult; cases hcause; exact ⟨rfl, hcancelled⟩
    next => cases h
  next => cases h; cases hresult
  next => cases h; cases hresult; cases hcause
  next =>
    split at h
    next hcancelled => cases h; cases hresult; cases hcause; exact ⟨rfl, hcancelled⟩
    next => cases h
  next => cases h

theorem shareStep_cases {s s' : Sharing ρ} {e : ShareEvent ρ} (h : shareStep s e = some s') :
    Shares s e s' := by
  cases e with
  | arrive =>
      cases h
      exact .arrived
  | cancel i =>
      obtain ⟨w, hw, rfl⟩ := Option.map_eq_some_iff.1 h
      exact .cancelled hw
  | join i =>
      simp only [shareStep] at h
      split at h
      next c hw =>
        split at h
        next f hfind =>
          cases h
          obtain ⟨hlt, hactive, _⟩ := List.findIdx?_eq_some_iff_getElem.1 hfind
          exact .shared hw (List.getElem?_eq_getElem hlt) hactive
        next =>
          cases h
          exact .led hw
      next => cases h
  | load f o =>
      simp only [shareStep] at h
      split at h
      next fl hfl =>
        obtain ⟨phase, hnext, rfl⟩ := Option.map_eq_some_iff.1 h
        exact .advanced hfl (loadNext_advances hnext)
      next => cases h
  | finish f =>
      simp only [shareStep] at h
      split at h
      next leader r hfl =>
        cases h
        exact .advanced hfl ⟨id, fun _ _ hresult _ => .inr hresult⟩
      next => cases h
  | receive i =>
      simp only [shareStep] at h
      split at h
      next c f hw =>
        split at h
        next leader r hfl =>
          cases h
          exact .answered hw hfl rfl
        next => cases h
      next => cases h

/-! ## Considerate runs -/

/-- While the cancellation of a leader can show in the result of its flight, every other
request that waits for the flight is cancelled itself. -/
structure Safe (s : Sharing ρ) : Prop where
  placed : ∀ (j : Nat) (w : Waiter ρ) (f : Nat), s.requests[j]? = some w → w.phase = .waiting f →
    f < s.flights.length
  caused : ∀ (f : Nat) (fl : SharedLoad ρ) (e : LoadError) (l : Nat), s.flights[f]? = some fl →
    fl.phase.result? = some (.error e) → e.cause = some l → l = fl.leader ∧ s.cancelled l = true
  alone : ∀ (f : Nat) (fl : SharedLoad ρ) (j : Nat) (w : Waiter ρ), s.flights[f]? = some fl →
    s.cancelled fl.leader = true → fl.phase.exposed = true → s.requests[j]? = some w →
    w.phase = .waiting f → w.cancelled = false → j = fl.leader
  unharmed : Unharmed s

theorem safe_idle (ρ : Type*) : Safe (idle ρ) := by
  refine ⟨?_, ?_, ?_, ?_⟩
  · intro j w f hj
    simp [idle] at hj
  · intro f fl e l hfl
    simp [idle] at hfl
  · intro f fl j w hfl
    simp [idle] at hfl
  · intro j w e l hj
    simp [idle] at hj

section Steps

variable {s : Sharing ρ} {i : Nat} {w : Waiter ρ}

theorem cancelled_arrive (s : Sharing ρ) (l : Nat) :
    Sharing.cancelled { s with requests := s.requests ++ [⟨false, .arrived⟩] } l = s.cancelled l := by
  show (s.requests ++ [⟨false, .arrived⟩])[l]?.any Waiter.cancelled = s.requests[l]?.any Waiter.cancelled
  rw [List.getElem?_append]
  split
  next _ => rfl
  next hge =>
    rw [List.getElem?_eq_none (Nat.le_of_not_lt hge)]
    cases l - s.requests.length <;> rfl

theorem cancelled_set (hw : s.requests[i]? = some w) (w' : Waiter ρ) (l : Nat) :
    Sharing.cancelled { s with requests := s.requests.set i w' } l =
      if l = i then w'.cancelled else s.cancelled l := by
  show (s.requests.set i w')[l]?.any Waiter.cancelled = _
  split
  next hl =>
    rw [hl, List.getElem?_set_self (List.getElem?_eq_some_iff.1 hw).1]
    rfl
  next hl =>
    rw [List.getElem?_set_ne (Ne.symm hl)]
    rfl

theorem cancelled_of_getElem? (hw : s.requests[i]? = some w) : s.cancelled i = w.cancelled := by
  rw [Sharing.cancelled, hw]
  rfl

theorem safe_arrive (h : Safe s) : Safe { s with requests := s.requests ++ [⟨false, .arrived⟩] } := by
  have hcancelled := cancelled_arrive s
  refine ⟨?_, ?_, ?_, ?_⟩
  · intro j w f hj hf
    rcases getElem?_append_cases hj with ⟨_, rfl⟩ | hj
    · cases hf
    · exact h.placed j w f hj hf
  · intro f fl e l hfl hresult hcause
    rw [hcancelled]
    exact h.caused f fl e l hfl hresult hcause
  · intro f fl j w hfl hleader hexposed hj hf
    rw [hcancelled] at hleader
    rcases getElem?_append_cases hj with ⟨_, rfl⟩ | hj
    · cases hf
    · exact h.alone f fl j w hfl hleader hexposed hj hf
  · intro j w e l hj hanswer
    rcases getElem?_append_cases hj with ⟨_, rfl⟩ | hj
    · cases hanswer
    · exact h.unharmed j w e l hj hanswer

theorem safe_move (h : Safe s) (hw : s.requests[i]? = some w) {phase : WaitPhase ρ}
    (hwaits : ∀ f, phase = .waiting f → f < s.flights.length ∧ ∀ fl, s.flights[f]? = some fl →
      s.cancelled fl.leader = true → fl.phase.exposed = true → w.cancelled = false → i = fl.leader)
    (hanswers : ∀ e l, phase = .answered (.error e) → e.cause = some l → w.cancelled = false → l = i) :
    Safe { s with requests := s.requests.set i { w with phase := phase } } := by
  have hcancelled : ∀ l, Sharing.cancelled
      { s with requests := s.requests.set i { w with phase := phase } } l = s.cancelled l := by
    intro l
    rw [cancelled_set hw]
    split
    next hl => rw [hl, cancelled_of_getElem? hw]
    next _ => rfl
  refine ⟨?_, ?_, ?_, ?_⟩
  · intro j w' f hj hf
    rcases getElem?_set_cases hj with ⟨_, rfl⟩ | ⟨_, hj⟩
    · exact (hwaits f hf).1
    · exact h.placed j w' f hj hf
  · intro f fl e l hfl hresult hcause
    rw [hcancelled]
    exact h.caused f fl e l hfl hresult hcause
  · intro f fl j w' hfl hleader hexposed hj hf hown
    rw [hcancelled] at hleader
    rcases getElem?_set_cases hj with ⟨rfl, rfl⟩ | ⟨_, hj⟩
    · exact (hwaits f hf).2 fl hfl hleader hexposed hown
    · exact h.alone f fl j w' hfl hleader hexposed hj hf hown
  · intro j w' e l hj hanswer hcause hown
    rcases getElem?_set_cases hj with ⟨rfl, rfl⟩ | ⟨_, hj⟩
    · exact hanswers e l hanswer hcause hown
    · exact h.unharmed j w' e l hj hanswer hcause hown

/-- A new flight, for which nobody waits yet. -/
theorem safe_lead (h : Safe s) (leader : Nat) :
    Safe { s with flights := s.flights ++ [⟨leader, .acquiring⟩] } := by
  refine ⟨?_, ?_, ?_, h.unharmed⟩
  · intro j w f hj hf
    have hlt := h.placed j w f hj hf
    rw [List.length_append]
    exact Nat.lt_add_right 1 hlt
  · intro f fl e l hfl hresult hcause
    rcases getElem?_append_cases hfl with ⟨_, rfl⟩ | hfl
    · cases hresult
    · exact h.caused f fl e l hfl hresult hcause
  · intro f fl j w hfl hleader hexposed hj hf hown
    rcases getElem?_append_cases hfl with ⟨rfl, _⟩ | hfl
    · exact absurd (h.placed j w _ hj hf) (Nat.lt_irrefl _)
    · exact h.alone f fl j w hfl hleader hexposed hj hf hown

theorem safe_advance {f : Nat} {fl : SharedLoad ρ} {phase : SharePhase ρ} (h : Safe s)
    (hfl : s.flights[f]? = some fl) (hadvances : Advances s fl phase) :
    Safe { s with flights := s.flights.set f { fl with phase := phase } } := by
  refine ⟨?_, ?_, ?_, h.unharmed⟩
  · intro j w f' hj hf'
    rw [List.length_set]
    exact h.placed j w f' hj hf'
  · intro f' fl' e l hfl' hresult hcause
    rcases getElem?_set_cases hfl' with ⟨_, rfl⟩ | ⟨_, hfl'⟩
    · rcases hadvances.caused e l hresult hcause with hnew | hold
      · exact hnew
      · exact h.caused f fl e l hfl hold hcause
    · exact h.caused f' fl' e l hfl' hresult hcause
  · intro f' fl' j w hfl' hleader hexposed hj hf' hown
    rcases getElem?_set_cases hfl' with ⟨rfl, rfl⟩ | ⟨_, hfl'⟩
    · exact h.alone f' fl j w hfl hleader (hadvances.exposed hexposed) hj hf' hown
    · exact h.alone f' fl' j w hfl' hleader hexposed hj hf' hown

/-- A result in which the cancellation of a leader shows is an error caused by a context. -/
theorem exposed_cause {phase : SharePhase ρ} (h : phase.exposed = true)
    (hsome : phase.result?.isSome = true) :
    ∃ e l, phase.result? = some (.error e) ∧ e.cause = some l := by
  unfold SharePhase.exposed at h
  cases hr : phase.result? with
  | none =>
      rw [hr] at hsome
      cases hsome
  | some r =>
      rw [hr] at h
      cases r with
      | ok _ => cases h
      | error e =>
          obtain ⟨l, hl⟩ := Option.isSome_iff_exists.1 h
          exact ⟨e, l, rfl, hl⟩

theorem dependsOn_eq_false {w : Waiter ρ} {f : Nat} {fl : SharedLoad ρ} (h : dependsOn s i w = false)
    (hf : w.phase = .waiting f) (hfl : s.flights[f]? = some fl) (hleader : fl.leader = i)
    (hown : w.cancelled = false) : fl.phase.result?.isSome = true := by
  simpa [dependsOn, hf, hfl, hleader, hown] using h

theorem safe_cancel (h : Safe s) (hw : s.requests[i]? = some w)
    (hconsiderate : considerate s (.cancel i) = true) :
    Safe { s with requests := s.requests.set i { w with cancelled := true } } := by
  have hfree : ∀ (j : Nat) (w' : Waiter ρ), s.requests[j]? = some w' → j ≠ i → dependsOn s i w' = false := by
    intro j w' hj hne
    have hall := List.all_eq_true.1 hconsiderate (w', j) (List.mk_mem_zipIdx_iff_getElem?.2 hj)
    simpa [hne] using hall
  have hcancelled := cancelled_set hw { w with cancelled := true }
  refine ⟨?_, ?_, ?_, ?_⟩
  · intro j w' f hj hf
    rcases getElem?_set_cases hj with ⟨_, rfl⟩ | ⟨_, hj⟩
    · exact h.placed i w f hw hf
    · exact h.placed j w' f hj hf
  · intro f fl e l hfl hresult hcause
    obtain ⟨hleader, hl⟩ := h.caused f fl e l hfl hresult hcause
    rw [hcancelled, hl, ite_self]
    exact ⟨hleader, rfl⟩
  · intro f fl j w' hfl hleader hexposed hj hf hown
    rcases getElem?_set_cases hj with ⟨_, rfl⟩ | ⟨hne, hj⟩
    · cases hown
    · rw [hcancelled] at hleader
      split at hleader
      next hleads =>
        -- The flight is led by the cancelled request.  If it has a result yet, the error
        -- in it was caused by a context that was cancelled before.
        have hsome := dependsOn_eq_false (hfree j w' hj hne) hf hfl hleads hown
        obtain ⟨e, l, hresult, hcause⟩ := exposed_cause hexposed hsome
        obtain ⟨rfl, hbefore⟩ := h.caused f fl e l hfl hresult hcause
        exact h.alone f fl j w' hfl hbefore hexposed hj hf hown
      next _ => exact h.alone f fl j w' hfl hleader hexposed hj hf hown
  · intro j w' e l hj hanswer hcause hown
    rcases getElem?_set_cases hj with ⟨_, rfl⟩ | ⟨_, hj⟩
    · cases hown
    · exact h.unharmed j w' e l hj hanswer hcause hown

end Steps

theorem safe_step {s s' : Sharing ρ} {e : ShareEvent ρ} (h : Safe s) (hconsiderate : considerate s e = true)
    (hs : shareStep s e = some s') : Safe s' := by
  cases shareStep_cases hs with
  | arrived => exact safe_arrive h
  | cancelled hw => exact safe_cancel h hw hconsiderate
  | @shared i f c fl hw hfl hactive =>
      refine safe_move h hw ?_ nofun
      intro f' hf'
      cases hf'
      refine ⟨(List.getElem?_eq_some_iff.1 hfl).1, ?_⟩
      intro fl' hfl' hleader _ hown
      rw [hfl] at hfl'
      cases hfl'
      -- A request that is not cancelled itself shares no flight of a cancelled leader.
      simp only [considerate, Bool.or_eq_true, List.all_eq_true] at hconsiderate
      rcases hconsiderate with hcancelled | hleaders
      · rw [cancelled_of_getElem? hw, hown] at hcancelled
        cases hcancelled
      · have hleads := hleaders fl (List.mem_of_getElem? hfl)
        simp [hactive, hleader] at hleads
  | @led i c hw =>
      refine safe_move (safe_lead h i) hw ?_ nofun
      intro f hf
      cases hf
      refine ⟨by simp, ?_⟩
      intro fl hfl _ _ _
      rcases getElem?_append_cases hfl with ⟨_, rfl⟩ | hold
      · rfl
      · exact absurd (List.getElem?_eq_some_iff.1 hold).1 (Nat.lt_irrefl _)
  | advanced hfl hadvances => exact safe_advance h hfl hadvances
  | @answered i f c fl r hw hfl hr =>
      refine safe_move h hw nofun ?_
      intro e l hphase hcause hown
      cases hphase
      obtain ⟨rfl, hleader⟩ := h.caused f fl e l hfl hr hcause
      have hexposed : fl.phase.exposed = true := by simp [SharePhase.exposed, hr, hcause]
      exact (h.alone f fl i _ hfl hleader hexposed hw rfl hown).symm

/-- Along a considerate run, no request whose context is not cancelled has an error that
another context caused. -/
theorem unharmed_run (es : List (ShareEvent ρ))
    (hconsiderate : Each shareStep (fun s e => considerate s e = true) (idle ρ) es) :
    Along shareStep Unharmed (idle ρ) es :=
  (Along.of_each safe_step (safe_idle ρ) hconsiderate).mono fun _ hsafe => hsafe.unharmed

/-! ## A cancelled leader -/

/-- Request 0 leads a flight and request 1 shares it.  Then the client of request 0 goes
away, and the call of the connector ends. -/
def leaderLeaves : List (ShareEvent Nat) :=
  [.arrive, .join 0, .arrive, .join 1, .load 0 .acquired, .cancel 0,
    .load 0 (.queryCancelled (newError .connectorUnavailable "connector unavailable")), .finish 0,
    .receive 1]

/-- The request that waits gets the error. -/
theorem leader_cancelled :
    ∃ s w, runs shareStep (idle Nat) leaderLeaves = some s ∧ s.requests[1]? = some w ∧
      w.cancelled = false ∧ w.phase = .answered (.error
        { error := newError .connectorUnavailable "connector unavailable", cause := some 0 }) :=
  ⟨_, _, rfl, rfl, rfl, rfl⟩

/-- The client that shares the flight goes away instead. -/
def sharerLeaves : List (ShareEvent Nat) :=
  [.arrive, .join 0, .arrive, .join 1, .load 0 .acquired, .cancel 1, .load 0 (.answered (.ok 7)),
    .finish 0, .receive 0, .receive 1]

theorem unharmed_when_sharer_leaves :
    Along shareStep Unharmed (idle Nat) sharerLeaves ∧
    ∃ s w, runs shareStep (idle Nat) sharerLeaves = some s ∧ s.requests[0]? = some w ∧
      w.phase = .answered (.ok 7) :=
  ⟨unharmed_run sharerLeaves (by decide), _, _, rfl, rfl, rfl⟩

end DDAG.GatewaySvc.Cancellation
