import DDAG.Connector.Admission

/-!
# Wake-ups

A caller in the queue of `internal/connector/admission.go` reads the channel `notify` of its
key under the mutex and waits for it after the mutex is released.  A release closes the
channel and puts a new one in its place.  The channel a caller waits for is closed when the
number of closed channels has grown past it.

`no_lost_wakeup` says that a caller that waits for an open channel has no slot to take, in
every state of every run.
-/

namespace DDAG.Connector.Admission

open Machine

variable {κ : Type*} [DecidableEq κ]

/-! ## What a section does to the channel -/

/-- The channel of the key is closed whenever a slot becomes free, and a caller goes to
sleep on the current channel only when there is no slot for it. -/
structure Signals (c : Controller κ) (h : Caller κ) (c' : Controller κ) (phase : CallerPhase) : Prop where
  others : ∀ k, k ≠ h.key → c'.states k = c.states k
  signal : ((c'.states h.key).notify = (c.states h.key).notify ∧
      (c.states h.key).inflight ≤ (c'.states h.key).inflight) ∨
    (c.states h.key).notify < (c'.states h.key).notify
  parked : ∀ n, phase = .queued n → n = (c'.states h.key).notify ∧ h.bound ≤ (c'.states h.key).inflight

section Signals

variable {c c' : Controller κ} {h h' : Caller κ} {phase : CallerPhase}

omit [DecidableEq κ] in
theorem signals_refl (hphase : ∀ n, phase ≠ .queued n) : Signals c h c phase where
  others _ _ := rfl
  signal := .inl ⟨rfl, Int.le_refl _⟩
  parked n hn := absurd hn (hphase n)

theorem signals_set {s : AdmissionState}
    (hsignal : (s.notify = (c.states h.key).notify ∧ (c.states h.key).inflight ≤ s.inflight) ∨
      (c.states h.key).notify < s.notify)
    (hparked : ∀ n, phase = .queued n → n = s.notify ∧ h.bound ≤ s.inflight) :
    Signals c h (c.set h.key s) phase where
  others _ hk := c.set_of_ne s hk
  signal := by rwa [c.set_self]
  parked := by rwa [c.set_self]

/-- A round of the loop sleeps only when every slot of its limit is taken. -/
theorem attempt_signals (queued : Bool) :
    Signals c h (c.attempt h queued).1 (c.attempt h queued).2 := by
  unfold Controller.attempt
  dsimp only
  split
  next hfree =>
    refine signals_set (.inl ⟨rfl, ?_⟩) nofun
    show _ ≤ (c.states h.key).inflight + 1
    omega
  next hfull =>
    have hbound : h.bound ≤ (c.states h.key).inflight := Int.not_lt.mp hfull
    cases queued with
    | true =>
        refine ⟨fun _ _ => rfl, .inl ⟨rfl, Int.le_refl _⟩, fun n hn => ?_⟩
        cases hn
        exact ⟨rfl, hbound⟩
    | false =>
        simp only [Bool.false_eq_true, ↓reduceIte]
        split
        next _ => exact signals_refl nofun
        next _ =>
          refine signals_set (.inl ⟨rfl, Int.le_refl _⟩) fun n hn => ?_
          cases hn
          exact ⟨rfl, hbound⟩

theorem dequeue_signals : Signals c h (c.dequeue h.key) .refused := by
  unfold Controller.dequeue
  dsimp only
  split
  next _ => exact signals_set (.inl ⟨rfl, Int.le_refl _⟩) nofun
  next _ => exact signals_refl nofun

/-- A release that frees a slot closes the channel. -/
theorem release_signals : Signals c h (c.release h.key) .released := by
  unfold Controller.release
  dsimp only
  split
  next _ => exact signals_refl nofun
  next _ => exact signals_set (.inr (Nat.lt_succ_self _)) nofun

theorem admissionAct_signals {x : CallerAction} (hact : admissionAct c h x = some (c', h')) :
    ∃ phase, h' = { h with phase := phase } ∧ Signals c h c' phase := by
  unfold admissionAct at hact
  split at hact
  next _ =>
    cases hact
    exact ⟨_, rfl, attempt_signals false⟩
  next n _ =>
    split at hact
    next _ =>
      cases hact
      exact ⟨_, rfl, attempt_signals true⟩
    next _ => cases hact
  next n _ =>
    cases hact
    exact ⟨_, rfl, dequeue_signals⟩
  next n _ =>
    split at hact
    next _ =>
      cases hact
      exact ⟨_, rfl, dequeue_signals⟩
    next _ => cases hact
  next _ =>
    cases hact
    exact ⟨_, rfl, release_signals⟩
  next hphase =>
    cases hact
    exact ⟨h.phase, rfl, signals_refl (by rw [hphase]; nofun)⟩
  next => cases hact

end Signals

/-! ## Parked callers -/

/-- The caller waits for a channel that is not closed. -/
def Parked (c : Controller κ) (h : Caller κ) : Prop :=
  ∃ n, h.phase = .queued n ∧ (c.states h.key).notify ≤ n

/-- A caller in the queue waits for the current channel of its key or for one that is
closed, and for the current one only if there is no slot for it. -/
def Informed (c : Controller κ) (h : Caller κ) : Prop :=
  ∀ n, h.phase = .queued n → n ≤ (c.states h.key).notify ∧
    ((c.states h.key).notify ≤ n → h.bound ≤ (c.states h.key).inflight)

section Parked

variable {c c' : Controller κ} {g h : Caller κ} {phase : CallerPhase}

omit [DecidableEq κ] in
/-- A section keeps every other caller informed: a slot that becomes free on its key closes
the channel it waits for. -/
theorem Signals.informed (hsig : Signals c h c' phase) (hg : Informed c g) : Informed c' g := by
  intro n hn
  obtain ⟨hle, hfull⟩ := hg n hn
  by_cases hk : g.key = h.key
  · rw [hk] at hle hfull ⊢
    rcases hsig.signal with ⟨hnotify, hinflight⟩ | hclosed
    · rw [hnotify]
      exact ⟨hle, fun hopen => (hfull hopen).trans hinflight⟩
    · exact ⟨hle.trans hclosed.le, fun hopen => absurd (hopen.trans hle) (Nat.not_le.mpr hclosed)⟩
  · rw [hsig.others g.key hk]
    exact ⟨hle, hfull⟩

omit [DecidableEq κ] in
theorem Signals.informed_self (hsig : Signals c h c' phase) : Informed c' { h with phase := phase } := by
  intro n hn
  obtain ⟨rfl, hfull⟩ := hsig.parked n hn
  exact ⟨Nat.le_refl _, fun _ => hfull⟩

theorem informed_step {p p' : Admissions κ} {e : PoolEvent (Caller κ) CallerAction}
    (hp : ∀ h ∈ p.threads, Informed p.shared h) (hs : admissionStep p e = some p') :
    ∀ h ∈ p'.threads, Informed p'.shared h := by
  rcases poolStep_cases hs with ⟨h, rfl, hnew, rfl⟩ | ⟨i, x, h, c, h', rfl, hh, hact, rfl⟩
  · have hphase : h.phase = .arrived := of_decide_eq_true hnew
    refine forall_mem_join hp fun n hn => ?_
    rw [hphase] at hn
    cases hn
  · obtain ⟨phase, rfl, hsig⟩ := admissionAct_signals hact
    exact forall_mem_set (fun g hg => hsig.informed (hp g hg)) hsig.informed_self

omit [DecidableEq κ] in
theorem Informed.not_parked (hg : Informed c g) (hfree : (c.states g.key).inflight < g.bound) :
    ¬ Parked c g := by
  rintro ⟨n, hn, hopen⟩
  exact absurd ((hg n hn).2 hopen) (Int.not_le.mpr hfree)

theorem takes_free_slot {n : Nat} (hn : g.phase = .queued n) (hpark : ¬ Parked c g)
    (hfree : (c.states g.key).inflight < g.bound) :
    ∃ c', admissionAct c g .attempt = some (c', { g with phase := .holding }) := by
  have hclosed : n < (c.states g.key).notify := by
    by_contra hopen
    exact hpark ⟨n, hn, Nat.not_lt.mp hopen⟩
  simp [admissionAct, hn, hclosed, Controller.attempt, hfree]

end Parked

/-- In every state of every run of a controller, in any interleaving of the sections of any
callers with any limits: a caller that waits for a channel that is not closed finds its own
limit used up, and a caller in the queue for which a slot is free can go on and takes it. -/
theorem no_lost_wakeup (queueSize queueTimeout : Int) (es : List (PoolEvent (Caller κ) CallerAction)) :
    Along admissionStep
      (fun p => ∀ h ∈ p.threads,
        (Parked p.shared h → h.bound ≤ (p.shared.states h.key).inflight) ∧
        ∀ n, h.phase = .queued n → (p.shared.states h.key).inflight < h.bound →
          ∃ c', admissionAct p.shared h .attempt = some (c', { h with phase := .holding }))
      (fresh κ queueSize queueTimeout) es := by
  have hinv : Along admissionStep (fun p => ∀ h ∈ p.threads, Informed p.shared h)
      (fresh κ queueSize queueTimeout) es :=
    Along.of_step informed_step (List.forall_mem_nil _) es
  refine hinv.mono fun p hp h hh => ⟨?_, fun n hn hfree => ?_⟩
  · rintro ⟨n, hn, hopen⟩
    exact (hp h hh n hn).2 hopen
  · exact takes_free_slot hn ((hp h hh).not_parked hfree) hfree

end DDAG.Connector.Admission
