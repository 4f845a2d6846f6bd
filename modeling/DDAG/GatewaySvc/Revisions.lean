import DDAG.GatewaySvc.Serving

/-!
# Responses and revisions

The key of a cached response does not name the revision of the API, and neither a publish
nor a reload removes entries.  `answers_of_installed_revision` says that every response is
of the revision that is installed when it is given, in every run in which a new revision is
installed only while nothing of the API is cached or under way.
`old_revision_served` is a run in which a request that arrives after revision 2 is
installed is answered with a result of revision 1.
-/

namespace DDAG.GatewaySvc

open Machine

section Revisions

variable {κ : Type*}

def ReadEvent.installs? : ReadEvent κ → Option Nat
  | .reload n => some n
  | _ => none

/-- The request has its response. -/
def ReadPhase.done : ReadPhase → Bool
  | .answered _ => true
  | .failed => true
  | _ => false

theorem ReadPhase.done_cases {phase : ReadPhase} (h : phase.done = true) :
    phase = .failed ∨ ∃ r, phase = .answered r := by
  cases phase with
  | answered r => exact .inr ⟨r, rfl⟩
  | failed => exact .inl rfl
  | _ => cases h

/-- A response of the API is cached, or a flight or a request for it is under way. -/
def CachedReads.InUse (s : CachedReads κ) : Prop :=
  s.cache ≠ [] ∨ (∃ f ∈ s.calls, f.phase.active = true) ∨ ∃ q ∈ s.reads, q.phase.done = false

/-- The event replaces the revision of an API that is in use. -/
def ReplacesInUse (s : CachedReads κ) (e : ReadEvent κ) : Prop :=
  ∃ n ∈ e.installs?, n ≠ s.installed ∧ s.InUse

def AnswersInstalled (s : CachedReads κ) (e : ReadEvent κ) : Prop :=
  ∀ i q r, e = .read i .answer → s.reads[i]? = some q → q.phase = .ready r → r.revision = s.installed

structure ServesInstalled (s : CachedReads κ) : Prop where
  serves : Serves (· = s.installed) (·.revision = s.installed) [] s
  reads : ∀ q ∈ s.reads, q.phase.Fits (· = s.installed) (·.revision = s.installed) s.calls

theorem servesInstalled_quiet (revision : Nat) : ServesInstalled (quiet κ revision) where
  serves := ⟨fun _ _ hv _ => hv, rfl, nofun, nofun, nofun⟩
  reads := nofun

theorem ServesInstalled.answers {s : CachedReads κ} (h : ServesInstalled s) (e : ReadEvent κ) :
    AnswersInstalled s e := by
  intro i q r _ hq hr
  have hfits := h.reads q (List.mem_of_getElem? hq)
  rwa [hr] at hfits

/-- A revision is installed while nothing is cached or under way. -/
theorem servesInstalled_of_not_inUse {s : CachedReads κ} (h : ¬s.InUse) : ServesInstalled s := by
  have hcache : s.cache = [] := by
    by_contra hne
    exact h (.inl hne)
  have hdone : ∀ q ∈ s.reads, q.phase = .failed ∨ ∃ r, q.phase = .answered r := by
    intro q hq
    refine ReadPhase.done_cases (Bool.of_not_eq_false fun hopen => ?_)
    exact h (.inr (.inr ⟨q, hq, hopen⟩))
  refine ⟨⟨fun _ _ hv _ => hv, rfl, ?_, ?_, ?_⟩, ?_⟩
  · rw [hcache]
    exact nofun
  · intro f hf hactive
    exact absurd (.inr (.inl ⟨f, hf, hactive⟩)) h
  · intro q hq v hv
    rcases hdone q hq with hphase | ⟨r, hphase⟩
    · rw [hphase] at hv
      cases hv
    · rw [hphase] at hv
      cases hv
  · intro q hq
    rcases hdone q hq with hphase | ⟨r, hphase⟩
    · rw [hphase]
      trivial
    · rw [hphase]
      trivial

variable [DecidableEq κ] {s s' : CachedReads κ} {e : ReadEvent κ}

instance (s : CachedReads κ) : Decidable s.InUse := inferInstanceAs (Decidable (_ ∨ _ ∨ _))

instance (s : CachedReads κ) (e : ReadEvent κ) : Decidable (ReplacesInUse s e) :=
  inferInstanceAs (Decidable (∃ n ∈ e.installs?, _))

/-- Nothing but a reload installs a revision. -/
theorem installed_step (hs : readStep s e = some s') : s'.installed = e.installs?.getD s.installed := by
  cases readSteps_of_readStep hs with
  | reload => rfl
  | publish => rfl
  | expire k => rfl
  | arrive k => rfl
  | read hq hacts => rfl
  | call hf hacts => rfl
  | startPurge => rfl
  | del j ks => rfl
  | returnPurge hp hnil => rfl

theorem ServesInstalled.step_of_installed_eq (h : ServesInstalled s) (hs : readStep s e = some s')
    (heq : s'.installed = s.installed) : ServesInstalled s' := by
  have hreload : ∀ n, e = .reload n → n = s.installed := by
    rintro n rfl
    rw [installed_step hs] at heq
    exact heq
  constructor
  · rw [heq]
    exact h.serves.step hs hreload
  · intro q' hq'
    rw [heq]
    rcases mem_reads_step hs hq' with ⟨-, hphase⟩ | ⟨q, hq, -, hkeep⟩
    · rw [hphase]
      exact rfl
    · exact hkeep _ _ h.serves (h.reads q hq)

/-- A step that replaces no revision in use. -/
theorem ServesInstalled.step (h : ServesInstalled s) (he : ¬ReplacesInUse s e)
    (hs : readStep s e = some s') : ServesInstalled s' := by
  by_cases heq : s'.installed = s.installed
  · exact h.step_of_installed_eq hs heq
  have hinstalled := installed_step hs
  cases readSteps_of_readStep hs with
  | reload => exact servesInstalled_of_not_inUse fun huse => he ⟨_, rfl, heq, huse⟩
  | _ => exact absurd hinstalled heq

/-- From the start of the gateway, and whatever publishes, reloads, requests and purges
there are: if no revision is replaced while the API is in use, every response is of the
revision that is installed when it is given. -/
theorem answers_of_installed_revision (revision : Nat) {es : List (ReadEvent κ)}
    (h : Each readStep (fun s e => ¬ReplacesInUse s e) (quiet κ revision) es) :
    Each readStep AnswersInstalled (quiet κ revision) es := by
  refine Each.of_invariant ?_ (servesInstalled_quiet revision) h
  intro s e s' hinv he hs
  exact ⟨hinv.step he hs, hinv.answers e⟩

/-- The events of the `i`-th request, which leads the `c`-th flight, until its result is
there. -/
def leadingRead (i c : Nat) (k : κ) : List (ReadEvent κ) :=
  [.arrive k, .read i .lookup, .read i .join, .call c .query, .call c .store, .call c .finish,
    .read i .receive]

end Revisions

/-- A response of revision 1 is cached, revision 2 is published and installed, and then a
request for the same key arrives. -/
def revisedWhileCached : List (ReadEvent Nat) :=
  leadingRead 0 0 7 ++ [.read 0 .answer, .publish, .reload 2, .arrive 7, .read 1 .lookup]

/-- The request that arrives under revision 2 is answered with the result of revision 1. -/
theorem old_revision_served :
    (runs readStep (quiet Nat 1) revisedWhileCached).map (fun s => (s.installed, s.reads.map (·.phase))) =
        some (2, [.answered ⟨1, 0⟩, .ready ⟨1, 0⟩]) ∧
      ¬Each readStep AnswersInstalled (quiet Nat 1) (revisedWhileCached ++ [.read 1 .answer]) := by
  refine ⟨by decide, fun h => ?_⟩
  have hrevision := h.last rfl rfl 1 _ ⟨1, 0⟩ rfl rfl rfl
  revert hrevision
  decide

/-- With the entry expired before the reload both requests are answered with the installed
revision. -/
theorem expired_before_reload :
    Each readStep AnswersInstalled (quiet Nat 1)
      (leadingRead 0 0 7 ++ [.read 0 .answer, .expire 7, .publish, .reload 2] ++ leadingRead 1 1 7 ++
        [.read 1 .answer]) :=
  answers_of_installed_revision 1 (by decide)

end DDAG.GatewaySvc
