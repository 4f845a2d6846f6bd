import DDAG.Lib.Pool
import DDAG.Lib.Trace

/-!
# Loads of the route table and the metadata

`loadRoutes` of `internal/gatewaysvc/service.go`, which the loops `routeRefreshLoop` and
`metadataSyncLoop` call independently.  A load reads the metadata of the database, then
replaces the route table, then the metadata snapshot.  Commits to the database are
counted, and a load reads the version there is.

Nothing orders the loads.  `versions_advance` says that the versions that are installed
never decrease, in every run in which loads that are in progress at the same time have
read the same version.  `slow_load_installs_old_version` is a run in which a slow load
undoes a later one.
-/

namespace DDAG.GatewaySvc

open Machine

/-! ## Loads -/

/-- The version of the database, and those of the tables of the gateway, if any was
loaded. -/
structure Versions where
  committed : Nat
  routes : Option Nat
  metadata : Option Nat
deriving DecidableEq

inductive LoadPhase where
  | start
  /-- Everything is read. -/
  | read (version : Nat)
  /-- The route table is replaced. -/
  | built (version : Nat)
  | done
deriving DecidableEq

inductive LoadAction where
  | read
  /-- `Router.Build`. -/
  | build
  /-- The metadata snapshot is replaced. -/
  | swap
  | fail
deriving DecidableEq

def loadAct (g : Versions) : LoadPhase → LoadAction → Option (Versions × LoadPhase)
  | .start, .read => some (g, .read g.committed)
  | .start, .fail => some (g, .done)
  | .read v, .build => some ({ g with routes := some v }, .built v)
  | .built v, .swap => some ({ g with metadata := some v }, .done)
  | _, _ => none

/-- The gateway, with its loads. -/
abbrev Loads := Pool Versions LoadPhase

inductive LoadEvent where
  | commit
  | load (e : PoolEvent LoadPhase LoadAction)

def isStart : LoadPhase → Bool
  | .start => true
  | _ => false

def loadStep (p : Loads) : LoadEvent → Option Loads
  | .commit => some { p with shared := { p.shared with committed := p.shared.committed + 1 } }
  | .load e => poolStep isStart loadAct p e

def unloaded (version : Nat) : Loads :=
  { shared := { committed := version, routes := none, metadata := none }, threads := [] }

/-! ## What a step does -/

theorem loadAct_cases {g g' : Versions} {h h' : LoadPhase} {x : LoadAction}
    (hact : loadAct g h x = some (g', h')) :
    (x = .read ∧ h = .start ∧ g' = g ∧ h' = .read g.committed) ∨
      (h = .start ∧ g' = g ∧ h' = .done) ∨
      (∃ v, h = .read v ∧ g' = { g with routes := some v } ∧ h' = .built v) ∨
      (∃ v, h = .built v ∧ g' = { g with metadata := some v } ∧ h' = .done) := by
  cases h with
  | start =>
      cases x with
      | read =>
          cases hact
          exact .inl ⟨rfl, rfl, rfl, rfl⟩
      | fail =>
          cases hact
          exact .inr (.inl ⟨rfl, rfl, rfl⟩)
      | build => cases hact
      | swap => cases hact
  | read v =>
      cases x with
      | build =>
          cases hact
          exact .inr (.inr (.inl ⟨v, rfl, rfl, rfl⟩))
      | read => cases hact
      | swap => cases hact
      | fail => cases hact
  | built v =>
      cases x with
      | swap =>
          cases hact
          exact .inr (.inr (.inr ⟨v, rfl, rfl, rfl⟩))
      | read => cases hact
      | build => cases hact
      | fail => cases hact
  | done => cases x <;> cases hact

/-! ## Versions never decrease -/

/-- The version a load has read and not yet installed everywhere. -/
def LoadPhase.pending? : LoadPhase → Option Nat
  | .read v => some v
  | .built v => some v
  | _ => none

/-- A load reads while another one is in progress that has read another version. -/
def Mixes (p : Loads) (e : LoadEvent) : Prop :=
  ∃ i, e = .load (.act i .read) ∧ ∃ h ∈ p.threads, ∃ v, h.pending? = some v ∧ v ≠ p.shared.committed

/-- No version is replaced by an older one or by none. -/
def NotOlder (a b : Option Nat) : Prop := ∀ v, a = some v → ∃ w, b = some w ∧ v ≤ w

theorem NotOlder.refl (a : Option Nat) : NotOlder a a := fun v hv => ⟨v, hv, le_rfl⟩

/-- The versions of both tables do not decrease. -/
def Advances (p p' : Loads) : Prop :=
  NotOlder p.shared.routes p'.shared.routes ∧ NotOlder p.shared.metadata p'.shared.metadata

/-- The version is at most `n`, if there is one. -/
def UpTo (a : Option Nat) (n : Nat) : Prop := ∀ v, a = some v → v ≤ n

theorem UpTo.notOlder {a : Option Nat} {n : Nat} (h : UpTo a n) : NotOlder a (some n) :=
  fun v hv => ⟨n, rfl, h v hv⟩

theorem upTo_some (n : Nat) : UpTo (some n) n := fun _ hv => (Option.some.inj hv).ge

/-- Every load in progress has read the version `u`, and nothing newer is installed. -/
structure OneVersion (p : Loads) (u : Nat) : Prop where
  routes : UpTo p.shared.routes u
  metadata : UpTo p.shared.metadata u
  committed : u ≤ p.shared.committed
  pending : ∀ h ∈ p.threads, ∀ v, h.pending? = some v → v = u

theorem oneVersion_unloaded (version : Nat) : OneVersion (unloaded version) version where
  routes := nofun
  metadata := nofun
  committed := le_rfl
  pending := nofun

section Steps

variable {p p' : Loads} {u : Nat} {i : Nat} {h h' : LoadPhase}

/-- A load that has nothing to install joins, or gives up. -/
theorem OneVersion.of_threads (hp : OneVersion p u) {threads : List LoadPhase}
    (hthreads : ∀ h ∈ threads, h ∈ p.threads ∨ h.pending? = none) :
    OneVersion { p with threads := threads } u := by
  refine ⟨hp.routes, hp.metadata, hp.committed, fun h hh v hv => ?_⟩
  rcases hthreads h hh with hold | hnone
  · exact hp.pending h hold v hv
  · rw [hnone] at hv
    cases hv

theorem OneVersion.join (hp : OneVersion p u) (hnew : isStart h = true) :
    OneVersion { p with threads := p.threads ++ [h] } u := by
  refine hp.of_threads (forall_mem_join (fun _ hold => .inl hold) (.inr ?_))
  cases h with
  | start => rfl
  | read v => cases hnew
  | built v => cases hnew
  | done => cases hnew

theorem OneVersion.stop (hp : OneVersion p u) : OneVersion { p with threads := p.threads.set i .done } u := by
  refine hp.of_threads fun h hh => ?_
  rcases List.mem_or_eq_of_mem_set hh with hold | rfl
  · exact .inl hold
  · exact .inr rfl

/-- A load reads when all loads in progress have read the current version. -/
theorem OneVersion.read (hp : OneVersion p u) (hsame : ¬Mixes p (.load (.act i .read))) :
    OneVersion { p with threads := p.threads.set i (.read p.shared.committed) } p.shared.committed := by
  refine ⟨fun v hv => (hp.routes v hv).trans hp.committed,
    fun v hv => (hp.metadata v hv).trans hp.committed, le_rfl, forall_mem_set ?_ ?_⟩
  · intro h hh v hv
    by_contra hne
    exact hsame ⟨i, rfl, h, hh, v, hv, hne⟩
  · intro v hv
    exact (Option.some.inj hv).symm

theorem OneVersion.build (hp : OneVersion p u) :
    OneVersion { shared := { p.shared with routes := some u }, threads := p.threads.set i (.built u) } u :=
  ⟨upTo_some u, hp.metadata, hp.committed, forall_mem_set hp.pending fun _ hv => (Option.some.inj hv).symm⟩

theorem OneVersion.swap (hp : OneVersion p u) :
    OneVersion { shared := { p.shared with metadata := some u }, threads := p.threads.set i .done } u :=
  ⟨hp.routes, upTo_some u, hp.committed, forall_mem_set hp.pending nofun⟩

/-- A step that mixes no versions keeps one version in progress, and installs no older
one. -/
theorem oneVersion_step {e : LoadEvent} (hp : OneVersion p u) (he : ¬Mixes p e)
    (hs : loadStep p e = some p') : (∃ u', OneVersion p' u') ∧ Advances p p' := by
  have hkeep : ∀ {q : Loads}, q.shared.routes = p.shared.routes →
      q.shared.metadata = p.shared.metadata → Advances p q := by
    intro q hroutes hmetadata
    exact ⟨hroutes ▸ .refl _, hmetadata ▸ .refl _⟩
  cases e with
  | commit =>
      cases hs
      exact ⟨⟨u, hp.routes, hp.metadata, hp.committed.trans (Nat.le_succ _), hp.pending⟩, hkeep rfl rfl⟩
  | load e =>
      rcases poolStep_cases hs with ⟨h, rfl, hnew, rfl⟩ | ⟨i, x, h, g, h', rfl, hh, hact, rfl⟩
      · exact ⟨⟨u, hp.join hnew⟩, hkeep rfl rfl⟩
      have hmem := List.mem_of_getElem? hh
      rcases loadAct_cases hact with ⟨rfl, rfl, rfl, rfl⟩ | ⟨rfl, rfl, rfl⟩ | ⟨v, rfl, rfl, rfl⟩ |
        ⟨v, rfl, rfl, rfl⟩
      · exact ⟨⟨_, hp.read he⟩, hkeep rfl rfl⟩
      · exact ⟨⟨u, hp.stop⟩, hkeep rfl rfl⟩
      · obtain rfl := hp.pending _ hmem v rfl
        exact ⟨⟨v, hp.build⟩, hp.routes.notOlder, .refl _⟩
      · obtain rfl := hp.pending _ hmem v rfl
        exact ⟨⟨v, hp.swap⟩, .refl _, hp.metadata.notOlder⟩

end Steps

/-- From the start of the gateway, and whatever commits and loads there are: if loads in
progress at the same time have read the same version, no installed version decreases. -/
theorem versions_advance (version : Nat) {es : List LoadEvent}
    (h : Each loadStep (fun p e => ¬Mixes p e) (unloaded version) es) :
    Each loadStep (fun p e => ∀ p', loadStep p e = some p' → Advances p p') (unloaded version) es := by
  refine Each.of_invariant (I := fun p => ∃ u, OneVersion p u) ?_ ⟨version, oneVersion_unloaded version⟩ h
  intro p e p' ⟨u, hp⟩ he hs
  obtain ⟨hinv, hadvances⟩ := oneVersion_step hp he hs
  refine ⟨hinv, fun q hq => ?_⟩
  rw [hs] at hq
  cases hq
  exact hadvances

/-- The events of the `i`-th load, from its arrival to its end. -/
def wholeLoad (i : Nat) : List LoadEvent :=
  [.load (.join .start), .load (.act i .read), .load (.act i .build), .load (.act i .swap)]

/-- A load reads, then the metadata changes and is loaded, and then the first load
installs what it read. -/
def slowLoad : List LoadEvent :=
  [.load (.join .start), .load (.act 0 .read), .commit] ++ wholeLoad 1

/-- The slow load installs the old route table and then the old metadata again. -/
theorem slow_load_installs_old_version :
    (runs loadStep (unloaded 1) slowLoad).map (fun p => (p.shared.routes, p.shared.metadata)) =
        some (some 2, some 2) ∧
      (runs loadStep (unloaded 1) (slowLoad ++ [.load (.act 0 .build)])).map (fun p =>
          (p.shared.routes, p.shared.metadata)) = some (some 1, some 2) ∧
      (runs loadStep (unloaded 1) (slowLoad ++ [.load (.act 0 .build), .load (.act 0 .swap)])).map
          (fun p => (p.shared.routes, p.shared.metadata)) = some (some 1, some 1) := by
  decide

/-- Only a read mixes versions, and not while no load is in progress. -/
theorem not_mixes {p : Loads} {e : LoadEvent}
    (h : (∀ i, e ≠ .load (.act i .read)) ∨ ∀ h ∈ p.threads, h.pending? = none) : ¬Mixes p e := by
  rintro ⟨i, rfl, h', hh', v, hv, -⟩
  rcases h with hother | hidle
  · exact hother i rfl
  · rw [hidle h' hh'] at hv
    cases hv

/-- Loads one after the other only advance. -/
theorem loads_in_turn_advance :
    Each loadStep (fun p e => ∀ p', loadStep p e = some p' → Advances p p') (unloaded 1)
      (wholeLoad 0 ++ [.commit] ++ wholeLoad 1) := by
  refine versions_advance 1 ?_
  refine .cons (not_mixes (.inl nofun)) rfl (.cons (not_mixes (.inr (by decide))) rfl
    (.cons (not_mixes (.inl nofun)) rfl (.cons (not_mixes (.inl nofun)) rfl
    (.cons (not_mixes (.inl nofun)) rfl (.cons (not_mixes (.inl nofun)) rfl
    (.cons (not_mixes (.inr (by decide))) rfl (.cons (not_mixes (.inl nofun)) rfl
    (.cons (not_mixes (.inl nofun)) rfl trivial))))))))

end DDAG.GatewaySvc
