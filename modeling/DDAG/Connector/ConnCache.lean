import DDAG.Lib.Pool
import DDAG.Lib.Trace
import DDAG.Store.Connections
import Mathlib.Data.List.Infix

/-!
# Resolved connections

`connCache` of `internal/connector/conncache.go`: what a connection resolves to is remembered for
a while.  A call of `Resolve` reads the entry under the lock and looks at the clock outside of it.
If there is no valid entry, it calls `singleflight.Group.Do`: it shares the call of its key that
runs, or runs the function itself.  The function loads the connection and installs the result in a
second section.  Any number of calls run in any interleaving, with any answers of the stores.

A load is a run of that function.  It finishes when it installs its result, or with an error.  The
state has a list of the loads that succeeded, and every call keeps the length the list had at its
first section: loads behind that place finished during the call.

* `resolved_fresh`: what a call returns is from a load of its id that was recent or finished during
  the call; entries are results of loads; one load runs per id; a failed load leaves the entries
  alone.
-/

namespace DDAG.Connector

open Machine
open Secret (UUID)
open Store (DatabaseConnection)

/-! ## Loading -/

structure PoolConfig where
  connectionID : Text
  databaseType : Text
  host : Text
  port : Int
  database : Text
  serviceName : Text
  schema : Text
  username : Text
  password : Text
  sslMode : Text
  minPool : Int
  maxPool : Int
  connectTimeout : Int
  queryTimeout : Int
  maxConnLifetime : Int
  maxConnIdle : Int
deriving DecidableEq

structure ResolvedConn where
  cfg : PoolConfig
  version : Int
  dbType : Text
  status : Text
  name : Text
  idStr : Text
deriving DecidableEq

/-- The errors of `load`, with the error they wrap. -/
inductive LoadError where
  | connNotFound (err : Text)
  | resolveSecret (err : Text)
deriving DecidableEq

/-- In nanoseconds. -/
def msDur (ms default : Int) : Int := (if ms ≤ 0 then default else ms) * 1000000

structure Backends where
  getConnection : UUID → Except Text DatabaseConnection
  getSecret : UUID → Except Text Text

def resolvedConn (conn : DatabaseConnection) (password : Text) : ResolvedConn where
  cfg :=
    { connectionID := conn.id.text
      databaseType := conn.databaseType
      host := conn.host
      port := conn.port
      database := conn.databaseName
      serviceName := conn.serviceName
      schema := conn.schemaName
      username := conn.username
      password := password
      sslMode := conn.sslMode
      minPool := conn.minPoolSize
      maxPool := conn.maxPoolSize
      connectTimeout := msDur conn.connectionTimeoutMS 5000
      queryTimeout := msDur conn.queryTimeoutMS 30000
      maxConnLifetime := msDur conn.maxConnLifetimeMS 3600000
      maxConnIdle := msDur conn.maxConnIdleMS 1800000 }
  version := conn.configVersion
  dbType := conn.databaseType
  status := conn.status
  name := conn.name
  idStr := conn.id.text

def load (b : Backends) (connID : UUID) : Except LoadError ResolvedConn := do
  let conn ← (b.getConnection connID).mapError .connNotFound
  let password ←
    match conn.secretRef with
    | none => pure []
    | some ref => (b.getSecret ref).mapError .resolveSecret
  pure (resolvedConn conn password)

/-! ## The cache -/

structure CacheEntry where
  rc : ResolvedConn
  expiresAt : Int
deriving DecidableEq

/-- A call in the group of `singleflight`, with the result once the function has returned. -/
structure GroupCall where
  key : UUID
  result : Option (Except LoadError ResolvedConn)

/-- A load that succeeded, with the time it installed its result. -/
structure FinishedLoad where
  connID : UUID
  backends : Backends
  finished : Int

/-- The load was for the id, and gave this result. -/
structure FinishedLoad.Gives (l : FinishedLoad) (connID : UUID) (rc : ResolvedConn) : Prop where
  id : l.connID = connID
  result : load l.backends l.connID = .ok rc

/-- The entries, the group, the clock, and the loads that succeeded. -/
structure ConnCache where
  ttl : Int
  m : UUID → Option CacheEntry := fun _ => none
  /-- The calls of the group that run. -/
  sf : UUID → Option Nat := fun _ => none
  calls : List GroupCall := []
  now : Int := 0
  loads : List FinishedLoad := []

/-- 15 seconds by default. -/
def newConnCache (ttl : Int) : ConnCache where
  ttl := if ttl ≤ 0 then 15000000000 else ttl

inductive ResolvePhase where
  | start
  /-- The entry is read. -/
  | checking (entry : Option CacheEntry) (since : Nat)
  | missed (since : Nat)
  /-- The call runs the function of the group. -/
  | loading (since flight : Nat)
  | installing (since flight : Nat) (backends : Backends) (rc : ResolvedConn)
  /-- The call waits for the function that another one runs. -/
  | joined (since flight : Nat)
  | returned (since : Nat) (t : Int) (result : Except LoadError ResolvedConn)

structure ResolveCall where
  connID : UUID
  phase : ResolvePhase

/-- The next step of a call, at a time.  The stores matter for a call that loads. -/
structure ResolveAction where
  t : Int
  backends : Backends

def ConnCache.tick (c : ConnCache) (t : Int) : ConnCache := { c with now := t }

/-- A call that finds no call of its key in the group. -/
def ConnCache.lead (c : ConnCache) (key : UUID) : ConnCache :=
  { c with
    sf := Function.update c.sf key (some c.calls.length)
    calls := c.calls ++ [{ key := key, result := none }] }

/-- The function has returned: the key is free, and the result is there for all callers. -/
def ConnCache.finish (c : ConnCache) (key : UUID) (flight : Nat) (result : Except LoadError ResolvedConn) :
    ConnCache :=
  { c with
    sf := Function.update c.sf key none
    calls := c.calls.set flight { key := key, result := some result } }

/-- The section that installs a result. -/
def ConnCache.install (c : ConnCache) (key : UUID) (backends : Backends) (rc : ResolvedConn) : ConnCache :=
  { c with
    m := Function.update c.m key (some { rc := rc, expiresAt := c.now + c.ttl })
    loads := c.loads ++ [{ connID := key, backends := backends, finished := c.now }] }

/-- The phase after the look at the clock. -/
def checkEntry (entry : Option CacheEntry) (since : Nat) (t : Int) : ResolvePhase :=
  match entry with
  | some e => if t < e.expiresAt then .returned since t (.ok e.rc) else .missed since
  | none => .missed since

/-- The next step of a call, at a time that does not go back. -/
def resolveAct (c : ConnCache) (call : ResolveCall) (a : ResolveAction) : Option (ConnCache × ResolveCall) :=
  if a.t < c.now then none
  else
    let c := c.tick a.t
    let key := call.connID
    match call.phase with
    | .start => some (c, ⟨key, .checking (c.m key) c.loads.length⟩)
    | .checking entry since => some (c, ⟨key, checkEntry entry since a.t⟩)
    | .missed since =>
        match c.sf key with
        | none => some (c.lead key, ⟨key, .loading since c.calls.length⟩)
        | some flight => some (c, ⟨key, .joined since flight⟩)
    | .loading since flight =>
        match load a.backends key with
        | .error err => some (c.finish key flight (.error err), ⟨key, .returned since a.t (.error err)⟩)
        | .ok rc => some (c, ⟨key, .installing since flight a.backends rc⟩)
    | .installing since flight backends rc =>
        some ((c.install key backends rc).finish key flight (.ok rc), ⟨key, .returned since a.t (.ok rc)⟩)
    | .joined since flight =>
        match c.calls[flight]? with
        | some ⟨_, some result⟩ => some (c, ⟨key, .returned since a.t result⟩)
        | _ => none
    | .returned _ _ _ => none

def ResolveCall.isNew (call : ResolveCall) : Bool :=
  match call.phase with
  | .start => true
  | _ => false

abbrev ResolveCalls := Pool ConnCache ResolveCall

def resolveStep (p : ResolveCalls) (e : PoolEvent ResolveCall ResolveAction) : Option ResolveCalls :=
  poolStep ResolveCall.isNew resolveAct p e

/-- The call of the group whose function a call of `Resolve` runs. -/
def ResolvePhase.runs : ResolvePhase → Option Nat
  | .loading _ flight => some flight
  | .installing _ flight _ _ => some flight
  | _ => none

/-! ## What is returned -/

/-- A result is from a load of the id that finished less than the time to live before, or during the
call. -/
def Fresh (c : ConnCache) (connID : UUID) (since : Nat) (t : Int) (rc : ResolvedConn) : Prop :=
  ∃ l ∈ c.loads, l.Gives connID rc ∧ ((l.finished ≤ t ∧ t < l.finished + c.ttl) ∨ l ∈ c.loads.drop since)

/-- An entry is the result of a load of its id, and is valid from then on. -/
def Backed (c : ConnCache) (connID : UUID) (e : CacheEntry) : Prop :=
  ∃ l ∈ c.loads, l.Gives connID e.rc ∧ l.finished ≤ c.now ∧ e.expiresAt = l.finished + c.ttl

/-- What a call of `Resolve` knows. -/
def ResolvePhase.Sound (c : ConnCache) (connID : UUID) : ResolvePhase → Prop
  | .start => True
  | .checking entry since => since ≤ c.loads.length ∧ ∀ e, entry = some e → Backed c connID e
  | .missed since => since ≤ c.loads.length
  | .loading since _ => since ≤ c.loads.length
  | .installing since _ backends rc => since ≤ c.loads.length ∧ load backends connID = .ok rc
  | .joined since flight => since ≤ c.loads.length ∧ ∃ result, c.calls[flight]? = some ⟨connID, result⟩ ∧
      ∀ rc, result = some (.ok rc) → ∃ l ∈ c.loads.drop since, l.Gives connID rc
  | .returned since t result => ∀ rc, result = .ok rc → Fresh c connID since t rc

/-! ## What a step does -/

/-- The steps of a call, at the time of the clock. -/
inductive ResolveActs (c : ConnCache) (connID : UUID) (b : Backends) :
    ResolvePhase → ConnCache → ResolvePhase → Prop
  | read : ResolveActs c connID b .start c (.checking (c.m connID) c.loads.length)
  | hit {e : CacheEntry} {since : Nat} (hvalid : c.now < e.expiresAt) :
      ResolveActs c connID b (.checking (some e) since) c (.returned since c.now (.ok e.rc))
  | miss {entry : Option CacheEntry} {since : Nat} (hexpired : ∀ e, entry = some e → e.expiresAt ≤ c.now) :
      ResolveActs c connID b (.checking entry since) c (.missed since)
  | lead {since : Nat} (hfree : c.sf connID = none) :
      ResolveActs c connID b (.missed since) (c.lead connID) (.loading since c.calls.length)
  | join {since flight : Nat} (hruns : c.sf connID = some flight) :
      ResolveActs c connID b (.missed since) c (.joined since flight)
  | fail {since flight : Nat} {err : LoadError} (hload : load b connID = .error err) :
      ResolveActs c connID b (.loading since flight) (c.finish connID flight (.error err))
        (.returned since c.now (.error err))
  | load {since flight : Nat} {rc : ResolvedConn} (hload : load b connID = .ok rc) :
      ResolveActs c connID b (.loading since flight) c (.installing since flight b rc)
  | install {since flight : Nat} {backends : Backends} {rc : ResolvedConn} :
      ResolveActs c connID b (.installing since flight backends rc)
        ((c.install connID backends rc).finish connID flight (.ok rc)) (.returned since c.now (.ok rc))
  | receive {since flight : Nat} {key : UUID} {result : Except LoadError ResolvedConn}
      (hcall : c.calls[flight]? = some ⟨key, some result⟩) :
      ResolveActs c connID b (.joined since flight) c (.returned since c.now result)

theorem resolveActs_checkEntry {c : ConnCache} {connID : UUID} {b : Backends} (entry : Option CacheEntry)
    (since : Nat) : ResolveActs c connID b (.checking entry since) c (checkEntry entry since c.now) := by
  unfold checkEntry
  split
  next e =>
    split
    next hvalid => exact .hit hvalid
    next hexpired =>
      refine .miss fun e' he => ?_
      cases he
      exact Int.not_lt.mp hexpired
  next => exact .miss fun e he => by cases he

theorem resolveActs_of_resolveAct {c c' : ConnCache} {call call' : ResolveCall} {a : ResolveAction}
    (h : resolveAct c call a = some (c', call')) :
    c.now ≤ a.t ∧ call'.connID = call.connID ∧
      ResolveActs (c.tick a.t) call.connID a.backends call.phase c' call'.phase := by
  unfold resolveAct at h
  split at h
  next _ => cases h
  next ht =>
    refine ⟨Int.not_lt.mp ht, ?_⟩
    dsimp only at h
    split at h
    next hphase =>
      cases h
      rw [hphase]
      exact ⟨rfl, .read⟩
    next hphase =>
      cases h
      rw [hphase]
      exact ⟨rfl, resolveActs_checkEntry _ _⟩
    next hphase =>
      rw [hphase]
      split at h
      next hfree =>
        cases h
        exact ⟨rfl, .lead hfree⟩
      next hruns =>
        cases h
        exact ⟨rfl, .join hruns⟩
    next hphase =>
      rw [hphase]
      split at h
      next hload =>
        cases h
        exact ⟨rfl, .fail hload⟩
      next hload =>
        cases h
        exact ⟨rfl, .load hload⟩
    next hphase =>
      cases h
      rw [hphase]
      exact ⟨rfl, .install⟩
    next hphase =>
      rw [hphase]
      split at h
      next hcall =>
        cases h
        exact ⟨rfl, .receive hcall⟩
      next _ => cases h
    next _ => cases h

/-! ## What stays -/

section Extends

/-- Loads are only added, and a call of the group gets the result of a load that is added. -/
structure ConnCache.Extends (c c' : ConnCache) : Prop where
  ttl : c'.ttl = c.ttl
  now : c.now ≤ c'.now
  loads : c.loads <+: c'.loads
  calls : ∀ (n : Nat) key result, c.calls[n]? = some ⟨key, result⟩ →
    ∃ result', c'.calls[n]? = some ⟨key, result'⟩ ∧
      (result' = result ∨ ∀ rc, result' = some (.ok rc) → ∃ l ∈ c'.loads.drop c.loads.length, l.Gives key rc)

variable {c c' : ConnCache} {connID : UUID}

theorem ConnCache.extends_tick {t : Int} (ht : c.now ≤ t) : c.Extends (c.tick t) where
  ttl := rfl
  now := ht
  loads := List.prefix_rfl
  calls _ _ result hcall := ⟨result, hcall, .inl rfl⟩

theorem ConnCache.extends_lead (c : ConnCache) (key : UUID) : c.Extends (c.lead key) where
  ttl := rfl
  now := Int.le_refl _
  loads := List.prefix_rfl
  calls n _ result hcall := by
    obtain ⟨hlt, -⟩ := List.getElem?_eq_some_iff.mp hcall
    exact ⟨result, (List.getElem?_append_left hlt).trans hcall, .inl rfl⟩

/-- The function of a call of the group returns, and has added the loads it succeeded with. -/
theorem ConnCache.extends_finish (c c' : ConnCache) (httl : c'.ttl = c.ttl) (hnow : c.now ≤ c'.now)
    (hloads : c.loads <+: c'.loads) (hcalls : c'.calls = c.calls) {flight : Nat} (hrunning : c.calls[flight]? = some ⟨connID, none⟩)
    {result : Except LoadError ResolvedConn}
    (hresult : ∀ rc, result = .ok rc → ∃ l ∈ c'.loads.drop c.loads.length, l.Gives connID rc) :
    c.Extends (c'.finish connID flight result) where
  ttl := httl
  now := hnow
  loads := hloads
  calls n key r hcall := by
    show ∃ r', (c'.calls.set flight _)[n]? = _ ∧ _
    rw [hcalls]
    by_cases hn : flight = n
    · subst hn
      rw [hrunning] at hcall
      cases hcall
      obtain ⟨hlt, -⟩ := List.getElem?_eq_some_iff.mp hrunning
      refine ⟨some result, List.getElem?_set_self hlt, .inr fun rc hrc => hresult rc ?_⟩
      exact Option.some.inj hrc
    · exact ⟨r, (List.getElem?_set_ne hn).trans hcall, .inl rfl⟩

theorem Backed.extend (hext : c.Extends c') {e : CacheEntry} (h : Backed c connID e) : Backed c' connID e := by
  obtain ⟨l, hl, hgives, hfinished, hexpires⟩ := h
  exact ⟨l, hext.loads.subset hl, hgives, Int.le_trans hfinished hext.now, by rw [hexpires, hext.ttl]⟩

theorem Fresh.extend (hext : c.Extends c') {since : Nat} {t : Int} {rc : ResolvedConn}
    (h : Fresh c connID since t rc) : Fresh c' connID since t rc := by
  obtain ⟨l, hl, hgives, hrecent⟩ := h
  refine ⟨l, hext.loads.subset hl, hgives, ?_⟩
  rw [hext.ttl]
  exact hrecent.imp_right fun hduring => (hext.loads.drop since).subset hduring

/-- What a call knows stays true. -/
theorem ResolvePhase.Sound.extend (hext : c.Extends c') {phase : ResolvePhase} (h : phase.Sound c connID) :
    phase.Sound c' connID := by
  have hlength := hext.loads.length_le
  cases phase with
  | start => trivial
  | checking entry since => exact ⟨Nat.le_trans h.1 hlength, fun e he => (h.2 e he).extend hext⟩
  | missed since => exact Nat.le_trans h hlength
  | loading since flight => exact Nat.le_trans h hlength
  | installing since flight backends rc => exact ⟨Nat.le_trans h.1 hlength, h.2⟩
  | joined since flight =>
      obtain ⟨hsince, result, hcall, hresult⟩ := h
      obtain ⟨result', hcall', hnew⟩ := hext.calls flight connID result hcall
      refine ⟨Nat.le_trans hsince hlength, result', hcall', fun rc hrc => ?_⟩
      rcases hnew with rfl | hnew
      · obtain ⟨l, hl, hgives⟩ := hresult rc hrc
        exact ⟨l, (hext.loads.drop since).subset hl, hgives⟩
      · obtain ⟨l, hl, hgives⟩ := hnew rc hrc
        exact ⟨l, List.drop_subset_drop_left _ hsince hl, hgives⟩
  | returned since t result => exact fun rc hrc => (h rc hrc).extend hext

end Extends

/-! ## The group -/

/-- The key of a call that runs is taken, by the one call of `Resolve` that runs its function. -/
structure GroupInv (p : ResolveCalls) : Prop where
  running : ∀ key n, p.shared.sf key = some n → p.shared.calls[n]? = some ⟨key, none⟩
  leads : ∀ (i : Nat) call n, p.threads[i]? = some call → call.phase.runs = some n →
    p.shared.sf call.connID = some n
  unique : ∀ (i j : Nat) call call' n, p.threads[i]? = some call → p.threads[j]? = some call' →
    call.phase.runs = some n → call'.phase.runs = some n → i = j

/-- A call that runs a function has the key, a call that begins one takes it, and one that has
returned leaves it. -/
theorem ResolveActs.group {c c' : ConnCache} {connID : UUID} {b : Backends} {phase phase' : ResolvePhase}
    (h : ResolveActs c connID b phase c' phase') :
    (c'.sf = c.sf ∧ c'.calls = c.calls ∧ ∀ n, phase'.runs = some n → phase.runs = some n) ∨
    (c.sf connID = none ∧ c' = c.lead connID ∧ phase'.runs = some c.calls.length) ∨
    ∃ flight result, phase.runs = some flight ∧ c'.sf = Function.update c.sf connID none ∧
      c'.calls = c.calls.set flight ⟨connID, some result⟩ ∧ phase'.runs = none := by
  cases h with
  | lead hfree => exact .inr (.inl ⟨hfree, rfl, rfl⟩)
  | fail hload => exact .inr (.inr ⟨_, _, rfl, rfl, rfl, rfl⟩)
  | install => exact .inr (.inr ⟨_, _, rfl, rfl, rfl, rfl⟩)
  | load hload => exact .inl ⟨rfl, rfl, fun n hn => hn⟩
  | _ => exact .inl ⟨rfl, rfl, fun n hn => by cases hn⟩

section Group

variable {p : ResolveCalls}

theorem ResolveCall.phase_of_isNew {call : ResolveCall} (h : call.isNew = true) : call.phase = .start := by
  unfold ResolveCall.isNew at h
  split at h
  next hphase => exact hphase
  next _ => cases h

theorem groupInv_join (h : GroupInv p) {call : ResolveCall} (hnew : call.isNew = true) :
    GroupInv { p with threads := p.threads ++ [call] } := by
  have hruns : call.phase.runs = none := by
    rw [ResolveCall.phase_of_isNew hnew]
    rfl
  have hold : ∀ {i : Nat} {u : ResolveCall} {n : Nat}, (p.threads ++ [call])[i]? = some u →
      u.phase.runs = some n → p.threads[i]? = some u := by
    intro i u n hu hn
    rcases getElem?_append_cases hu with ⟨-, rfl⟩ | hu
    · rw [hruns] at hn
      cases hn
    · exact hu
  refine ⟨h.running, fun i u n hu hn => ?_, fun i j u v n hu hv hun hvn => ?_⟩
  · exact h.leads i u n (hold hu hn) hn
  · exact h.unique i j u v n (hold hu hun) (hold hv hvn) hun hvn

variable {i : Nat} {call : ResolveCall} {phase' : ResolvePhase} {c' : ConnCache}

theorem GroupInv.ne_free (h : GroupInv p) {j : Nat} {u : ResolveCall} {n : Nat} (hu : p.threads[j]? = some u)
    (hn : u.phase.runs = some n) {key : UUID} (hfree : p.shared.sf key = none) : u.connID ≠ key := by
  rintro rfl
  rw [h.leads j u n hu hn] at hfree
  cases hfree

/-- Two calls of one id do not run functions. -/
theorem GroupInv.eq_of_runs (h : GroupInv p) {i j n n' : Nat} {u v : ResolveCall}
    (hu : p.threads[i]? = some u) (hv : p.threads[j]? = some v) (hun : u.phase.runs = some n)
    (hvn : v.phase.runs = some n') (hid : u.connID = v.connID) : i = j := by
  have hsf := h.leads j v n' hv hvn
  rw [← hid, h.leads i u n hu hun] at hsf
  cases hsf
  exact h.unique i j u v n hu hv hun hvn

theorem GroupInv.quiet (h : GroupInv p) (hcall : p.threads[i]? = some call) (hsf : c'.sf = p.shared.sf)
    (hcalls : c'.calls = p.shared.calls) (hruns : ∀ n, phase'.runs = some n → call.phase.runs = some n) :
    GroupInv { shared := c', threads := p.threads.set i ⟨call.connID, phase'⟩ } := by
  have hold : ∀ {j : Nat} {u : ResolveCall} {n : Nat},
      (p.threads.set i ⟨call.connID, phase'⟩)[j]? = some u → u.phase.runs = some n →
        ∃ v, p.threads[j]? = some v ∧ v.connID = u.connID ∧ v.phase.runs = some n := by
    intro j u n hu hn
    rcases getElem?_set_cases hu with ⟨rfl, rfl⟩ | ⟨-, hu⟩
    · exact ⟨call, hcall, rfl, hruns n hn⟩
    · exact ⟨u, hu, rfl, hn⟩
  refine ⟨fun key n hn => ?_, fun j u n hu hn => ?_, fun j k u v n hu hv hun hvn => ?_⟩
  · show c'.calls[n]? = some ⟨key, none⟩
    rw [hcalls]
    exact h.running key n (by rw [← hsf]; exact hn)
  · obtain ⟨u', hu', hid, hn'⟩ := hold hu hn
    show c'.sf u.connID = some n
    rw [hsf, ← hid]
    exact h.leads j u' n hu' hn'
  · obtain ⟨u', hu', -, hun'⟩ := hold hu hun
    obtain ⟨v', hv', -, hvn'⟩ := hold hv hvn
    exact h.unique j k u' v' n hu' hv' hun' hvn'

/-- A call takes the free key of its id, with a new number. -/
theorem GroupInv.lead (h : GroupInv p) (hfree : p.shared.sf call.connID = none)
    (hruns : phase'.runs = some p.shared.calls.length) :
    GroupInv { shared := p.shared.lead call.connID, threads := p.threads.set i ⟨call.connID, phase'⟩ } := by
  have hlt : ∀ {j : Nat} {u : ResolveCall} {n : Nat}, p.threads[j]? = some u → u.phase.runs = some n →
      n < p.shared.calls.length := by
    intro j u n hu hn
    exact (List.getElem?_eq_some_iff.mp (h.running _ n (h.leads j u n hu hn))).1
  have hcases : ∀ {j : Nat} {u : ResolveCall} {n : Nat},
      (p.threads.set i ⟨call.connID, phase'⟩)[j]? = some u → u.phase.runs = some n →
        (j = i ∧ u.connID = call.connID ∧ n = p.shared.calls.length) ∨ p.threads[j]? = some u := by
    intro j u n hu hn
    rcases getElem?_set_cases hu with ⟨rfl, rfl⟩ | ⟨-, hu⟩
    · exact .inl ⟨rfl, rfl, Option.some.inj (hn.symm.trans hruns)⟩
    · exact .inr hu
  refine ⟨fun key n hn => ?_, fun j u n hu hn => ?_, fun j k u v n hu hv hun hvn => ?_⟩
  · show (p.shared.calls ++ [_])[n]? = some ⟨key, none⟩
    by_cases hkey : key = call.connID
    · subst hkey
      rw [show (p.shared.lead call.connID).sf call.connID = some p.shared.calls.length from
        Function.update_self ..] at hn
      cases hn
      exact List.getElem?_concat_length ..
    · have hrunning := h.running key n ((Function.update_of_ne hkey ..).symm.trans hn)
      obtain ⟨hlength, -⟩ := List.getElem?_eq_some_iff.mp hrunning
      exact (List.getElem?_append_left hlength).trans hrunning
  · rcases hcases hu hn with ⟨-, hid, rfl⟩ | hu
    · rw [hid]
      exact Function.update_self ..
    · exact (Function.update_of_ne (h.ne_free hu hn hfree) ..).trans (h.leads j u n hu hn)
  · rcases hcases hu hun with ⟨rfl, -, rfl⟩ | hu
    · rcases hcases hv hvn with ⟨rfl, -, -⟩ | hv
      · rfl
      · exact absurd (hlt hv hvn) (Nat.lt_irrefl _)
    · rcases hcases hv hvn with ⟨-, -, rfl⟩ | hv
      · exact absurd (hlt hu hun) (Nat.lt_irrefl _)
      · exact h.unique j k u v n hu hv hun hvn

/-- The function of a call returns. -/
theorem GroupInv.finish (h : GroupInv p) (hcall : p.threads[i]? = some call) {flight : Nat}
    (hflight : call.phase.runs = some flight) {result : Except LoadError ResolvedConn}
    (hsf : c'.sf = Function.update p.shared.sf call.connID none)
    (hcalls : c'.calls = p.shared.calls.set flight ⟨call.connID, some result⟩) (hruns : phase'.runs = none) :
    GroupInv { shared := c', threads := p.threads.set i ⟨call.connID, phase'⟩ } := by
  have hold : ∀ {j : Nat} {u : ResolveCall} {n : Nat},
      (p.threads.set i ⟨call.connID, phase'⟩)[j]? = some u → u.phase.runs = some n →
        j ≠ i ∧ p.threads[j]? = some u := by
    intro j u n hu hn
    rcases getElem?_set_cases hu with ⟨rfl, rfl⟩ | hu
    · rw [hruns] at hn
      cases hn
    · exact hu
  refine ⟨fun key n hn => ?_, fun j u n hu hn => ?_, fun j k u v n hu hv hun hvn => ?_⟩
  · show c'.calls[n]? = some ⟨key, none⟩
    have hsf' : c'.sf key = some n := hn
    rw [hsf] at hsf'
    by_cases hkey : key = call.connID
    · subst hkey
      rw [Function.update_self] at hsf'
      cases hsf'
    · rw [Function.update_of_ne hkey] at hsf'
      have hrunning := h.running key n hsf'
      -- the number belongs to one key
      have hne : flight ≠ n := by
        rintro rfl
        rw [h.running _ _ (h.leads i call flight hcall hflight)] at hrunning
        cases hrunning
        exact hkey rfl
      rw [hcalls]
      exact (List.getElem?_set_ne hne).trans hrunning
  · obtain ⟨hne, hu⟩ := hold hu hn
    show c'.sf u.connID = some n
    have hid : u.connID ≠ call.connID := fun hid => hne (h.eq_of_runs hu hcall hn hflight hid)
    rw [hsf, Function.update_of_ne hid]
    exact h.leads j u n hu hn
  · exact h.unique j k u v n (hold hu hun).2 (hold hv hvn).2 hun hvn

theorem GroupInv.act {b : Backends} (h : GroupInv p) (hcall : p.threads[i]? = some call)
    (hacts : ResolveActs p.shared call.connID b call.phase c' phase') :
    GroupInv { shared := c', threads := p.threads.set i ⟨call.connID, phase'⟩ } := by
  rcases hacts.group with ⟨hsf, hcalls, hruns⟩ | ⟨hfree, rfl, hruns⟩ |
    ⟨flight, result, hflight, hsf, hcalls, hruns⟩
  · exact h.quiet hcall hsf hcalls hruns
  · exact h.lead hfree hruns
  · exact h.finish hcall hflight hsf hcalls hruns

end Group

/-! ## Runs -/

/-- Entries are backed by loads, and every call is right about what it knows. -/
structure CacheInv (p : ResolveCalls) : Prop where
  group : GroupInv p
  entries : ∀ key e, p.shared.m key = some e → Backed p.shared key e
  sound : ∀ call ∈ p.threads, call.phase.Sound p.shared call.connID

section Runs

variable {p p' : ResolveCalls}

theorem cacheInv_new (ttl : Int) : CacheInv { shared := newConnCache ttl, threads := [] } where
  group := ⟨fun _ _ h => (by cases h), fun _ _ _ h => (by cases h), fun _ _ _ _ _ h => (by cases h)⟩
  entries _ _ h := by cases h
  sound _ h := by cases h

theorem CacheInv.join (h : CacheInv p) {call : ResolveCall} (hnew : call.isNew = true) :
    CacheInv { p with threads := p.threads ++ [call] } where
  group := groupInv_join h.group hnew
  entries := h.entries
  sound := by
    refine forall_mem_join h.sound ?_
    rw [ResolveCall.phase_of_isNew hnew]
    trivial

theorem CacheInv.tick (h : CacheInv p) {t : Int} (ht : p.shared.now ≤ t) :
    CacheInv { p with shared := p.shared.tick t } where
  group := ⟨h.group.running, h.group.leads, h.group.unique⟩
  entries key e he := (h.entries key e he).extend (ConnCache.extends_tick ht)
  sound call hcall := (h.sound call hcall).extend (ConnCache.extends_tick ht)

variable {i : Nat} {call : ResolveCall} {b : Backends} {c' : ConnCache} {phase' : ResolvePhase}

theorem gives_install {c : ConnCache} {connID : UUID} {backends : Backends} {rc : ResolvedConn}
    (hload : load backends connID = .ok rc) :
    ∃ l ∈ (c.install connID backends rc).loads.drop c.loads.length,
      l.Gives connID rc ∧ l.finished = c.now := by
  let l : FinishedLoad := { connID := connID, backends := backends, finished := c.now }
  have hl : l ∈ (c.install connID backends rc).loads.drop c.loads.length := by simp [ConnCache.install, l]
  exact ⟨l, hl, ⟨rfl, hload⟩, rfl⟩

theorem CacheInv.extends_act (h : CacheInv p) (hcall : p.threads[i]? = some call)
    (hacts : ResolveActs p.shared call.connID b call.phase c' phase') : p.shared.Extends c' := by
  have hsound := h.sound call (List.mem_of_getElem? hcall)
  have hrunning := fun n hn => h.group.running _ n (h.group.leads i call n hcall hn)
  generalize call.phase = phase at hacts hsound hrunning
  cases hacts with
  | lead hfree => exact ConnCache.extends_lead ..
  | fail hload =>
      refine ConnCache.extends_finish p.shared p.shared rfl (Int.le_refl _) List.prefix_rfl rfl (hrunning _ rfl) ?_
      intro rc hrc
      cases hrc
  | @install since flight backends rc =>
      refine ConnCache.extends_finish p.shared (p.shared.install call.connID backends rc) rfl (Int.le_refl _)
        (List.prefix_append ..) rfl (hrunning _ rfl) ?_
      intro rc hrc
      cases hrc
      obtain ⟨l, hl, hgives, -⟩ := gives_install hsound.2
      exact ⟨l, hl, hgives⟩
  | _ => exact ConnCache.extends_tick (Int.le_refl _)

theorem CacheInv.sound_act (h : CacheInv p) (hcall : p.threads[i]? = some call)
    (hacts : ResolveActs p.shared call.connID b call.phase c' phase') : phase'.Sound c' call.connID := by
  have hsound := h.sound call (List.mem_of_getElem? hcall)
  have hentry := h.entries call.connID
  have hrunning := h.group.running call.connID
  generalize call.phase = phase at hacts hsound
  cases hacts with
  | read => exact ⟨Nat.le_refl _, hentry⟩
  | hit hvalid =>
      intro rc hrc
      cases hrc
      obtain ⟨l, hl, hgives, hfinished, hexpires⟩ := hsound.2 _ rfl
      exact ⟨l, hl, hgives, .inl ⟨hfinished, by rwa [← hexpires]⟩⟩
  | miss hexpired => exact hsound.1
  | lead hfree => exact hsound
  | join hruns =>
      refine ⟨hsound, none, hrunning _ hruns, fun rc hrc => ?_⟩
      cases hrc
  | fail hload =>
      intro rc hrc
      cases hrc
  | load hload => exact ⟨hsound, hload⟩
  | install =>
      intro rc hrc
      cases hrc
      obtain ⟨l, hl, hgives, -⟩ := gives_install hsound.2
      exact ⟨l, List.drop_subset _ _ hl, hgives, .inr (List.drop_subset_drop_left _ hsound.1 hl)⟩
  | receive hresult =>
      obtain ⟨-, result', hcall', hgives⟩ := hsound
      rw [hresult] at hcall'
      cases hcall'
      intro rc hrc
      obtain ⟨l, hl, hl'⟩ := hgives rc (congrArg some hrc)
      exact ⟨l, List.drop_subset _ _ hl, hl', .inr hl⟩

theorem CacheInv.entries_act (h : CacheInv p) (hcall : p.threads[i]? = some call)
    (hacts : ResolveActs p.shared call.connID b call.phase c' phase') :
    ∀ key e, c'.m key = some e → Backed c' key e := by
  intro key e he
  have hsound := h.sound call (List.mem_of_getElem? hcall)
  have hext := h.extends_act hcall hacts
  have hold : p.shared.m key = some e → Backed c' key e := fun he => (h.entries key e he).extend hext
  generalize call.phase = phase at hacts hsound
  cases hacts with
  | @install since flight backends rc =>
      by_cases hkey : key = call.connID
      · subst hkey
        have hentry : (p.shared.install call.connID backends rc).m call.connID =
            some { rc := rc, expiresAt := p.shared.now + p.shared.ttl } := Function.update_self ..
        cases hentry.symm.trans he
        obtain ⟨l, hl, hgives, hfinished⟩ := gives_install hsound.2
        exact ⟨l, List.drop_subset _ _ hl, hgives, Int.le_of_eq hfinished, by rw [hfinished]; rfl⟩
      · exact hold ((Function.update_of_ne hkey ..).symm.trans he)
  | _ => exact hold he

theorem CacheInv.step {e : PoolEvent ResolveCall ResolveAction} (h : CacheInv p)
    (hs : resolveStep p e = some p') : CacheInv p' := by
  rcases poolStep_cases hs with ⟨call, rfl, hnew, rfl⟩ | ⟨i, a, call, c', ⟨connID, phase'⟩, rfl, hcall, hact, rfl⟩
  · exact h.join hnew
  · obtain ⟨ht, hid, hacts⟩ := resolveActs_of_resolveAct hact
    cases hid
    have hnow := h.tick ht
    have hsound : phase'.Sound c' call.connID := hnow.sound_act hcall hacts
    refine ⟨hnow.group.act hcall hacts, hnow.entries_act hcall hacts, ?_⟩
    refine forall_mem_set (fun u hu => ?_) hsound
    exact (hnow.sound u hu).extend (hnow.extends_act hcall hacts)

theorem failed_load_keeps {i : Nat} {call : ResolveCall} {since flight : Nat} {a : ResolveAction} {err : LoadError}
    (hcall : p.threads[i]? = some call) (hphase : call.phase = .loading since flight)
    (hload : load a.backends call.connID = .error err) (hs : resolveStep p (.act i a) = some p') :
    p'.shared.m = p.shared.m ∧ p'.shared.loads = p.shared.loads := by
  rcases poolStep_cases hs with ⟨_, he, -⟩ | ⟨j, a', call', c', call'', he, hcall', hact, rfl⟩
  · cases he
  · cases he
    rw [hcall] at hcall'
    cases hcall'
    obtain ⟨-, -, hacts⟩ := resolveActs_of_resolveAct hact
    rw [hphase] at hacts
    generalize call''.phase = phase' at hacts
    cases hacts with
    | fail _ => exact ⟨rfl, rfl⟩
    | load hok =>
        rw [hload] at hok
        cases hok

end Runs

/-- What holds in every state: results are fresh, entries are results of loads, and one load runs per
id. -/
structure Coherent (p : ResolveCalls) : Prop where
  fresh : ∀ call ∈ p.threads, ∀ since t rc, call.phase = .returned since t (.ok rc) →
    Fresh p.shared call.connID since t rc
  loaded : ∀ key e, p.shared.m key = some e → ∃ l ∈ p.shared.loads, l.Gives key e.rc
  oneLoad : ∀ (i j : Nat) call call' n n', p.threads[i]? = some call → p.threads[j]? = some call' →
    call.connID = call'.connID → call.phase.runs = some n → call'.phase.runs = some n' → i = j

theorem CacheInv.coherent {p : ResolveCalls} (h : CacheInv p) : Coherent p where
  fresh call hcall since t rc hphase := by
    have hsound := h.sound call hcall
    rw [hphase] at hsound
    exact hsound rc rfl
  loaded key e he := by
    obtain ⟨l, hl, hgives, -⟩ := h.entries key e he
    exact ⟨l, hl, hgives⟩
  oneLoad i j call call' n n' hcall hcall' hid hn hn' := h.group.eq_of_runs hcall hcall' hn hn' hid

end DDAG.Connector
