import DDAG.Lib.Pool
import DDAG.Lib.Trace

/-!
# Cached reads

The requests for one API while it is published, reloaded and purged: the lookup in
`serve`, `resolvePayload` and `loadRoutes` of `internal/gatewaysvc`, and `PurgeEndpoint`
of `internal/cache/cache.go`.  Every command to Redis is one step, and steps of all
requests, flights and purges interleave in any order.  Keys of the API are of a type
`κ`: a key is made of the request, and does not name the revision.

A result carries the revision its query was built from, and the number of purges that had
started when the query ran.
-/

namespace DDAG.GatewaySvc

open Machine

/-! ## Flights, requests and purges -/

structure QueryResult where
  revision : Nat
  /-- The number of purges that had started. -/
  ran : Nat
deriving DecidableEq

/-- How far the function of a flight is. -/
inductive FlightPhase where
  | loading
  | loaded (r : QueryResult)
  /-- The call of `Set` is over. -/
  | stored (r : QueryResult)
  /-- The key is free again, and the result is there for the requests that wait. -/
  | finished (r : Option QueryResult)
deriving DecidableEq

/-- A call in the group of flights, for the revision of the request that leads it. -/
structure FlightCall (κ : Type*) where
  key : κ
  revision : Nat
  phase : FlightPhase

/-- The key is taken. -/
def FlightPhase.active : FlightPhase → Bool
  | .finished _ => false
  | _ => true

/-- What the query of a flight has returned. -/
def FlightPhase.result? : FlightPhase → Option QueryResult
  | .loading => none
  | .loaded r => some r
  | .stored r => some r
  | .finished r => r

inductive ReadPhase where
  /-- The route is matched. -/
  | routed (revision : Nat)
  | missed (revision : Nat)
  /-- The request leads or shares a flight. -/
  | waiting (call : Nat)
  | ready (r : QueryResult)
  | answered (r : QueryResult)
  | failed
deriving DecidableEq

/-- A request, with the purges that had returned when it arrived. -/
structure Read (κ : Type*) where
  key : κ
  after : List Nat
  phase : ReadPhase

/-- The revision a request that has no result yet is served with. -/
def ReadPhase.revision? : ReadPhase → Option Nat
  | .routed v => some v
  | .missed v => some v
  | _ => none

/-- A call of `PurgeEndpoint`, with the keys that have been there ever since it started. -/
structure Purge (κ : Type*) where
  number : Nat
  remaining : List κ
  returned : Bool

/-- The revisions that are published and installed, what Redis has for the API, and
everything that is under way. -/
structure CachedReads (κ : Type*) where
  committed : Nat
  installed : Nat
  cache : List (κ × QueryResult)
  calls : List (FlightCall κ)
  reads : List (Read κ)
  purges : List (Purge κ)

/-- A gateway with one revision installed, and nothing under way. -/
def quiet (κ : Type*) (revision : Nat) : CachedReads κ :=
  { committed := revision, installed := revision, cache := [], calls := [], reads := [], purges := [] }

/-! ## Steps -/

inductive FlightAction where
  | query
  | fail
  | store
  /-- The result is not stored: it has no JSON, or `Set` fails. -/
  | skip
  | finish

inductive ReadAction where
  /-- The query runs without a flight: no rule is enabled, or the API is no read. -/
  | direct
  | lookup
  /-- Redis does not answer, or what it has is no payload. -/
  | miss
  /-- `flightGroup.Do`. -/
  | join
  | receive
  | answer
  | fail

inductive ReadEvent (κ : Type*) where
  | publish
  | reload (revision : Nat)
  /-- An entry expires, or is evicted by `PurgeKey`. -/
  | expire (k : κ)
  | arrive (k : κ)
  | read (i : Nat) (x : ReadAction)
  | call (c : Nat) (x : FlightAction)
  | startPurge
  /-- A purge deletes keys that `SCAN` has returned. -/
  | del (j : Nat) (ks : List κ)
  | returnPurge (j : Nat)

section Steps

variable {κ : Type*} [DecidableEq κ]

/-- `Get`. -/
def cachedAt (cache : List (κ × QueryResult)) (k : κ) : Option QueryResult :=
  (cache.find? (·.1 = k)).map (·.2)

/-- `Del`. -/
def without (cache : List (κ × QueryResult)) (ks : List κ) : List (κ × QueryResult) :=
  cache.filter (·.1 ∉ ks)

/-- `Set`. -/
def withEntry (cache : List (κ × QueryResult)) (k : κ) (r : QueryResult) : List (κ × QueryResult) :=
  (k, r) :: without cache [k]

/-- The function of `resolvePayload` that a flight runs. -/
def flightAct (s : CachedReads κ) (f : FlightCall κ) (x : FlightAction) :
    Option (List (κ × QueryResult) × FlightPhase) :=
  match f.phase, x with
  | .loading, .query => some (s.cache, .loaded { revision := f.revision, ran := s.purges.length })
  | .loading, .fail => some (s.cache, .finished none)
  | .loaded r, .store => some (withEntry s.cache f.key r, .stored r)
  | .loaded r, .skip => some (s.cache, .stored r)
  | .stored r, .finish => some (s.cache, .finished (some r))
  | _, _ => none

/-- `flightGroup.Do`: the request shares the flight of its key, or starts one. -/
def joinFlight (s : CachedReads κ) (k : κ) (revision : Nat) : List (FlightCall κ) × ReadPhase :=
  match s.calls.findIdx? fun f => f.key = k ∧ f.phase.active with
  | some c => (s.calls, .waiting c)
  | none => (s.calls ++ [{ key := k, revision := revision, phase := .loading }], .waiting s.calls.length)

/-- What a request gets from the flight it waits for, once that is finished. -/
def FlightPhase.delivers : FlightPhase → Option ReadPhase
  | .finished none => some .failed
  | .finished (some r) => some (.ready r)
  | _ => none

def readAct (s : CachedReads κ) (q : Read κ) (x : ReadAction) :
    Option (List (FlightCall κ) × ReadPhase) :=
  match q.phase, x with
  | .routed v, .direct => some (s.calls, .ready { revision := v, ran := s.purges.length })
  | .missed v, .direct => some (s.calls, .ready { revision := v, ran := s.purges.length })
  | .routed v, .lookup => some (s.calls, (cachedAt s.cache q.key).elim (.missed v) .ready)
  | .routed v, .miss => some (s.calls, .missed v)
  | .missed v, .join => some (joinFlight s q.key v)
  | .waiting c, .receive =>
      s.calls[c]?.bind fun f => f.phase.delivers.map fun phase => (s.calls, phase)
  | .ready r, .answer => some (s.calls, .answered r)
  | .routed _, .fail => some (s.calls, .failed)
  | .missed _, .fail => some (s.calls, .failed)
  | _, _ => none

/-- Keys leave Redis, and have not been there ever since any purge started. -/
def CachedReads.remove (s : CachedReads κ) (ks : List κ) : CachedReads κ :=
  { s with
    cache := without s.cache ks
    purges := s.purges.map fun p => { p with remaining := p.remaining.filter (· ∉ ks) } }

def readStep (s : CachedReads κ) : ReadEvent κ → Option (CachedReads κ)
  | .publish => some { s with committed := s.committed + 1 }
  | .reload n => if n ≤ s.committed then some { s with installed := n } else none
  | .expire k => some (s.remove [k])
  | .arrive k =>
      some { s with
        reads := s.reads ++
          [{ key := k, after := (s.purges.filter (·.returned)).map (·.number)
             phase := .routed s.installed }] }
  | .read i x =>
      s.reads[i]?.bind fun q => (readAct s q x).map fun out =>
        { s with calls := out.1, reads := s.reads.set i { q with phase := out.2 } }
  | .call c x =>
      s.calls[c]?.bind fun f => (flightAct s f x).map fun out =>
        { s with cache := out.1, calls := s.calls.set c { f with phase := out.2 } }
  | .startPurge =>
      some { s with
        purges := s.purges ++
          [{ number := s.purges.length + 1, remaining := s.cache.map (·.1), returned := false }] }
  | .del j ks => s.purges[j]?.bind fun p => if p.returned then none else some (s.remove ks)
  | .returnPurge j =>
      -- `SCAN` has returned every key that was there throughout, so none is left
      s.purges[j]?.bind fun p =>
        if p.returned = false ∧ p.remaining = [] then
          some { s with purges := s.purges.set j { p with returned := true } }
        else none

/-! ## What a step does -/

/-- What an action of a flight makes of Redis and of the flight. -/
inductive FlightActs (s : CachedReads κ) (f : FlightCall κ) :
    List (κ × QueryResult) → FlightPhase → Prop where
  | query (h : f.phase = .loading) :
      FlightActs s f s.cache (.loaded { revision := f.revision, ran := s.purges.length })
  | fail (h : f.phase = .loading) : FlightActs s f s.cache (.finished none)
  | store {r : QueryResult} (h : f.phase = .loaded r) :
      FlightActs s f (withEntry s.cache f.key r) (.stored r)
  | skip {r : QueryResult} (h : f.phase = .loaded r) : FlightActs s f s.cache (.stored r)
  | finish {r : QueryResult} (h : f.phase = .stored r) : FlightActs s f s.cache (.finished (some r))

/-- What an action of a request makes of the flights and of the request. -/
inductive ReadActs (s : CachedReads κ) (q : Read κ) : List (FlightCall κ) → ReadPhase → Prop where
  | direct {v : Nat} (h : q.phase.revision? = some v) :
      ReadActs s q s.calls (.ready { revision := v, ran := s.purges.length })
  | hit {v : Nat} {r : QueryResult} (h : q.phase = .routed v) (hr : (q.key, r) ∈ s.cache) :
      ReadActs s q s.calls (.ready r)
  | miss {v : Nat} (h : q.phase = .routed v) : ReadActs s q s.calls (.missed v)
  | share {v c : Nat} {f : FlightCall κ} (h : q.phase = .missed v) (hf : s.calls[c]? = some f)
      (hkey : f.key = q.key) (hactive : f.phase.active = true) : ReadActs s q s.calls (.waiting c)
  | lead {v : Nat} (h : q.phase = .missed v) :
      ReadActs s q (s.calls ++ [{ key := q.key, revision := v, phase := .loading }])
        (.waiting s.calls.length)
  | receive {c : Nat} {f : FlightCall κ} {r : QueryResult} (h : q.phase = .waiting c)
      (hf : s.calls[c]? = some f) (hr : f.phase = .finished (some r)) : ReadActs s q s.calls (.ready r)
  | answer {r : QueryResult} (h : q.phase = .ready r) : ReadActs s q s.calls (.answered r)
  | fail : ReadActs s q s.calls .failed

variable {s s' : CachedReads κ} {q : Read κ} {f : FlightCall κ}

theorem mem_cache_of_cachedAt {cache : List (κ × QueryResult)} {k : κ} {r : QueryResult}
    (h : cachedAt cache k = some r) : (k, r) ∈ cache := by
  obtain ⟨e, he, rfl⟩ := Option.map_eq_some_iff.mp h
  obtain rfl : e.1 = k := by simpa using List.find?_some he
  exact List.mem_of_find?_eq_some he

theorem flightActs_of_flightAct {x : FlightAction} {cache : List (κ × QueryResult)} {phase : FlightPhase}
    (h : flightAct s f x = some (cache, phase)) : FlightActs s f cache phase := by
  unfold flightAct at h
  split at h
  next hp => cases h; exact .query hp
  next hp => cases h; exact .fail hp
  next r hp => cases h; exact .store hp
  next r hp => cases h; exact .skip hp
  next r hp => cases h; exact .finish hp
  next => cases h

theorem readActs_of_joinFlight {v : Nat} (hp : q.phase = .missed v) :
    ReadActs s q (joinFlight s q.key v).1 (joinFlight s q.key v).2 := by
  unfold joinFlight
  cases hc : s.calls.findIdx? fun f => f.key = q.key ∧ f.phase.active with
  | none => exact .lead hp
  | some c =>
      obtain ⟨hlt, hf, -⟩ := List.findIdx?_eq_some_iff_getElem.mp hc
      obtain ⟨hkey, hactive⟩ := of_decide_eq_true hf
      exact .share hp (List.getElem?_eq_getElem hlt) hkey hactive

theorem readActs_of_readAct {x : ReadAction} {calls : List (FlightCall κ)} {phase : ReadPhase}
    (h : readAct s q x = some (calls, phase)) : ReadActs s q calls phase := by
  unfold readAct at h
  split at h
  next v hp => cases h; exact .direct (by rw [hp]; rfl)
  next v hp => cases h; exact .direct (by rw [hp]; rfl)
  next v hp =>
    cases hr : cachedAt s.cache q.key with
    | none => rw [hr] at h; cases h; exact .miss hp
    | some r => rw [hr] at h; cases h; exact .hit hp (mem_cache_of_cachedAt hr)
  next v hp => cases h; exact .miss hp
  next v hp =>
    have hjoin := Option.some.inj h
    have hacts := readActs_of_joinFlight (s := s) hp
    rwa [hjoin] at hacts
  next c hp =>
    obtain ⟨f, hf, hmap⟩ := Option.bind_eq_some_iff.mp h
    obtain ⟨phase', hdelivers, heq⟩ := Option.map_eq_some_iff.mp hmap
    cases heq
    unfold FlightPhase.delivers at hdelivers
    split at hdelivers
    next => cases hdelivers; exact .fail
    next r hr => cases hdelivers; exact .receive hp hf hr
    next => cases hdelivers
  next r hp => cases h; exact .answer hp
  next => cases h; exact .fail
  next => cases h; exact .fail
  next => cases h

/-- The keys an event removes from Redis. -/
def ReadEvent.removes : ReadEvent κ → List κ
  | .expire k => [k]
  | .del _ ks => ks
  | _ => []

/-- What an event makes of the gateway. -/
inductive ReadSteps (s : CachedReads κ) : ReadEvent κ → CachedReads κ → Prop where
  | publish : ReadSteps s .publish { s with committed := s.committed + 1 }
  | reload {n : Nat} (h : n ≤ s.committed) : ReadSteps s (.reload n) { s with installed := n }
  | expire (k : κ) : ReadSteps s (.expire k) (s.remove [k])
  | arrive (k : κ) :
      ReadSteps s (.arrive k)
        { s with
          reads := s.reads ++
            [{ key := k, after := (s.purges.filter (·.returned)).map (·.number)
               phase := .routed s.installed }] }
  | read {i : Nat} {x : ReadAction} {q : Read κ} {calls : List (FlightCall κ)} {phase : ReadPhase}
      (hq : s.reads[i]? = some q) (hacts : ReadActs s q calls phase) :
      ReadSteps s (.read i x) { s with calls := calls, reads := s.reads.set i { q with phase := phase } }
  | call {c : Nat} {x : FlightAction} {f : FlightCall κ} {cache : List (κ × QueryResult)}
      {phase : FlightPhase} (hf : s.calls[c]? = some f) (hacts : FlightActs s f cache phase) :
      ReadSteps s (.call c x) { s with cache := cache, calls := s.calls.set c { f with phase := phase } }
  | startPurge :
      ReadSteps s .startPurge
        { s with
          purges := s.purges ++
            [{ number := s.purges.length + 1, remaining := s.cache.map (·.1), returned := false }] }
  | del (j : Nat) (ks : List κ) : ReadSteps s (.del j ks) (s.remove ks)
  | returnPurge {j : Nat} {p : Purge κ} (hp : s.purges[j]? = some p) (hnil : p.remaining = []) :
      ReadSteps s (.returnPurge j) { s with purges := s.purges.set j { p with returned := true } }

theorem readSteps_of_readStep {e : ReadEvent κ} (hs : readStep s e = some s') : ReadSteps s e s' := by
  cases e with
  | publish => cases hs; exact .publish
  | reload n =>
      simp only [readStep] at hs
      split at hs
      next h => cases hs; exact .reload h
      next => cases hs
  | expire k => cases hs; exact .expire k
  | arrive k => cases hs; exact .arrive k
  | read i x =>
      obtain ⟨q, hq, hmap⟩ := Option.bind_eq_some_iff.mp hs
      obtain ⟨⟨calls, phase⟩, hact, rfl⟩ := Option.map_eq_some_iff.mp hmap
      exact .read hq (readActs_of_readAct hact)
  | call c x =>
      obtain ⟨f, hf, hmap⟩ := Option.bind_eq_some_iff.mp hs
      obtain ⟨⟨cache, phase⟩, hact, rfl⟩ := Option.map_eq_some_iff.mp hmap
      exact .call hf (flightActs_of_flightAct hact)
  | startPurge => cases hs; exact .startPurge
  | del j ks =>
      obtain ⟨p, -, hdel⟩ := Option.bind_eq_some_iff.mp hs
      split at hdel
      next => cases hdel
      next => cases hdel; exact .del j ks
  | returnPurge j =>
      obtain ⟨p, hp, hreturn⟩ := Option.bind_eq_some_iff.mp hs
      split at hreturn
      next h => cases hreturn; exact .returnPurge hp h.2
      next => cases hreturn

/-- An event that removes nothing leaves every list of keys. -/
theorem filter_notMem_nil (ks : List κ) : ks.filter (· ∉ ([] : List κ)) = ks :=
  List.filter_eq_self.mpr (by simp)

end Steps

end DDAG.GatewaySvc
