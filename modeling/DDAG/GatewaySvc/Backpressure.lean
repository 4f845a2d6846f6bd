import DDAG.Lib.Channels
import DDAG.Lib.Trace
import DDAG.Models

/-!
# Places for queries

`backpressureManager` of `internal/gatewaysvc/backpressure.go`, and how `load` in `resolvePayload` of
`internal/gatewaysvc/service.go` uses it.  Every API and connector type has a buffered channel, which is
made when it is first asked for.  A request sends to it before its query and receives from it after;
one that waits for too long, or whose context ends, is rejected.  The select may take any of its cases
that is ready, so a request may be rejected although there is a place.

`queries_bounded` says over every interleaving that no API has more queries at once than there are
places, that the depth that is reported is the number of its queries, that a request waits only while
as many queries of its own API run, and that no request blocks when its query is over.
-/

namespace DDAG.GatewaySvc.Backpressure

open Machine Models

/-! ## The manager -/

structure Manager where
  /-- The channel of each key. -/
  queues : List (Text × Nat)
  channels : Channels
  size : Nat
  disabled : Bool

def newBackpressureManager (size : Int) : Manager :=
  if size ≤ 0 then { queues := [], channels := [], size := 0, disabled := true }
  else { queues := [], channels := [], size := size.toNat, disabled := false }

/-- `queue`, under the mutex. -/
def Manager.queue (m : Manager) (key : Text) : Nat × Manager :=
  match m.queues.lookup key with
  | some q => (q, m)
  | none =>
      (m.channels.length,
        { m with queues := m.queues ++ [(key, m.channels.length)], channels := m.channels ++ [0] })

def Manager.depth (m : Manager) (key : Text) : Nat × Manager :=
  if m.disabled then (0, m)
  else ((m.queue key).2.channels.getD (m.queue key).1 0, (m.queue key).2)

/-! ## Requests -/

/-- Where a request is in `load`. -/
inductive Phase where
  | arrived
  /-- In the select of `Acquire`. -/
  | waiting (q : Nat)
  /-- In `connector.Query`, with the channel that `release` receives from. -/
  | querying (q : Option Nat)
  | released
  | rejected
deriving DecidableEq

structure Request where
  apiID : Id
  connectorType : Text
  phase : Phase
deriving DecidableEq

def queueKey (apiID : Id) (connectorType : Text) : Text := idText apiID ++ ':' :: connectorType

def Request.key (r : Request) : Text := queueKey r.apiID r.connectorType

/-- A query of an API and connector type. -/
def Request.queries (apiID : Id) (connectorType : Text) (r : Request) : Bool :=
  r.apiID = apiID && r.connectorType = connectorType &&
    match r.phase with
    | .querying _ => true
    | _ => false

inductive Action where
  /-- `Depth`, for the gauge. -/
  | depth
  /-- `Acquire`, up to its select. -/
  | acquire
  | send
  /-- The timer fires, or the context is done. -/
  | giveUp
  /-- The query is over, and the deferred function runs. -/
  | release
deriving DecidableEq

def act (m : Manager) (r : Request) : Action → Option (Manager × Request)
  | .depth => some ((m.depth r.key).2, r)
  | .acquire =>
      match r.phase with
      | .arrived =>
          if m.disabled then some (m, { r with phase := .querying none })
          else some ((m.queue r.key).2, { r with phase := .waiting (m.queue r.key).1 })
      | _ => none
  | .send =>
      match r.phase with
      | .waiting q =>
          (Channels.send m.size m.channels q).map fun channels =>
            ({ m with channels := channels }, { r with phase := .querying (some q) })
      | _ => none
  | .giveUp =>
      match r.phase with
      | .waiting _ => some (m, { r with phase := .rejected })
      | _ => none
  | .release =>
      match r.phase with
      | .querying none => some (m, { r with phase := .released })
      | .querying (some q) =>
          (Channels.receive m.channels q).map fun channels =>
            ({ m with channels := channels }, { r with phase := .released })
      | _ => none

/-- Requests come in, and act in any order. -/
abbrev step : Pool Manager Request → PoolEvent Request Action → Option (Pool Manager Request) :=
  poolStep (fun r => r.phase = .arrived) act

def start (size : Int) : Pool Manager Request := { shared := newBackpressureManager size, threads := [] }

/-! ## What an action does -/

def Request.holds (r : Request) : Option Nat :=
  match r.phase with
  | .querying q => q
  | _ => none

/-- The channel a request uses. -/
def Request.channel (r : Request) : Option Nat :=
  match r.phase with
  | .waiting q => some q
  | .querying q => q
  | _ => none

theorem Request.channel_of_holds {r : Request} {q : Nat} (h : r.holds = some q) : r.channel = some q := by
  unfold holds at h
  unfold channel
  cases hphase : r.phase <;> simp_all

/-- A manager that is not disabled acts on its channels in one of four ways. -/
inductive Acts (m : Manager) (r : Request) : Manager → Request → Prop where
  | asked {phase : Phase} (hsame : phase = r.phase ∨ r.phase = .arrived ∧ phase = .waiting (m.queue r.key).1) :
      Acts m r (m.queue r.key).2 { r with phase := phase }
  | sent {q : Nat} {channels : Channels} (hphase : r.phase = .waiting q)
      (hsend : Channels.send m.size m.channels q = some channels) :
      Acts m r { m with channels := channels } { r with phase := .querying (some q) }
  | gaveUp {q : Nat} (hphase : r.phase = .waiting q) : Acts m r m { r with phase := .rejected }
  | received {q : Nat} {channels : Channels} (hphase : r.phase = .querying (some q))
      (hreceive : Channels.receive m.channels q = some channels) :
      Acts m r { m with channels := channels } { r with phase := .released }

theorem act_acts {m m' : Manager} {r r' : Request} {a : Action} (henabled : m.disabled = false)
    (hplace : r.phase ≠ .querying none) (h : act m r a = some (m', r')) : Acts m r m' r' := by
  cases a with
  | depth =>
      simp only [act, Manager.depth, henabled, Bool.false_eq_true, ↓reduceIte] at h
      cases h
      exact @Acts.asked m r r.phase (.inl rfl)
  | acquire =>
      simp only [act, henabled, Bool.false_eq_true, ↓reduceIte] at h
      split at h
      next harrived =>
        cases h
        exact .asked (.inr ⟨harrived, rfl⟩)
      next _ => cases h
  | send =>
      simp only [act] at h
      split at h
      next q hphase =>
        obtain ⟨channels, hsend, heq⟩ := Option.map_eq_some_iff.mp h
        cases heq
        exact .sent hphase hsend
      next _ => cases h
  | giveUp =>
      simp only [act] at h
      split at h
      next q hphase =>
        cases h
        exact .gaveUp hphase
      next _ => cases h
  | release =>
      simp only [act] at h
      split at h
      next hphase => exact absurd hphase hplace
      next q hphase =>
        obtain ⟨channels, hreceive, heq⟩ := Option.map_eq_some_iff.mp h
        cases heq
        exact .received hphase hreceive
      next _ => cases h

/-! ## The channels of the keys -/

structure Manager.Registered (m : Manager) : Prop where
  made : ∀ key q, m.queues.lookup key = some q → q < m.channels.length
  distinct : ∀ key other q, m.queues.lookup key = some q → m.queues.lookup other = some q → key = other

theorem lookup_queue (m : Manager) (key other : Text) :
    (m.queue key).2.queues.lookup other =
      if other = key then some (m.queue key).1 else m.queues.lookup other := by
  cases hlookup : m.queues.lookup key with
  | some q =>
      simp only [Manager.queue, hlookup]
      split
      next heq => rw [heq, hlookup]
      next _ => rfl
  | none =>
      simp only [Manager.queue, hlookup, List.lookup_append]
      split
      next heq => simp [heq, hlookup]
      next hne =>
        have hother : (other == key) = false := beq_false_of_ne hne
        simp [List.lookup_cons, hother]

/-- A channel stays the channel of its key. -/
theorem lookup_queue_of_some {m : Manager} {other : Text} {q : Nat} (h : m.queues.lookup other = some q)
    (key : Text) : (m.queue key).2.queues.lookup other = some q := by
  rw [lookup_queue]
  split
  next heq =>
    subst heq
    simp only [Manager.queue, h]
  next _ => exact h

theorem channels_queue (m : Manager) (key : Text) :
    ((m.queue key).2.channels = m.channels ∧ m.queues.lookup key = some (m.queue key).1) ∨
      (m.queue key).2.channels = m.channels ++ [0] ∧ (m.queue key).1 = m.channels.length := by
  cases hlookup : m.queues.lookup key with
  | some q => exact .inl (by simp only [Manager.queue, hlookup, and_self])
  | none => exact .inr (by simp only [Manager.queue, hlookup, and_self])

theorem Manager.Registered.queue {m : Manager} (h : m.Registered) (key : Text) : (m.queue key).2.Registered := by
  -- the channel of the key is one of its own, or none was there before
  have hnew : ∀ other, other ≠ key → m.queues.lookup other ≠ some (m.queue key).1 := by
    intro other hne hother
    rcases channels_queue m key with ⟨-, hkey⟩ | ⟨-, hlength⟩
    · exact hne (h.distinct _ _ _ hother hkey)
    · exact absurd (h.made _ _ hother) (by omega)
  constructor
  · intro other q hq
    rw [lookup_queue] at hq
    have hlength : m.channels.length ≤ (m.queue key).2.channels.length := by
      rcases channels_queue m key with ⟨heq, -⟩ | ⟨heq, -⟩ <;> simp [heq]
    split at hq
    next _ =>
      cases hq
      rcases channels_queue m key with ⟨-, hkey⟩ | ⟨heq, hq⟩
      · exact Nat.lt_of_lt_of_le (h.made _ _ hkey) hlength
      · simp [heq, hq]
    next _ => exact Nat.lt_of_lt_of_le (h.made _ _ hq) hlength
  · intro first second q hfirst hsecond
    rw [lookup_queue] at hfirst hsecond
    split at hfirst
    next heq =>
      cases hfirst
      split at hsecond
      next heq' => rw [heq, heq']
      next hne => exact absurd hsecond (hnew _ hne)
    next hne =>
      split at hsecond
      next _ =>
        cases hsecond
        exact absurd hfirst (hnew _ hne)
      next _ => exact h.distinct _ _ _ hfirst hsecond

/-! ## The invariant -/

structure Inv (size : Nat) (p : Pool Manager Request) : Prop where
  enabled : p.shared.disabled = false
  capacity : p.shared.size = size
  registered : p.shared.Registered
  bounded : Channels.Bounded size p.shared.channels
  balanced : Balanced Request.holds p.shared.channels p.threads
  /-- A request uses the channel of its key, and holds a place when it queries. -/
  uses : ∀ r ∈ p.threads, (∀ q, r.channel = some q → p.shared.queues.lookup r.key = some q) ∧
    r.phase ≠ .querying none

variable {size : Nat} {p p' : Pool Manager Request}

theorem Inv.asked (h : Inv size p) {i : Nat} {r : Request} (hi : p.threads[i]? = some r) {phase : Phase}
    (hsame : phase = r.phase ∨ r.phase = .arrived ∧ phase = .waiting (p.shared.queue r.key).1) :
    Inv size { shared := (p.shared.queue r.key).2, threads := p.threads.set i { r with phase := phase } } := by
  have hr := h.uses r (List.mem_of_getElem? hi)
  have hholds : ({ r with phase := phase } : Request).holds = r.holds := by
    rcases hsame with rfl | ⟨harrived, rfl⟩
    · rfl
    · simp only [Request.holds, harrived]
  have hchannels : Channels.Bounded size (p.shared.queue r.key).2.channels ∧
      Balanced Request.holds (p.shared.queue r.key).2.channels p.threads := by
    rcases channels_queue p.shared r.key with ⟨heq, -⟩ | ⟨heq, -⟩
    · exact heq ▸ ⟨h.bounded, h.balanced⟩
    · rw [heq]
      refine ⟨forall_mem_join h.bounded (Nat.zero_le _), h.balanced.make fun t ht hq => ?_⟩
      exact absurd (h.registered.made _ _ ((h.uses t ht).1 _ (Request.channel_of_holds hq))) (Nat.lt_irrefl _)
  have hfields : (p.shared.queue r.key).2.disabled = p.shared.disabled ∧
      (p.shared.queue r.key).2.size = p.shared.size := by
    unfold Manager.queue
    split <;> exact ⟨rfl, rfl⟩
  refine ⟨hfields.1.trans h.enabled, hfields.2.trans h.capacity, h.registered.queue _, hchannels.1,
    hchannels.2.keep hi hholds, forall_mem_set (fun t ht => ?_) ?_⟩
  · exact ⟨fun q hq => lookup_queue_of_some ((h.uses t ht).1 q hq) _, (h.uses t ht).2⟩
  · rcases hsame with rfl | ⟨-, rfl⟩
    · exact ⟨fun q hq => lookup_queue_of_some (hr.1 q hq) _, hr.2⟩
    · refine ⟨fun q hq => ?_, nofun⟩
      cases hq
      exact (lookup_queue p.shared r.key r.key).trans (if_pos rfl)

theorem inv_step {e : PoolEvent Request Action} (h : Inv size p) (hs : step p e = some p') : Inv size p' := by
  rcases poolStep_cases hs with ⟨r, rfl, harrived, rfl⟩ | ⟨i, a, r, m', r', rfl, hi, hact, rfl⟩
  · have hphase : r.phase = .arrived := of_decide_eq_true harrived
    refine ⟨h.enabled, h.capacity, h.registered, h.bounded, h.balanced.join ?_, forall_mem_join h.uses ⟨?_, ?_⟩⟩
    · simp only [Request.holds, hphase]
    · simp only [Request.channel, hphase, reduceCtorEq, false_implies, implies_true]
    · simp only [hphase, ne_eq, reduceCtorEq, not_false_eq_true]
  · have hr := h.uses r (List.mem_of_getElem? hi)
    cases act_acts h.enabled hr.2 hact with
    | asked hsame => exact h.asked hi hsame
    | @sent q channels hphase hsend =>
        have hq : p.shared.queues.lookup r.key = some q := hr.1 q (by simp only [Request.channel, hphase])
        rw [h.capacity] at hsend
        obtain ⟨n, -, -, heq⟩ := Channels.send_cases hsend
        have hlength : channels.length = p.shared.channels.length := by rw [heq, List.length_set]
        refine ⟨h.enabled, h.capacity, ⟨fun key k hk => hlength ▸ h.registered.made key k hk, h.registered.distinct⟩,
          h.bounded.send hsend, h.balanced.send hi ?_ rfl hsend, forall_mem_set h.uses ⟨fun k hk => ?_, nofun⟩⟩
        · simp only [Request.holds, hphase]
        · cases hk
          exact hq
    | gaveUp hphase =>
        refine { h with balanced := h.balanced.keep hi ?_, uses := forall_mem_set h.uses ⟨nofun, nofun⟩ }
        simp only [Request.holds, hphase]
    | @received q channels hphase hreceive =>
        obtain ⟨n, -, heq⟩ := Channels.receive_cases hreceive
        have hlength : channels.length = p.shared.channels.length := by rw [heq, List.length_set]
        refine ⟨h.enabled, h.capacity, ⟨fun key k hk => hlength ▸ h.registered.made key k hk, h.registered.distinct⟩,
          h.bounded.receive hreceive, h.balanced.receive hi ?_ rfl hreceive, forall_mem_set h.uses ⟨nofun, nofun⟩⟩
        simp only [Request.holds, hphase]

theorem inv_start {size : Int} (hsize : 0 < size) : Inv size.toNat (start size) := by
  have hnew : newBackpressureManager size =
      { queues := [], channels := [], size := size.toNat, disabled := false } := if_neg (by omega)
  rw [start, hnew]
  exact ⟨rfl, rfl, ⟨nofun, nofun⟩, List.forall_mem_nil _, nofun, List.forall_mem_nil _⟩

/-! ## Queries and places -/

theorem queueKey_inj {apiID other : Id} {connectorType type : Text}
    (h : queueKey apiID connectorType = queueKey other type) : apiID = other ∧ connectorType = type := by
  have hdigits : ∀ id : Id, ':' ∉ idText id := fun id hmem =>
    absurd (Strings.isDigit_decimal hmem) (by decide)
  obtain ⟨hid, htype⟩ := Strings.append_sep_inj (hdigits apiID) (hdigits other) h
  exact ⟨Strings.decimal_inj hid, htype⟩

/-- A query holds a place of the channel of its API. -/
theorem Inv.place_of_queries (h : Inv size p) {r : Request} (hr : r ∈ p.threads) {apiID : Id} {connectorType : Text}
    (hqueries : r.queries apiID connectorType = true) :
    ∃ q, r.holds = some q ∧ p.shared.queues.lookup (queueKey apiID connectorType) = some q := by
  obtain ⟨huses, hplace⟩ := h.uses r hr
  simp only [Request.queries, Bool.and_eq_true, decide_eq_true_eq] at hqueries
  obtain ⟨⟨rfl, rfl⟩, hphase⟩ := hqueries
  split at hphase
  next q heq =>
    cases q with
    | none => exact absurd heq hplace
    | some q => exact ⟨q, by simp only [Request.holds, heq], huses q (by simp only [Request.channel, heq])⟩
  next _ => cases hphase

/-- The requests that hold a place of the channel of an API are its queries. -/
theorem Inv.held_eq (h : Inv size p) {apiID : Id} {connectorType : Text} {q : Nat}
    (hq : p.shared.queues.lookup (queueKey apiID connectorType) = some q) :
    held Request.holds q p.threads = p.threads.countP (Request.queries apiID connectorType) := by
  rw [held, total_toNat]
  refine List.countP_congr fun r hr => ?_
  rw [decide_eq_true_iff]
  constructor
  · intro hholds
    have hkey : r.key = queueKey apiID connectorType :=
      h.registered.distinct _ _ _ ((h.uses r hr).1 q (Request.channel_of_holds hholds)) hq
    obtain ⟨rfl, rfl⟩ := queueKey_inj hkey
    unfold Request.holds at hholds
    unfold Request.queries
    cases hphase : r.phase <;> simp_all
  · intro hqueries
    obtain ⟨k, hholds, hk⟩ := h.place_of_queries hr hqueries
    rw [hholds, ← hk, hq]

theorem Inv.getElem?_channels (h : Inv size p) {apiID : Id} {connectorType : Text} {q : Nat}
    (hq : p.shared.queues.lookup (queueKey apiID connectorType) = some q) :
    p.shared.channels[q]? = some (p.threads.countP (Request.queries apiID connectorType)) := by
  have hn := List.getElem?_eq_getElem (h.registered.made _ _ hq)
  rw [hn, h.balanced q _ hn, h.held_eq hq]

/-- An API that no request has asked a channel for has no queries. -/
theorem Inv.countP_eq_zero (h : Inv size p) {apiID : Id} {connectorType : Text}
    (hnone : p.shared.queues.lookup (queueKey apiID connectorType) = none) :
    p.threads.countP (Request.queries apiID connectorType) = 0 := by
  refine List.countP_eq_zero.mpr fun r hr hqueries => ?_
  obtain ⟨q, -, hq⟩ := h.place_of_queries hr hqueries
  rw [hnone] at hq
  cases hq

theorem Inv.depth_eq (h : Inv size p) (apiID : Id) (connectorType : Text) :
    (p.shared.depth (queueKey apiID connectorType)).1 =
      p.threads.countP (Request.queries apiID connectorType) := by
  rw [Manager.depth, if_neg (by simp [h.enabled])]
  cases hlookup : p.shared.queues.lookup (queueKey apiID connectorType) with
  | some q => simp only [Manager.queue, hlookup, List.getD, h.getElem?_channels hlookup, Option.getD_some]
  | none =>
      simp only [Manager.queue, hlookup, h.countP_eq_zero hlookup, List.getD, List.getElem?_concat_length,
        Option.getD_some]

/-- What the places are for. -/
structure Orderly (size : Nat) (p : Pool Manager Request) : Prop where
  /-- No API has more queries than there are places. -/
  bounded : ∀ apiID connectorType, p.threads.countP (Request.queries apiID connectorType) ≤ size
  /-- The depth is the number of queries, without the requests that wait. -/
  reported : ∀ apiID connectorType, (p.shared.depth (queueKey apiID connectorType)).1 =
    p.threads.countP (Request.queries apiID connectorType)
  /-- Only queries of its own API keep a request waiting. -/
  admits : ∀ (i : Nat) (r : Request) (q : Nat), p.threads[i]? = some r → r.phase = .waiting q →
    ((step p (.act i .send)).isSome = true ↔
      p.threads.countP (Request.queries r.apiID r.connectorType) < size)
  /-- A request whose query is over gives its place back at once. -/
  releases : ∀ (i : Nat) (r : Request) (q : Option Nat), p.threads[i]? = some r → r.phase = .querying q →
    (step p (.act i .release)).isSome = true

theorem Inv.bounded_queries (h : Inv size p) (apiID : Id) (connectorType : Text) :
    p.threads.countP (Request.queries apiID connectorType) ≤ size := by
  cases hlookup : p.shared.queues.lookup (queueKey apiID connectorType) with
  | some q => exact h.held_eq hlookup ▸ h.balanced.held_le h.bounded (h.getElem?_channels hlookup)
  | none => exact h.countP_eq_zero hlookup ▸ Nat.zero_le _

theorem Inv.orderly (h : Inv size p) : Orderly size p := by
  refine ⟨h.bounded_queries, h.depth_eq, fun i r q hi hphase => ?_, fun i r q hi hphase => ?_⟩
  · have hq := (h.uses r (List.mem_of_getElem? hi)).1 q (by simp only [Request.channel, hphase])
    rw [step, poolStep_act hi, Option.isSome_map]
    simp only [act, hphase, Option.isSome_map, h.capacity]
    exact Channels.send_isSome (h.getElem?_channels hq)
  · obtain ⟨huses, hplace⟩ := h.uses r (List.mem_of_getElem? hi)
    cases q with
    | none => exact absurd hphase hplace
    | some q =>
        have hq := huses q (by simp only [Request.channel, hphase])
        rw [step, poolStep_act hi, Option.isSome_map]
        simp only [act, hphase, Option.isSome_map]
        refine h.balanced.receives (List.mem_of_getElem? hi) ?_ (h.getElem?_channels hq)
        simp only [Request.holds, hphase]

/-- Over every interleaving of requests, with places for `size` queries of an API and connector type. -/
theorem queries_bounded (size : Int) (hsize : 0 < size) (es : List (PoolEvent Request Action)) :
    Along step (Orderly size.toNat) (start size) es :=
  (Along.of_step (fun h hs => inv_step h hs) (inv_start hsize) es).mono fun _ => Inv.orderly

/-- Two requests for an API with one place, and one for another API. -/
def contention : List (PoolEvent Request Action) :=
  [.join ⟨1, "postgres".toList, .arrived⟩, .join ⟨1, "postgres".toList, .arrived⟩,
    .join ⟨2, "postgres".toList, .arrived⟩, .act 0 .acquire, .act 1 .acquire, .act 0 .send, .act 2 .acquire,
    .act 2 .send]

/-- The second request for the API waits, the one for the other API queries. -/
theorem contention_orderly :
    ∃ p, runs step (start 1) contention = some p ∧ Orderly 1 p ∧ step p (.act 1 .send) = none ∧
      p.threads.countP (Request.queries 2 "postgres".toList) = 1 :=
  ⟨_, rfl, (queries_bounded 1 (by decide) contention).last rfl, rfl, rfl⟩

end DDAG.GatewaySvc.Backpressure
