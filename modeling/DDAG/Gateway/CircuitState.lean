import DDAG.Connectors.Bind
import DDAG.Lib.Pool
import DDAG.Lib.Trace

/-!
# Remembered circuit states

`circuitStateCache` of `internal/gateway/circuitstate.go`: the gateway remembers for a while that
the circuit of a connection is open.  `Set` is one section under the lock.  `IsOpen` reads the
entry in one section, looks at the clock outside of it, and deletes the entry in a second section
if the one it has read is expired.

The second section does not look at the entry again.  So a call that has read an expired entry may
delete a fresh one that was set in between.  `stays_open_iff` says when the answers after a
`Set` are right until the time to live has passed: exactly if no call that is between its sections
at the `Set` can find its entry expired by then.
-/

namespace DDAG.Gateway

open Machine

/-! ## The source -/

structure CachedCircuitState where
  state : Text
  expiresAt : Int
deriving DecidableEq

/-- The cache, and the clock. -/
structure CircuitStateCache where
  ttl : Int
  ttl_pos : 0 < ttl
  data : Table CachedCircuitState := fun _ => none
  now : Int := 0

/-- The time to live that is used. -/
def effectiveTTL (ttl : Int) : Int := if ttl ≤ 0 then 30000000000 else ttl

theorem effectiveTTL_pos (ttl : Int) : 0 < effectiveTTL ttl := by
  unfold effectiveTTL
  split
  next _ => decide
  next h => exact Int.not_le.mp h

def newCircuitStateCache (ttl : Int) : CircuitStateCache where
  ttl := effectiveTTL ttl
  ttl_pos := effectiveTTL_pos ttl

def CircuitStateCache.tick (c : CircuitStateCache) (now : Int) : CircuitStateCache := { c with now := now }

/-- `c.data[connectionID] = ..`, or `delete`. -/
def CircuitStateCache.put (c : CircuitStateCache) (id : Text) (entry : Option CachedCircuitState) :
    CircuitStateCache := { c with data := Function.update c.data id entry }

/-- `Set`. -/
def CircuitStateCache.set (c : CircuitStateCache) (id state : Text) : CircuitStateCache :=
  if id = [] ∨ state = [] then c
  else if state = "closed".toList then c.put id none
  else c.put id (some ⟨state, c.now + c.ttl⟩)

/-- How far a call is. -/
inductive CircuitPhase where
  /-- `Set`, before its section. -/
  | setting (state : Text)
  | set
  /-- `IsOpen`, before its first section. -/
  | reading
  | holding (entry : CachedCircuitState)
  /-- The entry was expired when the clock was looked at. -/
  | deleting (evaluated : Int)
  /-- The result, with the time the clock was looked at or no entry was found. -/
  | answered (isOpen : Bool) (evaluated : Int)
deriving DecidableEq

structure CircuitCall where
  connectionID : Text
  phase : CircuitPhase
deriving DecidableEq

/-- The next section of a call, or its look at the clock, at a time that does not go back. -/
def circuitAct (c : CircuitStateCache) (call : CircuitCall) (t : Int) :
    Option (CircuitStateCache × CircuitCall) :=
  if t < c.now then none
  else
    let c := c.tick t
    let id := call.connectionID
    match call.phase with
    | .setting state => some (c.set id state, ⟨id, .set⟩)
    | .reading =>
        if id = [] then some (c, ⟨id, .answered false t⟩)
        else
          match c.data id with
          | none => some (c, ⟨id, .answered false t⟩)
          | some entry => some (c, ⟨id, .holding entry⟩)
    | .holding entry =>
        if entry.expiresAt < t then some (c, ⟨id, .deleting t⟩)
        else some (c, ⟨id, .answered (entry.state = "open".toList) t⟩)
    | .deleting evaluated => some (c.put id none, ⟨id, .answered false evaluated⟩)
    | .set | .answered _ _ => none

def CircuitCall.isNew (call : CircuitCall) : Bool :=
  match call.phase with
  | .setting _ | .reading => true
  | _ => false

abbrev CircuitCalls := Pool CircuitStateCache CircuitCall

def circuitStep (p : CircuitCalls) (e : PoolEvent CircuitCall Int) : Option CircuitCalls :=
  poolStep CircuitCall.isNew circuitAct p e

/-! ## After a `Set` -/

/-- The event is a `Set` for the id, with a state. -/
def Sets (id : Text) (p : CircuitCalls) : PoolEvent CircuitCall Int → Prop
  | .join _ => False
  | .act i _ => ∃ state, state ≠ [] ∧ p.threads[i]? = some ⟨id, .setting state⟩

/-- A call that comes later, or has not read yet. -/
def Unread (p : CircuitCalls) (j : Nat) : Prop :=
  ∀ call, p.threads[j]? = some call → call.phase = .reading

/-- As long as no `Set` for the id follows, every `IsOpen` that reads from now on and is evaluated
in time is true. -/
def StaysOpen (id : Text) (deadline : Int) (p : CircuitCalls) : Prop :=
  ∀ es p', runs circuitStep p es = some p' → Each circuitStep (fun q e => ¬Sets id q e) p es →
    ∀ j isOpen evaluated, Unread p j → p'.threads[j]? = some ⟨id, .answered isOpen evaluated⟩ →
      evaluated ≤ deadline → isOpen = true

/-- No call between its sections deletes the entry of the id before the deadline. -/
def NoStale (id : Text) (deadline : Int) (p : CircuitCalls) : Prop :=
  ∀ call ∈ p.threads, call.connectionID = id →
    (∀ evaluated, call.phase ≠ .deleting evaluated) ∧
      ∀ entry, call.phase = .holding entry → deadline ≤ entry.expiresAt

/-! ## What a call does -/

@[simp] theorem CircuitStateCache.tick_data (c : CircuitStateCache) (now : Int) : (c.tick now).data = c.data := rfl
@[simp] theorem CircuitStateCache.tick_now (c : CircuitStateCache) (now : Int) : (c.tick now).now = now := rfl
@[simp] theorem CircuitStateCache.put_now (c : CircuitStateCache) (id : Text)
    (entry : Option CachedCircuitState) : (c.put id entry).now = c.now := rfl

theorem CircuitStateCache.put_self (c : CircuitStateCache) (id : Text) (entry : Option CachedCircuitState) :
    (c.put id entry).data id = entry := Function.update_self ..

theorem CircuitStateCache.put_of_ne (c : CircuitStateCache) {id other : Text}
    (entry : Option CachedCircuitState) (h : id ≠ other) : (c.put other entry).data id = c.data id :=
  Function.update_of_ne h ..

@[simp] theorem CircuitStateCache.set_now (c : CircuitStateCache) (id state : Text) :
    (c.set id state).now = c.now := by
  unfold CircuitStateCache.set
  split
  next _ => rfl
  next _ => split <;> rfl

theorem CircuitStateCache.set_of_ne (c : CircuitStateCache) {id other : Text} (state : Text)
    (h : id ≠ other) : (c.set other state).data id = c.data id := by
  unfold CircuitStateCache.set
  split
  next _ => rfl
  next _ =>
    split
    next _ => exact c.put_of_ne _ h
    next _ => exact c.put_of_ne _ h

/-- The sections of a call, and its look at the clock. -/
inductive CircuitActs (c : CircuitStateCache) (call : CircuitCall) (t : Int) :
    CircuitStateCache → CircuitPhase → Prop
  | set {state : Text} (hphase : call.phase = .setting state) :
      CircuitActs c call t ((c.tick t).set call.connectionID state) .set
  | missed (hphase : call.phase = .reading)
      (hnone : call.connectionID = [] ∨ c.data call.connectionID = none) :
      CircuitActs c call t (c.tick t) (.answered false t)
  | read {entry : CachedCircuitState} (hphase : call.phase = .reading)
      (hentry : c.data call.connectionID = some entry) :
      CircuitActs c call t (c.tick t) (.holding entry)
  | expired {entry : CachedCircuitState} (hphase : call.phase = .holding entry)
      (hlate : entry.expiresAt < t) : CircuitActs c call t (c.tick t) (.deleting t)
  | evaluated {entry : CachedCircuitState} (hphase : call.phase = .holding entry)
      (hfresh : t ≤ entry.expiresAt) :
      CircuitActs c call t (c.tick t) (.answered (entry.state = "open".toList) t)
  | deleted {evaluated : Int} (hphase : call.phase = .deleting evaluated) :
      CircuitActs c call t ((c.tick t).put call.connectionID none) (.answered false evaluated)

theorem circuitActs_of_circuitAct {c c' : CircuitStateCache} {call call' : CircuitCall} {t : Int}
    (h : circuitAct c call t = some (c', call')) :
    c.now ≤ t ∧ call'.connectionID = call.connectionID ∧ CircuitActs c call t c' call'.phase := by
  unfold circuitAct at h
  split at h
  next _ => cases h
  next ht =>
    refine ⟨Int.not_lt.mp ht, ?_⟩
    dsimp only at h
    split at h
    next hphase =>
      cases h
      exact ⟨rfl, .set hphase⟩
    next hphase =>
      split at h
      next hempty =>
        cases h
        exact ⟨rfl, .missed hphase (.inl hempty)⟩
      next _ =>
        split at h
        next hnone =>
          cases h
          exact ⟨rfl, .missed hphase (.inr hnone)⟩
        next hentry =>
          cases h
          exact ⟨rfl, .read hphase hentry⟩
    next hphase =>
      split at h
      next hlate =>
        cases h
        exact ⟨rfl, .expired hphase hlate⟩
      next hfresh =>
        cases h
        exact ⟨rfl, .evaluated hphase (Int.not_lt.mp hfresh)⟩
    next hphase =>
      cases h
      exact ⟨rfl, .deleted hphase⟩
    next _ => cases h
    next _ => cases h

theorem CircuitActs.now {c c' : CircuitStateCache} {call : CircuitCall} {t : Int} {phase : CircuitPhase}
    (h : CircuitActs c call t c' phase) : c'.now = t := by
  cases h <;> simp

theorem CircuitActs.data_of_ne {c c' : CircuitStateCache} {call : CircuitCall} {t : Int} {phase : CircuitPhase}
    (h : CircuitActs c call t c' phase) {id : Text} (hid : id ≠ call.connectionID) :
    c'.data id = c.data id := by
  cases h with
  | set hphase => exact (CircuitStateCache.set_of_ne _ _ hid)
  | deleted hphase => exact (CircuitStateCache.put_of_ne _ _ hid)
  | _ => rfl

/-! ## An entry that is kept -/

section EntryKept

variable {id : Text} {deadline : Int}

/-- A call that read after the `Set` has the entry that was set then, as long as it is valid. -/
def CircuitPhase.Follows (deadline now : Int) : CircuitPhase → Prop
  | .holding entry => now ≤ deadline → entry = ⟨"open".toList, deadline⟩
  | .deleting evaluated => deadline < evaluated
  | .answered isOpen evaluated => evaluated ≤ deadline → isOpen = true
  | _ => True

theorem CircuitPhase.Follows.later {now t : Int} {phase : CircuitPhase} (h : phase.Follows deadline now)
    (ht : now ≤ t) : phase.Follows deadline t := by
  cases phase with
  | holding entry => exact fun hin => h (Int.le_trans ht hin)
  | _ => exact h

variable (id deadline)

/-- The entry that was set in the state `start` is there until its deadline. -/
structure EntryKept (start p : CircuitCalls) : Prop where
  data : p.shared.now ≤ deadline → p.shared.data id = some ⟨"open".toList, deadline⟩
  noStale : p.shared.now ≤ deadline → NoStale id deadline p
  follows : ∀ j call, Unread start j → p.threads[j]? = some call → call.connectionID = id →
    call.phase.Follows deadline p.shared.now

variable {id deadline} {start p p' : CircuitCalls}

theorem entryKept_start (hdata : start.shared.data id = some ⟨"open".toList, deadline⟩)
    (hstale : NoStale id deadline start) : EntryKept id deadline start start where
  data _ := hdata
  noStale _ := hstale
  follows j call hunread hcall _ := by
    rw [hunread call hcall]
    trivial

theorem EntryKept.join (h : EntryKept id deadline start p) {call : CircuitCall} (hnew : call.isNew = true) :
    EntryKept id deadline start { p with threads := p.threads ++ [call] } where
  data := h.data
  noStale hin := by
    refine forall_mem_join (h.noStale hin) fun _ => ⟨fun evaluated hphase => ?_, fun entry hphase => ?_⟩
    · simp [CircuitCall.isNew, hphase] at hnew
    · simp [CircuitCall.isNew, hphase] at hnew
  follows j c hunread hc hid := by
    rcases getElem?_append_cases hc with ⟨-, rfl⟩ | hold
    · unfold CircuitCall.isNew at hnew
      split at hnew
      next hphase =>
        rw [hphase]
        trivial
      next hphase =>
        rw [hphase]
        trivial
      next _ => cases hnew
    · exact h.follows j c hunread hold hid

/-- A call makes a step in time: it does not touch the entry. -/
theorem EntryKept.act_data (h : EntryKept id deadline start p) {i : Nat} {call : CircuitCall} {t : Int}
    {c' : CircuitStateCache} {phase : CircuitPhase} (hcall : p.threads[i]? = some call)
    (hset : ¬Sets id p (.act i t)) (hacts : CircuitActs p.shared call t c' phase)
    (ht : p.shared.now ≤ t) (hin : t ≤ deadline) : c'.data id = some ⟨"open".toList, deadline⟩ := by
  have hnow := Int.le_trans ht hin
  by_cases hid : id = call.connectionID
  · subst hid
    cases hacts with
    | @set state hphase =>
        have hempty : state = [] := by
          by_contra hne
          exact hset ⟨state, hne, by rw [hcall, ← hphase]⟩
        rw [CircuitStateCache.set, if_pos (.inr hempty)]
        exact h.data hnow
    | deleted hphase => exact absurd hphase ((h.noStale hnow call (List.mem_of_getElem? hcall) rfl).1 _)
    | _ => exact h.data hnow
  · rw [hacts.data_of_ne hid]
    exact h.data hnow

/-- In time, a call does not come to delete the entry. -/
theorem EntryKept.act_phase (h : EntryKept id deadline start p) {i : Nat} {call : CircuitCall} {t : Int}
    {c' : CircuitStateCache} {phase : CircuitPhase} (hcall : p.threads[i]? = some call)
    (hid : call.connectionID = id) (hacts : CircuitActs p.shared call t c' phase)
    (ht : p.shared.now ≤ t) (hin : t ≤ deadline) :
    (∀ evaluated, phase ≠ .deleting evaluated) ∧ ∀ entry, phase = .holding entry → deadline ≤ entry.expiresAt := by
  subst hid
  have hnow := Int.le_trans ht hin
  have hstale := h.noStale hnow call (List.mem_of_getElem? hcall) rfl
  cases hacts with
  | read hphase hentry =>
      rw [h.data hnow] at hentry
      cases hentry
      refine ⟨nofun, fun entry heq => ?_⟩
      cases heq
      exact Int.le_refl _
  | expired hphase hlate =>
      have hvalid := hstale.2 _ hphase
      omega
  | _ => exact ⟨nofun, nofun⟩

/-- A call that read after the `Set` goes on with what it read. -/
theorem EntryKept.act_follows (h : EntryKept id deadline start p) {i : Nat} {call : CircuitCall} {t : Int}
    {c' : CircuitStateCache} {phase : CircuitPhase} (hcall : p.threads[i]? = some call)
    (hunread : Unread start i) (hne : id ≠ []) (hid : call.connectionID = id)
    (hacts : CircuitActs p.shared call t c' phase) (ht : p.shared.now ≤ t) : phase.Follows deadline t := by
  have hfollows := h.follows i call hunread hcall hid
  subst hid
  cases hacts with
  | set hphase => trivial
  | missed hphase hnone =>
      intro hin
      rcases hnone with hempty | hnone
      · exact absurd hempty hne
      · rw [h.data (Int.le_trans ht hin)] at hnone
        cases hnone
  | read hphase hentry =>
      intro hin
      rw [h.data (Int.le_trans ht hin)] at hentry
      cases hentry
      rfl
  | @expired entry hphase hlate =>
      rw [hphase] at hfollows
      by_contra hin
      have hdeadline := Int.not_lt.mp hin
      rw [hfollows (Int.le_trans ht hdeadline)] at hlate
      exact hin hlate
  | evaluated hphase hfresh =>
      intro hin
      rw [hphase] at hfollows
      rw [hfollows (Int.le_trans ht hin)]
      exact decide_eq_true rfl
  | deleted hphase =>
      rw [hphase] at hfollows
      intro hin
      exact absurd hfollows (Int.not_lt.mpr hin)

theorem EntryKept.step {e : PoolEvent CircuitCall Int} (h : EntryKept id deadline start p) (hne : id ≠ [])
    (hset : ¬Sets id p e) (hs : circuitStep p e = some p') : EntryKept id deadline start p' := by
  rcases poolStep_cases hs with ⟨call, rfl, hnew, rfl⟩ | ⟨i, t, call, c', call', rfl, hcall, hact, rfl⟩
  · exact h.join hnew
  · obtain ⟨ht, hid, hacts⟩ := circuitActs_of_circuitAct hact
    have hnow := hacts.now
    refine ⟨fun hin => ?_, fun hin => ?_, fun j c hunread hc hcid => ?_⟩
    · exact h.act_data hcall hset hacts ht (by rwa [hnow] at hin)
    · have hin' : t ≤ deadline := by rwa [hnow] at hin
      refine forall_mem_set (h.noStale (Int.le_trans ht hin')) fun hcid => ?_
      exact h.act_phase hcall (hid.symm.trans hcid) hacts ht hin'
    · show c.phase.Follows deadline c'.now
      rw [hnow]
      rcases getElem?_set_cases hc with ⟨rfl, rfl⟩ | ⟨-, hold⟩
      · exact h.act_follows hcall hunread hne (hid.symm.trans hcid) hacts ht
      · exact (h.follows j c hunread hold hcid).later ht

theorem staysOpen_of_noStale (hne : id ≠ []) (hdata : start.shared.data id = some ⟨"open".toList, deadline⟩)
    (hstale : NoStale id deadline start) : StaysOpen id deadline start := by
  intro es p' hrun hsets j isOpen evaluated hunread hanswer hin
  have hkept : Along circuitStep (EntryKept id deadline start) start es :=
    Along.of_each (fun h hset hs => h.step hne hset hs) (entryKept_start hdata hstale) hsets
  exact (hkept.last hrun).follows j _ hunread hanswer rfl hin

end EntryKept

/-! ## An entry that is deleted -/

section Stale

variable {id : Text} {deadline : Int} {p p' : CircuitCalls}

theorem CircuitActs.ne_reading {c c' : CircuitStateCache} {call : CircuitCall} {t : Int}
    {phase : CircuitPhase} (h : CircuitActs c call t c' phase) : phase ≠ .reading := by
  cases h <;> simp

theorem Unread.before {e : PoolEvent CircuitCall Int} {j : Nat} (hs : circuitStep p e = some p')
    (h : Unread p' j) : Unread p j := by
  intro call hcall
  rcases poolStep_cases hs with ⟨new, rfl, -, rfl⟩ | ⟨i, t, c, c', c'', rfl, hc, hact, rfl⟩
  · obtain ⟨hlt, -⟩ := List.getElem?_eq_some_iff.mp hcall
    exact h call ((List.getElem?_append_left hlt).trans hcall)
  · by_cases hij : i = j
    · subst hij
      obtain ⟨-, -, hacts⟩ := circuitActs_of_circuitAct hact
      obtain ⟨hlt, -⟩ := List.getElem?_eq_some_iff.mp hcall
      exact absurd (h _ (List.getElem?_set_self hlt)) hacts.ne_reading
    · exact h call ((List.getElem?_set_ne hij).trans hcall)

theorem circuitStep_act {j : Nat} {call call' : CircuitCall} {t : Int} {c' : CircuitStateCache}
    (hj : p.threads[j]? = some call) (hact : circuitAct p.shared call t = some (c', call')) :
    circuitStep p (.act j t) = some { shared := c', threads := p.threads.set j call' } := by
  rw [circuitStep, poolStep_act hj, hact]
  rfl

theorem not_sets_act {j : Nat} {call : CircuitCall} {t : Int} (hj : p.threads[j]? = some call)
    (hphase : ∀ state, call.phase ≠ .setting state) : ¬Sets id p (.act j t) := by
  rintro ⟨state, -, hsetting⟩
  rw [hj] at hsetting
  cases hsetting
  exact hphase state rfl

/-- What holds from now on holds after a step. -/
theorem StaysOpen.step {e : PoolEvent CircuitCall Int} (h : StaysOpen id deadline p)
    (hset : ¬Sets id p e) (hs : circuitStep p e = some p') : StaysOpen id deadline p' := by
  intro es p'' hrun hsets j isOpen evaluated hunread
  refine h (e :: es) p'' ?_ (.cons hset hs hsets) j isOpen evaluated (hunread.before hs)
  rw [runs, List.foldlM_cons, hs]
  exact hrun

/-- A call that comes when there is no entry. -/
theorem not_staysOpen_of_missing (hnow : p.shared.now ≤ deadline)
    (hnone : id = [] ∨ p.shared.data id = none) : ¬StaysOpen id deadline p := by
  intro h
  let joined : CircuitCalls := { p with threads := p.threads ++ [⟨id, .reading⟩] }
  have hjoin : circuitStep p (.join ⟨id, .reading⟩) = some joined := rfl
  have hlast : joined.threads[p.threads.length]? = some ⟨id, .reading⟩ := by simp [joined]
  let answered : CircuitCalls :=
    { shared := p.shared.tick p.shared.now
      threads := joined.threads.set p.threads.length ⟨id, .answered false p.shared.now⟩ }
  have hact : circuitAct p.shared ⟨id, .reading⟩ p.shared.now =
      some (p.shared.tick p.shared.now, ⟨id, .answered false p.shared.now⟩) := by
    rcases hnone with rfl | hnone
    · simp [circuitAct]
    · simp [circuitAct, hnone]
  have hanswer : circuitStep joined (.act p.threads.length p.shared.now) = some answered :=
    circuitStep_act hlast hact
  have hnext := h.step (e := .join ⟨id, .reading⟩) not_false hjoin
  have hopen := hnext [.act p.threads.length p.shared.now] answered
    (by rw [runs, List.foldlM_cons, hanswer]; rfl) (.cons ?_ hanswer trivial) p.threads.length false
    p.shared.now ?_ ?_ hnow
  · cases hopen
  · exact not_sets_act hlast fun state hphase => by cases hphase
  · intro call hcall
    rw [hlast] at hcall
    cases hcall
    rfl
  · exact List.getElem?_set_self (by simp [joined])

/-- A call that deletes the entry. -/
theorem not_staysOpen_of_deleting {call : CircuitCall} (hcall : call ∈ p.threads)
    (hid : call.connectionID = id) {evaluated : Int} (hphase : call.phase = .deleting evaluated)
    (hnow : p.shared.now ≤ deadline) : ¬StaysOpen id deadline p := by
  intro h
  obtain ⟨j, hj⟩ := List.mem_iff_getElem?.mp hcall
  have hact : circuitAct p.shared call p.shared.now =
      some ((p.shared.tick p.shared.now).put call.connectionID none,
        ⟨call.connectionID, .answered false evaluated⟩) := by
    simp [circuitAct, hphase]
  have hset : ¬Sets id p (.act j p.shared.now) := not_sets_act hj fun state heq => by simp [hphase] at heq
  refine not_staysOpen_of_missing ?_ (.inr ?_) (h.step hset (circuitStep_act hj hact))
  · exact hnow
  · subst hid
    exact CircuitStateCache.put_self ..

/-- A call that finds its entry expired by the deadline. -/
theorem not_staysOpen_of_holding {call : CircuitCall} (hcall : call ∈ p.threads)
    (hid : call.connectionID = id) {entry : CachedCircuitState} (hphase : call.phase = .holding entry)
    (hexpired : entry.expiresAt < deadline) (hnow : p.shared.now ≤ deadline) : ¬StaysOpen id deadline p := by
  intro h
  obtain ⟨j, hj⟩ := List.mem_iff_getElem?.mp hcall
  obtain ⟨hlt, -⟩ := List.getElem?_eq_some_iff.mp hj
  have hact : circuitAct p.shared call deadline =
      some (p.shared.tick deadline, ⟨call.connectionID, .deleting deadline⟩) := by
    simp [circuitAct, hphase, hexpired, Int.not_lt.mpr hnow]
  have hset : ¬Sets id p (.act j deadline) := not_sets_act hj fun state heq => by simp [hphase] at heq
  have hnext := h.step hset (circuitStep_act hj hact)
  let stale : CircuitCall := ⟨call.connectionID, .deleting deadline⟩
  have hmem : stale ∈ p.threads.set j stale := List.mem_of_getElem? (List.getElem?_set_self hlt)
  have hstale : stale.connectionID = id := hid
  exact not_staysOpen_of_deleting hmem hstale rfl (Int.le_refl deadline) hnext

theorem noStale_of_staysOpen (hnow : p.shared.now ≤ deadline) (h : StaysOpen id deadline p) :
    NoStale id deadline p := by
  intro call hcall hid
  refine ⟨fun evaluated hphase => ?_, fun entry hphase => ?_⟩
  · exact not_staysOpen_of_deleting hcall hid hphase hnow h
  · by_contra hexpired
    exact not_staysOpen_of_holding hcall hid hphase (Int.not_le.mp hexpired) hnow h

end Stale

/-- After `Set(id, "open")` every `IsOpen` of the connection is true until the time to live has
passed, whatever calls follow, if and only if the id is not empty and no call that is between its
sections can find its entry expired by then. -/
theorem stays_open_iff {p p' : CircuitCalls} {i : Nat} {id : Text} {t : Int}
    (hcall : p.threads[i]? = some ⟨id, .setting "open".toList⟩) (hs : circuitStep p (.act i t) = some p') :
    StaysOpen id (t + p.shared.ttl) p' ↔ id ≠ [] ∧ NoStale id (t + p.shared.ttl) p' := by
  have hlater : t ≤ t + p.shared.ttl := by
    have hpos := p.shared.ttl_pos
    omega
  rcases poolStep_cases hs with ⟨_, he, -⟩ | ⟨j, t', call, c', call', he, hj, hact, rfl⟩
  · cases he
  · cases he
    rw [hcall] at hj
    cases hj
    obtain ⟨-, -, hacts⟩ := circuitActs_of_circuitAct hact
    have hnow : c'.now ≤ t + p.shared.ttl := by
      rw [hacts.now]
      exact hlater
    constructor
    · intro h
      refine ⟨?_, noStale_of_staysOpen hnow h⟩
      rintro rfl
      exact not_staysOpen_of_missing hnow (.inl rfl) h
    · rintro ⟨hne, hstale⟩
      refine staysOpen_of_noStale hne ?_ hstale
      generalize call'.phase = phase at hacts
      cases hacts with
      | set hphase =>
          cases hphase
          rw [CircuitStateCache.set, if_neg (by simp [hne]), if_neg (by decide)]
          exact CircuitStateCache.put_self ..
      | _ => contradiction

/-- A connection, and a call of `Set` that opens it. -/
def openCall : CircuitCall := ⟨"db".toList, .setting "open".toList⟩

/-- A call of `IsOpen`. -/
def askCall : CircuitCall := ⟨"db".toList, .reading⟩

/-- Without other calls, the connection stays open. -/
theorem stays_open_alone :
    NoStale "db".toList 30 { shared := (newCircuitStateCache 30).set "db".toList "open".toList
                             threads := [⟨"db".toList, .set⟩] } ∧
      StaysOpen "db".toList 30 { shared := (newCircuitStateCache 30).set "db".toList "open".toList
                                 threads := [⟨"db".toList, .set⟩] } := by
  let p : CircuitCalls := { shared := newCircuitStateCache 30, threads := [openCall] }
  have hstale : NoStale "db".toList 30 { shared := (newCircuitStateCache 30).set "db".toList "open".toList
                                         threads := [⟨"db".toList, .set⟩] } := by
    simp [NoStale]
  exact ⟨hstale, (stays_open_iff (p := p) (i := 0) (t := 0) rfl rfl).mpr ⟨by decide, hstale⟩⟩

/-- A call reads an entry after its 30 units have passed.  Before it comes to delete it, the
connection is set to open again, until 61.  The next call, at 31, finds nothing. -/
theorem fresh_entry_deleted :
    (runs circuitStep { shared := newCircuitStateCache 30, threads := [] }
        [.join openCall, .act 0 0, .join askCall, .act 1 31, .act 1 31, .join openCall, .act 2 31,
          .act 1 31, .join askCall, .act 3 31]).map (fun p => p.threads.map CircuitCall.phase) =
      some [.set, .answered false 31, .set, .answered false 31] := by
  decide +kernel

end DDAG.Gateway
