import DDAG.Lib.Trace

/-!
# The request log

`requestLogger` of `internal/gatewaysvc/reqlogger.go`: handlers put records into a bounded
channel, and one flusher collects them into batches that it passes to the store, when a batch
is full, at every tick, and when it is cancelled.  A record leaves the pending batch when the
call that it is passed to begins.  Handlers go on during a call, which may fail.

`records_conserved` compares the logger with the records that the events of a run pass to it: none
is lost or passed on twice, batches keep their order, and it says what has become of them when the
flusher returns.
-/

namespace DDAG.GatewaySvc.RequestLog

open Machine

/-! ## The logger -/

/-- The sizes of a logger. -/
structure Sizes where
  bufferSize : Nat
  batchSize : Nat
  buffer_pos : 0 < bufferSize
  batch_pos : 0 < batchSize
  /-- Far below the number of parameters that PostgreSQL binds. -/
  batch_le : batchSize ≤ 4000

theorem buffer_default (n : Int) : 0 < (if n ≤ 0 then 4096 else n).toNat := by
  split <;> omega

/-- A batch size that is positive and not too large. -/
def clampBatch (n : Int) : Int :=
  let n := if n ≤ 0 then 200 else n
  if 4000 < n then 4000 else n

theorem batch_default (n : Int) : 0 < (clampBatch n).toNat ∧ (clampBatch n).toNat ≤ 4000 := by
  unfold clampBatch
  dsimp only
  split_ifs <;> omega

/-- The sizes that `newRequestLogger` makes of what it is given. -/
def newSizes (bufferSize batchSize : Int) : Sizes where
  bufferSize := (if bufferSize ≤ 0 then 4096 else bufferSize).toNat
  batchSize := (clampBatch batchSize).toNat
  buffer_pos := buffer_default bufferSize
  batch_pos := (batch_default batchSize).1
  batch_le := (batch_default batchSize).2

/-- Where the flusher is in `run`. -/
inductive Stage where
  | loop
  /-- In the loop that empties the channel after the cancellation. -/
  | draining
  /-- After the last flush. -/
  | returned
deriving DecidableEq

structure RequestLogger (ρ : Type*) where
  sizes : Sizes
  ch : List ρ := []
  batch : List ρ := []
  dropped : Nat := 0
  /-- The context of the flusher is done. -/
  cancelled : Bool := false
  stage : Stage := .loop
  /-- A call of `InsertRequestLogBatch` has not returned. -/
  inserting : Bool := false
  /-- The calls of `InsertRequestLogBatch`. -/
  calls : List (List ρ) := []

variable {ρ : Type*}

/-- `newRequestLogger` and `start`. -/
def newRequestLogger (ρ : Type*) (bufferSize batchSize : Int) : RequestLogger ρ :=
  { sizes := newSizes bufferSize batchSize }

namespace RequestLogger

def enqueue (l : RequestLogger ρ) (rec : ρ) : RequestLogger ρ :=
  if l.ch.length < l.sizes.bufferSize then { l with ch := l.ch ++ [rec] }
  else { l with dropped := l.dropped + 1 }

/-- `flush`, and where the flusher goes on. -/
def flush (l : RequestLogger ρ) (next : Stage) : RequestLogger ρ :=
  if l.batch = [] then { l with stage := next }
  else { l with calls := l.calls ++ [l.batch], batch := [], inserting := true, stage := next }

def add (l : RequestLogger ρ) (rec : ρ) : RequestLogger ρ :=
  let l := { l with batch := l.batch ++ [rec] }
  if l.sizes.batchSize ≤ l.batch.length then l.flush l.stage else l

/-- A receive from the channel. -/
def receive (l : RequestLogger ρ) : Option (RequestLogger ρ) :=
  match l.ch with
  | [] => none
  | rec :: ch => some ({ l with ch := ch }.add rec)

def finish (l : RequestLogger ρ) : Option (RequestLogger ρ) :=
  if l.ch = [] then some (l.flush .returned) else none

end RequestLogger

inductive FlusherAction where
  | receive
  | tick
  /-- The flusher sees that its context is done. -/
  | done
  | empty
deriving DecidableEq

inductive LogEvent (ρ : Type*) where
  | enqueue (rec : ρ)
  | cancel
  | answer (failed : Bool)
  | flusher (a : FlusherAction)

/-- What the flusher does between two calls to the store. -/
def flusherAct (l : RequestLogger ρ) (a : FlusherAction) : Option (RequestLogger ρ) :=
  match l.stage, a with
  | .loop, .receive => l.receive
  | .loop, .tick => some (l.flush .loop)
  | .loop, .done => if l.cancelled then some { l with stage := .draining } else none
  | .draining, .receive => l.receive
  | .draining, .empty => l.finish
  | _, _ => none

def logStep (l : RequestLogger ρ) : LogEvent ρ → Option (RequestLogger ρ)
  | .enqueue rec => some (l.enqueue rec)
  | .cancel => some { l with cancelled := true }
  -- a failed insert is logged, and its records are given up
  | .answer _ => if l.inserting then some { l with inserting := false } else none
  | .flusher a => if l.inserting then none else flusherAct l a

/-! ## What is conserved -/

/-- The record that an event passes to `enqueue`. -/
def LogEvent.enqueued? : LogEvent ρ → Option ρ
  | .enqueue rec => some rec
  | _ => none

/-- The records that a run passes to `enqueue`, in the order of the calls. -/
def enqueued (es : List (LogEvent ρ)) : List ρ := es.filterMap LogEvent.enqueued?

namespace RequestLogger

/-- The records that were not dropped, those that were received first in front. -/
def kept (l : RequestLogger ρ) : List ρ := l.calls.flatten ++ l.batch ++ l.ch

end RequestLogger

/-- Of the records that were passed to `enqueue`, every one that is not counted as dropped is in
one place: in a call, in the pending batch or in the channel. -/
structure Conserved (recs : List ρ) (l : RequestLogger ρ) : Prop where
  order : l.kept.Sublist recs
  dropped : l.kept.length + l.dropped = recs.length
  /-- Nothing is dropped before the buffer was full. -/
  room : recs.length ≤ l.sizes.bufferSize → l.dropped = 0
  batches : ∀ b ∈ l.calls, b ≠ [] ∧ b.length ≤ l.sizes.batchSize
  buffer : l.ch.length ≤ l.sizes.bufferSize

/-- The invariant, with what is pending. -/
structure Inv (recs : List ρ) (l : RequestLogger ρ) : Prop extends Conserved recs l where
  pending : l.batch.length < l.sizes.batchSize

/-! ## Flushing -/

namespace RequestLogger

variable (l : RequestLogger ρ) (next : Stage)

@[simp] theorem flush_sizes : (l.flush next).sizes = l.sizes := by
  unfold flush
  split <;> rfl

@[simp] theorem flush_ch : (l.flush next).ch = l.ch := by
  unfold flush
  split <;> rfl

@[simp] theorem flush_dropped : (l.flush next).dropped = l.dropped := by
  unfold flush
  split <;> rfl

@[simp] theorem flush_stage : (l.flush next).stage = next := by
  unfold flush
  split <;> rfl

@[simp] theorem flush_batch : (l.flush next).batch = [] := by
  unfold flush
  split
  next h => exact h
  next _ => rfl

@[simp] theorem flush_flatten : (l.flush next).calls.flatten = l.calls.flatten ++ l.batch := by
  unfold flush
  split
  next h => simp [h]
  next _ => simp

@[simp] theorem flush_kept : (l.flush next).kept = l.kept := by
  simp [kept]

@[simp] theorem add_stage (rec : ρ) : (l.add rec).stage = l.stage := by
  unfold add
  dsimp only
  split
  next _ => exact flush_stage _ _
  next _ => rfl

theorem mem_flush_calls {b : List ρ} (h : b ∈ (l.flush next).calls) :
    b ∈ l.calls ∨ (b = l.batch ∧ b ≠ []) := by
  unfold flush at h
  split at h
  next _ => exact .inl h
  next hne =>
    rcases List.mem_append.mp h with hold | hnew
    · exact .inl hold
    · cases List.mem_singleton.mp hnew
      exact .inr ⟨rfl, hne⟩

end RequestLogger

section Steps

variable {recs : List ρ} {l l' : RequestLogger ρ}

theorem Conserved.flush (h : Conserved recs l) (hlen : l.batch.length ≤ l.sizes.batchSize) (next : Stage) :
    Inv recs (l.flush next) where
  order := by simpa using h.order
  dropped := by simpa using h.dropped
  room := by simpa using h.room
  batches b hb := by
    rw [RequestLogger.flush_sizes]
    rcases l.mem_flush_calls next hb with hold | ⟨rfl, hne⟩
    · exact h.batches b hold
    · exact ⟨hne, hlen⟩
  buffer := by simpa using h.buffer
  pending := by simpa using l.sizes.batch_pos

theorem inv_new (bufferSize batchSize : Int) : Inv [] (newRequestLogger ρ bufferSize batchSize) where
  order := .slnil
  dropped := rfl
  room _ := rfl
  batches := List.forall_mem_nil _
  buffer := Nat.zero_le _
  pending := (newSizes bufferSize batchSize).batch_pos

theorem inv_enqueue (h : Inv recs l) (rec : ρ) : Inv (recs ++ [rec]) (l.enqueue rec) := by
  have hdropped := h.dropped
  unfold RequestLogger.enqueue
  split
  next hroom =>
    have hkept : RequestLogger.kept { l with ch := l.ch ++ [rec] } = l.kept ++ [rec] :=
      (List.append_assoc _ _ _).symm
    refine { h with order := ?_, dropped := ?_, room := fun hle => h.room ?_, buffer := ?_ }
    · rw [hkept]
      exact h.order.append (.refl _)
    · rw [hkept, List.length_append, List.length_append]
      dsimp only
      omega
    · rw [List.length_append] at hle
      exact Nat.le_of_add_right_le hle
    · rw [List.length_append]
      exact hroom
  next hfull =>
    refine { h with order := h.order.trans (List.sublist_append_left _ _), dropped := ?_, room := ?_ }
    · rw [List.length_append, ← hdropped]
      rfl
    · -- the channel alone has as many records as the buffer
      intro hle
      have hch : l.ch.length ≤ l.kept.length := (List.sublist_append_right _ _).length_le
      rw [List.length_append, List.length_singleton] at hle
      dsimp only at hle
      omega

theorem inv_receive (h : Inv recs l) (hs : l.receive = some l') : Inv recs l' := by
  unfold RequestLogger.receive at hs
  split at hs
  next _ => cases hs
  next rec ch hch =>
    cases hs
    -- the record moves from the channel to the pending batch
    have hmoved : Conserved recs { l with ch := ch, batch := l.batch ++ [rec] } := by
      have hkept : RequestLogger.kept { l with ch := ch, batch := l.batch ++ [rec] } = l.kept := by
        simp [RequestLogger.kept, hch]
      refine { h with order := hkept ▸ h.order, dropped := hkept ▸ h.dropped, buffer := ?_ }
      have hbuffer := h.buffer
      rw [hch, List.length_cons] at hbuffer
      exact Nat.le_of_succ_le hbuffer
    have hpending := h.pending
    unfold RequestLogger.add
    dsimp only
    split
    next hfull =>
      refine hmoved.flush ?_ _
      simp only [List.length_append, List.length_singleton]
      omega
    next hroom => exact { hmoved with pending := Nat.not_le.mp hroom }

theorem inv_flusherAct (h : Inv recs l) {a : FlusherAction} (hs : flusherAct l a = some l') : Inv recs l' := by
  have hflush : ∀ next, Inv recs (l.flush next) := h.toConserved.flush (Nat.le_of_lt h.pending)
  unfold flusherAct at hs
  split at hs
  next => exact inv_receive h hs
  next =>
    cases hs
    exact hflush .loop
  next =>
    split at hs
    next _ =>
      cases hs
      exact { h with }
    next _ => cases hs
  next => exact inv_receive h hs
  next =>
    unfold RequestLogger.finish at hs
    split at hs
    next _ =>
      cases hs
      exact hflush .returned
    next _ => cases hs
  next => cases hs

theorem inv_step {es : List (LogEvent ρ)} (h : Inv (enqueued es) l) {e : LogEvent ρ}
    (hs : logStep l e = some l') : Inv (enqueued (es ++ [e])) l' := by
  have hsame : e.enqueued? = none → enqueued (es ++ [e]) = enqueued es := fun hnone => by
    simp [enqueued, hnone]
  cases e with
  | enqueue rec =>
      cases hs
      rw [enqueued, List.filterMap_append]
      exact inv_enqueue h rec
  | cancel =>
      cases hs
      rw [hsame rfl]
      exact { h with }
  | answer failed =>
      rw [hsame rfl]
      simp only [logStep] at hs
      split at hs
      next _ =>
        cases hs
        exact { h with }
      next _ => cases hs
  | flusher a =>
      rw [hsame rfl]
      simp only [logStep] at hs
      split at hs
      next _ => cases hs
      next _ => exact inv_flusherAct h hs

/-- The flusher goes on in its loops until the drain finds the channel empty. -/
theorem flusherAct_returned {a : FlusherAction} (hs : flusherAct l a = some l')
    (hstage : l'.stage = .returned) : a = .empty ∧ l.ch = [] ∧ l' = l.flush .returned := by
  have hreceive : l.stage ≠ .returned → l.receive ≠ some l' := by
    intro hne hr
    unfold RequestLogger.receive at hr
    split at hr
    next _ => cases hr
    next rec ch _ =>
      cases hr
      exact hne (by simpa using hstage)
  unfold flusherAct at hs
  split at hs
  next hloop => exact absurd hs (hreceive (by rw [hloop]; nofun))
  next =>
    cases hs
    simp at hstage
  next =>
    split at hs
    next _ =>
      cases hs
      cases hstage
    next _ => cases hs
  next hdrain => exact absurd hs (hreceive (by rw [hdrain]; nofun))
  next =>
    unfold RequestLogger.finish at hs
    split at hs
    next hempty =>
      cases hs
      exact ⟨rfl, hempty, rfl⟩
    next _ => cases hs
  next => cases hs

/-- A flusher that has returned passes nothing on. -/
theorem step_returned {e : LogEvent ρ} (hs : logStep l e = some l') (hstage : l'.stage = .returned) :
    (l.stage = .returned ∧ l'.calls = l.calls) ∨
      (e = .flusher .empty ∧ l.ch = [] ∧ l' = l.flush .returned) := by
  cases e with
  | enqueue rec =>
      cases hs
      unfold RequestLogger.enqueue at hstage ⊢
      split at hstage
      next hroom =>
        rw [if_pos hroom]
        exact .inl ⟨hstage, rfl⟩
      next hfull =>
        rw [if_neg hfull]
        exact .inl ⟨hstage, rfl⟩
  | cancel =>
      cases hs
      exact .inl ⟨hstage, rfl⟩
  | answer failed =>
      simp only [logStep] at hs
      split at hs
      next _ =>
        cases hs
        exact .inl ⟨hstage, rfl⟩
      next _ => cases hs
  | flusher a =>
      simp only [logStep] at hs
      split at hs
      next _ => cases hs
      next _ =>
        obtain ⟨rfl, hempty, heq⟩ := flusherAct_returned hs hstage
        exact .inr ⟨rfl, hempty, heq⟩

end Steps

/-! ## Runs -/

section Runs

variable {bufferSize batchSize : Int} {es : List (LogEvent ρ)} {l : RequestLogger ρ}

theorem runs_inv (h : runs logStep (newRequestLogger ρ bufferSize batchSize) es = some l) :
    Inv (enqueued es) l :=
  runs_induction (I := fun es l => Inv (enqueued es) l) (inv_new bufferSize batchSize)
    (fun _ h hs => inv_step h hs) h

/-- The records of a run before the drain found the channel empty were dropped and counted or
passed on. -/
structure Drained (bufferSize batchSize : Int) (before : List (LogEvent ρ)) (l : RequestLogger ρ) : Prop where
  order : l.calls.flatten.Sublist (enqueued before)
  dropped : ∃ m, runs logStep (newRequestLogger ρ bufferSize batchSize) before = some m ∧ m.ch = [] ∧
    l.calls.flatten.length + m.dropped = (enqueued before).length

/-- The flusher returned at the end of the drain. -/
theorem runs_returned (h : runs logStep (newRequestLogger ρ bufferSize batchSize) es = some l)
    (hstage : l.stage = .returned) :
    ∃ before after, es = before ++ .flusher .empty :: after ∧ Drained bufferSize batchSize before l := by
  refine runs_induction (I := fun es l => l.stage = .returned → ∃ before after,
    es = before ++ .flusher .empty :: after ∧ Drained bufferSize batchSize before l) ?_ ?_ h hstage
  · intro hstart
    cases hstart
  intro es e m l hrun ih hs hstage
  rcases step_returned hs hstage with ⟨hold, hcalls⟩ | ⟨rfl, hempty, rfl⟩
  · obtain ⟨before, after, rfl, horder, hdropped⟩ := ih hold
    rw [← hcalls] at horder hdropped
    exact ⟨before, after ++ [e], by simp, horder, hdropped⟩
  · -- what was in the channel and in the batch is passed on
    have hinv := runs_inv hrun
    have hkept : (m.flush .returned).calls.flatten = m.kept := by
      simp [RequestLogger.kept, hempty]
    refine ⟨es, [], rfl, ⟨?_, m, hrun, hempty, ?_⟩⟩
    · rw [hkept]
      exact hinv.order
    · rw [hkept]
      exact hinv.dropped

end Runs

/-- In every state of every run of a logger, in any interleaving of the handlers, the flusher,
the ticks, the answers of the store and the cancellation: every record that was passed to
`enqueue` is dropped and counted, in the channel, in the pending batch or in one call, calls are
neither empty nor too long and keep the order of the records, and when the flusher has returned,
all records passed before the drain saw an empty channel are dropped and counted or passed on. -/
theorem records_conserved (bufferSize batchSize : Int) (es : List (LogEvent ρ)) {l : RequestLogger ρ}
    (h : runs logStep (newRequestLogger ρ bufferSize batchSize) es = some l) :
    Conserved (enqueued es) l ∧ (l.stage = .returned → ∃ before after,
      es = before ++ .flusher .empty :: after ∧ Drained bufferSize batchSize before l) :=
  ⟨(runs_inv h).toConserved, runs_returned h⟩

/-- A record that finds the channel full is dropped, and one that comes after the drain stays
in the channel. -/
theorem five_records_conserved :
    let es : List (LogEvent Nat) :=
      [.enqueue 1, .enqueue 2, .enqueue 3, .flusher .receive, .flusher .receive, .answer true,
        .enqueue 4, .cancel, .flusher .done, .flusher .receive, .flusher .empty, .enqueue 5,
        .answer false]
    ∃ l, runs logStep (newRequestLogger Nat 2 2) es = some l ∧
      (l.calls, l.ch, l.dropped, l.stage) = ([[1, 2], [4]], [5], 1, .returned) ∧
      Conserved [1, 2, 3, 4, 5] l := by
  intro es
  have hrun : (runs logStep (newRequestLogger Nat 2 2) es).map (fun l => (l.calls, l.ch, l.dropped, l.stage)) =
      some ([[1, 2], [4]], [5], 1, .returned) := by decide
  obtain ⟨l, hl, heq⟩ := Option.map_eq_some_iff.mp hrun
  exact ⟨l, hl, heq, (records_conserved 2 2 es hl).1⟩

end DDAG.GatewaySvc.RequestLog
