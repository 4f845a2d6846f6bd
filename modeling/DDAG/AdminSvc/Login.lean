import DDAG.Httpx
import DDAG.Lib.Pool
import DDAG.Lib.Trace

/-!
# Failed logins

`handleLogin` of `internal/adminsvc/auth.go` with `RecordLoginFailure` and `RecordLoginSuccess` of
`internal/store/identity.go`.  A request reads the row of the user, looks at the lock in the row
it has read, compares the password, and records the result in the row there is by then.  The error
of recording is ignored.

Between its read and its record a request is in flight, and knows nothing of the failures that
others record.  `comparisons_le` bounds the comparisons before the lockout window has passed by
the threshold and the number of requests in flight at a time.  So the threshold itself is kept
exactly if requests are in flight one at a time (`lockout_bound_iff`).
-/

namespace DDAG.AdminSvc

open Machine Httpx

/-! ## The source -/

structure SessionConfig where
  maxFailedLogin : Int
  lockoutWindow : Int

/-- The columns of `users` that logins read and write. -/
structure UserRow where
  active : Bool := true
  failedLoginCount : Nat := 0
  lockedUntil : Option Int := none
deriving DecidableEq

def UserRow.recordLoginSuccess (u : UserRow) : UserRow :=
  { u with failedLoginCount := 0, lockedUntil := none }

def UserRow.recordLoginFailure (u : UserRow) (cfg : SessionConfig) (now : Int) : UserRow :=
  { u with
    failedLoginCount := u.failedLoginCount + 1
    lockedUntil :=
      if cfg.maxFailedLogin ≤ (u.failedLoginCount + 1 : Nat) then some (now + cfg.lockoutWindow)
      else u.lockedUntil }

/-- `user.LockedUntil != nil && user.LockedUntil.After(now)`. -/
def UserRow.isLocked (u : UserRow) (now : Int) : Bool := u.lockedUntil.any fun t => now < t

inductive LoginPhase where
  | start
  | read (user : UserRow)
  | compared (correct : Bool)
  | answered (error : Option APIError)
deriving DecidableEq

structure Login where
  password : Text
  phase : LoginPhase := .start
deriving DecidableEq

/-- The account, the clock, and what was made of it. -/
structure Account where
  user : UserRow := {}
  now : Int := 0
  /-- Ghost: how often a password was compared. -/
  comparisons : Nat := 0
  /-- Ghost: the end of the first lockout window. -/
  firstLock : Option Int := none
deriving DecidableEq

def Account.tick (s : Account) (now : Int) : Account := { s with now := now }

@[simp] theorem Account.tick_user (s : Account) (now : Int) : (s.tick now).user = s.user := rfl
@[simp] theorem Account.tick_now (s : Account) (now : Int) : (s.tick now).now = now := rfl
@[simp] theorem Account.tick_firstLock (s : Account) (now : Int) : (s.tick now).firstLock = s.firstLock := rfl
@[simp] theorem Account.tick_comparisons (s : Account) (now : Int) :
    (s.tick now).comparisons = s.comparisons := rfl

def Account.compare (s : Account) : Account := { s with comparisons := s.comparisons + 1 }

@[simp] theorem Account.compare_user (s : Account) : s.compare.user = s.user := rfl
@[simp] theorem Account.compare_comparisons (s : Account) : s.compare.comparisons = s.comparisons + 1 := rfl

/-- A step of a request: a statement may fail. -/
inductive LoginStep where
  | read (fails : Bool)
  | compare
  | record (fails : Bool)
deriving DecidableEq

structure LoginAction where
  step : LoginStep
  time : Int := 0
deriving DecidableEq

def invalidCredentials : APIError := newError .unauthorized "invalid credentials"

def Account.fail (s : Account) (cfg : SessionConfig) : Account :=
  let user := s.user.recordLoginFailure cfg s.now
  { s with user := user, firstLock := s.firstLock.or user.lockedUntil }

section Source

-- the hash of the account's password against a password
variable (cfg : SessionConfig) (checkPassword : Text → Bool)

/-- One step of a request, at a time that is not earlier than the last one. -/
def loginAct (s : Account) (l : Login) (a : LoginAction) : Option (Account × Login) :=
  if a.time < s.now then none
  else
    let s := s.tick a.time
    match l.phase, a.step with
    | .start, .read true => some (s, { l with phase := .answered (some invalidCredentials) })
    | .start, .read false => some (s, { l with phase := .read s.user })
    | .read user, .compare =>
        if !user.active then
          some (s, { l with phase := .answered (some (newError .forbidden "account is inactive")) })
        else if user.isLocked s.now then
          some (s, { l with phase := .answered (some (newError .forbidden "account is temporarily locked")) })
        else
          some (s.compare, { l with phase := .compared (checkPassword l.password) })
    | .compared false, .record fails =>
        some (if fails then s else s.fail cfg, { l with phase := .answered (some invalidCredentials) })
    | .compared true, .record fails =>
        some (if fails then s else { s with user := s.user.recordLoginSuccess },
          { l with phase := .answered none })
    | _, _ => none

def Login.isNew (l : Login) : Bool := l.phase = .start

abbrev Logins := Pool Account Login

def loginStep (p : Logins) (e : PoolEvent Login LoginAction) : Option Logins :=
  poolStep Login.isNew (loginAct cfg checkPassword) p e

def unlocked (now : Int) : Logins := { shared := { now := now }, threads := [] }

/-! ## Guesses -/

/-- The request has read the row and not recorded its result. -/
def Login.inFlight (l : Login) : Nat :=
  match l.phase with
  | .read _ | .compared _ => 1
  | _ => 0

/-- The account's first lockout window has not passed. -/
def Account.withinWindow (s : Account) : Prop := ∀ t, s.firstLock = some t → s.now < t

/-- A request with a wrong password comes, or one makes a step in which recording does not fail. -/
def isGuess : PoolEvent Login LoginAction → Bool
  | .join l => !checkPassword l.password
  | .act _ a => a.step ≠ .record true

/-- At most `k` requests are in flight, and the lockout window has not passed. -/
def Guessing (k : Nat) (p : Logins) : Prop := total Login.inFlight p.threads ≤ k ∧ p.shared.withinWindow

end Source

/-! ## What a step does -/

/-- The steps of a request. -/
inductive LoginActs (cfg : SessionConfig) (checkPassword : Text → Bool) (s : Account) (l : Login)
    (t : Int) : LoginStep → Account → LoginPhase → Prop
  | readFailed (hphase : l.phase = .start) :
      LoginActs cfg checkPassword s l t (.read true) (s.tick t) (.answered (some invalidCredentials))
  | read (hphase : l.phase = .start) :
      LoginActs cfg checkPassword s l t (.read false) (s.tick t) (.read s.user)
  | refused {user : UserRow} (hphase : l.phase = .read user) (e : APIError) :
      LoginActs cfg checkPassword s l t .compare (s.tick t) (.answered (some e))
  | compared {user : UserRow} (hphase : l.phase = .read user) (hfree : user.isLocked t = false) :
      LoginActs cfg checkPassword s l t .compare (s.tick t).compare (.compared (checkPassword l.password))
  | lost (hphase : l.phase = .compared false) :
      LoginActs cfg checkPassword s l t (.record true) (s.tick t)
        (.answered (some invalidCredentials))
  | failed (hphase : l.phase = .compared false) :
      LoginActs cfg checkPassword s l t (.record false) ((s.tick t).fail cfg)
        (.answered (some invalidCredentials))
  | succeeded (hphase : l.phase = .compared true) (fails : Bool) (s' : Account) :
      LoginActs cfg checkPassword s l t (.record fails) s' (.answered none)

section Bound

variable {cfg : SessionConfig} {checkPassword : Text → Bool}

theorem loginActs_of_loginAct {s s' : Account} {l l' : Login} {a : LoginAction}
    (h : loginAct cfg checkPassword s l a = some (s', l')) :
    s.now ≤ a.time ∧ l'.password = l.password ∧ LoginActs cfg checkPassword s l a.time a.step s' l'.phase := by
  obtain ⟨step, t⟩ := a
  unfold loginAct at h
  split at h
  next _ => cases h
  next htime =>
    refine ⟨Int.not_lt.mp htime, ?_⟩
    dsimp only at h
    split at h
    next hphase =>
      cases h
      exact ⟨rfl, .readFailed hphase⟩
    next hphase =>
      cases h
      exact ⟨rfl, .read hphase⟩
    next hphase =>
      split at h
      next _ =>
        cases h
        exact ⟨rfl, .refused hphase _⟩
      next _ =>
        split at h
        next _ =>
          cases h
          exact ⟨rfl, .refused hphase _⟩
        next hfree =>
          cases h
          exact ⟨rfl, .compared hphase (Bool.of_not_eq_true hfree)⟩
    next fails hphase =>
      cases h
      cases fails with
      | true => exact ⟨rfl, .lost hphase⟩
      | false => exact ⟨rfl, .failed hphase⟩
    next fails hphase =>
      cases h
      exact ⟨rfl, .succeeded hphase fails _⟩
    next _ => cases h

/-! ## The bound -/

/-- The password is compared and the result not recorded. -/
def Login.unrecorded (l : Login) : Nat :=
  match l.phase with
  | .compared _ => 1
  | _ => 0

/-- The request may still record a failure: its row is not locked, or it has compared. -/
def Login.pending (l : Login) : Nat :=
  match l.phase with
  | .read user => if user.lockedUntil = none then 1 else 0
  | .compared _ => 1
  | _ => 0

theorem Login.unrecorded_le_pending (l : Login) : l.unrecorded ≤ l.pending := by
  obtain ⟨password, phase⟩ := l
  cases phase with
  | compared correct => exact Nat.le_refl 1
  | _ => exact Nat.zero_le _

theorem Login.pending_le_inFlight (l : Login) : l.pending ≤ l.inFlight := by
  obtain ⟨password, phase⟩ := l
  cases phase with
  | read user =>
      simp only [Login.pending, Login.inFlight]
      split
      next _ => exact Nat.le_refl 1
      next _ => exact Nat.zero_le 1
  | _ => exact Nat.le_refl _

/-- A lock in a row ends no earlier than the first one. -/
def NoEarlier (first lock : Option Int) : Prop := ∀ t, lock = some t → ∃ f, first = some f ∧ f ≤ t

theorem NoEarlier.or {first lock : Option Int} (h : NoEarlier first lock) (o : Option Int) :
    NoEarlier (first.or o) lock := by
  intro t ht
  obtain ⟨f, hf, hle⟩ := h t ht
  exact ⟨f, by rw [hf]; rfl, hle⟩

variable (cfg checkPassword)

/-- Every comparison is recorded or pending, and once the account is locked nothing becomes
pending any more. -/
structure Bounded (k : Nat) (p : Logins) : Prop where
  counted : p.shared.comparisons = p.shared.user.failedLoginCount + total Login.unrecorded p.threads
  bound : (p.shared.user.failedLoginCount : Int) < cfg.maxFailedLogin ∨
    (p.shared.user.failedLoginCount + total Login.pending p.threads + 1 : Int) ≤ cfg.maxFailedLogin + k
  unlocked : (p.shared.user.failedLoginCount : Int) < cfg.maxFailedLogin →
    p.shared.user.lockedUntil = none ∧ p.shared.firstLock = none
  locked : cfg.maxFailedLogin ≤ p.shared.user.failedLoginCount → p.shared.user.lockedUntil ≠ none
  lock : NoEarlier p.shared.firstLock p.shared.user.lockedUntil
  first : ∀ f, p.shared.firstLock = some f → f ≤ p.shared.now + cfg.lockoutWindow
  rows : ∀ l ∈ p.threads, ∀ user, l.phase = .read user → NoEarlier p.shared.firstLock user.lockedUntil
  wrong : ∀ l ∈ p.threads, checkPassword l.password = false ∧ l.phase ≠ .compared true

variable {cfg checkPassword} {k : Nat} {p p' : Logins}

theorem bounded_unlocked (hmax : 1 ≤ cfg.maxFailedLogin) (now : Int) :
    Bounded cfg checkPassword k (unlocked now) where
  counted := rfl
  bound := .inl hmax
  unlocked _ := ⟨rfl, rfl⟩
  locked h := absurd h (by simpa [AdminSvc.unlocked] using Int.not_le.mpr hmax)
  lock t ht := nomatch ht
  first f hf := nomatch hf
  rows l hl := nomatch hl
  wrong l hl := nomatch hl

/-- No more comparisons than the threshold and the requests in flight allow. -/
theorem Bounded.comparisons_le (h : Bounded cfg checkPassword k p) (hflight : total Login.inFlight p.threads ≤ k) :
    (p.shared.comparisons + 1 : Int) ≤ cfg.maxFailedLogin + k := by
  have hcounted := h.counted
  have hpending := total_le_total Login.unrecorded_le_pending p.threads
  have hinFlight := total_le_total Login.pending_le_inFlight p.threads
  rcases h.bound with hfew | hbound
  · omega
  · omega

theorem Bounded.move (h : Bounded cfg checkPassword k p) {i : Nat} {l l' : Login} {t : Int}
    (hl : p.threads[i]? = some l) (ht : p.shared.now ≤ t) (hunrecorded : l'.unrecorded = l.unrecorded)
    (hpending : (p.shared.user.failedLoginCount : Int) < cfg.maxFailedLogin ∨ l'.pending ≤ l.pending)
    (hrow : ∀ user, l'.phase = .read user → NoEarlier p.shared.firstLock user.lockedUntil)
    (hwrong : checkPassword l'.password = false ∧ l'.phase ≠ .compared true) :
    Bounded cfg checkPassword k { shared := p.shared.tick t, threads := p.threads.set i l' } where
  counted := by
    have hsum := total_set Login.unrecorded l' hl
    have hcounted := h.counted
    simp only [Account.tick_user, Account.tick_comparisons]
    omega
  bound := by
    have hsum := total_set Login.pending l' hl
    have hbound := h.bound
    simp only [Account.tick_user]
    omega
  unlocked := h.unlocked
  locked := h.locked
  lock := h.lock
  first f hf := Int.le_trans (h.first f hf) (Int.add_le_add_right ht _)
  rows := forall_mem_set h.rows hrow
  wrong := forall_mem_set h.wrong hwrong

theorem Bounded.answer (h : Bounded cfg checkPassword k p) {i : Nat} {l l' : Login} {t : Int}
    (hl : p.threads[i]? = some l) (ht : p.shared.now ≤ t) (hnone : l.unrecorded = 0) {e : Option APIError}
    (hphase' : l'.phase = .answered e) (hwrong : checkPassword l'.password = false) :
    Bounded cfg checkPassword k { shared := p.shared.tick t, threads := p.threads.set i l' } := by
  refine h.move hl ht ?_ (.inr ?_) ?_ ⟨hwrong, by simp [hphase']⟩
  · rw [hnone]
    simp [Login.unrecorded, hphase']
  · simp [Login.pending, hphase']
  · simp [hphase']

/-- A comparison: its row is not locked, because the first window has not passed. -/
theorem Bounded.compare (h : Bounded cfg checkPassword k p) {i : Nat} {l l' : Login} {user : UserRow} {t : Int}
    (hl : p.threads[i]? = some l) (hphase : l.phase = .read user) (hfree : user.isLocked t = false)
    (ht : p.shared.now ≤ t) (hwindow : ∀ f, p.shared.firstLock = some f → t < f)
    (hpassword : l'.password = l.password) (hphase' : l'.phase = .compared (checkPassword l.password)) :
    Bounded cfg checkPassword k
      { shared := (p.shared.tick t).compare, threads := p.threads.set i l' } := by
  have hmem := List.mem_of_getElem? hl
  have hunlocked : user.lockedUntil = none := by
    cases hlock : user.lockedUntil with
    | none => rfl
    | some u =>
        obtain ⟨f, hf, hle⟩ := h.rows l hmem user hphase u hlock
        have hlater := hwindow f hf
        simp only [UserRow.isLocked, hlock, Option.any_some, decide_eq_false_iff_not] at hfree
        omega
  have hunrecorded := total_set Login.unrecorded l' hl
  have hpending := total_set Login.pending l' hl
  simp only [Login.unrecorded, hphase, hphase'] at hunrecorded
  simp only [Login.pending, hphase, hphase', hunlocked, if_true] at hpending
  have hcounted := h.counted
  have hbound := h.bound
  have hwrong := (h.wrong l hmem).1
  refine ⟨?_, ?_, h.unlocked, h.locked, h.lock, fun f hf => ?_, forall_mem_set h.rows ?_,
    forall_mem_set h.wrong ⟨?_, ?_⟩⟩
  · simp only [Account.compare_user, Account.compare_comparisons, Account.tick_user,
      Account.tick_comparisons]
    omega
  · simp only [Account.compare_user, Account.tick_user]
    omega
  · exact Int.le_trans (h.first f hf) (Int.add_le_add_right ht _)
  · intro user' hread
    rw [hphase'] at hread
    cases hread
  · rw [hpassword, hwrong]
  · rw [hphase', hwrong]
    decide

theorem fail_count (s : Account) : (s.fail cfg).user.failedLoginCount = s.user.failedLoginCount + 1 := rfl

theorem fail_comparisons (s : Account) : (s.fail cfg).comparisons = s.comparisons := rfl

theorem fail_firstLock (s : Account) :
    (s.fail cfg).firstLock = s.firstLock.or (s.fail cfg).user.lockedUntil := rfl

theorem fail_below {s : Account} (h : ¬cfg.maxFailedLogin ≤ (s.user.failedLoginCount + 1 : Nat)) :
    (s.fail cfg).user.lockedUntil = s.user.lockedUntil := if_neg h

theorem fail_reaches {s : Account} (h : cfg.maxFailedLogin ≤ (s.user.failedLoginCount + 1 : Nat)) :
    (s.fail cfg).user.lockedUntil = some (s.now + cfg.lockoutWindow) := if_pos h

/-- A lock that is set now ends no earlier than the first one. -/
theorem fail_lock {s : Account} (hlock : NoEarlier s.firstLock s.user.lockedUntil)
    (hfirst : ∀ f, s.firstLock = some f → f ≤ s.now + cfg.lockoutWindow) :
    NoEarlier (s.fail cfg).firstLock (s.fail cfg).user.lockedUntil ∧
      ∀ f, (s.fail cfg).firstLock = some f → f ≤ s.now + cfg.lockoutWindow := by
  rw [fail_firstLock]
  by_cases hreach : cfg.maxFailedLogin ≤ (s.user.failedLoginCount + 1 : Nat)
  · rw [fail_reaches hreach]
    cases hset : s.firstLock with
    | none =>
        refine ⟨fun t ht => ⟨t, ht, Int.le_refl t⟩, fun f hf => ?_⟩
        cases hf
        exact Int.le_refl _
    | some f =>
        refine ⟨fun t ht => ⟨f, rfl, ?_⟩, fun f' hf' => ?_⟩
        · cases ht
          exact hfirst f hset
        · cases hf'
          exact hfirst f hset
  · rw [fail_below hreach]
    refine ⟨hlock.or _, fun f hf => ?_⟩
    cases hset : s.firstLock with
    | none =>
        rw [hset, Option.none_or] at hf
        obtain ⟨f', hf', -⟩ := hlock f hf
        rw [hset] at hf'
        cases hf'
    | some g =>
        rw [hset] at hf
        cases hf
        exact hfirst _ hset

/-- A failure is recorded.  The one that reaches the threshold locks the account, with the
requests in flight that there are. -/
theorem Bounded.fail (h : Bounded cfg checkPassword k p) {i : Nat} {l l' : Login} {t : Int}
    (hl : p.threads[i]? = some l) (hphase : l.phase = .compared false) (ht : p.shared.now ≤ t)
    (hflight : total Login.inFlight p.threads ≤ k) (hpassword : l'.password = l.password)
    {e : Option APIError} (hphase' : l'.phase = .answered e) :
    Bounded cfg checkPassword k
      { shared := (p.shared.tick t).fail cfg, threads := p.threads.set i l' } := by
  have hunrecorded := total_set Login.unrecorded l' hl
  have hpending := total_set Login.pending l' hl
  simp only [Login.unrecorded, hphase, hphase'] at hunrecorded
  simp only [Login.pending, hphase, hphase'] at hpending
  have hcounted := h.counted
  have hbound := h.bound
  have hinFlight := total_le_total Login.pending_le_inFlight p.threads
  have hlater : ∀ f, (p.shared.tick t).firstLock = some f → f ≤ (p.shared.tick t).now + cfg.lockoutWindow :=
    fun f hf => Int.le_trans (h.first f hf) (Int.add_le_add_right ht _)
  obtain ⟨hlock, hfirst⟩ := fail_lock (s := p.shared.tick t) h.lock hlater
  refine ⟨?_, ?_, fun hfew => ?_, fun hreach => ?_, hlock, hfirst, forall_mem_set ?_ ?_,
    forall_mem_set h.wrong ⟨?_, ?_⟩⟩
  · simp only [fail_count, fail_comparisons, Account.tick_user, Account.tick_comparisons]
    omega
  · simp only [fail_count, Account.tick_user]
    omega
  · simp only [fail_count, Account.tick_user] at hfew
    obtain ⟨hnone, hno⟩ := h.unlocked (by omega)
    have hbelow : ¬cfg.maxFailedLogin ≤ ((p.shared.tick t).user.failedLoginCount + 1 : Nat) := by
      simp only [Account.tick_user]
      omega
    have hkept : ((p.shared.tick t).fail cfg).user.lockedUntil = none := (fail_below hbelow).trans hnone
    exact ⟨hkept, by rw [fail_firstLock, hkept, Account.tick_firstLock, hno]; rfl⟩
  · rw [fail_reaches hreach]
    exact Option.some_ne_none _
  · intro m hm user hread
    exact (h.rows m hm user hread).or _
  · intro user hread
    rw [hphase'] at hread
    cases hread
  · rw [hpassword]
    exact (h.wrong l (List.mem_of_getElem? hl)).1
  · simp [hphase']

theorem Bounded.join (h : Bounded cfg checkPassword k p) {l : Login} (hnew : l.phase = .start)
    (hwrong : checkPassword l.password = false) :
    Bounded cfg checkPassword k { p with threads := p.threads ++ [l] } where
  counted := by
    rw [total_append_singleton, h.counted]
    simp [Login.unrecorded, hnew]
  bound := by
    rw [total_append_singleton]
    simpa [Login.pending, hnew] using h.bound
  unlocked := h.unlocked
  locked := h.locked
  lock := h.lock
  first := h.first
  rows := by
    refine forall_mem_join h.rows fun user hread => ?_
    rw [hnew] at hread
    cases hread
  wrong := forall_mem_join h.wrong ⟨hwrong, by rw [hnew]; decide⟩

theorem Bounded.step {e : PoolEvent Login LoginAction} (h : Bounded cfg checkPassword k p)
    (hguess : isGuess checkPassword e = true) (hp : Guessing k p)
    (hs : loginStep cfg checkPassword p e = some p') (hp' : Guessing k p') :
    Bounded cfg checkPassword k p' := by
  rcases poolStep_cases hs with ⟨l, rfl, hnew, rfl⟩ | ⟨i, a, l, s', l', rfl, hl, hact, rfl⟩
  · exact h.join (of_decide_eq_true hnew) (by simpa [isGuess] using hguess)
  · obtain ⟨htime, hpassword, hacts⟩ := loginActs_of_loginAct hact
    have hmem := List.mem_of_getElem? hl
    have hwrong : checkPassword l'.password = false := by
      rw [hpassword]
      exact (h.wrong l hmem).1
    generalize hstep : a.step = step at hacts
    generalize hphase' : l'.phase = phase at hacts
    cases hacts with
    | readFailed hphase => exact h.answer hl htime (by simp [Login.unrecorded, hphase]) hphase' hwrong
    | read hphase =>
        refine h.move hl htime ?_ ?_ ?_ ⟨hwrong, by simp [hphase']⟩
        · simp [Login.unrecorded, hphase, hphase']
        · -- a row that is read after the lock is locked
          by_cases hfew : (p.shared.user.failedLoginCount : Int) < cfg.maxFailedLogin
          · exact .inl hfew
          · have hlocked := h.locked (Int.not_lt.mp hfew)
            exact .inr (by simp [Login.pending, hphase', hlocked])
        · intro user hread
          rw [hphase'] at hread
          cases hread
          exact h.lock
    | refused hphase e => exact h.answer hl htime (by simp [Login.unrecorded, hphase]) hphase' hwrong
    | compared hphase hfree =>
        refine h.compare hl hphase hfree htime (fun f hf => ?_) hpassword hphase'
        exact hp'.2 f hf
    | lost hphase => simp [isGuess, hstep] at hguess
    | failed hphase => exact h.fail hl hphase htime hp.1 hpassword hphase'
    | succeeded hphase => exact absurd hphase (h.wrong l hmem).2

/-- With at most `k` requests in flight at a time, fewer passwords than the threshold and `k`
together are compared before the lockout window has passed. -/
theorem comparisons_le (hmax : 1 ≤ cfg.maxFailedLogin) (now : Int) {es : List (PoolEvent Login LoginAction)}
    (hguess : ∀ e ∈ es, isGuess checkPassword e = true)
    (h : Along (loginStep cfg checkPassword) (Guessing k) (unlocked now) es) :
    Along (loginStep cfg checkPassword)
      (fun p => (p.shared.comparisons + 1 : Int) ≤ cfg.maxFailedLogin + k) (unlocked now) es := by
  have hstart : Bounded cfg checkPassword k (unlocked now) := bounded_unlocked hmax now
  have hall : Along (loginStep cfg checkPassword) (fun p => Bounded cfg checkPassword k p ∧
      (p.shared.comparisons + 1 : Int) ≤ cfg.maxFailedLogin + k) (unlocked now) es := by
    refine Along.of_along ?_ ⟨hstart, hstart.comparisons_le h.head.1⟩ h
    intro p e p' he hinv hp hs hp'
    have hbounded := hinv.1.step (hguess e he) hp hs hp'
    exact ⟨hbounded, hbounded.comparisons_le hp'.1⟩
  exact hall.mono fun _ hp => hp.2

end Bound

/-! ## Requests that overlap -/

section Overlap

variable {cfg : SessionConfig} {checkPassword : Text → Bool} {password : Text}

/-- A request compares a wrong password, without recording the failure. -/
def attempt (password : Text) (now : Int) (i : Nat) : List (PoolEvent Login LoginAction) :=
  [.join { password := password }, .act i ⟨.read false, now⟩, .act i ⟨.compare, now⟩]

theorem loginStep_last (s : Account) (ts : List Login) (l : Login) (a : LoginAction) :
    loginStep cfg checkPassword { shared := s, threads := ts ++ [l] } (.act ts.length a) =
      (loginAct cfg checkPassword s l a).map fun r => { shared := r.1, threads := ts ++ [r.2] } := by
  have hget : (ts ++ [l])[ts.length]? = some l := by simp
  have hset : ∀ l', (ts ++ [l]).set ts.length l' = ts ++ [l'] := fun l' => by simp
  rw [loginStep, poolStep_act hget]
  simp only [hset]

theorem Account.tick_self {s : Account} {now : Int} (h : s.now = now) : s.tick now = s := by
  subst h
  rfl

section Attempt

variable {s : Account} {ts : List Login} {now : Int} (hnow : s.now = now)
include hnow

theorem step_read (l : Login) (hphase : l.phase = .start) :
    loginStep cfg checkPassword { shared := s, threads := ts ++ [l] } (.act ts.length ⟨.read false, now⟩) =
      some { shared := s, threads := ts ++ [{ l with phase := .read s.user }] } := by
  rw [loginStep_last, loginAct, if_neg (Int.not_lt.mpr (Int.le_of_eq hnow)), Account.tick_self hnow, hphase]
  rfl

theorem step_compare {user : UserRow} (hactive : user.active = true) (hlock : user.lockedUntil = none)
    (hwrong : checkPassword password = false) :
    loginStep cfg checkPassword { shared := s, threads := ts ++ [⟨password, .read user⟩] }
        (.act ts.length ⟨.compare, now⟩) =
      some { shared := s.compare, threads := ts ++ [⟨password, .compared false⟩] } := by
  rw [loginStep_last, loginAct, if_neg (Int.not_lt.mpr (Int.le_of_eq hnow)), Account.tick_self hnow]
  simp [hactive, UserRow.isLocked, hlock, hwrong]

theorem step_record {i : Nat} (hi : ts.length = i) :
    loginStep cfg checkPassword { shared := s, threads := ts ++ [⟨password, .compared false⟩] }
        (.act i ⟨.record false, now⟩) =
      some { shared := s.fail cfg, threads := ts ++ [⟨password, .answered (some invalidCredentials)⟩] } := by
  subst hi
  rw [loginStep_last, loginAct, if_neg (Int.not_lt.mpr (Int.le_of_eq hnow)), Account.tick_self hnow]
  rfl

/-- An attempt, while at most one other request is in flight. -/
theorem reaches_attempt {i : Nat} (hi : ts.length = i) (hactive : s.user.active = true)
    (hlock : s.user.lockedUntil = none) (hwrong : checkPassword password = false)
    (hwindow : s.withinWindow) (hflight : total Login.inFlight ts ≤ 1) :
    Reaches (loginStep cfg checkPassword) (Guessing 2) { shared := s, threads := ts }
      (attempt password now i)
      { shared := s.compare, threads := ts ++ [⟨password, .compared false⟩] } := by
  subst hi
  have hlast : ∀ l : Login, l.inFlight ≤ 1 → total Login.inFlight (ts ++ [l]) ≤ 2 := by
    intro l hl
    rw [total_append_singleton]
    omega
  refine .cons ⟨Nat.le_succ_of_le hflight, hwindow⟩ rfl ?_
  refine .cons ⟨hlast _ (Nat.zero_le 1), hwindow⟩ (step_read hnow _ rfl) ?_
  refine .cons ⟨hlast _ (Nat.le_refl 1), hwindow⟩ (step_compare hnow hactive hlock hwrong) ?_
  exact .nil ⟨hlast _ (Nat.le_refl 1), hwindow⟩

end Attempt

theorem withinWindow_of_none {s : Account} (h : s.firstLock = none) : s.withinWindow := by
  intro t ht
  rw [h] at ht
  cases ht

def guesses (password : Text) (now : Int) : Nat → List (PoolEvent Login LoginAction)
  | 0 => []
  | n + 1 => guesses password now n ++ (attempt password now n ++ [.act n ⟨.record false, now⟩])

/-- Requests that were answered. -/
def tried (password : Text) (n : Nat) : List Login :=
  List.replicate n ⟨password, .answered (some invalidCredentials)⟩

theorem length_tried (password : Text) (n : Nat) : (tried password n).length = n := List.length_replicate

theorem inFlight_tried (password : Text) (n : Nat) : total Login.inFlight (tried password n) = 0 := by
  refine total_eq_zero fun l hl => ?_
  rw [List.eq_of_mem_replicate hl]
  rfl

/-- The account after some guesses that have not locked it. -/
def guessed (password : Text) (now : Int) (n : Nat) : Logins where
  shared := { user := { failedLoginCount := n }, now := now, comparisons := n }
  threads := tried password n

theorem guessed_succ {n : Nat} (hn : ((n + 1 : Nat) : Int) < cfg.maxFailedLogin) (now : Int) :
    ({ shared := (guessed password now n).shared.compare.fail cfg
       threads := tried password n ++ [⟨password, .answered (some invalidCredentials)⟩] } : Logins) =
      guessed password now (n + 1) := by
  have hthreads : tried password n ++ [⟨password, .answered (some invalidCredentials)⟩] = tried password (n + 1) :=
    List.replicate_succ'.symm
  have hbelow : ¬cfg.maxFailedLogin ≤ (n : Int) + 1 := by omega
  simp [guessed, hthreads, Account.compare, Account.fail, UserRow.recordLoginFailure, hbelow]

/-- The next request, up to its comparison. -/
theorem reaches_next (hwrong : checkPassword password = false) (now : Int) (n : Nat) :
    Reaches (loginStep cfg checkPassword) (Guessing 2) (guessed password now n) (attempt password now n)
      { shared := (guessed password now n).shared.compare
        threads := tried password n ++ [⟨password, .compared false⟩] } := by
  have hflight := inFlight_tried password n
  exact reaches_attempt rfl (length_tried password n) rfl rfl hwrong (withinWindow_of_none rfl) (by omega)

theorem reaches_guesses (hwrong : checkPassword password = false) (now : Int) {n : Nat}
    (hn : (n : Int) < cfg.maxFailedLogin) :
    Reaches (loginStep cfg checkPassword) (Guessing 2) (unlocked now) (guesses password now n)
      (guessed password now n) := by
  induction n with
  | zero => exact .nil ⟨Nat.zero_le 2, withinWindow_of_none rfl⟩
  | succ n ih =>
      have hrecord : loginStep cfg checkPassword
          { shared := (guessed password now n).shared.compare
            threads := tried password n ++ [⟨password, .compared false⟩] } (.act n ⟨.record false, now⟩) =
          some (guessed password now (n + 1)) := by
        rw [← guessed_succ hn]
        exact step_record rfl (length_tried password n)
      have hattempt : Reaches (loginStep cfg checkPassword) (Guessing 2) (guessed password now n) _ _ :=
        reaches_next hwrong now n
      refine (ih (by omega)).append (hattempt.append (.cons hattempt.last hrecord (.nil ?_)))
      exact ⟨by rw [guessed, inFlight_tried]; exact Nat.zero_le 2, withinWindow_of_none rfl⟩

/-- One guess short of the threshold, two requests compare before one of them records. -/
theorem reaches_overlap (hwrong : checkPassword password = false) (now : Int) {n : Nat}
    (hn : (n : Int) < cfg.maxFailedLogin) :
    ∃ p, Reaches (loginStep cfg checkPassword) (Guessing 2) (unlocked now)
        (guesses password now n ++ (attempt password now n ++ attempt password now (n + 1))) p ∧
      p.shared.comparisons = n + 2 := by
  let waiting : Login := ⟨password, .compared false⟩
  have hlength : (tried password n ++ [waiting]).length = n + 1 := by
    rw [List.length_append, length_tried]
    rfl
  have hone : total Login.inFlight (tried password n ++ [waiting]) ≤ 1 := by
    rw [total_append_singleton, inFlight_tried]
    exact Nat.le_refl 1
  refine ⟨_, (reaches_guesses hwrong now hn).append ((reaches_next hwrong now n).append
    (reaches_attempt rfl hlength rfl rfl hwrong (withinWindow_of_none rfl) hone)), rfl⟩

theorem isGuess_attempt (hwrong : checkPassword password = false) (now : Int) (i : Nat) :
    ∀ e ∈ attempt password now i, isGuess checkPassword e = true := by
  simp [attempt, isGuess, hwrong]

theorem isGuess_guesses (hwrong : checkPassword password = false) (now : Int) (n : Nat) :
    ∀ e ∈ guesses password now n, isGuess checkPassword e = true := by
  induction n with
  | zero => exact List.forall_mem_nil _
  | succ n ih =>
      rw [guesses]
      refine List.forall_mem_append.mpr ⟨ih, List.forall_mem_append.mpr ⟨isGuess_attempt hwrong now n, ?_⟩⟩
      exact List.forall_mem_singleton.mpr rfl

end Overlap

/-- With wrong passwords, failures that are recorded, and at most `k` requests in flight at a
time, no more passwords than the threshold are compared before the lockout window has passed: in
every run exactly if `k` is at most one. -/
theorem lockout_bound_iff {cfg : SessionConfig} (hmax : 1 ≤ cfg.maxFailedLogin) {checkPassword : Text → Bool}
    {password : Text} (hwrong : checkPassword password = false) (now : Int) (k : Nat) :
    (∀ es, (∀ e ∈ es, isGuess checkPassword e = true) →
        Along (loginStep cfg checkPassword) (Guessing k) (unlocked now) es →
        Along (loginStep cfg checkPassword)
          (fun p => (p.shared.comparisons : Int) ≤ cfg.maxFailedLogin) (unlocked now) es) ↔ k ≤ 1 := by
  constructor
  · intro h
    by_contra hk
    obtain ⟨n, hn⟩ : ∃ n : Nat, cfg.maxFailedLogin = n + 1 := ⟨(cfg.maxFailedLogin - 1).toNat, by omega⟩
    have hlt : (n : Int) < cfg.maxFailedLogin := by omega
    obtain ⟨p, hreaches, hcount⟩ := reaches_overlap hwrong now hlt
    have hguess := List.forall_mem_append.mpr ⟨isGuess_guesses hwrong now n,
      List.forall_mem_append.mpr ⟨isGuess_attempt hwrong now n, isGuess_attempt hwrong now (n + 1)⟩⟩
    have hwithin := hreaches.along.mono fun q hq => (⟨Nat.le_trans hq.1 (by omega), hq.2⟩ : Guessing k q)
    have hkept := (h _ hguess hwithin).last hreaches.ends
    rw [hcount] at hkept
    omega
  · intro hk es hguess hwithin
    refine (comparisons_le hmax now hguess hwithin).mono fun p hp => ?_
    omega

/-- The configuration of a deployment without environment variables. -/
def defaultSession : SessionConfig where
  maxFailedLogin := 5
  lockoutWindow := 900

/-- One request at a time is kept to five passwords. -/
theorem default_threshold_kept :
    1 ≤ defaultSession.maxFailedLogin ∧
      ∀ es, (∀ e ∈ es, isGuess (· = "secret".toList) e = true) →
        Along (loginStep defaultSession (· = "secret".toList)) (Guessing 1) (unlocked 0) es →
        Along (loginStep defaultSession (· = "secret".toList))
          (fun p => (p.shared.comparisons : Int) ≤ defaultSession.maxFailedLogin) (unlocked 0) es := by
  have hmax : 1 ≤ defaultSession.maxFailedLogin := by decide
  have hwrong : decide ("guess".toList = "secret".toList) = false := by decide
  exact ⟨hmax, (lockout_bound_iff hmax hwrong 0 1).mpr (Nat.le_refl 1)⟩

/-- Six requests read the row before any of them records its failure. -/
def sixGuesses : List (PoolEvent Login LoginAction) :=
  List.replicate 6 (.join { password := "guess".toList }) ++
    (List.range 6).map (fun i => .act i ⟨.read false, 0⟩) ++
    (List.range 6).map (fun i => .act i ⟨.compare, 0⟩)

/-- All six passwords are compared, and the account is not even locked. -/
theorem six_passwords_compared :
    (runs (loginStep defaultSession (· = "secret".toList)) (unlocked 0) sixGuesses).map
        (fun p => (p.shared.comparisons, p.shared.user.lockedUntil)) = some (6, none) ∧
      sixGuesses.all (isGuess (· = "secret".toList)) = true := by
  decide +kernel

end DDAG.AdminSvc
