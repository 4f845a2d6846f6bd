import Mathlib.Logic.Function.Basic

/-!
# Counters with lifetimes

The Redis commands on a key that holds a counter or a mark.  A command reads and writes the entry
of its key only, which may be absent.  An entry whose lifetime is over is as good as absent.
Times and lifetimes are numbers of one unit, milliseconds for the commands that name them.
-/

namespace Redis

/-- A counter, and the time until which its key lives. -/
structure Counter where
  value : Int
  expireAt : Option Int := none
deriving DecidableEq

/-- What a key holds. -/
abbrev Entry := Option Counter

def Counter.isAlive (now : Int) (c : Counter) : Bool :=
  match c.expireAt with
  | none => true
  | some t => now ≤ t

/-- The counter of a key whose lifetime is not over. -/
def alive (now : Int) (e : Entry) : Option Counter := e.filter (Counter.isAlive now)

/-- `INCR`. -/
def incr (now : Int) (e : Entry) : Counter :=
  match alive now e with
  | none => { value := 1 }
  | some c => { c with value := c.value + 1 }

/-- `PEXPIRE`, which deletes a key that would not live on. -/
def pexpire (now ms : Int) (e : Entry) : Entry :=
  (alive now e).bind fun c => if ms ≤ 0 then none else some { c with expireAt := some (now + ms) }

/-- `PTTL`. -/
def pttl (now : Int) (e : Entry) : Int :=
  match alive now e with
  | none => -2
  | some c => (c.expireAt.map (· - now)).getD (-1)

/-- `SET` with a lifetime and `NX`: whether the key was set, and what it holds. -/
def setNX (now ttl value : Int) (e : Entry) : Bool × Entry :=
  if (alive now e).isSome then (false, e) else (true, some { value := value, expireAt := some (now + ttl) })

/-- The key is there until the time, at least. -/
def LivesUntil (t : Int) (e : Entry) : Prop := ∃ c, e = some c ∧ ∀ x, c.expireAt = some x → t ≤ x

theorem LivesUntil.alive {t now : Int} {e : Entry} (h : LivesUntil t e) (hle : now ≤ t) :
    (alive now e).isSome = true := by
  obtain ⟨c, rfl, hexpire⟩ := h
  have halive : c.isAlive now = true := by
    unfold Counter.isAlive
    split
    next _ => rfl
    next x hx => exact decide_eq_true (Int.le_trans hle (hexpire x hx))
  simp [Redis.alive, halive]

/-- A key that is set lives for its lifetime. -/
theorem setNX_livesUntil {now ttl value : Int} {e : Entry} (h : (setNX now ttl value e).1 = true) :
    LivesUntil (now + ttl) (setNX now ttl value e).2 := by
  unfold setNX at h ⊢
  split at h
  next _ => cases h
  next hdead =>
    rw [if_neg hdead]
    exact ⟨_, rfl, fun x hx => Int.le_of_eq (Option.some.inj hx)⟩

/-- No key is cut short. -/
theorem LivesUntil.setNX {t now ttl : Int} {e : Entry} (h : LivesUntil t e) (hpos : 0 < ttl) (value : Int) :
    LivesUntil t (setNX now ttl value e).2 := by
  unfold Redis.setNX
  split
  next _ => exact h
  next hdead =>
    -- the key that was there is gone, so its time was before
    have hlt : t < now := Int.not_le.mp fun hle => hdead (h.alive hle)
    refine ⟨_, rfl, fun x hx => ?_⟩
    cases hx
    omega

theorem alive_eq_some {now : Int} {e : Entry} {c : Counter} (h : alive now e = some c) : e = some c :=
  (Option.filter_eq_some_iff.mp h).1

/-- An entry that is dead stays dead. -/
theorem alive_of_le {now now' : Int} {e : Entry} (hle : now ≤ now') (h : alive now e = none) :
    alive now' e = none := by
  cases e with
  | none => rfl
  | some c =>
      have hdead : c.isAlive now = false := by
        simpa [alive, Option.filter_eq_none_iff] using h
      have hdead' : c.isAlive now' = false := by
        unfold Counter.isAlive at hdead ⊢
        split at hdead
        next _ => cases hdead
        next t ht =>
          have hlt : ¬ now ≤ t := of_decide_eq_false hdead
          exact decide_eq_false (by omega)
      simp [alive, hdead']

/-- A key is gone at all times after `t` exactly if its lifetime ends by then. -/
theorem dead_after_iff {c : Counter} {t : Int} :
    (∀ now, t < now → alive now (some c) = none) ↔ ∃ e, c.expireAt = some e ∧ e ≤ t := by
  have hdead : ∀ now, alive now (some c) = none ↔ c.isAlive now = false := by
    intro now
    simp [alive, Option.filter_eq_none_iff]
  simp only [hdead, Counter.isAlive]
  cases c.expireAt with
  | none => simpa using ⟨t + 1, by omega⟩
  | some e =>
      constructor
      · intro h
        have hnext : ¬ t + 1 ≤ e := of_decide_eq_false (h (t + 1) (by omega))
        exact ⟨e, rfl, by omega⟩
      · intro h now hlt
        obtain ⟨e', he, hle⟩ := h
        cases he
        exact decide_eq_false (by omega)

theorem incr_of_dead {now : Int} {e : Entry} (h : alive now e = none) : incr now e = { value := 1 } := by
  simp [incr, h]

theorem incr_of_alive {now : Int} {e : Entry} {c : Counter} (h : alive now e = some c) :
    (incr now e).value = c.value + 1 := by
  simp [incr, h]

/-- A counter that is above one was there before, and lives. -/
theorem isAlive_of_incr {now : Int} {e : Entry} (h : (incr now e).value ≠ 1) :
    (incr now e).isAlive now = true := by
  unfold incr at h ⊢
  split
  next hdead =>
    rw [hdead] at h
    exact absurd rfl h
  next c hc => exact (Option.filter_eq_some_iff.mp hc).2

/-- The lifetime of a key that lives: what is left of it, unless it has none. -/
theorem pttl_of_isAlive {now : Int} {c : Counter} (h : c.isAlive now = true) :
    pttl now (some c) = (c.expireAt.map (· - now)).getD (-1) := by
  have halive : alive now (some c) = some c := Option.filter_eq_some_iff.mpr ⟨rfl, h⟩
  rw [pttl, halive]

/-- A lifetime does not change the count. -/
theorem value_of_pexpire {now ms : Int} {c c' : Counter} (h : pexpire now ms (some c) = some c') :
    c'.value = c.value := by
  obtain ⟨d, hd, hset⟩ := Option.bind_eq_some_iff.mp h
  cases alive_eq_some hd
  split at hset
  next _ => cases hset
  next _ =>
    cases hset
    rfl

end Redis
