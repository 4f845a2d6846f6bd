import Mathlib.Data.Nat.Basic

/-!
# Loops that may not terminate

A loop is given by its *body*, a function from a state to what one pass does:
go round again from a new state, or leave with a result.  A pass may come back
to the state it started from, and then the loop hangs.

`Returns body s r` says that the loop entered at `s` leaves with `r`.
`Progresses body size s` says that every pass made from `s` on makes the size
of the state drop.  For a body that either makes the size drop or does not
move at all (`Advances`), the two agree (`Advances.returns_iff_progresses`),
and as many passes as the size of the state decide whether the loop returns
(`Advances.exec_eq_some_iff`).
-/

namespace Machine

/-- What one pass through a loop body does. -/
inductive Pass (σ ρ : Type*) where
  | again (s : σ)
  | leave (r : ρ)

variable {σ ρ : Type*}

/-- The loop, cut off after `n` passes. -/
def runFor (body : σ → Pass σ ρ) : Nat → σ → Option ρ
  | 0, _ => none
  | n + 1, s =>
      match body s with
      | .again s' => runFor body n s'
      | .leave r => some r

/-- The loop entered at `s` leaves with `r`. -/
def Returns (body : σ → Pass σ ρ) (s : σ) (r : ρ) : Prop := ∃ n, runFor body n s = some r

/-- The loop entered at `s` comes to its top again in the state `t`. -/
inductive Visits (body : σ → Pass σ ρ) : σ → σ → Prop where
  | here {s : σ} : Visits body s s
  | again {s s' t : σ} : body s = .again s' → Visits body s' t → Visits body s t

/-- Every pass made from `s` on makes the size drop, or leaves. -/
def Progresses (body : σ → Pass σ ρ) (size : σ → Nat) (s : σ) : Prop :=
  ∀ t t', Visits body s t → body t = .again t' → size t' < size t

/-! ## Passes -/

theorem runFor_again {body : σ → Pass σ ρ} {s s' : σ} (h : body s = .again s') (n : Nat) :
    runFor body (n + 1) s = runFor body n s' := by
  simp [runFor, h]

theorem runFor_leave {body : σ → Pass σ ρ} {s : σ} {r : ρ} (h : body s = .leave r) (n : Nat) :
    runFor body (n + 1) s = some r := by
  simp [runFor, h]

/-- More passes do not change a result. -/
theorem runFor_succ {body : σ → Pass σ ρ} {r : ρ} :
    ∀ {n : Nat} {s : σ}, runFor body n s = some r → runFor body (n + 1) s = some r
  | 0, _, h => by simp [runFor] at h
  | n + 1, s, h => by
      cases hb : body s with
      | again s' =>
          rw [runFor_again hb] at h ⊢
          exact runFor_succ h
      | leave r' =>
          rw [runFor_leave hb] at h ⊢
          exact h

theorem runFor_mono {body : σ → Pass σ ρ} {n m : Nat} {s : σ} {r : ρ}
    (h : runFor body n s = some r) (hnm : n ≤ m) : runFor body m s = some r := by
  induction hnm with
  | refl => exact h
  | step _ ih => exact runFor_succ ih

theorem Returns.unique {body : σ → Pass σ ρ} {s : σ} {r r' : ρ}
    (h : Returns body s r) (h' : Returns body s r') : r = r' := by
  obtain ⟨n, hn⟩ := h
  obtain ⟨m, hm⟩ := h'
  have h1 := runFor_mono hn (Nat.le_max_left n m)
  have h2 := runFor_mono hm (Nat.le_max_right n m)
  exact Option.some.inj (h1.symm.trans h2)

theorem returns_again {body : σ → Pass σ ρ} {s s' : σ} {r : ρ} (h : body s = .again s') :
    Returns body s r ↔ Returns body s' r := by
  constructor
  · rintro ⟨n, hn⟩
    cases n with
    | zero => simp [runFor] at hn
    | succ n => exact ⟨n, by rwa [runFor_again h] at hn⟩
  · rintro ⟨n, hn⟩
    exact ⟨n + 1, by rwa [runFor_again h]⟩

theorem returns_leave {body : σ → Pass σ ρ} {s : σ} {r r' : ρ} (h : body s = .leave r) :
    Returns body s r' ↔ r' = r := by
  constructor
  · intro hr
    exact hr.unique ⟨1, runFor_leave h 0⟩
  · rintro rfl
    exact ⟨1, runFor_leave h 0⟩

/-- The result does not depend on where along the run one looks. -/
theorem Visits.returns_iff {body : σ → Pass σ ρ} {s t : σ} {r : ρ} (h : Visits body s t) :
    Returns body s r ↔ Returns body t r := by
  induction h with
  | here => exact Iff.rfl
  | again hb _ ih => exact (returns_again hb).trans ih

/-! ## Termination -/

/-- A loop whose passes all make the size drop returns, within as many passes
as the size of the state and one more. -/
theorem Progresses.runFor_isSome {body : σ → Pass σ ρ} {size : σ → Nat} :
    ∀ {n : Nat} {s : σ}, Progresses body size s → size s < n → (runFor body n s).isSome
  | 0, _, _, hn => by omega
  | n + 1, s, hp, hn => by
      cases hb : body s with
      | leave r => rw [runFor_leave hb]; rfl
      | again s' =>
          rw [runFor_again hb]
          have hlt := hp s s' .here hb
          have hp' : Progresses body size s' := fun t t' ht hb' => hp t t' (.again hb ht) hb'
          exact hp'.runFor_isSome (by omega)

theorem Progresses.returns {body : σ → Pass σ ρ} {size : σ → Nat} {s : σ}
    (h : Progresses body size s) : ∃ r, Returns body s r := by
  obtain ⟨r, hr⟩ := Option.isSome_iff_exists.mp (h.runFor_isSome (Nat.lt_succ_self _))
  exact ⟨r, _, hr⟩

/-- A pass that comes back to its own state hangs the loop. -/
theorem not_returns_of_stuck {body : σ → Pass σ ρ} {s t : σ} (hv : Visits body s t)
    (hstuck : body t = .again t) (r : ρ) : ¬ Returns body s r := by
  rw [hv.returns_iff]
  rintro ⟨n, hn⟩
  induction n with
  | zero => simp [runFor] at hn
  | succ n ih => exact ih (by rwa [runFor_again hstuck] at hn)

/-! ## Bodies that advance or do not move -/

/-- Every pass makes the size drop, leaves, or comes back to its own state. -/
def Advances (body : σ → Pass σ ρ) (size : σ → Nat) : Prop :=
  ∀ s s', body s = .again s' → size s' < size s ∨ s' = s

theorem Advances.returns_iff_progresses {body : σ → Pass σ ρ} {size : σ → Nat}
    (ha : Advances body size) (s : σ) : (∃ r, Returns body s r) ↔ Progresses body size s := by
  constructor
  · rintro ⟨r, hr⟩ t t' hv hb
    rcases ha t t' hb with hlt | heq
    · exact hlt
    · subst heq
      exact absurd hr (not_returns_of_stuck hv hb r)
  · exact Progresses.returns

/-- The loop run to its end, `none` when it hangs. -/
def exec (body : σ → Pass σ ρ) (size : σ → Nat) (s : σ) : Option ρ :=
  runFor body (size s + 1) s

theorem Advances.exec_eq_some_iff {body : σ → Pass σ ρ} {size : σ → Nat}
    (ha : Advances body size) {s : σ} {r : ρ} : exec body size s = some r ↔ Returns body s r := by
  constructor
  · exact fun h => ⟨_, h⟩
  · intro h
    have hp := (ha.returns_iff_progresses s).mp ⟨r, h⟩
    obtain ⟨r', hr'⟩ := Option.isSome_iff_exists.mp (hp.runFor_isSome (Nat.lt_succ_self _))
    rw [exec, hr', h.unique ⟨_, hr'⟩]

end Machine
