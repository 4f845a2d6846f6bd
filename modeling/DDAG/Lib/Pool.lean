import Mathlib.Algebra.Order.BigOperators.Group.List
import Mathlib.Algebra.Order.Group.Nat
import Mathlib.Algebra.Ring.Nat

/-!
# Threads over a shared state

A pool is a shared state and a list of threads.  New threads join at the end,
and the `i`-th thread acts on the shared state and its own.  Threads are never
removed: one that is done is in a local state of its own choosing.

Resources that threads hold are counted by `total`, the sum of a weight over
the threads, which `total_set` follows through an action.
-/

namespace Machine

variable {σ τ α : Type*}

/-- A shared state and the local states of the threads. -/
structure Pool (σ τ : Type*) where
  shared : σ
  threads : List τ

/-- A thread joins, or one acts. -/
inductive PoolEvent (τ α : Type*) where
  | join (t : τ)
  | act (i : Nat) (a : α)

/-- One event.  Threads join in a local state that `fresh` allows. -/
def poolStep (fresh : τ → Bool) (act : σ → τ → α → Option (σ × τ)) (p : Pool σ τ) :
    PoolEvent τ α → Option (Pool σ τ)
  | .join t => if fresh t then some { p with threads := p.threads ++ [t] } else none
  | .act i a =>
      p.threads[i]?.bind fun t =>
        (act p.shared t a).map fun r => { shared := r.1, threads := p.threads.set i r.2 }

section Rules

variable {fresh : τ → Bool} {act : σ → τ → α → Option (σ × τ)} {p p' : Pool σ τ}

/-- What an event did. -/
theorem poolStep_cases {e : PoolEvent τ α} (h : poolStep fresh act p e = some p') :
    (∃ t, e = .join t ∧ fresh t = true ∧ p' = { p with threads := p.threads ++ [t] }) ∨
      ∃ i a t s' t', e = .act i a ∧ p.threads[i]? = some t ∧ act p.shared t a = some (s', t') ∧
        p' = { shared := s', threads := p.threads.set i t' } := by
  cases e with
  | join t =>
      simp only [poolStep] at h
      split at h
      next hf =>
        cases h
        exact .inl ⟨t, rfl, hf, rfl⟩
      next _ => cases h
  | act i a =>
      simp only [poolStep, Option.bind_eq_some_iff, Option.map_eq_some_iff] at h
      obtain ⟨t, ht, ⟨s', t'⟩, hact, rfl⟩ := h
      exact .inr ⟨i, a, t, s', t', rfl, ht, hact, rfl⟩

theorem poolStep_act {i : Nat} {t : τ} (h : p.threads[i]? = some t) (a : α) :
    poolStep fresh act p (.act i a) =
      (act p.shared t a).map fun r => { shared := r.1, threads := p.threads.set i r.2 } := by
  rw [poolStep, h, Option.bind_some]

theorem poolStep_act_last (s : σ) (ts : List τ) (t : τ) (a : α) :
    poolStep fresh act { shared := s, threads := ts ++ [t] } (.act ts.length a) =
      (act s t a).map fun r => { shared := r.1, threads := ts ++ [r.2] } := by
  rw [poolStep_act List.getElem?_concat_length]
  simp

def total (f : τ → Nat) (ts : List τ) : Nat := (ts.map f).sum

theorem total_append_singleton (f : τ → Nat) (ts : List τ) (t : τ) :
    total f (ts ++ [t]) = total f ts + f t := by
  simp [total]

/-- Replacing a thread replaces its weight. -/
theorem total_set (f : τ → Nat) {ts : List τ} {i : Nat} {t : τ} (t' : τ) (h : ts[i]? = some t) :
    total f (ts.set i t') + f t = total f ts + f t' := by
  induction ts generalizing i with
  | nil => cases h
  | cons u ts ih =>
      cases i with
      | zero =>
          cases h
          simp only [total, List.set_cons_zero, List.map_cons, List.sum_cons]
          omega
      | succ i =>
          have := ih h
          simp only [total, List.set_cons_succ, List.map_cons, List.sum_cons] at this ⊢
          omega

/-- A thread counts with its weight. -/
theorem le_total (f : τ → Nat) {ts : List τ} {t : τ} (h : t ∈ ts) : f t ≤ total f ts :=
  List.le_sum_of_mem (List.mem_map_of_mem h)

theorem total_le_total {f g : τ → Nat} (h : ∀ t, f t ≤ g t) (ts : List τ) : total f ts ≤ total g ts := by
  induction ts with
  | nil => exact Nat.le_refl _
  | cons t ts ih => exact Nat.add_le_add (h t) ih

/-- A weight of one or zero counts the threads that have it. -/
theorem total_toNat (f : τ → Bool) (ts : List τ) : total (fun t => (f t).toNat) ts = ts.countP f := by
  induction ts with
  | nil => rfl
  | cons t ts ih =>
      rw [total, List.map_cons, List.sum_cons, ← total, ih, List.countP_cons, Nat.add_comm]
      cases f t <;> rfl

theorem total_eq_zero {f : τ → Nat} {ts : List τ} (h : ∀ t ∈ ts, f t = 0) : total f ts = 0 := by
  induction ts with
  | nil => rfl
  | cons t ts ih =>
      rw [total, List.map_cons, List.sum_cons, h t List.mem_cons_self, Nat.zero_add]
      exact ih fun u hu => h u (List.mem_cons_of_mem _ hu)

/-- What a thread keeps when it acts is kept of all threads. -/
theorem map_set_of_eq {β : Type*} {f : τ → β} {ts : List τ} {i : Nat} {t t' : τ} (h : ts[i]? = some t)
    (hsame : f t' = f t) : (ts.set i t').map f = ts.map f := by
  obtain ⟨hi, rfl⟩ := List.getElem?_eq_some_iff.mp h
  rw [List.map_set, hsame, ← List.map_set, List.set_getElem_self]

/-- A property of every thread is kept when a thread is replaced by one that has
it. -/
theorem forall_mem_set {P : τ → Prop} {ts : List τ} {i : Nat} {t' : τ} (h : ∀ t ∈ ts, P t)
    (ht' : P t') : ∀ t ∈ ts.set i t', P t := by
  intro t ht
  rcases List.mem_or_eq_of_mem_set ht with hmem | rfl
  · exact h t hmem
  · exact ht'

theorem forall_mem_join {P : τ → Prop} {ts : List τ} {t' : τ} (h : ∀ t ∈ ts, P t) (ht' : P t') :
    ∀ t ∈ ts ++ [t'], P t :=
  List.forall_mem_append.2 ⟨h, List.forall_mem_singleton.2 ht'⟩

/-- What is at a place after a thread is replaced. -/
theorem getElem?_set_cases {ts : List τ} {i j : Nat} {t' u : τ} (h : (ts.set i t')[j]? = some u) :
    (j = i ∧ u = t') ∨ (j ≠ i ∧ ts[j]? = some u) := by
  rw [List.getElem?_set] at h
  split at h
  next hij =>
    split at h
    next _ =>
      cases h
      exact .inl ⟨hij.symm, rfl⟩
    next _ => cases h
  next hij => exact .inr ⟨fun hji => hij hji.symm, h⟩

/-- What is at a place after a thread joins. -/
theorem getElem?_append_cases {ts : List τ} {j : Nat} {t' u : τ} (h : (ts ++ [t'])[j]? = some u) :
    (j = ts.length ∧ u = t') ∨ ts[j]? = some u := by
  rw [List.getElem?_append] at h
  split at h
  next _ => exact .inr h
  next hge =>
    obtain ⟨hlt, hu⟩ := List.getElem?_eq_some_iff.1 h
    rw [List.length_singleton] at hlt
    refine .inl ⟨by omega, ?_⟩
    rw [← hu]
    exact List.getElem_singleton hlt

/-- The thread at a place keeps a property when a thread is replaced by one that has it
as well. -/
theorem exists_getElem?_set {P : τ → Prop} {ts : List τ} {i j : Nat} {t t' : τ} (hi : ts[i]? = some t)
    (hkeep : P t → P t') (h : ∃ u, ts[j]? = some u ∧ P u) : ∃ u, (ts.set i t')[j]? = some u ∧ P u := by
  obtain ⟨u, hu, hP⟩ := h
  by_cases hij : i = j
  · subst hij
    rw [hi] at hu
    cases hu
    obtain ⟨hlt, -⟩ := List.getElem?_eq_some_iff.mp hi
    exact ⟨t', List.getElem?_set_self hlt, hkeep hP⟩
  · exact ⟨u, (List.getElem?_set_ne hij).trans hu, hP⟩

/-- The thread at a place stays there when threads join. -/
theorem exists_getElem?_append {P : τ → Prop} {ts us : List τ} {j : Nat}
    (h : ∃ u, ts[j]? = some u ∧ P u) : ∃ u, (ts ++ us)[j]? = some u ∧ P u := by
  obtain ⟨u, hu, hP⟩ := h
  obtain ⟨hlt, -⟩ := List.getElem?_eq_some_iff.mp hu
  exact ⟨u, (List.getElem?_append_left hlt).trans hu, hP⟩

end Rules

end Machine
