import DDAG.Lib.Pool

/-!
# Buffered channels as semaphores

Channels of one capacity, of which only the numbers of elements matter.  A thread that sends to a
channel holds a place of it until it receives from it.  `Balanced` says that every channel has as many
elements as threads hold places of it; there is one rule for each thing a thread can do.  With it the
capacity bounds the threads that hold a place (`Balanced.held_le`), and none of them blocks when it
gives its place back (`Balanced.receives`).
-/

namespace Machine

variable {τ : Type*}

/-- The numbers of elements of the channels. -/
abbrev Channels := List Nat

namespace Channels

/-- A send, which blocks while the channel is full. -/
def send (capacity : Nat) (cs : Channels) (q : Nat) : Option Channels :=
  match cs[q]? with
  | some n => if n < capacity then some (cs.set q (n + 1)) else none
  | none => none

/-- A receive, which blocks while the channel is empty. -/
def receive (cs : Channels) (q : Nat) : Option Channels :=
  match cs[q]? with
  | some (n + 1) => some (cs.set q n)
  | _ => none

variable {capacity : Nat} {cs cs' : Channels} {q : Nat}

theorem send_cases (h : send capacity cs q = some cs') :
    ∃ n, cs[q]? = some n ∧ n < capacity ∧ cs' = cs.set q (n + 1) := by
  unfold send at h
  split at h
  next n hn =>
    split at h
    next hlt =>
      cases h
      exact ⟨n, hn, hlt, rfl⟩
    next _ => cases h
  next _ => cases h

theorem receive_cases (h : receive cs q = some cs') : ∃ n, cs[q]? = some (n + 1) ∧ cs' = cs.set q n := by
  unfold receive at h
  split at h
  next n hn =>
    cases h
    exact ⟨n, hn, rfl⟩
  next _ => cases h

theorem send_isSome {n : Nat} (hn : cs[q]? = some n) : (send capacity cs q).isSome = true ↔ n < capacity := by
  simp only [send, hn]
  split
  next hlt => exact iff_of_true rfl hlt
  next hge => exact iff_of_false Bool.false_ne_true hge

/-- No channel has more elements than fit. -/
def Bounded (capacity : Nat) (cs : Channels) : Prop := ∀ n ∈ cs, n ≤ capacity

theorem Bounded.send (h : Bounded capacity cs) (hs : send capacity cs q = some cs') : Bounded capacity cs' := by
  obtain ⟨n, -, hlt, rfl⟩ := send_cases hs
  exact forall_mem_set h hlt

theorem Bounded.receive (h : Bounded capacity cs) (hr : receive cs q = some cs') : Bounded capacity cs' := by
  obtain ⟨n, hn, rfl⟩ := receive_cases hr
  exact forall_mem_set h ((Nat.le_succ n).trans (h _ (List.mem_of_getElem? hn)))

end Channels

open Channels

/-- The number of threads that hold a place of a channel. -/
def held (holds : τ → Option Nat) (q : Nat) (ts : List τ) : Nat := total (fun t => (decide (holds t = some q)).toNat) ts

/-- A channel has an element for every thread that holds a place of it. -/
def Balanced (holds : τ → Option Nat) (cs : Channels) (ts : List τ) : Prop :=
  ∀ q n, cs[q]? = some n → n = held holds q ts

namespace Balanced

variable {holds : τ → Option Nat} {capacity : Nat} {cs cs' : Channels} {ts : List τ} {i q : Nat} {t t' : τ}

theorem join (h : Balanced holds cs ts) (ht : holds t = none) : Balanced holds cs (ts ++ [t]) := by
  intro k n hn
  rw [held, total_append_singleton, ht]
  exact h k n hn

/-- A thread that keeps its places. -/
theorem keep (h : Balanced holds cs ts) (hi : ts[i]? = some t) (hsame : holds t' = holds t) :
    Balanced holds cs (ts.set i t') := by
  intro k n hn
  have hset := total_set (fun t => (decide (holds t = some k)).toNat) t' hi
  simp only [hsame] at hset
  exact (h k n hn).trans (Nat.add_right_cancel hset).symm

/-- A thread that changes one channel. -/
theorem change (h : Balanced holds cs ts) (hi : ts[i]? = some t) {n m : Nat} (hn : cs[q]? = some n)
    (hone : m + (decide (holds t = some q)).toNat = n + (decide (holds t' = some q)).toNat)
    (hother : ∀ k, k ≠ q → (holds t' = some k ↔ holds t = some k)) : Balanced holds (cs.set q m) (ts.set i t') := by
  intro k l hl
  have hset := total_set (fun t => (decide (holds t = some k)).toNat) t' hi
  rcases getElem?_set_cases hl with ⟨rfl, rfl⟩ | ⟨hne, hl⟩
  · have := h k n hn
    unfold held at this ⊢
    omega
  · simp only [hother k hne] at hset
    exact (h k l hl).trans (Nat.add_right_cancel hset).symm

theorem send (h : Balanced holds cs ts) (hi : ts[i]? = some t) (hbefore : holds t = none)
    (hafter : holds t' = some q) (hs : Channels.send capacity cs q = some cs') :
    Balanced holds cs' (ts.set i t') := by
  obtain ⟨n, hn, -, rfl⟩ := send_cases hs
  exact h.change hi hn (by simp [hbefore, hafter]) fun k hk => by simp [hbefore, hafter, Ne.symm hk]

theorem receive (h : Balanced holds cs ts) (hi : ts[i]? = some t) (hbefore : holds t = some q)
    (hafter : holds t' = none) (hr : Channels.receive cs q = some cs') : Balanced holds cs' (ts.set i t') := by
  obtain ⟨n, hn, rfl⟩ := receive_cases hr
  exact h.change hi hn (by simp [hbefore, hafter]) fun k hk => by simp [hbefore, hafter, Ne.symm hk]

/-- A channel that is made, of which no thread holds a place yet. -/
theorem make (h : Balanced holds cs ts) (hfresh : ∀ t ∈ ts, holds t ≠ some cs.length) :
    Balanced holds (cs ++ [0]) ts := by
  intro k n hn
  rcases getElem?_append_cases hn with ⟨rfl, rfl⟩ | hn
  · refine (total_eq_zero fun t ht => ?_).symm
    rw [decide_eq_false (hfresh t ht)]
    rfl
  · exact h k n hn

/-- The capacity bounds the threads that hold a place. -/
theorem held_le (h : Balanced holds cs ts) (hbounded : Bounded capacity cs) {n : Nat} (hn : cs[q]? = some n) :
    held holds q ts ≤ capacity :=
  h q n hn ▸ hbounded n (List.mem_of_getElem? hn)

/-- A thread that holds a place can give it back. -/
theorem receives (h : Balanced holds cs ts) (ht : t ∈ ts) (hq : holds t = some q) {n : Nat} (hn : cs[q]? = some n) :
    (Channels.receive cs q).isSome = true := by
  have hone : 1 ≤ held holds q ts := by
    have := le_total (fun t => (decide (holds t = some q)).toNat) ht
    rwa [decide_eq_true hq] at this
  rw [← h q n hn] at hone
  obtain ⟨m, rfl⟩ := Nat.exists_eq_succ_of_ne_zero (Nat.ne_of_gt hone)
  simp only [Channels.receive, hn]
  rfl

end Balanced

end Machine
