import Mathlib.Tactic.Common

/-!
# Computations that may fail

Rules for `Except`, and for `ExceptT` over computations that may not return: what a
sequence that succeeded did at each of its parts, and the loop rules for a fold that
may fail, with an invariant of one run
(`foldlM_invariant`) and with a relation between two runs over the same list
(`foldlM_related`).
-/

namespace Fallible

universe u v

variable {ε : Type u} {α β γ : Type v}

theorem bind_eq_ok {x : Except ε α} {f : α → Except ε β} {b : β} :
    (x >>= f) = .ok b ↔ ∃ a, x = .ok a ∧ f a = .ok b := by
  cases x with
  | error e => simp [bind, Except.bind]
  | ok a => simp [bind, Except.bind]

/-- A computation that went on after a step got a result from it. -/
theorem run_bind_eq_ok {ε α β : Type u} {x : ExceptT ε Option α} {f : α → ExceptT ε Option β} {b : β}
    (h : (x >>= f).run = some (.ok b)) : ∃ a, x.run = some (.ok a) ∧ (f a).run = some (.ok b) := by
  rw [ExceptT.run_bind] at h
  cases hx : x.run with
  | none =>
      rw [hx] at h
      cases h
  | some r =>
      rw [hx] at h
      cases r with
      | error e => cases h
      | ok a => exact ⟨a, rfl, h⟩

theorem ite_eq_ok {c : Prop} [Decidable c] {x y : Except ε α} {a : α}
    (h : (if c then x else y) = .ok a) : (c ∧ x = .ok a) ∨ (¬ c ∧ y = .ok a) := by
  by_cases hc : c
  · exact .inl ⟨hc, by rwa [if_pos hc] at h⟩
  · exact .inr ⟨hc, by rwa [if_neg hc] at h⟩

/-- Every check of a list that was gone through succeeded. -/
theorem forM_eq_ok {f : α → Except ε PUnit.{v + 1}} {l : List α} (h : l.forM f = .ok ⟨⟩) :
    ∀ a ∈ l, f a = .ok ⟨⟩ := by
  induction l with
  | nil => exact fun _ ha => absurd ha List.not_mem_nil
  | cons a rest ih =>
      obtain ⟨u, hfirst, hrest⟩ := bind_eq_ok.mp h
      intro x hx
      rcases List.mem_cons.mp hx with rfl | hx
      · exact hfirst
      · exact ih hrest x hx

/-- Every element of a list that was built is the result of a step. -/
theorem mapM_eq_ok {f : α → Except ε β} {l : List α} {bs : List β} (h : l.mapM f = .ok bs) :
    ∀ b ∈ bs, ∃ a ∈ l, f a = .ok b := by
  induction l generalizing bs with
  | nil =>
      cases h
      exact fun _ hb => absurd hb List.not_mem_nil
  | cons a rest ih =>
      rw [List.mapM_cons, bind_eq_ok] at h
      obtain ⟨b, hfirst, h⟩ := h
      obtain ⟨bs', hrest, h⟩ := bind_eq_ok.mp h
      cases h
      intro x hx
      rcases List.mem_cons.mp hx with rfl | hx
      · exact ⟨a, List.mem_cons_self, hfirst⟩
      · obtain ⟨a', ha', hstep⟩ := ih hrest x hx
        exact ⟨a', List.mem_cons_of_mem a ha', hstep⟩

/-- A list that was built from results that tell their arguments tells the list. -/
theorem map_of_mapM_eq_ok {f : α → Except ε β} {g : β → α} (hg : ∀ a b, f a = .ok b → g b = a) {l : List α}
    {bs : List β} (h : l.mapM f = .ok bs) : bs.map g = l := by
  induction l generalizing bs with
  | nil =>
      cases h
      rfl
  | cons a rest ih =>
      rw [List.mapM_cons, bind_eq_ok] at h
      obtain ⟨b, hfirst, h⟩ := h
      obtain ⟨bs', hrest, h⟩ := bind_eq_ok.mp h
      cases h
      rw [List.map_cons, hg a b hfirst, ih hrest]

/-- A property every step of a fold keeps holds of its result. -/
theorem foldlM_invariant {step : β → α → Except ε β} {P : β → Prop} {l : List α}
    (hstep : ∀ a ∈ l, ∀ b b', P b → step b a = .ok b' → P b') {b r : β} (hb : P b)
    (h : l.foldlM step b = .ok r) : P r := by
  induction l generalizing b with
  | nil =>
      cases h
      exact hb
  | cons a rest ih =>
      rw [List.foldlM_cons, bind_eq_ok] at h
      obtain ⟨b', hfirst, hrest⟩ := h
      have hkeep := hstep a List.mem_cons_self b b' hb hfirst
      exact ih (fun x hx => hstep x (List.mem_cons_of_mem a hx)) hkeep hrest

/-- A fold that succeeded made a step at every element. -/
theorem foldlM_steps {step : β → α → Except ε β} {l : List α} {b r : β} (h : l.foldlM step b = .ok r) :
    ∀ a ∈ l, ∃ b' b'', step b' a = .ok b'' := by
  induction l generalizing b with
  | nil => exact fun _ ha => absurd ha List.not_mem_nil
  | cons a rest ih =>
      rw [List.foldlM_cons, bind_eq_ok] at h
      obtain ⟨b', hfirst, hrest⟩ := h
      exact List.forall_mem_cons.mpr ⟨⟨b, b', hfirst⟩, ih hrest⟩

/-- A fold succeeds if every step does, from whatever state. -/
theorem foldlM_succeeds {step : β → α → Except ε β} {l : List α}
    (hstep : ∀ a ∈ l, ∀ b, ∃ b', step b a = .ok b') (b : β) : ∃ r, l.foldlM step b = .ok r := by
  induction l generalizing b with
  | nil => exact ⟨b, rfl⟩
  | cons a rest ih =>
      obtain ⟨b', hfirst⟩ := hstep a List.mem_cons_self b
      obtain ⟨r, hrest⟩ := ih (fun x hx => hstep x (List.mem_cons_of_mem a hx)) b'
      exact ⟨r, by rw [List.foldlM_cons, bind_eq_ok]; exact ⟨b', hfirst, hrest⟩⟩

/-- A relation between the states of two folds over one list that each pair of
steps keeps holds of their results. -/
theorem foldlM_related {step : β → α → Except ε β} {step' : γ → α → Except ε γ}
    {R : β → γ → Prop} {l : List α}
    (hstep : ∀ a ∈ l, ∀ b c b' c', R b c → step b a = .ok b' → step' c a = .ok c' → R b' c')
    {b r : β} {c r' : γ} (hbc : R b c) (h : l.foldlM step b = .ok r)
    (h' : l.foldlM step' c = .ok r') : R r r' := by
  induction l generalizing b c with
  | nil =>
      cases h
      cases h'
      exact hbc
  | cons a rest ih =>
      rw [List.foldlM_cons, bind_eq_ok] at h h'
      obtain ⟨b', hb, hrest⟩ := h
      obtain ⟨c', hc, hrest'⟩ := h'
      have hkeep := hstep a List.mem_cons_self b c b' c' hbc hb hc
      exact ih (fun x hx => hstep x (List.mem_cons_of_mem a hx)) hkeep hrest hrest'

end Fallible
