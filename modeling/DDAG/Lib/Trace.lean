import Mathlib.Data.List.Induction

/-!
# Runs of labelled systems

A system is a function `step` from a state and an event to the next state, with
`none` for an event that cannot happen.  A run is a list of events.  `Along P`
says that a property holds in every state of a run, `Each Q` that a condition
holds of every event in the state it happens in.

A property of runs is proved by `Along.of_each`, from what one step that meets a
condition preserves, or by `Along.of_step` from what every step preserves.
`Each.of_along` goes back, from the states to the steps, and `Along.of_along` from one property
of the states to another.
-/

namespace Machine

variable {σ ε : Type*}

def runs (step : σ → ε → Option σ) (s : σ) (es : List ε) : Option σ := es.foldlM step s

/-- The property holds in every state of the run. -/
def Along (step : σ → ε → Option σ) (P : σ → Prop) : σ → List ε → Prop
  | s, [] => P s
  | s, e :: es => P s ∧ ∀ s', step s e = some s' → Along step P s' es

/-- The condition holds of every event of the run that happens, in the state it
happens in. -/
def Each (step : σ → ε → Option σ) (Q : σ → ε → Prop) : σ → List ε → Prop
  | _, [] => True
  | s, e :: es => ∀ s', step s e = some s' → Q s e ∧ Each step Q s' es

section Rules

variable {step : σ → ε → Option σ} {P : σ → Prop} {Q : σ → ε → Prop}

theorem Along.head {s : σ} {es : List ε} (h : Along step P s es) : P s := by
  cases es with
  | nil => exact h
  | cons e es => exact h.1

theorem Each.cons {s s' : σ} {e : ε} {es : List ε} (hq : Q s e) (hs : step s e = some s')
    (h : Each step Q s' es) : Each step Q s (e :: es) := by
  intro t ht
  rw [hs] at ht
  cases ht
  exact ⟨hq, h⟩

/-- A condition that always holds. -/
theorem Each.of_forall (h : ∀ s e, Q s e) : ∀ (s : σ) (es : List ε), Each step Q s es
  | _, [] => trivial
  | s, e :: es => fun s' _ => ⟨h s e, Each.of_forall h s' es⟩

/-- A condition that is decidable of one event is decidable along a run. -/
instance Each.decidable [∀ s e, Decidable (Q s e)] : ∀ (s : σ) (es : List ε), Decidable (Each step Q s es)
  | _, [] => .isTrue trivial
  | s, e :: es =>
      match hs : step s e with
      | none => .isTrue fun _ hs' => nomatch hs.symm.trans hs'
      | some s' =>
          have := Each.decidable s' es
          decidable_of_iff (Q s e ∧ Each step Q s' es) ⟨fun h => .cons h.1 hs h.2, fun h => h s' hs⟩

/-- Conditions that agree on the steps that happen hold in the same runs. -/
theorem Each.congr {Q' : σ → ε → Prop} (heq : ∀ {s e s'}, step s e = some s' → (Q s e ↔ Q' s e)) :
    ∀ {es : List ε} {s : σ}, Each step Q s es ↔ Each step Q' s es
  | [], _ => Iff.rfl
  | _ :: _, _ => forall₂_congr fun _ he => and_congr (heq he) (Each.congr heq)

/-- The condition holds of the last event of a run. -/
theorem Each.last {e : ε} : ∀ {es : List ε} {s s' s'' : σ}, Each step Q s (es ++ [e]) →
    runs step s es = some s' → step s' e = some s'' → Q s' e
  | [], _, _, _, h, hrun, hs => by
      cases hrun
      exact (h _ hs).1
  | d :: es, s, _, _, h, hrun, hs => by
      rw [runs, List.foldlM_cons, Option.bind_eq_bind, Option.bind_eq_some_iff] at hrun
      obtain ⟨t, ht, hrest⟩ := hrun
      exact Each.last (h t ht).2 hrest hs

/-- What every step that meets the condition preserves holds along every run
whose steps meet it. -/
theorem Along.of_each {I : σ → Prop} (hstep : ∀ {s e s'}, I s → Q s e → step s e = some s' → I s') :
    ∀ {es : List ε} {s : σ}, I s → Each step Q s es → Along step I s es
  | [], _, hs, _ => hs
  | _ :: _, _, hs, h =>
      ⟨hs, fun s' he => Along.of_each hstep (hstep hs (h s' he).1 he) (h s' he).2⟩

/-- What every step preserves holds along every run. -/
theorem Along.of_step {I : σ → Prop} (hstep : ∀ {s e s'}, I s → step s e = some s' → I s') {s : σ}
    (hs : I s) (es : List ε) : Along step I s es := by
  have hall : Each step (fun _ _ => True) s es := Each.of_forall (fun _ _ => trivial) s es
  exact Along.of_each (fun h _ he => hstep h he) hs hall

/-- Steps that meet the condition, from states with an invariant they keep, meet a
second condition. -/
theorem Each.of_invariant {I : σ → Prop} {Q' : σ → ε → Prop}
    (hstep : ∀ {s e s'}, I s → Q s e → step s e = some s' → I s' ∧ Q' s e) :
    ∀ {es : List ε} {s : σ}, I s → Each step Q s es → Each step Q' s es
  | [], _, _, _ => trivial
  | _ :: _, _, hs, h => fun s' he =>
      have ⟨hinv, hmeets⟩ := hstep hs (h s' he).1 he
      ⟨hmeets, Each.of_invariant hstep hinv (h s' he).2⟩

/-- The same along a run that is known to have a property in all its states. -/
theorem Along.of_along {I : σ → Prop} : ∀ {es : List ε} {s : σ},
    (∀ {s e s'}, e ∈ es → I s → P s → step s e = some s' → P s' → I s') → I s → Along step P s es →
      Along step I s es
  | [], _, _, hs, _ => hs
  | _ :: _, _, hstep, hs, h =>
      ⟨hs, fun s' he => Along.of_along (fun hmem => hstep (List.mem_cons_of_mem _ hmem))
        (hstep List.mem_cons_self hs h.1 he (h.2 s' he).head) (h.2 s' he)⟩

/-- The property holds in the state a run ends in. -/
theorem Along.last : ∀ {es : List ε} {s s' : σ}, Along step P s es → runs step s es = some s' → P s'
  | [], _, _, h, hrun => by
      cases hrun
      exact h
  | e :: es, s, s', h, hrun => by
      rw [runs, List.foldlM_cons, Option.bind_eq_bind, Option.bind_eq_some_iff] at hrun
      obtain ⟨t, ht, hrest⟩ := hrun
      exact (h.2 t ht).last hrest

theorem Along.mono {P' : σ → Prop} (himp : ∀ s, P s → P' s) :
    ∀ {es : List ε} {s : σ}, Along step P s es → Along step P' s es
  | [], s, h => himp s h
  | _ :: _, s, h => ⟨himp s h.1, fun s' he => (h.2 s' he).mono himp⟩

/-- Steps between states that have the property meet the condition. -/
theorem Each.of_along (hstep : ∀ {s e s'}, P s → step s e = some s' → P s' → Q s e) :
    ∀ {es : List ε} {s : σ}, Along step P s es → Each step Q s es
  | [], _, _ => trivial
  | _ :: _, _, h => fun s' he =>
      ⟨hstep h.1 he (h.2 s' he).head, Each.of_along hstep (h.2 s' he)⟩

/-! ## Runs one after the other -/

theorem runs_append {s s' : σ} {es es' : List ε} (h : runs step s es = some s') :
    runs step s (es ++ es') = runs step s' es' := by
  rw [runs, List.foldlM_append]
  exact congrArg (· >>= fun t => es'.foldlM step t) h

/-- What every step adds to holds of the events of a run and the state it ends in. -/
theorem runs_induction {I : List ε → σ → Prop} {s : σ} (hstart : I [] s)
    (hstep : ∀ {es e t t'}, runs step s es = some t → I es t → step t e = some t' → I (es ++ [e]) t')
    {es : List ε} {t : σ} (h : runs step s es = some t) : I es t := by
  induction es using List.reverseRecOn generalizing t with
  | nil =>
      cases h
      exact hstart
  | append_singleton es e ih =>
      rw [runs, List.foldlM_append, Option.bind_eq_bind, Option.bind_eq_some_iff] at h
      obtain ⟨m, hrun, hlast⟩ := h
      rw [List.foldlM_cons, Option.bind_eq_bind, Option.bind_eq_some_iff] at hlast
      obtain ⟨t', hs, hend⟩ := hlast
      cases hend
      exact hstep hrun (ih hrun) hs

/-- What holds at the end of every run holds along every run. -/
theorem Along.of_runs : ∀ {es : List ε} {s : σ}, (∀ es t, runs step s es = some t → P t) → Along step P s es
  | [], s, h => h [] s rfl
  | e :: es, s, h => ⟨h [] s rfl, fun s' he => Along.of_runs fun es t hrun =>
      h (e :: es) t (by rwa [runs, List.foldlM_cons, he])⟩

theorem Each.append : ∀ {es es' : List ε} {s s' : σ}, Each step Q s es → runs step s es = some s' →
    Each step Q s' es' → Each step Q s (es ++ es')
  | [], _, _, _, _, hrun, h' => by
      cases hrun
      exact h'
  | _ :: _, _, _, _, h, hrun, h' => fun t ht => by
      rw [runs, List.foldlM_cons, ht] at hrun
      exact ⟨(h t ht).1, Each.append (h t ht).2 hrun h'⟩

/-! ## Runs step by step -/

/-- The run ends in the state, and the property holds in every state on the way. -/
structure Reaches (step : σ → ε → Option σ) (P : σ → Prop) (s : σ) (es : List ε) (s' : σ) : Prop where
  along : Along step P s es
  ends : runs step s es = some s'

theorem Reaches.nil {s : σ} (hs : P s) : Reaches step P s [] s := ⟨hs, rfl⟩

theorem Reaches.last {s s' : σ} {es : List ε} (h : Reaches step P s es s') : P s' := h.along.last h.ends

theorem Reaches.cons {s s' s'' : σ} {e : ε} {es : List ε} (hs : P s) (he : step s e = some s')
    (h : Reaches step P s' es s'') : Reaches step P s (e :: es) s'' := by
  refine ⟨⟨hs, fun t ht => ?_⟩, ?_⟩
  · rw [he] at ht
    cases ht
    exact h.along
  · rw [runs, List.foldlM_cons, he]
    exact h.ends

theorem Reaches.append : ∀ {es es' : List ε} {s s' s'' : σ}, Reaches step P s es s' →
    Reaches step P s' es' s'' → Reaches step P s (es ++ es') s''
  | [], _, _, _, _, h, h' => by
      cases h.ends
      exact h'
  | e :: es, _, s, _, _, h, h' => by
      have hrun := h.ends
      rw [runs, List.foldlM_cons, Option.bind_eq_bind, Option.bind_eq_some_iff] at hrun
      obtain ⟨t, ht, hrest⟩ := hrun
      exact .cons h.along.head ht (Reaches.append ⟨h.along.2 t ht, hrest⟩ h')

end Rules

end Machine
