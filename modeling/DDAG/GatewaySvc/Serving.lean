import DDAG.GatewaySvc.CachedReads

/-!
# What requests are served with

The rules for properties of the results that requests are served with.  `Serves` says of
a state that every query gives a result of one kind, and that nothing of another kind is
in Redis or about to be put there.  It is kept by every step (`Serves.step`), and a request
that is served with results of the kind stays so (`mem_reads_step`).
-/

namespace DDAG.GatewaySvc

open Machine

section Serving

variable {κ : Type*}

/-- A flight is for a revision of a kind, and has no result of another kind. -/
def FlightCall.Fits (V : Nat → Prop) (R : QueryResult → Prop) (f : FlightCall κ) : Prop :=
  V f.revision ∧ ∀ r, f.phase.result? = some r → R r

/-- The same of a request, until it is answered. -/
def ReadPhase.Fits (V : Nat → Prop) (R : QueryResult → Prop) (calls : List (FlightCall κ)) :
    ReadPhase → Prop
  | .routed v => V v
  | .missed v => V v
  | .waiting c => ∃ f, calls[c]? = some f ∧ f.Fits V R
  | .ready r => R r
  | .answered _ => True
  | .failed => True

/-- A query that is built from a revision of the kind `V` has a result of the kind `R`.
Outside of the keys `ks` nothing else is in Redis or will be put there. -/
structure Serves (V : Nat → Prop) (R : QueryResult → Prop) (ks : List κ) (s : CachedReads κ) : Prop where
  direct : ∀ v n, V v → s.purges.length ≤ n → R { revision := v, ran := n }
  installed : V s.installed
  cached : ∀ e ∈ s.cache, e.1 ∈ ks ∨ R e.2
  active : ∀ f ∈ s.calls, f.phase.active = true → f.Fits V R
  routed : ∀ q ∈ s.reads, ∀ v, q.phase.revision? = some v → V v


variable {V : Nat → Prop} {R : QueryResult → Prop} {ks : List κ} {s s' : CachedReads κ} {q : Read κ}
  {f : FlightCall κ}

/-! ## Requests -/

theorem fits_loading {k : κ} {v : Nat} (hv : V v) :
    FlightCall.Fits V R { key := k, revision := v, phase := .loading } :=
  ⟨hv, nofun⟩

/-- The flights after an action of a request. -/
theorem ReadActs.calls_eq {calls : List (FlightCall κ)} {phase : ReadPhase} (h : ReadActs s q calls phase) :
    calls = s.calls ∨ ∃ v, q.phase.revision? = some v ∧
      calls = s.calls ++ [{ key := q.key, revision := v, phase := .loading }] := by
  cases h with
  | lead h => exact .inr ⟨_, by rw [h]; rfl, rfl⟩
  | direct h => exact .inl rfl
  | hit h hr => exact .inl rfl
  | miss h => exact .inl rfl
  | share h hf hkey hactive => exact .inl rfl
  | receive h hf hr => exact .inl rfl
  | answer h => exact .inl rfl
  | fail => exact .inl rfl

/-- A request keeps its revision until it has a flight or a result. -/
theorem ReadActs.revision {calls : List (FlightCall κ)} {phase : ReadPhase} (h : ReadActs s q calls phase)
    {v : Nat} (hv : phase.revision? = some v) : q.phase.revision? = some v := by
  cases h with
  | miss h => rw [h]; exact hv
  | direct h => cases hv
  | hit h hr => cases hv
  | share h hf hkey hactive => cases hv
  | lead h => cases hv
  | receive h hf hr => cases hv
  | answer h => cases hv
  | fail => cases hv

theorem ReadPhase.Fits.mono {calls calls' : List (FlightCall κ)} {phase : ReadPhase}
    (hcalls : ∀ c : Nat, (∃ f, calls[c]? = some f ∧ f.Fits V R) → ∃ f, calls'[c]? = some f ∧ f.Fits V R)
    (h : phase.Fits V R calls) : phase.Fits V R calls' := by
  cases phase with
  | waiting c => exact hcalls c h
  | routed v => exact h
  | missed v => exact h
  | ready r => exact h
  | answered r => exact h
  | failed => exact h

/-- A request is served with a result of the kind if nothing else can be found. -/
theorem ReadActs.fits {calls : List (FlightCall κ)} {phase : ReadPhase} (h : ReadActs s q calls phase)
    (hs : Serves V R [] s) (hq : q.phase.Fits V R s.calls) (hmem : q ∈ s.reads) :
    phase.Fits V R calls := by
  cases h with
  | direct h => exact hs.direct _ _ (hs.routed q hmem _ h) le_rfl
  | hit h hr => exact (hs.cached _ hr).resolve_left List.not_mem_nil
  | miss h => rwa [h] at hq
  | share h hf hkey hactive => exact ⟨_, hf, hs.active _ (List.mem_of_getElem? hf) hactive⟩
  | lead h =>
      rw [h] at hq
      exact ⟨_, List.getElem?_concat_length, fits_loading hq⟩
  | receive h hf hr =>
      rw [h] at hq
      obtain ⟨f, hf', hfits⟩ := hq
      rw [hf] at hf'
      cases hf'
      exact hfits.2 _ (by rw [hr]; rfl)
  | answer h => trivial
  | fail => trivial

theorem Serves.of_eq (h : Serves V R ks s) (hcache : s'.cache = s.cache) (hcalls : s'.calls = s.calls)
    (hpurges : s.purges.length ≤ s'.purges.length) (hinstalled : V s'.installed)
    (hrouted : ∀ q ∈ s'.reads, ∀ v, q.phase.revision? = some v → V v) : Serves V R ks s' where
  direct v n hv hn := h.direct v n hv (hpurges.trans hn)
  installed := hinstalled
  cached := hcache ▸ h.cached
  active := hcalls ▸ h.active
  routed := hrouted

theorem Serves.read (h : Serves V R ks s) {i : Nat} {calls : List (FlightCall κ)} {phase : ReadPhase}
    (hq : s.reads[i]? = some q) (hacts : ReadActs s q calls phase) :
    Serves V R ks { s with calls := calls, reads := s.reads.set i { q with phase := phase } } := by
  have hrouted := h.routed q (List.mem_of_getElem? hq)
  refine ⟨h.direct, h.installed, h.cached, ?_, forall_mem_set h.routed ?_⟩
  · show ∀ g ∈ calls, g.phase.active = true → g.Fits V R
    rcases hacts.calls_eq with heq | ⟨v, hv, heq⟩
    · rw [heq]
      exact h.active
    · rw [heq]
      exact forall_mem_join h.active fun _ => fits_loading (hrouted v hv)
  · exact fun v hv => hrouted v (hacts.revision hv)

variable [DecidableEq κ] {e : ReadEvent κ}

/-! ## Flights -/

theorem FlightActs.active {cache : List (κ × QueryResult)} {phase : FlightPhase}
    (h : FlightActs s f cache phase) : f.phase.active = true := by
  cases h with
  | query h => rw [h]; rfl
  | fail h => rw [h]; rfl
  | store h => rw [h]; rfl
  | skip h => rw [h]; rfl
  | finish h => rw [h]; rfl

theorem FlightActs.mem_cache {cache : List (κ × QueryResult)} {phase : FlightPhase}
    (h : FlightActs s f cache phase) {entry : κ × QueryResult} (he : entry ∈ cache) :
    entry ∈ s.cache ∨ f.phase.result? = some entry.2 := by
  cases h with
  | query h => exact .inl he
  | fail h => exact .inl he
  | store h =>
      rcases List.mem_cons.mp he with rfl | hold
      · exact .inr (by rw [h]; rfl)
      · exact .inl (List.mem_of_mem_filter hold)
  | skip h => exact .inl he
  | finish h => exact .inl he

theorem FlightActs.fits {cache : List (κ × QueryResult)} {phase : FlightPhase}
    (h : FlightActs s f cache phase) (hdirect : V f.revision → R ⟨f.revision, s.purges.length⟩)
    (hf : f.Fits V R) : FlightCall.Fits V R { f with phase := phase } := by
  obtain ⟨hrevision, hresult⟩ := hf
  refine ⟨hrevision, fun r hr => ?_⟩
  cases h with
  | query h =>
      cases hr
      exact hdirect hrevision
  | fail h => cases hr
  | store h => exact hresult r (by rw [h]; exact hr)
  | skip h => exact hresult r (by rw [h]; exact hr)
  | finish h => exact hresult r (by rw [h]; exact hr)

/-! ## Steps -/

theorem Serves.remove (h : Serves V R ks s) (removed : List κ) :
    Serves V R (ks.filter (· ∉ removed)) (s.remove removed) where
  direct v n hv hn := h.direct v n hv (by simpa [CachedReads.remove] using hn)
  installed := h.installed
  cached entry he := by
    obtain ⟨hmem, hkept⟩ := List.mem_filter.mp he
    exact (h.cached entry hmem).imp_left fun hks => List.mem_filter.mpr ⟨hks, hkept⟩
  active := h.active
  routed := h.routed

theorem Serves.call (h : Serves V R ks s) {c : Nat} {cache : List (κ × QueryResult)} {phase : FlightPhase}
    (hc : s.calls[c]? = some f) (hacts : FlightActs s f cache phase) :
    Serves V R ks { s with cache := cache, calls := s.calls.set c { f with phase := phase } } := by
  have hfits := h.active f (List.mem_of_getElem? hc) hacts.active
  refine ⟨h.direct, h.installed, fun entry he => ?_, forall_mem_set h.active fun _ => ?_, h.routed⟩
  · rcases hacts.mem_cache he with hold | hresult
    · exact h.cached entry hold
    · exact .inr (hfits.2 _ hresult)
  · exact hacts.fits (fun hv => h.direct _ _ hv le_rfl) hfits

/-- Every step keeps the kind of the results, if a revision that is installed is of the
kind, and takes the keys it removes from the exceptions. -/
theorem Serves.step (h : Serves V R ks s) (hs : readStep s e = some s')
    (hreload : ∀ n, e = .reload n → V n) : Serves V R (ks.filter (· ∉ e.removes)) s' := by
  have hnil := filter_notMem_nil ks
  cases readSteps_of_readStep hs with
  | publish => exact hnil.symm ▸ h.of_eq rfl rfl le_rfl h.installed h.routed
  | reload => exact hnil.symm ▸ h.of_eq rfl rfl le_rfl (hreload _ rfl) h.routed
  | expire k => exact h.remove [k]
  | arrive k =>
      refine hnil.symm ▸ h.of_eq rfl rfl le_rfl h.installed (forall_mem_join h.routed ?_)
      intro v hv
      cases hv
      exact h.installed
  | read hq hacts => exact hnil.symm ▸ h.read hq hacts
  | call hf hacts => exact hnil.symm ▸ h.call hf hacts
  | startPurge => exact hnil.symm ▸ h.of_eq rfl rfl (by simp) h.installed h.routed
  | del j removed => exact h.remove removed
  | returnPurge => exact hnil.symm ▸ h.of_eq rfl rfl (by simp) h.installed h.routed

/-- The requests after a step: one that has just arrived, and those there were, which are
still served with results of the kinds they were served with. -/
theorem mem_reads_step (hs : readStep s e = some s') {q' : Read κ} (hq' : q' ∈ s'.reads) :
    (q'.after = (s.purges.filter (·.returned)).map (·.number) ∧ q'.phase = .routed s.installed) ∨
      ∃ q ∈ s.reads, q'.after = q.after ∧ ∀ V R, Serves V R [] s → q.phase.Fits V R s.calls →
        q'.phase.Fits V R s'.calls := by
  cases readSteps_of_readStep hs with
  | publish => exact .inr ⟨q', hq', rfl, fun _ _ _ hfits => hfits⟩
  | reload => exact .inr ⟨q', hq', rfl, fun _ _ _ hfits => hfits⟩
  | expire k => exact .inr ⟨q', hq', rfl, fun _ _ _ hfits => hfits⟩
  | arrive k =>
      rcases List.mem_append.mp hq' with hold | hnew
      · exact .inr ⟨q', hold, rfl, fun _ _ _ hfits => hfits⟩
      · rw [List.mem_singleton.mp hnew]
        exact .inl ⟨rfl, rfl⟩
  | read hq hacts =>
      have hmem := List.mem_of_getElem? hq
      rcases List.mem_or_eq_of_mem_set hq' with hold | rfl
      · refine .inr ⟨q', hold, rfl, fun V R _ hfits => hfits.mono fun c hc => ?_⟩
        -- flights join at the end
        rcases hacts.calls_eq with rfl | ⟨v, -, rfl⟩
        · exact hc
        · exact exists_getElem?_append hc
      · exact .inr ⟨_, hmem, rfl, fun V R hserves hfits => hacts.fits hserves hfits hmem⟩
  | call hf hacts =>
      refine .inr ⟨q', hq', rfl, fun V R hserves hfits => hfits.mono fun c hc => ?_⟩
      exact exists_getElem?_set hf (hacts.fits fun hv => hserves.direct _ _ hv le_rfl) hc
  | startPurge => exact .inr ⟨q', hq', rfl, fun _ _ _ hfits => hfits⟩
  | del j ks => exact .inr ⟨q', hq', rfl, fun _ _ _ hfits => hfits⟩
  | returnPurge => exact .inr ⟨q', hq', rfl, fun _ _ _ hfits => hfits⟩

end Serving

end DDAG.GatewaySvc
