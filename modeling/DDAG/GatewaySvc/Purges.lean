import DDAG.GatewaySvc.Serving

/-!
# Purges and loads

`PurgeEndpoint` deletes what is in Redis, and knows nothing of the flights.
`answers_ran_after_purges` says that no request is answered with a result whose query ran
before a purge that had returned when the request arrived, in every run in which no purge
starts while a flight has its result and is not over.  `purged_result_served` has two runs
in which a flight brings its result past a purge: to Redis, and to a request that shares
the flight.
-/

namespace DDAG.GatewaySvc

open Machine

section Purges

variable {κ : Type*}

def ReadEvent.startsPurge : ReadEvent κ → Bool
  | .startPurge => true
  | _ => false

/-- A purge starts while a flight has the result of its query and is not over. -/
def Overtakes (s : CachedReads κ) (e : ReadEvent κ) : Prop :=
  e.startsPurge = true ∧ ∃ f ∈ s.calls, f.phase.active = true ∧ f.phase.result?.isSome = true

instance (s : CachedReads κ) (e : ReadEvent κ) : Decidable (Overtakes s e) :=
  inferInstanceAs (Decidable (_ ∧ _))

/-- The query of a response that the event gives ran after the start of every purge that
had returned when the request arrived. -/
def AnswersFresh (s : CachedReads κ) (e : ReadEvent κ) : Prop :=
  ∀ i q r, e = .read i .answer → s.reads[i]? = some q → q.phase = .ready r → ∀ n ∈ q.after, n ≤ r.ran

/-- Outside of the keys `ks`, every result there is or will be is of a query that ran
after the `n`-th purge started. -/
def ServesAfter (n : Nat) (ks : List κ) (s : CachedReads κ) : Prop :=
  Serves (fun _ => True) (n ≤ ·.ran) ks s

/-- Older results are under keys that a purge has still to delete, and no request that
arrived after a purge is served with one. -/
structure Purged (s : CachedReads κ) : Prop where
  purges : ∀ p ∈ s.purges, ServesAfter p.number p.remaining s
  returned : ∀ p ∈ s.purges, p.returned = true → p.remaining = []
  reads : ∀ q ∈ s.reads, ∀ n ∈ q.after,
    ServesAfter n [] s ∧ q.phase.Fits (fun _ => True) (n ≤ ·.ran) s.calls

theorem purged_quiet (revision : Nat) : Purged (quiet κ revision) := ⟨nofun, nofun, nofun⟩

theorem Purged.answers {s : CachedReads κ} (h : Purged s) (e : ReadEvent κ) : AnswersFresh s e := by
  intro i q r _ hq hr n hn
  have hfits := (h.reads q (List.mem_of_getElem? hq) n hn).2
  rwa [hr] at hfits

/-- What a purge that has returned leaves behind. -/
theorem Purged.servesAfter {s : CachedReads κ} (h : Purged s) {n : Nat}
    (hn : n ∈ (s.purges.filter (·.returned)).map (·.number)) : ServesAfter n [] s := by
  obtain ⟨p, hp, rfl⟩ := List.mem_map.mp hn
  obtain ⟨hmem, hreturned⟩ := List.mem_filter.mp hp
  have hserves := h.purges p hmem
  rwa [h.returned p hmem hreturned] at hserves

variable [DecidableEq κ] {s s' : CachedReads κ} {e : ReadEvent κ}

theorem ServesAfter.step {n : Nat} {ks : List κ} (h : ServesAfter n ks s) (hs : readStep s e = some s') :
    ServesAfter n (ks.filter (· ∉ e.removes)) s' :=
  Serves.step h hs fun _ _ => trivial

/-- The purges after a step: one that has just started, and those there were, from which
the keys are taken that leave Redis. -/
theorem mem_purges_step (hs : readStep s e = some s') {p' : Purge κ} (hp' : p' ∈ s'.purges) :
    (e = .startPurge ∧
        p' = { number := s.purges.length + 1, remaining := s.cache.map (·.1), returned := false }) ∨
      ∃ p ∈ s.purges, p'.number = p.number ∧ p'.remaining = p.remaining.filter (· ∉ e.removes) ∧
        (p'.returned = true → p.returned = true ∨ p.remaining = []) := by
  have hkept : p' ∈ s.purges → ∃ p ∈ s.purges, p'.number = p.number ∧
      p'.remaining = p.remaining.filter (· ∉ ([] : List κ)) ∧
        (p'.returned = true → p.returned = true ∨ p.remaining = []) :=
    fun hmem => ⟨p', hmem, rfl, (filter_notMem_nil _).symm, .inl⟩
  have hremove : ∀ {ks : List κ}, p' ∈ (s.remove ks).purges → ∃ p ∈ s.purges,
      p'.number = p.number ∧ p'.remaining = p.remaining.filter (· ∉ ks) ∧
        (p'.returned = true → p.returned = true ∨ p.remaining = []) := by
    intro ks hmem
    obtain ⟨p, hp, rfl⟩ := List.mem_map.mp hmem
    exact ⟨p, hp, rfl, rfl, .inl⟩
  cases readSteps_of_readStep hs with
  | publish => exact .inr (hkept hp')
  | reload => exact .inr (hkept hp')
  | expire k => exact .inr (hremove hp')
  | arrive k => exact .inr (hkept hp')
  | read hq hacts => exact .inr (hkept hp')
  | call hf hacts => exact .inr (hkept hp')
  | startPurge =>
      rcases List.mem_append.mp hp' with hold | hnew
      · exact .inr (hkept hold)
      · exact .inl ⟨rfl, List.mem_singleton.mp hnew⟩
  | del j ks => exact .inr (hremove hp')
  | returnPurge hp hnil =>
      rcases List.mem_or_eq_of_mem_set hp' with hold | rfl
      · exact .inr (hkept hold)
      · exact .inr ⟨_, List.mem_of_getElem? hp, rfl, (filter_notMem_nil _).symm, fun _ => .inr hnil⟩

/-- A purge that starts while no flight has a result: all that is older is cached, and to
be deleted. -/
theorem servesAfter_startPurge (he : ¬Overtakes s .startPurge) (hs : readStep s .startPurge = some s') :
    ServesAfter (s.purges.length + 1) (s.cache.map (·.1)) s' := by
  cases hs
  constructor
  · intro v n _ hn
    exact le_trans (by simp) hn
  · trivial
  · intro entry hentry
    exact .inl (List.mem_map_of_mem hentry)
  · intro f hf hactive
    refine ⟨trivial, fun r hr => ?_⟩
    exact absurd ⟨rfl, f, hf, hactive, Option.isSome_of_eq_some hr⟩ he
  · intro _ _ _ _
    trivial

/-- A step in which no purge overtakes a flight. -/
theorem Purged.step (h : Purged s) (he : ¬Overtakes s e) (hs : readStep s e = some s') : Purged s' := by
  refine ⟨fun p' hp' => ?_, fun p' hp' hreturned => ?_, fun q' hq' n hn => ?_⟩
  · rcases mem_purges_step hs hp' with ⟨rfl, rfl⟩ | ⟨p, hp, hnumber, hremaining, -⟩
    · exact servesAfter_startPurge he hs
    · rw [hnumber, hremaining]
      exact (h.purges p hp).step hs
  · rcases mem_purges_step hs hp' with ⟨-, rfl⟩ | ⟨p, hp, -, hremaining, hbefore⟩
    · cases hreturned
    · have hnil : p.remaining = [] := (hbefore hreturned).elim (h.returned p hp) id
      rw [hremaining, hnil]
      rfl
  · rcases mem_reads_step hs hq' with ⟨hafter, hphase⟩ | ⟨q, hq, hafter, hkeep⟩
    · rw [hafter] at hn
      rw [hphase]
      exact ⟨(h.servesAfter hn).step hs, trivial⟩
    · rw [hafter] at hn
      obtain ⟨hserves, hfits⟩ := h.reads q hq n hn
      exact ⟨hserves.step hs, hkeep _ _ hserves hfits⟩

/-- From the start of the gateway, and whatever requests, purges and reloads interleave: if
no purge starts while a flight has its result and is not over, no request is answered with
a result whose query ran before a purge that had returned when the request arrived. -/
theorem answers_ran_after_purges (revision : Nat) {es : List (ReadEvent κ)}
    (h : Each readStep (fun s e => ¬Overtakes s e) (quiet κ revision) es) :
    Each readStep AnswersFresh (quiet κ revision) es := by
  refine Each.of_invariant ?_ (purged_quiet revision) h
  intro s e s' hinv he hs
  exact ⟨hinv.step he hs, hinv.answers e⟩

end Purges

/-- The query of a flight runs, and then a purge starts, finds nothing and returns. -/
def purgedAfterQuery : List (ReadEvent Nat) :=
  [.arrive 7, .read 0 .lookup, .read 0 .join, .call 0 .query, .startPurge, .returnPurge 0]

/-- The flight stores its result, which a request finds that arrives then. -/
def foundAfterPurge : List (ReadEvent Nat) :=
  purgedAfterQuery ++ [.call 0 .store, .call 0 .finish, .arrive 7, .read 1 .lookup]

/-- A request that arrives after the purge shares the flight. -/
def sharedAfterPurge : List (ReadEvent Nat) :=
  purgedAfterQuery ++ [.arrive 7, .read 1 .lookup, .read 1 .join, .call 0 .skip, .call 0 .finish,
    .read 1 .receive]

/-- Both requests arrive after the first purge has returned, and are answered with a result
whose query ran when no purge had started. -/
theorem purged_result_served :
    (∀ es ∈ [foundAfterPurge, sharedAfterPurge],
      (runs readStep (quiet Nat 1) es).bind (fun s => s.reads[1]?.map fun q => (q.after, q.phase)) =
        some ([1], .ready ⟨1, 0⟩)) ∧
      ¬Each readStep AnswersFresh (quiet Nat 1) (foundAfterPurge ++ [.read 1 .answer]) ∧
      ¬Each readStep AnswersFresh (quiet Nat 1) (sharedAfterPurge ++ [.read 1 .answer]) := by
  refine ⟨by decide, fun h => ?_, fun h => ?_⟩
  · exact absurd (h.last rfl rfl 1 _ ⟨1, 0⟩ rfl rfl rfl 1 (.head _)) (by decide)
  · exact absurd (h.last rfl rfl 1 _ ⟨1, 0⟩ rfl rfl rfl 1 (.head _)) (by decide)

/-- With the query run after the start of the purge both requests are answered with its
result. -/
theorem purge_before_query :
    Each readStep AnswersFresh (quiet Nat 1)
      [.arrive 7, .read 0 .lookup, .read 0 .join, .startPurge, .returnPurge 0, .arrive 7,
        .read 1 .lookup, .read 1 .join, .call 0 .query, .call 0 .store, .call 0 .finish,
        .read 0 .receive, .read 0 .answer, .read 1 .receive, .read 1 .answer] :=
  answers_ran_after_purges 1 (by decide)

end DDAG.GatewaySvc
