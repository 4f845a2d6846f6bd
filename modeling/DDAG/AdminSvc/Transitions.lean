import DDAG.AdminSvc.Lifecycle

/-!
# Changes of status

A handler checks the transition it makes against the status it read.  The statement
that commits it is for the row whatever its status has become, except that of a
publish.

`changes_lawful_iff` says in which runs every change of status is one of the table or
the edit of a published API: in those in which no approval and no change of status is
committed after its row has left the status that was read, unless it has come to the
one that is set.  `published_is_approved_again` is a run with two approvals that takes
a published API back.
-/

namespace DDAG.AdminSvc

open Models Gateway Machine

/-- The status a handler that is ready to commit has read, and the one it sets.  An
edit reads none, and a publish commits for an approved row only. -/
def Handler.change? (h : Handler) : Option (Status × Status) :=
  match h.task, h.phase with
  | .setStatus target, .read s _ => some (s, target.status)
  | .approve, .read s _ => some (s, .approved)
  | _, _ => none

/-- An approval or a change of status is committed, and the row has neither the status
that was read nor the one that is set. -/
def Stale (p : Admin) (e : PoolEvent Handler Action) : Prop :=
  ∃ i h s t, e = .act i .commit ∧ p.threads[i]? = some h ∧ h.change? = some (s, t) ∧
    p.shared.status ≠ s ∧ p.shared.status ≠ t

/-- The event is the commit of an edit. -/
def Edits (p : Admin) (e : PoolEvent Handler Action) : Prop :=
  ∃ i h input, e = .act i .commit ∧ p.threads[i]? = some h ∧ h.task = .update input

/-- A status that no API leaves for review or approval. -/
def Status.Released (s : Status) : Prop :=
  s = .published ∨ s = .deprecated ∨ s = .disabled ∨ s = .archived

/-- The event changes the status as the workflow allows, from `p` to `p'`. -/
structure Lawful (p : Admin) (e : PoolEvent Handler Action) (p' : Admin) : Prop where
  allowed : p'.shared.status = p.shared.status ∨
    canTransitionAPIStatus p.shared.status p'.shared.status = true ∨
    (Edits p e ∧ p.shared.status = .published ∧ p'.shared.status = .draft)
  forward : p.shared.status.Released →
    p'.shared.status ≠ .approved ∧ p'.shared.status ≠ .review

/-! ## The table -/

/-- The one status from which the table allows another. -/
def Status.source? : Status → Option Status
  | .draft => none
  | .review => some .draft
  | .approved => some .review
  | .published => some .approved
  | .deprecated | .archived | .disabled => some .published

theorem canTransition_iff {s t : Status} :
    canTransitionAPIStatus s t = true ↔ t.source? = some s := by
  cases t <;> cases s <;> decide

theorem Status.Released.not_source {s t : Status} (hs : s.Released) (ht : t = .approved ∨ t = .review) :
    canTransitionAPIStatus s t = false := by
  rcases hs with rfl | rfl | rfl | rfl <;> rcases ht with rfl | rfl <;> rfl

theorem Lawful.of_allowed {p p' : Admin} {e : PoolEvent Handler Action}
    (h : p'.shared.status = p.shared.status ∨
      canTransitionAPIStatus p.shared.status p'.shared.status = true ∨
      (Edits p e ∧ p.shared.status = .published ∧ p'.shared.status = .draft)) : Lawful p e p' := by
  refine ⟨h, fun hreleased => ?_⟩
  have hback : ¬(p'.shared.status = .approved ∨ p'.shared.status = .review) := by
    intro hto
    rcases h with hsame | htable | ⟨-, -, hdraft⟩
    · rw [hsame] at hto
      rcases hreleased with hs | hs | hs | hs <;> rw [hs] at hto <;> simp at hto
    · rw [hreleased.not_source hto] at htable
      cases htable
    · rw [hdraft] at hto
      simp at hto
  exact ⟨fun hs => hback (.inl hs), fun hs => hback (.inr hs)⟩

section Steps

variable {compileError : Text → Option Text} {walk : List Text → List Text} {p p' : Admin}
  {e : PoolEvent Handler Action}

/-- A commit that sets a status the table allows after the one that was read. -/
theorem lawful_iff_of_change {i : Nat} {h : Handler} (hh : p.threads[i]? = some h) {s t : Status}
    (hchange : h.change? = some (s, t)) (hallowed : canTransitionAPIStatus s t = true)
    (hset : p'.shared.status = t) (hedit : ∀ input, h.task ≠ .update input) :
    Lawful p (.act i .commit) p' ↔ ¬Stale p (.act i .commit) := by
  constructor
  · rintro hlawful ⟨j, h', s', t', he, hh', hchange', hleft, hnew⟩
    cases he
    rw [hh] at hh'
    cases hh'
    rw [hchange] at hchange'
    cases hchange'
    rcases hlawful.allowed with hsame | htable | ⟨⟨j, h', input, he, hh', htask⟩, -⟩
    · exact hnew (hsame.symm.trans hset)
    · -- the table allows the status after one status only
      rw [hset, canTransition_iff, canTransition_iff.mp hallowed] at htable
      exact hleft (Option.some.inj htable).symm
    · cases he
      rw [hh] at hh'
      cases hh'
      exact hedit input htask
  · intro hstale
    refine .of_allowed ?_
    rw [hset]
    by_cases hread : p.shared.status = s
    · exact .inr (.inl (hread ▸ hallowed))
    · by_cases hnew : p.shared.status = t
      · exact .inl hnew.symm
      · exact absurd ⟨i, h, s, t, rfl, hh, hchange, hread, hnew⟩ hstale

theorem not_stale {i : Nat} {h : Handler} {x : Action} (hh : p.threads[i]? = some h)
    (hnone : x = .commit → h.change? = none) : ¬Stale p (.act i x) := by
  rintro ⟨j, h', s, t, he, hh', hchange, -⟩
  cases he
  rw [hh] at hh'
  cases hh'
  rw [hnone rfl] at hchange
  cases hchange

/-- A step is lawful exactly if it is not stale. -/
theorem lawful_iff (hs : step compileError walk p e = some p') : Lawful p e p' ↔ ¬Stale p e := by
  rcases poolStep_cases hs with ⟨h, rfl, -, rfl⟩ | ⟨i, x, h, a', h', rfl, hh, hact, rfl⟩
  · exact iff_of_true (.of_allowed (.inl rfl)) fun ⟨_, _, _, _, he, _⟩ => nomatch he
  rcases act_cases hact with ⟨rfl, rfl, -, rfl⟩ | ⟨s, d, rfl, rfl, -, rfl⟩ | ⟨rfl, rfl, rfl⟩ |
    ⟨rfl, hc, rfl⟩
  · exact iff_of_true (.of_allowed (.inl rfl)) (not_stale hh nofun)
  · exact iff_of_true (.of_allowed (.inl rfl)) (not_stale hh nofun)
  · exact iff_of_true (.of_allowed (.inl rfl)) (not_stale hh nofun)
  rcases commit_cases hc with ⟨input, c, htask, -, rfl⟩ | ⟨target, s, c, htask, hphase, hallowed, rfl⟩ |
    ⟨s, c, htask, hphase, hallowed, rfl⟩ | ⟨c, htask, -, hpub⟩
  · -- an edit leaves the status, or takes a published API back to a draft
    have hnone : h.change? = none := by simp [Handler.change?, htask]
    refine iff_of_true (.of_allowed ?_) (not_stale hh fun _ => hnone)
    simp only [updateAPIWithParameters]
    split
    next hpublished => exact .inr (.inr ⟨⟨i, h, input, rfl, hh, htask⟩, hpublished, rfl⟩)
    next _ => exact .inl rfl
  · have hchange : h.change? = some (s, target.status) := by simp [Handler.change?, htask, hphase]
    exact lawful_iff_of_change hh hchange hallowed rfl fun _ => by simp [htask]
  · have hchange : h.change? = some (s, .approved) := by simp [Handler.change?, htask, hphase]
    exact lawful_iff_of_change hh hchange hallowed rfl fun _ => by simp [htask]
  · -- a publish checks the status again
    have hnone : h.change? = none := by simp [Handler.change?, htask]
    refine iff_of_true (.of_allowed (.inr (.inl ?_))) (not_stale hh fun _ => hnone)
    unfold publishAPI at hpub
    split at hpub
    next happroved =>
      cases hpub
      rw [happroved]
      rfl
    next _ => cases hpub

end Steps

/-- Whatever the handlers and the order of their steps: every change of status is lawful
exactly in the runs in which no step is stale. -/
theorem changes_lawful_iff (compileError : Text → Option Text) (walk : List Text → List Text)
    (p : Admin) (es : List (PoolEvent Handler Action)) :
    Each (step compileError walk)
        (fun p e => ∀ p', step compileError walk p e = some p' → Lawful p e p') p es ↔
      Each (step compileError walk) (fun p e => ¬Stale p e) p es := by
  refine Each.congr fun {s e s'} hs => ?_
  rw [← lawful_iff hs, hs]
  exact ⟨fun h => h s' rfl, fun h t ht => Option.some.inj ht ▸ h⟩

/-- Two approvals read an API in review.  One is committed and the API is published,
then the other one is committed. -/
def lateApproval : List (PoolEvent Handler Action) :=
  [.join { task := .approve }, .act 0 .readRow, .act 0 .readParameters] ++
    undisturbed 1 .approve ++ undisturbed 2 .publish

/-- The late approval takes the published API back to approved. -/
theorem published_is_approved_again :
    let step := step (fun _ => none) id
    let start := existing (selecting "SELECT 1") .review
    (runs step start lateApproval).map (fun p => p.shared.status) = some .published ∧
      (runs step start (lateApproval ++ [.act 0 .commit])).map (fun p => p.shared.status) =
        some .approved ∧
      ¬Each step (fun p e => ∀ p', step p e = some p' → Lawful p e p') start
        (lateApproval ++ [.act 0 .commit]) := by
  have hbefore : (runs (step (fun _ => none) id) (existing (selecting "SELECT 1") .review)
      lateApproval).map (fun p => p.shared.status) = some .published := by decide +kernel
  have hafter : (runs (step (fun _ => none) id) (existing (selecting "SELECT 1") .review)
      (lateApproval ++ [.act 0 .commit])).map (fun p => p.shared.status) = some .approved := by
    decide +kernel
  refine ⟨hbefore, hafter, fun heach => ?_⟩
  obtain ⟨p, hp, hpublished⟩ := Option.map_eq_some_iff.mp hbefore
  obtain ⟨p', hp', happroved⟩ := Option.map_eq_some_iff.mp hafter
  have hlast : step (fun _ => none) id p (.act 0 .commit) = some p' := by
    rw [runs, List.foldlM_append] at hp'
    rw [runs] at hp
    simpa [hp] using hp'
  exact (((heach.last hp hlast) p' hlast).forward (.inl hpublished)).1 happroved

end DDAG.AdminSvc
