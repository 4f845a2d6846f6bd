import DDAG.ConnectorPool.Registry

/-!
# Versions of installed pools

The configuration of a connection has a version that grows with every update, and an
`Acquire` is called with the version of a resolution.  A resolution may be as old as the
cache of `internal/connector/conncache.go` keeps it and as its request is slow, so a call
joins with any version its connection has had.

`Acquire` compares versions for equality only.  `versions_advance_iff` says that the version
of the entry of an id never decreases exactly in the runs in which no call installs its
connector after a call with a newer version has got one, and `older_version_installed` is a
run in which one does.
-/

namespace DDAG.ConnectorPool

open Machine

/-! ## Configurations -/

/-- The `config_version` of every connection, and the registry with its calls. -/
structure Site where
  config : ConnID → Int
  server : Server

inductive SiteEvent where
  /-- `UpdateConnection` or `SetConnectionSecret`. -/
  | update (id : ConnID)
  | call (e : PoolEvent Call Action)

/-- The call is an `Acquire` with a version its connection has had. -/
def isResolved (config : ConnID → Int) (c : Call) : Bool :=
  match c.job with
  | .acquire id version => 1 ≤ version && version ≤ config id
  | .invalidate _ => false

/-- Calls begin with a resolution. -/
def mayHappen (config : ConnID → Int) : PoolEvent Call Action → Bool
  | .join c => isResolved config c
  | .act _ _ => true

def siteStep (s : Site) : SiteEvent → Option Site
  | .update id => some { s with config := Function.update s.config id (s.config id + 1) }
  | .call e =>
      if mayHappen s.config e then (step s.server e).map fun p => { s with server := p } else none

def newSite : Site := { config := fun _ => 1, server := initial }

/-! ## The property -/

/-- The entry of every id stays or makes way for one that is not older, and the pool that an
installing call is going to close is not newer than the one it installs. -/
structure Advances (p : Server) (e : PoolEvent Call Action) (p' : Server) : Prop where
  entry : ∀ id x, p.shared.entries id = some x →
    ∃ x', p'.shared.entries id = some x' ∧ x.version ≤ x'.version
  closes : ∀ i c id version x conn, e = .act i .install → p.threads[i]? = some c →
    c.job = .acquire id version → c.phase = .installing (some x) conn →
    p.shared.live id version = none → x.version ≤ version

/-- The connection and the version of a call that has got a connector. -/
def Call.acquired (c : Call) : Option (ConnID × Int) :=
  match c.job, c.phase with
  | .acquire id version, .closing _ (some _) => some (id, version)
  | .acquire id version, .done (some _) => some (id, version)
  | _, _ => none

def Acquired (p : Server) (id : ConnID) (version : Int) : Prop :=
  ∃ (j : Nat) (c : Call), p.threads[j]? = some c ∧ c.acquired = some (id, version)

/-- A call installs its connector after a call with a newer version has got one. -/
def Overtaken (p : Server) (e : PoolEvent Call Action) : Prop :=
  ∃ i c id version stale conn, e = .act i .install ∧ p.threads[i]? = some c ∧
    c.job = .acquire id version ∧ c.phase = .installing stale conn ∧
    p.shared.live id version = none ∧ ∃ newer, version < newer ∧ Acquired p id newer

/-! ## What an `Acquire` does -/

/-- The actions of an `Acquire`, with the registry and the phase they lead to. -/
inductive Acquires (r : Registry) (id : ConnID) (version : Int) : Phase → Action → Registry → Phase → Prop
  | hit {x : Entry} (hlive : r.live id version = some x) :
      Acquires r id version .start .look r (.done (some x.conn))
  | look (hlive : r.live id version = none) :
      Acquires r id version .start .look r (.building (r.entries id))
  | fail {stale : Option Entry} : Acquires r id version (.building stale) .buildFails r (.done none)
  | build {stale : Option Entry} :
      Acquires r id version (.building stale) .build { r with built := r.built ++ [id] }
        (.installing stale r.built.length)
  | yield {stale : Option Entry} {conn : Nat} {x : Entry} (hlive : r.live id version = some x) :
      Acquires r id version (.installing stale conn) .install r (.closing (some conn) (some x.conn))
  | install {stale : Option Entry} {conn : Nat} (hlive : r.live id version = none) :
      Acquires r id version (.installing stale conn) .install (r.put id (some ⟨conn, version⟩))
        (.closing (stale.map Entry.conn) (some conn))
  | close {conn result : Option Nat} :
      Acquires r id version (.closing conn result) .close { r with closed := r.closed ++ conn.toList }
        (.done result)

theorem act_acquires {r r' : Registry} {c c' : Call} {a : Action} {id : ConnID} {version : Int}
    (hjob : c.job = .acquire id version) (h : act r c a = some (r', c')) :
    ∃ phase, c' = { c with phase := phase } ∧ Acquires r id version c.phase a r' phase := by
  obtain ⟨job, phase⟩ := c
  cases hjob
  unfold act at h
  split at h
  next id' version' hj hphase =>
    cases hj
    cases hphase
    split at h
    next x hlive =>
      cases h
      exact ⟨_, rfl, .hit hlive⟩
    next hlive =>
      cases h
      exact ⟨_, rfl, .look hlive⟩
  next stale hphase =>
    cases hphase
    cases h
    exact ⟨_, rfl, .fail⟩
  next id' version' stale hj hphase =>
    cases hj
    cases hphase
    cases h
    exact ⟨_, rfl, .build⟩
  next id' version' stale conn hj hphase =>
    cases hj
    cases hphase
    split at h
    next x hlive =>
      cases h
      exact ⟨_, rfl, .yield hlive⟩
    next hlive =>
      cases h
      exact ⟨_, rfl, .install hlive⟩
  next id' hj _ => cases hj
  next conn result hphase =>
    cases hphase
    cases h
    exact ⟨_, rfl, .close⟩
  next _ => cases h

theorem Registry.live_eq_some {r : Registry} {id : ConnID} {version : Int} {x : Entry}
    (h : r.live id version = some x) : r.entries id = some x ∧ x.version = version := by
  obtain ⟨hentry, hversion⟩ := Option.filter_eq_some_iff.mp h
  exact ⟨hentry, of_decide_eq_true hversion⟩

section Acquires

variable {r r' : Registry} {id : ConnID} {version : Int} {phase phase' : Phase} {a : Action}

theorem Acquires.keeps (h : Acquires r id version phase a r' phase') {y : ConnID × Int}
    (hy : Call.acquired ⟨.acquire id version, phase⟩ = some y) :
    Call.acquired ⟨.acquire id version, phase'⟩ = some y := by
  cases h with
  | hit _ => cases hy
  | look _ => cases hy
  | fail => cases hy
  | build => cases hy
  | yield _ => cases hy
  | install _ => cases hy
  | @close conn result =>
      cases result with
      | none => cases hy
      | some k => exact hy

theorem Acquires.others (h : Acquires r id version phase a r' phase') {id' : ConnID} (hne : id' ≠ id) :
    r'.entries id' = r.entries id' := by
  cases h with
  | install _ => exact r.put_of_ne hne _
  | _ => rfl

/-- An entry that is new is the one of the call, which has got its connector. -/
theorem Acquires.entry (h : Acquires r id version phase a r' phase') {x : Entry}
    (hx : r'.entries id = some x) :
    r.entries id = some x ∨
      (x.version = version ∧ Call.acquired ⟨.acquire id version, phase'⟩ = some (id, version)) := by
  cases h with
  | install _ =>
      rw [Registry.put_self] at hx
      cases hx
      exact .inr ⟨rfl, rfl⟩
  | _ => exact .inl hx

/-- A call that gets a connector leaves an entry of its version. -/
theorem Acquires.gets (h : Acquires r id version phase a r' phase') {y : ConnID × Int}
    (hy : Call.acquired ⟨.acquire id version, phase'⟩ = some y) :
    Call.acquired ⟨.acquire id version, phase⟩ = some y ∨
      (y = (id, version) ∧ ∃ x, r'.entries id = some x ∧ x.version = version) := by
  cases h with
  | hit hlive =>
      cases hy
      exact .inr ⟨rfl, _, Registry.live_eq_some hlive⟩
  | look _ => cases hy
  | fail => cases hy
  | build => cases hy
  | yield hlive =>
      cases hy
      exact .inr ⟨rfl, _, Registry.live_eq_some hlive⟩
  | @install stale conn _ =>
      cases hy
      exact .inr ⟨rfl, ⟨conn, version⟩, r.put_self id _, rfl⟩
  | @close conn result =>
      cases result with
      | none => cases hy
      | some k => exact .inl hy

end Acquires

/-! ## Steps -/

/-- Every call is an `Acquire` with a version its connection has had. -/
def AllResolved (s : Site) : Prop :=
  ∀ c ∈ s.server.threads, ∃ id version, c.job = .acquire id version ∧ version ≤ s.config id

theorem siteStep_cases {s s' : Site} {e : SiteEvent} (hall : AllResolved s) (hs : siteStep s e = some s') :
    (∃ id, e = .update id ∧
      s' = { s with config := Function.update s.config id (s.config id + 1) }) ∨
    (∃ id version, version ≤ s.config id ∧ e = .call (.join ⟨.acquire id version, .start⟩) ∧
      s' = { s with server := { s.server with
        threads := s.server.threads ++ [⟨.acquire id version, .start⟩] } }) ∨
    ∃ i a id version phase r phase', e = .call (.act i a) ∧
      s.server.threads[i]? = some ⟨.acquire id version, phase⟩ ∧
      Acquires s.server.shared id version phase a r phase' ∧
      s' = { s with server :=
        { shared := r, threads := s.server.threads.set i ⟨.acquire id version, phase'⟩ } } := by
  cases e with
  | update id =>
      cases hs
      exact .inl ⟨id, rfl, rfl⟩
  | call e =>
      simp only [siteStep] at hs
      split at hs
      next hmay =>
        obtain ⟨p, hp, rfl⟩ := Option.map_eq_some_iff.mp hs
        rcases poolStep_cases hp with ⟨c, rfl, hnew, rfl⟩ | ⟨i, a, c, r', c', rfl, hc, hact, rfl⟩
        · obtain ⟨job, phase⟩ := c
          obtain rfl : phase = .start := of_decide_eq_true hnew
          cases job with
          | acquire id version =>
              have hle : version ≤ s.config id := by
                simp only [mayHappen, isResolved, Bool.and_eq_true, decide_eq_true_eq] at hmay
                exact hmay.2
              exact .inr (.inl ⟨id, version, hle, rfl, rfl⟩)
          | invalidate id => cases hmay
        · obtain ⟨id, version, hjob, -⟩ := hall c (List.mem_of_getElem? hc)
          obtain ⟨phase', rfl, hacq⟩ := act_acquires hjob hact
          obtain ⟨job, phase⟩ := c
          cases hjob
          exact .inr (.inr ⟨i, a, id, version, phase, r', phase', rfl, hc, hacq, rfl⟩)
      next _ => cases hs

theorem allResolved_step {s s' : Site} {e : SiteEvent} (hall : AllResolved s)
    (hs : siteStep s e = some s') : AllResolved s' := by
  rcases siteStep_cases hall hs with ⟨id, rfl, rfl⟩ | ⟨id, version, hle, rfl, rfl⟩ |
    ⟨i, a, id, version, phase, r, phase', rfl, hc, -, rfl⟩
  · intro c hc
    obtain ⟨id', version, hjob, hle⟩ := hall c hc
    refine ⟨id', version, hjob, ?_⟩
    show version ≤ Function.update s.config id (s.config id + 1) id'
    by_cases hid : id' = id
    · subst hid
      rw [Function.update_self]
      omega
    · rwa [Function.update_of_ne hid]
  · exact forall_mem_join hall ⟨id, version, rfl, hle⟩
  · obtain ⟨id', version', hjob, hle⟩ := hall _ (List.mem_of_getElem? hc)
    exact forall_mem_set hall ⟨id', version', hjob, hle⟩

theorem acquired_step {s s' : Site} {e : SiteEvent} (hall : AllResolved s)
    (hs : siteStep s e = some s') {id : ConnID} {version : Int} (h : Acquired s.server id version) :
    Acquired s'.server id version := by
  obtain ⟨j, hj⟩ := h
  rcases siteStep_cases hall hs with ⟨_, rfl, rfl⟩ | ⟨_, _, _, rfl, rfl⟩ |
    ⟨i, a, id', version', phase, r, phase', rfl, hc, hacq, rfl⟩
  · exact ⟨j, hj⟩
  · exact ⟨j, exists_getElem?_append hj⟩
  · exact ⟨j, exists_getElem?_set hc hacq.keeps hj⟩

/-! ## Where versions come from -/

/-- The entry that a call saw when it began. -/
def Call.saw (c : Call) : Option Entry :=
  match c.phase with
  | .building stale => stale
  | .installing stale _ => stale
  | _ => none

/-- The version of every entry, installed or seen by a call, is that of a call that has got
a connector. -/
structure Known (p : Server) : Prop where
  entry : ∀ id x, p.shared.entries id = some x → Acquired p id x.version
  saw : ∀ c ∈ p.threads, ∀ id version x, c.job = .acquire id version → c.saw = some x →
    Acquired p id x.version

theorem known_new : Known newSite.server where
  entry := by simp [newSite, initial, Registry.new]
  saw := by simp [newSite, initial]

theorem known_step {s s' : Site} {e : SiteEvent} (hall : AllResolved s) (hk : Known s.server)
    (hs : siteStep s e = some s') : Known s'.server := by
  have hkeep : ∀ id version, Acquired s.server id version → Acquired s'.server id version :=
    fun _ _ => acquired_step hall hs
  rcases siteStep_cases hall hs with ⟨_, rfl, rfl⟩ | ⟨id, version, _, rfl, rfl⟩ |
    ⟨i, a, id, version, phase, r, phase', rfl, hc, hacq, rfl⟩
  · exact hk
  · refine ⟨fun id' x hx => hkeep _ _ (hk.entry id' x hx), ?_⟩
    refine forall_mem_join (fun c hc id' v x hjob hx => hkeep _ _ (hk.saw c hc id' v x hjob hx)) ?_
    intro id' v x _ hx
    cases hx
  · constructor
    · intro id' x hx
      by_cases hid : id' = id
      · subst hid
        rcases hacq.entry hx with hold | ⟨rfl, hgot⟩
        · exact hkeep _ _ (hk.entry id' x hold)
        · obtain ⟨hlt, -⟩ := List.getElem?_eq_some_iff.mp hc
          exact ⟨i, _, List.getElem?_set_self hlt, hgot⟩
      · exact hkeep _ _ (hk.entry id' x ((hacq.others hid).symm.trans hx))
    · refine forall_mem_set (fun c hc id' v x hjob hx => hkeep _ _ (hk.saw c hc id' v x hjob hx)) ?_
      intro id' v x hjob hx
      cases hjob
      have hsaw := hk.saw _ (List.mem_of_getElem? hc) id version x rfl
      cases hacq with
      | look _ => exact hkeep _ _ (hk.entry id x hx)
      | build => exact hkeep _ _ (hsaw hx)
      | _ => cases hx

/-- An install that is not overtaken is not older than what it replaces and closes. -/
theorem Known.advances {s s' : Site} {e : PoolEvent Call Action} (hall : AllResolved s)
    (hk : Known s.server) (hnot : ¬ Overtaken s.server e) (hs : siteStep s (.call e) = some s') :
    Advances s.server e s'.server := by
  constructor
  · intro id' x hx
    rcases siteStep_cases hall hs with ⟨_, he, -⟩ | ⟨_, _, _, _, rfl⟩ |
      ⟨i, a, id, version, phase, r, phase', he, hc, hacq, rfl⟩
    · cases he
    · exact ⟨x, hx, Int.le_refl _⟩
    · cases he
      by_cases hid : id' = id
      · subst hid
        cases hacq with
        | @install stale conn hlive =>
            refine ⟨⟨conn, version⟩, Registry.put_self _ _ _, ?_⟩
            by_contra hlt
            exact hnot ⟨i, _, id', version, stale, conn, rfl, hc, rfl, rfl, hlive, x.version,
              Int.not_le.mp hlt, hk.entry id' x hx⟩
        | _ => exact ⟨x, hx, Int.le_refl _⟩
      · exact ⟨x, (hacq.others hid).trans hx, Int.le_refl _⟩
  · intro i c id version x conn he hc hjob hphase hlive
    by_contra hlt
    have hsaw : c.saw = some x := by rw [Call.saw, hphase]
    exact hnot ⟨i, c, id, version, some x, conn, he, hc, hjob, hphase, hlive, x.version,
      Int.not_le.mp hlt, hk.saw c (List.mem_of_getElem? hc) id version x hjob hsaw⟩

/-! ## Where versions go -/

/-- The entry of an id is as new as every call for it that has got a connector. -/
def Covered (p : Server) : Prop :=
  ∀ id version, Acquired p id version → ∃ x, p.shared.entries id = some x ∧ version ≤ x.version

theorem covered_new : Covered newSite.server := by
  rintro id version ⟨j, c, hc, -⟩
  cases hc

theorem covered_step {s s' : Site} {e : SiteEvent} (hall : AllResolved s) (hcov : Covered s.server)
    (hadv : ∀ ev, e = .call ev → Advances s.server ev s'.server) (hs : siteStep s e = some s') :
    Covered s'.server := by
  -- what was covered stays covered by an entry that advanced
  have hold : ∀ ev, e = .call ev → ∀ id version, Acquired s.server id version →
      ∃ x, s'.server.shared.entries id = some x ∧ version ≤ x.version := by
    intro ev hev id version hacq
    obtain ⟨x, hx, hle⟩ := hcov id version hacq
    obtain ⟨x', hx', hle'⟩ := (hadv ev hev).entry id x hx
    exact ⟨x', hx', hle.trans hle'⟩
  rcases siteStep_cases hall hs with ⟨_, rfl, rfl⟩ | ⟨id, version, _, rfl, rfl⟩ |
    ⟨i, a, id, version, phase, r, phase', rfl, hc, hacq, rfl⟩
  · exact hcov
  · rintro id' version' ⟨j, c, hj, hgot⟩
    rcases getElem?_append_cases hj with ⟨-, rfl⟩ | hj'
    · cases hgot
    · exact hold _ rfl id' version' ⟨j, c, hj', hgot⟩
  · rintro id' version' ⟨j, c, hj, hgot⟩
    rcases getElem?_set_cases hj with ⟨rfl, rfl⟩ | ⟨-, hj'⟩
    · rcases hacq.gets hgot with hbefore | ⟨heq, x, hx, hversion⟩
      · exact hold _ rfl id' version' ⟨j, _, hc, hbefore⟩
      · cases heq
        exact ⟨x, hx, hversion.ge⟩
    · exact hold _ rfl id' version' ⟨j, c, hj', hgot⟩

/-- An install that is overtaken decreases the version of the entry. -/
theorem Covered.not_overtaken {s s' : Site} {e : PoolEvent Call Action} (hcov : Covered s.server)
    (hadv : Advances s.server e s'.server) (hs : siteStep s (.call e) = some s') :
    ¬ Overtaken s.server e := by
  rintro ⟨i, c, id, version, stale, conn, rfl, hc, hjob, hphase, hlive, newer, hlt, hacq⟩
  obtain ⟨x, hx, hle⟩ := hcov id newer hacq
  obtain ⟨x', hx', hle'⟩ := hadv.entry id x hx
  have hs' : s'.server.shared.entries id = some ⟨conn, version⟩ := by
    simp only [siteStep, mayHappen, ↓reduceIte, step, poolStep, hc, Option.bind_some, act, hjob, hphase,
      hlive, Option.map_some, Option.some.injEq] at hs
    rw [← hs]
    exact Registry.put_self _ _ _
  rw [hs'] at hx'
  cases hx'
  exact absurd (hlt.trans_le (hle.trans hle')) (Int.lt_irrefl _)

/-! ## Runs -/

def KeepsVersions (s : Site) (e : SiteEvent) : Prop :=
  ∀ s' ev, e = .call ev → siteStep s e = some s' → Advances s.server ev s'.server

def InstallsLate (s : Site) (e : SiteEvent) : Prop := ∃ ev, e = .call ev ∧ Overtaken s.server ev

theorem allResolved_new : AllResolved newSite := List.forall_mem_nil _

/-- Versions never decrease in a run without late installs. -/
theorem keepsVersions_of_not_late {es : List SiteEvent}
    (h : Each siteStep (fun s e => ¬ InstallsLate s e) newSite es) :
    Each siteStep KeepsVersions newSite es := by
  refine Each.of_invariant (I := fun s => AllResolved s ∧ Known s.server) ?_
    ⟨allResolved_new, known_new⟩ h
  rintro s e s' ⟨hall, hk⟩ hnot hs
  refine ⟨⟨allResolved_step hall hs, known_step hall hk hs⟩, ?_⟩
  rintro s'' ev rfl hs'
  exact hk.advances hall (fun hlate => hnot ⟨ev, rfl, hlate⟩) hs'

/-- A late install decreases a version. -/
theorem not_late_of_keepsVersions {es : List SiteEvent} (h : Each siteStep KeepsVersions newSite es) :
    Each siteStep (fun s e => ¬ InstallsLate s e) newSite es := by
  refine Each.of_invariant (I := fun s => AllResolved s ∧ Covered s.server) ?_
    ⟨allResolved_new, covered_new⟩ h
  rintro s e s' ⟨hall, hcov⟩ hkeeps hs
  have hadv : ∀ ev, e = .call ev → Advances s.server ev s'.server := fun ev hev => hkeeps s' ev hev hs
  refine ⟨⟨allResolved_step hall hs, covered_step hall hcov hadv hs⟩, ?_⟩
  rintro ⟨ev, rfl, hlate⟩
  exact hcov.not_overtaken (hadv ev rfl) hs hlate

/-- In a run of `Acquire` calls with versions of resolutions, in any interleaving with each
other and with configuration changes, the version of the entry of an id never decreases and
no call closes a newer pool than it installs, exactly if no call installs its connector after
a call with a newer version of the same id has got one. -/
theorem versions_advance_iff (es : List SiteEvent) :
    Each siteStep KeepsVersions newSite es ↔ Each siteStep (fun s e => ¬ InstallsLate s e) newSite es :=
  ⟨not_late_of_keepsVersions, keepsVersions_of_not_late⟩

/-- A call that installs has the version its connection has at that moment. -/
def InstallsCurrent (s : Site) (e : SiteEvent) : Prop :=
  ∀ i c id version, e = .call (.act i .install) → s.server.threads[i]? = some c →
    c.job = .acquire id version → version = s.config id

theorem Call.acquired_eq_some {c : Call} {id : ConnID} {version : Int}
    (h : c.acquired = some (id, version)) : c.job = .acquire id version := by
  unfold Call.acquired at h
  split at h
  next hjob _ =>
    cases h
    exact hjob
  next hjob _ =>
    cases h
    exact hjob
  next => cases h

/-- No call has a newer version than the current one. -/
theorem AllResolved.not_late {s : Site} {e : SiteEvent} (hall : AllResolved s) (hcur : InstallsCurrent s e) :
    ¬ InstallsLate s e := by
  rintro ⟨_, rfl, i, c, id, version, stale, conn, rfl, hc, hjob, -, -, newer, hlt, j, d, hd, hgot⟩
  obtain ⟨id', version', hjob', hle⟩ := hall d (List.mem_of_getElem? hd)
  rw [Call.acquired_eq_some hgot] at hjob'
  cases hjob'
  rw [hcur i c id version rfl hc hjob] at hlt
  exact absurd hle (Int.not_le.mpr hlt)

/-- Versions never decrease in a run in which no configuration changes between the resolution
of a call and its install. -/
theorem current_installs_advance {es : List SiteEvent} (h : Each siteStep InstallsCurrent newSite es) :
    Each siteStep KeepsVersions newSite es := by
  refine keepsVersions_of_not_late (Each.of_invariant ?_ allResolved_new h)
  intro s e s' hall hcur hs
  exact ⟨allResolved_step hall hs, hall.not_late hcur⟩

/-- A configuration change between a resolution and its `Acquire`, which a request with the
new version overtakes. -/
def overtaking : List SiteEvent :=
  let id := "db".toList
  [.call (.join { job := .acquire id 1 }), .update id, .call (.join { job := .acquire id 2 }),
    .call (.act 1 .look), .call (.act 1 .build), .call (.act 1 .install), .call (.act 1 .close),
    .call (.act 0 .look), .call (.act 0 .build)]

/-- The request with the old version replaces the pool of version 2 by one of version 1, and
closes it. -/
theorem older_version_installed :
    ((runs siteStep newSite overtaking).map fun s => s.server.shared.entries "db".toList) =
        some (some ⟨0, 2⟩) ∧
      ((runs siteStep newSite (overtaking ++ [.call (.act 0 .install), .call (.act 0 .close)])).map
        fun s => (s.server.shared.entries "db".toList, s.server.shared.closed, s.config "db".toList)) =
        some (some ⟨1, 1⟩, [0], 2) ∧
      ¬ Each siteStep KeepsVersions newSite (overtaking ++ [.call (.act 0 .install)]) := by
  refine ⟨by decide +kernel, by decide +kernel, fun h => ?_⟩
  have hlast := h.last rfl rfl _ _ rfl rfl
  obtain ⟨x', hx', hle⟩ := hlast.entry "db".toList ⟨0, 2⟩ rfl
  cases hx'
  exact absurd hle (by decide)

end DDAG.ConnectorPool
