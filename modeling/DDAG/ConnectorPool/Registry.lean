import DDAG.Connectors.Bind
import DDAG.Lib.Pool
import DDAG.Lib.Trace

/-!
# The registry of connection pools

`Registry` of `internal/connectorpool`: one connector per connection id, rebuilt
when the version of the connection's configuration changes.  `Acquire` and
`Invalidate` are calls that take one step for each section under the mutex and one
for each `BuildFor` and `Close` outside it.  Any number of calls run in any
interleaving.

A connector is the number of the `BuildFor` that built it.  Each one is to be in
one place: installed for its id, held by a call that will install or close it, or
closed.  An `Acquire` that installs its connector closes the entry it saw when it
began.  `closed_once` says that this is right as long as that is the entry it
replaces, and `concurrent_versions_leak` is a run in which it is not.
-/

namespace DDAG.ConnectorPool

open Machine

abbrev ConnID := Text

structure Entry where
  conn : Nat
  version : Int
deriving DecidableEq

/-- The entries, the ids the connectors were built for, and the `Close` calls. -/
structure Registry where
  entries : ConnID → Option Entry
  built : List ConnID
  closed : List Nat

def Registry.new : Registry := { entries := fun _ => none, built := [], closed := [] }

/-! ## Calls -/

inductive Job where
  | acquire (id : ConnID) (version : Int)
  | invalidate (id : ConnID)
deriving DecidableEq

/-- How far a call has got.  An `Acquire` keeps the entry it saw when it began. -/
inductive Phase where
  | start
  | building (stale : Option Entry)
  | installing (stale : Option Entry) (conn : Nat)
  /-- About to close a connector, if there is one, and to return another. -/
  | closing (conn : Option Nat) (result : Option Nat)
  | done (result : Option Nat)
deriving DecidableEq

structure Call where
  job : Job
  phase : Phase := .start
deriving DecidableEq

inductive Action where
  /-- The first section of `Acquire`. -/
  | look
  | buildFails
  | build
  /-- The second section of `Acquire`. -/
  | install
  /-- The section of `Invalidate`. -/
  | drop
  | close
deriving DecidableEq

/-- The installed entry of an id, if it has this version. -/
def Registry.live (r : Registry) (id : ConnID) (version : Int) : Option Entry :=
  (r.entries id).filter (·.version = version)

def Registry.put (r : Registry) (id : ConnID) (e : Option Entry) : Registry :=
  { r with entries := Function.update r.entries id e }

@[simp] theorem Registry.put_built (r : Registry) (id : ConnID) (e : Option Entry) :
    (r.put id e).built = r.built := rfl

@[simp] theorem Registry.put_closed (r : Registry) (id : ConnID) (e : Option Entry) :
    (r.put id e).closed = r.closed := rfl

@[simp] theorem Registry.put_self (r : Registry) (id : ConnID) (e : Option Entry) :
    (r.put id e).entries id = e := Function.update_self _ _ _

theorem Registry.put_of_ne (r : Registry) {id id' : ConnID} (h : id' ≠ id) (e : Option Entry) :
    (r.put id e).entries id' = r.entries id' := Function.update_of_ne h _ _

def act (r : Registry) (c : Call) (a : Action) : Option (Registry × Call) :=
  match a, c.job, c.phase with
  | .look, .acquire id version, .start =>
      match r.live id version with
      | some e => some (r, { c with phase := .done (some e.conn) })
      | none => some (r, { c with phase := .building (r.entries id) })
  | .buildFails, _, .building _ => some (r, { c with phase := .done none })
  | .build, .acquire id _, .building stale =>
      some ({ r with built := r.built ++ [id] },
        { c with phase := .installing stale r.built.length })
  | .install, .acquire id version, .installing stale conn =>
      match r.live id version with
      | some e => some (r, { c with phase := .closing (some conn) (some e.conn) })
      | none =>
          some (r.put id (some ⟨conn, version⟩),
            { c with phase := .closing (stale.map Entry.conn) (some conn) })
  | .drop, .invalidate id, .start =>
      some (r.put id none, { c with phase := .closing ((r.entries id).map Entry.conn) none })
  | .close, _, .closing conn result =>
      some ({ r with closed := r.closed ++ conn.toList }, { c with phase := .done result })
  | _, _, _ => none

abbrev Server := Pool Registry Call

def isNew (c : Call) : Bool := c.phase = .start

def step (p : Server) (e : PoolEvent Call Action) : Option Server := poolStep isNew act p e

def initial : Server := { shared := Registry.new, threads := [] }

/-! ## Where a connector is -/

def Idle (p : Server) : Prop := ∀ c ∈ p.threads, ∃ result, c.phase = .done result

/-- No connector is closed twice, and when no call is in progress a connector is
installed for its id exactly if it has not been closed. -/
structure Sound (p : Server) : Prop where
  once : ∀ conn, p.shared.closed.count conn ≤ 1
  accounted : Idle p → ∀ conn id, p.shared.built[conn]? = some id →
    ((p.shared.entries id).map Entry.conn = some conn ↔ conn ∉ p.shared.closed)

/-- An `Acquire` installs its connector over an entry that is not the one it saw
when it began. -/
def Overwrites (p : Server) (e : PoolEvent Call Action) : Prop :=
  ∃ i c id version stale conn, e = .act i .install ∧ p.threads[i]? = some c ∧
    c.job = .acquire id version ∧ c.phase = .installing stale conn ∧
    p.shared.live id version = none ∧ p.shared.entries id ≠ stale

/-- One for the connector in question. -/
def weight (o : Option Nat) (conn : Nat) : Nat := if o = some conn then 1 else 0

/-- The connector a call will install or close. -/
def Call.holding (c : Call) : Option Nat :=
  match c.phase with
  | .installing _ conn => some conn
  | .closing conn _ => conn
  | _ => none

def held (conn : Nat) (c : Call) : Nat := weight c.holding conn

/-- One if the connector is installed for the id it was built for. -/
def installed (r : Registry) (conn : Nat) : Nat :=
  weight ((r.built[conn]?.bind r.entries).map Entry.conn) conn

/-- One if the connector has been built. -/
def isBuilt (r : Registry) (conn : Nat) : Nat := if conn < r.built.length then 1 else 0

structure Inv (p : Server) : Prop where
  /-- An entry is a connector built for its id. -/
  own : ∀ id e, p.shared.entries id = some e → p.shared.built[e.conn]? = some id
  /-- A call installs a connector it built for its id. -/
  installs : ∀ c ∈ p.threads, ∀ stale conn, c.phase = .installing stale conn →
    ∃ id version, c.job = .acquire id version ∧ p.shared.built[conn]? = some id
  /-- Every connector that was built is in one place. -/
  counted : ∀ conn, installed p.shared conn + total (held conn) p.threads +
    p.shared.closed.count conn = isBuilt p.shared conn

/-! ## What an action does -/

/-- A call goes on with what it holds, builds, installs, drops or closes. -/
theorem act_cases {r r' : Registry} {c c' : Call} {a : Action} (h : act r c a = some (r', c')) :
    (r' = r ∧ c'.holding = c.holding ∧ ∀ stale conn, c'.phase ≠ .installing stale conn) ∨
      (∃ id version stale, c.job = .acquire id version ∧ c.phase = .building stale ∧
        r' = { r with built := r.built ++ [id] } ∧
        c' = { c with phase := .installing stale r.built.length }) ∨
      (∃ id version stale conn, a = .install ∧ c.job = .acquire id version ∧
        c.phase = .installing stale conn ∧ r.live id version = none ∧
        r' = r.put id (some ⟨conn, version⟩) ∧
        c' = { c with phase := .closing (stale.map Entry.conn) (some conn) }) ∨
      (∃ id, c.phase = .start ∧ r' = r.put id none ∧
        c' = { c with phase := .closing ((r.entries id).map Entry.conn) none }) ∨
      (∃ conn result, c.phase = .closing conn result ∧
        r' = { r with closed := r.closed ++ conn.toList } ∧
        c' = { c with phase := .done result }) := by
  unfold act at h
  split at h
  next id version hjob hphase =>
    split at h
    next e _ =>
      cases h
      exact .inl ⟨rfl, by simp [Call.holding, hphase], nofun⟩
    next _ =>
      cases h
      exact .inl ⟨rfl, by simp [Call.holding, hphase], nofun⟩
  next stale hphase =>
    cases h
    exact .inl ⟨rfl, by simp [Call.holding, hphase], nofun⟩
  next id version stale hjob hphase =>
    cases h
    exact .inr (.inl ⟨id, version, stale, hjob, hphase, rfl, rfl⟩)
  next id version stale conn hjob hphase =>
    split at h
    next e _ =>
      cases h
      exact .inl ⟨rfl, by simp [Call.holding, hphase], nofun⟩
    next hlive =>
      cases h
      exact .inr (.inr (.inl ⟨id, version, stale, conn, rfl, hjob, hphase, hlive, rfl, rfl⟩))
  next id hjob hphase =>
    cases h
    exact .inr (.inr (.inr (.inl ⟨id, hphase, rfl, rfl⟩)))
  next conn result hphase =>
    cases h
    exact .inr (.inr (.inr (.inr ⟨conn, result, hphase, rfl, rfl⟩)))
  next _ => cases h

/-! ## Every connector is in one place -/

theorem inv_initial : Inv initial where
  own := by simp [initial, Registry.new]
  installs := by simp [initial]
  counted := by simp [initial, Registry.new, installed, isBuilt, weight, total]

/-- Replacing the entry of an id moves the installed connectors of that id. -/
theorem installed_put {r : Registry} {id : ConnID} {x : Option Entry}
    (hown : ∀ e, r.entries id = some e → r.built[e.conn]? = some id)
    (hx : ∀ e, x = some e → r.built[e.conn]? = some id) (conn : Nat) :
    installed (r.put id x) conn + weight ((r.entries id).map Entry.conn) conn =
      installed r conn + weight (x.map Entry.conn) conn := by
  -- an entry of the id that is this connector was built for the id
  have hbuilt : ∀ o : Option Entry, (∀ e, o = some e → r.built[e.conn]? = some id) →
      r.built[conn]? ≠ some id → weight (o.map Entry.conn) conn = 0 := by
    intro o ho hne
    refine if_neg fun heq => ?_
    obtain ⟨e, he, rfl⟩ := Option.map_eq_some_iff.mp heq
    exact hne (ho e he)
  unfold installed
  rw [Registry.put_built]
  cases hb : r.built[conn]? with
  | none =>
      rw [hbuilt _ hown (by simp [hb]), hbuilt _ hx (by simp [hb])]
      rfl
  | some id' =>
      rw [Option.bind_some, Option.bind_some]
      by_cases hid : id' = id
      · rw [hid, Registry.put_self]
        omega
      · have hne : r.built[conn]? ≠ some id := by simpa [hb] using hid
        rw [hbuilt _ hown hne, hbuilt _ hx hne, Registry.put_of_ne r hid]

theorem installed_build {r : Registry}
    (hown : ∀ id e, r.entries id = some e → r.built[e.conn]? = some id) (id : ConnID) (conn : Nat) :
    installed { r with built := r.built ++ [id] } conn = installed r conn := by
  unfold installed
  dsimp only
  rcases Nat.lt_trichotomy conn r.built.length with hlt | heq | hgt
  · rw [List.getElem?_append_left hlt]
  · have hnone : r.built[conn]? = none := List.getElem?_eq_none heq.ge
    rw [hnone, heq, List.getElem?_concat_length]
    refine if_neg fun hentry => ?_
    obtain ⟨e, he, hconn⟩ := Option.map_eq_some_iff.mp hentry
    have hbuilt := hown id e he
    rw [hconn, ← heq, hnone] at hbuilt
    cases hbuilt
  · have hlen : (r.built ++ [id]).length ≤ conn := by
      rw [List.length_append, List.length_singleton]
      omega
    rw [List.getElem?_eq_none hgt.le, List.getElem?_eq_none hlen]

section Steps

variable {p p' : Server} {i : Nat} {c : Call}

/-- The count is kept by an action that moves connectors between the entries, its
call and the closed ones, and counts the ones it builds. -/
theorem counted_of_balance (h : Inv p) (hc : p.threads[i]? = some c) {r : Registry} {c' : Call}
    {conn : Nat}
    (hbal : installed r conn + held conn c' + r.closed.count conn + isBuilt p.shared conn =
      installed p.shared conn + held conn c + p.shared.closed.count conn + isBuilt r conn) :
    installed r conn + total (held conn) (p.threads.set i c') + r.closed.count conn =
      isBuilt r conn := by
  have htotal := total_set (held conn) c' hc
  have hcount := h.counted conn
  omega

theorem inv_join (h : Inv p) (hnew : isNew c = true) :
    Inv { p with threads := p.threads ++ [c] } := by
  have hphase : c.phase = .start := of_decide_eq_true hnew
  have hheld : ∀ conn, held conn c = 0 := fun conn => by
    simp [held, weight, Call.holding, hphase]
  refine ⟨h.own, forall_mem_join h.installs ?_, fun conn => ?_⟩
  · intro stale conn hinst
    rw [hphase] at hinst
    cases hinst
  · rw [total_append_singleton, hheld]
    exact h.counted conn

theorem inv_move (h : Inv p) (hc : p.threads[i]? = some c) {c' : Call}
    (hhold : c'.holding = c.holding) (hphase : ∀ stale conn, c'.phase ≠ .installing stale conn) :
    Inv { p with threads := p.threads.set i c' } := by
  refine ⟨h.own, ?_, fun conn => ?_⟩
  · exact forall_mem_set h.installs fun stale conn hinst => absurd hinst (hphase stale conn)
  · refine counted_of_balance h hc ?_
    rw [held, held, hhold]

theorem inv_build (h : Inv p) (hc : p.threads[i]? = some c) {id : ConnID} {version : Int}
    {stale : Option Entry} (hjob : c.job = .acquire id version) (hphase : c.phase = .building stale) :
    Inv { shared := { p.shared with built := p.shared.built ++ [id] }
          threads := p.threads.set i { c with phase := .installing stale p.shared.built.length } } := by
  have hgrow : ∀ {conn : Nat} {id' : ConnID}, p.shared.built[conn]? = some id' →
      (p.shared.built ++ [id])[conn]? = some id' := by
    intro conn id' hconn
    exact (List.getElem?_append_left (List.getElem?_eq_some_iff.mp hconn).1).trans hconn
  refine ⟨fun id' e he => hgrow (h.own id' e he), ?_, fun conn => ?_⟩
  · refine forall_mem_set (fun c' hc' stale' conn hinst => ?_) fun stale' conn hinst => ?_
    · obtain ⟨id', version', hjob', hbuilt⟩ := h.installs c' hc' stale' conn hinst
      exact ⟨id', version', hjob', hgrow hbuilt⟩
    · cases hinst
      exact ⟨id, version, hjob, by simp⟩
  · refine counted_of_balance h hc ?_
    have hbefore : held conn c = 0 := by simp [held, weight, Call.holding, hphase]
    have hafter : held conn { c with phase := .installing stale p.shared.built.length } =
        weight (some p.shared.built.length) conn := rfl
    rw [installed_build h.own, hbefore, hafter]
    simp only [weight, isBuilt, Option.some.injEq, List.length_append, List.length_singleton]
    split_ifs <;> omega

/-- A call that replaces an entry takes over the connector that was installed, and
installs the one it held. -/
theorem inv_put (h : Inv p) (hc : p.threads[i]? = some c) {id : ConnID} {x : Option Entry}
    (hx : ∀ e, x = some e → p.shared.built[e.conn]? = some id)
    (hheld : c.holding = x.map Entry.conn) (result : Option Nat) :
    Inv { shared := p.shared.put id x
          threads := p.threads.set i
            { c with phase := .closing ((p.shared.entries id).map Entry.conn) result } } := by
  refine ⟨?_, ?_, fun conn => ?_⟩
  · intro id' e he
    by_cases hid : id' = id
    · subst hid
      exact hx e ((p.shared.put_self id' x).symm.trans he)
    · exact h.own id' e ((p.shared.put_of_ne hid x).symm.trans he)
  · exact forall_mem_set h.installs fun _ _ hinst => nomatch hinst
  · refine counted_of_balance h hc ?_
    dsimp only
    have hput := installed_put (h.own id) hx conn
    have hbefore : held conn c = weight (x.map Entry.conn) conn := by rw [held, hheld]
    have hafter : held conn
        { c with phase := .closing ((p.shared.entries id).map Entry.conn) result } =
          weight ((p.shared.entries id).map Entry.conn) conn := rfl
    have hsame : isBuilt (p.shared.put id x) conn = isBuilt p.shared conn := rfl
    rw [hbefore, hafter, hsame, Registry.put_closed]
    omega

theorem inv_close (h : Inv p) (hc : p.threads[i]? = some c) {conn result : Option Nat}
    (hphase : c.phase = .closing conn result) :
    Inv { shared := { p.shared with closed := p.shared.closed ++ conn.toList }
          threads := p.threads.set i { c with phase := .done result } } := by
  refine ⟨h.own, ?_, fun conn' => ?_⟩
  · exact forall_mem_set h.installs fun _ _ hinst => nomatch hinst
  · refine counted_of_balance h hc ?_
    have hbefore : held conn' c = weight conn conn' := by rw [held, Call.holding, hphase]
    have hafter : held conn' { c with phase := .done result } = 0 := rfl
    have hcount : conn.toList.count conn' = weight conn conn' := by
      cases conn with
      | none => rfl
      | some k => simp [weight, List.count_singleton]
    -- a close changes neither what is installed nor what was built
    have hinstalled : installed { p.shared with closed := p.shared.closed ++ conn.toList } conn' =
        installed p.shared conn' := rfl
    have hsame : isBuilt { p.shared with closed := p.shared.closed ++ conn.toList } conn' =
        isBuilt p.shared conn' := rfl
    rw [hbefore, hafter, hinstalled, hsame, List.count_append, hcount]
    omega

theorem inv_step {e : PoolEvent Call Action} (h : Inv p) (he : ¬ Overwrites p e)
    (hs : step p e = some p') : Inv p' := by
  rcases poolStep_cases hs with ⟨c, rfl, hnew, rfl⟩ | ⟨i, a, c, r', c', rfl, hc, hact, rfl⟩
  · exact inv_join h hnew
  rcases act_cases hact with ⟨rfl, hhold, hphase⟩ | ⟨id, version, stale, hjob, hphase, rfl, rfl⟩ |
    ⟨id, version, stale, conn, rfl, hjob, hphase, hlive, rfl, rfl⟩ | ⟨id, hphase, rfl, rfl⟩ |
    ⟨conn, result, hphase, rfl, rfl⟩
  · exact inv_move h hc hhold hphase
  · exact inv_build h hc hjob hphase
  · -- the entry that is replaced is the one the call closes
    obtain rfl : p.shared.entries id = stale := by
      by_contra hne
      exact he ⟨i, c, id, version, stale, conn, rfl, hc, hjob, hphase, hlive, hne⟩
    refine inv_put h hc ?_ (by simp [Call.holding, hphase]) (some conn)
    intro e he
    cases he
    obtain ⟨id', version', hjob', hbuilt⟩ := h.installs c (List.mem_of_getElem? hc) _ conn hphase
    rw [hjob] at hjob'
    cases hjob'
    exact hbuilt
  · exact inv_put h hc (by simp) (by simp [Call.holding, hphase]) none
  · exact inv_close h hc hphase

theorem Inv.sound (h : Inv p) : Sound p := by
  have hle : ∀ conn, isBuilt p.shared conn ≤ 1 := fun conn => by
    unfold isBuilt
    split <;> omega
  refine ⟨fun conn => ?_, fun hidle conn id hid => ?_⟩
  · have hcount := h.counted conn
    have := hle conn
    omega
  · have hcount := h.counted conn
    -- an idle call holds nothing
    have hheld : total (held conn) p.threads = 0 := by
      refine total_eq_zero fun c hc => ?_
      obtain ⟨result, hphase⟩ := hidle c hc
      simp [held, weight, Call.holding, hphase]
    have hbuilt : isBuilt p.shared conn = 1 :=
      if_pos (List.getElem?_eq_some_iff.mp hid).1
    have hinst : installed p.shared conn =
        weight ((p.shared.entries id).map Entry.conn) conn := by
      rw [installed, hid, Option.bind_some]
    rw [hheld, hbuilt, hinst] at hcount
    rw [← List.count_eq_zero]
    unfold weight at hcount
    split at hcount
    next heq =>
      simp only [heq, true_iff]
      omega
    next hne =>
      simp only [hne, false_iff]
      omega

end Steps

/-- In a run in which every install replaces the entry its call saw when it began,
no connector is closed twice, and when no call is in progress a connector is
installed for its id exactly if it has not been closed. -/
theorem closed_once {es : List (PoolEvent Call Action)}
    (h : Each step (fun p e => ¬ Overwrites p e) initial es) : Along step Sound initial es :=
  (Along.of_each inv_step inv_initial h).mono fun _ => Inv.sound

/-- A connector that is built, installed and dropped is closed once. -/
theorem dropped_connector_closed :
    let id := "db".toList
    let es : List (PoolEvent Call Action) :=
      [.join { job := .acquire id 1 }, .act 0 .look, .act 0 .build, .act 0 .install, .act 0 .close,
        .join { job := .invalidate id }, .act 1 .drop, .act 1 .close]
    (runs step initial es).map (fun p => (p.shared.built, p.shared.closed)) = some ([id], [0]) ∧
      Along step Sound initial es := by
  refine ⟨by decide +kernel, closed_once ?_⟩
  have hother : ∀ {p : Server} {e}, (∀ i, e ≠ .act i .install) → ¬ Overwrites p e :=
    fun he ⟨i, _, _, _, _, _, h, _⟩ => he i h
  refine .cons (hother nofun) rfl (.cons (hother nofun) rfl (.cons (hother nofun) rfl
    (.cons ?_ rfl (.cons (hother nofun) rfl (.cons (hother nofun) rfl (.cons (hother nofun) rfl
      (.cons (hother nofun) rfl trivial)))))))
  -- the call saw no entry, and there is none
  rintro ⟨i, c, id, version, stale, conn, he, hget, hjob, hphase, -, hne⟩
  cases he
  cases hget
  cases hphase
  exact hne rfl

/-- Two calls with new versions see the first connector.  The second one to install
replaces the connector of the other and closes the first connector again: the
connector in between is neither installed nor closed. -/
theorem concurrent_versions_leak :
    let id := "db".toList
    (runs step initial
        ([.join { job := .acquire id 1 }, .act 0 .look, .act 0 .build, .act 0 .install, .act 0 .close,
          .join { job := .acquire id 2 }, .join { job := .acquire id 3 }, .act 1 .look, .act 2 .look,
          .act 1 .build, .act 2 .build, .act 1 .install, .act 2 .install, .act 1 .close,
          .act 2 .close])).map (fun p =>
        (p.shared.closed, p.shared.built, (p.shared.entries id).map Entry.conn,
          p.threads.map Call.phase)) =
      some ([0, 0], [id, id, id], some 2, [.done (some 0), .done (some 1), .done (some 2)]) := by
  decide +kernel

end DDAG.ConnectorPool
