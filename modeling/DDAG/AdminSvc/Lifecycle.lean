import DDAG.Gateway.Validate
import DDAG.Lib.Pool
import DDAG.Lib.Trace

/-!
# The life cycle of an API

The admin handlers of `internal/adminsvc` on one API, with the store calls of
`internal/store/catalog.go` they are made of.  A handler reads the row and the
parameters of the API in two statements, checks what it read, and commits in one
transaction.  Any number of handlers take these steps in any interleaving.

Two things are recorded beside the row: the content at the last approval, and with
each revision the content that was last approved when it was written.

An edit does not take back an approval.  `publishes_approved` says that what is
published is what was approved, in every run in which no edit commits while the API
is approved or while a publish is under way.  `edit_after_approval_published` is a
run that publishes an edit nobody approved.
-/

namespace DDAG.AdminSvc

open Models Gateway Machine

/-! ## Statuses -/

inductive Status where
  | draft
  | review
  | approved
  | published
  | deprecated
  | archived
  | disabled
deriving DecidableEq

/-- The table of `canTransitionAPIStatus`. -/
def canTransitionAPIStatus : Status → Status → Bool
  | .draft, .review => true
  | .review, .approved => true
  | .approved, .published => true
  | .published, .deprecated | .published, .archived | .published, .disabled => true
  | _, _ => false

def canPublishAPIStatus (s : Status) : Bool := canTransitionAPIStatus s .published

/-- The statuses `setAPIStatusHandler` is routed for. -/
inductive Target where
  | review
  | disabled
  | archived
  | deprecated
deriving DecidableEq

def Target.status : Target → Status
  | .review => .review
  | .disabled => .disabled
  | .archived => .archived
  | .deprecated => .deprecated

/-! ## The store -/

/-- What a definition says. -/
structure Content where
  definition : APIDefinition
  parameters : List APIParameter
deriving DecidableEq

/-- A row of `api_revisions`, with the content last approved when it was written. -/
structure Revision where
  snapshot : Content
  approved : Option Content
deriving DecidableEq

/-- The row of an API, its parameters and revisions, and the content at the last
approval. -/
structure Api where
  content : Content
  status : Status
  approved : Option Content
  revisions : List Revision
deriving DecidableEq

def updateAPIWithParameters (a : Api) (c : Content) : Api :=
  { a with content := c, status := if a.status = .published then .draft else a.status }

def setAPIStatus (a : Api) (s : Status) : Api := { a with status := s }

def approveAPI (a : Api) : Api := { a with status := .approved, approved := some a.content }

/-- The transaction of `PublishAPI` is undone unless the row is approved. -/
def publishAPI (a : Api) (snapshot : Content) : Option Api :=
  if a.status = .approved then
    some { a with status := .published, revisions := a.revisions ++ [⟨snapshot, a.approved⟩] }
  else none

/-! ## Edits -/

/-- The payload of an edit, and the type of the connection it names. -/
structure APIInput where
  path : Text
  method : Text
  databaseConnectionID : Id
  connectorType : Text
  queryTemplate : Text
  responseMapping : ResponseMapping
  requiredScope : Text
  defaultLimit : Int
  maxLimit : Int
  isWrite : Bool
  parameters : List APIParameter

def defInt (n default : Int) : Int := if n ≤ 0 then default else n

def validateAPIMethod (method : Text) (isWrite : Bool) : Bool :=
  if method = "GET".toList ∨ method = "QUERY".toList then !isWrite
  else if method = "POST".toList then true
  else if method = "PUT".toList ∨ method = "PATCH".toList ∨ method = "DELETE".toList then isWrite
  else false

/-- The content of an edit that `updateAPI` commits. -/
def APIInput.content (i : APIInput) : Option Content :=
  let method := normalMethod i.method
  if validateAPIMethod method i.isWrite then
    some
      { definition :=
          { path := i.path, method := method, databaseConnectionID := some i.databaseConnectionID
            connectorType := i.connectorType, queryTemplate := i.queryTemplate
            responseMapping := i.responseMapping, requiredScope := i.requiredScope
            defaultLimit := defInt i.defaultLimit 100, maxLimit := defInt i.maxLimit 1000
            isWrite := i.isWrite }
        parameters := i.parameters }
  else none

/-! ## Handlers -/

inductive Operation where
  | update (input : APIInput)
  | setStatus (target : Target)
  | approve
  | publish

inductive Phase where
  | start
  /-- The row is read, its parameters are not. -/
  | rowRead (status : Status) (definition : APIDefinition)
  | read (status : Status) (content : Content)
  | done

structure Handler where
  task : Operation
  phase : Phase := .start

inductive Action where
  | readRow
  | readParameters
  | commit
  | fail
deriving DecidableEq

section Handlers

-- `regexp.Compile` and the order in which maps are walked, for `ValidateForPublish`.
variable (compileError : Text → Option Text) (walk : List Text → List Text)

/-- The content passes `ValidateForPublish`. -/
def ready (c : Content) : Bool :=
  (validateForPublish compileError walk c.definition c.parameters).run = some (.ok ())

/-- The commit of a handler that has read what it reads. -/
def commit (a : Api) (h : Handler) : Option Api :=
  match h.task, h.phase with
  | .update input, .start => input.content.map (updateAPIWithParameters a)
  | .setStatus target, .read s _ =>
      if canTransitionAPIStatus s target.status then some (setAPIStatus a target.status) else none
  | .approve, .read s _ => if canTransitionAPIStatus s .approved then some (approveAPI a) else none
  | .publish, .read s c =>
      if canPublishAPIStatus s && ready compileError walk c then publishAPI a c else none
  | _, _ => none

def act (a : Api) (h : Handler) : Action → Option (Api × Handler)
  | .readRow =>
      match h.task, h.phase with
      | .update _, _ => none
      | _, .start => some (a, { h with phase := .rowRead a.status a.content.definition })
      | _, _ => none
  | .readParameters =>
      match h.phase with
      | .rowRead s d => some (a, { h with phase := .read s ⟨d, a.content.parameters⟩ })
      | _ => none
  | .commit => (commit compileError walk a h).map fun a' => (a', { h with phase := .done })
  | .fail => some (a, { h with phase := .done })

abbrev Admin := Pool Api Handler

def isNew (h : Handler) : Bool :=
  match h.phase with
  | .start => true
  | _ => false

def step (p : Admin) (e : PoolEvent Handler Action) : Option Admin :=
  poolStep isNew (act compileError walk) p e

end Handlers

/-- An API with this content and status and no revisions.  One that is approved
was approved with this content. -/
def existing (c : Content) (s : Status) : Admin :=
  { shared :=
      { content := c, status := s, approved := if s = .approved then some c else none
        revisions := [] }
    threads := [] }

/-! ## What is published -/

/-- Every revision holds the content that was last approved when it was written. -/
def Faithful (p : Admin) : Prop := ∀ r ∈ p.shared.revisions, r.approved = some r.snapshot

/-- A publish that has read the API as approved and has not committed. -/
def Handler.Publishing (h : Handler) : Prop :=
  h.task = .publish ∧ ((∃ d, h.phase = .rowRead .approved d) ∨ ∃ c, h.phase = .read .approved c)

/-- An edit that changes the content commits while the API is approved, or while
a publish is under way. -/
def Disturbs (p : Admin) (e : PoolEvent Handler Action) : Prop :=
  ∃ i h input c, e = .act i .commit ∧ p.threads[i]? = some h ∧ h.task = .update input ∧
    input.content = some c ∧ c ≠ p.shared.content ∧
    (p.shared.status = .approved ∨ ∃ h' ∈ p.threads, h'.Publishing)

/-- What a publish under way has read is the content of the API. -/
def Handler.Current (h : Handler) (c : Content) : Prop :=
  h.task = .publish → (∀ d, h.phase = .rowRead .approved d → d = c.definition) ∧
    ∀ c', h.phase = .read .approved c' → c' = c

structure Inv (p : Admin) : Prop where
  approved : p.shared.status = .approved → p.shared.approved = some p.shared.content
  current : ∀ h ∈ p.threads, h.Current p.shared.content
  faithful : Faithful p

theorem inv_existing (c : Content) (s : Status) : Inv (existing c s) where
  approved := fun hs => if_pos hs
  current := by simp [existing]
  faithful := by simp [existing, Faithful]

section Steps

variable {compileError : Text → Option Text} {walk : List Text → List Text}

/-- What a commit does, and what it was based on. -/
theorem commit_cases {a a' : Api} {h : Handler} (hc : commit compileError walk a h = some a') :
    (∃ input c, h.task = .update input ∧ input.content = some c ∧
        a' = updateAPIWithParameters a c) ∨
      (∃ target s c, h.task = .setStatus target ∧ h.phase = .read s c ∧
        canTransitionAPIStatus s target.status = true ∧ a' = setAPIStatus a target.status) ∨
      (∃ s c, h.task = .approve ∧ h.phase = .read s c ∧
        canTransitionAPIStatus s .approved = true ∧ a' = approveAPI a) ∨
      ∃ c, h.task = .publish ∧ h.phase = .read .approved c ∧ publishAPI a c = some a' := by
  unfold commit at hc
  split at hc
  next input htask _ =>
    obtain ⟨c, hcontent, rfl⟩ := Option.map_eq_some_iff.mp hc
    exact .inl ⟨input, c, htask, hcontent, rfl⟩
  next target s c htask hphase =>
    split at hc
    next hallowed =>
      cases hc
      exact .inr (.inl ⟨target, s, c, htask, hphase, hallowed, rfl⟩)
    next _ => cases hc
  next s c htask hphase =>
    split at hc
    next hallowed =>
      cases hc
      exact .inr (.inr (.inl ⟨s, c, htask, hphase, hallowed, rfl⟩))
    next _ => cases hc
  next s c htask hphase =>
    split at hc
    next hok =>
      -- only an approved API can be published
      obtain rfl : s = .approved := by
        rw [Bool.and_eq_true] at hok
        cases s with
        | approved => rfl
        | _ => cases hok.1
      exact .inr (.inr (.inr ⟨c, htask, hphase, hc⟩))
    next _ => cases hc
  next _ => cases hc

/-- What an action does: a read, a return, or a commit. -/
theorem act_cases {a a' : Api} {h h' : Handler} {x : Action}
    (hact : act compileError walk a h x = some (a', h')) :
    (x = .readRow ∧ a' = a ∧ h.phase = .start ∧
        h' = { h with phase := .rowRead a.status a.content.definition }) ∨
      (∃ s d, x = .readParameters ∧ a' = a ∧ h.phase = .rowRead s d ∧
        h' = { h with phase := .read s ⟨d, a.content.parameters⟩ }) ∨
      (x = .fail ∧ a' = a ∧ h' = { h with phase := .done }) ∨
      (x = .commit ∧ commit compileError walk a h = some a' ∧ h' = { h with phase := .done }) := by
  cases x with
  | readRow =>
      simp only [act] at hact
      split at hact
      next _ => cases hact
      next hphase _ =>
        cases hact
        exact .inl ⟨rfl, rfl, hphase, rfl⟩
      next _ => cases hact
  | readParameters =>
      simp only [act] at hact
      split at hact
      next s d hphase =>
        cases hact
        exact .inr (.inl ⟨s, d, rfl, rfl, hphase, rfl⟩)
      next _ => cases hact
  | commit =>
      obtain ⟨b, hb, heq⟩ := Option.map_eq_some_iff.mp hact
      cases heq
      exact .inr (.inr (.inr ⟨rfl, hb, rfl⟩))
  | fail =>
      cases hact
      exact .inr (.inr (.inl ⟨rfl, rfl, rfl⟩))

theorem Handler.current_done (h : Handler) (c : Content) : { h with phase := .done }.Current c :=
  fun _ => ⟨nofun, nofun⟩

variable {p p' : Admin} {i : Nat} {h : Handler}

theorem inv_join (hp : Inv p) (hnew : isNew h = true) :
    Inv { p with threads := p.threads ++ [h] } := by
  refine ⟨hp.approved, forall_mem_join hp.current ?_, hp.faithful⟩
  intro _
  unfold isNew at hnew
  split at hnew
  next hphase =>
    rw [hphase]
    exact ⟨nofun, nofun⟩
  next _ => cases hnew

/-- A read sees the content there is. -/
theorem inv_read (hp : Inv p) {h' : Handler} (hcur : h'.Current p.shared.content) :
    Inv { p with threads := p.threads.set i h' } :=
  ⟨hp.approved, forall_mem_set hp.current hcur, hp.faithful⟩

/-- A commit that leaves the content alone and approves nothing but it. -/
theorem inv_commit (hp : Inv p) {a : Api} (hcontent : a.content = p.shared.content)
    (happroved : a.status = .approved → a.approved = some a.content)
    (hfaithful : ∀ r ∈ a.revisions, r.approved = some r.snapshot) :
    Inv { shared := a, threads := p.threads.set i { h with phase := .done } } := by
  refine ⟨happroved, forall_mem_set ?_ (h.current_done _), hfaithful⟩
  rw [hcontent]
  exact hp.current

theorem Handler.current_of_not_publishing {h : Handler} (hpub : ¬ h.Publishing) (c : Content) :
    h.Current c := by
  intro htask
  exact ⟨fun d hd => absurd ⟨htask, .inl ⟨d, hd⟩⟩ hpub, fun c' hc => absurd ⟨htask, .inr ⟨c', hc⟩⟩ hpub⟩

/-- An edit commits when the API is not approved and no publish is under way, or
changes nothing. -/
theorem inv_update (hp : Inv p) {c : Content}
    (hfree : c ≠ p.shared.content →
      p.shared.status ≠ .approved ∧ ∀ h' ∈ p.threads, ¬ h'.Publishing) :
    Inv { shared := updateAPIWithParameters p.shared c
          threads := p.threads.set i { h with phase := .done } } := by
  have hstatus : (updateAPIWithParameters p.shared c).status = .approved →
      p.shared.status = .approved := by
    intro hs
    simp only [updateAPIWithParameters] at hs
    split at hs
    next _ => cases hs
    next _ => exact hs
  by_cases hne : c = p.shared.content
  · refine inv_commit hp hne (fun hs => ?_) hp.faithful
    rw [updateAPIWithParameters, hne]
    exact hp.approved (hstatus hs)
  · obtain ⟨hnot, hquiet⟩ := hfree hne
    refine ⟨fun hs => absurd (hstatus hs) hnot, ?_, hp.faithful⟩
    refine forall_mem_set (fun h' hh' => ?_) (h.current_done _)
    exact Handler.current_of_not_publishing (hquiet h' hh') _

/-- Every step that is no disturbing edit keeps the invariant. -/
theorem inv_step {e : PoolEvent Handler Action} (hp : Inv p) (he : ¬ Disturbs p e)
    (hs : step compileError walk p e = some p') : Inv p' := by
  rcases poolStep_cases hs with ⟨h, rfl, hnew, rfl⟩ | ⟨i, x, h, a', h', rfl, hh, hact, rfl⟩
  · exact inv_join hp hnew
  have hmem := List.mem_of_getElem? hh
  rcases act_cases hact with ⟨-, rfl, -, rfl⟩ | ⟨s, d, -, rfl, hphase, rfl⟩ | ⟨-, rfl, rfl⟩ |
    ⟨rfl, hc, rfl⟩
  · -- the row is read
    refine inv_read hp fun _ => ⟨?_, nofun⟩
    intro d hd
    exact (Phase.rowRead.inj hd).2.symm
  · -- the parameters are read after a row that is still current
    refine inv_read hp fun htask => ⟨nofun, ?_⟩
    intro c hc
    cases hc
    have hd : d = p.shared.content.definition := (hp.current h hmem htask).1 d hphase
    rw [hd]
  · exact inv_read hp (h.current_done _)
  · rcases commit_cases hc with ⟨input, c, htask, hcontent, rfl⟩ | ⟨target, _, _, -, -, -, rfl⟩ |
      ⟨_, _, -, -, -, rfl⟩ | ⟨c, htask, hphase, hpub⟩
    · refine inv_update hp fun hne => ?_
      have hfree := fun hwhy => he ⟨i, h, input, c, rfl, hh, htask, hcontent, hne, hwhy⟩
      exact ⟨fun hs => hfree (.inl hs), fun h' hh' hpub => hfree (.inr ⟨h', hh', hpub⟩)⟩
    · exact inv_commit hp rfl (by cases target <;> nofun) hp.faithful
    · exact inv_commit hp rfl (fun _ => rfl) hp.faithful
    · -- what the publish read is the approved content
      have hread : c = p.shared.content := (hp.current h hmem htask).2 c hphase
      unfold publishAPI at hpub
      split at hpub
      next happroved =>
        cases hpub
        refine inv_commit hp rfl nofun (forall_mem_join hp.faithful ?_)
        rw [hread]
        exact hp.approved happroved
      next _ => cases hpub

end Steps

/-- In a run in which no edit commits while the API is approved or a publish is
under way, every revision holds the content that was last approved. -/
theorem publishes_approved (compileError : Text → Option Text) (walk : List Text → List Text)
    (c : Content) (s : Status) {es : List (PoolEvent Handler Action)}
    (h : Each (step compileError walk) (fun p e => ¬ Disturbs p e) (existing c s) es) :
    Along (step compileError walk) Faithful (existing c s) es :=
  (Along.of_each inv_step (inv_existing c s) h).mono fun _ => Inv.faithful

/-- The content of an API that reads one row. -/
def selecting (template : String) : Content :=
  { definition := { path := "/a".toList, databaseConnectionID := some 1, connectorType := "postgres".toList
                    queryTemplate := template.toList, defaultLimit := 100, maxLimit := 1000 }
    parameters := [] }

/-- The events of the `i`-th handler, from its arrival to its commit. -/
def undisturbed (i : Nat) (task : Operation) : List (PoolEvent Handler Action) :=
  [.join { task := task }, .act i .readRow, .act i .readParameters, .act i .commit]

/-- An approved API is published as it was approved. -/
theorem approved_content_published :
    let step := step (fun _ => none) id
    let start := existing (selecting "SELECT 1") .approved
    (runs step start (undisturbed 0 .publish)).map (fun p => p.shared.revisions) =
        some [⟨selecting "SELECT 1", some (selecting "SELECT 1")⟩] ∧
      Along step Faithful start (undisturbed 0 .publish) := by
  refine ⟨by decide +kernel, publishes_approved _ _ _ _ ?_⟩
  have hread : ∀ {p : Admin} {e}, (∀ i, e ≠ .act i .commit) → ¬ Disturbs p e :=
    fun he ⟨i, _, _, _, h, _⟩ => he i h
  refine .cons (hread nofun) rfl (.cons (hread nofun) rfl (.cons (hread nofun) rfl ?_))
  intro p _
  refine ⟨?_, trivial⟩
  -- the handler that commits is no edit
  rintro ⟨i, h, input, c, he, hget, htask, -⟩
  cases he
  cases hget
  cases htask

/-- An API is approved, edited and published: the revision holds the edit, which
nobody approved. -/
theorem edit_after_approval_published :
    let edit : APIInput :=
      { path := "/a".toList, method := "GET".toList, databaseConnectionID := 1
        connectorType := "postgres".toList, queryTemplate := "SELECT 2".toList
        responseMapping := .absent, requiredScope := [], defaultLimit := 0, maxLimit := 0
        isWrite := false, parameters := [] }
    (runs (step (fun _ => none) id) (existing (selecting "SELECT 1") .review)
        (undisturbed 0 .approve ++ [.join { task := .update edit }, .act 1 .commit] ++
          undisturbed 2 .publish)).map (fun p => p.shared.revisions) =
      some [⟨selecting "SELECT 2", some (selecting "SELECT 1")⟩] := by
  decide +kernel

end DDAG.AdminSvc
