import DDAG.AuthService.Tokens

/-!
# Scopes of refreshed tokens

The scope of a refreshed access token is that of the refresh token, and is not compared
with the scopes the client has by then.  `refreshed_scope_revoked` is a refresh after a
scope was taken away.

`signs_held` says when every access token carries only scopes its client holds: when no
change of scopes removes one that a refresh token of the client carries which is neither
revoked nor expired, or a token request of the client on its way to one.
-/

namespace DDAG.AuthService

open Machine

variable {κ : Type*}

def Request.grant? : Request κ → Option (Grant κ)
  | .consumed grant | .granted grant | .signed grant => some grant
  | _ => none

theorem Request.grant?_of_isNew {r : Request κ} (h : r.isNew = true) : r.grant? = none := by
  cases r <;> first | rfl | cases h

/-- The client holds every scope of the grant. -/
def Held (st : Store κ) (g : Grant κ) : Prop := ∀ s ∈ Strings.fields g.scope, s ∈ st.scopesOf g.client

/-- One of the events consumes refresh tokens at a time when this one is not expired. -/
def Consumable (es : List (TokenEvent κ)) (row : RefreshToken κ) : Prop :=
  ∃ i now err, .act i (.consume now err) ∈ es ∧ now < row.expiresAt

/-- Whatever can become an access token in the events to come is held by its client. -/
structure Covered (es : List (TokenEvent κ)) (p : TokenService κ) : Prop where
  words : ∀ code ∈ p.shared.scopeCodes, Strings.IsWord code
  tokens : ∀ row ∈ p.shared.refreshTokens, row.revoked = false → Consumable es row → Held p.shared row.grant
  requests : ∀ r ∈ p.threads, ∀ g, r.grant? = some g → Held p.shared g

variable {es : List (TokenEvent κ)}

theorem Covered.tail {p : TokenService κ} {e : TokenEvent κ} (h : Covered (e :: es) p) :
    Covered es p := by
  refine ⟨h.words, ?_, h.requests⟩
  rintro row hrow hlive ⟨i, now, err, hmem, hunexpired⟩
  exact h.tokens row hrow hlive ⟨i, now, err, List.mem_cons_of_mem e hmem, hunexpired⟩

/-- A statement that leaves the scopes alone keeps what is covered, if its request and the
refresh tokens it writes are. -/
theorem Covered.write {p : TokenService κ} {i : Nat} {r' : Request κ} {st' : Store κ} (h : Covered es p)
    (hcodes : st'.scopeCodes = p.shared.scopeCodes)
    (hscopes : st'.clientScopes = p.shared.clientScopes)
    (htokens : ∀ row ∈ st'.refreshTokens, row.revoked = false → Consumable es row → Held p.shared row.grant)
    (hgrant : ∀ g, r'.grant? = some g → Held p.shared g) :
    Covered es { shared := st', threads := p.threads.set i r' } := by
  have hheld : ∀ g, Held p.shared g → Held st' g := by
    intro g hg s hs
    rw [Store.scopesOf, hcodes, hscopes]
    exact hg s hs
  refine ⟨?_, ?_, ?_⟩
  · show ∀ code ∈ st'.scopeCodes, Strings.IsWord code
    rw [hcodes]
    exact h.words
  · intro row hrow hlive hconsumable
    exact hheld _ (htokens row hrow hlive hconsumable)
  · refine forall_mem_set ?_ ?_
    · intro r hr g hg
      exact hheld g (h.requests r hr g hg)
    · intro g hg
      exact hheld g (hgrant g hg)

theorem Covered.write_grantless {p : TokenService κ} {i : Nat} {r' : Request κ} {st' : Store κ}
    (h : Covered es p) (hcodes : st'.scopeCodes = p.shared.scopeCodes)
    (hscopes : st'.clientScopes = p.shared.clientScopes)
    (htokens : ∀ row ∈ st'.refreshTokens, row.revoked = false → Consumable es row → Held p.shared row.grant)
    (hgrant : r'.grant? = none) : Covered es { shared := st', threads := p.threads.set i r' } := by
  refine h.write hcodes hscopes htokens ?_
  intro g hg
  rw [hgrant] at hg
  cases hg

theorem covered_opening {scopeCodes : List Text} (hwords : ∀ code ∈ scopeCodes, Strings.IsWord code)
    (clients : κ → Option ClientRow) (clientScopes : κ → List Text) :
    Covered es (opening scopeCodes clients clientScopes) :=
  ⟨hwords, nofun, nofun⟩

variable [DecidableEq κ]

def SignsHeld (p : TokenService κ) (e : TokenEvent κ) : Prop :=
  ∀ i g, e = .act i (.sign false) → p.threads[i]? = some (.granted g) → Held p.shared g

def Grant.carries (g : Grant κ) (c : κ) (s : Text) : Bool :=
  g.client = c && Strings.isOneOf (Strings.fields g.scope) s

/-- A refresh token of the client that is neither revoked nor expired carries the scope, or a
token request does that has yet to store its refresh token. -/
def carried (p : TokenService κ) (now : Int) (c : κ) (s : Text) : Bool :=
  (p.shared.refreshTokens.any fun row => !row.revoked && now < row.expiresAt && row.grant.carries c s) ||
    p.threads.any fun r => r.grant?.any fun g => g.carries c s

/-- A change of scopes removes no scope that is carried. -/
def removesUncarried (p : TokenService κ) : TokenEvent κ → Bool
  | .act i (.setScopes now false) =>
      match p.threads[i]? with
      | some (.settingScopes c codes) =>
          (p.shared.scopesOf c).all fun s => Strings.isOneOf codes s || !carried p now c s
      | _ => true
  | _ => true

/-- Refresh tokens are not consumed at times before an earlier change of scopes. -/
def inOrder : TokenEvent κ → TokenEvent κ → Bool
  | .act _ (.setScopes now false), .act _ (.consume later _) => now ≤ later
  | _, _ => true

theorem carried_eq_false {p : TokenService κ} {now : Int} {c : κ} {s : Text} (h : carried p now c s = false) :
    (∀ row ∈ p.shared.refreshTokens, row.revoked = false → now < row.expiresAt → row.grant.carries c s = false) ∧
      ∀ r ∈ p.threads, ∀ g, r.grant? = some g → g.carries c s = false := by
  rw [carried, Bool.or_eq_false_iff, List.any_eq_false, List.any_eq_false] at h
  constructor
  · intro row hrow hlive hunexpired
    simpa [hlive, hunexpired] using h.1 row hrow
  · intro r hr g hg
    simpa [hg] using h.2 r hr

/-- A grant that carries no removed scope is held after the change. -/
theorem held_setClientScopes {st : Store κ} {c : κ} {codes : List Text} {g : Grant κ} (h : Held st g)
    (hkept : ∀ s ∈ st.scopesOf c, s ∈ codes ∨ g.carries c s = false) :
    Held (st.setClientScopes c codes) g := by
  intro s hs
  have hold := h s hs
  by_cases hclient : g.client = c
  · subst hclient
    have hcarries : g.carries g.client s = true := by simp [Grant.carries, hs]
    rcases hkept s hold with hcode | hnot
    · have hexists : s ∈ st.scopeCodes := (List.mem_filter.1 hold).1
      simp [Store.scopesOf, Store.setClientScopes, hexists, hcode]
    · rw [hcarries] at hnot
      cases hnot
  · simpa [Store.scopesOf, Store.setClientScopes, hclient] using hold

/-- A change of scopes that removes none that is carried keeps what is covered. -/
theorem Covered.setClientScopes {p : TokenService κ} {i : Nat} {c : κ} {codes : List Text}
    (h : Covered es p) (now : Int) (hkept : ∀ s ∈ p.shared.scopesOf c, s ∈ codes ∨ carried p now c s = false)
    (hlater : ∀ row, Consumable es row → now < row.expiresAt) :
    Covered es { shared := p.shared.setClientScopes c codes, threads := p.threads.set i .done } := by
  have hheld : ∀ g, Held p.shared g → (∀ s, carried p now c s = false → g.carries c s = false) →
      Held (p.shared.setClientScopes c codes) g := by
    intro g hg hcarries
    refine held_setClientScopes hg ?_
    intro s hs
    exact (hkept s hs).imp_right (hcarries s)
  refine ⟨h.words, ?_, forall_mem_set ?_ nofun⟩
  · intro row hrow hlive hconsumable
    refine hheld _ (h.tokens row hrow hlive hconsumable) ?_
    intro s hno
    exact (carried_eq_false hno).1 row hrow hlive (hlater row hconsumable)
  · intro r' hr' g hg
    refine hheld g (h.requests r' hr' g hg) ?_
    intro s hno
    exact (carried_eq_false hno).2 r' hr' g hg

/-- Every statement keeps what is covered, if a change of scopes removes none that is
carried, and refresh tokens are consumed at later times. -/
theorem covered_step {p p' : TokenService κ} {e : TokenEvent κ} (hcovered : Covered (e :: es) p)
    (hremoves : removesUncarried p e = true) (horder : ∀ e' ∈ es, inOrder e e' = true)
    (hs : tokenStep p e = some p') : Covered es p' := by
  have h := hcovered.tail
  rcases poolStep_cases hs with ⟨r, rfl, hnew, rfl⟩ | ⟨i, a, r, st', r', rfl, hr, hact, rfl⟩
  · refine ⟨h.words, h.tokens, forall_mem_join h.requests ?_⟩
    intro g hg
    rw [Request.grant?_of_isNew hnew] at hg
    cases hg
  · have hmem := List.mem_of_getElem? hr
    cases tokenAct_cases hact with
    | refused _ _ err => exact h.write_grantless rfl rfl h.tokens rfl
    | stopped => exact h.write_grantless rfl rfl h.tokens rfl
    | found secret scope hrow => exact h.write_grantless rfl rfl h.tokens rfl
    | granted hactive hsecret hscope =>
        refine h.write rfl rfl h.tokens ?_
        intro g hg
        cases hg
        exact resolveScope_subset (fun code hcode => h.words code (List.mem_filter.1 hcode).1) hscope
    | consumed hrow husable =>
        refine h.write rfl rfl (forall_live_revoke h.tokens) ?_
        intro g hg
        cases hg
        exact hcovered.tokens _ hrow (Store.usable_live husable)
          ⟨i, _, false, List.mem_cons_self, Store.usable_unexpired husable⟩
    | regranted grant =>
        refine h.write rfl rfl h.tokens ?_
        intro g hg
        cases hg
        exact h.requests _ hmem _ rfl
    | signed grant =>
        refine h.write rfl rfl h.tokens ?_
        intro g hg
        cases hg
        exact h.requests _ hmem _ rfl
    | created grant token expiresAt =>
        refine h.write_grantless rfl rfl (forall_mem_join h.tokens ?_) rfl
        intro _ _
        exact h.requests _ hmem _ rfl
    | scopesSet c codes now =>
        rw [removesUncarried, hr] at hremoves
        refine h.setClientScopes now ?_ ?_
        · intro s hs
          simpa using List.all_eq_true.1 hremoves s hs
        · rintro row ⟨k, later, err, hconsume, hunexpired⟩
          exact lt_of_le_of_lt (of_decide_eq_true (horder _ hconsume)) hunexpired
    | rotated c secret => exact h.write_grantless rfl rfl h.tokens rfl
    | revoked c v => exact h.write_grantless rfl rfl (forall_live_revoke h.tokens) rfl
    | unrevoked c v => exact h.write_grantless rfl rfl h.tokens rfl
    | returned c v => exact h.write_grantless rfl rfl h.tokens rfl

theorem Covered.signsHeld : ∀ {es : List (TokenEvent κ)} {p : TokenService κ}, Covered es p →
    Each tokenStep (fun p e => removesUncarried p e = true) p es →
      es.Pairwise (fun e e' => inOrder e e' = true) → Each tokenStep SignsHeld p es
  | [], _, _, _, _ => trivial
  | e :: es, p, h, hremoves, horder => fun p' hs => by
      have hp' := covered_step h (hremoves p' hs).1 (fun _ => List.rel_of_pairwise_cons horder) hs
      refine ⟨?_, hp'.signsHeld (hremoves p' hs).2 horder.of_cons⟩
      intro i g _ hg
      exact h.requests _ (List.mem_of_getElem? hg) g rfl

/-- Along a run in which no change of scopes removes one that is carried at its time, and refresh
tokens are consumed at later times, every access token is signed for scopes its client holds
at that moment. -/
theorem signs_held {scopeCodes : List Text} (hwords : ∀ code ∈ scopeCodes, Strings.IsWord code)
    (clients : κ → Option ClientRow) (clientScopes : κ → List Text)
    (es : List (TokenEvent κ))
    (hremoves : Each tokenStep (fun p e => removesUncarried p e = true)
      (opening scopeCodes clients clientScopes) es)
    (horder : es.Pairwise fun e e' => inOrder e e' = true) :
    Each tokenStep SignsHeld (opening scopeCodes clients clientScopes) es :=
  (covered_opening hwords clients clientScopes).signsHeld hremoves horder

/-! ## A scope taken away -/

/-- One client with the scopes `read` and `write`. -/
def oneClient : TokenService Unit :=
  opening ["read".toList, "write".toList] (fun _ => some { secret := "s".toList })
    fun _ => ["read".toList, "write".toList]

/-- The client gets tokens for a scope, loses `write`, and refreshes. -/
def refreshAfterChange (scope : Text) : List (TokenEvent Unit) :=
  [.join (.credentials () "s".toList scope), .act 0 (.readClient false), .act 0 (.readScopes false),
    .act 0 (.sign false), .act 0 (.create "t".toList 100 false),
    .join (.settingScopes () ["read".toList]), .act 1 (.setScopes 0 false),
    .join (.refreshing "t".toList), .act 2 (.consume 0 false), .act 2 (.readClient false),
    .act 2 (.sign false)]

/-- The access token of the refresh carries `write`, which the client no longer holds. -/
theorem refreshed_scope_revoked :
    (runs tokenStep oneClient (refreshAfterChange [])).map
        (fun p => (p.shared.scopesOf (), p.threads[2]?)) =
      some (["read".toList], some (.signed ⟨(), "read write".toList, 0⟩)) := by
  decide +kernel

theorem signs_held_after_change :
    Each tokenStep SignsHeld oneClient (refreshAfterChange "read".toList) ∧
    (runs tokenStep oneClient (refreshAfterChange "read".toList)).map (fun p => p.threads[2]?) =
      some (some (.signed ⟨(), "read".toList, 0⟩)) := by
  refine ⟨signs_held ?_ _ _ _ (by decide +kernel) (by decide +kernel), by decide +kernel⟩
  intro code hcode
  have hspace : (["read".toList, "write".toList].all fun code =>
      !code.isEmpty && code.all fun c => !Strings.isSpace c) = true := by decide +kernel
  simpa [Strings.IsWord] using List.all_eq_true.1 hspace code hcode

end DDAG.AuthService
