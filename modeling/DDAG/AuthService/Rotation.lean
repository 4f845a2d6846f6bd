import DDAG.AuthService.Tokens

/-!
# Refresh tokens of a rotated secret

`rotateClientSecret` stores the new secret, revokes the refresh tokens of the client and
returns.  A token request that has read the old secret, or consumed a refresh token
obtained with it, stores its new refresh token whenever it comes to it.  If that is after
the revocation, the token outlives the rotation (`refresh_outlives_rotation`).

`Barred p c v` says that nothing obtained with a version of the secret before `v` is left:
no refresh token, no request on its way, no row.  Every statement keeps it
(`barred_step`).  A revocation establishes it if it succeeds and finds no such request on
its way, which is the condition of `issues_current`.
-/

namespace DDAG.AuthService

open Machine

variable {κ : Type*}

/-- The client and the version of the secret that a request will store a refresh token
for.  A request that found the client row but gave another secret will store none. -/
def Request.root? : Request κ → Option (κ × Nat)
  | .found c row secret _ => if row.active && row.secret = secret then some (c, row.version) else none
  | .consumed g | .granted g | .signed g => some (g.client, g.root)
  | _ => none

theorem Request.root?_of_isNew {r : Request κ} (h : r.isNew = true) : r.root? = none := by
  cases r <;> first | rfl | cases h

/-- Nothing is left of the versions of the client's secret before `v`. -/
structure Barred (p : TokenService κ) (c : κ) (v : Nat) : Prop where
  version : v ≤ p.shared.version c
  tokens : ∀ row ∈ p.shared.refreshTokens, row.revoked = false → row.grant.client = c →
    v ≤ row.grant.root
  requests : ∀ r ∈ p.threads, ∀ n, r.root? = some (c, n) → v ≤ n

theorem Barred.max {p : TokenService κ} {c : κ} {v w : Nat} (hv : Barred p c v) (hw : Barred p c w) :
    Barred p c (max v w) := by
  rcases max_choice v w with hmax | hmax
  · rwa [hmax]
  · rwa [hmax]

theorem Barred.write {p : TokenService κ} {c : κ} {v : Nat} (h : Barred p c v) {st' : Store κ} {i : Nat}
    {r' : Request κ} (hversion : v ≤ st'.version c)
    (htokens : ∀ row ∈ st'.refreshTokens, row.revoked = false → row.grant.client = c →
      v ≤ row.grant.root)
    (hroot : ∀ n, r'.root? = some (c, n) → v ≤ n) :
    Barred { shared := st', threads := p.threads.set i r' } c v :=
  ⟨hversion, htokens, forall_mem_set h.requests hroot⟩

theorem Barred.write_rootless {p : TokenService κ} {c : κ} {v : Nat} (h : Barred p c v) {st' : Store κ}
    {i : Nat} {r' : Request κ} (hversion : v ≤ st'.version c)
    (htokens : ∀ row ∈ st'.refreshTokens, row.revoked = false → row.grant.client = c →
      v ≤ row.grant.root)
    (hroot : r'.root? = none) : Barred { shared := st', threads := p.threads.set i r' } c v := by
  refine h.write hversion htokens ?_
  intro n hn
  rw [hroot] at hn
  cases hn

theorem barred_zero (p : TokenService κ) (c : κ) : Barred p c 0 :=
  ⟨Nat.zero_le _, fun _ _ _ _ => Nat.zero_le _, fun _ _ _ _ => Nat.zero_le _⟩

/-- What rotations have got done: those that have returned, or are about to, have left
nothing behind, and the others have stored their secret. -/
structure Rotated (p : TokenService κ) : Prop where
  returned : ∀ c, Barred p c (p.shared.returned c)
  returning : ∀ c v, .returning c v ∈ p.threads → Barred p c v
  revoking : ∀ c v, .revoking c v ∈ p.threads → v ≤ p.shared.version c

theorem rotated_join {p : TokenService κ} {r : Request κ} (h : Rotated p) (hnew : r.isNew = true)
    (hkeeps : ∀ c v, Barred p c v → Barred { p with threads := p.threads ++ [r] } c v) :
    Rotated { p with threads := p.threads ++ [r] } := by
  have hold : ∀ x : Request κ, x.isNew = false → x ∈ p.threads ++ [r] → x ∈ p.threads := by
    intro x hx hmem
    rcases List.mem_append.1 hmem with hmem | hmem
    · exact hmem
    · rw [List.mem_singleton.1 hmem, hnew] at hx
      cases hx
  refine ⟨?_, ?_, ?_⟩
  · intro c
    exact hkeeps c _ (h.returned c)
  · intro c v hmem
    exact hkeeps c v (h.returning c v (hold _ rfl hmem))
  · intro c v hmem
    exact h.revoking c v (hold _ rfl hmem)

theorem rotated_opening (scopeCodes : List Text) (clients : κ → Option ClientRow)
    (clientScopes : κ → List Text) : Rotated (opening scopeCodes clients clientScopes) :=
  ⟨fun c => barred_zero _ c, nofun, nofun⟩

variable [DecidableEq κ]

/-- Tokens are issued only from what was obtained with the secret of the last rotation
that has returned, or a later one: refresh tokens are exchanged, and access tokens signed,
for no earlier one. -/
def IssuesCurrent (p : TokenService κ) (e : TokenEvent κ) : Prop :=
  (∀ i token now row, e = .act i (.consume now false) → p.threads[i]? = some (.refreshing token) →
    p.shared.refreshTokens.find? (Store.usable token now) = some row →
      p.shared.returned row.grant.client ≤ row.grant.root) ∧
  ∀ i g, e = .act i (.sign false) → p.threads[i]? = some (.granted g) →
    p.shared.returned g.client ≤ g.root

/-- A revocation of refresh tokens succeeds, and no request of the client is on its way with
an earlier version of the secret. -/
def revokesAll (p : TokenService κ) : TokenEvent κ → Bool
  | .act i (.revoke err) =>
      match p.threads[i]? with
      | some (.revoking c v) =>
          !err && p.threads.all fun r => r.root?.all fun root => root.1 ≠ c || v ≤ root.2
      | _ => true
  | _ => true

/-! ## What a statement keeps -/

theorem version_rotateClientSecret (st : Store κ) (c c' : κ) (secret : Text) :
    st.version c' ≤ (st.rotateClientSecret c secret).version c' := by
  unfold Store.version Store.rotateClientSecret
  by_cases hc : c' = c
  · subst hc
    cases st.clients c' with
    | none => simp
    | some row => simp
  · simp [hc]

theorem Executes.version_le {st st' : Store κ} {r r' : Request κ} {a : Statement}
    (h : Executes st r a st' r') (c : κ) : st.version c ≤ st'.version c := by
  cases h with
  | rotated c' secret => exact version_rotateClientSecret st c' c secret
  | _ => exact Nat.le_refl _

theorem barred_step {p p' : TokenService κ} {e : TokenEvent κ} {c : κ} {v : Nat}
    (h : Barred p c v) (hs : tokenStep p e = some p') : Barred p' c v := by
  rcases poolStep_cases hs with ⟨r, rfl, hnew, rfl⟩ | ⟨i, a, r, st', r', rfl, hr, hact, rfl⟩
  · refine ⟨h.version, h.tokens, forall_mem_join h.requests ?_⟩
    intro n hn
    rw [Request.root?_of_isNew hnew] at hn
    cases hn
  · have hmem := List.mem_of_getElem? hr
    have hexec := tokenAct_cases hact
    have hversion := h.version.trans (hexec.version_le c)
    cases hexec with
    | refused _ _ err => exact h.write_rootless hversion h.tokens rfl
    | stopped => exact h.write_rootless hversion h.tokens rfl
    | @found c' row secret scope hrow =>
        refine h.write hversion h.tokens ?_
        intro n hn
        simp only [Request.root?, Option.ite_none_right_eq_some, Option.some.injEq,
          Prod.mk.injEq] at hn
        obtain ⟨_, rfl, rfl⟩ := hn
        have hrow' : p.shared.version c' = row.version := by
          rw [Store.version, hrow]
          rfl
        rw [← hrow']
        exact h.version
    | @granted c' row secret scope granted hactive hsecret hscope =>
        refine h.write hversion h.tokens ?_
        intro n hn
        cases hn
        refine h.requests _ hmem row.version ?_
        simp [Request.root?, hactive, hsecret]
    | consumed hrow husable =>
        refine h.write hversion (forall_live_revoke h.tokens) ?_
        intro n hn
        cases hn
        exact h.tokens _ hrow (Store.usable_live husable) rfl
    | regranted grant =>
        refine h.write hversion h.tokens ?_
        intro n hn
        exact h.requests (.consumed grant) hmem n hn
    | signed grant =>
        refine h.write hversion h.tokens ?_
        intro n hn
        exact h.requests (.granted grant) hmem n hn
    | created grant token expiresAt =>
        refine h.write_rootless hversion (forall_mem_join h.tokens ?_) rfl
        intro _ hclient
        refine h.requests _ hmem grant.root ?_
        rw [← hclient]
        rfl
    | scopesSet c' codes now => exact h.write_rootless hversion h.tokens rfl
    | rotated c' secret => exact h.write_rootless hversion h.tokens rfl
    | revoked c' v' => exact h.write_rootless hversion (forall_live_revoke h.tokens) rfl
    | unrevoked c' v' => exact h.write_rootless hversion h.tokens rfl
    | returned c' v' => exact h.write_rootless hversion h.tokens rfl

/-! ## Rotations -/

/-- A revocation that succeeds while nothing of the earlier versions is on its way leaves
nothing of them. -/
theorem barred_revoke {p : TokenService κ} {i : Nat} {c : κ} {v : Nat} (hversion : v ≤ p.shared.version c)
    (hnone : ∀ r ∈ p.threads, ∀ n, r.root? = some (c, n) → v ≤ n) :
    Barred { shared := p.shared.revokeClientRefreshTokens c
             threads := p.threads.set i (.returning c v) } c v := by
  refine ⟨hversion, ?_, forall_mem_set hnone nofun⟩
  intro row hrow hlive hclient
  exact absurd hclient (mem_of_revoke hrow hlive).2

theorem revokesAll_spec {p : TokenService κ} {i : Nat} {err : Bool} {c : κ} {v : Nat}
    (h : revokesAll p (.act i (.revoke err)) = true) (hr : p.threads[i]? = some (.revoking c v)) :
    err = false ∧ ∀ r ∈ p.threads, ∀ n, r.root? = some (c, n) → v ≤ n := by
  rw [revokesAll, hr, Bool.and_eq_true, Bool.not_eq_true', List.all_eq_true] at h
  refine ⟨h.1, ?_⟩
  intro r hr' n hn
  simpa [hn] using h.2 r hr'

theorem Executes.returned_eq {st st' : Store κ} {r r' : Request κ} {a : Statement}
    (h : Executes st r a st' r') :
    st'.returned = st.returned ∨ ∃ c v, r = .returning c v ∧ st' = st.noteReturn c v := by
  cases h with
  | returned c v => exact .inr ⟨c, v, rfl, rfl⟩
  | _ => exact .inl rfl

theorem rotated_step {p p' : TokenService κ} {e : TokenEvent κ} (h : Rotated p)
    (hrevokes : revokesAll p e = true) (hs : tokenStep p e = some p') : Rotated p' := by
  have hkeeps : ∀ c v, Barred p c v → Barred p' c v := fun c v hb => barred_step hb hs
  rcases poolStep_cases hs with ⟨r, rfl, hnew, rfl⟩ | ⟨i, a, r, st', r', rfl, hr, hact, rfl⟩
  · exact rotated_join h hnew hkeeps
  · have hexec := tokenAct_cases hact
    refine ⟨?_, ?_, ?_⟩
    · intro c
      rcases hexec.returned_eq with hsame | ⟨c', v, rfl, rfl⟩
      · show Barred _ c (st'.returned c)
        rw [hsame]
        exact hkeeps c _ (h.returned c)
      · show Barred _ c (Function.update p.shared.returned c' (max (p.shared.returned c') v) c)
        by_cases hc : c = c'
        · subst hc
          rw [Function.update_self]
          exact (hkeeps c _ (h.returned c)).max (hkeeps c v (h.returning c v (List.mem_of_getElem? hr)))
        · rw [Function.update_of_ne hc]
          exact hkeeps c _ (h.returned c)
    · intro c v hmem
      rcases List.mem_or_eq_of_mem_set hmem with hold | heq
      · exact hkeeps c v (h.returning c v hold)
      · subst heq
        -- Only a revocation leads here, and it meets the condition.
        cases hexec with
        | revoked =>
            have hversion := h.revoking c v (List.mem_of_getElem? hr)
            exact barred_revoke hversion (revokesAll_spec hrevokes hr).2
        | unrevoked => cases (revokesAll_spec hrevokes hr).1
    · intro c v hmem
      rcases List.mem_or_eq_of_mem_set hmem with hold | heq
      · exact (h.revoking c v hold).trans (hexec.version_le c)
      · subst heq
        cases hexec with
        | rotated => exact Nat.le_refl _

/-- Along a run in which every revocation of refresh tokens succeeds and finds no request on
its way with an earlier secret, tokens are issued only from what was obtained with the
secret of the last rotation that has returned, or a later one. -/
theorem issues_current (scopeCodes : List Text) (clients : κ → Option ClientRow)
    (clientScopes : κ → List Text) (es : List (TokenEvent κ))
    (hrevokes : Each tokenStep (fun p e => revokesAll p e = true)
      (opening scopeCodes clients clientScopes) es) :
    Each tokenStep IssuesCurrent (opening scopeCodes clients clientScopes) es := by
  refine Each.of_invariant ?_ (rotated_opening scopeCodes clients clientScopes) hrevokes
  intro p e p' hrotated hstep hs
  refine ⟨rotated_step hrotated hstep hs, ?_, ?_⟩
  · intro i token now row _ _ hfind
    exact (hrotated.returned row.grant.client).tokens row (List.mem_of_find?_eq_some hfind)
      (Store.usable_live (List.find?_some hfind)) rfl
  · intro i g _ hg
    exact (hrotated.returned g.client).requests _ (List.mem_of_getElem? hg) g.root rfl

/-! ## A refresh across a rotation -/

/-- One client with the secret `old`. -/
def rotatingClient : TokenService Unit :=
  opening ["read".toList] (fun _ => some { secret := "old".toList }) fun _ => ["read".toList]

/-- The client has a refresh token `t` obtained with its first secret. -/
def obtainToken : List (TokenEvent Unit) :=
  [.join (.credentials () "old".toList []), .act 0 (.readClient false), .act 0 (.readScopes false),
    .act 0 (.sign false), .act 0 (.create "t".toList 100 false)]

/-- A refresh consumes `t`, the whole rotation takes place, and the refresh stores `u`.
Another refresh exchanges `u`. -/
def refreshAcross : List (TokenEvent Unit) :=
  [.join (.refreshing "t".toList), .act 1 (.consume 0 false), .join (.rotating () "new".toList),
    .act 2 (.rotate false), .act 2 (.revoke false), .act 2 .respond, .act 1 (.readClient false),
    .act 1 (.sign false), .act 1 (.create "u".toList 100 false), .join (.refreshing "u".toList),
    .act 3 (.consume 0 false), .act 3 (.readClient false), .act 3 (.sign false),
    .act 3 (.create "w".toList 100 false)]

/-- The rotation to version 1 has returned, and a token of version 0 is exchanged. -/
theorem refresh_outlives_rotation :
    (runs tokenStep rotatingClient (obtainToken ++ refreshAcross)).map
        (fun p => (p.shared.returned (), p.threads[3]?)) =
      some (1, some (.answered ⟨(), "read".toList, 0⟩ "w".toList)) := by
  decide +kernel

/-- The rotation begins after the refresh is over. -/
def refreshBefore : List (TokenEvent Unit) :=
  [.join (.refreshing "t".toList), .act 1 (.consume 0 false), .act 1 (.readClient false),
    .act 1 (.sign false), .act 1 (.create "u".toList 100 false), .join (.rotating () "new".toList),
    .act 2 (.rotate false), .act 2 (.revoke false), .act 2 .respond, .join (.refreshing "u".toList),
    .act 3 (.consume 0 false)]

theorem issues_current_after_rotation :
    Each tokenStep IssuesCurrent rotatingClient (obtainToken ++ refreshBefore) ∧
    (runs tokenStep rotatingClient (obtainToken ++ refreshBefore)).map (fun p => p.threads[3]?) =
      some (some (.refused (oauthError 400 "invalid_grant"
        "refresh token is invalid, expired or revoked"))) :=
  ⟨issues_current _ _ _ _ (by decide +kernel), by decide +kernel⟩

end DDAG.AuthService
