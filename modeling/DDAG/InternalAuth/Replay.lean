import DDAG.Connectors.Bind
import DDAG.Lib.Redis
import DDAG.Lib.Strings
import Mathlib.Data.List.Nodup

/-!
# Signed requests and their nonces

`internal/internalauth/auth.go`: a request between services carries a timestamp, a nonce
and a signature over both.  The receiver accepts a timestamp near its own clock and has a
store, which all replicas share, consume the nonce.

Times are integers, in nanoseconds, and all services read one clock.  The hash functions
are parameters.  A `ReplayStore` is what the package asks of a store: a nonce that was
consumed is refused for its lifetime.  `redisReplayStore` is one.

`accepted_at_most_once` says that of all calls that verify one signed request at most one
succeeds: the lifetime of its nonce is the whole time in which its timestamp is accepted.
-/

namespace DDAG.InternalAuth

/-! ## Times -/

def second : Int := 1000000000

/-- `time.Duration`: a number of nanoseconds of 64 bits. -/
structure Duration where
  ns : Int
  lower : -2 ^ 63 ≤ ns
  upper : ns < 2 ^ 63

/-- The product `d * 2`, which wraps around. -/
def Duration.double (d : Duration) : Duration where
  ns := (d.ns * 2).bmod (2 ^ 64)
  lower := by
    have h : -(((2 ^ 64 : Nat) : Int) / 2) ≤ (d.ns * 2).bmod (2 ^ 64) := Int.le_bmod (by decide)
    omega
  upper := by
    have h : (d.ns * 2).bmod (2 ^ 64) < (((2 ^ 64 : Nat) : Int) + 1) / 2 := Int.bmod_lt (by decide)
    omega

theorem Duration.double_ns {d : Duration} (hpos : 0 < d.ns) (hdouble : 0 < d.double.ns) :
    d.double.ns = d.ns * 2 := by
  have hupper := d.upper
  unfold Duration.double at hdouble ⊢
  dsimp only at hdouble ⊢
  rw [Int.bmod_def] at hdouble ⊢
  split at hdouble
  next hsmall =>
    rw [if_pos hsmall]
    omega
  next hlarge => omega

/-- An instant with a Unix second of 64 bits. -/
structure Time where
  ns : Int
  lower : -2 ^ 63 ≤ ns / second
  upper : ns / second < 2 ^ 63

/-- `now.UTC().Unix()`. -/
def Time.unix (t : Time) : Int := t.ns / second

/-- The signing time is too early or too late for the clock. -/
def outsideSkew (signedAt now : Int) (maxSkew : Duration) : Bool :=
  signedAt < now - maxSkew.ns || now + maxSkew.ns < signedAt

/-! ## Signatures -/

/-- The hash functions, with their results in hexadecimal. -/
structure Hash (β : Type*) where
  /-- SHA-256 of a body. -/
  digest : β → Text
  /-- HMAC-SHA-256 of a text with a secret. -/
  mac : Text → Text → Text
  mac_ne_nil : ∀ secret text, mac secret text ≠ []

/-- What the package reads of a request.  A header that is missing is empty. -/
structure Request where
  method : Text
  path : Text
  requestID : Text
  timestamp : Text := []
  nonce : Text := []
  signature : Text := []
deriving DecidableEq

section Signatures

variable {β : Type*} (hash : Hash β)

def signature (req : Request) (body : β) (secret ts : Text) : Text :=
  let path := if req.path = [] then "/".toList else req.path
  hash.mac secret
    (Strings.join [req.method, path, req.requestID, ts, req.nonce, hash.digest body] "\n".toList)

/-- `SignHeaders`, with the nonce it draws. -/
def signHeaders (req : Request) (body : β) (secret nonce : Text) (now : Time) : Request :=
  let ts := Strings.decimalInt now.unix
  let req := { req with nonce := nonce, timestamp := ts }
  { req with signature := signature hash req body secret ts }

def verifySignature (req : Request) (body : β) (secret : Text) (now : Int) (maxSkew : Duration) :
    Except Text Unit :=
  if Strings.trimSpace secret = [] then .error "internal auth secret is required".toList
  else if req.timestamp = [] ∨ req.signature = [] ∨ req.nonce = [] then
    .error "missing internal auth headers".toList
  else
    match Strings.parseInt req.timestamp with
    | none => .error "invalid internal auth timestamp".toList
    | some sec =>
        if 0 < maxSkew.ns ∧ outsideSkew (sec * second) now maxSkew then
          .error "internal auth timestamp outside allowed skew".toList
        else if req.signature ≠ signature hash req body secret req.timestamp then
          .error "invalid internal auth signature".toList
        else .ok ()

/-- A request is accepted near the second it names. -/
theorem verifySignature_window {req : Request} {body : β} {secret : Text} {now : Int} {maxSkew : Duration}
    (hpos : 0 < maxSkew.ns) (h : verifySignature hash req body secret now maxSkew = .ok ()) :
    ∃ sec, Strings.parseInt req.timestamp = some sec ∧ now - maxSkew.ns ≤ sec * second ∧
      sec * second ≤ now + maxSkew.ns := by
  unfold verifySignature at h
  split at h
  next _ => cases h
  next _ =>
    split at h
    next _ => cases h
    next _ =>
      split at h
      next _ => cases h
      next sec hsec =>
        split at h
        next _ => cases h
        next hwithin =>
          have hskew : outsideSkew (sec * second) now maxSkew = false := by
            simpa [hpos] using hwithin
          rw [outsideSkew, Bool.or_eq_false_iff, decide_eq_false_iff_not, decide_eq_false_iff_not,
            Int.not_lt, Int.not_lt] at hskew
          exact ⟨sec, hsec, hskew⟩

end Signatures

/-! ## Replay stores -/

/-- How a call to a store goes. -/
inductive Reach where
  | answered
  /-- The store is not reached. -/
  | unreachable
  /-- The store acts and its answer is lost. -/
  | lost

/-- A store that consumes nonces.  `useNonce nonce ttl now` is one atomic call. -/
structure ReplayStore (σ : Type*) where
  useNonce : σ → Text → Duration → Int → Reach → Except Text Bool × σ
  /-- The store refuses the nonce from the first time to the second, both included. -/
  Refuses : σ → Text → Int → Int → Prop
  positive : ∀ s nonce ttl now reach,
    (useNonce s nonce ttl now reach).1 = .ok true → 0 < ttl.ns
  consumed : ∀ s nonce ttl now reach,
    (useNonce s nonce ttl now reach).1 = .ok true →
      Refuses (useNonce s nonce ttl now reach).2 nonce now (now + ttl.ns)
  kept : ∀ s nonce first last nonce' ttl now reach,
    Refuses s nonce first last → Refuses (useNonce s nonce' ttl now reach).2 nonce first last
  refused : ∀ s nonce first last ttl now reach,
    Refuses s nonce first last → first ≤ now → now ≤ last →
      (useNonce s nonce ttl now reach).1 ≠ .ok true

abbrev Keys := Text → Redis.Entry

def nonceKey (nonce : Text) : Text := "ddag:internal-auth:nonce:".toList ++ nonce

/-- `RedisReplayStore.UseNonce`. -/
def redisUseNonce (r : Keys) (nonce : Text) (ttl : Duration) (now : Int) (reach : Reach) :
    Except Text Bool × Keys :=
  if ttl.ns ≤ 0 then (.error "replay nonce ttl must be positive".toList, r)
  else
    let (fresh, entry) := Redis.setNX now ttl.ns 1 (r (nonceKey nonce))
    match reach with
    | .answered => (.ok fresh, Function.update r (nonceKey nonce) entry)
    | .unreachable => (.error "connection refused".toList, r)
    | .lost => (.error "i/o timeout".toList, Function.update r (nonceKey nonce) entry)

theorem redisUseNonce_cases (r : Keys) (nonce : Text) (ttl : Duration) (now : Int) (reach : Reach) :
    (∃ err, redisUseNonce r nonce ttl now reach = (.error err, r)) ∨
    (0 < ttl.ns ∧ ∃ answer,
      redisUseNonce r nonce ttl now reach =
        (answer, Function.update r (nonceKey nonce) (Redis.setNX now ttl.ns 1 (r (nonceKey nonce))).2) ∧
      (answer = .ok true → (Redis.setNX now ttl.ns 1 (r (nonceKey nonce))).1 = true)) := by
  unfold redisUseNonce
  by_cases hpos : ttl.ns ≤ 0
  · exact .inl ⟨_, if_pos hpos⟩
  · rw [if_neg hpos]
    cases reach with
    | answered => exact .inr ⟨Int.not_le.1 hpos, _, rfl, Except.ok.inj⟩
    | unreachable => exact .inl ⟨_, rfl⟩
    | lost => exact .inr ⟨Int.not_le.1 hpos, _, rfl, nofun⟩

/-- Only a free nonce is consumed, and its key then lives for the lifetime. -/
theorem redisUseNonce_consumed {r : Keys} {nonce : Text} {ttl : Duration} {now : Int} {reach : Reach}
    (h : (redisUseNonce r nonce ttl now reach).1 = .ok true) :
    0 < ttl.ns ∧ (Redis.setNX now ttl.ns 1 (r (nonceKey nonce))).1 = true ∧
      Redis.LivesUntil (now + ttl.ns) ((redisUseNonce r nonce ttl now reach).2 (nonceKey nonce)) := by
  rcases redisUseNonce_cases r nonce ttl now reach with ⟨err, heq⟩ | ⟨hpos, answer, heq, hset⟩
  · rw [heq] at h
    cases h
  · rw [heq] at h ⊢
    refine ⟨hpos, hset h, ?_⟩
    dsimp only
    rw [Function.update_self]
    exact Redis.setNX_livesUntil (hset h)

def redisReplayStore : ReplayStore Keys where
  useNonce := redisUseNonce
  Refuses r nonce _ last := Redis.LivesUntil last (r (nonceKey nonce))
  positive _ _ _ _ _ h := (redisUseNonce_consumed h).1
  consumed _ _ _ _ _ h := (redisUseNonce_consumed h).2.2
  kept := by
    intro r nonce _ last nonce' ttl now reach hlives
    rcases redisUseNonce_cases r nonce' ttl now reach with ⟨err, heq⟩ | ⟨hpos, answer, heq, -⟩
    · rwa [heq]
    · rw [heq]
      dsimp only
      by_cases hkey : nonceKey nonce = nonceKey nonce'
      · rw [hkey] at hlives ⊢
        rw [Function.update_self]
        exact hlives.setNX hpos 1
      · rwa [Function.update_of_ne hkey]
  refused := by
    intro r nonce _ last ttl now reach hlives _ hlast hok
    have hset := (redisUseNonce_consumed hok).2.1
    rw [Redis.setNX, if_pos (hlives.alive hlast)] at hset
    cases hset

/-! ## Verification -/

section Verification

variable {β σ : Type*} (hash : Hash β) (store : ReplayStore σ) (maxSkew : Duration)

/-- `VerifyHeadersWithReplayStore`, at one instant.  A service without Redis has no store. -/
def verifyHeadersWithReplayStore (store : Option (ReplayStore σ)) (s : σ) (req : Request) (body : β)
    (secret : Text) (now : Int) (maxSkew : Duration) (reach : Reach) : Except Text Unit × σ :=
  match verifySignature hash req body secret now maxSkew with
  | .error err => (.error err, s)
  | .ok () =>
      match store with
      | none => (.error "internal auth replay store is required".toList, s)
      | some store =>
          match store.useNonce s req.nonce maxSkew.double now reach with
          | (.error err, s') => (.error ("consume internal auth nonce: ".toList ++ err), s')
          | (.ok false, s') => (.error "internal auth nonce replayed".toList, s')
          | (.ok true, s') => (.ok (), s')

/-- One call, by any replica. -/
structure Verification (β : Type*) where
  request : Request
  body : β
  secret : Text
  now : Int
  reach : Reach

/-- A call on the store the replicas share. -/
def Verification.run (v : Verification β) (s : σ) : Except Text Unit × σ :=
  verifyHeadersWithReplayStore hash (some store) s v.request v.body v.secret v.now maxSkew v.reach

/-- The calls that succeed, of calls made one after another. -/
def accepted : σ → List (Verification β) → List (Verification β)
  | _, [] => []
  | s, v :: vs =>
      let later := accepted (v.run hash store maxSkew s).2 vs
      match (v.run hash store maxSkew s).1 with
      | .ok () => v :: later
      | .error _ => later

/-- What a call can do. -/
inductive Verification.Runs (v : Verification β) (s : σ) : Except Text Unit × σ → Prop where
  | unsigned (err : Text) : v.Runs s (.error err, s)
  | replayed {s' : σ} (err : Text)
      (hused : (store.useNonce s v.request.nonce maxSkew.double v.now v.reach).2 = s') :
      v.Runs s (.error err, s')
  | accepted {s' : σ}
      (hsigned : verifySignature hash v.request v.body v.secret v.now maxSkew = .ok ())
      (hused : store.useNonce s v.request.nonce maxSkew.double v.now v.reach = (.ok true, s')) :
      v.Runs s (.ok (), s')

theorem Verification.run_cases (v : Verification β) (s : σ) :
    v.Runs hash store maxSkew s (v.run hash store maxSkew s) := by
  unfold Verification.run verifyHeadersWithReplayStore
  cases hsigned : verifySignature hash v.request v.body v.secret v.now maxSkew with
  | error err => exact .unsigned err
  | ok _ =>
      rcases hused : store.useNonce s v.request.nonce maxSkew.double v.now v.reach with
        ⟨err | fresh, s'⟩
      · simp only [hused]
        exact .replayed _ (congrArg Prod.snd hused)
      · cases fresh with
        | false =>
            simp only [hused]
            exact .replayed _ (congrArg Prod.snd hused)
        | true =>
            simp only [hused]
            exact .accepted hsigned hused

variable {hash store maxSkew}

namespace Verification.Runs

variable {v : Verification β} {s : σ} {out : Except Text Unit × σ}

/-- No call makes the store forget what it refuses. -/
theorem refuses (h : v.Runs hash store maxSkew s out) {nonce : Text} {first last : Int}
    (hrefuses : store.Refuses s nonce first last) : store.Refuses out.2 nonce first last := by
  have hkept := store.kept s nonce first last v.request.nonce maxSkew.double v.now v.reach hrefuses
  cases h with
  | unsigned err => exact hrefuses
  | replayed err hused =>
      rw [hused] at hkept
      exact hkept
  | accepted _ hused =>
      rw [hused] at hkept
      exact hkept

/-- A call that succeeds is made while the timestamp is accepted.  From then on the store
refuses the nonce until it no longer is. -/
theorem consumes (h : v.Runs hash store maxSkew s out) (hpos : 0 < maxSkew.ns)
    (hok : out.1 = .ok ()) :
    ∃ sec last, Strings.parseInt v.request.timestamp = some sec ∧ v.now ≤ sec * second + maxSkew.ns ∧
      sec * second + maxSkew.ns ≤ last ∧ store.Refuses out.2 v.request.nonce v.now last := by
  cases h with
  | unsigned err => cases hok
  | replayed err _ => cases hok
  | accepted hsigned hused =>
      obtain ⟨sec, hsec, hearly, hlate⟩ := verifySignature_window hash hpos hsigned
      have htrue := congrArg Prod.fst hused
      have hdouble := Duration.double_ns hpos (store.positive _ _ _ _ _ htrue)
      have hrefuses := store.consumed _ _ _ _ _ htrue
      rw [hused] at hrefuses
      -- The first use is at the earliest a skew before the signed second.
      exact ⟨sec, _, hsec, by omega, by omega, hrefuses⟩

theorem ne_ok_of_refuses (h : v.Runs hash store maxSkew s out) {first last : Int}
    (hrefuses : store.Refuses s v.request.nonce first last) (hfirst : first ≤ v.now)
    (hlast : v.now ≤ last) : out.1 ≠ .ok () := by
  intro hok
  cases h with
  | unsigned err => cases hok
  | replayed err _ => cases hok
  | accepted _ hused =>
      exact store.refused _ _ _ _ _ _ _ hrefuses hfirst hlast (congrArg Prod.fst hused)

end Verification.Runs

/-- While the store refuses a nonce for as long as its timestamp is accepted, no call on
its request succeeds. -/
theorem accepted_of_refuses {req : Request} {sec first last : Int} (hpos : 0 < maxSkew.ns)
    (hsec : Strings.parseInt req.timestamp = some sec) (hlast : sec * second + maxSkew.ns ≤ last)
    (vs : List (Verification β)) (s : σ) (hrefuses : store.Refuses s req.nonce first last)
    (hlater : ∀ v ∈ vs, first ≤ v.now) :
    ∀ v ∈ accepted hash store maxSkew s vs, v.request ≠ req := by
  induction vs generalizing s with
  | nil => intro v hv; cases hv
  | cons v vs ih =>
      have hruns := v.run_cases hash store maxSkew s
      have hnext := ih (v.run hash store maxSkew s).2 (hruns.refuses hrefuses)
        fun w hw => hlater w (List.mem_cons_of_mem v hw)
      unfold accepted
      cases hout : (v.run hash store maxSkew s).1 with
      | error err => exact hnext
      | ok _ =>
          intro w hw
          cases hw with
          | tail _ hmem => exact hnext w hmem
          | head =>
              rintro rfl
              obtain ⟨sec', _, hsec', hnow, _⟩ := hruns.consumes hpos hout
              rw [hsec] at hsec'
              cases hsec'
              have hfirst := hlater v List.mem_cons_self
              exact hruns.ne_ok_of_refuses hrefuses hfirst (by omega) hout

variable (hash store maxSkew)

/-- No two calls on one request succeed. -/
theorem nodup_accepted (hpos : 0 < maxSkew.ns) (vs : List (Verification β))
    (hordered : vs.Pairwise fun v w => v.now ≤ w.now) (s : σ) :
    ((accepted hash store maxSkew s vs).map Verification.request).Nodup := by
  induction vs generalizing s with
  | nil => exact List.nodup_nil
  | cons v vs ih =>
      obtain ⟨hlater, hrest⟩ := List.pairwise_cons.1 hordered
      have hruns := v.run_cases hash store maxSkew s
      have hnext := ih hrest (v.run hash store maxSkew s).2
      unfold accepted
      cases hout : (v.run hash store maxSkew s).1 with
      | error err => exact hnext
      | ok _ =>
          obtain ⟨sec, last, hsec, _, hlast, hrefuses⟩ := hruns.consumes hpos hout
          show ((v :: accepted hash store maxSkew _ vs).map Verification.request).Nodup
          rw [List.map_cons, List.nodup_cons, List.mem_map]
          refine ⟨?_, hnext⟩
          rintro ⟨w, hw, heq⟩
          exact accepted_of_refuses hpos hsec hlast vs _ hrefuses hlater w hw heq

/-- However often and wherever a signed request is verified, among whatever other calls,
at most one of the calls on it succeeds. -/
theorem accepted_at_most_once (req : Request) (body : β) (secret nonce : Text) (signedAt : Time)
    (hpos : 0 < maxSkew.ns) (vs : List (Verification β))
    (hordered : vs.Pairwise fun v w => v.now ≤ w.now) (s : σ) :
    ((accepted hash store maxSkew s vs).filter fun v =>
      v.request = signHeaders hash req body secret nonce signedAt).length ≤ 1 := by
  have honce := List.nodup_iff_count_le_one.1 (nodup_accepted hash store maxSkew hpos vs hordered s)
    (signHeaders hash req body secret nonce signedAt)
  rw [List.count, List.countP_map] at honce
  rw [← List.countP_eq_length_filter]
  exact honce

end Verification

/-- `time.Minute`. -/
def minute : Duration := ⟨60 * second, by decide, by decide⟩

/-- Stand-ins for the hash functions, to run the model with. -/
def plainHash : Hash Text := ⟨id, fun secret text => '#' :: (secret ++ text), nofun⟩

def sampleTime : Time := ⟨100 * second, by decide, by decide⟩

def sampleRequest : Request :=
  signHeaders plainHash { method := "POST".toList, path := "/query".toList, requestID := "r".toList }
    "SELECT 1".toList "k".toList "0a1b".toList sampleTime

def sampleCalls : List (Verification Text) :=
  [⟨sampleRequest, "SELECT 1".toList, "k".toList, 40 * second, .answered⟩,
   ⟨sampleRequest, "SELECT 1".toList, "k".toList, 160 * second, .answered⟩]

theorem accepted_at_most_once_at_both_ends :
    (accepted plainHash redisReplayStore minute (fun _ => none) sampleCalls).length = 1 ∧
    ((accepted plainHash redisReplayStore minute (fun _ => none) sampleCalls).filter fun v =>
      v.request = sampleRequest).length ≤ 1 :=
  ⟨by decide +kernel,
   accepted_at_most_once plainHash redisReplayStore minute _ _ _ _ _ (by decide) sampleCalls
    (by decide +kernel) _⟩

end DDAG.InternalAuth
