import DDAG.Connectors.Bind
import DDAG.Lib.Base64
import DDAG.Lib.Strings
import Mathlib.Data.Nat.Digits.Lemmas

/-!
# Keys and access tokens

`internal/auth/keys.go` and `internal/auth/jwt.go`.  A public key is published as a JSON Web Key, in
which its two numbers are bytes in base64, and is read back from it by whoever verifies tokens
(`jwkToPublic_publicToJWK`).

A token is modelled by its decoded header and claims and its signature.  The JWT library is a parameter,
with what its checks are known to do as fields (`JWT`).  Its signatures are ideal: what verifies under a
key was signed with it.  `parseAccessToken_eq_some` says what is accepted.
-/

namespace DDAG.Auth

/-! ## Public keys as JSON Web Keys -/

/-- `rsa.PublicKey`. -/
structure PublicKey where
  n : Nat
  e : Int
deriving DecidableEq

structure JWK where
  kty : Text
  kid : Text
  use : Text
  alg : Text
  n : Text
  e : Text
deriving DecidableEq

/-- `Bytes` of `big.Int`: the digits of the absolute value to base 256, the first not zero. -/
def bigBytes (n : Nat) : List UInt8 := ((Nat.digits 256 n).map UInt8.ofNat).reverse

/-- `SetBytes` of `big.Int`. -/
def setBytes (bs : List UInt8) : Nat := bs.foldl (fun n b => n * 256 + b.toNat) 0

def publicToJWK (kid : Text) (pub : PublicKey) : JWK where
  kty := "RSA".toList
  kid := kid
  use := "sig".toList
  alg := "RS256".toList
  n := Base64.rawURL.encode (bigBytes pub.n)
  e := Base64.rawURL.encode (bigBytes pub.e.natAbs)

/-- `none` is an error. -/
def jwkToPublic (j : JWK) : Option PublicKey :=
  if j.kty = "RSA".toList then do
    let nBytes ← Base64.rawURL.decode j.n
    let eBytes ← Base64.rawURL.decode j.e
    -- `Int64` keeps the low 64 bits
    return { n := setBytes nBytes, e := Int.bmod (setBytes eBytes) (2 ^ 64) }
  else none

theorem setBytes_reverse {ds : List Nat} (h : ∀ d ∈ ds, d < 256) :
    setBytes (ds.map UInt8.ofNat).reverse = Nat.ofDigits 256 ds := by
  induction ds with
  | nil => rfl
  | cons d ds ih =>
      have hd : (UInt8.ofNat d).toNat = d := by
        rw [UInt8.toNat_ofNat', Nat.mod_eq_of_lt (h d List.mem_cons_self)]
      have hds := ih fun d' hd' => h d' (List.mem_cons_of_mem d hd')
      rw [List.map_cons, List.reverse_cons, setBytes, List.foldl_append, Nat.ofDigits_cons, ← hds]
      simp only [List.foldl_cons, List.foldl_nil, hd, setBytes]
      omega

theorem setBytes_bigBytes (n : Nat) : setBytes (bigBytes n) = n := by
  rw [bigBytes, setBytes_reverse fun d hd => Nat.digits_lt_base (by decide) hd, Nat.ofDigits_digits]

/-- The exponent is one that an `int64` holds, as that of every key which is generated or parsed. -/
def PublicKey.Valid (pub : PublicKey) : Prop := 0 ≤ pub.e ∧ pub.e < 2 ^ 63

/-- A key is read back from its JSON Web Key. -/
theorem jwkToPublic_publicToJWK (kid : Text) {pub : PublicKey} (h : pub.Valid) :
    jwkToPublic (publicToJWK kid pub) = some pub := by
  have he : Int.bmod pub.e.natAbs (2 ^ 64) = pub.e := by
    rw [Int.natAbs_of_nonneg h.1]
    exact Int.bmod_eq_of_le (by have := h.1; omega) (by have := h.2; omega)
  have hkty : (publicToJWK kid pub).kty = "RSA".toList := rfl
  rw [jwkToPublic, if_pos hkty]
  simp only [publicToJWK, Base64.Encoding.decode_encode, Option.bind_eq_bind, Option.bind_some, setBytes_bigBytes, he]
  rfl

/-! ## Tokens -/

/-- Times are seconds. -/
structure AccessClaims where
  scope : Text
  clientID : Text
  issuer : Text
  subject : Text
  issuedAt : Option Int
  notBefore : Option Int
  expiresAt : Option Int
  id : Text
  audience : List Text
deriving DecidableEq

/-- What is signed: the header and the claims. -/
structure Message where
  alg : Text
  kid : Option Text
  claims : AccessClaims
deriving DecidableEq

structure Token (S : Type) extends Message where
  signature : S
deriving DecidableEq

/-- `time.Second`. -/
def second : Int := 1000000000

/-- `jwt.NewNumericDate`, which truncates to seconds. -/
def numericDate (t : Int) : Int := t / second

/-- What `IssueAccessToken` signs at the time `now`.  `random` is what `randHex` gives. -/
def accessMessage (kid issuer audience clientID scope : Text) (ttl now : Int) (random : Text) : Message where
  alg := "RS256".toList
  kid := some kid
  claims := {
    scope := scope
    clientID := clientID
    issuer := issuer
    subject := clientID
    issuedAt := some (numericDate now)
    notBefore := some (numericDate now)
    expiresAt := some (numericDate (now + ttl))
    id := "at-".toList ++ random
    audience := [audience] }

structure TokenValidation where
  issuer : Text
  audience : Text
  clockSkew : Int

def TokenValidation.leeway (v : TokenValidation) : Int := if 0 < v.clockSkew then v.clockSkew else 0

/-- What the options of `ParseAccessTokenWithValidation` ask of the parser. -/
structure ParserOptions where
  validMethods : List Text
  issuer : Option Text
  audience : Option Text
  leeway : Int

def TokenValidation.options (v : TokenValidation) : ParserOptions where
  validMethods := ["RS256".toList]
  issuer := if v.issuer = [] then none else some v.issuer
  audience := if v.audience = [] then none else some v.audience
  leeway := v.leeway

/-- What is used of the JWT library. -/
structure JWT (S : Type) where
  sign : PublicKey → Message → S
  /-- Verification, when these messages have been signed so far. -/
  verify : List (PublicKey × Message) → PublicKey → Token S → Bool
  validate : ParserOptions → Int → AccessClaims → Bool
  verify_iff : ∀ signed key t, verify signed key t = true ↔
    (key, t.toMessage) ∈ signed ∧ t.signature = sign key t.toMessage
  /-- Times that a token does not have are not checked. -/
  validate_iff : ∀ o now c, validate o now c = true ↔
    (∀ t ∈ c.notBefore, t * second - o.leeway ≤ now) ∧ (∀ t ∈ c.expiresAt, now < t * second + o.leeway) ∧
      (∀ a ∈ o.audience, a ∈ c.audience) ∧ ∀ i ∈ o.issuer, i = c.issuer

section Verification

variable {S : Type} (jwt : JWT S) (signed : List (PublicKey × Message))

/-- `ParseAccessTokenWithValidation`.  `none` is an error. -/
def parseAccessToken (keyfunc : Text → Option PublicKey) (v : TokenValidation) (now : Int) (t : Token S) :
    Option AccessClaims :=
  if Strings.isOneOf v.options.validMethods t.alg then
    -- a `kid` that is not a string is the empty one
    match keyfunc (t.kid.getD []) with
    | none => none
    | some key =>
        if jwt.verify signed key t && jwt.validate v.options now t.claims then some t.claims else none
  else none

variable {jwt signed}

theorem parseAccessToken_eq_some {keyfunc : Text → Option PublicKey} {v : TokenValidation} {now : Int}
    {t : Token S} {c : AccessClaims} :
    parseAccessToken jwt signed keyfunc v now t = some c ↔
      t.alg = "RS256".toList ∧ t.claims = c ∧ jwt.validate v.options now c = true ∧
        ∃ key, keyfunc (t.kid.getD []) = some key ∧ (key, t.toMessage) ∈ signed ∧
          t.signature = jwt.sign key t.toMessage := by
  have hmethod : Strings.isOneOf v.options.validMethods t.alg = true ↔ t.alg = "RS256".toList :=
    Strings.isOneOf_iff.trans List.mem_singleton
  unfold parseAccessToken
  split
  next halg =>
    split
    next hnone => simp [hnone]
    next key hkey =>
      simp only [hkey, Bool.and_eq_true, jwt.verify_iff, Option.ite_none_right_eq_some, Option.some.injEq,
        hmethod.mp halg, true_and]
      constructor
      · rintro ⟨⟨⟨hmem, hsig⟩, hvalid⟩, rfl⟩
        exact ⟨rfl, hvalid, key, rfl, hmem, hsig⟩
      · rintro ⟨rfl, hvalid, key', rfl, hmem, hsig⟩
        exact ⟨⟨⟨hmem, hsig⟩, hvalid⟩, rfl⟩
  next halg => exact iff_of_false (Option.some_ne_none c).symm fun h => halg (hmethod.mpr h.1)

end Verification

/-- When the claims of an issued token are valid. -/
theorem validate_accessMessage {S : Type} (jwt : JWT S) (v : TokenValidation) (t : Int)
    (kid issuer audience clientID scope : Text) (ttl now : Int) (random : Text) :
    jwt.validate v.options t (accessMessage kid issuer audience clientID scope ttl now random).claims = true ↔
      numericDate now * second - v.leeway ≤ t ∧ t < numericDate (now + ttl) * second + v.leeway ∧
        (v.audience = [] ∨ v.audience = audience) ∧ (v.issuer = [] ∨ v.issuer = issuer) := by
  have hset (x y : Text) : (∀ a ∈ (if x = [] then none else some x), a = y) ↔ x = [] ∨ x = y := by
    by_cases hx : x = [] <;> simp [hx]
  rw [jwt.validate_iff]
  simp only [TokenValidation.options, accessMessage, Option.mem_some_iff, forall_eq', List.mem_singleton, hset]

end DDAG.Auth
