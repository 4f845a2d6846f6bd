import DDAG.Connector.Query
import DDAG.InternalAuth.Replay

/-!
# Deliveries of a signed RPC

`internal/grpcauth/auth.go`, and the check `grpcServer.Query` makes with it.  The
signature of an RPC covers its request id, the second it was signed in and the message.
Unlike the signature of an HTTP request it covers no nonce, and no store is asked.

`executed_at_most_once_iff` says what a message that is delivered several times needs to
be executed only once: that at most one delivery arrives within a minute of its second
and passes the other checks.
-/

namespace DDAG.GrpcAuth

open Connector InternalAuth
open Gateway (Value)

/-! ## Signatures -/

/-- The values the package reads of the metadata of a call, empty where one is missing. -/
structure Metadata where
  timestamp : Text
  signature : Text
  requestID : Text
deriving DecidableEq

section Signatures

variable {β : Type*} (hash : Hash β)

def signature (requestID : Text) (payload : β) (secret ts : Text) : Text :=
  hash.mac secret
    (Strings.join ["POST".toList, "/ddag.connector.v1.ConnectorService/Query".toList, requestID, ts,
      hash.digest payload] "\n".toList)

def outgoing (requestID : Text) (payload : β) (secret : Text) (now : Time) : Metadata :=
  let ts := Strings.decimalInt now.unix
  { timestamp := ts, signature := signature hash requestID payload secret ts, requestID := requestID }

def verify (md : Metadata) (requestID : Text) (payload : β) (secret : Text) (now : Int)
    (maxSkew : Duration) : Except Text Unit :=
  if Strings.trimSpace secret = [] then .error "internal auth secret is required".toList
  else if md.timestamp = [] ∨ md.signature = [] then
    .error "missing internal auth metadata".toList
  else
    match Strings.parseInt md.timestamp with
    | none => .error "invalid internal auth timestamp".toList
    | some sec =>
        if outsideSkew (sec * second) now maxSkew then
          .error "internal auth timestamp outside allowed skew".toList
        else if md.signature ≠ signature hash requestID payload secret md.timestamp then
          .error "invalid internal auth signature".toList
        else .ok ()

/-- Metadata with the signature of its message is verified near the second it names. -/
theorem verify_of_signature {md : Metadata} {requestID : Text} {payload : β} {secret : Text}
    {sec : Int} (hsecret : Strings.trimSpace secret ≠ []) (hpresent : md.timestamp ≠ [])
    (hsec : Strings.parseInt md.timestamp = some sec)
    (hsignature : md.signature = signature hash requestID payload secret md.timestamp) (now : Int)
    (maxSkew : Duration) :
    (verify hash md requestID payload secret now maxSkew).isOk =
      !outsideSkew (sec * second) now maxSkew := by
  have hsigned : md.signature ≠ [] := by
    rw [hsignature]
    exact hash.mac_ne_nil _ _
  unfold verify
  rw [if_neg hsecret, if_neg (not_or.2 ⟨hpresent, hsigned⟩), hsec]
  cases hskew : outsideSkew (sec * second) now maxSkew with
  | true => simp [hskew, Except.isOk, Except.toBool]
  | false => simp [hskew, hsignature, Except.isOk, Except.toBool]

/-- What `outgoing` signs is verified whenever the second it was signed in is near. -/
theorem verify_outgoing (requestID : Text) (payload : β) {secret : Text}
    (hsecret : Strings.trimSpace secret ≠ []) (signedAt : Time) (now : Int) (maxSkew : Duration) :
    (verify hash (outgoing hash requestID payload secret signedAt) requestID payload secret now
      maxSkew).isOk = !outsideSkew (signedAt.unix * second) now maxSkew := by
  have hlower : -2 ^ 63 ≤ signedAt.unix := signedAt.lower
  have hupper : signedAt.unix < 2 ^ 63 := signedAt.upper
  have hparse : Strings.parseInt (Strings.decimalInt signedAt.unix) = some signedAt.unix := by
    rw [Strings.parseInt_decimalInt, if_pos ⟨hlower, hupper⟩]
  exact verify_of_signature hash hsecret (Strings.decimalInt_ne_nil _) hparse rfl now maxSkew

end Signatures

/-! ## Deliveries -/

section Deliveries

variable {J β : Type*} (hash : Hash β) (marshal : GrpcRequest J → β)
  (decodeParams : J → Option (Table Value))

/-- A message with the metadata it was signed with. -/
structure Signed (J : Type*) where
  message : GrpcRequest J
  metadata : Metadata

def sign (m : GrpcRequest J) (secret : Text) (now : Time) : Signed J :=
  ⟨m, outgoing hash m.requestID (marshal m) secret now⟩

structure Delivery where
  now : Int
  visit : Visit

/-- `grpcServer.Query` checks the signature if it has a secret. -/
def authentic (signed : Signed J) (secret : Text) (now : Int) : Bool :=
  secret = [] || (verify hash signed.metadata signed.message.requestID (marshal signed.message) secret
    now minute).isOk

/-- `grpcServer.Query` on a delivery. -/
def Delivery.serve (d : Delivery) (signed : Signed J) (secret : Text) :
    Except Text Reply × List QueryRequest :=
  grpcServerQuery decodeParams
    { d.visit with authentic := authentic hash marshal signed secret d.now } signed.message

def Delivery.executed (d : Delivery) (signed : Signed J) (secret : Text) : Bool :=
  !(d.serve hash marshal decodeParams signed secret).2.isEmpty

/-- The delivery comes within a minute of the second the message was signed in. -/
def Delivery.timely (d : Delivery) (signedAt : Time) : Bool :=
  !outsideSkew (signedAt.unix * second) d.now minute

/-- Nothing but its signature can keep the delivery from being executed. -/
def Delivery.unhindered (d : Delivery) (m : GrpcRequest J) : Bool :=
  d.visit.resolution = .found true true && d.visit.allowed && d.visit.admitted &&
    d.visit.pool = none && (decodeParams m.parametersJson).isSome && d.visit.query.sent

variable {hash marshal decodeParams}

/-- A delivery is executed if it is authentic and nothing else hinders it. -/
theorem Delivery.executed_eq (d : Delivery) (signed : Signed J) (secret : Text) :
    d.executed hash marshal decodeParams signed secret =
      (authentic hash marshal signed secret d.now && d.unhindered decodeParams signed.message) := by
  have hiff : GrpcExecutes decodeParams
      { d.visit with authentic := authentic hash marshal signed secret d.now } signed.message ↔
      (authentic hash marshal signed secret d.now && d.unhindered decodeParams signed.message) = true := by
    simp only [Delivery.unhindered, Bool.and_eq_true, decide_eq_true_iff]
    constructor
    · intro ⟨hpasses, hdecode, hsent⟩
      exact ⟨hpasses.authentic, ⟨⟨⟨⟨hpasses.resolution, hpasses.allowed⟩, hpasses.admitted⟩,
        hpasses.pool⟩, hdecode⟩, hsent⟩
    · intro ⟨hauthentic, ⟨⟨⟨⟨hresolution, hallowed⟩, hadmitted⟩, hpool⟩, hdecode⟩, hsent⟩
      exact ⟨⟨hauthentic, hresolution, hallowed, hadmitted, hpool⟩, hdecode, hsent⟩
  unfold Delivery.executed Delivery.serve
  by_cases hexec : GrpcExecutes decodeParams
      { d.visit with authentic := authentic hash marshal signed secret d.now } signed.message
  · obtain ⟨params, hserved⟩ := grpcServerQuery_of_executes hexec
    rw [hserved, hiff.1 hexec]
    rfl
  · rw [grpcServerQuery_of_not_executes hexec, Bool.eq_false_iff.2 (mt hiff.2 hexec)]
    rfl

/-- With a secret, a message that was signed is authentic for a minute around its second. -/
theorem authentic_sign (m : GrpcRequest J) {secret : Text} (hsecret : Strings.trimSpace secret ≠ [])
    (signedAt : Time) (now : Int) :
    authentic hash marshal (sign hash marshal m secret signedAt) secret now =
      !outsideSkew (signedAt.unix * second) now minute := by
  have hnil : secret ≠ [] := fun h => hsecret (by rw [h]; rfl)
  rw [authentic, decide_eq_false hnil, Bool.false_or]
  exact verify_outgoing hash m.requestID (marshal m) hsecret signedAt now minute

/-- With a blank secret nothing is authentic. -/
theorem authentic_of_blank (signed : Signed J) {secret : Text} (hnil : secret ≠ [])
    (hblank : Strings.trimSpace secret = []) (now : Int) :
    authentic hash marshal signed secret now = false := by
  rw [authentic, decide_eq_false hnil, Bool.false_or, verify, if_pos hblank]
  rfl

variable (hash marshal decodeParams)

/-- A signed message is executed at most once exactly if at most one delivery comes within
a minute of the second it was signed in with nothing else to hinder it, or if the secret of
the services is blank. -/
theorem executed_at_most_once_iff (m : GrpcRequest J) (secret : Text) (henabled : secret ≠ [])
    (signedAt : Time) (ds : List Delivery) :
    (ds.filter fun d => d.executed hash marshal decodeParams (sign hash marshal m secret signedAt)
      secret).length ≤ 1 ↔
    Strings.trimSpace secret = [] ∨
      (ds.filter fun d => d.timely signedAt && d.unhindered decodeParams m).length ≤ 1 := by
  by_cases hblank : Strings.trimSpace secret = []
  · have hnone : (ds.filter fun d => d.executed hash marshal decodeParams
        (sign hash marshal m secret signedAt) secret) = [] := by
      rw [List.filter_eq_nil_iff]
      intro d _
      rw [d.executed_eq, authentic_of_blank _ henabled hblank, Bool.false_and]
      exact Bool.false_ne_true
    rw [hnone]
    exact iff_of_true (Nat.zero_le 1) (.inl hblank)
  · have hsame : (fun d : Delivery => d.executed hash marshal decodeParams
        (sign hash marshal m secret signedAt) secret) =
        fun d => d.timely signedAt && d.unhindered decodeParams m := by
      funext d
      rw [d.executed_eq, authentic_sign m hblank]
      rfl
    rw [hsame, or_iff_right hblank]

end Deliveries

/-! ## A message delivered twice -/

/-- A call that inserts an order. -/
def insertOrder : GrpcRequest Unit :=
  { requestID := "r".toList, connectionID := "c".toList
    queryTemplate := "INSERT INTO orders DEFAULT VALUES".toList, parametersJson := ()
    timeoutMS := 1000, limit := 0, offset := 0 }

def answeredAt (now : Int) : Delivery :=
  ⟨now, { dbType := "postgresql".toList, query := .rows ⟨1, 0, some "[]".toList⟩ }⟩

/-- Both deliveries of one signed message are executed, half a minute apart. -/
theorem delivered_twice_executes_twice :
    ([answeredAt (100 * second), answeredAt (130 * second)].filter fun d =>
      d.executed plainHash GrpcRequest.queryTemplate (fun _ => some fun _ => none)
        (sign plainHash GrpcRequest.queryTemplate insertOrder "k".toList sampleTime)
        "k".toList).length = 2 := by
  decide +kernel

/-- A second delivery after more than a minute is not executed. -/
theorem executed_at_most_once_when_late :
    ([answeredAt (100 * second), answeredAt (161 * second)].filter fun d =>
      d.executed plainHash GrpcRequest.queryTemplate (fun _ => some fun _ => none)
        (sign plainHash GrpcRequest.queryTemplate insertOrder "k".toList sampleTime)
        "k".toList).length ≤ 1 :=
  (executed_at_most_once_iff plainHash GrpcRequest.queryTemplate (fun _ => some fun _ => none)
    insertOrder "k".toList (by decide) sampleTime _).2 (.inr (by decide +kernel))

end DDAG.GrpcAuth
