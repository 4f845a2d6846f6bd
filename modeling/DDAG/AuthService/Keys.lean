import DDAG.Connectors.Bind
import DDAG.Lib.Pool
import DDAG.Lib.Strings
import DDAG.Lib.Trace

/-!
# Signing keys of several replicas

`loadKeyManager` of `internal/authservice/keys.go`, run by any number of replicas against
one table of signing keys.  A replica looks for a current key, generates one if it finds
none or fails to look, reads the current key, and reads all keys.  Each of these is one
statement of the store, and the replicas take them in any interleaving.  After that a
replica never reads the table again.

`Published` says that, when all replicas have started, each of them publishes the key
that any of them signs with.  It holds along a run in which no key is inserted after a
replica has read all keys (`signers_published`).  Otherwise two replicas that start on an
empty table may each sign with a key of their own (`second_key_unpublished`).
-/

namespace DDAG.AuthService

open Machine

/-! ## The table and the replicas -/

/-- A row of `jwt_signing_keys`.  Its PEM texts are those of a generated key. -/
structure SigningKey where
  kid : Text
  createdAt : Int
  active : Bool := true
deriving DecidableEq

abbrev SigningKeys := List SigningKey

/-- The key is the newest active one, or one of them. -/
def SigningKeys.isCurrent (keys : SigningKeys) (k : SigningKey) : Bool :=
  k ∈ keys && k.active && keys.all fun other => !other.active || other.createdAt ≤ k.createdAt

/-- There is no active key, so that `CurrentSigningKey` finds no row. -/
def SigningKeys.noCurrent (keys : SigningKeys) : Bool := keys.all fun k => !k.active

def SigningKeys.kids (keys : SigningKeys) : List Text := keys.map SigningKey.kid

structure KeyManager where
  signKID : Text
  /-- The ids of the keys it verifies with. -/
  verify : List Text
deriving DecidableEq

def KeyManager.signer (m : KeyManager) : Text := m.signKID

def KeyManager.jwks (m : KeyManager) : List Text := m.verify

/-- How far a replica is. -/
inductive Replica where
  | checking
  | generating
  | loading
  /-- `reload` has read the current key. -/
  | reading (signKID : Text)
  | started (m : KeyManager)
  | failed
deriving DecidableEq

def Replica.manager : Replica → Option KeyManager
  | .started m => some m
  | _ => none

inductive LoadStep where
  /-- `CurrentSigningKey` of `loadKeyManager`, which may fail. -/
  | check (err : Bool)
  /-- `CreateSigningKey`, with the id and the time of the new key. -/
  | insert (kid : Text) (createdAt : Int)
  /-- `CurrentSigningKey` of `reload`, with the row it finds. -/
  | readCurrent (row : Option SigningKey)
  /-- `AllSigningKeys`. -/
  | readAll
  | fail

/-- One statement of `loadKeyManager`. -/
def loadAct (keys : SigningKeys) : Replica → LoadStep → Option (SigningKeys × Replica)
  | .checking, .check err =>
      if err || keys.noCurrent then some (keys, .generating) else some (keys, .loading)
  | .generating, .insert kid createdAt =>
      -- The ids of the table are unique.
      if Strings.isOneOf keys.kids kid then some (keys, .failed)
      else some (keys ++ [{ kid := kid, createdAt := createdAt }], .loading)
  | .loading, .readCurrent (some k) =>
      if keys.isCurrent k then some (keys, .reading k.kid) else none
  | .loading, .readCurrent none => if keys.noCurrent then some (keys, .failed) else none
  | .reading signKID, .readAll => some (keys, .started ⟨signKID, keys.kids⟩)
  | .started _, .fail => none
  | _, .fail => some (keys, .failed)
  | _, _ => none

abbrev Fleet := Pool SigningKeys Replica

def loadStep (p : Fleet) (e : PoolEvent Replica LoadStep) : Option Fleet :=
  poolStep (fun r => r = .checking) loadAct p e

def fleet (keys : SigningKeys) : Fleet := { shared := keys, threads := [] }

/-! ## What is published -/

/-- Once all replicas have started, each publishes every key that one signs with. -/
def Published (p : Fleet) : Prop :=
  (∀ r ∈ p.threads, ∃ m, r = .started m) →
    ∀ m m', .started m ∈ p.threads → .started m' ∈ p.threads → m.signer ∈ m'.jwks

/-- A key is inserted only while no replica has read all keys. -/
def InTime (p : Fleet) : PoolEvent Replica LoadStep → Prop
  | .act _ (.insert _ _) => ∀ r ∈ p.threads, r.manager = none
  | _ => True

instance (p : Fleet) (e : PoolEvent Replica LoadStep) : Decidable (InTime p e) :=
  match e with
  | .act _ (.insert _ _) => inferInstanceAs (Decidable (∀ r ∈ p.threads, r.manager = none))
  | .act _ (.check _) => .isTrue trivial
  | .act _ (.readCurrent _) => .isTrue trivial
  | .act _ .readAll => .isTrue trivial
  | .act _ .fail => .isTrue trivial
  | .join _ => .isTrue trivial

/-- What a statement does. -/
inductive Loads (keys : SigningKeys) : Replica → LoadStep → SigningKeys → Replica → Prop where
  | checked (err : Bool) (found : Bool) :
      Loads keys .checking (.check err) keys (if found then .loading else .generating)
  | inserted (kid : Text) (createdAt : Int) :
      Loads keys .generating (.insert kid createdAt)
        (keys ++ [{ kid := kid, createdAt := createdAt }]) .loading
  | readCurrent (k : SigningKey) (hmem : k ∈ keys) :
      Loads keys .loading (.readCurrent (some k)) keys (.reading k.kid)
  | readAll (signKID : Text) :
      Loads keys (.reading signKID) .readAll keys (.started ⟨signKID, keys.kids⟩)
  | failed (r : Replica) (a : LoadStep) : Loads keys r a keys .failed

theorem loadAct_cases {keys keys' : SigningKeys} {r r' : Replica} {a : LoadStep}
    (h : loadAct keys r a = some (keys', r')) : Loads keys r a keys' r' := by
  unfold loadAct at h
  split at h
  next err =>
    split at h
    next _ =>
      cases h
      exact .checked err false
    next _ =>
      cases h
      exact .checked err true
  next kid createdAt =>
    split at h
    next _ =>
      cases h
      exact .failed _ _
    next _ =>
      cases h
      exact .inserted kid createdAt
  next k =>
    split at h
    next hcurrent =>
      cases h
      simp only [SigningKeys.isCurrent, Bool.and_eq_true, decide_eq_true_iff] at hcurrent
      exact .readCurrent k hcurrent.1.1
    next _ => cases h
  next =>
    split at h
    next _ =>
      cases h
      exact .failed _ _
    next _ => cases h
  next signKID =>
    cases h
    exact .readAll signKID
  next => cases h
  next =>
    cases h
    exact .failed _ _
  next => cases h

/-- The replica signs with a key of the table, and if it has started it publishes the whole
table. -/
def Replica.Current (keys : SigningKeys) : Replica → Prop
  | .reading signKID => signKID ∈ keys.kids
  | .started m => m.signKID ∈ keys.kids ∧ ∀ kid ∈ keys.kids, kid ∈ m.verify
  | _ => True

theorem Replica.Current.append {keys : SigningKeys} {r : Replica} (h : r.Current keys)
    (hmanager : r.manager = none) (k : SigningKey) : r.Current (keys ++ [k]) := by
  cases r with
  | reading signKID =>
      rw [Replica.Current, SigningKeys.kids, List.map_append]
      exact List.mem_append_left _ h
  | started m => cases hmanager
  | checking => trivial
  | generating => trivial
  | loading => trivial
  | failed => trivial

theorem current_step {p p' : Fleet} {e : PoolEvent Replica LoadStep}
    (h : ∀ r ∈ p.threads, r.Current p.shared) (hearly : InTime p e) (hs : loadStep p e = some p') :
    ∀ r ∈ p'.threads, r.Current p'.shared := by
  rcases poolStep_cases hs with ⟨r, rfl, hnew, rfl⟩ | ⟨i, a, r, keys', r', rfl, hr, hact, rfl⟩
  · refine forall_mem_join h ?_
    rw [of_decide_eq_true hnew]
    trivial
  · have hbefore := h r (List.mem_of_getElem? hr)
    cases loadAct_cases hact with
    | checked err found =>
        refine forall_mem_set h ?_
        cases found with
        | true => trivial
        | false => trivial
    | inserted kid createdAt =>
        refine forall_mem_set ?_ trivial
        intro other hother
        exact (h other hother).append (hearly other hother) _
    | readCurrent k hmem => exact forall_mem_set h (List.mem_map_of_mem hmem)
    | readAll signKID => exact forall_mem_set h ⟨hbefore, fun _ hkid => hkid⟩
    | failed => exact forall_mem_set h trivial

/-- Along a run in which no key is inserted after a replica has read all keys, whenever all
replicas have started each of them publishes the keys that all of them sign with. -/
theorem signers_published (keys : SigningKeys) (es : List (PoolEvent Replica LoadStep))
    (hearly : Each loadStep InTime (fleet keys) es) : Along loadStep Published (fleet keys) es := by
  have hcurrent : Along loadStep (fun p => ∀ r ∈ p.threads, r.Current p.shared) (fleet keys) es :=
    Along.of_each current_step nofun hearly
  refine hcurrent.mono ?_
  intro p hp _ m m' hm hm'
  exact (hp _ hm').2 _ (hp _ hm).1

/-! ## Two replicas on an empty table -/

/-- Both replicas find no key.  The first inserts one and starts, then the second inserts
one of its own. -/
def bothGenerate : List (PoolEvent Replica LoadStep) :=
  [.join .checking, .join .checking, .act 0 (.check false), .act 1 (.check false),
    .act 0 (.insert "ddag-a".toList 1), .act 0 (.readCurrent (some { kid := "ddag-a".toList, createdAt := 1 })),
    .act 0 .readAll, .act 1 (.insert "ddag-b".toList 2),
    .act 1 (.readCurrent (some { kid := "ddag-b".toList, createdAt := 2 })), .act 1 .readAll]

/-- Both have started, and the first does not publish the key the second signs with. -/
theorem second_key_unpublished :
    (runs loadStep (fleet []) bothGenerate).map (fun p => p.threads) =
      some [.started ⟨"ddag-a".toList, ["ddag-a".toList]⟩,
        .started ⟨"ddag-b".toList, ["ddag-a".toList, "ddag-b".toList]⟩] := by
  decide

/-- The second replica looks for a key after the first has inserted one. -/
def oneGenerates : List (PoolEvent Replica LoadStep) :=
  [.join .checking, .join .checking, .act 0 (.check false), .act 0 (.insert "ddag-a".toList 1),
    .act 1 (.check false), .act 0 (.readCurrent (some { kid := "ddag-a".toList, createdAt := 1 })),
    .act 0 .readAll, .act 1 (.readCurrent (some { kid := "ddag-a".toList, createdAt := 1 })),
    .act 1 .readAll]

theorem signers_published_of_one_key :
    Along loadStep Published (fleet []) oneGenerates ∧
    (runs loadStep (fleet []) oneGenerates).map (fun p => p.threads) =
      some [.started ⟨"ddag-a".toList, ["ddag-a".toList]⟩,
        .started ⟨"ddag-a".toList, ["ddag-a".toList]⟩] :=
  ⟨signers_published [] oneGenerates (by decide), by decide⟩

end DDAG.AuthService
