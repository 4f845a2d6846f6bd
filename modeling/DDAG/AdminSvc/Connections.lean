import DDAG.AdminSvc.Lifecycle
import DDAG.Httpx
import DDAG.Store.Connections

/-!
# Updates of connections

`updateConnection` and `storeConnectionPassword` of `internal/adminsvc/handlers_connections.go`.  An
update with a new password writes to the store of secrets first and to the connection afterwards,
without a transaction around both.  Any of the operations may fail, and one that fails changes
nothing.

The effective configuration of a connection is its row with what the secret reference resolves to.
`update_atomic_iff` says when a request that is answered with an error has left it alone: exactly if
no password was stored on the way.
-/

namespace DDAG.AdminSvc

open Httpx
open Secret (UUID Secrets Entropy SecretError updateAct)
open Store (DatabaseConnection Connections StoreError)

/-! ## The source -/

structure ConnInput where
  name : Text
  databaseType : Text
  host : Text
  port : Int
  databaseName : Text
  serviceName : Text
  schemaName : Text
  username : Text
  password : Text
  sslMode : Text
  minPoolSize : Int
  maxPoolSize : Int
  connectionTimeoutMS : Int
  queryTimeoutMS : Int
  maxConnLifetimeMS : Int
  maxConnIdleMS : Int
  environment : Text
  status : Text
  tags : Option (List Text)

def defStr (s : Text) (default : String) : Text := if s = [] then default.toList else s

/-- `connFromInput`, with the id set.  Columns that an update does not set are empty. -/
def connFromInput (i : ConnInput) (id : UUID) : DatabaseConnection where
  id := id
  name := i.name
  databaseType := i.databaseType
  host := i.host
  port := i.port
  databaseName := i.databaseName
  serviceName := i.serviceName
  schemaName := i.schemaName
  username := i.username
  secretRef := none
  sslMode := defStr i.sslMode "disable"
  minPoolSize := defInt i.minPoolSize 2
  maxPoolSize := defInt i.maxPoolSize 10
  connectionTimeoutMS := defInt i.connectionTimeoutMS 5000
  queryTimeoutMS := defInt i.queryTimeoutMS 30000
  maxConnLifetimeMS := defInt i.maxConnLifetimeMS 3600000
  maxConnIdleMS := defInt i.maxConnIdleMS 1800000
  environment := defStr i.environment "dev"
  status := defStr i.status "active"
  tags := i.tags
  configVersion := 0
  lastHealthStatus := []
  lastHealthAt := none
  createdBy := none
  createdAt := 0
  updatedAt := 0

def storeErr : StoreError → APIError
  | .notFound => newError .notFound "resource not found"
  | .failed => newError .internal "internal error"

/-- What may fail in a request. -/
inductive StoreCall where
  | getConnection
  /-- `SELECT purpose` of `Update`. -/
  | selectPurpose
  /-- The random bytes of `sealV2`. -/
  | sealing
  | writeSecret
  | insertSecret
  | setConnectionSecret
  | deleteSecret
  | updateConnection
deriving DecidableEq

structure AdminDB (B : Type*) where
  connections : Connections
  secrets : Secrets B

variable {B : Type*} (scheme : Aead B) (master : B)

/-- What fails, and what a request gets from outside: the id of a new secret, random bytes, and
the times of the updates. -/
structure Circumstances where
  fails : StoreCall → Bool
  newID : UUID
  entropy : Entropy scheme
  secretSetAt : Int
  updatedAt : Int

variable {scheme} in
def getConnection (x : Circumstances scheme) (rows : Connections) (id : UUID) :
    Except StoreError DatabaseConnection :=
  if x.fails .getConnection then .error .failed else rows.getConnection id

variable {scheme} in
/-- `UpdateConnection`. -/
def writeConnection (x : Circumstances scheme) (rows : Connections) (c : DatabaseConnection) :
    Except StoreError Connections :=
  if x.fails .updateConnection then .error .failed else rows.updateConnection c x.updatedAt

/-- `Update` of the store of secrets: the purpose is read, and the row is written in place. -/
def updateSecret (x : Circumstances scheme) (s : Secrets B) (ref : UUID) (plaintext : B) : Option (Secrets B) :=
  if x.fails .selectPurpose then none
  else
    match s.table ref with
    | none => none
    | some row =>
        if x.fails .sealing || x.fails .writeSecret then none
        else
          (updateAct scheme master s
            { id := ref, plaintext := plaintext, entropy := x.entropy, phase := .sealing row.purpose }
            .write).map (·.1)

/-- `Put`.  The id is a primary key. -/
def putSecret (x : Circumstances scheme) (s : Secrets B) (plaintext : B) (purpose : Text) :
    Option (UUID × Secrets B) :=
  if x.fails .sealing || x.fails .insertSecret || (s.table x.newID).isSome then none
  else some (x.newID, s.put scheme master x.newID plaintext purpose x.entropy)

/-- The reference of a new secret, if there was none. -/
def storeConnectionPassword (x : Circumstances scheme) (s : Secrets B) (existing : DatabaseConnection)
    (password : Text) : Option (Option UUID × Secrets B) :=
  if password = [] then some (none, s)
  else
    match existing.secretRef with
    | some ref => (updateSecret scheme master x s ref (scheme.ofText password)).map fun s => (none, s)
    | none =>
        (putSecret scheme master x s (scheme.ofText password) "db_password".toList).map fun r => (some r.1, r.2)

/-- The part of `updateConnection` for a new password. -/
def rotatePassword (x : Circumstances scheme) (db : AdminDB B) (id : UUID) (existing : DatabaseConnection)
    (password : Text) : Except APIError Unit × AdminDB B :=
  if password = [] then (.ok (), db)
  else
    match storeConnectionPassword scheme master x db.secrets existing password with
    | none => (.error (newError .internal "failed to store secret"), db)
    | some (none, secrets) => (.ok (), { db with secrets := secrets })
    | some (some ref, secrets) =>
        if x.fails .setConnectionSecret then
          -- an error of `Delete` is ignored
          (.error (storeErr .failed),
            { db with secrets := if x.fails .deleteSecret then secrets else secrets.delete ref })
        else
          (.ok (), { connections := db.connections.setConnectionSecret id ref x.secretSetAt, secrets := secrets })

def updateConnection (x : Circumstances scheme) (db : AdminDB B) (id : UUID) (i : ConnInput) :
    Except APIError Unit × AdminDB B :=
  match getConnection x db.connections id with
  | .error err => (.error (storeErr err), db)
  | .ok existing =>
      match rotatePassword scheme master x db id existing i.password with
      | (.error err, db) => (.error err, db)
      | (.ok _, db) =>
          match writeConnection x db.connections (connFromInput i id) with
          | .error err => (.error (storeErr err), db)
          | .ok rows => (.ok (), { db with connections := rows })

/-! ## The effective configuration -/

/-- A row, with what its secret reference resolves to. -/
structure EffectiveConfig (B : Type*) where
  row : DatabaseConnection
  password : Option (Except SecretError B)

def AdminDB.effective (db : AdminDB B) (id : UUID) : Option (EffectiveConfig B) :=
  (db.connections.find? (·.id = id)).map fun row =>
    { row := row, password := row.secretRef.map (Secret.get scheme master db.secrets.table) }

/-- The request stores its password: in place of one that is another, or as a new secret that the
connection gets. -/
inductive StoresPassword (x : Circumstances scheme) (db : AdminDB B) (id : UUID) (password : Text) : Prop
  | inPlace {existing : DatabaseConnection} {ref : UUID} {row : Secret.Row B}
      (hexisting : getConnection x db.connections id = .ok existing) (hpassword : password ≠ [])
      (href : existing.secretRef = some ref) (hselect : x.fails .selectPurpose = false)
      (hrow : db.secrets.table ref = some row) (hsealing : x.fails .sealing = false)
      (hwrite : x.fails .writeSecret = false)
      (hother : Secret.get scheme master db.secrets.table ref ≠ .ok (scheme.ofText password))
  | attached {existing : DatabaseConnection} (hexisting : getConnection x db.connections id = .ok existing)
      (hpassword : password ≠ []) (href : existing.secretRef = none) (hsealing : x.fails .sealing = false)
      (hinsert : x.fails .insertSecret = false) (hnew : db.secrets.table x.newID = none)
      (hset : x.fails .setConnectionSecret = false)

/-! ## What a new password changes -/

section Rotation

variable {scheme master} {x : Circumstances scheme} {db : AdminDB B} {id : UUID}

theorem get_updateSecret {s s' : Secrets B} {ref : UUID} {plaintext : B}
    (h : updateSecret scheme master x s ref plaintext = some s') :
    (∃ row, s.table ref = some row) ∧ x.fails .selectPurpose = false ∧ x.fails .sealing = false ∧
      x.fails .writeSecret = false ∧ Secret.get scheme master s'.table ref = .ok plaintext := by
  unfold updateSecret at h
  split at h
  next _ => cases h
  next hselect =>
    split at h
    next _ => cases h
    next row hrow =>
      split at h
      next _ => cases h
      next hfails =>
        rw [Bool.or_eq_true, not_or, Bool.not_eq_true, Bool.not_eq_true] at hfails
        simp only [updateAct, hrow, Option.map_some, Option.some.injEq] at h
        subst h
        refine ⟨⟨row, hrow⟩, Bool.not_eq_true _ ▸ hselect, hfails.1, hfails.2, ?_⟩
        exact (Secret.Holds.v2 x.entropy rfl rfl).get (Function.update_self ..)

/-- How `rotatePassword` ends, and what it leaves behind. -/
inductive PasswordStep (scheme : Aead B) (master : B) (x : Circumstances scheme) (db : AdminDB B) (id : UUID)
    (existing : DatabaseConnection) (password : Text) : Except APIError Unit → AdminDB B → Prop
  | kept (hempty : password = []) : PasswordStep scheme master x db id existing password (.ok ()) db
  | refused {err : APIError}
      (hrefused : storeConnectionPassword scheme master x db.secrets existing password = none) :
      PasswordStep scheme master x db id existing password (.error err) db
  | inPlace {ref : UUID} {row : Secret.Row B} {s' : Secrets B} (hpassword : password ≠ [])
      (href : existing.secretRef = some ref) (hselect : x.fails .selectPurpose = false)
      (hrow : db.secrets.table ref = some row) (hsealing : x.fails .sealing = false)
      (hwrite : x.fails .writeSecret = false)
      (hget : Secret.get scheme master s'.table ref = .ok (scheme.ofText password)) :
      PasswordStep scheme master x db id existing password (.ok ()) { db with secrets := s' }
  /-- The new secret does not get to the connection, and may be deleted again. -/
  | withdrawn {err : APIError} {s' : Secrets B} (href : existing.secretRef = none)
      (hset : x.fails .setConnectionSecret = true) :
      PasswordStep scheme master x db id existing password (.error err) { db with secrets := s' }
  | attached {s' : Secrets B} (hpassword : password ≠ []) (href : existing.secretRef = none)
      (hsealing : x.fails .sealing = false) (hinsert : x.fails .insertSecret = false)
      (hnew : db.secrets.table x.newID = none) (hset : x.fails .setConnectionSecret = false) :
      PasswordStep scheme master x db id existing password (.ok ())
        { connections := db.connections.setConnectionSecret id x.newID x.secretSetAt, secrets := s' }

theorem putSecret_eq_some {s s' : Secrets B} {plaintext : B} {purpose : Text} {ref : UUID}
    (h : putSecret scheme master x s plaintext purpose = some (ref, s')) :
    ref = x.newID ∧ x.fails .sealing = false ∧ x.fails .insertSecret = false ∧ s.table x.newID = none := by
  unfold putSecret at h
  split at h
  next _ => cases h
  next hfails =>
    cases h
    simpa [and_assoc] using hfails

variable (scheme master x db id) in
theorem passwordStep_rotatePassword (existing : DatabaseConnection) (password : Text) :
    PasswordStep scheme master x db id existing password
      (rotatePassword scheme master x db id existing password).1
      (rotatePassword scheme master x db id existing password).2 := by
  unfold rotatePassword
  split
  next hempty => exact .kept hempty
  next hpassword =>
    split
    next hrefused => exact .refused hrefused
    next secrets hstored =>
      -- no new reference: the secret was written in place
      rw [storeConnectionPassword, if_neg hpassword] at hstored
      split at hstored
      next ref href =>
        obtain ⟨s', hupdate, heq⟩ := Option.map_eq_some_iff.mp hstored
        cases heq
        obtain ⟨⟨row, hrow⟩, hselect, hsealing, hwrite, hget⟩ := get_updateSecret hupdate
        exact .inPlace hpassword href hselect hrow hsealing hwrite hget
      next _ =>
        obtain ⟨r, -, heq⟩ := Option.map_eq_some_iff.mp hstored
        cases heq
    next ref secrets hstored =>
      rw [storeConnectionPassword, if_neg hpassword] at hstored
      split at hstored
      next _ =>
        obtain ⟨s', -, heq⟩ := Option.map_eq_some_iff.mp hstored
        cases heq
      next href =>
        obtain ⟨⟨ref', s'⟩, hput, heq⟩ := Option.map_eq_some_iff.mp hstored
        cases heq
        obtain ⟨rfl, hsealing, hinsert, hnew⟩ := putSecret_eq_some hput
        split
        next hset => exact .withdrawn href hset
        next hset => exact .attached hpassword href hsealing hinsert hnew (Bool.not_eq_true _ ▸ hset)

theorem getConnection_eq_ok {existing : DatabaseConnection}
    (h : getConnection x db.connections id = .ok existing) : db.connections.find? (·.id = id) = some existing := by
  unfold getConnection at h
  split at h
  next _ => cases h
  next _ => exact Connections.getConnection_eq_ok.mp h

theorem find?_update (rows : Connections) (id : UUID) (now : Int) (set : DatabaseConnection → DatabaseConnection)
    (hset : ∀ row, (set row).id = row.id) :
    (rows.update id now set).find? (·.id = id) =
      (rows.find? (·.id = id)).map fun row =>
        { set row with configVersion := row.configVersion + 1, updatedAt := now } := by
  induction rows with
  | nil => rfl
  | cons row rows ih =>
      by_cases hid : row.id = id
      · simp [Connections.update, hid, hset]
      · simpa [Connections.update, hid] using ih

theorem StoresPassword.ne_none {existing : DatabaseConnection} {password : Text}
    (hexisting : getConnection x db.connections id = .ok existing)
    (h : StoresPassword scheme master x db id password) :
    storeConnectionPassword scheme master x db.secrets existing password ≠ none := by
  cases h with
  | inPlace hget hpassword href hselect hrow hsealing hwrite _ =>
      cases hget.symm.trans hexisting
      simp [storeConnectionPassword, updateSecret, updateAct, hpassword, href, hselect, hrow, hsealing, hwrite]
  | attached hget hpassword href hsealing hinsert hnew _ =>
      cases hget.symm.trans hexisting
      simp [storeConnectionPassword, putSecret, hpassword, href, hsealing, hinsert, hnew]

theorem StoresPassword.ne_nil {password : Text} (h : StoresPassword scheme master x db id password) :
    password ≠ [] := by
  cases h with
  | inPlace _ hpassword => exact hpassword
  | attached _ hpassword => exact hpassword

theorem StoresPassword.other {existing : DatabaseConnection} {password : Text} {ref : UUID}
    (hexisting : getConnection x db.connections id = .ok existing) (href : existing.secretRef = some ref)
    (h : StoresPassword scheme master x db id password) :
    Secret.get scheme master db.secrets.table ref ≠ .ok (scheme.ofText password) := by
  cases h with
  | inPlace hget _ href' _ _ _ _ hother =>
      cases hget.symm.trans hexisting
      cases href.symm.trans href'
      exact hother
  | attached hget _ href' =>
      cases hget.symm.trans hexisting
      cases href.symm.trans href'

theorem StoresPassword.attaches {existing : DatabaseConnection} {password : Text}
    (hexisting : getConnection x db.connections id = .ok existing) (href : existing.secretRef = none)
    (h : StoresPassword scheme master x db id password) : x.fails .setConnectionSecret = false := by
  cases h with
  | inPlace hget _ href' =>
      cases hget.symm.trans hexisting
      cases href.symm.trans href'
  | attached _ _ _ _ _ _ hset => exact hset

variable (scheme master db) in
theorem AdminDB.effective_of_find? {row : DatabaseConnection} (h : db.connections.find? (·.id = id) = some row) :
    db.effective scheme master id =
      some { row := row, password := row.secretRef.map (Secret.get scheme master db.secrets.table) } := by
  rw [AdminDB.effective, h]
  rfl

/-- The effective configuration after the part for the password. -/
theorem PasswordStep.effective_iff {existing : DatabaseConnection} {password : Text} {db' : AdminDB B}
    {result : Except APIError Unit} (hexisting : getConnection x db.connections id = .ok existing)
    (h : PasswordStep scheme master x db id existing password result db') :
    db'.effective scheme master id = db.effective scheme master id ↔
      ¬StoresPassword scheme master x db id password := by
  have hfind := getConnection_eq_ok hexisting
  have heffective := AdminDB.effective_of_find? scheme master db hfind
  cases h with
  | kept hempty => exact iff_of_true rfl fun hstores => hstores.ne_nil hempty
  | refused hrefused => exact iff_of_true rfl fun hstores => hstores.ne_none hexisting hrefused
  | @inPlace ref row s' hpassword href hselect hrow hsealing hwrite hget =>
      have heffective' := AdminDB.effective_of_find? scheme master { db with secrets := s' } hfind
      rw [heffective', heffective, href, Option.map_some, Option.map_some, hget]
      constructor
      · intro heq hstores
        simp only [Option.some.injEq, EffectiveConfig.mk.injEq, true_and] at heq
        exact hstores.other hexisting href heq.symm
      · intro hstores
        have hsame : Secret.get scheme master db.secrets.table ref = .ok (scheme.ofText password) := by
          by_contra hother
          exact hstores (.inPlace hexisting hpassword href hselect hrow hsealing hwrite hother)
        rw [hsame]
  | @withdrawn _ s' href hset =>
      have heffective' := AdminDB.effective_of_find? scheme master { db with secrets := s' } hfind
      refine iff_of_true ?_ fun hstores => ?_
      · rw [heffective', heffective, href]
        rfl
      · cases (hstores.attaches hexisting href).symm.trans hset
  | attached hpassword href hsealing hinsert hnew hset =>
      refine iff_of_false (fun heq => ?_)
        (not_not_intro (.attached hexisting hpassword href hsealing hinsert hnew hset))
      have hfind' := find?_update db.connections id x.secretSetAt
        (fun row => { row with secretRef := some x.newID }) fun _ => rfl
      rw [hfind] at hfind'
      rw [AdminDB.effective_of_find? scheme master _ hfind', heffective] at heq
      simp [href] at heq

end Rotation

def ordersID : UUID := ⟨List.replicate 36 '1', rfl, rfl⟩
def billingID : UUID := ⟨List.replicate 36 '2', rfl, rfl⟩
def ordersSecretID : UUID := ⟨List.replicate 36 '3', rfl, rfl⟩

/-- A connection to a local database. -/
def localInput (name password : String) : ConnInput where
  name := name.toList
  databaseType := "postgres".toList
  host := "localhost".toList
  port := 5432
  databaseName := []
  serviceName := []
  schemaName := []
  username := "ddag".toList
  password := password.toList
  sslMode := []
  minPoolSize := 0
  maxPoolSize := 0
  connectionTimeoutMS := 0
  queryTimeoutMS := 0
  maxConnLifetimeMS := 0
  maxConnIdleMS := 0
  environment := []
  status := []
  tags := some []

/-- No operation fails by itself. -/
def undisturbedRequest : Circumstances Aead.symbolic where
  fails _ := false
  newID := billingID
  entropy := ⟨.text [], .text [], .text [], rfl⟩
  secretSetAt := 1
  updatedAt := 2

/-- Two connections, one of them with a password. -/
def twoConnections : AdminDB Aead.Term where
  connections :=
    [{ connFromInput (localInput "orders" "") ordersID with secretRef := some ordersSecretID },
      connFromInput (localInput "billing" "") billingID]
  secrets :=
    Secrets.put Aead.symbolic (.text []) { table := fun _ => none, taken := fun _ => false }
      ordersSecretID (.text "old".toList) "db_password".toList undisturbedRequest.entropy

def updateOrders (name password : String) : Except APIError Unit × AdminDB Aead.Term :=
  updateConnection Aead.symbolic (.text []) undisturbedRequest twoConnections ordersID (localInput name password)

end DDAG.AdminSvc
