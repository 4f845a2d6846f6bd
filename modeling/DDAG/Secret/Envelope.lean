import DDAG.Connectors.Bind
import DDAG.Lib.Aead
import DDAG.Lib.Pool
import DDAG.Lib.Strings
import DDAG.Lib.Trace

/-!
# Envelope encryption

`EnvelopeStore` of `internal/secret/secret.go`: a secret is sealed with a key of its own, which
is sealed with the master key.  Both layers are bound to the id, the purpose and the version of
the row by their associated data.  Rows of version 1 were sealed without associated data.

`Put` and `Delete` are one statement each.  `Update` reads the purpose of the row and writes
the envelope in a second statement, so calls of it are threads.  Ids of new rows are new.

What a row should hold is read off the events of a run (`Ledger`).  `secrets_bound` says that `Get`
returns it, and that an envelope opens in its own row only.
-/

namespace DDAG.Secret

open Machine

/-! ## Envelopes -/

/-- A UUID, as its text. -/
structure UUID where
  text : Text
  length : text.length = 36
  digits : text.all (fun c => c.isDigit || ('a' ≤ c && c ≤ 'f') || c = '-') = true
deriving DecidableEq

def aadKeyVersion : Int := 2

/-- The text of the associated data of a row. -/
def secretAAD (id : UUID) (purpose : Text) (version : Int) : Text :=
  id.text ++ '|' :: (purpose ++ '|' :: Strings.decimalInt version)

/-- The columns of an envelope. -/
structure Envelope (B : Type*) where
  ciphertext : B
  nonce : B
  wrappedDEK : B
  dekNonce : B

structure Row (B : Type*) where
  envelope : Envelope B
  keyVersion : Int
  purpose : Text

inductive SecretError where
  | notFound
  | unwrapDEK
  | newCipher
  | decryptSecret
deriving DecidableEq

/-- What is drawn for an envelope. -/
structure Entropy {B : Type*} (scheme : Aead B) where
  dek : B
  nonce : B
  dekNonce : B
  isKey : scheme.isKey dek = true

variable {B : Type*} (scheme : Aead B) (master : B)

/-- `seal`, without associated data. -/
def legacySeal (plaintext : B) (r : Entropy scheme) : Envelope B :=
  { ciphertext := scheme.sealed r.dek r.nonce plaintext (scheme.ofText [])
    nonce := r.nonce
    wrappedDEK := scheme.sealed master r.dekNonce r.dek (scheme.ofText [])
    dekNonce := r.dekNonce }

def sealV2 (id : UUID) (purpose : Text) (plaintext : B) (r : Entropy scheme) : Envelope B :=
  let aad := scheme.ofText (secretAAD id purpose aadKeyVersion)
  { ciphertext := scheme.sealed r.dek r.nonce plaintext aad
    nonce := r.nonce
    wrappedDEK := scheme.sealed master r.dekNonce r.dek aad
    dekNonce := r.dekNonce }

/-- The two layers, with the associated data of each. -/
def openLayers (dekAAD aad : Text) (e : Envelope B) : Except SecretError B :=
  match scheme.opened master e.dekNonce e.wrappedDEK (scheme.ofText dekAAD) with
  | none => .error .unwrapDEK
  | some dek =>
      if !scheme.isKey dek then .error .newCipher
      else
        match scheme.opened dek e.nonce e.ciphertext (scheme.ofText aad) with
        | none => .error .decryptSecret
        | some plaintext => .ok plaintext

/-- The key is opened without associated data. -/
def openWithAAD (aad : Text) (e : Envelope B) : Except SecretError B := openLayers scheme master [] aad e

/-- `open`. -/
def legacyOpen (e : Envelope B) : Except SecretError B := openWithAAD scheme master [] e

def openV2 (id : UUID) (purpose : Text) (version : Int) (e : Envelope B) : Except SecretError B :=
  openLayers scheme master (secretAAD id purpose version) (secretAAD id purpose version) e

abbrev SecretTable (B : Type*) := UUID → Option (Row B)

def get (table : SecretTable B) (id : UUID) : Except SecretError B :=
  match table id with
  | none => .error .notFound
  | some row =>
      if aadKeyVersion ≤ row.keyVersion then openV2 scheme master id row.purpose row.keyVersion row.envelope
      else legacyOpen scheme master row.envelope

/-! ## The store -/

/-- The table, and the ids that were given out. -/
structure Secrets (B : Type*) where
  table : SecretTable B
  taken : UUID → Bool

inductive UpdatePhase where
  | start
  /-- The purpose of the row is read. -/
  | sealing (purpose : Text)
  | done
deriving DecidableEq

/-- A call of `Update`. -/
structure Update where
  id : UUID
  plaintext : B
  entropy : Entropy scheme
  phase : UpdatePhase := .start

inductive UpdateAction where
  | select
  | write
  | fail
deriving DecidableEq

variable {scheme}

def Update.isNew (u : Update scheme) : Bool := u.phase = .start

variable (scheme)

def Row.reseal (row : Row B) (e : Envelope B) : Row B :=
  { row with envelope := e, keyVersion := aadKeyVersion }

def updateAct (s : Secrets B) (u : Update scheme) (a : UpdateAction) : Option (Secrets B × Update scheme) :=
  match u.phase, a with
  | .start, .select =>
      match s.table u.id with
      | none => some (s, { u with phase := .done })
      | some row => some (s, { u with phase := .sealing row.purpose })
  | .sealing purpose, .write =>
      match s.table u.id with
      | none => some (s, { u with phase := .done })
      | some row =>
          let row := row.reseal (sealV2 scheme master u.id purpose u.plaintext u.entropy)
          some ({ s with table := Function.update s.table u.id (some row) }, { u with phase := .done })
  | .start, .fail => some (s, { u with phase := .done })
  | .sealing _, .fail => some (s, { u with phase := .done })
  | _, _ => none

abbrev Store := Pool (Secrets B) (Update scheme)

inductive StoreEvent where
  | put (id : UUID) (plaintext : B) (purpose : Text) (entropy : Entropy scheme)
  | delete (id : UUID)
  | update (e : PoolEvent (Update scheme) UpdateAction)

def Secrets.put (s : Secrets B) (id : UUID) (plaintext : B) (purpose : Text) (r : Entropy scheme) :
    Secrets B :=
  let purpose := if purpose = [] then "generic".toList else purpose
  let row : Row B :=
    { envelope := sealV2 scheme master id purpose plaintext r, keyVersion := aadKeyVersion, purpose := purpose }
  { table := Function.update s.table id (some row)
    taken := Function.update s.taken id true }

def Secrets.delete (s : Secrets B) (id : UUID) : Secrets B :=
  { s with table := Function.update s.table id none }

def storeStep (p : Store scheme) : StoreEvent scheme → Option (Store scheme)
  | .put id plaintext purpose r =>
      -- `uuid.New` gives an id that was not used before
      if p.shared.taken id then none
      else some { p with shared := p.shared.put scheme master id plaintext purpose r }
  | .delete id => some { p with shared := p.shared.delete id }
  | .update e => poolStep Update.isNew (updateAct scheme master) p e

/-- A row of version 1. -/
structure LegacySecret where
  plaintext : B
  entropy : Entropy scheme
  purpose : Text

/-- A store with rows of version 1. -/
def legacyStore (rows : UUID → Option (LegacySecret scheme)) : Store scheme :=
  { shared :=
      { table := fun id => (rows id).map fun l =>
          { envelope := legacySeal scheme master l.plaintext l.entropy, keyVersion := 1, purpose := l.purpose }
        taken := fun id => (rows id).isSome }
    threads := [] }

/-! ## What the rows should hold -/

/-- The plaintexts that were stored last, and the calls of `Update` so far. -/
structure Ledger (B : Type*) where
  stored : UUID → Option B
  calls : List (UUID × B) := []

/-- A call of `Update` stores its plaintext with its second statement, in a row that is there. -/
def Ledger.update (l : Ledger B) : PoolEvent (Update scheme) UpdateAction → Ledger B
  | .join u => { l with calls := l.calls ++ [(u.id, u.plaintext)] }
  | .act i .write =>
      match l.calls[i]? with
      | none => l
      | some (id, plaintext) =>
          if l.stored id = none then l else { l with stored := Function.update l.stored id (some plaintext) }
  | .act _ _ => l

/-- One event. -/
def Ledger.record (l : Ledger B) : StoreEvent scheme → Ledger B
  | .put id plaintext _ _ => { l with stored := Function.update l.stored id (some plaintext) }
  | .delete id => { l with stored := Function.update l.stored id none }
  | .update e => l.update scheme e

/-- What the events of a run stored, over rows of version 1. -/
def ledger (rows : UUID → Option (LegacySecret scheme)) (es : List (StoreEvent scheme)) : Ledger B :=
  es.foldl (Ledger.record scheme) { stored := fun id => (rows id).map fun l => l.plaintext }

/-! ## Associated data -/

theorem UUID.not_mem_bar (id : UUID) : '|' ∉ id.text := fun h => by
  have hdigit := List.all_eq_true.mp id.digits '|' h
  exact absurd hdigit (by decide)

theorem not_mem_decimalInt_bar (n : Int) : '|' ∉ Strings.decimalInt n := fun h => by
  rcases Strings.mem_decimalInt h with heq | hdigit
  · exact absurd heq (by decide)
  · exact absurd hdigit (by decide)

/-- The associated data tell the id, the purpose and the version, although the purpose may
contain the separator: the id has none, and neither has the version. -/
theorem secretAAD_inj {id id' : UUID} {purpose purpose' : Text} {v v' : Int}
    (h : secretAAD id purpose v = secretAAD id' purpose' v') : id = id' ∧ purpose = purpose' ∧ v = v' := by
  obtain ⟨hid, hrest⟩ := Strings.append_sep_inj id.not_mem_bar id'.not_mem_bar h
  obtain ⟨hpurpose, hversion⟩ :=
    Strings.append_sep_inj_last (not_mem_decimalInt_bar v) (not_mem_decimalInt_bar v') hrest
  refine ⟨?_, hpurpose, Strings.decimalInt_inj hversion⟩
  cases id
  cases id'
  cases hid
  rfl

theorem secretAAD_ne_nil (id : UUID) (purpose : Text) (v : Int) : secretAAD id purpose v ≠ [] := by
  simp [secretAAD]

/-! ## Opening -/

theorem openLayers_sealed (aad : Text) (p : B) (r : Entropy scheme) :
    openLayers scheme master aad aad
      { ciphertext := scheme.sealed r.dek r.nonce p (scheme.ofText aad), nonce := r.nonce
        wrappedDEK := scheme.sealed master r.dekNonce r.dek (scheme.ofText aad), dekNonce := r.dekNonce } =
      .ok p := by
  simp [openLayers, r.isKey]

theorem openLayers_of_ne {dekAAD aad : Text} (h : dekAAD ≠ aad) (aad' : Text) (e : Envelope B) (n dek : B)
    (he : e.wrappedDEK = scheme.sealed master n dek (scheme.ofText aad)) :
    openLayers scheme master dekAAD aad' e = .error .unwrapDEK := by
  have hne : scheme.ofText dekAAD ≠ scheme.ofText aad := fun heq => h (scheme.ofText_inj heq)
  rw [openLayers, he, scheme.opened_of_ne hne]

/-- The row of the id holds the plaintext. -/
inductive Holds (id : UUID) (row : Row B) (p : B) : Prop
  | v2 (r : Entropy scheme) (hversion : row.keyVersion = aadKeyVersion)
      (henvelope : row.envelope = sealV2 scheme master id row.purpose p r)
  | legacy (r : Entropy scheme) (hversion : row.keyVersion = 1)
      (henvelope : row.envelope = legacySeal scheme master p r)

variable {scheme master}

theorem Holds.get {id : UUID} {row : Row B} {p : B} (h : Holds scheme master id row p)
    {table : SecretTable B} (hrow : table id = some row) : get scheme master table id = .ok p := by
  rw [DDAG.Secret.get, hrow]
  dsimp only
  cases h with
  | v2 r hversion henvelope =>
      rw [hversion, if_pos (Int.le_refl _), henvelope]
      exact openLayers_sealed scheme master _ p r
  | legacy r hversion henvelope =>
      rw [hversion, if_neg (by decide), henvelope]
      exact openLayers_sealed scheme master [] p r

/-- An envelope of version 2 opens in no other row, and under no other version. -/
theorem sealV2_bound {id id' : UUID} {purpose purpose' : Text} {version : Int} {p : B} {r : Entropy scheme}
    {e : Envelope B} (henvelope : e = sealV2 scheme master id purpose p r)
    (hother : (id', purpose', version) ≠ (id, purpose, aadKeyVersion)) {table : SecretTable B}
    (hrow : table id' = some { envelope := e, keyVersion := version, purpose := purpose' }) :
    get scheme master table id' = .error .unwrapDEK := by
  have hwrapped : e.wrappedDEK = scheme.sealed master r.dekNonce r.dek
      (scheme.ofText (secretAAD id purpose aadKeyVersion)) := by
    rw [henvelope]
    rfl
  rw [DDAG.Secret.get, hrow]
  dsimp only
  split
  next _ =>
    refine openLayers_of_ne scheme master (fun heq => hother ?_) _ _ _ _ hwrapped
    obtain ⟨rfl, hpurpose, hversion⟩ := secretAAD_inj heq
    rw [hpurpose, hversion]
  next _ =>
    -- the legacy way has no associated data
    exact openLayers_of_ne scheme master (Ne.symm (secretAAD_ne_nil _ _ _)) _ _ _ _ hwrapped

/-! ## Runs -/

variable (scheme master)

/-- Every row holds what was stored last, and updates in progress know the purpose of theirs. -/
structure Inv (l : Ledger B) (p : Store scheme) : Prop where
  deleted : ∀ id, p.shared.table id = none → l.stored id = none
  rows : ∀ id row, p.shared.table id = some row → p.shared.taken id = true ∧
    ∃ plaintext, l.stored id = some plaintext ∧ Holds scheme master id row plaintext
  updates : ∀ u ∈ p.threads, ∀ purpose, u.phase = .sealing purpose → p.shared.taken u.id = true ∧
    ∀ row, p.shared.table u.id = some row → row.purpose = purpose
  calls : l.calls = p.threads.map fun u => (u.id, u.plaintext)

variable {scheme master}

theorem inv_legacy (rows : UUID → Option (LegacySecret scheme)) :
    Inv scheme master (ledger scheme rows []) (legacyStore scheme master rows) where
  deleted id h := by
    simp only [legacyStore, Option.map_eq_none_iff] at h
    simp [ledger, h]
  rows id row h := by
    obtain ⟨l, hl, rfl⟩ := Option.map_eq_some_iff.mp h
    exact ⟨by simp [legacyStore, hl], l.plaintext, by simp [ledger, hl], .legacy l.entropy rfl rfl⟩
  updates := List.forall_mem_nil _
  calls := rfl

section Steps

variable {l : Ledger B} {p p' : Store scheme}

/-- Writing a row: the other rows stay, and the row holds what is written. -/
theorem inv_write (h : Inv scheme master l p) {s : Secrets B} {id : UUID} {row : Row B} {plaintext : B}
    (htable : s.table = Function.update p.shared.table id (some row))
    (htaken : ∀ id', p.shared.taken id' = true → s.taken id' = true) (hid : s.taken id = true)
    (hholds : Holds scheme master id row plaintext) {threads : List (Update scheme)}
    (hthreads : ∀ u ∈ threads, ∀ purpose, u.phase = .sealing purpose → p.shared.taken u.id = true ∧
      (∀ old, p.shared.table u.id = some old → old.purpose = purpose) ∧
      (u.id = id → row.purpose = purpose))
    (hcalls : l.calls = threads.map fun u => (u.id, u.plaintext)) :
    Inv scheme master { l with stored := Function.update l.stored id (some plaintext) }
      { shared := s, threads := threads } := by
  refine ⟨fun id' hnone => ?_, fun id' row' hrow => ?_, fun u hu purpose hphase => ?_, hcalls⟩
  · dsimp only at hnone ⊢
    rw [htable] at hnone
    by_cases heq : id' = id
    · subst heq
      simp at hnone
    · rw [Function.update_of_ne heq] at hnone ⊢
      exact h.deleted id' hnone
  · dsimp only at hrow ⊢
    rw [htable] at hrow
    by_cases heq : id' = id
    · subst heq
      rw [Function.update_self] at hrow ⊢
      cases hrow
      exact ⟨hid, plaintext, rfl, hholds⟩
    · rw [Function.update_of_ne heq] at hrow ⊢
      obtain ⟨htak, hrest⟩ := h.rows id' row' hrow
      exact ⟨htaken id' htak, hrest⟩
  · obtain ⟨htak, hold, hnew⟩ := hthreads u hu purpose hphase
    refine ⟨htaken u.id htak, fun row' hrow => ?_⟩
    dsimp only at hrow
    rw [htable] at hrow
    by_cases heq : u.id = id
    · rw [heq, Function.update_self] at hrow
      cases hrow
      exact hnew heq
    · rw [Function.update_of_ne heq] at hrow
      exact hold row' hrow

theorem inv_put (h : Inv scheme master l p) {id : UUID} (hnew : p.shared.taken id = false) (plaintext : B)
    (purpose : Text) (r : Entropy scheme) :
    Inv scheme master { l with stored := Function.update l.stored id (some plaintext) }
      { p with shared := p.shared.put scheme master id plaintext purpose r } := by
  refine inv_write h rfl (fun id' htak => ?_) (Function.update_self _ _ _) (.v2 r rfl rfl) ?_ h.calls
  · show Function.update p.shared.taken id true id' = true
    by_cases heq : id' = id
    · rw [heq, Function.update_self]
    · rwa [Function.update_of_ne heq]
  · intro u hu pur hphase
    obtain ⟨htak, hold⟩ := h.updates u hu pur hphase
    refine ⟨htak, hold, fun heq => ?_⟩
    rw [heq, hnew] at htak
    cases htak

theorem inv_delete (h : Inv scheme master l p) (id : UUID) :
    Inv scheme master { l with stored := Function.update l.stored id none }
      { p with shared := p.shared.delete id } := by
  have hkept : ∀ id' row, (p.shared.delete id).table id' = some row →
      id' ≠ id ∧ p.shared.table id' = some row := by
    intro id' row hrow
    by_cases heq : id' = id
    · simp [Secrets.delete, heq] at hrow
    · exact ⟨heq, by simpa [Secrets.delete, heq] using hrow⟩
  refine ⟨fun id' hnone => ?_, fun id' row hrow => ?_, fun u hu purpose hphase => ?_, h.calls⟩
  · by_cases heq : id' = id
    · simp [heq]
    · simp only [Secrets.delete, Function.update_of_ne heq] at hnone ⊢
      exact h.deleted id' hnone
  · obtain ⟨hne, hold⟩ := hkept id' row hrow
    obtain ⟨htak, plaintext, hlast, hholds⟩ := h.rows id' row hold
    exact ⟨htak, plaintext, by simpa [hne] using hlast, hholds⟩
  · obtain ⟨htak, hold⟩ := h.updates u hu purpose hphase
    exact ⟨htak, fun row hrow => hold row (hkept u.id row hrow).2⟩

/-- A call of `Update` finds no row or ends without a write, reads the purpose of its row, or
writes the row it finds under the purpose it has read. -/
theorem updateAct_cases {s s' : Secrets B} {u u' : Update scheme} {a : UpdateAction}
    (h : updateAct scheme master s u a = some (s', u')) :
    ((a = .write → s.table u.id = none) ∧ s' = s ∧ u' = { u with phase := .done }) ∨
    (∃ row, a = .select ∧ s.table u.id = some row ∧ s' = s ∧ u' = { u with phase := .sealing row.purpose }) ∨
    ∃ purpose row, a = .write ∧ u.phase = .sealing purpose ∧ s.table u.id = some row ∧
      s' = { s with
        table := Function.update s.table u.id
          (some (row.reseal (sealV2 scheme master u.id purpose u.plaintext u.entropy))) } ∧
      u' = { u with phase := .done } := by
  unfold updateAct at h
  split at h
  next hphase =>
    split at h
    next _ =>
      cases h
      exact .inl ⟨nofun, rfl, rfl⟩
    next row hrow =>
      cases h
      exact .inr (.inl ⟨row, rfl, hrow, rfl, rfl⟩)
  next purpose hphase =>
    split at h
    next hnone =>
      cases h
      exact .inl ⟨fun _ => hnone, rfl, rfl⟩
    next row hrow =>
      cases h
      exact .inr (.inr ⟨purpose, row, rfl, hphase, hrow, rfl, rfl⟩)
  next _ =>
    cases h
    exact .inl ⟨nofun, rfl, rfl⟩
  next _ _ =>
    cases h
    exact .inl ⟨nofun, rfl, rfl⟩
  next => cases h

theorem inv_move (h : Inv scheme master l p) {i : Nat} {u u' : Update scheme} (hu : p.threads[i]? = some u)
    (hsame : (u'.id, u'.plaintext) = (u.id, u.plaintext))
    (hphase : ∀ purpose, u'.phase = .sealing purpose → p.shared.taken u'.id = true ∧
      ∀ row, p.shared.table u'.id = some row → row.purpose = purpose) :
    Inv scheme master l { p with threads := p.threads.set i u' } :=
  ⟨h.deleted, h.rows, forall_mem_set h.updates hphase, h.calls.trans (map_set_of_eq hu hsame).symm⟩

theorem inv_update (h : Inv scheme master l p) {e : PoolEvent (Update scheme) UpdateAction}
    (hs : poolStep Update.isNew (updateAct scheme master) p e = some p') :
    Inv scheme master (l.update scheme e) p' := by
  rcases poolStep_cases hs with ⟨u, rfl, hnew, rfl⟩ | ⟨i, a, u, s', u', rfl, hu, hact, rfl⟩
  · have hphase : u.phase = .start := of_decide_eq_true hnew
    refine ⟨h.deleted, h.rows, forall_mem_join h.updates fun purpose hpurpose => ?_, ?_⟩
    · rw [hphase] at hpurpose
      cases hpurpose
    · simp [Ledger.update, h.calls]
  · have hcall : l.calls[i]? = some (u.id, u.plaintext) := by
      rw [h.calls, List.getElem?_map, hu, Option.map_some]
    rcases updateAct_cases hact with ⟨hwrite, rfl, rfl⟩ | ⟨row, rfl, hrow, rfl, rfl⟩ |
      ⟨purpose, row, rfl, hphase, hrow, rfl, rfl⟩
    · -- where there is no row, nothing is stored
      have hsame : l.update scheme (.act i a) = l := by
        cases a with
        | write => simp [Ledger.update, hcall, h.deleted u.id (hwrite rfl)]
        | select => rfl
        | fail => rfl
      rw [hsame]
      exact inv_move h hu rfl nofun
    · refine inv_move h hu rfl fun purpose hpurpose => ⟨(h.rows u.id row hrow).1, fun row' hrow' => ?_⟩
      cases hpurpose
      cases hrow.symm.trans hrow'
      rfl
    · obtain ⟨htak, hpurpose⟩ := h.updates u (List.mem_of_getElem? hu) purpose hphase
      obtain ⟨-, old, hold, -⟩ := h.rows u.id row hrow
      -- the purpose that was read is still that of the row
      obtain rfl := hpurpose row hrow
      have hholds : Holds scheme master u.id
          (row.reseal (sealV2 scheme master u.id row.purpose u.plaintext u.entropy)) u.plaintext :=
        .v2 u.entropy rfl rfl
      have hstored : l.update scheme (.act i .write) =
          { l with stored := Function.update l.stored u.id (some u.plaintext) } := by
        simp [Ledger.update, hcall, hold]
      rw [hstored]
      refine inv_write h rfl ?_ ?_ hholds ?_ (h.calls.trans (map_set_of_eq hu (by rfl)).symm)
      · exact fun _ htak' => htak'
      · exact htak
      · refine forall_mem_set (fun v hv pur hpur => ?_) nofun
        obtain ⟨hvtak, hvold⟩ := h.updates v hv pur hpur
        exact ⟨hvtak, hvold, fun heq => hvold row (heq ▸ hrow)⟩

theorem inv_step (h : Inv scheme master l p) {e : StoreEvent scheme}
    (hs : storeStep scheme master p e = some p') : Inv scheme master (l.record scheme e) p' := by
  cases e with
  | put id plaintext purpose r =>
      simp only [storeStep] at hs
      split at hs
      next _ => cases hs
      next hnew =>
        cases hs
        exact inv_put h (Bool.eq_false_iff.mpr hnew) plaintext purpose r
  | delete id =>
      cases hs
      exact inv_delete h id
  | update e => exact inv_update h hs

end Steps

variable (scheme master)

/-- `Get` returns what was stored last, and the envelope of a row that `Put` or `Update` sealed
opens in no row with another id or purpose, and under no other version. -/
structure Bound (stored : UUID → Option B) (p : Store scheme) : Prop where
  last : ∀ id, get scheme master p.shared.table id =
    match stored id with
    | some plaintext => .ok plaintext
    | none => .error .notFound
  tamper : ∀ id row, p.shared.table id = some row → row.keyVersion = aadKeyVersion →
    ∀ (table : SecretTable B) id' purpose version,
      table id' = some { row with purpose := purpose, keyVersion := version } →
      (id', purpose, version) ≠ (id, row.purpose, aadKeyVersion) →
      ∃ e, get scheme master table id' = .error e

variable {scheme master}

theorem Inv.bound {l : Ledger B} {p : Store scheme} (h : Inv scheme master l p) :
    Bound scheme master l.stored p where
  last id := by
    cases hrow : p.shared.table id with
    | none =>
        rw [h.deleted id hrow, DDAG.Secret.get, hrow]
    | some row =>
        obtain ⟨-, plaintext, hlast, hholds⟩ := h.rows id row hrow
        rw [hlast]
        exact hholds.get hrow
  tamper id row hrow hversion table id' purpose version htable hother := by
    obtain ⟨-, plaintext, -, hholds⟩ := h.rows id row hrow
    cases hholds with
    | v2 r _ henvelope => exact ⟨_, sealV2_bound henvelope hother htable⟩
    | legacy r hlegacy _ =>
        rw [hlegacy] at hversion
        cases hversion

/-- For every ideal scheme, every master key, every rows of version 1 and every run of `Put`,
`Update` and `Delete`, in any interleaving of their statements: `Get` returns the plaintext that
the events of the run stored last in the row, or says that there is none after a `Delete`; and
the envelope of a row that was sealed by `Put` or `Update` opens in no row with another id or
purpose and under no other version, where `Get` returns an error. -/
theorem secrets_bound (scheme : Aead B) (master : B) (rows : UUID → Option (LegacySecret scheme))
    (es : List (StoreEvent scheme)) {p : Store scheme}
    (h : runs (storeStep scheme master) (legacyStore scheme master rows) es = some p) :
    Bound scheme master (ledger scheme rows es).stored p := by
  have hinv : Inv scheme master (ledger scheme rows es) p := by
    refine runs_induction (I := fun es p => Inv scheme master (ledger scheme rows es) p)
      (inv_legacy rows) (fun _ h hs => ?_) h
    rw [ledger, List.foldl_append]
    exact inv_step h hs
  exact hinv.bound

/-- One row is updated while another one comes and goes. -/
theorem updated_secret_returned :
    let r : Entropy Aead.symbolic := ⟨.text ['k'], .text ['n'], .text ['m'], rfl⟩
    let id : UUID := ⟨List.replicate 36 '0', rfl, rfl⟩
    let gone : UUID := ⟨List.replicate 36 '1', rfl, rfl⟩
    let es : List (StoreEvent Aead.symbolic) :=
      [.put id (.text ['1']) [] r, .update (.join { id := id, plaintext := .text ['2'], entropy := r }),
        .put gone (.text ['3']) ['p'] r, .update (.act 0 .select), .delete gone, .update (.act 0 .write)]
    ∃ p, runs (storeStep Aead.symbolic (.text [])) (legacyStore Aead.symbolic (.text []) fun _ => none) es = some p ∧
      get Aead.symbolic (.text []) p.shared.table id = .ok (.text ['2']) ∧
      get Aead.symbolic (.text []) p.shared.table gone = .error .notFound := by
  intro r id gone es
  have hends : (runs (storeStep Aead.symbolic (.text []))
      (legacyStore Aead.symbolic (.text []) fun _ => none) es).isSome = true := by decide +kernel
  obtain ⟨p, hp⟩ := Option.isSome_iff_exists.mp hends
  have hbound := secrets_bound Aead.symbolic (.text []) _ es hp
  exact ⟨p, hp, hbound.last id, hbound.last gone⟩

/-- A purpose may look like the end of the associated data of another one. -/
example (r : Entropy Aead.symbolic) (id : UUID) :
    get Aead.symbolic (.text []) (fun _ => some
      { envelope := sealV2 Aead.symbolic (.text []) id "a|2".toList (.text "s".toList) r, keyVersion := 2
        purpose := "a".toList }) id = .error .unwrapDEK := by
  refine sealV2_bound rfl (fun heq => ?_) rfl
  have hpurpose : "a".toList = "a|2".toList := congrArg (·.2.1) heq
  exact absurd hpurpose (by decide)

end DDAG.Secret
