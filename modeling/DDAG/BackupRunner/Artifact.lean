import DDAG.Connectors.Bind
import DDAG.Lib.Aead
import DDAG.Lib.Strings

/-!
# Backup artifacts

`encryptFile`, `decryptHeader`, `decryptFile` and `runDrill` of `cmd/backup-runner/main.go`.  An
artifact is the magic, a nonce and one sealing of the dump, written in three writes.  A write may
stop short: the disk is full, or the process ends.  The file that is left is then a beginning of the
artifact.

The world has the files and the sealings made so far, and the cipher opens those and nothing else.
A slice out of range and a nonce of the wrong size panic, which is `none`.

* `decrypted_or_refused`: what decrypts is an artifact of a sealing under the key.
* `only_artifact_decrypts`: a dump comes back from its artifact, and every other file is refused.
* `drill_restores_sealed`: a drill restores dumps that were sealed under the key, and no other, and
  leaves nothing behind but a temporary file that it cannot close or remove.
-/

namespace DDAG.BackupRunner

abbrev Bytes := List UInt8

abbrev Path := Text

/-- The bytes of a text of one-byte characters. -/
def bytesOf (s : Text) : Bytes := s.map fun c => UInt8.ofNat c.toNat

/-! ## Files -/

/-- The files, and what was sealed so far. -/
structure World where
  files : Path → Option Bytes
  made : List (Sealing Bytes)

namespace World

def put (w : World) (path : Path) (b : Bytes) : World :=
  { w with files := Function.update w.files path (some b) }

def remove (w : World) (path : Path) : World := { w with files := Function.update w.files path none }

end World

def notExist (path : Path) : Text := "open ".toList ++ path ++ ": no such file or directory".toList

def fileExists (path : Path) : Text := "open ".toList ++ path ++ ": file exists".toList

def noSpace (path : Path) : Text := "write ".toList ++ path ++ ": no space left on device".toList

/-- What a file takes of some bytes, with room for so many, `none` for any number. -/
def taken : Option Nat → Bytes → Bytes
  | none, b => b
  | some n, b => b.take n

def fits (room : Option Nat) (b : Bytes) : Bool := room.all (b.length ≤ ·)

/-- A file that is being written. -/
structure Out where
  data : Bytes := []
  room : Option Nat

/-- `out.Write`, which is an error if not all is written. -/
def Out.write (out : Out) (b : Bytes) : Out × Bool :=
  ({ data := out.data ++ taken out.room b, room := out.room.map (· - b.length) }, fits out.room b)

/-! ## The cipher -/

/-- `g.NonceSize()`. -/
def nonceSize : Nat := 12

/-- A nonce as `rand.Read` fills it. -/
structure Nonce where
  bytes : Bytes
  length : bytes.length = nonceSize

/-- The error of `aes.NewCipher`.  `cipher.NewGCM` has none for AES. -/
def newCipher (key : Bytes) : Option Text :=
  if key.length = 16 ∨ key.length = 24 ∨ key.length = 32 then none
  else some ("crypto/aes: invalid key size ".toList ++ Strings.decimal key.length)

section Cipher

variable (scheme : Ciphertexts Bytes)

/-- `g.Open`: the plaintext or an error. -/
def gcmOpen (w : World) (key nonce ciphertext : Bytes) : Option (Except Text Bytes) :=
  if nonce.length = nonceSize then
    match scheme.opened w.made key nonce ciphertext [] with
    | some p => some (.ok p)
    | none => some (.error "cipher: message authentication failed".toList)
  else none

/-! ## Artifacts -/

def magic : Bytes := bytesOf "DDAGBKP1".toList

/-- A whole artifact. -/
def artifact (key : Bytes) (nonce : Nonce) (p : Bytes) : Bytes :=
  magic ++ nonce.bytes ++ scheme.ciphertext ⟨key, nonce.bytes, p, []⟩

/-- `random` is what `rand.Read` gives, and `room` what can be written until the disk is full or the
process ends. -/
def encryptFile (w : World) (src dst : Path) (key : Bytes) (random : Except Text Nonce)
    (room : Option Nat) : World × Option Text :=
  match w.files src, w.files dst with
  | none, _ => (w, some (notExist src))
  | some _, some _ => (w, some (fileExists dst))
  | some plain, none =>
      -- `O_CREATE`: from here on there is a file, and it stays when a later step fails
      let w := w.put dst []
      match newCipher key, random with
      | some err, _ => (w, some err)
      | none, .error err => (w, some err)
      | none, .ok nonce =>
          let (out, ok) := Out.write { room := room } magic
          if !ok then (w.put dst out.data, some (noSpace dst)) else
          let (out, ok) := out.write nonce.bytes
          if !ok then (w.put dst out.data, some (noSpace dst)) else
          let sealing : Sealing Bytes := ⟨key, nonce.bytes, plain, []⟩
          let (out, ok) := out.write (scheme.ciphertext sealing)
          ({ w.put dst out.data with made := sealing :: w.made }, if ok then none else some (noSpace dst))

/-- `b[lo:hi]`. -/
def slice (b : Bytes) (lo hi : Nat) : Option Bytes :=
  if lo ≤ hi ∧ hi ≤ b.length then some ((b.take hi).drop lo) else none

/-- The results of `decryptHeader`. -/
structure Header where
  plain : Bytes := []
  nonce : Bytes := []
  err : Option Text := none
deriving DecidableEq

def invalidArtifact : Header := { err := some "invalid backup artifact".toList }

def decryptHeader (w : World) (src : Path) (key : Bytes) : Option Header :=
  match w.files src, newCipher key with
  | none, _ => some { err := some (notExist src) }
  | some _, some err => some { err := some err }
  | some b, none =>
      if b.length < 8 + nonceSize then some invalidArtifact
      else do
        let head ← slice b 0 8
        if head ≠ magic then return invalidArtifact
        let nonce ← slice b 8 (8 + nonceSize)
        let ciphertext ← slice b (8 + nonceSize) b.length
        match ← gcmOpen scheme w key nonce ciphertext with
        | .ok p => return { plain := p, nonce := nonce }
        | .error err => return { nonce := nonce, err := some err }

def decryptFile (w : World) (src dst : Path) (key : Bytes) (room : Option Nat) :
    Option (World × Option Text) := do
  let h ← decryptHeader scheme w src key
  match h.err with
  | some err => return (w, some err)
  | none => return (w.put dst (taken room h.plain), if fits room h.plain then none else some (noSpace dst))

end Cipher

/-! ## Writes that stop short -/

theorem taken_append (room : Option Nat) (a b : Bytes) :
    taken room (a ++ b) = taken room a ++ taken (room.map (· - a.length)) b := by
  cases room with
  | none => rfl
  | some n => exact List.take_append

theorem fits_append (room : Option Nat) (a b : Bytes) :
    fits room (a ++ b) = (fits room a && fits (room.map (· - a.length)) b) := by
  cases room with
  | none => rfl
  | some n =>
      simp only [fits, Option.all_some, Option.map_some, List.length_append]
      grind

theorem taken_of_fits {room : Option Nat} {b : Bytes} (h : fits room b = true) : taken room b = b := by
  cases room with
  | none => rfl
  | some n =>
      simp only [fits, Option.all_some, decide_eq_true_eq] at h
      exact List.take_of_length_le h

theorem taken_append_of_not_fits {room : Option Nat} {a : Bytes} (h : fits room a = false) (b : Bytes) :
    taken room (a ++ b) = taken room a := by
  cases room with
  | none => simp [fits] at h
  | some n =>
      simp only [fits, Option.all_some, decide_eq_false_iff_not, Nat.not_le] at h
      exact List.take_append_of_le_length (Nat.le_of_lt h)

/-- The file has what it could take of all that was written to it. -/
structure Out.Took (room : Option Nat) (all : Bytes) (out : Out) : Prop where
  data : out.data = taken room all
  room : out.room = room.map (· - all.length)

theorem Out.Took.empty (room : Option Nat) : Out.Took room [] { room := room } where
  data := by cases room <;> simp [taken]
  room := by cases room <;> rfl

theorem Out.Took.write {room : Option Nat} {all : Bytes} {out : Out} (h : out.Took room all) (b : Bytes) :
    (out.write b).1.Took room (all ++ b) where
  data := by rw [taken_append, ← h.data, ← h.room]; rfl
  room := by
    simp only [Out.write, h.room, Option.map_map]
    cases room with
    | none => rfl
    | some n => simp [Nat.sub_sub]

theorem Out.Took.write_snd {room : Option Nat} {all : Bytes} {out : Out} (h : out.Took room all)
    (hfits : fits room all = true) (b : Bytes) : (out.write b).2 = fits room (all ++ b) := by
  rw [fits_append, hfits, Bool.true_and, ← h.room]
  rfl

section Encrypt

variable (scheme : Ciphertexts Bytes) {w : World} {src dst : Path} {key p : Bytes}

/-- What is left when all went well up to the writes: as much of the artifact as could be written. -/
structure Encrypted (w : World) (dst : Path) (key p : Bytes) (nonce : Nonce) (room : Option Nat)
    (r : World × Option Text) : Prop where
  files : r.1.files = Function.update w.files dst (some (taken room (artifact scheme key nonce p)))
  err : r.2 = if fits room (artifact scheme key nonce p) then none else some (noSpace dst)
  made : ∀ s ∈ r.1.made, s = ⟨key, nonce.bytes, p, []⟩ ∨ s ∈ w.made
  whole : fits room (artifact scheme key nonce p) = true → ⟨key, nonce.bytes, p, []⟩ ∈ r.1.made

variable {scheme}

theorem Encrypted.file {nonce : Nonce} {room : Option Nat} {r : World × Option Text}
    (h : Encrypted scheme w dst key p nonce room r) :
    r.1.files dst = some (taken room (artifact scheme key nonce p)) := by
  rw [h.files, Function.update_self]

/-- Of the sealings under a new key there is one at most. -/
theorem Encrypted.only {nonce : Nonce} {room : Option Nat} {r : World × Option Text}
    (h : Encrypted scheme w dst key p nonce room r) (hunused : ∀ s ∈ w.made, s.key ≠ key) :
    ∀ s ∈ r.1.made, s.key = key → s = ⟨key, nonce.bytes, p, []⟩ := by
  intro s hs hkey
  rcases h.made s hs with hnew | hold
  · exact hnew
  · exact absurd hkey (hunused s hold)

@[simp] theorem World.files_put_self (w : World) (path : Path) (b : Bytes) :
    (w.put path b).files path = some b := Function.update_self ..

theorem World.files_put_of_ne (w : World) {path other : Path} (h : other ≠ path) (b : Bytes) :
    (w.put path b).files other = w.files other := Function.update_of_ne h ..

@[simp] theorem World.put_put (w : World) (path : Path) (b b' : Bytes) :
    (w.put path b).put path b' = w.put path b' := by
  simp [World.put]

/-- A write before the last one stopped short. -/
theorem encrypted_short {nonce : Nonce} {room : Option Nat} {part rest : Bytes} {out : Out}
    (hpart : artifact scheme key nonce p = part ++ rest) (hout : out.Took room part)
    (hfits : fits room part = false) :
    Encrypted scheme w dst key p nonce room ((w.put dst []).put dst out.data, some (noSpace dst)) := by
  have hshort : fits room (artifact scheme key nonce p) = false := by
    rw [hpart, fits_append, hfits, Bool.false_and]
  refine ⟨?_, ?_, fun s hs => .inr hs, fun hwhole => ?_⟩
  · rw [hpart, taken_append_of_not_fits hfits, ← hout.data, World.put_put]
    rfl
  · rw [hshort]
    rfl
  · rw [hshort] at hwhole
    cases hwhole

variable (scheme) in
theorem encryptFile_encrypted (hsrc : w.files src = some p) (hdst : w.files dst = none)
    (hkey : newCipher key = none) (nonce : Nonce) (room : Option Nat) :
    Encrypted scheme w dst key p nonce room (encryptFile scheme w src dst key (.ok nonce) room) := by
  have h1 := (Out.Took.empty room).write magic
  have h2 := h1.write nonce.bytes
  have h3 := h2.write (scheme.ciphertext ⟨key, nonce.bytes, p, []⟩)
  have hempty : fits room [] = true := by cases room <;> rfl
  simp only [encryptFile, hsrc, hdst, hkey, (Out.Took.empty room).write_snd hempty, List.nil_append] at h1 h2 h3 ⊢
  split
  next hmagic => exact encrypted_short (List.append_assoc _ _ _) h1 (by simpa using hmagic)
  next hmagic =>
    rw [h1.write_snd (by simpa using hmagic)]
    split
    next hnonce => exact encrypted_short rfl h2 (by simpa using hnonce)
    next hnonce =>
      rw [h2.write_snd (by simpa using hnonce)]
      refine ⟨?_, rfl, fun s hs => List.mem_cons.mp hs, fun _ => List.mem_cons_self⟩
      rw [World.put_put, h3.data]
      rfl

end Encrypt

/-! ## Reading back -/

section Decrypt

variable {scheme : Ciphertexts Bytes} {w : World} {src : Path} {key : Bytes}

/-- A file that is long enough has a place for the magic and one for the nonce. -/
theorem exists_frame {b : Bytes} (h : 8 + nonceSize ≤ b.length) :
    ∃ (head : Bytes) (nonce : Nonce) (c : Bytes), b = head ++ nonce.bytes ++ c ∧ head.length = 8 := by
  have hlen : ((b.drop 8).take nonceSize).length = nonceSize := by
    rw [List.length_take, List.length_drop]
    omega
  refine ⟨b.take 8, ⟨(b.drop 8).take nonceSize, hlen⟩, (b.drop 8).drop nonceSize, ?_, ?_⟩
  · rw [List.append_assoc, List.take_append_drop, List.take_append_drop]
  · rw [List.length_take]
    omega

theorem slice_append (a b c : Bytes) {lo hi : Nat} (hlo : a.length = lo) (hhi : lo + b.length = hi) :
    slice (a ++ b ++ c) lo hi = some b := by
  have hlen : (a ++ b).length = hi := by rw [List.length_append, hlo, hhi]
  have hrange : lo ≤ hi ∧ hi ≤ (a ++ b ++ c).length := by
    rw [List.length_append, hlen]
    omega
  rw [slice, if_pos hrange, List.take_left' hlen, List.drop_left' hlo]

variable (scheme) in
/-- What `decryptHeader` makes of a file that is long enough. -/
theorem decryptHeader_frame {head c : Bytes} {nonce : Nonce}
    (hfile : w.files src = some (head ++ nonce.bytes ++ c)) (hkey : newCipher key = none)
    (hhead : head.length = 8) :
    decryptHeader scheme w src key = some (
      if head ≠ magic then invalidArtifact
      else match scheme.opened w.made key nonce.bytes c [] with
        | some p => { plain := p, nonce := nonce.bytes }
        | none => { nonce := nonce.bytes, err := some "cipher: message authentication failed".toList }) := by
  have hnonce := nonce.length
  have hlo : (head ++ nonce.bytes).length = 8 + nonceSize := by rw [List.length_append, hhead, hnonce]
  have hhi : 8 + nonceSize + c.length = (head ++ nonce.bytes ++ c).length := by rw [List.length_append, hlo]
  have hmagic : slice (head ++ nonce.bytes ++ c) 0 8 = some head := by
    rw [List.append_assoc]
    exact slice_append [] head _ rfl (by omega)
  have hmiddle := slice_append head nonce.bytes c hhead (congrArg (8 + ·) hnonce)
  have hrest := slice_append (head ++ nonce.bytes) c [] hlo hhi
  rw [List.append_nil] at hrest
  simp only [decryptHeader, hfile, hkey, if_neg (Nat.not_lt.mpr (Nat.le.intro hhi)), hmagic, hmiddle, hrest,
    gcmOpen, if_pos hnonce, Option.bind_eq_bind, Option.bind_some, Option.pure_def]
  split
  next _ => rfl
  next _ => cases scheme.opened w.made key nonce.bytes c [] <;> rfl

theorem decryptHeader_short {b : Bytes} (hfile : w.files src = some b) (hkey : newCipher key = none)
    (hshort : b.length < 8 + nonceSize) : decryptHeader scheme w src key = some invalidArtifact := by
  simp only [decryptHeader, hfile, hkey, if_pos hshort]

/-- What was sealed under the key opens. -/
theorem decryptHeader_artifact {p : Bytes} {nonce : Nonce}
    (hfile : w.files src = some (artifact scheme key nonce p)) (hkey : newCipher key = none)
    (hmade : ⟨key, nonce.bytes, p, []⟩ ∈ w.made) :
    decryptHeader scheme w src key = some { plain := p, nonce := nonce.bytes } := by
  rw [decryptHeader_frame scheme hfile hkey rfl, if_neg (not_not_intro rfl),
    Ciphertexts.opened_iff.mpr ⟨hmade, rfl⟩]

variable (scheme) in
/-- The file is refused: there is an error and no plaintext, and nothing is written. -/
def Refused (w : World) (src : Path) (key : Bytes) : Prop :=
  ∃ h err, decryptHeader scheme w src key = some h ∧ h.err = some err ∧ h.plain = [] ∧
    ∀ dst room, decryptFile scheme w src dst key room = some (w, some err)

theorem refused_of_header {h : Header} {err : Text} (heq : decryptHeader scheme w src key = some h)
    (herr : h.err = some err) (hplain : h.plain = []) : Refused scheme w src key := by
  refine ⟨h, err, heq, herr, hplain, fun dst room => ?_⟩
  simp only [decryptFile, heq, herr, Option.bind_eq_bind, Option.bind_some, Option.pure_def]

variable (scheme) in
/-- A file decrypts to what was sealed under the key and to nothing else: it is the artifact of that
sealing, or it is refused. -/
theorem decrypted_or_refused {b : Bytes} (hfile : w.files src = some b) (hkey : newCipher key = none) :
    (∃ (nonce : Nonce) (p : Bytes), ⟨key, nonce.bytes, p, []⟩ ∈ w.made ∧ b = artifact scheme key nonce p) ∨
      Refused scheme w src key := by
  by_cases hlen : 8 + nonceSize ≤ b.length
  · obtain ⟨head, nonce, c, rfl, hhead⟩ := exists_frame hlen
    have heq := decryptHeader_frame scheme hfile hkey hhead
    by_cases hmagic : head = magic
    · subst hmagic
      rw [if_neg (not_not_intro rfl)] at heq
      cases hopen : scheme.opened w.made key nonce.bytes c [] with
      | some p =>
          obtain ⟨hmade, rfl⟩ := Ciphertexts.opened_iff.mp hopen
          exact .inl ⟨nonce, p, hmade, rfl⟩
      | none =>
          rw [hopen] at heq
          exact .inr (refused_of_header heq rfl rfl)
    · rw [if_pos hmagic] at heq
      exact .inr (refused_of_header heq rfl rfl)
  · exact .inr (refused_of_header (decryptHeader_short hfile hkey (Nat.not_le.mp hlen)) rfl rfl)

/-- With one sealing under the key, there is one file that is not refused. -/
theorem refused_of_ne {b p : Bytes} {nonce : Nonce} (hfile : w.files src = some b)
    (hkey : newCipher key = none) (honly : ∀ s ∈ w.made, s.key = key → s = ⟨key, nonce.bytes, p, []⟩)
    (hne : b ≠ artifact scheme key nonce p) : Refused scheme w src key := by
  rcases decrypted_or_refused scheme hfile hkey with ⟨⟨nonce', hlen⟩, p', hmade, hb⟩ | hrefused
  · cases honly _ hmade rfl
    exact absurd hb hne
  · exact hrefused

end Decrypt

theorem newCipher_of_length {key : Bytes} (h : key.length = 32) : newCipher key = none :=
  if_pos (.inr (.inr h))

/-- A dump is sealed under a key that nothing else was sealed under, with any nonce.  When the
artifact is written to its end, decrypting it restores the dump, and any other bytes, in any file, are
refused.  When the write is interrupted, a proper beginning of the artifact is left, and it is refused. -/
theorem only_artifact_decrypts (scheme : Ciphertexts Bytes) {w : World} {src dst : Path}
    {key p : Bytes} (nonce : Nonce) (hkey : key.length = 32) (hsrc : w.files src = some p)
    (hdst : w.files dst = none) (hunused : ∀ s ∈ w.made, s.key ≠ key) :
    (∃ w', encryptFile scheme w src dst key (.ok nonce) none = (w', none) ∧
      w'.files = Function.update w.files dst (some (artifact scheme key nonce p)) ∧
      (∀ out, decryptFile scheme w' dst out key none = some (w'.put out p, none)) ∧
      ∀ files path b, files path = some b → b ≠ artifact scheme key nonce p →
        Refused scheme { w' with files := files } path key) ∧
    ∀ n, n < (artifact scheme key nonce p).length →
      ∃ w', encryptFile scheme w src dst key (.ok nonce) (some n) = (w', some (noSpace dst)) ∧
        w'.files = Function.update w.files dst (some ((artifact scheme key nonce p).take n)) ∧
        Refused scheme w' dst key := by
  have hcipher := newCipher_of_length hkey
  have henc := encryptFile_encrypted scheme hsrc hdst hcipher nonce
  constructor
  · have hr := henc none
    refine ⟨_, Prod.ext rfl hr.err, hr.files, fun out => ?_, fun files path b hfile hne => ?_⟩
    · simp only [decryptFile, decryptHeader_artifact hr.file hcipher (hr.whole rfl), Option.bind_eq_bind,
        Option.bind_some, Option.pure_def]
      rfl
    · exact refused_of_ne hfile hcipher (hr.only hunused) hne
  · intro n hn
    have hr := henc (some n)
    have hfits : fits (some n) (artifact scheme key nonce p) = false := decide_eq_false (Nat.not_le.mpr hn)
    have herr := hr.err
    rw [hfits] at herr
    refine ⟨_, Prod.ext rfl herr, hr.files, refused_of_ne hr.file hcipher (hr.only hunused) fun heq => ?_⟩
    -- a proper beginning is shorter
    have hlen := congrArg List.length heq
    rw [taken, List.length_take] at hlen
    omega

/-- A dump of three bytes comes back, and its artifact with another last byte is refused. -/
theorem three_bytes_restored :
    let scheme := Ciphertexts.clear Bytes
    let w : World := { files := fun path => if path = "dump".toList then some [1, 2, 3] else none, made := [] }
    let key := List.replicate 32 7
    let nonce : Nonce := ⟨List.replicate 12 0, rfl⟩
    let src := "dump".toList
    let dst := "backup".toList
    let out := "plain".toList
    ∃ w', encryptFile scheme w src dst key (.ok nonce) none = (w', none) ∧
      decryptFile scheme w' dst out key none = some (w'.put out [1, 2, 3], none) ∧
      Refused scheme { w' with files := fun _ => some (magic ++ List.replicate 12 0 ++ [1, 2, 4]) } dst key := by
  intro scheme w key nonce src dst out
  have hkey : key.length = 32 := rfl
  have hsrc : w.files src = some [1, 2, 3] := rfl
  have hdst : w.files dst = none := rfl
  obtain ⟨⟨w', henc, _, hdec, href⟩, _⟩ :=
    only_artifact_decrypts scheme nonce hkey hsrc hdst (List.forall_mem_nil _)
  exact ⟨w', henc, hdec out, href _ dst _ rfl (by decide)⟩

/-! ## The drill -/

/-- An entry of the directory, whose time is missing when `Info` fails. -/
structure Entry where
  name : Text
  /-- The time since the zero time. -/
  modTime : Option Int

def artifactPath (root name : Text) : Path := root ++ '/' :: name

def isArtifact (e : Entry) : Bool := ".dump.aes".toList.isSuffixOf e.name

/-- One pass of the loop over the directory. -/
def newer (root : Text) (newest : Path × Int) (e : Entry) : Path × Int :=
  match e.modTime with
  | some t => if isArtifact e ∧ newest.2 < t then (artifactPath root e.name, t) else newest
  | none => newest

def newestArtifact (root : Text) (entries : List Entry) : Path × Int := entries.foldl (newer root) ([], 0)

/-- What the programs of PostgreSQL answer: an error, or for `psql` what it prints. -/
structure Tools where
  createdb : Option Text
  pgRestore : Bytes → Option Text
  psql : Bytes → Except Text Text

structure Drill where
  world : World
  /-- What `pg_restore` read. -/
  restored : Option Bytes := none
  err : Option Text := none

/-- The drill from the new database on. -/
def restoreDump (tools : Tools) (w : World) (dump : Bytes) : Drill :=
  match tools.createdb with
  | some err => { world := w, err := some ("create isolated drill database: ".toList ++ err) }
  | none =>
      match tools.pgRestore dump, tools.psql dump with
      | some err, _ => { world := w, restored := some dump, err := some ("pg_restore: ".toList ++ err) }
      | none, .error err => { world := w, restored := some dump, err := some err }
      | none, .ok out =>
          if Strings.trimSpace out = "0".toList then
            { world := w, restored := some dump,
              err := some "restore drill completed but no application tables were found".toList }
          else { world := w, restored := some dump }

/-- `temp` is the file that `os.CreateTemp` makes, `close` the error of closing it, and `removed` says
whether `os.Remove` works at the end. -/
def runDrill (scheme : Ciphertexts Bytes) (tools : Tools) (w : World) (root : Text)
    (readDir : Except Text (List Entry)) (temp : Except Text Path) (close : Option Text) (removed : Bool)
    (key : Bytes) (room : Option Nat) : Option Drill :=
  match readDir with
  | .error err => some { world := w, err := some err }
  | .ok entries =>
      let newest := (newestArtifact root entries).1
      if newest = [] then some { world := w, err := some "no encrypted backup artifact found".toList }
      else match temp with
        | .error err => some { world := w, err := some err }
        | .ok plain =>
            match close with
            -- the removal is not deferred yet
            | some err => some { world := w.put plain [], err := some err }
            | none => do
                let (w, err) ← decryptFile scheme (w.put plain []) newest plain key room
                let after := if removed then w.remove plain else w
                match err with
                | some err => return { world := after, err := some err }
                | none => return restoreDump tools after ((w.files plain).getD [])

/-- The artifact that was changed last among the entries seen, if there is one. -/
structure Newest (root : Text) (seen : List Entry) (newest : Path × Int) : Prop where
  chosen : newest = ([], 0) ∨ ∃ e ∈ seen, isArtifact e = true ∧ e.modTime = some newest.2 ∧
    newest.1 = artifactPath root e.name
  latest : ∀ e ∈ seen, isArtifact e = true → ∀ t, e.modTime = some t → t ≤ newest.2

theorem Newest.step {root : Text} {seen : List Entry} {newest : Path × Int} (h : Newest root seen newest)
    (e : Entry) : Newest root (seen ++ [e]) (newer root newest e) := by
  -- what was chosen before stays when `e` is not later
  have hkeep : (∀ t, e.modTime = some t → isArtifact e = true → t ≤ newest.2) →
      Newest root (seen ++ [e]) newest := by
    intro hle
    constructor
    · rcases h.chosen with hnone | ⟨e', he', hchosen⟩
      · exact .inl hnone
      · exact .inr ⟨e', List.mem_append_left _ he', hchosen⟩
    · intro e' he' hart t ht
      rcases List.mem_append.mp he' with hold | hnew
      · exact h.latest e' hold hart t ht
      · cases List.mem_singleton.mp hnew
        exact hle t ht hart
  unfold newer
  split
  next t ht =>
    split
    next hlater =>
      refine ⟨.inr ⟨e, List.mem_append_right _ (List.mem_singleton_self e), hlater.1, ht, rfl⟩, ?_⟩
      intro e' he' hart t' ht'
      rcases List.mem_append.mp he' with hold | hnew
      · exact Int.le_of_lt (Int.lt_of_le_of_lt (h.latest e' hold hart t' ht') hlater.2)
      · cases List.mem_singleton.mp hnew
        exact Int.le_of_eq (Option.some.inj (ht'.symm.trans ht))
    next hlater =>
      refine hkeep fun t' ht' hart => ?_
      cases Option.some.inj (ht.symm.trans ht')
      exact Int.not_lt.mp fun hlt => hlater ⟨hart, hlt⟩
  next hnone =>
    refine hkeep fun t' ht' _ => ?_
    rw [hnone] at ht'
    cases ht'

theorem Newest.run {root : Text} (entries : List Entry) {seen : List Entry} {newest : Path × Int}
    (h : Newest root seen newest) : Newest root (seen ++ entries) (entries.foldl (newer root) newest) := by
  induction entries generalizing seen newest with
  | nil => simpa using h
  | cons e entries ih => simpa using ih (h.step e)

theorem newestArtifact_newest (root : Text) (entries : List Entry) :
    Newest root entries (newestArtifact root entries) :=
  Newest.run entries ⟨.inl rfl, List.forall_mem_nil _⟩

/-- Decrypting a file writes what was sealed under the key, or nothing. -/
theorem decryptFile_cases (scheme : Ciphertexts Bytes) (w : World) (src dst : Path) (key : Bytes)
    (room : Option Nat) :
    (∃ err, decryptFile scheme w src dst key room = some (w, some err)) ∨
      ∃ (nonce : Nonce) (p : Bytes), ⟨key, nonce.bytes, p, []⟩ ∈ w.made ∧
        w.files src = some (artifact scheme key nonce p) ∧
        decryptFile scheme w src dst key room =
          some (w.put dst (taken room p), if fits room p then none else some (noSpace dst)) := by
  cases hfile : w.files src with
  | none => exact .inl ⟨notExist src, by simp [decryptFile, decryptHeader, hfile]⟩
  | some b =>
      cases hkey : newCipher key with
      | some err => exact .inl ⟨err, by simp [decryptFile, decryptHeader, hfile, hkey]⟩
      | none =>
          rcases decrypted_or_refused scheme hfile hkey with ⟨nonce, p, hmade, rfl⟩ | hrefused
          · refine .inr ⟨nonce, p, hmade, rfl, ?_⟩
            simp [decryptFile, decryptHeader_artifact hfile hkey hmade]
          · obtain ⟨_, err, _, _, _, hfiles⟩ := hrefused
            exact .inl ⟨err, hfiles dst room⟩

theorem World.remove_put {w : World} {path : Path} (hfresh : w.files path = none) (b : Bytes) :
    (w.put path b).remove path = w := by
  have hfiles : Function.update (Function.update w.files path (some b)) path none = w.files := by
    rw [Function.update_idem, ← hfresh, Function.update_eq_self]
  simp only [World.put, World.remove, hfiles]

/-- The files after a drill: as they were, or with the temporary file, if closing or removing it
failed. -/
inductive Left (w : World) (temp : Except Text Path) (close : Option Text) (removed : Bool) : World → Prop where
  | clean : Left w temp close removed w
  | unclosed {plain : Path} (htemp : temp = .ok plain) (hclose : close ≠ none) :
      Left w temp close removed (w.put plain [])
  | unremoved {plain : Path} (htemp : temp = .ok plain) (hremoved : removed = false) (b : Bytes) :
      Left w temp close removed (w.put plain b)

theorem Left.eq_of_works {w after : World} {temp : Except Text Path} (h : Left w temp none true after) :
    after = w := by
  cases h with
  | clean => rfl
  | unclosed _ hclose => exact absurd rfl hclose
  | unremoved _ hremoved _ => cases hremoved

/-- What `os.Remove` leaves of a new file. -/
theorem left_removal {w : World} {plain : Path} (hfresh : w.files plain = none) (close : Option Text)
    (removed : Bool) (b : Bytes) :
    Left w (.ok plain) close removed (if removed then (w.put plain b).remove plain else w.put plain b) := by
  cases removed with
  | true =>
      rw [if_pos rfl, World.remove_put hfresh]
      exact .clean
  | false => exact .unremoved rfl rfl b

/-- What holds of a drill on the directory, with any outcome. -/
structure Safe (scheme : Ciphertexts Bytes) (w : World) (root : Text) (readDir : Except Text (List Entry))
    (key : Bytes) (d : Drill) : Prop where
  success : d.err = none → d.restored ≠ none
  /-- What is restored was sealed under the key, and comes from the artifact that was changed last. -/
  restored : ∀ dump, d.restored = some dump → ∃ entries newest, readDir = .ok entries ∧
    Newest root entries newest ∧ ∃ nonce : Nonce, ⟨key, nonce.bytes, dump, []⟩ ∈ w.made ∧
      w.files newest.1 = some (artifact scheme key nonce dump)

theorem safe_error (scheme : Ciphertexts Bytes) (w after : World) (root : Text)
    (readDir : Except Text (List Entry)) (key : Bytes) (err : Text) :
    Safe scheme w root readDir key { world := after, err := some err } where
  success h := by cases h
  restored dump h := by cases h

theorem safe_restoreDump {scheme : Ciphertexts Bytes} {w : World} {root : Text} {entries : List Entry}
    {newest : Path × Int} {key dump : Bytes} {nonce : Nonce} (tools : Tools) (after : World)
    (hnewest : Newest root entries newest) (hmade : ⟨key, nonce.bytes, dump, []⟩ ∈ w.made)
    (hfile : w.files newest.1 = some (artifact scheme key nonce dump)) :
    (restoreDump tools after dump).world = after ∧
      Safe scheme w root (.ok entries) key (restoreDump tools after dump) := by
  have hrestored (err : Option Text) :
      Safe scheme w root (.ok entries) key { world := after, restored := some dump, err := err } := by
    refine ⟨fun _ => Option.some_ne_none dump, fun dump' heq => ?_⟩
    cases heq
    exact ⟨entries, newest, rfl, hnewest, nonce, hmade, hfile⟩
  unfold restoreDump
  split
  next err _ => exact ⟨rfl, safe_error scheme w after root _ key _⟩
  next _ =>
    split
    next _ => exact ⟨rfl, hrestored _⟩
    next _ => exact ⟨rfl, hrestored _⟩
    next _ => split <;> exact ⟨rfl, hrestored _⟩

/-- Every drill is safe: it leaves the files as they were, but for a temporary file that it cannot
close or remove, and restores no dump that was not sealed under the key, whatever the files of the
directory are. -/
theorem drill_restores_sealed (scheme : Ciphertexts Bytes) (tools : Tools) (w : World) (root : Text)
    (readDir : Except Text (List Entry)) (temp : Except Text Path) (close : Option Text) (removed : Bool)
    (key : Bytes) (room : Option Nat) (hfresh : ∀ plain, temp = .ok plain → w.files plain = none) :
    ∃ d, runDrill scheme tools w root readDir temp close removed key room = some d ∧
      Left w temp close removed d.world ∧ Safe scheme w root readDir key d := by
  have hfail (after : World) (err : Text) := safe_error scheme w after root readDir key err
  unfold runDrill
  split
  next err => exact ⟨_, rfl, .clean, hfail w err⟩
  next entries =>
    dsimp only
    split
    next _ => exact ⟨_, rfl, .clean, hfail w _⟩
    next _ =>
      split
      next err => exact ⟨_, rfl, .clean, hfail w err⟩
      next plain =>
        split
        next err => exact ⟨_, rfl, .unclosed rfl (Option.some_ne_none err), hfail _ err⟩
        next =>
          have hleft := left_removal (hfresh plain rfl) none removed
          rcases decryptFile_cases scheme (w.put plain []) (newestArtifact root entries).1 plain key room with
            ⟨err, heq⟩ | ⟨nonce, p, hmade, hfile, heq⟩
          · simp only [heq, Option.bind_eq_bind, Option.bind_some, Option.pure_def]
            exact ⟨_, rfl, hleft [], hfail _ err⟩
          · simp only [heq, Option.bind_eq_bind, Option.bind_some, Option.pure_def, World.put_put]
            cases hfits : fits room p with
            | false => exact ⟨_, rfl, hleft _, hfail _ _⟩
            | true =>
                -- the file is not the new one, which is empty
                have hne : (newestArtifact root entries).1 ≠ plain := by
                  intro hplain
                  rw [hplain, World.files_put_self] at hfile
                  cases hfile
                rw [World.files_put_of_ne w hne] at hfile
                simp only [if_true, World.files_put_self, taken_of_fits hfits, Option.getD_some]
                obtain ⟨hworld, hsafe⟩ :=
                  safe_restoreDump (w := w) tools _ (newestArtifact_newest root entries) hmade hfile
                exact ⟨_, rfl, hworld ▸ hleft p, hsafe⟩

/-- A drill on a directory with one artifact, which has a dump of three bytes, leaves it as it was. -/
theorem three_bytes_drilled :
    let scheme := Ciphertexts.clear Bytes
    let key := List.replicate 32 7
    let nonce : Nonce := ⟨List.replicate 12 0, rfl⟩
    let w : World := {
      files := fun path => if path = "/b/a.dump.aes".toList then some (artifact scheme key nonce [1, 2, 3]) else none
      made := [⟨key, nonce.bytes, [1, 2, 3], []⟩] }
    let tools : Tools := { createdb := none, pgRestore := fun _ => none, psql := fun _ => .ok "4".toList }
    let readDir := .ok [⟨"a.dump.aes".toList, some 5⟩]
    ∃ d, runDrill scheme tools w "/b".toList readDir (.ok "/b/t".toList) none true key none = some d ∧
      d.world = w ∧ Safe scheme w "/b".toList readDir key d := by
  intro scheme key nonce w tools readDir
  have hfresh : ∀ plain, Except.ok (ε := Text) "/b/t".toList = .ok plain → w.files plain = none := by
    rintro _ ⟨⟩
    rfl
  obtain ⟨d, hd, hleft, hsafe⟩ :=
    drill_restores_sealed scheme tools w "/b".toList readDir _ none true key none hfresh
  exact ⟨d, hd, hleft.eq_of_works, hsafe⟩

end DDAG.BackupRunner
