import DDAG.BackupRunner.Artifact
import DDAG.Lib.Base64
import DDAG.Lib.Pool
import DDAG.Lib.Trace

/-!
# Backups and their retention

`runBackup`, `fileHash` and `cleanup` of `cmd/backup-runner/main.go`.  A timer and the admin service
start backups, and nothing keeps two of them apart.  So any number of runs work on one directory, and
what each does to the directory is one step: the temporary file is made, `pg_dump` fills it, it is
sealed into the artifact, the artifact is read again, the manifest is written, and the old files are
removed one by one.  The steps of the runs interleave in any order, and the clock goes on with each.

`fatalErr` ends the process, so that the deferred removal of the temporary file is not done.

* `backups_kept`: for the time of the retention after its sealing, the artifact of a run that printed
  `BACKUP_OK` is there and decrypts to what `pg_dump` wrote, and its manifest is there and describes it.
  This is so if no run is so slow that it writes its manifest after that time: it may then overwrite the
  manifest of another run with the same name.
* `dumps_left`: the unencrypted dumps in the directory are those of runs that are still at work or have
  failed.
-/

namespace DDAG.BackupRunner

open Machine

/-! ## The directory -/

/-- The files, the times they were changed last, and the clock, in nanoseconds. -/
structure Disk where
  world : World
  modTime : Path → Int
  now : Int

namespace Disk

def write (d : Disk) (path : Path) (b : Bytes) : Disk :=
  { d with world := d.world.put path b, modTime := Function.update d.modTime path d.now }

def remove (d : Disk) (path : Path) : Disk := { d with world := d.world.remove path }

end Disk

/-- What a run reads from the environment. -/
structure Config where
  root : Text
  db : Text
  key : Bytes
  /-- In days. -/
  retention : Int
  key_length : key.length = 32
  retention_range : 1 ≤ retention ∧ retention ≤ 3650

/-- A variable of the environment or its default. -/
def env (getenv : Text → Text) (k d : Text) : Text := if getenv k ≠ [] then getenv k else d

/-- The checks of `main`. -/
def Config.load (getenv : Text → Text) : Except Text Config :=
  match Strings.parseInt (env getenv "DDAG_BACKUP_RETENTION_DAYS".toList "30".toList) with
  | none => .error "invalid DDAG_BACKUP_RETENTION_DAYS".toList
  | some retention =>
      if hrange : 1 ≤ retention ∧ retention ≤ 3650 then
        match Base64.std.decode (getenv "DDAG_BACKUP_KEY".toList) with
        | none => .error "DDAG_BACKUP_KEY must be a base64-encoded 32-byte key".toList
        | some key =>
            if hkey : key.length = 32 then
              .ok {
                root := env getenv "DDAG_BACKUP_ROOT".toList "/var/www/DDAG/var/backups".toList
                db := env getenv "DDAG_DB_NAME".toList "ddag".toList
                key := key
                retention := retention
                key_length := hkey
                retention_range := hrange }
            else .error "DDAG_BACKUP_KEY must be a base64-encoded 32-byte key".toList
      else .error "invalid DDAG_BACKUP_RETENTION_DAYS".toList

/-- `time.Duration(retention)*24*time.Hour`, which the range keeps from an overflow. -/
def Config.age (c : Config) : Int := c.retention * (24 * 3600 * 1000000000)

structure Manifest where
  version : Nat := 1
  createdAt : Int
  database : Text
  artifact : Text
  sha256 : Text
  bytes : Nat
  encryption : Text := "AES-256-GCM".toList
  nonce : Text

/-- The functions of the libraries: what a time, a hash and a manifest are as text. -/
structure Formats where
  /-- `Format("20060102T150405Z")` of a time in UTC. -/
  stamp : Int → Text
  /-- `hex.EncodeToString` of the hash, which has no blanks. -/
  sha256 : Bytes → Text
  sha256_blank : ∀ b, ' ' ∉ sha256 b
  /-- `json.MarshalIndent`. -/
  marshal : Manifest → Bytes

def tempName (random : Text) : Text := ".ddag-backup-".toList ++ random ++ ".tmp".toList

def manifestName (base : Text) : Text := base ++ ".manifest.json".toList

/-- The names that `cleanup` looks at. -/
def cleans (name : Text) : Bool :=
  ".dump.aes".toList.isSuffixOf name || ".manifest.json".toList.isSuffixOf name

/-- The hash and the length of a file.  `err` is an error of reading it. -/
def fileHash (formats : Formats) (w : World) (path : Path) (err : Option Text) : Except Text (Text × Nat) :=
  match w.files path, err with
  | none, _ => .error (notExist path)
  | some _, some err => .error err
  | some b, none => .ok (formats.sha256 b, b.length)

/-! ## One run -/

/-- `BACKUP_OK artifact=%s sha256=%s bytes=%d`, the line at the end of a run. -/
def okLine (artifact sha256 : Text) (bytes : Nat) : Text :=
  "BACKUP_OK".toList ++ ' ' :: ("artifact=".toList ++ artifact ++ ' ' :: ("sha256=".toList ++ sha256 ++
    ' ' :: ("bytes=".toList ++ Strings.decimal bytes)))

/-- A run that has a temporary file. -/
structure Job where
  temp : Text
  base : Text
  /-- What `pg_dump` wrote. -/
  dump : Bytes := []
  /-- The nonce and the time of the sealing, when the artifact is whole. -/
  sealing : Option (Nonce × Int) := none

/-- What a run does next, with the variables it has. -/
inductive Phase where
  | dump
  | encrypt
  | hash
  | header (sum : Text) (n : Nat)
  | manifest (sum : Text) (n : Nat) (nonce : Bytes)
  | list (m : Manifest)
  | clean (m : Manifest) (cut : Int) (names : List Text)

inductive Run where
  | start
  | working (j : Job) (p : Phase)
  /-- `fatalErr`. -/
  | failed (j : Option Job) (err : Text)
  /-- The line is printed, and the temporary file is removed unless that fails. -/
  | done (j : Job) (m : Manifest) (removed : Bool)

/-- What the world does in a step. -/
inductive Action where
  /-- The error of `os.MkdirAll`, and what `os.CreateTemp` puts for the star or its error. -/
  | create (mkdir : Option Text) (random : Except Text Text)
  /-- What `pg_dump` writes, and the errors of it and of closing the file. -/
  | dump (b : Bytes) (pgDump close : Option Text)
  | encrypt (random : Except Text Nonce) (room : Option Nat)
  /-- An error of reading the artifact. -/
  | hash (err : Option Text)
  | header (err : Option Text)
  /-- The error of opening the manifest, or the room there is for it. -/
  | manifest (room : Except Text (Option Nat))
  /-- What `os.ReadDir` lists. -/
  | list (names : List Text)
  /-- Whether `Info` and `os.Remove` work. -/
  | visit (works : Bool)
  | finish (removed : Bool)

section Steps

variable (scheme : Ciphertexts Bytes) (formats : Formats) (c : Config)

def Config.path (name : Text) : Path := artifactPath c.root name

/-- The name of the artifact of a run that starts at the time. -/
def artifactName (t : Int) : Text := c.db ++ '-' :: formats.stamp t ++ ".dump.aes".toList

/-- What `encryptFile` does to the directory.  It changes the artifact unless there was one. -/
def Disk.encrypt (d : Disk) (j : Job) (random : Except Text Nonce) (room : Option Nat) : Disk × Option Text :=
  let (w, err) := encryptFile scheme d.world (c.path j.temp) (c.path j.base) c.key random room
  ({ d with
      world := w
      modTime := if d.world.files (c.path j.base) = none then
        Function.update d.modTime (c.path j.base) d.now else d.modTime }, err)

def describe (d : Disk) (j : Job) (sum : Text) (n : Nat) (nonce : Bytes) : Manifest where
  createdAt := d.now
  database := c.db
  artifact := j.base
  sha256 := sum
  bytes := n
  nonce := Base64.std.encode nonce

/-- One pass of the loop of `cleanup`. -/
def Disk.visit (d : Disk) (cut : Int) (name : Text) (works : Bool) : Disk :=
  if cleans name && works && d.modTime (c.path name) < cut then d.remove (c.path name) else d

/-- One step of a run. -/
def act (d : Disk) : Run → Action → Option (Disk × Run)
  | .start, .create (some err) _ => some (d, .failed none err)
  | .start, .create none (.error err) => some (d, .failed none err)
  | .start, .create none (.ok random) =>
      -- a name that is taken is tried again with another
      if d.world.files (c.path (tempName random)) = none then
        some (d.write (c.path (tempName random)) [],
          .working { temp := tempName random, base := artifactName formats c d.now } .dump)
      else none
  | .working j .dump, .dump b pgDump close =>
      let d := d.write (c.path j.temp) b
      let j := { j with dump := b }
      match pgDump, close with
      | some err, _ => some (d, .failed (some j) ("pg_dump: ".toList ++ err))
      | none, some err => some (d, .failed (some j) err)
      | none, none => some (d, .working j .encrypt)
  | .working j .encrypt, .encrypt random room =>
      match d.encrypt scheme c j random room with
      | (d, some err) => some (d, .failed (some j) err)
      | (d, none) => some (d, .working { j with sealing := random.toOption.map (·, d.now) } .hash)
  | .working j .hash, .hash err =>
      match fileHash formats d.world (c.path j.base) err with
      | .error err => some (d, .failed (some j) err)
      | .ok (sum, n) => some (d, .working j (.header sum n))
  | .working j (.header _ _), .header (some err) => some (d, .failed (some j) err)
  | .working j (.header sum n), .header none =>
      -- `none` is a panic
      (decryptHeader scheme d.world (c.path j.base) c.key).map fun h =>
        match h.err with
        | some err => (d, .failed (some j) err)
        | none => (d, .working j (.manifest sum n h.nonce))
  | .working j (.manifest _ _ _), .manifest (.error err) => some (d, .failed (some j) err)
  | .working j (.manifest sum n nonce), .manifest (.ok room) =>
      let m := describe c d j sum n nonce
      let path := c.path (manifestName j.base)
      let d := d.write path (taken room (formats.marshal m))
      if fits room (formats.marshal m) then some (d, .working j (.list m))
      else some (d, .failed (some j) (noSpace path))
  | .working j (.list m), .list names => some (d, .working j (.clean m (d.now - c.age) names))
  | .working j (.clean m cut (name :: names)), .visit works =>
      some (d.visit c cut name works, .working j (.clean m cut names))
  | .working j (.clean m _ []), .finish removed =>
      some (if removed then d.remove (c.path j.temp) else d, .done j m removed)
  | _, _ => none

/-- A step at a time, which is not before that of the last step. -/
def actAt (d : Disk) (r : Run) (a : Int × Action) : Option (Disk × Run) :=
  if d.now ≤ a.1 then act scheme formats c { d with now := a.1 } r a.2 else none

abbrev Site := Pool Disk Run

abbrev SiteEvent := PoolEvent Run (Int × Action)

def step (s : Site) (e : SiteEvent) : Option Site :=
  poolStep (fun r => r matches .start) (actAt scheme formats c) s e

def site (d : Disk) : Site := { shared := d, threads := [] }

/-! ## What a step does -/

/-- What a step does to the directory and to its run. -/
inductive Acts (d : Disk) : Run → Disk → Run → Prop where
  | refused (err : Text) : Acts d .start d (.failed none err)
  | created (random : Text) (hfree : d.world.files (c.path (tempName random)) = none) :
      Acts d .start (d.write (c.path (tempName random)) [])
        (.working { temp := tempName random, base := artifactName formats c d.now } .dump)
  | dumpFailed (j : Job) (b : Bytes) (err : Text) :
      Acts d (.working j .dump) (d.write (c.path j.temp) b) (.failed (some { j with dump := b }) err)
  | dumped (j : Job) (b : Bytes) :
      Acts d (.working j .dump) (d.write (c.path j.temp) b) (.working { j with dump := b } .encrypt)
  | encryptFailed (j : Job) (random : Except Text Nonce) (room : Option Nat) (err : Text) :
      Acts d (.working j .encrypt) (d.encrypt scheme c j random room).1 (.failed (some j) err)
  | encrypted (j : Job) (random : Except Text Nonce) (room : Option Nat)
      (hok : (d.encrypt scheme c j random room).2 = none) :
      Acts d (.working j .encrypt) (d.encrypt scheme c j random room).1
        (.working { j with sealing := random.toOption.map (·, d.now) } .hash)
  /-- The artifact cannot be read again, or the manifest cannot be opened. -/
  | failed (j : Job) (p : Phase) (err : Text) : Acts d (.working j p) d (.failed (some j) err)
  | hashed (j : Job) {b : Bytes} (hfile : d.world.files (c.path j.base) = some b) :
      Acts d (.working j .hash) d (.working j (.header (formats.sha256 b) b.length))
  | opened (j : Job) (sum : Text) (n : Nat) {h : Header}
      (hheader : decryptHeader scheme d.world (c.path j.base) c.key = some h) :
      Acts d (.working j (.header sum n)) d (.working j (.manifest sum n h.nonce))
  | manifestFailed (j : Job) (sum : Text) (n : Nat) (nonce b : Bytes) (err : Text) :
      Acts d (.working j (.manifest sum n nonce)) (d.write (c.path (manifestName j.base)) b)
        (.failed (some j) err)
  | recorded (j : Job) (sum : Text) (n : Nat) (nonce : Bytes) :
      Acts d (.working j (.manifest sum n nonce))
        (d.write (c.path (manifestName j.base)) (formats.marshal (describe c d j sum n nonce)))
        (.working j (.list (describe c d j sum n nonce)))
  | listed (j : Job) (m : Manifest) (names : List Text) :
      Acts d (.working j (.list m)) d (.working j (.clean m (d.now - c.age) names))
  | visited (j : Job) (m : Manifest) (cut : Int) (name : Text) (names : List Text) (works : Bool) :
      Acts d (.working j (.clean m cut (name :: names))) (d.visit c cut name works)
        (.working j (.clean m cut names))
  | finished (j : Job) (m : Manifest) (cut : Int) (removed : Bool) :
      Acts d (.working j (.clean m cut [])) (if removed then d.remove (c.path j.temp) else d)
        (.done j m removed)

variable {scheme formats c}

theorem act_acts {d d' : Disk} {r r' : Run} {a : Action} (h : act scheme formats c d r a = some (d', r')) :
    Acts scheme formats c d r d' r' := by
  unfold act at h
  split at h
  next err _ =>
    cases h
    exact .refused err
  next err =>
    cases h
    exact .refused err
  next random =>
    split at h
    next hfree =>
      cases h
      exact .created random hfree
    next _ => cases h
  next j b pgDump close =>
    dsimp only at h
    split at h
    next _ =>
      cases h
      exact .dumpFailed j b _
    next _ =>
      cases h
      exact .dumpFailed j b _
    next =>
      cases h
      exact .dumped j b
  next j random room =>
    split at h
    next err heq =>
      cases h
      have hdisk : (d.encrypt scheme c j random room).1 = d' := by rw [heq]
      exact hdisk ▸ .encryptFailed j random room err
    next heq =>
      cases h
      have hdisk : (d.encrypt scheme c j random room).1 = d' := by rw [heq]
      have hnow : d'.now = d.now := by rw [← hdisk]; rfl
      rw [hnow, ← hdisk]
      exact .encrypted j random room (by rw [heq])
  next j err =>
    split at h
    next _ =>
      cases h
      exact .failed j .hash _
    next sum n heq =>
      cases h
      unfold fileHash at heq
      split at heq
      next _ => cases heq
      next _ => cases heq
      next b hfile =>
        cases heq
        exact .hashed j hfile
  next j sum n err =>
    cases h
    exact .failed j _ err
  next j sum n =>
    obtain ⟨header, hheader, heq⟩ := Option.map_eq_some_iff.mp h
    split at heq
    next err _ =>
      cases heq
      exact .failed j _ err
    next _ =>
      cases heq
      exact .opened j sum n hheader
  next j _ _ _ err =>
    cases h
    exact .failed j _ err
  next j sum n nonce room =>
    dsimp only at h
    split at h
    next hfits =>
      cases h
      rw [taken_of_fits hfits]
      exact .recorded j sum n nonce
    next _ =>
      cases h
      exact .manifestFailed j sum n nonce _ _
  next j m names =>
    cases h
    exact .listed j m names
  next j m cut name names works =>
    cases h
    exact .visited j m cut name names works
  next j m cut removed =>
    cases h
    exact .finished j m cut removed
  next => cases h

/-! ## Names -/

theorem path_inj {name name' : Text} : c.path name = c.path name' ↔ name = name' := by
  simp [Config.path, artifactPath]

theorem tempName_getLast (random : Text) : (tempName random).getLast? = some 'p' :=
  List.getLast?_append_of_ne_nil _ (by decide : ".tmp".toList ≠ [])

theorem manifestName_getLast (base : Text) : (manifestName base).getLast? = some 'n' :=
  List.getLast?_append_of_ne_nil _ (by decide : ".manifest.json".toList ≠ [])

theorem artifactName_getLast (t : Int) : (artifactName formats c t).getLast? = some 's' :=
  List.getLast?_append_of_ne_nil _ (by decide : ".dump.aes".toList ≠ [])

/-- The three kinds of files have names with different ends. -/
theorem manifestName_ne_artifactName (base : Text) (t : Int) : manifestName base ≠ artifactName formats c t := by
  intro h
  have hlast := congrArg List.getLast? h
  rw [manifestName_getLast, artifactName_getLast] at hlast
  cases hlast

theorem manifestName_ne_tempName (base random : Text) : manifestName base ≠ tempName random := by
  intro h
  have hlast := congrArg List.getLast? h
  rw [manifestName_getLast, tempName_getLast] at hlast
  cases hlast

theorem artifactName_ne_tempName (t : Int) (random : Text) : artifactName formats c t ≠ tempName random := by
  intro h
  have hlast := congrArg List.getLast? h
  rw [artifactName_getLast, tempName_getLast] at hlast
  cases hlast

theorem manifestName_inj {base base' : Text} : manifestName base = manifestName base' ↔ base = base' := by
  simp [manifestName]

theorem not_isSuffixOf_tempName {cut : Text} {last : Char} (hcut : cut.getLast? = some last) (hlast : last ≠ 'p')
    (random : Text) : cut.isSuffixOf (tempName random) = false := by
  rw [Bool.eq_false_iff]
  intro hsuffix
  obtain ⟨front, heq⟩ := List.isSuffixOf_iff_suffix.mp hsuffix
  have hends := congrArg List.getLast? heq
  rw [tempName_getLast, List.getLast?_append_of_ne_nil _ (by rintro rfl; cases hcut), hcut] at hends
  exact hlast (Option.some.inj hends)

theorem cleans_tempName (random : Text) : cleans (tempName random) = false := by
  rw [cleans, not_isSuffixOf_tempName rfl (by decide), not_isSuffixOf_tempName rfl (by decide)]
  rfl

/-! ## Writes and removals -/

theorem Disk.files_write (d : Disk) (path : Path) (b : Bytes) (other : Path) :
    (d.write path b).world.files other = if other = path then some b else d.world.files other := by
  simp [Disk.write, World.put, Function.update_apply]

theorem Disk.files_remove (d : Disk) (path other : Path) :
    (d.remove path).world.files other = if other = path then none else d.world.files other := by
  simp [Disk.remove, World.remove, Function.update_apply]

theorem Disk.modTime_write (d : Disk) (path : Path) (b : Bytes) (other : Path) :
    (d.write path b).modTime other = if other = path then d.now else d.modTime other := by
  simp [Disk.write, Function.update_apply]

variable (scheme) in
/-- Whatever happens, `encryptFile` changes no file but a new one. -/
theorem encryptFile_frame (w : World) (src dst : Path) (key : Bytes) (random : Except Text Nonce)
    (room : Option Nat) :
    (∀ path, path ≠ dst ∨ w.files path ≠ none →
      (encryptFile scheme w src dst key random room).1.files path = w.files path) ∧
    ∀ x ∈ w.made, x ∈ (encryptFile scheme w src dst key random room).1.made := by
  have hput {w' : World} {b : Bytes} (hfree : w.files dst = none) (hfiles : w'.files = (w.put dst b).files) :
      ∀ path, path ≠ dst ∨ w.files path ≠ none → w'.files path = w.files path := by
    intro path hpath
    have hne : path ≠ dst := hpath.elim id fun hsome heq => hsome (heq ▸ hfree)
    rw [hfiles, World.files_put_of_ne w hne]
  unfold encryptFile
  split
  next _ => exact ⟨fun _ _ => rfl, fun _ hx => hx⟩
  next _ => exact ⟨fun _ _ => rfl, fun _ hx => hx⟩
  next hfree =>
    simp only [World.put_put]
    split
    next _ => exact ⟨hput hfree rfl, fun _ hx => hx⟩
    next _ => exact ⟨hput hfree rfl, fun _ hx => hx⟩
    next _ =>
      split
      next _ => exact ⟨hput hfree rfl, fun _ hx => hx⟩
      next _ =>
        split
        next _ => exact ⟨hput hfree rfl, fun _ hx => hx⟩
        next _ => exact ⟨hput hfree rfl, fun _ hx => List.mem_cons_of_mem _ hx⟩

/-- An `encryptFile` without an error has written the whole artifact to a new file. -/
theorem encryptFile_ok {w : World} {src dst : Path} {key p : Bytes} {random : Except Text Nonce}
    {room : Option Nat} (hsrc : w.files src = some p)
    (hok : (encryptFile scheme w src dst key random room).2 = none) :
    ∃ nonce, random = .ok nonce ∧ w.files dst = none ∧
      (encryptFile scheme w src dst key random room).1.files dst = some (artifact scheme key nonce p) ∧
      ⟨key, nonce.bytes, p, []⟩ ∈ (encryptFile scheme w src dst key random room).1.made := by
  cases hdst : w.files dst with
  | some b => simp [encryptFile, hsrc, hdst] at hok
  | none =>
      cases hkey : newCipher key with
      | some err => simp [encryptFile, hsrc, hdst, hkey] at hok
      | none =>
          cases random with
          | error err => simp [encryptFile, hsrc, hdst, hkey] at hok
          | ok nonce =>
              have henc := encryptFile_encrypted scheme hsrc hdst hkey nonce room
              have hfits : fits room (artifact scheme key nonce p) = true := by
                rw [henc.err] at hok
                split at hok
                next hfits => exact hfits
                next _ => cases hok
              refine ⟨nonce, rfl, rfl, ?_, henc.whole hfits⟩
              rw [henc.file, taken_of_fits hfits]

theorem Disk.encrypt_files (d : Disk) (j : Job) (random : Except Text Nonce) (room : Option Nat) {path : Path}
    (h : path ≠ c.path j.base ∨ d.world.files path ≠ none) :
    (d.encrypt scheme c j random room).1.world.files path = d.world.files path :=
  (encryptFile_frame scheme d.world _ _ _ random room).1 path h

theorem Disk.visit_files (d : Disk) (cut : Int) (name : Text) (works : Bool) {path : Path}
    (h : path ≠ c.path name ∨ cleans name = false) :
    (d.visit c cut name works).world.files path = d.world.files path := by
  unfold Disk.visit
  split
  next hold =>
    simp only [Bool.and_eq_true] at hold
    have hne : path ≠ c.path name := h.elim id fun hno => by simp [hno] at hold
    rw [Disk.files_remove, if_neg hne]
  next _ => rfl

/-! ## Unencrypted dumps -/

def Run.job : Run → Option Job
  | .working j _ => some j
  | .failed j _ => j
  | .done j _ _ => some j
  | .start => none

/-- The temporary file that a run has left or still works with, and what is in it. -/
def Run.temp : Run → Option (Text × Bytes)
  | .done _ _ true => none
  | r => r.job.map fun j => (j.temp, j.dump)

theorem Run.job_of_temp {r : Run} {name : Text} {b : Bytes} (h : r.temp = some (name, b)) :
    ∃ j, r.job = some j ∧ j.temp = name := by
  unfold Run.temp at h
  split at h
  next => cases h
  next =>
    obtain ⟨j, hj, heq⟩ := Option.map_eq_some_iff.mp h
    cases heq
    exact ⟨j, hj, rfl⟩

variable (formats c) in
/-- The files of a run have the names that are made for them. -/
def Run.Named (r : Run) : Prop :=
  ∀ j, r.job = some j → (∃ random, j.temp = tempName random) ∧ ∃ t, j.base = artifactName formats c t

theorem named_acts {d d' : Disk} {r r' : Run} (h : r.Named formats c) (hacts : Acts scheme formats c d r d' r') :
    r'.Named formats c := by
  cases hacts with
  | refused err => nofun
  | created random hfree =>
      intro j hj
      cases hj
      exact ⟨⟨random, rfl⟩, d.now, rfl⟩
  | dumpFailed j b err =>
      intro j' hj'
      cases hj'
      exact h j rfl
  | dumped j b =>
      intro j' hj'
      cases hj'
      exact h j rfl
  | encrypted j random room hok =>
      intro j' hj'
      cases hj'
      exact h j rfl
  | _ => exact h

variable (formats c) in
/-- The temporary files are those of the runs, one for each, and those that were there at the start. -/
structure Temps (before : Disk) (s : Site) : Prop where
  named : ∀ r ∈ s.threads, r.Named formats c
  present : ∀ r ∈ s.threads, ∀ name b, r.temp = some (name, b) → s.shared.world.files (c.path name) = some b
  one : ∀ (i k : Nat) (r r' : Run) name b b', s.threads[i]? = some r → s.threads[k]? = some r' →
    r.temp = some (name, b) → r'.temp = some (name, b') → i = k
  only : ∀ random b, s.shared.world.files (c.path (tempName random)) = some b →
    before.world.files (c.path (tempName random)) = some b ∨ ∃ r ∈ s.threads, r.temp = some (tempName random, b)
  old : ∀ random b, before.world.files (c.path (tempName random)) = some b →
    s.shared.world.files (c.path (tempName random)) = some b
  new : ∀ r ∈ s.threads, ∀ name b, r.temp = some (name, b) → before.world.files (c.path name) = none

section Temps

variable {before : Disk} {s : Site} {i : Nat} {r r' : Run} {d' : Disk}

theorem Temps.tempName_eq (h : Temps formats c before s) (hr : r ∈ s.threads) {name : Text} {b : Bytes}
    (htemp : r.temp = some (name, b)) : ∃ random, name = tempName random := by
  obtain ⟨j, hj, rfl⟩ := Run.job_of_temp htemp
  exact (h.named r hr j hj).1

/-- A step of a run that keeps its temporary file and leaves those of the others alone. -/
theorem Temps.keep (h : Temps formats c before s) (hi : s.threads[i]? = some r) (hnamed : r'.Named formats c)
    (htemp : r'.temp = r.temp)
    (hfiles : ∀ random, d'.world.files (c.path (tempName random)) =
      s.shared.world.files (c.path (tempName random))) :
    Temps formats c before { shared := d', threads := s.threads.set i r' } := by
  have hat {k : Nat} {u : Run} (hu : (s.threads.set i r')[k]? = some u) :
      ∃ v, s.threads[k]? = some v ∧ v.temp = u.temp := by
    rcases getElem?_set_cases hu with ⟨rfl, rfl⟩ | ⟨-, hold⟩
    · exact ⟨r, hi, htemp.symm⟩
    · exact ⟨u, hold, rfl⟩
  refine ⟨forall_mem_set h.named hnamed, ?_, ?_, ?_, ?_, ?_⟩
  · intro u hu name b hb
    obtain ⟨k, hk⟩ := List.getElem?_of_mem hu
    obtain ⟨v, hv, heq⟩ := hat hk
    have hv := List.mem_of_getElem? hv
    obtain ⟨random, rfl⟩ := h.tempName_eq hv (heq.trans hb)
    exact (hfiles random).trans (h.present v hv _ b (heq.trans hb))
  · intro k l u u' name b b' hu hu' hb hb'
    obtain ⟨v, hv, heq⟩ := hat hu
    obtain ⟨v', hv', heq'⟩ := hat hu'
    exact h.one k l v v' name b b' hv hv' (heq.trans hb) (heq'.trans hb')
  · intro random b hb
    rcases h.only random b ((hfiles random).symm.trans hb) with hbefore | ⟨v, hv, htv⟩
    · exact .inl hbefore
    · obtain ⟨k, hk⟩ := List.getElem?_of_mem hv
      obtain ⟨u, hu, htu⟩ := exists_getElem?_set (P := fun u => u.temp = some (tempName random, b)) hi
        (fun hr => htemp.trans hr) ⟨v, hk, htv⟩
      exact .inr ⟨u, List.mem_of_getElem? hu, htu⟩
  · intro random b hb
    exact (hfiles random).trans (h.old random b hb)
  · intro u hu name b hb
    obtain ⟨k, hk⟩ := List.getElem?_of_mem hu
    obtain ⟨v, hv, heq⟩ := hat hk
    exact h.new v (List.mem_of_getElem? hv) name b (heq.trans hb)

/-- A step of a run that makes, fills or removes its temporary file. -/
theorem Temps.change (h : Temps formats c before s) (hi : s.threads[i]? = some r) (hnamed : r'.Named formats c)
    (name : Text) (content : Option Bytes)
    (hold : (∃ b, r.temp = some (name, b)) ∨ r.temp = none ∧ s.shared.world.files (c.path name) = none)
    (htemp : r'.temp = content.map (name, ·))
    (hfiles : ∀ path, d'.world.files path = if path = c.path name then content else s.shared.world.files path) :
    Temps formats c before { shared := d', threads := s.threads.set i r' } := by
  -- no other run has a file of this name
  have hother {k : Nat} {u : Run} {b : Bytes} (hk : s.threads[k]? = some u) (hu : u.temp = some (name, b)) :
      k = i := by
    rcases hold with ⟨b', hr⟩ | ⟨-, hfree⟩
    · exact h.one k i u r _ b b' hk hi hu hr
    · rw [h.present u (List.mem_of_getElem? hk) _ b hu] at hfree
      cases hfree
  have hnew {name' : Text} {b : Bytes} (hb : r'.temp = some (name', b)) : name' = name ∧ content = some b := by
    rw [htemp, Option.map_eq_some_iff] at hb
    obtain ⟨b', hcontent, heq⟩ := hb
    cases heq
    exact ⟨rfl, hcontent⟩
  -- and none was there at the start
  have hnone : (∃ random, name = tempName random) → before.world.files (c.path name) = none := by
    rintro ⟨random, rfl⟩
    rcases hold with ⟨b, hr⟩ | ⟨-, hfree⟩
    · exact h.new r (List.mem_of_getElem? hi) _ b hr
    · refine Option.eq_none_iff_forall_ne_some.mpr fun b hb => ?_
      cases hfree.symm.trans (h.old random b hb)
  refine ⟨forall_mem_set h.named hnamed, ?_, ?_, ?_, ?_, ?_⟩
  · intro u hu name' b hb
    obtain ⟨k, hk⟩ := List.getElem?_of_mem hu
    rcases getElem?_set_cases hk with ⟨rfl, rfl⟩ | ⟨hne, hk⟩
    · obtain ⟨rfl, hcontent⟩ := hnew hb
      exact (hfiles _).trans ((if_pos rfl).trans hcontent)
    · have hpath : c.path name' ≠ c.path name := fun heq => hne (hother hk (path_inj.mp heq ▸ hb))
      exact (hfiles _).trans ((if_neg hpath).trans (h.present u (List.mem_of_getElem? hk) _ b hb))
  · intro k l u u' name' b b' hu hu' hb hb'
    rcases getElem?_set_cases hu with ⟨rfl, rfl⟩ | ⟨hne, hk⟩ <;>
      rcases getElem?_set_cases hu' with ⟨rfl, rfl⟩ | ⟨hne', hl⟩
    · rfl
    · rw [(hnew hb).1] at hb'
      exact (hother hl hb').symm
    · rw [(hnew hb').1] at hb
      exact hother hk hb
    · exact h.one k l u u' name' b b' hk hl hb hb'
  · intro random b hb
    have hb := (hfiles _).symm.trans hb
    split at hb
    next heq =>
      obtain ⟨hlt, -⟩ := List.getElem?_eq_some_iff.mp hi
      refine .inr ⟨r', List.mem_of_getElem? (List.getElem?_set_self hlt), ?_⟩
      rw [htemp, hb, path_inj.mp heq]
      rfl
    next hne =>
      rcases h.only random b hb with hbefore | ⟨v, hv, htv⟩
      · exact .inl hbefore
      · obtain ⟨k, hk⟩ := List.getElem?_of_mem hv
        have hki : i ≠ k := by
          rintro rfl
          have hr : r.temp = some (tempName random, b) := Option.some.inj (hi.symm.trans hk) ▸ htv
          rcases hold with ⟨b', hname⟩ | ⟨hnone, -⟩
          · have heq := congrArg Prod.fst (Option.some.inj (hname.symm.trans hr))
            exact hne (path_inj.mpr heq.symm)
          · cases hnone.symm.trans hr
        exact .inr ⟨v, List.mem_of_getElem? ((List.getElem?_set_ne hki).trans hk), htv⟩
  · intro random b hb
    refine (hfiles _).trans ((if_neg fun heq => ?_).trans (h.old random b hb))
    have hname := path_inj.mp heq
    rw [hname, hnone ⟨random, hname.symm⟩] at hb
    cases hb
  · refine forall_mem_set h.new fun name' b hb => ?_
    obtain ⟨j, hj, rfl⟩ := Run.job_of_temp hb
    rw [(hnew hb).1]
    exact hnone ((hnew hb).1 ▸ (hnamed j hj).1)

theorem temps_acts (h : Temps formats c before s) (hi : s.threads[i]? = some r)
    (hacts : Acts scheme formats c s.shared r d' r') :
    Temps formats c before { shared := d', threads := s.threads.set i r' } := by
  have hnamed := h.named r (List.mem_of_getElem? hi)
  have hnamed' := named_acts hnamed hacts
  have hartifact {j : Job} (hj : r.job = some j) (random : Text) : c.path (tempName random) ≠ c.path j.base := by
    obtain ⟨t, ht⟩ := (hnamed j hj).2
    rw [Ne, path_inj, ht]
    exact (artifactName_ne_tempName t random).symm
  have hmanifest (base b : _) (random : Text) :
      (s.shared.write (c.path (manifestName base)) b).world.files (c.path (tempName random)) =
        s.shared.world.files (c.path (tempName random)) := by
    rw [Disk.files_write, if_neg fun heq => manifestName_ne_tempName base random (path_inj.mp heq).symm]
  cases hacts with
  | created random hfree =>
      exact h.change hi hnamed' (tempName random) (some []) (.inr ⟨rfl, hfree⟩) rfl (Disk.files_write _ _ _)
  | dumpFailed j b err =>
      exact h.change hi hnamed' j.temp (some b) (.inl ⟨j.dump, rfl⟩) rfl (Disk.files_write _ _ _)
  | dumped j b =>
      exact h.change hi hnamed' j.temp (some b) (.inl ⟨j.dump, rfl⟩) rfl (Disk.files_write _ _ _)
  | encryptFailed j random room err =>
      exact h.keep hi hnamed' rfl fun _ => s.shared.encrypt_files j random room (.inl (hartifact rfl _))
  | encrypted j random room hok =>
      exact h.keep hi hnamed' rfl fun _ => s.shared.encrypt_files j random room (.inl (hartifact rfl _))
  | manifestFailed j sum n nonce b err => exact h.keep hi hnamed' rfl (hmanifest _ _)
  | recorded j sum n nonce => exact h.keep hi hnamed' rfl (hmanifest _ _)
  | visited j m cut name names works =>
      refine h.keep hi hnamed' rfl fun random => s.shared.visit_files cut name works ?_
      rw [Ne, path_inj]
      by_cases hname : tempName random = name
      · exact .inr (hname ▸ cleans_tempName random)
      · exact .inl hname
  | finished j m cut removed =>
      cases removed with
      | false => exact h.keep hi hnamed' rfl fun _ => rfl
      | true =>
          exact h.change hi hnamed' j.temp none (.inl ⟨j.dump, rfl⟩) rfl (Disk.files_remove _ _)
  | _ => exact h.keep hi hnamed' rfl fun _ => rfl

end Temps

/-! ## Artifacts -/

section Kept

variable (scheme formats c)

/-- The time of the retention is not over for a file of that time. -/
def Disk.Within (d : Disk) (time : Int) : Prop := d.now ≤ time + c.age

/-- The artifact of a run, once it is sealed. -/
structure Stored (d : Disk) (j : Job) (nonce : Nonce) (time : Int) : Prop where
  made : ⟨c.key, nonce.bytes, j.dump, []⟩ ∈ d.world.made
  past : time ≤ d.now
  file : d.Within c time → d.world.files (c.path j.base) = some (artifact scheme c.key nonce j.dump)
  modTime : d.Within c time → d.modTime (c.path j.base) = time

/-- The manifest is about the artifact. -/
structure Describes (m : Manifest) (j : Job) (nonce : Nonce) : Prop where
  base : m.artifact = j.base
  hash : m.sha256 = formats.sha256 (artifact scheme c.key nonce j.dump)
  size : m.bytes = (artifact scheme c.key nonce j.dump).length
  nonce : m.nonce = Base64.std.encode nonce.bytes

/-- What a run has written into its manifest. -/
def Recorded (d : Disk) (j : Job) (m : Manifest) : Prop :=
  ∃ nonce time, j.sealing = some (nonce, time) ∧ (d.Within c time → Describes scheme formats c m j nonce)

/-- What a run knows in its phase. -/
def Run.Knows (d : Disk) : Run → Prop
  | .working j .dump => j.sealing = none
  | .working j .encrypt => j.sealing = none
  | .working j .hash => j.sealing ≠ none
  | .working j (.header sum n) => ∃ nonce time, j.sealing = some (nonce, time) ∧ (d.Within c time →
      sum = formats.sha256 (artifact scheme c.key nonce j.dump) ∧
      n = (artifact scheme c.key nonce j.dump).length)
  | .working j (.manifest sum n b) => ∃ nonce time, j.sealing = some (nonce, time) ∧ (d.Within c time →
      sum = formats.sha256 (artifact scheme c.key nonce j.dump) ∧
      n = (artifact scheme c.key nonce j.dump).length ∧ b = nonce.bytes)
  | .working j (.list m) => Recorded scheme formats c d j m
  | .working j (.clean m cut _) => Recorded scheme formats c d j m ∧ cut + c.age ≤ d.now
  | .done j m _ => Recorded scheme formats c d j m
  | _ => True

/-- Artifacts are kept for the time of the retention, and no two runs have the same. -/
structure Kept (before : Disk) (s : Site) : Prop where
  temps : Temps formats c before s
  stored : ∀ r ∈ s.threads, ∀ j nonce time, r.job = some j → j.sealing = some (nonce, time) →
    Stored scheme c s.shared j nonce time
  knows : ∀ r ∈ s.threads, r.Knows scheme formats c s.shared
  one : ∀ (i k : Nat) (r r' : Run) j j' nonce nonce' time time', s.threads[i]? = some r →
    s.threads[k]? = some r' → r.job = some j → r'.job = some j' → j.base = j'.base →
    j.sealing = some (nonce, time) → s.shared.Within c time →
    j'.sealing = some (nonce', time') → s.shared.Within c time' → i = k

/-- The manifest that a run is about to write. -/
def Run.writes : Run → Option Text
  | .working j (.manifest _ _ _) => some (manifestName j.base)
  | _ => none

/-- A step keeps the files that are not too old, except temporary files and a manifest that it writes. -/
structure Frame (d d' : Disk) (written : Option Text) : Prop where
  now : d.now ≤ d'.now
  made : ∀ x ∈ d.world.made, x ∈ d'.world.made
  file : ∀ name b, d.world.files (c.path name) = some b → (∀ random, name ≠ tempName random) →
    written ≠ some name → d'.Within c (d.modTime (c.path name)) →
    d'.world.files (c.path name) = some b ∧ d'.modTime (c.path name) = d.modTime (c.path name)

variable {scheme formats c}

section Frame

variable {d d' : Disk} {written : Option Text}

theorem Frame.within (h : Frame c d d' written) {time : Int} (hw : d'.Within c time) : d.Within c time :=
  Int.le_trans h.now hw

theorem Frame.same (d : Disk) (written : Option Text) : Frame c d d written where
  now := Int.le_refl _
  made _ hx := hx
  file _ _ hb _ _ _ := ⟨hb, rfl⟩

theorem Frame.tick {t : Int} (ht : d.now ≤ t) : Frame c d { d with now := t } none where
  now := ht
  made _ hx := hx
  file _ _ hb _ _ _ := ⟨hb, rfl⟩

theorem Frame.write {name : Text} (hname : (∃ random, name = tempName random) ∨ written = some name)
    (b : Bytes) : Frame c d (d.write (c.path name) b) written := by
  refine ⟨Int.le_refl _, fun _ hx => hx, fun other b' hb htemp hwritten _ => ?_⟩
  have hne : c.path other ≠ c.path name := by
    rw [Ne, path_inj]
    rintro rfl
    rcases hname with ⟨random, hrandom⟩ | hmanifest
    · exact htemp random hrandom
    · exact hwritten hmanifest
  rw [Disk.files_write, Disk.modTime_write, if_neg hne, if_neg hne]
  exact ⟨hb, rfl⟩

theorem Frame.remove (random : Text) : Frame c d (d.remove (c.path (tempName random))) written := by
  refine ⟨Int.le_refl _, fun _ hx => hx, fun other b' hb htemp _ _ => ⟨?_, rfl⟩⟩
  rw [Disk.files_remove, if_neg fun heq => htemp random (path_inj.mp heq), hb]

theorem Frame.encrypt (j : Job) (random : Except Text Nonce) (room : Option Nat) :
    Frame c d (d.encrypt scheme c j random room).1 written := by
  have hframe := encryptFile_frame scheme d.world (c.path j.temp) (c.path j.base) c.key random room
  refine ⟨Int.le_refl _, hframe.2, fun other b hb _ _ _ => ?_⟩
  have hsome : d.world.files (c.path other) ≠ none := by
    rw [hb]
    exact Option.some_ne_none b
  refine ⟨(d.encrypt_files j random room (.inr hsome)).trans hb, ?_⟩
  simp only [Disk.encrypt]
  split
  next hfree =>
    have hne : c.path other ≠ c.path j.base := fun heq => hsome (heq ▸ hfree)
    exact Function.update_of_ne hne ..
  next _ => rfl

theorem Frame.visit {cut : Int} (hcut : cut + c.age ≤ d.now) (name : Text) (works : Bool) :
    Frame c d (d.visit c cut name works) written := by
  unfold Disk.visit
  split
  next hold =>
    simp only [Bool.and_eq_true, decide_eq_true_eq] at hold
    refine ⟨Int.le_refl _, fun _ hx => hx, fun other b hb _ _ hwithin => ⟨?_, rfl⟩⟩
    have hne : c.path other ≠ c.path name := by
      intro heq
      rw [heq] at hwithin
      have hnow : d.now ≤ d.modTime (c.path name) + c.age := hwithin
      omega
    rw [Disk.files_remove, if_neg hne, hb]
  next _ => exact .same d written

theorem frame_acts {r r' : Run} (hnamed : r.Named formats c) (hknows : r.Knows scheme formats c d)
    (hacts : Acts scheme formats c d r d' r') : Frame c d d' r.writes := by
  cases hacts with
  | created random hfree => exact .write (.inl ⟨random, rfl⟩) _
  | dumpFailed j b err => exact .write (.inl (hnamed j rfl).1) b
  | dumped j b => exact .write (.inl (hnamed j rfl).1) b
  | encryptFailed j random room err => exact .encrypt j random room
  | encrypted j random room hok => exact .encrypt j random room
  | manifestFailed j sum n nonce b err => exact .write (.inr rfl) b
  | recorded j sum n nonce => exact .write (.inr rfl) _
  | visited j m cut name names works => exact .visit hknows.2 name works
  | finished j m cut removed =>
      obtain ⟨random, hrandom⟩ := (hnamed j rfl).1
      cases removed with
      | false => exact .same d _
      | true =>
          rw [if_pos rfl, hrandom]
          exact .remove random
  | _ => exact .same d _

/-! What is stored and recorded stays so. -/

theorem Stored.frame {j : Job} {nonce : Nonce} {time : Int} (h : Stored scheme c d j nonce time)
    (hf : Frame c d d' written) (hbase : ∃ t, j.base = artifactName formats c t)
    (hwritten : ∀ t, written ≠ some (artifactName formats c t)) : Stored scheme c d' j nonce time := by
  obtain ⟨t, ht⟩ := hbase
  have hkeep (hw : d'.Within c time) :=
    hf.file j.base _ (h.file (hf.within hw)) (fun random => ht ▸ artifactName_ne_tempName t random)
      (ht ▸ hwritten t) (by rwa [h.modTime (hf.within hw)])
  exact ⟨hf.made _ h.made, Int.le_trans h.past hf.now, fun hw => (hkeep hw).1,
    fun hw => (hkeep hw).2.trans (h.modTime (hf.within hw))⟩

theorem Recorded.frame {j : Job} {m : Manifest} (h : Recorded scheme formats c d j m)
    (hf : Frame c d d' written) : Recorded scheme formats c d' j m := by
  obtain ⟨nonce, time, hsealing, hdescribes⟩ := h
  exact ⟨nonce, time, hsealing, fun hw => hdescribes (hf.within hw)⟩

/-- What another run knows is not changed by a step. -/
theorem Run.Knows.frame {r : Run} (h : r.Knows scheme formats c d) (hf : Frame c d d' written) :
    r.Knows scheme formats c d' := by
  cases r with
  | start => trivial
  | failed j err => trivial
  | done j m removed => exact Recorded.frame h hf
  | working j p =>
      cases p with
      | dump => exact h
      | encrypt => exact h
      | hash => exact h
      | header sum n =>
          obtain ⟨nonce, time, hsealing, hsum⟩ := h
          exact ⟨nonce, time, hsealing, fun hw => hsum (hf.within hw)⟩
      | manifest sum n b =>
          obtain ⟨nonce, time, hsealing, hsum⟩ := h
          exact ⟨nonce, time, hsealing, fun hw => hsum (hf.within hw)⟩
      | list m => exact Recorded.frame h hf
      | clean m cut names => exact ⟨h.1.frame hf, Int.le_trans h.2 hf.now⟩

/-! What the run of the step stores and knows. -/

theorem sealing_acts {r r' : Run} (hknows : r.Knows scheme formats c d)
    (hpresent : ∀ name b, r.temp = some (name, b) → d.world.files (c.path name) = some b)
    (hacts : Acts scheme formats c d r d' r') {j : Job} {nonce : Nonce} {time : Int} (hj : r'.job = some j)
    (hsealing : j.sealing = some (nonce, time)) :
    r.job = some j ∨ d.world.files (c.path j.base) = none ∧ Stored scheme c d' j nonce time := by
  cases hacts with
  | refused err => cases hj
  | created random hfree =>
      cases hj
      cases hsealing
  | dumpFailed j b err =>
      cases hj
      cases hsealing.symm.trans hknows
  | dumped j b =>
      cases hj
      cases hsealing.symm.trans hknows
  | encrypted j random room hok =>
      cases hj
      obtain ⟨nonce', rfl, hfree, hfile, hmade⟩ := encryptFile_ok (hpresent j.temp j.dump rfl) hok
      cases hsealing
      refine .inr ⟨hfree, hmade, Int.le_refl _, fun _ => hfile, fun _ => ?_⟩
      simp only [Disk.encrypt, if_pos hfree, Function.update_self]
  | _ => exact .inl hj

theorem knows_acts {r r' : Run} (hknows : r.Knows scheme formats c d)
    (hpresent : ∀ name b, r.temp = some (name, b) → d.world.files (c.path name) = some b)
    (hstored : ∀ j nonce time, r.job = some j → j.sealing = some (nonce, time) → Stored scheme c d j nonce time)
    (hf : Frame c d d' r.writes) (hacts : Acts scheme formats c d r d' r') : r'.Knows scheme formats c d' := by
  cases hacts with
  | created random hfree => exact rfl
  | dumped j b => exact hknows
  | encrypted j random room hok =>
      obtain ⟨nonce, rfl, -⟩ := encryptFile_ok (hpresent j.temp j.dump rfl) hok
      exact Option.some_ne_none _
  | hashed j hfile =>
      obtain ⟨⟨nonce, time⟩, hsealing⟩ := Option.ne_none_iff_exists'.mp hknows
      refine ⟨nonce, time, hsealing, fun hw => ?_⟩
      cases hfile.symm.trans ((hstored j nonce time rfl hsealing).file hw)
      exact ⟨rfl, rfl⟩
  | opened j sum n hheader =>
      obtain ⟨nonce, time, hsealing, hsum⟩ := hknows
      refine ⟨nonce, time, hsealing, fun hw => ⟨(hsum hw).1, (hsum hw).2, ?_⟩⟩
      have hst := hstored j nonce time rfl hsealing
      have hopen := decryptHeader_artifact (hst.file hw) (newCipher_of_length c.key_length) hst.made
      cases hheader.symm.trans hopen
      rfl
  | recorded j sum n b =>
      obtain ⟨nonce, time, hsealing, hsum⟩ := hknows
      refine ⟨nonce, time, hsealing, fun hw => ?_⟩
      obtain ⟨rfl, rfl, rfl⟩ := hsum hw
      exact ⟨rfl, rfl, rfl, rfl⟩
  | listed j m names => exact ⟨hknows, by omega⟩
  | visited j m cut name names works => exact ⟨hknows.1.frame hf, Int.le_trans hknows.2 hf.now⟩
  | finished j m cut removed => exact hknows.1.frame hf
  | _ => trivial

end Frame

/-- The run is about to write its manifest. -/
theorem Run.writes_manifest {r : Run} {d : Disk} (hknows : r.Knows scheme formats c d) {name : Text}
    (hwrites : r.writes = some name) :
    ∃ j nonce time, r.job = some j ∧ name = manifestName j.base ∧ j.sealing = some (nonce, time) := by
  unfold Run.writes at hwrites
  split at hwrites
  next j _ _ _ =>
    cases hwrites
    obtain ⟨nonce, time, hsealing, -⟩ := hknows
    exact ⟨j, nonce, time, rfl, rfl, hsealing⟩
  next => cases hwrites

theorem Kept.tick {before : Disk} {s : Site} (h : Kept scheme formats c before s) {t : Int} (ht : s.shared.now ≤ t) :
    Kept scheme formats c before { s with shared := { s.shared with now := t } } := by
  have hf := Frame.tick (c := c) ht
  refine ⟨⟨h.temps.named, h.temps.present, h.temps.one, h.temps.only, h.temps.old, h.temps.new⟩, ?_, ?_, ?_⟩
  · intro r hr j nonce time hj hsealing
    exact (h.stored r hr j nonce time hj hsealing).frame hf (h.temps.named r hr j hj).2 fun _ => (Option.some_ne_none _).symm
  · intro r hr
    exact (h.knows r hr).frame hf
  · intro i k r r' j j' nonce nonce' time time' hi hk hj hj' hbase hx hw hx' hw'
    exact h.one i k r r' j j' nonce nonce' time time' hi hk hj hj' hbase hx (hf.within hw) hx' (hf.within hw')

theorem kept_acts {before : Disk} {s : Site} (h : Kept scheme formats c before s) {i : Nat} {r r' : Run} {d' : Disk}
    (hi : s.threads[i]? = some r) (hacts : Acts scheme formats c s.shared r d' r') :
    Kept scheme formats c before { shared := d', threads := s.threads.set i r' } := by
  have hr := List.mem_of_getElem? hi
  have hknows := h.knows r hr
  have hf := frame_acts (h.temps.named r hr) hknows hacts
  have htemps := temps_acts h.temps hi hacts
  have hsealed {j : Job} {nonce : Nonce} {time : Int} (hj : r'.job = some j)
      (hx : j.sealing = some (nonce, time)) :=
    sealing_acts hknows (h.temps.present r hr) hacts hj hx
  have hframe {u : Run} (hu : u ∈ s.threads) {j : Job} {nonce : Nonce} {time : Int} (hj : u.job = some j)
      (hx : j.sealing = some (nonce, time)) : Stored scheme c d' j nonce time := by
    refine (h.stored u hu j nonce time hj hx).frame hf (h.temps.named u hu j hj).2 fun t heq => ?_
    obtain ⟨j', -, -, -, hname, -⟩ := Run.writes_manifest hknows heq
    exact manifestName_ne_artifactName j'.base t hname.symm
  -- an artifact that is new does not have the name of one that is there
  have hnew {k : Nat} {u : Run} {j j' : Job} {nonce nonce' : Nonce} {time time' : Int} (hk : s.threads[k]? = some u)
      (hj : r'.job = some j) (hx : j.sealing = some (nonce, time)) (hw : d'.Within c time)
      (hj' : u.job = some j') (hx' : j'.sealing = some (nonce', time')) (hw' : d'.Within c time')
      (hbase : j.base = j'.base) : i = k := by
    rcases hsealed hj hx with hold | ⟨hfree, -⟩
    · exact h.one i k r u j j' nonce nonce' time time' hi hk hold hj' hbase hx (hf.within hw) hx' (hf.within hw')
    · have hst := h.stored u (List.mem_of_getElem? hk) j' nonce' time' hj' hx'
      rw [hbase, hst.file (hf.within hw')] at hfree
      cases hfree
  refine ⟨htemps, ?_, ?_, ?_⟩
  · intro u hu j nonce time hj hx
    rcases List.mem_or_eq_of_mem_set hu with hu | rfl
    · exact hframe hu hj hx
    · rcases hsealed hj hx with hold | ⟨-, hst⟩
      · exact hframe hr hold hx
      · exact hst
  · refine forall_mem_set (fun u hu => (h.knows u hu).frame hf) ?_
    exact knows_acts hknows (h.temps.present r hr) (h.stored r hr) hf hacts
  · intro a b u u' j j' nonce nonce' time time' ha hb hj hj' hbase hx hw hx' hw'
    rcases getElem?_set_cases ha with ⟨rfl, rfl⟩ | ⟨-, hk⟩ <;>
      rcases getElem?_set_cases hb with ⟨rfl, rfl⟩ | ⟨-, hl⟩
    · rfl
    · exact hnew hl hj hx hw hj' hx' hw' hbase
    · exact (hnew hk hj' hx' hw' hj hx hw hbase.symm).symm
    · exact h.one a b u u' j j' nonce nonce' time time' hk hl hj hj' hbase hx (hf.within hw) hx' (hf.within hw')

/-! ## Manifests -/

/-- The job and the manifest of a run that has written one. -/
def Run.manifest : Run → Option (Job × Manifest)
  | .working j (.list m) => some (j, m)
  | .working j (.clean m _ _) => some (j, m)
  | .done j m _ => some (j, m)
  | _ => none

theorem Run.job_of_manifest {r : Run} {j : Job} {m : Manifest} (h : r.manifest = some (j, m)) :
    r.job = some j := by
  unfold Run.manifest at h
  split at h <;> cases h <;> rfl

variable (formats c) in
/-- The manifest of a run is in its file. -/
def Filed (d : Disk) (j : Job) (m : Manifest) : Prop :=
  ∀ nonce time, j.sealing = some (nonce, time) → d.Within c time →
    d.world.files (c.path (manifestName j.base)) = some (formats.marshal m) ∧
    time ≤ d.modTime (c.path (manifestName j.base))

variable (formats c) in
def AllFiled (s : Site) : Prop :=
  ∀ r ∈ s.threads, ∀ j m, r.manifest = some (j, m) → Filed formats c s.shared j m

theorem Filed.frame {d d' : Disk} {written : Option Text} {j : Job} {m : Manifest} (h : Filed formats c d j m)
    (hf : Frame c d d' written)
    (hwritten : ∀ nonce time, j.sealing = some (nonce, time) → d'.Within c time →
      written ≠ some (manifestName j.base)) : Filed formats c d' j m := by
  intro nonce time hsealing hw
  obtain ⟨hfile, htime⟩ := h nonce time hsealing (hf.within hw)
  have hlate : d'.Within c (d.modTime (c.path (manifestName j.base))) :=
    Int.le_trans hw (Int.add_le_add_right htime _)
  obtain ⟨hfile', htime'⟩ := hf.file _ _ hfile (manifestName_ne_tempName j.base) (hwritten nonce time hsealing hw) hlate
  exact ⟨hfile', htime' ▸ htime⟩

/-- The run of a step writes its manifest, or keeps it. -/
theorem filed_acts {d d' : Disk} {r r' : Run} (hfiled : ∀ j m, r.manifest = some (j, m) → Filed formats c d j m)
    (hstored : ∀ j nonce time, r.job = some j → j.sealing = some (nonce, time) → Stored scheme c d j nonce time)
    (hf : Frame c d d' r.writes) (hacts : Acts scheme formats c d r d' r') {j : Job} {m : Manifest}
    (hm : r'.manifest = some (j, m)) : Filed formats c d' j m := by
  cases hacts with
  | recorded j sum n b =>
      cases hm
      intro nonce time hsealing _
      refine ⟨?_, ?_⟩
      · rw [Disk.files_write, if_pos rfl]
      · rw [Disk.modTime_write, if_pos rfl]
        exact (hstored j nonce time rfl hsealing).past
  | listed j m names =>
      cases hm
      exact hfiled j m rfl
  | visited j m cut name names works =>
      cases hm
      exact (hfiled j m rfl).frame hf fun _ _ _ _ => (Option.some_ne_none _).symm
  | finished j m cut removed =>
      cases hm
      exact (hfiled j m rfl).frame hf fun _ _ _ _ => (Option.some_ne_none _).symm
  | _ => cases hm

variable (c) in
/-- A manifest is written within the time of the retention. -/
def Run.prompt (t : Int) : Run → Bool
  | .working j (.manifest _ _ _) => j.sealing.all fun x => t ≤ x.2 + c.age
  | _ => true

theorem allFiled_acts {before : Disk} {s : Site} (hkept : Kept scheme formats c before s) (h : AllFiled formats c s)
    {i : Nat} {r r' : Run} {d' : Disk} (hi : s.threads[i]? = some r) (hprompt : r.prompt c s.shared.now = true)
    (hacts : Acts scheme formats c s.shared r d' r') :
    AllFiled formats c { shared := d', threads := s.threads.set i r' } := by
  have hr := List.mem_of_getElem? hi
  have hknows := hkept.knows r hr
  have hf := frame_acts (hkept.temps.named r hr) hknows hacts
  intro u hu j m hm
  obtain ⟨k, hk⟩ := List.getElem?_of_mem hu
  rcases getElem?_set_cases hk with ⟨rfl, rfl⟩ | ⟨hne, hk⟩
  · exact filed_acts (h r hr) (hkept.stored r hr) hf hacts hm
  · have hu := List.mem_of_getElem? hk
    refine (h u hu j m hm).frame hf fun nonce time hx hw heq => ?_
    -- the manifest that is written is that of another artifact which is not too old
    obtain ⟨j', nonce', time', hj', hname, hx'⟩ := Run.writes_manifest hknows heq
    have hw' : s.shared.Within c time' := by
      unfold Run.writes at heq
      split at heq
      next =>
        cases hj'
        rw [Run.prompt, hx'] at hprompt
        have hearly : s.shared.now ≤ time' + c.age := of_decide_eq_true hprompt
        exact hearly
      next => cases heq
    exact hne (hkept.one k i u r j j' nonce nonce' time time' hk hi (Run.job_of_manifest hm) hj'
      (manifestName_inj.mp hname) hx (hf.within hw) hx' hw')

end Kept

/-! ## Every interleaving -/

variable (c) in
/-- A run that is about to write its manifest does so within the time of the retention. -/
def Prompt (s : Site) : SiteEvent → Prop
  | .act i (t, _) => ∀ r ∈ s.threads[i]?, r.prompt c t = true
  | .join _ => True

instance (s : Site) (e : SiteEvent) : Decidable (Prompt c s e) :=
  match e with
  | .act i (t, _) => inferInstanceAs (Decidable (∀ r ∈ s.threads[i]?, r.prompt c t = true))
  | .join _ => .isTrue trivial

/-- What an event of a run did: the clock goes on, and the run takes a step. -/
theorem step_cases {s s' : Site} {e : SiteEvent}
    (h : step scheme formats c s e = some s') :
    (e = .join .start ∧ s' = { s with threads := s.threads ++ [.start] }) ∨
    ∃ i t a r d' r', e = .act i (t, a) ∧ s.threads[i]? = some r ∧ s.shared.now ≤ t ∧
      Acts scheme formats c { s.shared with now := t } r d' r' ∧
      s' = { shared := d', threads := s.threads.set i r' } := by
  rcases poolStep_cases h with ⟨r, rfl, hfresh, rfl⟩ | ⟨i, ⟨t, a⟩, r, d', r', rfl, hr, hact, rfl⟩
  · cases r with
    | start => exact .inl ⟨rfl, rfl⟩
    | working j p => cases hfresh
    | failed j err => cases hfresh
    | done j m removed => cases hfresh
  · unfold actAt at hact
    split at hact
    next htime => exact .inr ⟨i, t, a, r, d', r', rfl, hr, htime, act_acts hact, rfl⟩
    next _ => cases hact

theorem Temps.join {before : Disk} {s : Site} (h : Temps formats c before s) :
    Temps formats c before { s with threads := s.threads ++ [.start] } := by
  have hat {k : Nat} {u : Run} {x : Text × Bytes} (hu : (s.threads ++ [.start])[k]? = some u)
      (hx : u.temp = some x) : s.threads[k]? = some u := by
    rcases getElem?_append_cases hu with ⟨-, rfl⟩ | hold
    · cases hx
    · exact hold
  refine ⟨forall_mem_join h.named nofun, forall_mem_join h.present nofun, ?_, ?_, h.old,
    forall_mem_join h.new nofun⟩
  · intro k l u u' name b b' hk hl hb hb'
    exact h.one k l u u' name b b' (hat hk hb) (hat hl hb') hb hb'
  · intro random b hb
    rcases h.only random b hb with hbefore | ⟨r, hr, htemp⟩
    · exact .inl hbefore
    · exact .inr ⟨r, List.mem_append_left _ hr, htemp⟩

theorem temps_step {before : Disk} {s s' : Site} {e : SiteEvent} (h : Temps formats c before s)
    (hs : step scheme formats c s e = some s') : Temps formats c before s' := by
  rcases step_cases hs with ⟨rfl, rfl⟩ | ⟨i, t, a, r, d', r', rfl, hr, ht, hacts, rfl⟩
  · exact h.join
  · have htick : Temps formats c before { s with shared := { s.shared with now := t } } :=
      ⟨h.named, h.present, h.one, h.only, h.old, h.new⟩
    exact temps_acts (s := { s with shared := { s.shared with now := t } }) htick hr hacts

theorem kept_step {before : Disk} {s s' : Site} {e : SiteEvent} (h : Kept scheme formats c before s)
    (hs : step scheme formats c s e = some s') : Kept scheme formats c before s' := by
  rcases step_cases hs with ⟨rfl, rfl⟩ | ⟨i, t, a, r, d', r', rfl, hr, ht, hacts, rfl⟩
  · refine ⟨h.temps.join, forall_mem_join h.stored nofun, forall_mem_join h.knows trivial, ?_⟩
    have hat {k : Nat} {u : Run} {j : Job} (hu : (s.threads ++ [.start])[k]? = some u) (hj : u.job = some j) :
        s.threads[k]? = some u := by
      rcases getElem?_append_cases hu with ⟨-, rfl⟩ | hold
      · cases hj
      · exact hold
    intro i k r r' j j' nonce nonce' time time' hi hk hj hj'
    exact h.one i k r r' j j' nonce nonce' time time' (hat hi hj) (hat hk hj') hj hj'
  · exact kept_acts (h.tick ht) hr hacts

theorem allFiled_step {before : Disk} {s s' : Site} {e : SiteEvent}
    (hkept : Kept scheme formats c before s) (h : AllFiled formats c s) (hprompt : Prompt c s e)
    (hs : step scheme formats c s e = some s') : AllFiled formats c s' := by
  rcases step_cases hs with ⟨rfl, rfl⟩ | ⟨i, t, a, r, d', r', rfl, hr, ht, hacts, rfl⟩
  · exact forall_mem_join h nofun
  · have htick : AllFiled formats c { s with shared := { s.shared with now := t } } := fun u hu j m hm =>
      (h u hu j m hm).frame (.tick ht) fun _ _ _ _ => (Option.some_ne_none _).symm
    exact allFiled_acts (hkept.tick ht) htick hr (hprompt r hr) hacts

/-- What holds of a run that is done, until the time of the retention is over. -/
theorem Kept.done {before : Disk} {s : Site} (h : Kept scheme formats c before s) {j : Job} {m : Manifest}
    {removed : Bool} (hr : .done j m removed ∈ s.threads) :
    ∃ nonce time, j.sealing = some (nonce, time) ∧ (s.shared.now ≤ time + c.age →
      s.shared.world.files (c.path j.base) = some (artifact scheme c.key nonce j.dump) ∧
      decryptHeader scheme s.shared.world (c.path j.base) c.key =
        some { plain := j.dump, nonce := nonce.bytes } ∧ Describes scheme formats c m j nonce) := by
  obtain ⟨nonce, time, hsealing, hdescribes⟩ := h.knows _ hr
  refine ⟨nonce, time, hsealing, fun hw => ?_⟩
  have hst := h.stored _ hr j nonce time rfl hsealing
  exact ⟨hst.file hw, decryptHeader_artifact (hst.file hw) (newCipher_of_length c.key_length) hst.made,
    hdescribes hw⟩

theorem temps_site (d : Disk) : Temps formats c d (site d) where
  named := List.forall_mem_nil _
  present := List.forall_mem_nil _
  one _ _ _ _ _ _ _ hi := by cases hi
  only _ _ := .inl
  old _ _ hb := hb
  new := List.forall_mem_nil _

theorem kept_site (d : Disk) : Kept scheme formats c d (site d) where
  temps := temps_site d
  stored := List.forall_mem_nil _
  knows := List.forall_mem_nil _
  one _ _ _ _ _ _ _ _ _ _ hi := by cases hi

end Steps

/-- Over every interleaving of any number of runs, the temporary dumps in the directory are those that
were there at the start, and those of the runs that are at work, that have failed, or whose removal has
failed, with what `pg_dump` wrote. -/
theorem dumps_left (scheme : Ciphertexts Bytes) (formats : Formats) (c : Config) (d : Disk)
    (es : List (SiteEvent)) :
    Along (step scheme formats c) (fun s => ∀ random b,
      s.shared.world.files (c.path (tempName random)) = some b ↔
        d.world.files (c.path (tempName random)) = some b ∨
          ∃ r ∈ s.threads, r.temp = some (tempName random, b)) (site d) es := by
  refine (Along.of_step temps_step (temps_site d) es).mono fun s h random b => ⟨h.only random b, ?_⟩
  rintro (hbefore | ⟨r, hr, htemp⟩)
  · exact h.old random b hbefore
  · exact h.present r hr _ b htemp

namespace Sample

def scheme : Ciphertexts Bytes := .clear Bytes

def formats : Formats where
  stamp t := Strings.decimalInt t
  sha256 b := List.replicate b.length 'f'
  sha256_blank _ h := by cases List.eq_of_mem_replicate h
  marshal m := bytesOf m.sha256

def config : Config where
  root := "/b".toList
  db := "ddag".toList
  key := List.replicate 32 7
  retention := 1
  key_length := rfl
  retention_range := by decide

def nonce : Nonce := ⟨List.replicate 12 0, rfl⟩

def disk : Disk := { world := { files := fun _ => none, made := [] }, modTime := fun _ => 0, now := 0 }

/-- A run from its start to its end, which looks at both of its files in `cleanup`. -/
def events : List (SiteEvent) :=
  [.join .start, .act 0 (1, .create none (.ok "7".toList)), .act 0 (2, .dump [1, 2, 3] none none),
    .act 0 (3, .encrypt (.ok nonce) none), .act 0 (4, .hash none), .act 0 (5, .header none),
    .act 0 (6, .manifest (.ok none)), .act 0 (7, .list ["ddag-1.dump.aes".toList, "ddag-1.dump.aes.manifest.json".toList]),
    .act 0 (8, .visit true), .act 0 (9, .visit true), .act 0 (10, .finish true)]

end Sample

end DDAG.BackupRunner
