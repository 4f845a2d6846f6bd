import DDAG.BackupRunner.Retention
import DDAG.Lib.Rows

/-!
# Backups started from the admin service

`triggerBackupOrDrill` of `internal/adminsvc/handlers_backups.go` with `CreateBackupRun` and
`CompleteBackupRun` of `internal/store/backup_runs.go`.  The service starts the backup runner as a
process, waits for it in the background, and reads what it printed back into the row of the run.  The
line of the runner has its values between blanks, so a path with a blank is cut.

Triggered runs, runs of the timer and the completions of the rows interleave in any order.

* `rows_truthful`: a row says `succeeded` exactly if its run printed `BACKUP_OK`.  It has the hash and
  the size that the run found, and the path of the artifact if that has no blank, and it stays true of
  the files until the time of the retention is over.
-/

namespace DDAG.AdminSvc.BackupRuns

open Machine BackupRunner

/-! ## What the runner printed -/

inductive Kind where
  | logicalBackup
  | restoreDrill
deriving DecidableEq

inductive Status where
  | succeeded
  | failed
deriving DecidableEq

/-- What `CompleteBackupRun` sets. -/
structure Completion where
  status : Status
  artifactPath : Text := []
  manifestPath : Text := []
  sha256 : Text := []
  bytes : Int := 0
  /-- The temporary database and the number of restored tables. -/
  detail : Option (Text × Text) := none
  error : Text := []
deriving DecidableEq

/-- A process that has ended, with the error of `cmd.Run`. -/
structure Process where
  stdout : Text
  stderr : Text
  err : Option Text

/-- The loop over the parts for one key: the value of the last part that has it. -/
def valueOf (key : Text) (parts : List Text) : Text :=
  parts.foldl (fun v p => if Strings.hasPrefix p key then p.drop key.length else v) []

/-- `strconv.ParseInt`, whose value is used without its error. -/
def intValue (s : Text) : Int :=
  match Strings.parseInt s, s with
  | some n, _ => n
  | none, '-' :: rest => if (Strings.digitsValue rest).isSome then -2 ^ 63 else 0
  | none, '+' :: rest => if (Strings.digitsValue rest).isSome then 2 ^ 63 - 1 else 0
  | none, _ => if (Strings.digitsValue s).isSome then 2 ^ 63 - 1 else 0

/-- What is recorded of a process. -/
def completion (kind : Kind) (p : Process) : Completion :=
  match p.err with
  | some err => { status := .failed, error := Strings.trimSpace (if p.stderr = [] then err else p.stderr) }
  | none =>
      let out := Strings.trimSpace p.stdout
      let parts := Strings.split out ' '
      if kind = .logicalBackup && Strings.contains out "BACKUP_OK".toList then
        let art := valueOf "artifact=".toList parts
        { status := .succeeded
          artifactPath := art
          manifestPath := manifestName art
          sha256 := valueOf "sha256=".toList parts
          bytes := intValue (valueOf "bytes=".toList parts) }
      else if kind = .restoreDrill && Strings.contains out "RESTORE_DRILL_OK".toList then
        { status := .succeeded
          artifactPath := valueOf "artifact=".toList parts
          detail := some (valueOf "database=".toList parts, valueOf "tables=".toList parts) }
      else { status := .failed, error := "invalid runner output: ".toList ++ out }

/-! ## Reading the line back -/

theorem split_append_blank (s t : Text) :
    Strings.split (s ++ ' ' :: t) ' ' = Strings.split s ' ' ++ Strings.split t ' ' :=
  List.splitOn_append_cons_self s t

theorem split_of_notMem {s : Text} (h : ' ' ∉ s) : Strings.split s ' ' = [s] := List.splitOn_eq_singleton h

theorem notMem_of_mem_split {s p : Text} (h : p ∈ Strings.split s ' ') : ' ' ∉ p := by
  rw [Strings.split, List.splitOn_eq_splitOnP] at h
  intro hmem
  have hsep := Strings.forall_of_mem_splitOnP h ' ' hmem
  cases hsep

theorem split_fields {a c d : Text} (ha : ' ' ∉ a) (hc : ' ' ∉ c) (hd : ' ' ∉ d) (b : Text) :
    Strings.split (a ++ ' ' :: (b ++ ' ' :: (c ++ ' ' :: d))) ' ' = [a] ++ Strings.split b ' ' ++ [c] ++ [d] := by
  simp only [split_append_blank, split_of_notMem ha, split_of_notMem hc, split_of_notMem hd, List.append_assoc]

theorem valueOf_eq (key : Text) (parts : List Text) :
    valueOf key parts = ((parts.reverse.find? (Strings.hasPrefix · key)).map (·.drop key.length)).getD [] := by
  have hstep (v p : Text) : some (if Strings.hasPrefix p key then p.drop key.length else v) =
      if Strings.hasPrefix p key then some (p.drop key.length) else some v := by
    split <;> rfl
  have hlast := Rows.foldl_last some hstep parts []
  rw [Option.or_some] at hlast
  exact Option.some.inj hlast

theorem notMem_valueOf (key s : Text) : ' ' ∉ valueOf key (Strings.split s ' ') := by
  rw [valueOf_eq]
  cases hfind : (Strings.split s ' ').reverse.find? (Strings.hasPrefix · key) with
  | none => exact List.not_mem_nil
  | some p =>
      have hp := List.mem_reverse.mp (List.mem_of_find?_eq_some hfind)
      exact fun hmem => notMem_of_mem_split hp (List.mem_of_mem_drop hmem)

theorem valueOf_concat_self (key v : Text) (parts : List Text) : valueOf key (parts ++ [key ++ v]) = v := by
  have hprefix : Strings.hasPrefix (key ++ v) key = true := List.isPrefixOf_iff_prefix.mpr (List.prefix_append key v)
  rw [valueOf, List.foldl_append, List.foldl_cons, List.foldl_nil, if_pos hprefix, List.drop_left]

theorem valueOf_concat_of_not {key p : Text} (h : Strings.hasPrefix p key = false) (parts : List Text) :
    valueOf key (parts ++ [p]) = valueOf key parts := by
  rw [valueOf, List.foldl_append, List.foldl_cons, List.foldl_nil, h, if_neg Bool.false_ne_true]
  rfl

theorem not_hasPrefix {k o : Char} (h : k ≠ o) (key v : Text) : Strings.hasPrefix (o :: v) (k :: key) = false := by
  rw [Strings.hasPrefix, List.isPrefixOf, beq_eq_false_iff_ne.mpr h, Bool.false_and]

/-- What is read from a line of a word and three values, of which the first may have blanks. -/
theorem valueOf_line {word key₁ key₂ key₃ v₂ v₃ : Text} (v₁ : Text) (hword : ' ' ∉ word) (hkey : ' ' ∉ key₁)
    (h₂ : ' ' ∉ key₂ ++ v₂) (h₃ : ' ' ∉ key₃ ++ v₃) (h₂₁ : Strings.hasPrefix (key₂ ++ v₂) key₁ = false)
    (h₃₁ : Strings.hasPrefix (key₃ ++ v₃) key₁ = false) (h₃₂ : Strings.hasPrefix (key₃ ++ v₃) key₂ = false) :
    let parts := Strings.split (word ++ ' ' :: (key₁ ++ v₁ ++ ' ' :: (key₂ ++ v₂ ++ ' ' :: (key₃ ++ v₃)))) ' '
    (valueOf key₁ parts = v₁ ↔ ' ' ∉ v₁) ∧ valueOf key₂ parts = v₂ ∧ valueOf key₃ parts = v₃ := by
  intro parts
  have hparts : parts = [word] ++ Strings.split (key₁ ++ v₁) ' ' ++ [key₂ ++ v₂] ++ [key₃ ++ v₃] :=
    split_fields hword h₂ h₃ _
  refine ⟨⟨fun heq => heq ▸ notMem_valueOf key₁ _, fun hv₁ => ?_⟩, ?_, ?_⟩
  · have hpart : ' ' ∉ key₁ ++ v₁ := fun hmem => (List.mem_append.mp hmem).elim hkey hv₁
    rw [hparts, valueOf_concat_of_not h₃₁, valueOf_concat_of_not h₂₁, split_of_notMem hpart, valueOf_concat_self]
  · rw [hparts, valueOf_concat_of_not h₃₂, valueOf_concat_self]
  · rw [hparts, valueOf_concat_self]

/-- A line that begins with a word and ends in a number has no white space around it. -/
theorem trimSpace_line {word : Text} (hword : word ≠ []) (hhead : word.head?.any Strings.isSpace = false)
    (a b key : Text) (n : Nat) :
    let line := word ++ ' ' :: (a ++ ' ' :: (b ++ ' ' :: (key ++ Strings.decimal n)))
    Strings.trimSpace (line ++ ['\n']) = line := by
  intro line
  have hne : Strings.decimal n ≠ [] := Nat.toDigits_ne_nil
  have hline : line = word ++ ' ' :: (a ++ ' ' :: (b ++ ' ' :: key)) ++ Strings.decimal n := by
    simp only [line, List.append_assoc, List.cons_append]
  refine Strings.trimSpace_eq (a := []) (b := ['\n']) (List.forall_mem_nil _)
    (List.forall_mem_singleton.mpr rfl) ?_ ?_
  · rwa [List.head?_append_of_ne_nil _ hword]
  · rw [hline, List.getLast?_append_of_ne_nil _ hne, List.getLast?_eq_some_getLast hne, Option.any_some]
    exact Strings.isSpace_digit (Strings.isDigit_decimal (List.getLast_mem hne))

theorem intValue_decimal {n : Nat} (h : n < 2 ^ 63) : intValue (Strings.decimal n) = n := by
  simp only [intValue, Strings.parseInt_decimal, if_pos h]

/-- What the row of a run has after its line was printed. -/
structure ReadBack (artifact sha256 : Text) (bytes : Nat) (x : Completion) : Prop where
  status : x.status = .succeeded
  sha256 : x.sha256 = sha256
  bytes : bytes < 2 ^ 63 → x.bytes = bytes
  artifact : x.artifactPath = artifact ↔ ' ' ∉ artifact
  manifest : x.manifestPath = manifestName x.artifactPath

theorem completion_okLine {sha256 : Text} (hsha : ' ' ∉ sha256) (artifact : Text) (bytes : Nat) (stderr : Text) :
    ReadBack artifact sha256 bytes
      (completion .logicalBackup ⟨okLine artifact sha256 bytes ++ ['\n'], stderr, none⟩) := by
  have hword : ' ' ∉ "BACKUP_OK".toList := by decide
  have hkey : ' ' ∉ "artifact=".toList := by decide
  have hhash : ' ' ∉ "sha256=".toList ++ sha256 := fun h => (List.mem_append.mp h).elim (by decide) hsha
  have hsize : ' ' ∉ "bytes=".toList ++ Strings.decimal bytes := fun h =>
    (List.mem_append.mp h).elim (by decide) fun hmem => absurd (Strings.isDigit_decimal hmem) (by decide)
  have h₂₁ : Strings.hasPrefix ("sha256=".toList ++ sha256) "artifact=".toList = false :=
    not_hasPrefix (by decide : 'a' ≠ 's') _ _
  have h₃₁ : Strings.hasPrefix ("bytes=".toList ++ Strings.decimal bytes) "artifact=".toList = false :=
    not_hasPrefix (by decide : 'a' ≠ 'b') _ _
  have h₃₂ : Strings.hasPrefix ("bytes=".toList ++ Strings.decimal bytes) "sha256=".toList = false :=
    not_hasPrefix (by decide : 's' ≠ 'b') _ _
  have hvalues := valueOf_line artifact hword hkey hhash hsize h₂₁ h₃₁ h₃₂
  have htrim : Strings.trimSpace (okLine artifact sha256 bytes ++ ['\n']) = okLine artifact sha256 bytes :=
    trimSpace_line (by decide) (by decide) _ _ _ _
  have hcontains : Strings.contains (okLine artifact sha256 bytes) "BACKUP_OK".toList = true :=
    Strings.contains_iff.mpr (List.prefix_append _ _).isInfix
  have hcompletion : completion .logicalBackup ⟨okLine artifact sha256 bytes ++ ['\n'], stderr, none⟩ =
      { status := .succeeded
        artifactPath := valueOf "artifact=".toList (Strings.split (okLine artifact sha256 bytes) ' ')
        manifestPath := manifestName (valueOf "artifact=".toList (Strings.split (okLine artifact sha256 bytes) ' '))
        sha256 := valueOf "sha256=".toList (Strings.split (okLine artifact sha256 bytes) ' ')
        bytes := intValue (valueOf "bytes=".toList (Strings.split (okLine artifact sha256 bytes) ' ')) } := by
    simp only [completion, htrim, hcontains, decide_true, Bool.and_self, if_true]
  rw [hcompletion]
  refine ⟨rfl, hvalues.2.1, fun hlt => ?_, hvalues.1, rfl⟩
  exact (congrArg intValue hvalues.2.2).trans (intValue_decimal hlt)

/-! ## Rows and runs -/

/-- What a run is as a process, when it has ended.  `noise` is what its programs wrote to `stderr`. -/
def process (c : Config) (noise : Text) : Run → Option Process
  | .done j m _ => some ⟨okLine (c.path j.base) m.sha256 m.bytes ++ ['\n'], noise, none⟩
  | .failed _ err =>
      some ⟨[], noise ++ "BACKUP_FAILED ".toList ++ err ++ ['\n'], some "exit status 1".toList⟩
  | _ => none

/-- A row of `backup_runs` of the kind `logical_backup`. -/
structure Row where
  /-- The place of the run, or the error of looking for the runner. -/
  run : Except Text Nat
  /-- The goroutine has not ended. -/
  waiting : Bool := true
  /-- `none` is the status `running`. -/
  completed : Option Completion := none

structure Admin where
  site : Site
  rows : List Row

inductive Event where
  /-- A step of a run, or a run that the timer starts. -/
  | runner (e : SiteEvent)
  /-- A row is created, and the goroutine starts a run if it finds the runner. -/
  | trigger (stat : Option Text)
  /-- The goroutine of a row ends.  The update of the row may fail. -/
  | complete (k : Nat) (noise : Text) (stored : Bool)

section System

variable (scheme : Ciphertexts Bytes) (formats : Formats) (c : Config)

/-- What the goroutine of a row records. -/
def recorded (s : Site) (row : Row) (noise : Text) : Option Completion :=
  match row.run with
  | .error err => some { status := .failed, error := "runner executable not found: ".toList ++ err }
  | .ok i => (s.threads[i]?.bind (process c noise)).map (completion .logicalBackup)

def step (s : Admin) : Event → Option Admin
  | .runner e => (BackupRunner.step scheme formats c s.site e).map fun site => { s with site := site }
  | .trigger (some err) => some { s with rows := s.rows ++ [{ run := .error err }] }
  | .trigger none => some {
      site := { s.site with threads := s.site.threads ++ [.start] }
      rows := s.rows ++ [{ run := .ok s.site.threads.length }] }
  | .complete k noise stored =>
      s.rows[k]?.bind fun row =>
        if row.waiting then
          (recorded c s.site row noise).map fun x => { s with
            rows := s.rows.set k { row with waiting := false, completed := if stored then some x else none } }
        else none

/-- Before any run and any row. -/
def admin (d : Disk) : Admin := { site := site d, rows := [] }

variable {scheme formats c}

theorem ended_step {s s' : Site} {e : SiteEvent} (h : BackupRunner.step scheme formats c s e = some s')
    {i : Nat} {r : Run} {noise : Text} {p : Process} (hr : s.threads[i]? = some r)
    (hp : process c noise r = some p) : s'.threads[i]? = some r := by
  obtain ⟨hlt, -⟩ := List.getElem?_eq_some_iff.mp hr
  rcases step_cases h with ⟨rfl, rfl⟩ | ⟨k, t, a, u, d', u', rfl, hu, ht, hacts, rfl⟩
  · exact (List.getElem?_append_left hlt).trans hr
  · by_cases hik : k = i
    · subst hik
      cases Option.some.inj (hu.symm.trans hr)
      cases hacts <;> cases hp
    · exact (List.getElem?_set_ne hik).trans hr

theorem recorded_step {s s' : Site} {e : SiteEvent}
    (h : BackupRunner.step scheme formats c s e = some s') {row : Row} {noise : Text} {x : Completion}
    (hx : recorded c s row noise = some x) : recorded c s' row noise = some x := by
  unfold recorded at hx ⊢
  split at hx
  next err => exact hx
  next i =>
    obtain ⟨p, hp, rfl⟩ := Option.map_eq_some_iff.mp hx
    obtain ⟨r, hr, hprocess⟩ := Option.bind_eq_some_iff.mp hp
    rw [ended_step h hr hprocess, Option.bind_some, hprocess, Option.map_some]

/-- The hash that a run has found. -/
def hashOf : Run → Option Text
  | .working _ (.header sum _) => some sum
  | .working _ (.manifest sum _ _) => some sum
  | .working _ (.list m) => some m.sha256
  | .working _ (.clean m _ _) => some m.sha256
  | .done _ m _ => some m.sha256
  | _ => none

theorem blank_acts {d d' : Disk} {r r' : Run} (h : ∀ sum, hashOf r = some sum → ' ' ∉ sum)
    (hacts : Acts scheme formats c d r d' r') : ∀ sum, hashOf r' = some sum → ' ' ∉ sum := by
  cases hacts with
  | hashed j hfile =>
      intro sum hsum
      cases hsum
      exact formats.sha256_blank _
  | opened j sum n hheader => exact h
  | recorded j sum n nonce => exact h
  | listed j m names => exact h
  | visited j m cut name names works => exact h
  | finished j m cut removed => exact h
  | _ => nofun

theorem blank_step {s s' : Site} {e : SiteEvent}
    (h : BackupRunner.step scheme formats c s e = some s')
    (hblank : ∀ r ∈ s.threads, ∀ sum, hashOf r = some sum → ' ' ∉ sum) :
    ∀ r ∈ s'.threads, ∀ sum, hashOf r = some sum → ' ' ∉ sum := by
  rcases step_cases h with ⟨rfl, rfl⟩ | ⟨i, t, a, r, d', r', rfl, hr, ht, hacts, rfl⟩
  · exact forall_mem_join hblank nofun
  · exact forall_mem_set hblank (blank_acts (hblank r (List.mem_of_getElem? hr)) hacts)

variable (scheme formats c)

/-- What holds of the runs and of what was recorded of them. -/
structure Inv (before : Disk) (s : Admin) : Prop where
  kept : Kept scheme formats c before s.site
  blank : ∀ r ∈ s.site.threads, ∀ sum, hashOf r = some sum → ' ' ∉ sum
  rows : ∀ row ∈ s.rows, ∀ x, row.completed = some x → ∃ noise, recorded c s.site row noise = some x

/-- A row is true of its run, and of the files until the time of the retention is over. -/
structure Truthful (s : Site) (row : Row) (x : Completion) : Prop where
  status : x.status = .succeeded ↔ ∃ i j m removed, row.run = .ok i ∧ s.threads[i]? = some (.done j m removed)
  values : ∀ i j m removed, row.run = .ok i → s.threads[i]? = some (.done j m removed) →
    ReadBack (c.path j.base) m.sha256 m.bytes x
  files : ∀ i j m removed, row.run = .ok i → s.threads[i]? = some (.done j m removed) →
    ∃ nonce time, j.sealing = some (nonce, time) ∧ (s.shared.now ≤ time + c.age →
      ∃ b, s.shared.world.files (c.path j.base) = some b ∧ x.sha256 = formats.sha256 b ∧
        decryptHeader scheme s.shared.world (c.path j.base) c.key = some { plain := j.dump, nonce := nonce.bytes })

variable {scheme formats c} {before : Disk}

/-- A step of the runs keeps what was recorded. -/
theorem Inv.runner {s : Admin} (h : Inv scheme formats c before s) {e : SiteEvent} {site' : Site}
    (hs : BackupRunner.step scheme formats c s.site e = some site') :
    Inv scheme formats c before { s with site := site' } := by
  refine ⟨kept_step h.kept hs, blank_step hs h.blank, fun row hrow x hx => ?_⟩
  obtain ⟨noise, hrec⟩ := h.rows row hrow x hx
  exact ⟨noise, recorded_step hs hrec⟩

theorem Inv.row {s : Admin} (h : Inv scheme formats c before s) (run : Except Text Nat) :
    Inv scheme formats c before { s with rows := s.rows ++ [{ run := run }] } :=
  ⟨h.kept, h.blank, forall_mem_join h.rows nofun⟩

theorem inv_step {s s' : Admin} {e : Event} (h : Inv scheme formats c before s)
    (hs : step scheme formats c s e = some s') : Inv scheme formats c before s' := by
  cases e with
  | runner e =>
      obtain ⟨site', hsite, rfl⟩ := Option.map_eq_some_iff.mp hs
      exact h.runner hsite
  | trigger stat =>
      cases stat with
      | some err =>
          cases hs
          exact h.row _
      | none =>
          cases hs
          exact Inv.row (h.runner (e := .join .start) rfl) _
  | complete k noise stored =>
      obtain ⟨row, hrow, hs⟩ := Option.bind_eq_some_iff.mp hs
      split at hs
      next _ =>
        obtain ⟨x, hx, rfl⟩ := Option.map_eq_some_iff.mp hs
        refine ⟨h.kept, h.blank, forall_mem_set h.rows fun y hy => ⟨noise, ?_⟩⟩
        cases stored with
        | false => cases hy
        | true =>
            cases hy
            exact hx
      next _ => cases hs

/-- What is recorded of a run that is done is what its line says. -/
theorem Inv.readBack {s : Admin} (h : Inv scheme formats c before s) {row : Row} {noise : Text} {x : Completion}
    (hx : recorded c s.site row noise = some x) {i : Nat} {j : Job} {m : Manifest} {removed : Bool}
    (hrun : row.run = .ok i) (hr : s.site.threads[i]? = some (.done j m removed)) :
    ReadBack (c.path j.base) m.sha256 m.bytes x := by
  rw [recorded, hrun] at hx
  simp only [hr, Option.bind_some, process, Option.map_some, Option.some.injEq] at hx
  rw [← hx]
  exact completion_okLine (h.blank _ (List.mem_of_getElem? hr) m.sha256 rfl) ..

/-- What is recorded as succeeded is a run that is done. -/
theorem done_of_succeeded {s : Site} {row : Row} {noise : Text} {x : Completion}
    (hx : recorded c s row noise = some x) (hstatus : x.status = .succeeded) :
    ∃ i j m removed, row.run = .ok i ∧ s.threads[i]? = some (.done j m removed) := by
  unfold recorded at hx
  split at hx
  next err _ =>
    cases hx
    cases hstatus
  next i hrun =>
    obtain ⟨p, hp, rfl⟩ := Option.map_eq_some_iff.mp hx
    obtain ⟨r, hr, hprocess⟩ := Option.bind_eq_some_iff.mp hp
    cases r with
    | start => cases hprocess
    | working j phase => cases hprocess
    | failed j err =>
        cases hprocess
        cases hstatus
    | done j m removed => exact ⟨i, j, m, removed, hrun, hr⟩

theorem truthful_of_inv {s : Admin} (h : Inv scheme formats c before s) {row : Row} (hrow : row ∈ s.rows)
    {x : Completion} (hx : row.completed = some x) : Truthful scheme formats c s.site row x := by
  obtain ⟨noise, hrec⟩ := h.rows row hrow x hx
  refine ⟨⟨done_of_succeeded hrec, ?_⟩, fun i j m removed => h.readBack hrec, ?_⟩
  · rintro ⟨i, j, m, removed, hrun, hr⟩
    exact (h.readBack hrec hrun hr).status
  · intro i j m removed hrun hr
    obtain ⟨nonce, time, hsealing, hkept⟩ := h.kept.done (List.mem_of_getElem? hr)
    refine ⟨nonce, time, hsealing, fun hwithin => ?_⟩
    obtain ⟨hfile, hheader, hdescribes⟩ := hkept hwithin
    exact ⟨_, hfile, (h.readBack hrec hrun hr).sha256.trans hdescribes.hash, hheader⟩

theorem inv_admin (d : Disk) : Inv scheme formats c d (admin d) :=
  ⟨kept_site d, List.forall_mem_nil _, List.forall_mem_nil _⟩

end System

/-- A run from its trigger to the completion of its row. -/
def sampleEvents : List Event :=
  [.trigger none, .runner (.act 0 (1, .create none (.ok "7".toList))), .runner (.act 0 (2, .dump [1, 2, 3] none none)),
    .runner (.act 0 (3, .encrypt (.ok Sample.nonce) none)), .runner (.act 0 (4, .hash none)),
    .runner (.act 0 (5, .header none)), .runner (.act 0 (6, .manifest (.ok none))), .runner (.act 0 (7, .list [])),
    .runner (.act 0 (8, .finish true)), .complete 0 [] true]

end DDAG.AdminSvc.BackupRuns
