import DDAG.Connectors.Bind
import DDAG.Lib.Fallible
import DDAG.Lib.Trace
import Mathlib.Data.Char
import Mathlib.Data.List.Lex
import Mathlib.Data.List.Nodup
import Mathlib.Data.List.Sort
import Mathlib.Logic.Function.Basic

/-!
# Migrations

`LoadMigrations` and `Migrate` of `internal/db/migrate.go`.  A migration that has no record in
`schema_migrations` is executed and recorded in one transaction, and one with a record is skipped or
is an error.  Any operation may fail.  A transaction that does not commit changes nothing.

The table `schema_migrations` is written by `Migrate` alone: the SQL of a migration changes the rest
of the database, of which nothing is assumed.  The database has a list of the migrations that were
committed, over all runs.

* `migrated_exactly`: what a run leaves behind, after any runs before it, if it succeeds and if it fails.
* `loaded_nodup`: the names of loaded migrations are distinct.
-/

namespace DDAG.Db

open Machine

structure Migration where
  name : Text
  sql : Text
deriving DecidableEq

/-! ## Loading -/

structure DirEntry where
  name : Text
  isDir : Bool

/-- The files that `LoadMigrations` reads, in their order. -/
def migrationNames (entries : List DirEntry) : List Text :=
  ((entries.filter fun e => !e.isDir && ".sql".toList.isSuffixOf e.name).map (·.name)).insertionSort (· ≤ ·)

/-- The first file that cannot be read is the error. -/
def loadMigrations (readDir : Except Text (List DirEntry)) (readFile : Text → Except Text Text) :
    Except Text (List Migration) :=
  match readDir with
  | .error err => .error ("read migrations dir: ".toList ++ err)
  | .ok entries =>
      (migrationNames entries).mapM fun n =>
        match readFile n with
        | .error err => .error ("read migration ".toList ++ n ++ ": ".toList ++ err)
        | .ok sql => .ok { name := n, sql := sql }

/-! ## Running -/

/-- The table `schema_migrations`, the rest of the database, and the migrations that were committed. -/
structure MigrationDB (R : Type*) where
  records : Text → Option Text
  rest : R
  executed : List Migration

/-- What a run does for one migration. -/
inductive MigrateCall where
  | select
  | beginTx
  | execute
  | insert
  | commit
deriving DecidableEq

/-- The migrations of a run, and the errors of the operations that fail. -/
structure Boot where
  migrations : List Migration
  create : Option Text
  call : Text → MigrateCall → Option Text

/-- An error, and the migration the run stopped at. -/
structure MigrateFailure where
  migration : Option Text
  message : Text
deriving DecidableEq

structure MigrateResult (R : Type*) where
  applied : List Text
  failure : Option MigrateFailure
  db : MigrationDB R

/-- The error of a second row with one primary key. -/
def duplicateKey : Text := "duplicate key value violates unique constraint".toList

def failedAt (m : Migration) (doing : String) (err : Text) : MigrateFailure where
  migration := some m.name
  message := doing.toList ++ m.name ++ ": ".toList ++ err

section Run

variable {R : Type*} (exec : Text → R → Except Text R) (checksum : Text → Text)

/-- The error of `INSERT`.  The name is a primary key. -/
def insertRecord (call : MigrateCall → Option Text) (db : MigrationDB R) (m : Migration) : Option Text :=
  match call .insert with
  | some err => some err
  | none => if (db.records m.name).isSome then some duplicateKey else none

/-- `tx.Exec` of the SQL. -/
def executeSQL (call : MigrateCall → Option Text) (db : MigrationDB R) (m : Migration) : Except Text R :=
  match call .execute with
  | some err => .error err
  | none => exec m.sql db.rest

/-- The transaction for a migration. -/
def applyMigration (call : MigrateCall → Option Text) (db : MigrationDB R) (m : Migration) :
    Except MigrateFailure (MigrationDB R) :=
  match call .beginTx with
  | some err => .error (failedAt m "begin tx for " err)
  | none =>
      match executeSQL exec call db m with
      | .error err => .error (failedAt m "apply " err)
      | .ok rest =>
          match insertRecord call db m with
          | some err => .error (failedAt m "record " err)
          | none =>
              match call .commit with
              | some err => .error (failedAt m "commit " err)
              | none =>
                  .ok
                    { records := Function.update db.records m.name (some (checksum m.sql))
                      rest := rest
                      executed := db.executed ++ [m] }

/-- The record that `SELECT` finds.  Every error is taken for a missing record. -/
def selectChecksum (call : MigrateCall → Option Text) (db : MigrationDB R) (m : Migration) : Option Text :=
  match call .select with
  | some _ => none
  | none => db.records m.name

def driftOf (m : Migration) : MigrateFailure where
  migration := some m.name
  message := "migration ".toList ++ m.name ++ " already applied with a different checksum (drift)".toList

/-- The loop, with the names applied so far. -/
def migrateLoop (call : Text → MigrateCall → Option Text) :
    List Migration → List Text → MigrationDB R → MigrateResult R
  | [], applied, db => { applied := applied, failure := none, db := db }
  | m :: ms, applied, db =>
      match selectChecksum (call m.name) db m with
      | some existing =>
          if existing ≠ checksum m.sql then { applied := applied, failure := some (driftOf m), db := db }
          else migrateLoop call ms applied db
      | none =>
          match applyMigration exec checksum (call m.name) db m with
          | .error failure => { applied := applied, failure := some failure, db := db }
          | .ok db => migrateLoop call ms (applied ++ [m.name]) db

def migrate (b : Boot) (db : MigrationDB R) : MigrateResult R :=
  match b.create with
  | some err =>
      { applied := [], db := db
        failure := some { migration := none, message := "ensure schema_migrations: ".toList ++ err } }
  | none => migrateLoop exec checksum b.call b.migrations [] db

def bootStep (db : MigrationDB R) (b : Boot) : Option (MigrationDB R) := some (migrate exec checksum b db).db

/-! ## What a run does -/

/-- What the loop does: the migrations it is given, those it executes, and how it ends. -/
inductive Migrates : List Migration → MigrationDB R → List Migration → Option MigrateFailure →
    MigrationDB R → Prop
  | done {db : MigrationDB R} : Migrates [] db [] none db
  | skip {m : Migration} {ms executed : List Migration} {db db' : MigrationDB R} {failure : Option MigrateFailure}
      (hrecord : db.records m.name = some (checksum m.sql)) (hms : Migrates ms db executed failure db') :
      Migrates (m :: ms) db executed failure db'
  | apply {m : Migration} {ms executed : List Migration} {db db' : MigrationDB R} {rest : R}
      {failure : Option MigrateFailure} (hnew : db.records m.name = none) (hexec : exec m.sql db.rest = .ok rest)
      (hms : Migrates ms
        { records := Function.update db.records m.name (some (checksum m.sql)), rest := rest
          executed := db.executed ++ [m] } executed failure db') :
      Migrates (m :: ms) db (m :: executed) failure db'
  | stop {m : Migration} {ms : List Migration} {db : MigrationDB R} {failure : MigrateFailure}
      (hat : failure.migration = some m.name) : Migrates (m :: ms) db [] (some failure) db

variable {exec checksum}

theorem applyMigration_error {call : MigrateCall → Option Text} {db : MigrationDB R} {m : Migration}
    {failure : MigrateFailure} (h : applyMigration exec checksum call db m = .error failure) :
    failure.migration = some m.name := by
  unfold applyMigration at h
  split at h
  next _ =>
    cases h
    rfl
  next _ =>
    split at h
    next _ =>
      cases h
      rfl
    next _ =>
      split at h
      next _ =>
        cases h
        rfl
      next _ =>
        split at h
        next _ =>
          cases h
          rfl
        next _ => cases h

theorem insertRecord_eq_none {call : MigrateCall → Option Text} {db : MigrationDB R} {m : Migration}
    (h : insertRecord call db m = none) : db.records m.name = none := by
  unfold insertRecord at h
  split at h
  next _ => cases h
  next _ =>
    split at h
    next _ => cases h
    next hrecord => exact Option.not_isSome_iff_eq_none.mp hrecord

theorem applyMigration_ok {call : MigrateCall → Option Text} {db db' : MigrationDB R} {m : Migration}
    (h : applyMigration exec checksum call db m = .ok db') :
    db.records m.name = none ∧ ∃ rest, exec m.sql db.rest = .ok rest ∧
      db' = { records := Function.update db.records m.name (some (checksum m.sql)), rest := rest
              executed := db.executed ++ [m] } := by
  unfold applyMigration at h
  split at h
  next _ => cases h
  next _ =>
    split at h
    next _ => cases h
    next rest hexec =>
      split at h
      next _ => cases h
      next hinsert =>
        split at h
        next _ => cases h
        next _ =>
          cases h
          refine ⟨insertRecord_eq_none hinsert, rest, ?_, rfl⟩
          unfold executeSQL at hexec
          split at hexec
          next _ => cases hexec
          next _ => exact hexec

theorem selectChecksum_eq_some {call : MigrateCall → Option Text} {db : MigrationDB R} {m : Migration}
    {existing : Text} (h : selectChecksum call db m = some existing) : db.records m.name = some existing := by
  unfold selectChecksum at h
  split at h
  next _ => cases h
  next _ => exact h

/-- The names of what is executed are appended to those of before. -/
theorem migrates_migrateLoop (call : Text → MigrateCall → Option Text) (ms : List Migration) :
    ∀ (applied : List Text) (db : MigrationDB R), ∃ executed,
      (migrateLoop exec checksum call ms applied db).applied = applied ++ executed.map (·.name) ∧
      Migrates exec checksum ms db executed (migrateLoop exec checksum call ms applied db).failure
        (migrateLoop exec checksum call ms applied db).db := by
  induction ms with
  | nil =>
      intro applied db
      exact ⟨[], (List.append_nil _).symm, .done⟩
  | cons m ms ih =>
      intro applied db
      unfold migrateLoop
      split
      next existing hselect =>
        have hrecord := selectChecksum_eq_some hselect
        split
        next _ => exact ⟨[], (List.append_nil _).symm, .stop rfl⟩
        next hsame =>
          obtain ⟨executed, happlied, hms⟩ := ih applied db
          rw [Decidable.not_not.mp hsame] at hrecord
          exact ⟨executed, happlied, .skip hrecord hms⟩
      next _ =>
        split
        next failure herror => exact ⟨[], (List.append_nil _).symm, .stop (applyMigration_error herror)⟩
        next db' hok =>
          obtain ⟨hnew, rest, hexec, rfl⟩ := applyMigration_ok hok
          obtain ⟨executed, happlied, hms⟩ := ih (applied ++ [m.name]) _
          refine ⟨m :: executed, ?_, .apply hnew hexec hms⟩
          rw [happlied, List.map_cons, List.append_assoc, List.singleton_append]

/-! ## What is executed -/

variable (exec checksum)

/-- The migrations were executed and recorded, in this order, and nothing else has happened. -/
structure Effects (executed : List Migration) (db db' : MigrationDB R) : Prop where
  log : db'.executed = db.executed ++ executed
  rest : executed.foldlM (fun r m => exec m.sql r) db.rest = .ok db'.rest
  new : ∀ m ∈ executed, db.records m.name = none
  recorded : ∀ m ∈ executed, db'.records m.name = some (checksum m.sql)
  others : ∀ n, n ∉ executed.map (·.name) → db'.records n = db.records n
  nodup : (executed.map (·.name)).Nodup

variable {exec checksum}

theorem effects_nil (db : MigrationDB R) : Effects exec checksum [] db db where
  log := (List.append_nil _).symm
  rest := rfl
  new _ h := absurd h List.not_mem_nil
  recorded _ h := absurd h List.not_mem_nil
  others _ _ := rfl
  nodup := List.nodup_nil

section Effects

variable {ms executed : List Migration} {db db' : MigrationDB R}

theorem Effects.cons {m : Migration} {rest : R} (hnew : db.records m.name = none)
    (hexec : exec m.sql db.rest = .ok rest)
    (h : Effects exec checksum executed
      { records := Function.update db.records m.name (some (checksum m.sql)), rest := rest
        executed := db.executed ++ [m] } db') : Effects exec checksum (m :: executed) db db' := by
  have hne : ∀ x ∈ executed, x.name ≠ m.name := by
    intro x hx heq
    have hnone : Function.update db.records m.name (some (checksum m.sql)) x.name = none := h.new x hx
    rw [heq, Function.update_self] at hnone
    cases hnone
  have hnot : m.name ∉ executed.map (·.name) := by
    intro hmem
    obtain ⟨x, hx, heq⟩ := List.mem_map.mp hmem
    exact hne x hx heq
  constructor
  case log => simpa using h.log
  case rest =>
    rw [List.foldlM_cons, hexec]
    exact h.rest
  case new =>
    intro x hx
    rcases List.mem_cons.mp hx with rfl | hx
    · exact hnew
    · exact (Function.update_of_ne (hne x hx) ..).symm.trans (h.new x hx)
  case recorded =>
    intro x hx
    rcases List.mem_cons.mp hx with rfl | hx
    · exact (h.others _ hnot).trans (Function.update_self ..)
    · exact h.recorded x hx
  case others =>
    intro n hn
    rw [List.map_cons, List.mem_cons, not_or] at hn
    exact (h.others n hn.2).trans (Function.update_of_ne hn.1 ..)
  case nodup => exact List.nodup_cons.mpr ⟨hnot, h.nodup⟩

theorem Effects.keeps (h : Effects exec checksum executed db db') {n sum : Text} (hn : db.records n = some sum) :
    db'.records n = some sum := by
  rw [h.others n, hn]
  intro hmem
  obtain ⟨m, hm, rfl⟩ := List.mem_map.mp hmem
  cases (h.new m hm).symm.trans hn

theorem Migrates.effects {failure : Option MigrateFailure}
    (h : Migrates exec checksum ms db executed failure db') : Effects exec checksum executed db db' := by
  induction h with
  | done => exact effects_nil _
  | skip _ _ ih => exact ih
  | apply hnew hexec _ ih => exact ih.cons hnew hexec
  | stop _ => exact effects_nil _

theorem Migrates.completed {failure : Option MigrateFailure}
    (h : Migrates exec checksum ms db executed failure db') (hok : failure = none) :
    executed.Sublist ms ∧ ∀ m ∈ ms, db'.records m.name = some (checksum m.sql) := by
  induction h with
  | done => exact ⟨.slnil, fun m hm => absurd hm List.not_mem_nil⟩
  | skip hrecord hms ih =>
      obtain ⟨hsub, hall⟩ := ih hok
      exact ⟨hsub.cons _, List.forall_mem_cons.mpr ⟨hms.effects.keeps hrecord, hall⟩⟩
  | apply hnew hexec hms ih =>
      obtain ⟨hsub, hall⟩ := ih hok
      exact ⟨hsub.cons_cons _, List.forall_mem_cons.mpr ⟨hms.effects.keeps (Function.update_self ..), hall⟩⟩
  | stop _ => cases hok

theorem Migrates.stopped {result : Option MigrateFailure} {failure : MigrateFailure}
    (h : Migrates exec checksum ms db executed result db') (hfailure : result = some failure) :
    ∃ before m behind, ms = before ++ m :: behind ∧ failure.migration = some m.name ∧ executed.Sublist before := by
  induction h with
  | done => cases hfailure
  | @skip m _ _ _ _ _ _ _ ih =>
      obtain ⟨before, x, behind, rfl, hat, hsub⟩ := ih hfailure
      exact ⟨m :: before, x, behind, rfl, hat, hsub.cons _⟩
  | @apply m _ _ _ _ _ _ _ _ _ ih =>
      obtain ⟨before, x, behind, rfl, hat, hsub⟩ := ih hfailure
      exact ⟨m :: before, x, behind, rfl, hat, hsub.cons_cons _⟩
  | @stop m ms _ _ hat =>
      cases hfailure
      exact ⟨[], m, ms, rfl, hat, .slnil⟩

/-- A record with another checksum stops the run at its migration, or before. -/
theorem Migrates.drift {result : Option MigrateFailure} (h : Migrates exec checksum ms db executed result db') :
    ∀ {before behind : List Migration} {m : Migration} {sum : Text}, ms = before ++ m :: behind →
      db.records m.name = some sum → sum ≠ checksum m.sql →
        ∃ failure, result = some failure ∧ ∃ x ∈ before ++ [m], failure.migration = some x.name := by
  induction h with
  | done =>
      intro before behind m sum hms
      cases before <;> cases hms
  | skip hrecord _ ih =>
      intro before behind m sum hms hm hsum
      cases before with
      | nil =>
          cases hms
          cases hm.symm.trans hrecord
          exact absurd rfl hsum
      | cons x before =>
          cases hms
          obtain ⟨failure, hresult, y, hy, hat⟩ := ih rfl hm hsum
          exact ⟨failure, hresult, y, List.mem_cons_of_mem _ hy, hat⟩
  | @apply m₀ _ _ db _ _ _ hnew _ _ ih =>
      intro before behind m sum hms hm hsum
      cases before with
      | nil =>
          cases hms
          cases hm.symm.trans hnew
      | cons x before =>
          cases hms
          have hne : m.name ≠ m₀.name := by
            intro heq
            rw [heq, hnew] at hm
            cases hm
          obtain ⟨failure, hresult, y, hy, hat⟩ := ih rfl ((Function.update_of_ne hne ..).trans hm) hsum
          exact ⟨failure, hresult, y, List.mem_cons_of_mem _ hy, hat⟩
  | @stop m₀ _ _ failure hat =>
      intro before behind m sum hms hm hsum
      refine ⟨failure, rfl, m₀, ?_, hat⟩
      cases before with
      | nil =>
          cases hms
          exact List.mem_singleton_self _
      | cons x before =>
          cases hms
          exact List.mem_cons_self

theorem migrateLoop_recorded {call : Text → MigrateCall → Option Text} (hselect : ∀ n, call n .select = none)
    (hall : ∀ m ∈ ms, db.records m.name = some (checksum m.sql)) (applied : List Text) :
    migrateLoop exec checksum call ms applied db = { applied := applied, failure := none, db := db } := by
  induction ms with
  | nil => rfl
  | cons m ms ih =>
      obtain ⟨hm, hms⟩ := List.forall_mem_cons.mp hall
      simp [migrateLoop, selectChecksum, hselect, hm, ih hms]

end Effects

/-! ## Runs one after the other -/

variable (exec checksum)

/-- Over all runs from a start: every migration that was executed had no record at the start, is
recorded, and was executed once. -/
structure Once (start db : MigrationDB R) : Prop where
  nodup : (db.executed.map (·.name)).Nodup
  recorded : ∀ m ∈ db.executed, db.records m.name = some (checksum m.sql)
  new : ∀ m ∈ db.executed, start.records m.name = none
  kept : ∀ n sum, start.records n = some sum → db.records n = some sum

/-- A run that succeeds: all migrations are recorded, what was executed under their names in any run
is their SQL, and another run does nothing. -/
structure Completed (b : Boot) (db : MigrationDB R) (out : MigrateResult R) : Prop where
  executes : ∃ executed, executed.Sublist b.migrations ∧ out.applied = executed.map (·.name) ∧
    Effects exec checksum executed db out.db
  recorded : ∀ m ∈ b.migrations, out.db.records m.name = some (checksum m.sql)
  same : ∀ m ∈ b.migrations, ∀ x ∈ out.db.executed, x.name = m.name → x = m
  again : ∀ create call, create = none → (∀ n, call n .select = none) →
    migrate exec checksum { migrations := b.migrations, create := create, call := call } out.db =
      { applied := [], failure := none, db := out.db }

/-- A run that fails, before the first migration or at one. -/
inductive Stopped (b : Boot) (db : MigrationDB R) (out : MigrateResult R) (failure : MigrateFailure) : Prop
  | create (hat : failure.migration = none) (happlied : out.applied = []) (hdb : out.db = db)
  /-- The migrations executed are before it in the list, and it has no effect. -/
  | migration {before behind executed : List Migration} {m : Migration}
      (hlist : b.migrations = before ++ m :: behind) (hat : failure.migration = some m.name)
      (hbefore : executed.Sublist before) (happlied : out.applied = executed.map (·.name))
      (heffects : Effects exec checksum executed db out.db) (hnot : m ∉ executed)
      (hrecord : out.db.records m.name = db.records m.name)

/-- What a run does, on a database that is reached from a start. -/
structure MigratedExactly (start db : MigrationDB R) (b : Boot) (out : MigrateResult R) : Prop where
  once : Once checksum start out.db
  completed : out.failure = none → Completed exec checksum b db out
  stopped : ∀ failure, out.failure = some failure → Stopped exec checksum b db out failure
  drift : ∀ before m behind sum, b.migrations = before ++ m :: behind → db.records m.name = some sum →
    sum ≠ checksum m.sql → ∃ failure, out.failure = some failure ∧
      (failure.migration = none ∨ ∃ x ∈ before ++ [m], failure.migration = some x.name)

variable {exec checksum}

section Runs

variable {start db db' : MigrationDB R} {b : Boot}

theorem once_start (h : start.executed = []) : Once checksum start start where
  nodup := by
    rw [h]
    exact List.nodup_nil
  recorded m hm := by
    rw [h] at hm
    cases hm
  new m hm := by
    rw [h] at hm
    cases hm
  kept _ _ hn := hn

theorem Once.effects {executed : List Migration} (h : Once checksum start db)
    (heffects : Effects exec checksum executed db db') : Once checksum start db' := by
  have hmem : ∀ {m}, m ∈ db'.executed → m ∈ db.executed ∨ m ∈ executed := by
    intro m hm
    rw [heffects.log] at hm
    exact List.mem_append.mp hm
  constructor
  case nodup =>
    rw [heffects.log, List.map_append]
    refine h.nodup.append heffects.nodup fun n hn hn' => ?_
    obtain ⟨m, hm, rfl⟩ := List.mem_map.mp hn
    obtain ⟨x, hx, hname⟩ := List.mem_map.mp hn'
    have hnone := heffects.new x hx
    rw [hname, h.recorded m hm] at hnone
    cases hnone
  case recorded =>
    intro m hm
    rcases hmem hm with hm | hm
    · exact heffects.keeps (h.recorded m hm)
    · exact heffects.recorded m hm
  case new =>
    intro m hm
    rcases hmem hm with hm | hm
    · exact h.new m hm
    · cases hstart : start.records m.name with
      | none => rfl
      | some sum => cases (heffects.new m hm).symm.trans (h.kept _ sum hstart)
  case kept => exact fun n sum hn => heffects.keeps (h.kept n sum hn)

/-- A run executes some migrations, and returns their names. -/
theorem effects_migrate (b : Boot) (db : MigrationDB R) :
    ∃ executed, (migrate exec checksum b db).applied = executed.map (·.name) ∧
      Effects exec checksum executed db (migrate exec checksum b db).db := by
  unfold migrate
  split
  next _ => exact ⟨[], rfl, effects_nil _⟩
  next _ =>
    obtain ⟨executed, happlied, hrun⟩ := migrates_migrateLoop b.call b.migrations [] db
    exact ⟨executed, happlied, hrun.effects⟩

theorem Once.boot (h : Once checksum start db) (hs : bootStep exec checksum db b = some db') :
    Once checksum start db' := by
  cases hs
  obtain ⟨executed, -, heffects⟩ := effects_migrate b db
  exact h.effects heffects

theorem completed_migrate (hinj : Function.Injective checksum)
    (honce : Once checksum start (migrate exec checksum b db).db)
    (hok : (migrate exec checksum b db).failure = none) :
    Completed exec checksum b db (migrate exec checksum b db) := by
  unfold migrate at hok honce ⊢
  split at hok
  next _ => cases hok
  next hcreate =>
    rw [hcreate] at honce
    obtain ⟨executed, happlied, hrun⟩ := migrates_migrateLoop b.call b.migrations [] db
    obtain ⟨hsub, hall⟩ := hrun.completed hok
    refine ⟨⟨executed, hsub, happlied, hrun.effects⟩, hall, fun m hm x hx hname => ?_, ?_⟩
    · have hsum := honce.recorded x hx
      rw [hname, hall m hm, Option.some.injEq] at hsum
      cases m
      cases x
      cases hname
      cases hinj hsum
      rfl
    · rintro create call rfl hselect
      exact migrateLoop_recorded hselect hall []

theorem stopped_migrate (hnames : (b.migrations.map (·.name)).Nodup) {failure : MigrateFailure}
    (hfailure : (migrate exec checksum b db).failure = some failure) :
    Stopped exec checksum b db (migrate exec checksum b db) failure := by
  unfold migrate at hfailure ⊢
  split at hfailure
  next _ =>
    cases hfailure
    exact .create rfl rfl rfl
  next _ =>
    obtain ⟨executed, happlied, hrun⟩ := migrates_migrateLoop b.call b.migrations [] db
    obtain ⟨before, m, behind, hlist, hat, hsub⟩ := hrun.stopped hfailure
    -- the names before it are others
    have hnot : m.name ∉ executed.map (·.name) := by
      rw [hlist, List.map_append, List.map_cons] at hnames
      intro hmem
      exact (List.nodup_append.mp hnames).2.2 _ ((hsub.map _).subset hmem) _ List.mem_cons_self rfl
    refine .migration hlist hat hsub happlied hrun.effects ?_ (hrun.effects.others _ hnot)
    exact fun hm => hnot (List.mem_map_of_mem hm)

theorem drift_migrate {before behind : List Migration} {m : Migration} {sum : Text}
    (hlist : b.migrations = before ++ m :: behind) (hm : db.records m.name = some sum)
    (hsum : sum ≠ checksum m.sql) :
    ∃ failure, (migrate exec checksum b db).failure = some failure ∧
      (failure.migration = none ∨ ∃ x ∈ before ++ [m], failure.migration = some x.name) := by
  unfold migrate
  split
  next _ => exact ⟨_, rfl, .inl rfl⟩
  next _ =>
    obtain ⟨executed, -, hrun⟩ := migrates_migrateLoop b.call b.migrations [] db
    obtain ⟨failure, hfailure, hat⟩ := hrun.drift hlist hm hsum
    exact ⟨failure, hfailure, .inr hat⟩

end Runs

end Run

/-- For every start, after any runs with any lists and failures, and for a run of a list with distinct
names: every migration has taken effect at most once over all runs.  If the run succeeds, all its
migrations are recorded with their checksums, and another run does nothing.  If it fails at a
migration, it returns what it has executed, which is before this one in the list and recorded, and the
one it fails at leaves no record and no effect.  A record with another checksum makes it fail at the
migration or before. -/
theorem migrated_exactly {R : Type*} (exec : Text → R → Except Text R) {checksum : Text → Text}
    (hinj : Function.Injective checksum) {start db : MigrationDB R} (hstart : start.executed = [])
    (history : List Boot) (hrun : runs (bootStep exec checksum) start history = some db) (b : Boot)
    (hnames : (b.migrations.map (·.name)).Nodup) :
    MigratedExactly exec checksum start db b (migrate exec checksum b db) := by
  have halong : Along (bootStep exec checksum) (Once checksum start) start history :=
    Along.of_step Once.boot (once_start hstart) history
  have honce : Once checksum start (migrate exec checksum b db).db := by
    obtain ⟨executed, -, heffects⟩ := effects_migrate b db
    exact (halong.last hrun).effects heffects
  refine ⟨honce, completed_migrate hinj honce, fun failure hfailure => stopped_migrate hnames hfailure, ?_⟩
  intro before m behind sum hlist hm hsum
  exact drift_migrate hlist hm hsum

def appendSQL (sql : Text) (statements : List Text) : Except Text (List Text) := .ok (statements ++ [sql])

def freshDB : MigrationDB (List Text) where
  records _ := none
  rest := []
  executed := []

/-- A run without failures, of migrations whose SQL is their name. -/
def bootOf (names : List String) : Boot where
  migrations := names.map fun n => { name := n.toList, sql := n.toList }
  create := none
  call _ _ := none

/-- A migration that is put between two others is the only one that the next run executes. -/
theorem migrated_between :
    let db := (migrate appendSQL id (bootOf ["0001.sql", "0003.sql"]) freshDB).db
    let b := bootOf ["0001.sql", "0002.sql", "0003.sql"]
    (migrate appendSQL id b db).applied = ["0002.sql".toList] ∧ (b.migrations.map (·.name)).Nodup ∧
      MigratedExactly appendSQL id freshDB db b (migrate appendSQL id b db) := by
  have hnames : ((bootOf ["0001.sql", "0002.sql", "0003.sql"]).migrations.map (·.name)).Nodup := by decide
  refine ⟨by decide +kernel, hnames, ?_⟩
  exact migrated_exactly appendSQL Function.injective_id rfl [bootOf ["0001.sql", "0003.sql"]] rfl _ hnames

/-! ## Loaded migrations -/

/-- The entries of a directory have distinct names, and so have the migrations that are loaded.  They
are in the order of their names. -/
theorem loaded_nodup {entries : List DirEntry} {readFile : Text → Except Text Text} {ms : List Migration}
    (hentries : (entries.map (·.name)).Nodup) (h : loadMigrations (.ok entries) readFile = .ok ms) :
    (ms.map (·.name)).Nodup ∧ (ms.map (·.name)).Pairwise (· ≤ ·) := by
  have hmap : ms.map (·.name) = migrationNames entries := by
    refine Fallible.map_of_mapM_eq_ok (fun n m hm => ?_) h
    split at hm
    next _ => cases hm
    next _ =>
      cases hm
      rfl
  rw [hmap]
  constructor
  · refine (List.perm_insertionSort _ _).nodup_iff.mpr ?_
    exact hentries.sublist (List.filter_sublist.map _)
  · exact List.pairwise_insertionSort _ _

end DDAG.Db
