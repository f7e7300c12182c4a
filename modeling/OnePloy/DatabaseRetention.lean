import OnePloy.Lib.PhpText
import OnePloy.Lib.Reach
import OnePloy.Lib.Table
import Mathlib.Algebra.Order.Field.Rat

/-!
# Retention of database backups

One run of `DatabaseBackupJob` dumps the databases of a schedule one after the
other, each with an execution row of its own, and then removes old backups,
unless the last dump failed. The retention limits rank the successful
executions of the schedule by time, all databases together.

`history` is no table: it lists every successful backup of the schedule, the
newest first, whatever became of it.
-/

namespace OnePloy

open Conc Php

inductive DatabaseKind
  | postgresql
  | mongodb
  | mysql
  | mariadb
  | clickhouse
  deriving DecidableEq, Repr

inductive BackupExecutionStatus
  | running
  | failed
  | success
  deriving DecidableEq, Repr

/-- A row of `scheduled_database_backup_executions`. -/
structure BackupExecution where
  uuid : String
  databaseName : String
  createdAt : Nat
  status : BackupExecutionStatus
  size : Nat
  filename : Option String
  localStorageDeleted : Bool
  s3StorageDeleted : Bool
  s3Uploaded : Option Bool
  deriving DecidableEq

abbrev BackupRow := Nat × BackupExecution

/-- The limits for one kind of storage. -/
structure Retention where
  amount : Int
  days : Int
  maxStorageGB : ℚ

structure BackupSchedule where
  kind : DatabaseKind
  dumpAll : Bool
  backupDir : String
  disableLocalBackup : Bool
  locally : Retention
  s3 : Retention

/-- A successful backup: its database, its execution and its file. -/
structure BackupRecord where
  database : String
  execution : Nat
  filename : String
  deriving DecidableEq

structure BackupStore where
  executions : Table BackupExecution
  /-- The backup files on the server. -/
  files : List String
  history : List BackupRecord

/-! ## Dumps -/

/-- One pass of the loop over the databases: the two times it reads, the id it
draws, the size of the dump if there is one, and what became of the upload. -/
structure DumpAttempt where
  database : String
  uuid : String
  fileTime : Nat
  createdAt : Nat
  dumped : Option Nat
  s3Uploaded : Option Bool
  deriving DecidableEq, Repr

/-- An empty file is no backup. -/
def DumpAttempt.succeeds (a : DumpAttempt) : Bool := a.dumped.any (0 < ·)

def DatabaseKind.databaseName (kind : DatabaseKind) (database : String) : String :=
  match kind with
  | .mongodb => if database = "*" then "all" else (explodeOnce ':' database).1
  | _ => database

def BackupSchedule.backupFile (cfg : BackupSchedule) (a : DumpAttempt) : String :=
  let time := toString a.fileTime
  match cfg.kind with
  | .postgresql =>
      if cfg.dumpAll then "/pg-dump-all-" ++ time ++ ".gz"
      else "/pg-dump-" ++ a.database ++ "-" ++ time ++ ".dmp"
  | .mongodb => "/mongo-dump-" ++ cfg.kind.databaseName a.database ++ "-" ++ time ++ ".tar.gz"
  | .mysql =>
      if cfg.dumpAll then "/mysql-dump-all-" ++ time ++ ".gz"
      else "/mysql-dump-" ++ a.database ++ "-" ++ time ++ ".dmp"
  | .mariadb =>
      if cfg.dumpAll then "/mariadb-dump-all-" ++ time ++ ".gz"
      else "/mariadb-dump-" ++ a.database ++ "-" ++ time ++ ".dmp"
  | .clickhouse => "/clickhouse-backup-" ++ time ++ "-" ++ a.uuid ++ ".zip"

def BackupSchedule.backupLocation (cfg : BackupSchedule) (a : DumpAttempt) : String :=
  cfg.backupDir ++ cfg.backupFile a

/-- The execution row as the pass leaves it. -/
def BackupSchedule.execution (cfg : BackupSchedule) (a : DumpAttempt) : BackupExecution where
  uuid := a.uuid
  databaseName := cfg.kind.databaseName a.database
  createdAt := a.createdAt
  status := if a.succeeds then .success else .failed
  size := a.dumped.getD 0
  filename := if a.succeeds then some (cfg.backupLocation a) else none
  localStorageDeleted := false
  s3StorageDeleted := false
  s3Uploaded := if a.succeeds then a.s3Uploaded else none

namespace BackupStore

/-- A successful dump leaves its file; a failed one of ClickHouse takes its
file away. -/
def dump (cfg : BackupSchedule) (d : BackupStore) (a : DumpAttempt) : BackupStore where
  executions := d.executions.insert (cfg.execution a)
  files :=
    if a.succeeds then cfg.backupLocation a :: d.files
    else if cfg.kind = .clickhouse then d.files.filter (· ≠ cfg.backupLocation a)
    else d.files
  history :=
    if a.succeeds then
      ⟨cfg.kind.databaseName a.database, d.executions.nextId, cfg.backupLocation a⟩ :: d.history
    else d.history

/-- The id is drawn again while another execution has it. -/
def draws (d : BackupStore) (a : DumpAttempt) : Bool :=
  (d.executions.first? fun _ e => e.uuid == a.uuid).isNone

def dumps (cfg : BackupSchedule) : BackupStore → List DumpAttempt → Option BackupStore
  | d, [] => some d
  | d, a :: rest => if d.draws a then dumps cfg (d.dump cfg a) rest else none

/-- The newest successful backup of a database. -/
def newest (d : BackupStore) (database : String) : Option BackupRecord :=
  d.history.find? (·.database == database)

end BackupStore

/-! ## Removing old backups -/

/-- The first execution, in the order given, with which the sizes exceed the limit. -/
def firstOver (maxStorageBytes : ℚ) : Nat → List BackupRow → Option BackupRow
  | _, [] => none
  | totalSize, p :: rest =>
      if maxStorageBytes < ((totalSize + p.2.size : Nat) : ℚ) then some p
      else firstOver maxStorageBytes (totalSize + p.2.size) rest

namespace Retention

def maxStorageBytes (r : Retention) : ℚ := r.maxStorageGB * 1024 ^ 3

def byAmount (r : Retention) (successful : List BackupRow) : List BackupRow :=
  if 0 < r.amount then successful.drop r.amount.toNat else []

def byDays (r : Retention) (successful : List BackupRow) : List BackupRow :=
  if 0 < r.days then
    successful.head?.elim [] fun first =>
      successful.filter fun p => p.2.createdAt + r.days.toNat * 86400 < first.2.createdAt
  else []

/-- The first success does not count, and the first of those over the limit stays. -/
def byStorage (r : Retention) (successful : List BackupRow) : List BackupRow :=
  if 0 < r.maxStorageGB then
    (firstOver r.maxStorageBytes 0 (successful.drop 1)).elim [] fun beyond =>
      (successful.filter fun p => p.2.createdAt ≤ beyond.2.createdAt).drop 1
  else []

/-- `$backupsToDelete`. The early return for three zeros never happens, as the
storage limit is a float; it would change nothing. -/
def toDelete (r : Retention) (successful : List BackupRow) : List BackupRow :=
  (r.byAmount successful ++ r.byDays successful ++ r.byStorage successful).eraseDups

end Retention

/-- `filter(fn ($e) => ! empty($e->filename))->pluck('filename')`. -/
def filesToDelete (backups : List BackupRow) : List String :=
  backups.filterMap fun p => p.2.filename.filter fun f => Value.truthy (.string f)

/-- What a run finds outside: the order in which the database returns the
successful executions, those with a local copy and those with a copy in S3, and
how S3 takes the deletion. -/
structure CleanUp where
  locally : List BackupRow
  s3 : List BackupRow
  hasS3 : Bool
  s3Deletes : Bool

namespace BackupStore

/-- `where(status, success)->where(<flag>, false)->orderBy('created_at', 'desc')`. -/
def lists (d : BackupStore) (deleted : BackupExecution → Bool) (rows : List BackupRow) : Bool :=
  rows.isPerm (d.executions.select fun _ e => e.status == .success && !deleted e) &&
    decide (rows.Pairwise fun p q => q.2.createdAt ≤ p.2.createdAt)

/-- `deleteOldBackupsLocally` and the update after it. -/
def deleteOldBackupsLocally (d : BackupStore) (r : Retention) (rows : List BackupRow) :
    BackupStore :=
  let toDelete := r.toDelete rows
  if (filesToDelete toDelete).isEmpty then d
  else
    { d with
      executions := d.executions.updateWhere (fun i _ => toDelete.any (·.1 == i))
        ({ · with localStorageDeleted := true })
      files := d.files.filter fun f => !(filesToDelete toDelete).contains f }

/-- `deleteOldBackupsFromS3` and the update after it. -/
def deleteOldBackupsFromS3 (d : BackupStore) (r : Retention) (c : CleanUp) : BackupStore :=
  let toDelete := r.toDelete c.s3
  if (filesToDelete toDelete).isEmpty || !c.s3Deletes then d
  else
    { d with
      executions := d.executions.updateWhere (fun i _ => toDelete.any (·.1 == i))
        ({ · with s3StorageDeleted := true }) }

/-- No copy is left of these. -/
def deleteGone (d : BackupStore) : BackupStore :=
  { d with
    executions := (d.executions.deleteWhere fun _ e =>
      e.localStorageDeleted && e.s3StorageDeleted).deleteWhere fun _ e =>
      e.localStorageDeleted && e.s3Uploaded.isNone }

def removeOldBackups (cfg : BackupSchedule) (d : BackupStore) (c : CleanUp) :
    Option BackupStore := do
  let d ←
    if cfg.disableLocalBackup then pure d
    else if d.lists (·.localStorageDeleted) c.locally then
      pure (d.deleteOldBackupsLocally cfg.locally c.locally)
    else none
  let d ←
    if c.hasS3 then
      if d.lists (·.s3StorageDeleted) c.s3 then pure (d.deleteOldBackupsFromS3 cfg.s3 c) else none
    else pure d
  pure d.deleteGone

end BackupStore

/-- One run of the job. `completed` says that the worker lives to the end of
the loop. -/
structure BackupRun where
  attempts : List DumpAttempt
  completed : Bool
  cleanUp : CleanUp

/-- `$this->backup_log->status === 'success'`, of the last execution created. -/
def BackupRun.cleansUp (run : BackupRun) : Bool :=
  run.completed && run.attempts.getLast?.any DumpAttempt.succeeds

/-- `DatabaseBackupJob::handle`. -/
def BackupSchedule.handle (cfg : BackupSchedule) (d : BackupStore) (run : BackupRun) :
    Option BackupStore := do
  let d ← d.dumps cfg run.attempts
  if run.cleansUp then d.removeOldBackups cfg run.cleanUp else pure d

/-! ## What the limits select -/

/-- No limit reaches the success `p`: it is among the first `amount` listed, is
not older than the days allowed before the first, and is not listed behind the
first success with the time at which the sizes exceed the storage. -/
structure WithinLimits (r : Retention) (rows : List BackupRow) (p : BackupRow) :
    Prop where
  amount : 0 < r.amount → rows.idxOf p < r.amount.toNat
  days : 0 < r.days → ∀ first ∈ rows.head?,
    first.2.createdAt ≤ p.2.createdAt + r.days.toNat * 86400
  storage : 0 < r.maxStorageGB →
    ∀ beyond, firstOver r.maxStorageBytes 0 (rows.drop 1) = some beyond →
      beyond.2.createdAt < p.2.createdAt ∨
        (rows.filter fun q => q.2.createdAt ≤ beyond.2.createdAt).head? = some p

instance (r : Retention) (rows : List BackupRow) (p : BackupRow) :
    Decidable (WithinLimits r rows p) :=
  decidable_of_iff
    ((0 < r.amount → rows.idxOf p < r.amount.toNat) ∧
      (0 < r.days → ∀ first ∈ rows.head?,
        first.2.createdAt ≤ p.2.createdAt + r.days.toNat * 86400) ∧
      (0 < r.maxStorageGB → ∀ beyond ∈ firstOver r.maxStorageBytes 0 (rows.drop 1),
        beyond.2.createdAt < p.2.createdAt ∨
          (rows.filter fun q => q.2.createdAt ≤ beyond.2.createdAt).head? = some p))
    ⟨fun h => ⟨h.1, h.2.1, h.2.2⟩, fun h => ⟨h.amount, h.days, h.storage⟩⟩

theorem mem_drop_one {α : Type*} {l : List α} {a : α} (hl : l.Nodup) :
    a ∈ l.drop 1 ↔ a ∈ l ∧ l.head? ≠ some a := by
  cases l with
  | nil => simp
  | cons b l =>
      have hb := (List.nodup_cons.mp hl).1
      rw [List.drop_one, List.tail_cons, List.mem_cons, List.head?_cons]
      constructor
      · intro ha
        refine ⟨.inr ha, fun h => hb ?_⟩
        rwa [Option.some.inj h]
      · rintro ⟨rfl | ha, hne⟩
        · exact absurd rfl hne
        · exact ha

namespace Retention

variable {r : Retention} {rows : List BackupRow} {p : BackupRow}

theorem mem_byAmount (hrows : rows.Nodup) (hp : p ∈ rows) :
    p ∈ r.byAmount rows ↔ ¬ (0 < r.amount → rows.idxOf p < r.amount.toNat) := by
  rw [byAmount]
  split
  · next hpos =>
      rw [← List.mem_take_iff_idxOf_lt hp]
      constructor
      · intro hdrop htake
        exact List.disjoint_take_drop hrows (Nat.le_refl _) (htake hpos) hdrop
      · intro htake
        rw [← List.take_append_drop r.amount.toNat rows, List.mem_append] at hp
        exact hp.resolve_left fun h => htake fun _ => h
  · next hpos => exact ⟨nofun, fun h => absurd (fun hpos' => absurd hpos' hpos) h⟩

theorem mem_byDays (hp : p ∈ rows) :
    p ∈ r.byDays rows ↔ ¬ (0 < r.days → ∀ first ∈ rows.head?,
      first.2.createdAt ≤ p.2.createdAt + r.days.toNat * 86400) := by
  rw [byDays]
  split
  · next hpos =>
      cases hhead : rows.head? with
      | none => rw [List.head?_eq_none_iff.mp hhead] at hp; cases hp
      | some first =>
          rw [Option.elim_some, List.mem_filter]
          simp [hp, hpos]
  · next hpos => exact ⟨nofun, fun h => absurd (fun hpos' => absurd hpos' hpos) h⟩

theorem mem_byStorage (hrows : rows.Nodup) (hp : p ∈ rows) :
    p ∈ r.byStorage rows ↔ ¬ (0 < r.maxStorageGB →
      ∀ beyond, firstOver r.maxStorageBytes 0 (rows.drop 1) = some beyond →
        beyond.2.createdAt < p.2.createdAt ∨
          (rows.filter fun q => q.2.createdAt ≤ beyond.2.createdAt).head? = some p) := by
  rw [byStorage]
  split
  · next hpos =>
      cases hover : firstOver r.maxStorageBytes 0 (rows.drop 1) with
      | none => simp
      | some beyond =>
          rw [Option.elim_some, mem_drop_one (hrows.filter _), List.mem_filter]
          simp [hp, hpos]
  · next hpos => exact ⟨nofun, fun h => absurd (fun hpos' => absurd hpos' hpos) h⟩

/-- The limits select what is not within them. -/
theorem mem_toDelete (hrows : rows.Nodup) (hp : p ∈ rows) :
    p ∈ r.toDelete rows ↔ ¬ WithinLimits r rows p := by
  rw [toDelete, List.mem_eraseDups, List.mem_append, List.mem_append, mem_byAmount hrows hp,
    mem_byDays hp, mem_byStorage hrows hp]
  constructor
  · rintro ((h | h) | h) hwithin
    · exact h hwithin.amount
    · exact h hwithin.days
    · exact h hwithin.storage
  · intro h
    by_contra hnone
    rw [not_or, not_or, not_not, not_not, not_not] at hnone
    exact h ⟨hnone.1.1, hnone.1.2, hnone.2⟩

theorem toDelete_subset : ∀ q ∈ r.toDelete rows, q ∈ rows := by
  intro q hq
  rw [toDelete, List.mem_eraseDups, List.mem_append, List.mem_append] at hq
  rcases hq with (hq | hq) | hq
  · rw [byAmount] at hq
    split at hq
    · exact List.mem_of_mem_drop hq
    · cases hq
  · rw [byDays] at hq
    split at hq
    · cases hhead : rows.head? with
      | none => rw [hhead] at hq; cases hq
      | some first => rw [hhead] at hq; exact (List.mem_filter.mp hq).1
    · cases hq
  · rw [byStorage] at hq
    split at hq
    · cases hover : firstOver r.maxStorageBytes 0 (rows.drop 1) with
      | none => rw [hover] at hq; cases hq
      | some beyond =>
          rw [hover] at hq
          exact (List.mem_filter.mp (List.mem_of_mem_drop hq)).1
    · cases hq

end Retention

/-! ## What a dump does -/

/-- A backup can be restored: its row is kept and its file is there. -/
structure BackupStore.Kept (d : BackupStore) (r : BackupRecord) : Prop where
  row : ∃ e, d.executions.get? r.execution = some e ∧ e.status = .success ∧
    e.localStorageDeleted = false ∧ e.filename = some r.filename
  file : r.filename ∈ d.files

/-- Every database that was ever backed up can be restored from its newest backup. -/
def BackupStore.Restorable (d : BackupStore) : Prop :=
  ∀ database r, d.newest database = some r → d.Kept r

/-- Backups have file names, and those of ClickHouse carry the id of their execution. -/
structure BackupInv (cfg : BackupSchedule) (d : BackupStore) : Prop where
  named : ∀ r ∈ d.history, Value.truthy (.string r.filename) = true
  clickhouse : cfg.kind = .clickhouse → ∀ i e f, d.executions.get? i = some e →
    e.filename = some f → ∃ a, f = cfg.backupLocation a ∧ a.uuid = e.uuid

variable {cfg : BackupSchedule} {d d' : BackupStore}

/-- The slash in front of a backup's file makes its path a name. -/
theorem truthy_backupLocation (a : DumpAttempt) :
    Value.truthy (.string (cfg.backupLocation a)) = true := by
  have hslash : '/' ∈ (cfg.backupLocation a).toList := by
    rw [BackupSchedule.backupLocation, String.toList_append]
    refine List.mem_append_right _ ?_
    cases hkind : cfg.kind <;> cases hall : cfg.dumpAll <;>
      simp [BackupSchedule.backupFile, hkind, hall, String.toList_append]
  rw [Value.truthy, Bool.and_eq_true, bne_iff_ne, bne_iff_ne]
  constructor
  all_goals
    intro h
    rw [h] at hslash
    exact absurd hslash (by decide)

theorem clickhouse_uuid_eq {a b : DumpAttempt} (hkind : cfg.kind = .clickhouse)
    (h : cfg.backupLocation a = cfg.backupLocation b) : a.uuid = b.uuid := by
  have hdigits : ∀ n, ∀ c ∈ (toString n : String).toList, c.isDigit = true := fun n c hc => by
    rw [show (toString n : String).toList = Nat.toDigits 10 n from Nat.toList_repr] at hc
    exact Nat.isDigit_of_mem_toDigits (by decide) (by decide) hc
  have hlist := congrArg String.toList h
  simp only [BackupSchedule.backupLocation, BackupSchedule.backupFile, hkind, String.toList_append,
    List.append_assoc, List.append_cancel_left_eq] at hlist
  have htime := congrArg (List.takeWhile Char.isDigit) hlist
  rw [takeWhile_digits (hdigits _) (by simp), takeWhile_digits (hdigits _) (by simp)] at htime
  rw [htime, List.append_cancel_left_eq, List.append_cancel_left_eq,
    List.append_cancel_right_eq] at hlist
  exact String.toList_inj.mp hlist

theorem BackupInv.dump (h : BackupInv cfg d) (a : DumpAttempt) : BackupInv cfg (d.dump cfg a) where
  named r hr := by
    rw [BackupStore.dump] at hr
    dsimp only at hr
    split at hr
    · rcases List.mem_cons.mp hr with rfl | hr
      · exact truthy_backupLocation a
      · exact h.named r hr
    · exact h.named r hr
  clickhouse hkind i e f he hf := by
    rw [BackupStore.dump, Table.get?_insert] at he
    split at he
    · cases he
      rw [BackupSchedule.execution] at hf
      dsimp only at hf
      split at hf
      · cases hf; exact ⟨a, rfl, rfl⟩
      · cases hf
    · exact h.clickhouse hkind i e f he hf

theorem BackupStore.Kept.dump {r : BackupRecord} (hr : d.Kept r) (hinv : BackupInv cfg d)
    {a : DumpAttempt} (hdraws : d.draws a = true) : (d.dump cfg a).Kept r := by
  obtain ⟨e, he, hstatus, hdeleted, hf⟩ := hr.row
  refine ⟨⟨e, Table.get?_insert_of_some _ he, hstatus, hdeleted, hf⟩, ?_⟩
  rw [BackupStore.dump]
  dsimp only
  split
  · exact List.mem_cons_of_mem _ hr.file
  · split
    · next hkind =>
        -- the file taken away has the id of this dump, which no execution had
        refine List.mem_filter.mpr ⟨hr.file, ?_⟩
        obtain ⟨b, hb, huuid⟩ := hinv.clickhouse hkind _ e _ he hf
        rw [BackupStore.draws, Option.isNone_iff_eq_none] at hdraws
        have hother := Table.first?_none hdraws he
        rw [beq_eq_false_iff_ne] at hother
        rw [decide_eq_true_iff, hb]
        exact fun heq => hother (huuid ▸ clickhouse_uuid_eq hkind heq)
    · exact hr.file

theorem BackupStore.Restorable.dump (h : d.Restorable) (hinv : BackupInv cfg d)
    {a : DumpAttempt} (hdraws : d.draws a = true) : (d.dump cfg a).Restorable := by
  intro database r hr
  rw [BackupStore.newest, BackupStore.dump] at hr
  dsimp only at hr
  split at hr
  · next ha =>
      rw [List.find?_cons] at hr
      split at hr
      · cases hr
        refine ⟨⟨cfg.execution a, Table.get?_insert_self .., ?_, rfl, ?_⟩, ?_⟩
        · simp [BackupSchedule.execution, ha]
        · simp [BackupSchedule.execution, ha]
        · simp [BackupStore.dump, ha]
      · exact (h database r hr).dump hinv hdraws
  · exact (h database r hr).dump hinv hdraws

theorem dumps_keeps : ∀ {attempts : List DumpAttempt} {d : BackupStore}, BackupInv cfg d →
    d.Restorable → d.dumps cfg attempts = some d' → BackupInv cfg d' ∧ d'.Restorable
  | [], _, hinv, h, hd => by cases hd; exact ⟨hinv, h⟩
  | a :: rest, d, hinv, h, hd => by
      rw [BackupStore.dumps] at hd
      split at hd
      · next hdraws => exact dumps_keeps (hinv.dump a) (h.dump hinv hdraws) hd
      · cases hd

/-! ## What the clean-up does -/

namespace BackupStore

variable {rows : List BackupRow} {r : BackupRecord}

theorem lists_nodup {deleted : BackupExecution → Bool} (h : d.lists deleted rows = true) :
    rows.Nodup := by
  rw [lists, Bool.and_eq_true, List.isPerm_iff] at h
  exact h.1.nodup_iff.mpr (List.Nodup.of_map _ (Table.select_nodup ..))

theorem mem_lists {deleted : BackupExecution → Bool} (h : d.lists deleted rows = true)
    {p : BackupRow} : p ∈ rows ↔
      d.executions.get? p.1 = some p.2 ∧ p.2.status = .success ∧ deleted p.2 = false := by
  rw [lists, Bool.and_eq_true, List.isPerm_iff] at h
  rw [h.1.mem_iff, Table.mem_select]
  simp

theorem mem_filesToDelete {backups : List BackupRow} {f : String} :
    f ∈ filesToDelete backups ↔
      Value.truthy (.string f) = true ∧ ∃ p ∈ backups, p.2.filename = some f := by
  rw [filesToDelete, List.mem_filterMap]
  constructor
  · rintro ⟨p, hp, hf⟩
    rw [Option.filter_eq_some_iff] at hf
    exact ⟨hf.2, p, hp, hf.1⟩
  · rintro ⟨htruthy, p, hp, hf⟩
    exact ⟨p, hp, Option.filter_eq_some_iff.mpr ⟨hf, htruthy⟩⟩

/-- A backup survives the local clean-up when nothing with its file is selected. -/
theorem Kept.deleteOldBackupsLocally_iff (hr : d.Kept r)
    (hname : Value.truthy (.string r.filename) = true) {limits : Retention}
    (hrows : d.lists (·.localStorageDeleted) rows = true) :
    (d.deleteOldBackupsLocally limits rows).Kept r ↔
      ∀ p ∈ rows, p.2.filename = some r.filename → p ∉ limits.toDelete rows := by
  rw [BackupStore.deleteOldBackupsLocally]
  constructor
  · intro hkept p hp hf hdelete
    have hmem : r.filename ∈ filesToDelete (limits.toDelete rows) :=
      mem_filesToDelete.mpr ⟨hname, p, hdelete, hf⟩
    rw [if_neg (by simpa using List.ne_nil_of_mem hmem)] at hkept
    have := (List.mem_filter.mp hkept.file).2
    rw [Bool.not_eq_true', ← Bool.not_eq_true, List.contains_iff_mem] at this
    exact this hmem
  · intro hspared
    split
    · exact hr
    · obtain ⟨e, he, hstatus, hdeleted, hf⟩ := hr.row
      have hin : (r.execution, e) ∈ rows := (mem_lists hrows).mpr ⟨he, hstatus, hdeleted⟩
      have hkeep : (limits.toDelete rows).any (·.1 == r.execution) = false := by
        by_contra hany
        rw [Bool.not_eq_false, List.any_eq_true] at hany
        obtain ⟨q, hq, hid⟩ := hany
        have hget := ((mem_lists hrows).mp (Retention.toDelete_subset q hq)).1
        rw [beq_iff_eq.mp hid, he] at hget
        have heq : q = (r.execution, e) :=
          Prod.ext (beq_iff_eq.mp hid) (Option.some.inj hget).symm
        exact hspared _ hin hf (heq ▸ hq)
      refine ⟨⟨e, ?_, hstatus, hdeleted, hf⟩, List.mem_filter.mpr ⟨hr.file, ?_⟩⟩
      · simp [Table.get?_updateWhere, he, hkeep]
      · rw [Bool.not_eq_true', ← Bool.not_eq_true, List.contains_iff_mem, mem_filesToDelete]
        rintro ⟨-, p, hp, hpf⟩
        exact hspared p (Retention.toDelete_subset p hp) hpf hp

theorem kept_deleteOldBackupsFromS3_iff (limits : Retention) (c : CleanUp) :
    (d.deleteOldBackupsFromS3 limits c).Kept r ↔ d.Kept r := by
  rw [BackupStore.deleteOldBackupsFromS3]
  split
  · rfl
  · constructor
    · rintro ⟨⟨e', he', hstatus, hdeleted, hf⟩, hfile⟩
      rw [Table.get?_updateWhere] at he'
      obtain ⟨e, he, rfl⟩ := Option.map_eq_some_iff.mp he'
      refine ⟨⟨e, he, ?_, ?_, ?_⟩, hfile⟩
      · split at hstatus <;> exact hstatus
      · split at hdeleted <;> exact hdeleted
      · split at hf <;> exact hf
    · rintro ⟨⟨e, he, hstatus, hdeleted, hf⟩, hfile⟩
      refine ⟨⟨_, by rw [Table.get?_updateWhere, he, Option.map_some], ?_, ?_, ?_⟩, hfile⟩
      all_goals split <;> assumption

/-- Only executions without a local copy are deleted. -/
theorem kept_deleteGone_iff : d.deleteGone.Kept r ↔ d.Kept r := by
  constructor
  · rintro ⟨⟨e, he, hrest⟩, hfile⟩
    exact ⟨⟨e, (Table.get?_deleteWhere.mp (Table.get?_deleteWhere.mp he).1).1, hrest⟩, hfile⟩
  · rintro ⟨⟨e, he, hstatus, hdeleted, hf⟩, hfile⟩
    refine ⟨⟨e, ?_, hstatus, hdeleted, hf⟩, hfile⟩
    exact Table.get?_deleteWhere.mpr
      ⟨Table.get?_deleteWhere.mpr ⟨he, by simp [hdeleted]⟩, by simp [hdeleted]⟩

end BackupStore

/-- A table whose rows keep their ids and files keeps the invariant. -/
theorem BackupInv.of_rows (h : BackupInv cfg d) (hhistory : d'.history = d.history)
    (hrows : ∀ i e', d'.executions.get? i = some e' →
      ∃ e, d.executions.get? i = some e ∧ e.uuid = e'.uuid ∧ e.filename = e'.filename) :
    BackupInv cfg d' where
  named r hr := h.named r (hhistory ▸ hr)
  clickhouse hkind i e' f he' hf := by
    obtain ⟨e, he, huuid, hfile⟩ := hrows i e' he'
    rw [← huuid]
    exact h.clickhouse hkind i e f he (hfile.trans hf)

theorem rows_of_updateWhere {t : Table BackupExecution} {p : Nat → BackupExecution → Bool}
    {f : BackupExecution → BackupExecution} {i : Nat} {e' : BackupExecution}
    (h : (t.updateWhere p f).get? i = some e') (huuid : ∀ e, (f e).uuid = e.uuid)
    (hfile : ∀ e, (f e).filename = e.filename) :
    ∃ e, t.get? i = some e ∧ e.uuid = e'.uuid ∧ e.filename = e'.filename := by
  rw [Table.get?_updateWhere] at h
  obtain ⟨e, he, rfl⟩ := Option.map_eq_some_iff.mp h
  refine ⟨e, he, ?_⟩
  split
  · exact ⟨(huuid e).symm, (hfile e).symm⟩
  · exact ⟨rfl, rfl⟩

theorem BackupInv.deleteOldBackupsLocally (h : BackupInv cfg d) (limits : Retention)
    (rows : List BackupRow) : BackupInv cfg (d.deleteOldBackupsLocally limits rows) := by
  rw [BackupStore.deleteOldBackupsLocally]
  split
  · exact h
  · exact h.of_rows rfl fun _ _ he => rows_of_updateWhere he (fun _ => rfl) fun _ => rfl

theorem BackupInv.deleteOldBackupsFromS3 (h : BackupInv cfg d) (limits : Retention)
    (c : CleanUp) : BackupInv cfg (d.deleteOldBackupsFromS3 limits c) := by
  rw [BackupStore.deleteOldBackupsFromS3]
  split
  · exact h
  · exact h.of_rows rfl fun _ _ he => rows_of_updateWhere he (fun _ => rfl) fun _ => rfl

theorem BackupInv.deleteGone (h : BackupInv cfg d) : BackupInv cfg d.deleteGone :=
  h.of_rows rfl fun _ e he =>
    ⟨e, (Table.get?_deleteWhere.mp (Table.get?_deleteWhere.mp he).1).1, rfl, rfl⟩

/-- The clean-up, step by step. -/
theorem removeOldBackups_eq {c : CleanUp} (hlocal : cfg.disableLocalBackup = false)
    (h : d.removeOldBackups cfg c = some d') :
    d.lists (·.localStorageDeleted) c.locally = true ∧
      d' = (if c.hasS3 then
          (d.deleteOldBackupsLocally cfg.locally c.locally).deleteOldBackupsFromS3 cfg.s3 c
        else d.deleteOldBackupsLocally cfg.locally c.locally).deleteGone := by
  simp only [BackupStore.removeOldBackups, hlocal, Bool.false_eq_true, if_false] at h
  split at h
  · next hlists =>
      refine ⟨hlists, ?_⟩
      cases hs3 : c.hasS3 with
      | false =>
          rw [hs3] at h
          exact (Option.some.inj h).symm
      | true =>
          simp only [hs3, if_true, Option.bind_eq_bind, Option.pure_def, Option.bind_some] at h
          split at h
          · exact (Option.some.inj h).symm
          · cases h
  · cases h

theorem history_deleteOldBackupsLocally (limits : Retention) (rows : List BackupRow) :
    (d.deleteOldBackupsLocally limits rows).history = d.history := by
  rw [BackupStore.deleteOldBackupsLocally]
  split <;> rfl

theorem history_deleteOldBackupsFromS3 (limits : Retention) (c : CleanUp) :
    (d.deleteOldBackupsFromS3 limits c).history = d.history := by
  rw [BackupStore.deleteOldBackupsFromS3]
  split <;> rfl

theorem newest_mem {database : String} {r : BackupRecord} (h : d.newest database = some r) :
    r ∈ d.history :=
  List.mem_of_find?_eq_some h

/-- The limits spare a list of successes as far as the newest backup of every
database is concerned: its own row, and any other that names the same file. -/
def BackupStore.Spared (d : BackupStore) (limits : Retention) (rows : List BackupRow) :
    Prop :=
  ∀ database r, d.newest database = some r →
    ∀ p ∈ rows, p.2.filename = some r.filename → WithinLimits limits rows p

theorem removeOldBackups_keeps {c : CleanUp} (hlocal : cfg.disableLocalBackup = false)
    (hinv : BackupInv cfg d) (h : d.Restorable) (hd : d.removeOldBackups cfg c = some d') :
    BackupInv cfg d' ∧ (d'.Restorable ↔ d.Spared cfg.locally c.locally) := by
  obtain ⟨hlists, rfl⟩ := removeOldBackups_eq hlocal hd
  have hnodup := BackupStore.lists_nodup hlists
  set d₁ := d.deleteOldBackupsLocally cfg.locally c.locally with hd₁
  set d₂ := if c.hasS3 then d₁.deleteOldBackupsFromS3 cfg.s3 c else d₁ with hd₂
  have hinv₂ : BackupInv cfg d₂ := by
    rw [hd₂]
    split
    · exact (hinv.deleteOldBackupsLocally _ _).deleteOldBackupsFromS3 _ _
    · exact hinv.deleteOldBackupsLocally _ _
  have hhistory : d₂.deleteGone.history = d.history := by
    show d₂.history = d.history
    rw [hd₂]
    split
    · rw [history_deleteOldBackupsFromS3, hd₁, history_deleteOldBackupsLocally]
    · rw [hd₁, history_deleteOldBackupsLocally]
  have hkept : ∀ r, d₂.deleteGone.Kept r ↔ d₁.Kept r := fun r => by
    rw [BackupStore.kept_deleteGone_iff, hd₂]
    split
    · rw [BackupStore.kept_deleteOldBackupsFromS3_iff]
    · rfl
  have hnewest : ∀ name, d₂.deleteGone.newest name = d.newest name := fun name => by
    rw [BackupStore.newest, BackupStore.newest, hhistory]
  refine ⟨hinv₂.deleteGone, forall_congr' fun database => forall_congr' fun r => ?_⟩
  rw [hnewest, hkept]
  refine imp_congr_right fun hr => ?_
  rw [hd₁, (h database r hr).deleteOldBackupsLocally_iff (hinv.named r (newest_mem hr)) hlists]
  refine forall_congr' fun p => forall_congr' fun hp => imp_congr_right fun _ => ?_
  rw [Retention.mem_toDelete hnodup hp, not_not]

/-! ## Histories -/

/-- In a run that cleans up, the limits spare the newest backup of every database. -/
def Spares (cfg : BackupSchedule) (d : BackupStore) (run : BackupRun) : Prop :=
  run.cleansUp = true → ∀ d', d.dumps cfg run.attempts = some d' →
    d'.Spared cfg.locally run.cleanUp.locally

theorem handle_keeps (hlocal : cfg.disableLocalBackup = false) {run : BackupRun}
    (hinv : BackupInv cfg d) (h : d.Restorable) (hd : cfg.handle d run = some d') :
    BackupInv cfg d' ∧ (d'.Restorable ↔ Spares cfg d run) := by
  rw [BackupSchedule.handle, Option.bind_eq_bind, Option.bind_eq_some_iff] at hd
  obtain ⟨d₁, hd₁, hd⟩ := hd
  obtain ⟨hinv₁, h₁⟩ := dumps_keeps hinv h hd₁
  have hspares : Spares cfg d run ↔
      (run.cleansUp = true → d₁.Spared cfg.locally run.cleanUp.locally) := by
    refine imp_congr_right fun _ => ⟨fun hall => hall d₁ hd₁, fun hspared d₂ hd₂ => ?_⟩
    rw [hd₁] at hd₂
    cases hd₂
    exact hspared
  rw [hspares]
  split at hd
  · next hcleans =>
      obtain ⟨hinv', hiff⟩ := removeOldBackups_keeps hlocal hinv₁ h₁ hd
      exact ⟨hinv', hiff.trans ⟨fun hspared _ => hspared, fun hspared => hspared hcleans⟩⟩
  · next hcleans =>
      cases hd
      exact ⟨hinv₁, iff_of_true h₁ fun htrue => absurd htrue hcleans⟩

/-- A schedule that has not run yet. -/
def emptyBackups : BackupStore := ⟨.empty, [], []⟩

theorem emptyBackups_inv : BackupInv cfg emptyBackups where
  named := nofun
  clickhouse _ _ _ _ h := by cases h

theorem emptyBackups_restorable : emptyBackups.Restorable := nofun

/-- After every run of a history each database can be restored from its newest
backup, exactly when no clean-up of the history reaches such a backup. -/
theorem newest_backup_kept_iff (hlocal : cfg.disableLocalBackup = false)
    {trail : List (BackupStore × BackupRun)} {u : BackupStore}
    (hrun : Runs cfg.handle emptyBackups trail u) :
    Throughout BackupStore.Restorable trail u ↔ ∀ p ∈ trail, Spares cfg p.1 p.2 :=
  hrun.throughout_iff (fun _ _ _ hinv h hd => (handle_keeps hlocal hinv h hd).1)
    (fun _ _ _ hinv h hd => (handle_keeps hlocal hinv h hd).2) emptyBackups_inv
    emptyBackups_restorable

/-! ## Two histories -/

instance (d : BackupStore) (limits : Retention) (rows : List BackupRow) :
    Decidable (d.Spared limits rows) :=
  decidable_of_iff
    (∀ r ∈ d.history, d.newest r.database = some r →
      ∀ p ∈ rows, p.2.filename = some r.filename → WithinLimits limits rows p) <| by
    refine ⟨fun h database r hr => ?_, fun h r _ hr => h r.database r hr⟩
    have hname : r.database = database := by simpa using List.find?_some hr
    exact h r (newest_mem hr) (hname ▸ hr)

instance (cfg : BackupSchedule) : DecidableRel (Spares cfg) := fun d run =>
  inferInstanceAs (Decidable (run.cleansUp = true →
    ∀ d' ∈ d.dumps cfg run.attempts, d'.Spared cfg.locally run.cleanUp.locally))

/-- Two databases, with room for `amount` backups of them. -/
def twoDatabases (amount : Int) : BackupSchedule where
  kind := .postgresql
  dumpAll := false
  backupDir := "/data/coolify/backups/databases/root-1/shop-pg"
  disableLocalBackup := false
  locally := ⟨amount, 0, 0⟩
  s3 := ⟨0, 0, 0⟩

def shopDump : DumpAttempt := ⟨"shop", "u1", 1790800000, 1790800000, some 4096, none⟩

def billingDump : DumpAttempt := ⟨"billing", "u2", 1790800005, 1790800005, some 2048, none⟩

/-- Both dumps succeed, and old backups are removed. -/
def bothDumped (cfg : BackupSchedule) : BackupRun where
  attempts := [shopDump, billingDump]
  completed := true
  cleanUp := ⟨[(2, cfg.execution billingDump), (1, cfg.execution shopDump)], [], false, true⟩

theorem two_backups_of_two_kept :
    ∃ trail u, Runs (twoDatabases 2).handle emptyBackups trail u ∧ u.files.length = 2 ∧
      Throughout BackupStore.Restorable trail u := by
  obtain ⟨trail, u, hrun, hok, hu⟩ := exists_runs_of_execIf (twoDatabases 2).handle
    (Spares (twoDatabases 2)) [bothDumped (twoDatabases 2)] emptyBackups
    (fun d => d.files.length == 2) (by decide +kernel)
  exact ⟨trail, u, hrun, beq_iff_eq.mp hu, (newest_backup_kept_iff rfl hrun).mpr hok⟩

theorem one_backup_of_two_lost :
    ¬ ∀ (cfg : BackupSchedule) (trail : List (BackupStore × BackupRun)) (u : BackupStore),
      cfg.disableLocalBackup = false → Runs cfg.handle emptyBackups trail u →
      Throughout BackupStore.Restorable trail u := by
  intro h
  obtain ⟨trail, u, hrun, -, hu⟩ := exists_runs_of_execIf (twoDatabases 1).handle Any
    [bothDumped (twoDatabases 1)] emptyBackups
    (fun d => (d.newest "shop").any fun r => !d.files.contains r.filename) (by decide +kernel)
  obtain ⟨r, hr, hlost⟩ := (Option.any_eq_true ..).mp hu
  have hkept := (h (twoDatabases 1) trail u rfl hrun).2 "shop" r hr
  rw [Bool.not_eq_true', ← Bool.not_eq_true, List.contains_iff_mem] at hlost
  exact hlost hkept.file

end OnePloy
