import OnePloy.Lib.Reach
import Mathlib.Logic.Function.Basic

/-!
# Backups of volumes that stop containers

A `VolumeBackupJob` may stop the containers that use a volume while it archives
it. Before a container is stopped it is listed in a state file on the server, and
the execution is marked with `stop_recovery_pending` before the script is run;
whoever starts the containers again, the script itself or a recovery, takes the
file away, and then the mark.

Scripts run whole, fail half-way or are killed; the worker may die at any point,
and `failed()` is called later, on a job that knows of no execution of its own and
takes the latest one that is running. A script whose connection is lost is run
again from its first line, which empties the state file.
-/

namespace OnePloy

open Conc

inductive ExecutionStatus
  | running
  | success
  | failed
  deriving DecidableEq, Repr

/-- A row of `scheduled_volume_backup_executions`. -/
structure VolumeExecution where
  id : Nat
  /-- The schedule it belongs to. -/
  backup : Nat
  status : ExecutionStatus
  /-- Whether there is a filename. -/
  filename : Bool
  stopRecoveryPending : Bool
  s3CleanupPending : Bool
  localStorageDeleted : Bool
  s3StorageDeleted : Bool
  s3Uploaded : Option Bool
  deriving DecidableEq, Repr

inductive TaskKind
  /-- `VolumeBackupJob::handle`. -/
  | backup
  /-- `VolumeBackupRecoveryJob::handle`. -/
  | recovery
  /-- `VolumeBackupJob::failed`. -/
  | failed
  /-- `deleteBackup`, which has looked at the row. -/
  | deletion
  deriving DecidableEq, Repr

inductive VolumePhase
  | created
  /-- `stop_recovery_pending` is written, and the script stops these containers. -/
  | marked (containers : List Nat)
  /-- The script has ended well. -/
  | archived
  | cleared
  | uploading
  | stored
  /-- Containers and uploads are to be recovered. -/
  | caught
  /-- The recovery script has ended well. -/
  | restarted
  | settled
  | checked
  deriving DecidableEq, Repr

structure VolumeTask where
  kind : TaskKind
  backup : Nat
  execution : Nat
  phase : VolumePhase
  /-- The flags as the model in memory has them. -/
  stopRecoveryPending : Bool
  s3CleanupPending : Bool
  deriving DecidableEq, Repr

structure VolumeState where
  backups : List Nat
  /-- In the order of their ids. -/
  executions : List VolumeExecution
  nextId : Nat
  tasks : Nat → Option VolumeTask
  /-- Who holds the lock `volume-backup-<id>`. -/
  lock : Nat → Option Nat
  /-- The schedules of jobs whose `failed()` is yet to come. -/
  failing : List Nat
  /-- The state file of an execution. -/
  stateFile : Nat → Option (List Nat)
  /-- Containers that a backup has stopped and nobody has started again. -/
  stopped : Nat → Bool

namespace VolumeState

def update (s : VolumeState) (id : Nat) (f : VolumeExecution → VolumeExecution) : VolumeState :=
  { s with executions := s.executions.map fun row => if row.id = id then f row else row }

def deleteWhere (s : VolumeState) (p : VolumeExecution → Bool) : VolumeState :=
  { s with executions := s.executions.filter fun row => !p row }

def setTask (s : VolumeState) (t : Nat) (task : Option VolumeTask) : VolumeState :=
  { s with tasks := Function.update s.tasks t task }

def setLock (s : VolumeState) (backup : Nat) (holder : Option Nat) : VolumeState :=
  { s with lock := Function.update s.lock backup holder }

/-- The containers a state file lists. -/
def listed (s : VolumeState) (id : Nat) : List Nat := (s.stateFile id).getD []

end VolumeState

/-! ## Scripts -/

/-- How far `archiveWithStoppedContainers` gets: of the containers the first are
listed, some of these stopped, and some started again by `cleanup`. -/
structure ArchiveRun where
  listed : Nat
  halted : List Nat
  started : List Nat
  /-- Exit status zero: `cleanup` has started every container. -/
  finished : Bool
  deriving DecidableEq, Repr

def ArchiveRun.Possible (containers : List Nat) (run : ArchiveRun) : Prop :=
  (∀ c ∈ run.halted, c ∈ containers.take run.listed) ∧
    (∀ c ∈ run.started, c ∈ containers.take run.listed) ∧
    (run.finished = true → ∀ c ∈ containers, c ∈ run.started)

instance (containers : List Nat) (run : ArchiveRun) : Decidable (run.Possible containers) :=
  inferInstanceAs (Decidable (_ ∧ _ ∧ _))

def runArchive (s : VolumeState) (id : Nat) (containers : List Nat) (run : ArchiveRun) :
    VolumeState :=
  { s with
    stateFile := Function.update s.stateFile id
      (if run.finished then none else some (containers.take run.listed))
    stopped := fun c =>
      if c ∈ run.started then false else if c ∈ run.halted then true else s.stopped c }

/-- How far the script of `recoverContainers` gets. -/
structure RecoveryRun where
  started : List Nat
  /-- What it has written over the state file, if it was not killed before. -/
  remaining : Option (List Nat)
  deriving DecidableEq, Repr

def RecoveryRun.Possible (s : VolumeState) (id : Nat) (run : RecoveryRun) : Prop :=
  (∀ c ∈ run.started, c ∈ s.listed id) ∧
    ∀ remaining, run.remaining = some remaining →
      (∀ c ∈ remaining, c ∈ s.listed id) ∧
        ∀ c ∈ s.listed id, s.stopped c = true → c ∈ run.started ∨ c ∈ remaining

instance (s : VolumeState) (id : Nat) (run : RecoveryRun) : Decidable (run.Possible s id) :=
  match h : run.remaining with
  | none => decidable_of_iff (∀ c ∈ run.started, c ∈ s.listed id)
      ⟨fun hs => ⟨hs, fun _ hr => nomatch h.symm.trans hr⟩, fun hs => hs.1⟩
  | some remaining => decidable_of_iff ((∀ c ∈ run.started, c ∈ s.listed id) ∧
      (∀ c ∈ remaining, c ∈ s.listed id) ∧
        ∀ c ∈ s.listed id, s.stopped c = true → c ∈ run.started ∨ c ∈ remaining)
      ⟨fun hs => ⟨hs.1, fun _ hr => Option.some.inj (h.symm.trans hr) ▸ hs.2⟩,
        fun hs => ⟨hs.1, hs.2 remaining h⟩⟩

/-- What becomes of the state file: it goes once nothing remains. -/
def RecoveryRun.file (run : RecoveryRun) (before : Option (List Nat)) : Option (List Nat) :=
  match run.remaining with
  | none => before
  | some [] => none
  | some remaining => some remaining

def runRecovery (s : VolumeState) (id : Nat) (run : RecoveryRun) : VolumeState :=
  { s with
    stateFile := Function.update s.stateFile id (run.file (s.stateFile id))
    stopped := fun c => if c ∈ run.started then false else s.stopped c }

/-! ## What a task does -/

/-- What has become of the upload to S3. -/
inductive Upload
  | none
  | stored (localDeleted : Bool)
  | failed (cleaned : Bool)
  deriving DecidableEq, Repr

def Upload.uploaded : Upload → Option Bool
  | .none => Option.none
  | .stored _ => some true
  | .failed _ => some false

def Upload.write (upload : Upload) (row : VolumeExecution) : VolumeExecution :=
  { row with
    status := .success
    s3Uploaded := upload.uploaded
    s3CleanupPending := upload == .failed false
    s3StorageDeleted := row.s3StorageDeleted || upload == .failed true
    localStorageDeleted := upload == .stored true }

inductive TaskEvent
  /-- `containersUsingVolume` has found some. -/
  | mark (containers : List Nat)
  /-- No container is stopped; the archive is made. -/
  | archivePlain
  | archive (run : ArchiveRun)
  | clear
  | upload
  | store (upload : Upload)
  /-- `removeExpiredBackups`: the executions whose archives it deletes, and whether
  it comes to its end. -/
  | retain (locally s3 : List Nat) (complete : Bool)
  | throw
  | restart (run : RecoveryRun)
  | cleanS3
  | settle
  | finish (archiveDeleted : Bool)
  | remove
  | die
  deriving DecidableEq, Repr

/-- What `removeExpiredBackups` notes about the archives it has deleted. -/
def noteExpired (backup : Nat) (locally s3 : List Nat) (row : VolumeExecution) :
    VolumeExecution :=
  { row with
    localStorageDeleted := row.localStorageDeleted ||
      (row.backup == backup && row.status == .success && locally.contains row.id)
    s3StorageDeleted := row.s3StorageDeleted ||
      (row.backup == backup && row.status == .success && row.s3Uploaded == some true &&
        s3.contains row.id) }

/-- The rows it deletes at last. -/
def isExpired (backup : Nat) (row : VolumeExecution) : Bool :=
  row.backup == backup && row.localStorageDeleted &&
    (row.s3StorageDeleted || row.s3Uploaded == none)

def VolumeState.noteExpired (s : VolumeState) (backup : Nat) (locally s3 : List Nat) :
    VolumeState :=
  { s with executions := s.executions.map (OnePloy.noteExpired backup locally s3) }

/-- The lock of a job that ends is released. -/
def endTask (s : VolumeState) (t : Nat) (task : VolumeTask) : VolumeState :=
  if task.kind = .backup ∨ task.kind = .recovery then
    (s.setTask t none).setLock task.backup none
  else s.setTask t none

/-- The last update of `handle` after an exception, and of `failed`. -/
def writeFailed (kind : TaskKind) (archiveDeleted : Bool) (row : VolumeExecution) :
    VolumeExecution :=
  match kind with
  | .backup =>
      { row with
        status := .failed
        filename := !(archiveDeleted && !row.s3CleanupPending)
        localStorageDeleted := archiveDeleted }
  | .failed =>
      if row.filename && archiveDeleted then
        { row with
          status := .failed, filename := row.s3CleanupPending, localStorageDeleted := true }
      else { row with status := .failed }
  | _ => row

/-- A step of task `t`. -/
def taskStep (s : VolumeState) (t : Nat) (task : VolumeTask) (event : TaskEvent) :
    Option VolumeState :=
  let goOn (s : VolumeState) (phase : VolumePhase) : VolumeState :=
    s.setTask t (some { task with phase := phase })
  match event, task.phase with
  | .mark containers, .created =>
      if containers = [] then none
      else some ((s.update task.execution fun row =>
        { row with stopRecoveryPending := true }).setTask t
          (some { task with phase := .marked containers, stopRecoveryPending := true }))
  | .archivePlain, .created => some (goOn s .cleared)
  | .archive run, .marked containers =>
      if run.Possible containers then
        some (goOn (runArchive s task.execution containers run)
          (if run.finished then .archived else .marked containers))
      else none
  | .clear, .archived =>
      some ((s.update task.execution fun row => { row with stopRecoveryPending := false }).setTask t
        (some { task with phase := .cleared, stopRecoveryPending := false }))
  | .upload, .cleared =>
      some ((s.update task.execution fun row => { row with s3CleanupPending := true }).setTask t
        (some { task with phase := .uploading, s3CleanupPending := true }))
  | .store .none, .cleared => some (goOn (s.update task.execution (Upload.write .none)) .stored)
  | .store (.stored deleted), .uploading =>
      some (goOn (s.update task.execution (Upload.write (.stored deleted))) .stored)
  | .store (.failed cleaned), .uploading =>
      some (goOn (s.update task.execution (Upload.write (.failed cleaned))) .stored)
  | .retain locally s3 complete, .stored =>
      let noted := s.noteExpired task.backup locally s3
      some (endTask (if complete then noted.deleteWhere (isExpired task.backup) else noted) t task)
  | .throw, .created | .throw, .marked _ | .throw, .archived | .throw, .cleared
  | .throw, .uploading => some (goOn s .caught)
  | .restart run, .caught =>
      if task.stopRecoveryPending = true ∧ run.Possible s task.execution then
        some (goOn (runRecovery s task.execution run)
          (if run.remaining = some [] then .restarted else .caught))
      else none
  | .clear, .restarted =>
      some ((s.update task.execution fun row => { row with stopRecoveryPending := false }).setTask t
        (some { task with phase := .caught, stopRecoveryPending := false }))
  | .cleanS3, .caught =>
      if task.stopRecoveryPending = false ∧ task.s3CleanupPending = true then
        some ((s.update task.execution fun row =>
          { row with s3CleanupPending := false, s3StorageDeleted := true }).setTask t
            (some { task with s3CleanupPending := false }))
      else none
  | .settle, .caught => some (goOn s .settled)
  | .settle, .restarted => some (goOn s .settled)
  | .finish archiveDeleted, .settled =>
      let ended := endTask (s.update task.execution (writeFailed task.kind archiveDeleted)) t task
      some (if task.kind = .backup then { ended with failing := task.backup :: s.failing }
        else ended)
  | .remove, .checked =>
      some (endTask (s.deleteWhere fun row => row.id == task.execution) t task)
  | .die, _ =>
      some { s.setTask t none with
        failing := if task.kind = .backup then task.backup :: s.failing else s.failing }
  | _, _ => none

/-! ## The system -/

inductive VolumeAction
  /-- A `VolumeBackupJob`, scheduled or by hand, takes the lock and creates its row. -/
  | start (t backup : Nat)
  /-- A `VolumeBackupRecoveryJob` takes the lock. -/
  | recover (t id : Nat)
  /-- `failed()` of a job of this schedule. -/
  | failed (t backup : Nat)
  | task (t : Nat) (event : TaskEvent)
  /-- The lock of a worker that has died expires. -/
  | expire (backup : Nat)
  | cleanupFailed (backup : Nat)
  | cleanupDeleted (backup : Nat)
  | deleteBackup (t id : Nat)
  | deleteSchedule (backup : Nat)
  /-- A container comes up by other means. -/
  | up (container : Nat)
  deriving DecidableEq, Repr

def newExecution (id backup : Nat) : VolumeExecution where
  id := id
  backup := backup
  status := .running
  filename := true
  stopRecoveryPending := false
  s3CleanupPending := false
  localStorageDeleted := false
  s3StorageDeleted := false
  s3Uploaded := none

/-- `where('status', 'running')->latest('id')->first()`. -/
def latestRunning (s : VolumeState) (backup : Nat) : Option VolumeExecution :=
  (s.executions.filter fun row => row.backup == backup && row.status == .running).getLast?

def failedRemovable (backup : Nat) (row : VolumeExecution) : Bool :=
  row.backup == backup && row.status == .failed && !row.stopRecoveryPending &&
    !row.s3CleanupPending && (!row.filename || row.localStorageDeleted)

def deletedRemovable (backup : Nat) (row : VolumeExecution) : Bool :=
  row.backup == backup && row.localStorageDeleted &&
    (row.s3StorageDeleted || row.s3Uploaded == none || row.s3Uploaded == some false)

/-- A row that is still needed. -/
def isBusy (row : VolumeExecution) : Bool :=
  row.status == .running || row.stopRecoveryPending || row.s3CleanupPending

def taskOf (kind : TaskKind) (phase : VolumePhase) (row : VolumeExecution) : VolumeTask where
  kind := kind
  backup := row.backup
  execution := row.id
  phase := phase
  stopRecoveryPending := row.stopRecoveryPending
  s3CleanupPending := row.s3CleanupPending

def volumeStep (s : VolumeState) : VolumeAction → Option VolumeState
  | .start t backup =>
      if backup ∈ s.backups ∧ s.tasks t = none ∧ s.lock backup = none then
        some { (s.setTask t (some (taskOf .backup .created (newExecution s.nextId backup)))).setLock
            backup (some t) with
          executions := s.executions ++ [newExecution s.nextId backup]
          nextId := s.nextId + 1 }
      else none
  | .recover t id =>
      match s.executions.find? (·.id == id) with
      | some row =>
          if s.tasks t = none ∧ s.lock row.backup = none then
            some ((s.setTask t (some (taskOf .recovery .caught row))).setLock row.backup (some t))
          else none
      | none => none
  | .failed t backup =>
      if backup ∈ s.failing ∧ s.tasks t = none then
        let s := { s with failing := s.failing.erase backup }
        match latestRunning s backup with
        | some row => some (s.setTask t (some (taskOf .failed .caught row)))
        | none => some s
      else none
  | .task t event =>
      match s.tasks t with
      | some task => taskStep s t task event
      | none => none
  | .expire backup =>
      match s.lock backup with
      | some t => if s.tasks t = none then some (s.setLock backup none) else none
      | none => none
  | .cleanupFailed backup => some (s.deleteWhere (failedRemovable backup))
  | .cleanupDeleted backup => some (s.deleteWhere (deletedRemovable backup))
  | .deleteBackup t id =>
      match s.executions.find? (·.id == id) with
      | some row =>
          if s.tasks t = none ∧ isBusy row = false then
            some (s.setTask t (some (taskOf .deletion .checked row)))
          else none
      | none => none
  -- the lock is held from the first look to the end, so that this is one step
  | .deleteSchedule backup =>
      if s.lock backup = none ∧ ∀ row ∈ s.executions, row.backup = backup → isBusy row = false then
        some { s.deleteWhere (·.backup == backup) with backups := s.backups.erase backup }
      else none
  | .up container => some { s with stopped := Function.update s.stopped container false }

end OnePloy
