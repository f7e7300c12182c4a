import OnePloy.Lib.KeyedFold
import OnePloy.ScheduledCron

/-!
# ScheduledJobManager

One execution of the job that runs every minute, as far as database backups and
tasks are concerned: the rows that are enabled are read in chunks, each row is
pre-checked, and what may be due is processed, a backup and a task in turn. All
of it goes by the time the execution started.
-/

namespace OnePloy

open Conc

/-! ## Rows -/

structure ScheduleServer where
  isFunctional : Bool
  /-- `settings.server_timezone`. -/
  serverTimezone : Option String
  /-- The subscription's `stripe_invoice_paid` is false, and it is not team 0. -/
  isUnpaid : Bool

/-- Of a service or an application. -/
structure TaskResource where
  server : Option ScheduleServer
  /-- Its status contains `running`. -/
  isRunning : Bool

structure ScheduledDatabaseBackup where
  enabled : Bool
  frequency : String
  hasDatabase : Bool
  /-- Of the database's destination. -/
  databaseServer : Option ScheduleServer

structure ScheduledTask where
  enabled : Bool
  frequency : String
  application : Option TaskResource
  service : Option TaskResource

structure ScheduleConfig where
  /-- `app.timezone`. -/
  timezone : String
  /-- `timezone_identifiers_list`. -/
  isTimezone : String → Bool
  isCloud : Bool

def ScheduledDatabaseBackup.server (b : ScheduledDatabaseBackup) : Option ScheduleServer :=
  if b.hasDatabase then b.databaseServer else none

def ScheduledTask.server (task : ScheduledTask) : Option ScheduleServer :=
  match task.application with
  | some application => application.server
  | none => task.service.bind (·.server)

/-- `VALID_CRON_STRINGS[$frequency] ?? $frequency`. -/
def normalizeFrequency (frequency : String) : String :=
  match frequency with
  | "every_minute" => "* * * * *"
  | "hourly" => "0 * * * *"
  | "daily" => "0 0 * * *"
  | "weekly" => "0 0 * * 0"
  | "monthly" => "0 0 1 * *"
  | "yearly" => "0 0 1 1 *"
  | "@hourly" => "0 * * * *"
  | "@daily" => "0 0 * * *"
  | "@weekly" => "0 0 * * 0"
  | "@monthly" => "0 0 1 * *"
  | "@yearly" => "0 0 1 1 *"
  | _ => frequency

def ScheduleServer.timezone (cfg : ScheduleConfig) (server : ScheduleServer) : String :=
  let timezone := server.serverTimezone.getD cfg.timezone
  if cfg.isTimezone timezone then timezone else cfg.timezone

/-- `evaluated` remembers the rows that were evaluated, in that order. -/
structure ScheduleStore where
  backups : Table ScheduledDatabaseBackup
  tasks : Table ScheduledTask
  cache : ScheduleCache
  evaluated : List ScheduleKey
  dispatched : List ScheduleKey

/-- What all rows are evaluated against. -/
structure Evaluation where
  cron : CronLibrary
  cfg : ScheduleConfig
  executionTime : Int

namespace Evaluation

variable (ev : Evaluation) (s : ScheduleStore)

def expression (frequency : String) (server : ScheduleServer) : CronExpression :=
  ev.cron (normalizeFrequency frequency) (server.timezone ev.cfg)

def shouldDispatch (frequency : String) (server : ScheduleServer) (dedupKey : ScheduleKey) :
    Bool × ScheduleCache :=
  s.cache.shouldRunCronNow (ev.expression frequency server) (some dedupKey) ev.executionTime

def isDueCandidate (frequency : String) (server : ScheduleServer) (dedupKey : ScheduleKey) :
    Bool × ScheduleCache :=
  s.cache.isDueCandidateBeforeExpensiveChecks (ev.expression frequency server) dedupKey
    ev.executionTime

/-- The checks that a backup and a task share. -/
def serverSkipReason (server : ScheduleServer) : Option String :=
  if !server.isFunctional then some "server_not_functional"
  else if ev.cfg.isCloud && server.isUnpaid then some "subscription_unpaid"
  else none

/-! ## Backups -/

def getBackupSkipReason (id : Nat) (b : ScheduledDatabaseBackup) (server : Option ScheduleServer) :
    Option String × ScheduleStore :=
  let deleted := { s with backups := s.backups.deleteWhere fun i _ => i == id }
  if !b.hasDatabase then (some "database_deleted", deleted)
  else match server with
    | none => (some "server_deleted", deleted)
    | some server => (ev.serverSkipReason server, s)

def processScheduledBackup (id : Nat) (b : ScheduledDatabaseBackup)
    (precheckedServer : Option ScheduleServer) : ScheduleStore :=
  let server := precheckedServer.or b.server
  let skip := ev.getBackupSkipReason s id b server
  match skip.1, server with
  | none, some server =>
      let fired := ev.shouldDispatch skip.2 b.frequency server (.backup id)
      { skip.2 with
        cache := fired.2
        dispatched :=
          if fired.1 then skip.2.dispatched ++ [.backup id] else skip.2.dispatched }
  | _, _ => skip.2

/-- The rows that are due, with their servers. -/
abbrev DueBackups := List (Nat × ScheduledDatabaseBackup × ScheduleServer)

/-- One turn of the loop of `dueScheduledBackups`. -/
def dueScheduledBackup (acc : ScheduleStore × DueBackups) (q : Nat × ScheduledDatabaseBackup) :
    ScheduleStore × DueBackups :=
  let s := { acc.1 with evaluated := acc.1.evaluated ++ [.backup q.1] }
  match q.2.server with
  | none => (ev.processScheduledBackup s q.1 q.2 none, acc.2)
  | some server =>
      let checked := ev.isDueCandidate s q.2.frequency server (.backup q.1)
      ({ s with cache := checked.2 }, if checked.1 then acc.2 ++ [(q.1, q.2, server)] else acc.2)

def dueScheduledBackups (backups : List (Nat × ScheduledDatabaseBackup)) :
    ScheduleStore × DueBackups :=
  backups.foldl ev.dueScheduledBackup (s, [])

/-! ## Tasks -/

def getTaskCriticalSkipReason (id : Nat) (task : ScheduledTask) (server : Option ScheduleServer) :
    Option String × ScheduleStore :=
  let deleted := { s with tasks := s.tasks.deleteWhere fun i _ => i == id }
  match server with
  | none => (some "server_deleted", deleted)
  | some server =>
      match ev.serverSkipReason server with
      | some reason => (some reason, s)
      | none =>
          if task.service.isNone && task.application.isNone then (some "resource_deleted", deleted)
          else (none, s)

def getTaskRuntimeSkipReason (task : ScheduledTask) : Option String :=
  if task.application.any (!·.isRunning) then some "application_not_running"
  else if task.service.any (!·.isRunning) then some "service_not_running"
  else none

/-- A task that is not running is skipped after `shouldDispatch` has written. -/
def processScheduledTask (id : Nat) (task : ScheduledTask)
    (precheckedServer : Option ScheduleServer) : ScheduleStore :=
  let server := precheckedServer.or task.server
  let skip := ev.getTaskCriticalSkipReason s id task server
  match skip.1, server with
  | none, some server =>
      let fired := ev.shouldDispatch skip.2 task.frequency server (.task id)
      { skip.2 with
        cache := fired.2
        dispatched := if fired.1 && (getTaskRuntimeSkipReason task).isNone then
          skip.2.dispatched ++ [.task id] else skip.2.dispatched }
  | _, _ => skip.2

abbrev DueTasks := List (Nat × ScheduledTask × ScheduleServer)

/-- One turn of the loop of `dueScheduledTasks`. -/
def dueScheduledTask (acc : ScheduleStore × DueTasks) (q : Nat × ScheduledTask) :
    ScheduleStore × DueTasks :=
  let s := { acc.1 with evaluated := acc.1.evaluated ++ [.task q.1] }
  match q.2.server with
  | none => (ev.processScheduledTask s q.1 q.2 none, acc.2)
  | some server =>
      let checked := ev.isDueCandidate s q.2.frequency server (.task q.1)
      ({ s with cache := checked.2 }, if checked.1 then acc.2 ++ [(q.1, q.2, server)] else acc.2)

def dueScheduledTasks (tasks : List (Nat × ScheduledTask)) : ScheduleStore × DueTasks :=
  tasks.foldl ev.dueScheduledTask (s, [])

/-! ## An execution -/

/-- One turn of the loop of `processInterleavedDueSchedules`. -/
def processInterleaved (dueBackups : DueBackups) (dueTasks : DueTasks) (s : ScheduleStore)
    (index : Nat) : ScheduleStore :=
  let s := (dueBackups[index]?).elim s fun q => ev.processScheduledBackup s q.1 q.2.1 (some q.2.2)
  (dueTasks[index]?).elim s fun q => ev.processScheduledTask s q.1 q.2.1 (some q.2.2)

def processInterleavedDueSchedules (dueBackups : DueBackups) (dueTasks : DueTasks) :
    ScheduleStore :=
  let maxCount := max dueBackups.length dueTasks.length
  (List.range maxCount).foldl (ev.processInterleaved dueBackups dueTasks) s

end Evaluation

namespace ScheduleStore

variable (s : ScheduleStore)

/-- `where('id', '>', $lastId)`, if there is one. -/
def isAfter (lastId : Option Nat) (id : Nat) : Bool := lastId.all (· < id)

def pendingBackups (lastBackupId : Option Nat) : List (Nat × ScheduledDatabaseBackup) :=
  s.backups.select fun id b => b.enabled && isAfter lastBackupId id

def pendingTasks (lastTaskId : Option Nat) : List (Nat × ScheduledTask) :=
  s.tasks.select fun id task => task.enabled && isAfter lastTaskId id

def chunkSize : Nat := 100

def scheduledBackupQuery (lastBackupId : Option Nat) : List (Nat × ScheduledDatabaseBackup) :=
  (s.pendingBackups lastBackupId).take chunkSize

def scheduledTaskQuery (lastTaskId : Option Nat) : List (Nat × ScheduledTask) :=
  (s.pendingTasks lastTaskId).take chunkSize

end ScheduleStore

namespace Evaluation

variable (ev : Evaluation)

/-- What the loop does with one chunk of each kind. -/
def processChunk (s : ScheduleStore) (backups : List (Nat × ScheduledDatabaseBackup))
    (tasks : List (Nat × ScheduledTask)) : ScheduleStore :=
  let dueBackups := ev.dueScheduledBackups s backups
  let dueTasks := ev.dueScheduledTasks dueBackups.1 tasks
  ev.processInterleavedDueSchedules dueTasks.1 dueBackups.2 dueTasks.2

/-- The loop of `processScheduledBackupsAndTasks`; `none` is not to have ended yet. -/
def processChunks : Nat → Option Nat → Option Nat → ScheduleStore → Option ScheduleStore
  | 0, _, _, _ => none
  | fuel + 1, lastBackupId, lastTaskId, s =>
      let backups := s.scheduledBackupQuery lastBackupId
      let tasks := s.scheduledTaskQuery lastTaskId
      let lastBackupId := (backups.getLast?.map (·.1)).or lastBackupId
      let lastTaskId := (tasks.getLast?.map (·.1)).or lastTaskId
      let s := ev.processChunk s backups tasks
      if backups.isEmpty && tasks.isEmpty then some s
      else processChunks fuel lastBackupId lastTaskId s

/-- With as many turns as the loop can take. -/
def processScheduledBackupsAndTasks (s : ScheduleStore) : Option ScheduleStore :=
  ev.processChunks ((s.pendingBackups none).length + (s.pendingTasks none).length + 1) none none s

end Evaluation

end OnePloy
