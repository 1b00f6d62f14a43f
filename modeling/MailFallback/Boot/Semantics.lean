import MailFallback.Backup.Semantics
import MailFallback.Sync.Actors

/-! # Creating jobs, and the recovery at boot

The busy checks of the four kinds of job, and the steps of `lifespan` that repair what a dead
process has left in the database. Deleting expired restore users and resuming migrations
touch none of these jobs. -/

namespace MailFallback

open Storage

inductive RestoreMode where
  | full | folder | selection | stagingPush
  deriving DecidableEq, Repr

def RestoreMode.ofString : String → Option RestoreMode
  | "full" => some .full
  | "folder" => some .folder
  | "selection" => some .selection
  | "staging_push" => some .stagingPush
  | _ => none

structure RestoreJob where
  sourceAccountId : Id
  targetAccountId : Id
  status : JobStatus := .pending
  restoreMode : RestoreMode
  folderMapping : String := "original"
  skipDuplicates : Bool := true
  selectedFolders : Option (List String) := none
  selectedUids : Option (List (String × List String)) := none
  requestedBy : Id
  requestedAt : Time
  deriving DecidableEq, Repr

inductive TaskStatus where
  | pending | running | completed | failed
  deriving DecidableEq, Repr

def TaskStatus.isOpen : TaskStatus → Bool
  | .pending | .running => true
  | .completed | .failed => false

structure BackgroundTask where
  taskType : String
  status : TaskStatus := .pending
  requestedBy : Option Id
  createdAt : Time
  deriving DecidableEq, Repr

structure ServerDb extends BackupDb where
  restoreJobs : Table Id RestoreJob := .empty
  tasks : Table Id BackgroundTask := .empty
  deriving DecidableEq

/-! ## Creation -/

/-- The arguments of `create_restore_job`. -/
structure RestoreRequest where
  sourceAccountId : Id
  targetAccountId : Id
  restoreMode : String
  requestedBy : Id
  folderMapping : String := "original"
  skipDuplicates : Bool := true
  selectedFolders : Option (List String) := none
  selectedUids : Option (List (String × List String)) := none

/-- Both accounts exist and can take part in a restore. -/
def restorable (db : Db) (sourceAccountId targetAccountId : Id) : Bool :=
  (db.accounts.get? sourceAccountId).any (fun source => !source.suspended && !source.migrating) &&
    (db.accounts.get? targetAccountId).any fun target =>
      !target.suspended && !target.migrating && given target.credentials

/-- The busy check of `create_restore_job`. -/
def restoreBusy (db : ServerDb) (sourceAccountId targetAccountId : Id) : Bool :=
  db.restoreJobs.rows.any fun row =>
    decide (row.2.sourceAccountId = sourceAccountId) &&
      decide (row.2.targetAccountId = targetAccountId) && row.2.status.isOpen

/-- What a call that creates a row comes to. -/
inductive Creation where
  | refused
  | raised
  | created (db : ServerDb)

/-- The row that a request adds. -/
def newRestoreJob (request : RestoreRequest) (mode : RestoreMode) (now : Time) : RestoreJob where
  sourceAccountId := request.sourceAccountId
  targetAccountId := request.targetAccountId
  restoreMode := mode
  folderMapping := request.folderMapping
  skipDuplicates := request.skipDuplicates
  selectedFolders := request.selectedFolders
  selectedUids := request.selectedUids
  requestedBy := request.requestedBy
  requestedAt := now

/-- `create_restore_job`; a mode that does not exist raises. -/
def createRestoreJob (request : RestoreRequest) (jobId : Id) (now : Time) (db : ServerDb) :
    Creation :=
  if restorable db.toDb request.sourceAccountId request.targetAccountId = false then .refused
  else if restoreBusy db request.sourceAccountId request.targetAccountId = true then .refused
  else
    match RestoreMode.ofString request.restoreMode with
    | none => .raised
    | some mode =>
        if h : db.restoreJobs.get? jobId = none then
          .created { db with
            restoreJobs := db.restoreJobs.add jobId (newRestoreJob request mode now) h }
        else .raised

/-- The busy check of `start_task`. -/
def taskBusy (db : ServerDb) (taskType : String) : Bool :=
  db.tasks.rows.any fun row => decide (row.2.taskType = taskType) && row.2.status.isOpen

def newTask (taskType : String) (requestedBy : Option Id) (now : Time) : BackgroundTask :=
  { taskType := taskType, requestedBy := requestedBy, createdAt := now }

/-- `start_task` -/
def startTask (taskType : String) (requestedBy : Option Id) (taskId : Id) (now : Time)
    (db : ServerDb) : Creation :=
  if taskBusy db taskType = true then .refused
  else if h : db.tasks.get? taskId = none then
    .created { db with tasks := db.tasks.add taskId (newTask taskType requestedBy now) h }
  else .raised

/-- `create_sync_job` -/
def createSync (accountId jobId : Id) (now : Time) (db : ServerDb) : Creation :=
  if hasOpenJob db.toDb accountId = true then .refused
  else
    match insertJob accountId jobId now db.toDb with
    | some synced => .created { db with toDb := synced }
    | none => .raised

/-- What `execute_backup` does up to its first commit: it has no busy check. -/
def createBackup (policyId jobId : Id) (now : Time) (db : ServerDb) : Creation :=
  match db.policies.get? policyId with
  | none => .refused
  | some policy =>
      if (db.accounts.get? policy.accountId).isNone then .refused
      else .created { db with
        toBackupDb := Pending.apply policyId jobId ⟨.start policy.accountId now, true⟩ db.toBackupDb }

/-! ## Recovery -/

/-- `_recover_zombie_jobs` on a process that has no worker yet. -/
def recoverZombieJobs (now : Time) (db : ServerDb) : ServerDb :=
  let synced : ServerDb := { db with toDb := (recoverZombieSyncJobs [] now db.toDb).1 }
  { synced with toBackupDb := (recoverZombieBackupJobs [] now synced.toBackupDb).1 }

/-- `submit_fts_reindex` at boot, where nobody asks whether it was refused. -/
def submitFtsReindex (taskId : Id) (now : Time) (db : ServerDb) : ServerDb :=
  match startTask "fts_reindex" none taskId now db with
  | .created db' => db'
  | _ => db

/-- The steps of `lifespan` on these rows; `ftsChanged` when the configuration asks for a
reindex. -/
def lifespanRecovery (ftsChanged : Bool) (taskId : Id) (now : Time) (db : ServerDb) : ServerDb :=
  let recovered := recoverZombieJobs now db
  if ftsChanged = true then submitFtsReindex taskId now recovered else recovered

end MailFallback
