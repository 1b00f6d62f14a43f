import MailFallback.Library.Program
import MailFallback.Tables

/-! # The backup worker

`execute_backup` as a program over one database session and restic, with the two sweeps that
close its jobs. The notification of the owners and the arguments passed on to restic are left
out. -/

namespace MailFallback

open Storage Effects

inductive BackupStatus where
  | idle | running | completed | failed
  deriving DecidableEq, Repr

structure BackupPolicy where
  accountId : Id
  lastBackupAt : Option Time := none
  lastRunAt : Option Time := none
  lastSuccessfulRunAt : Option Time := none
  lastSnapshotCount : ℕ := 0
  lastSnapshotAt : Option Time := none
  lastStatus : BackupStatus := .idle
  lastError : Option String := none
  deriving DecidableEq, Repr

structure BackupJob where
  policyId : Id
  accountId : Id
  status : JobStatus := .pending
  requestedAt : Time
  startedAt : Option Time := none
  completedAt : Option Time := none
  /-- A plain string, as for a sync job: interrupted, stalled or error. -/
  failureKind : Option String := none
  log : Option String := none
  snapshotId : Option String := none
  bytesProcessed : ℤ := 0
  bytesAdded : ℤ := 0
  deriving DecidableEq, Repr

structure BackupDb extends Db where
  policies : Table Id BackupPolicy := .empty
  backupJobs : Table Id BackupJob := .empty
  deriving DecidableEq

/-! ## The sweeps -/

/-- A marker line below what the log holds already. -/
def appendMarker (log : Option String) (marker : String) : String :=
  if given log = true then log.getD "" ++ "\n" ++ marker else marker

/-- The job half of `_close_job`, on the row as it was loaded. -/
def closedJob (failureKind marker : String) (now : Time) (loaded job : BackupJob) : BackupJob :=
  { job with
    status := .failed
    failureKind := some failureKind
    completedAt := some now
    log := some (appendMarker loaded.log marker) }

/-- The policy half of `_close_job`: a policy that shows something newer is not clobbered. -/
def healedPolicy (marker : String) (policy : BackupPolicy) : BackupPolicy :=
  if policy.lastStatus = .running then
    { policy with lastStatus := .failed, lastError := some marker }
  else policy

/-- `_close_job` -/
def closeJob (failureKind marker : String) (now : Time) (jobId : Id) (loaded : BackupJob)
    (db : BackupDb) : BackupDb :=
  { db with
    backupJobs := db.backupJobs.modify jobId (closedJob failureKind marker now loaded)
    policies := db.policies.modify loaded.policyId (healedPolicy marker) }

def closeAll (failureKind marker : String) (now : Time) (rows : List (Id × BackupJob))
    (db : BackupDb) : BackupDb :=
  rows.foldl (fun db row => closeJob failureKind marker now row.1 row.2 db) db

def backupRecoveredMarker : String :=
  "[recovered] container restarted mid-backup — closed as interrupted"

def backupReapedMarker : String := "[reaped] no restic progress — closed as stalled"

/-- The rows that `recover_zombie_backup_jobs` closes; `procs` are the jobs with a process in
`_running_backup_procs`. -/
def zombieBackups (procs : List Id) (db : BackupDb) : List (Id × BackupJob) :=
  db.backupJobs.rows.filter fun row => row.2.status.isOpen && decide (row.1 ∉ procs)

/-- `recover_zombie_backup_jobs` -/
def recoverZombieBackupJobs (procs : List Id) (now : Time) (db : BackupDb) : BackupDb × ℕ :=
  (closeAll "interrupted" backupRecoveredMarker now (zombieBackups procs db) db,
    (zombieBackups procs db).length)

/-- How many jobs of the account were requested later. -/
def newerBackups (db : BackupDb) (job : BackupJob) : ℕ :=
  (db.backupJobs.rows.filter fun row =>
    decide (row.2.accountId = job.accountId) && decide (job.requestedAt < row.2.requestedAt)).length

/-- `cleanup_old_backup_jobs`; of jobs requested in the same microsecond none is taken for
older. -/
def cleanupOldBackupJobs (keep : ℕ) (accountId : Id) (db : BackupDb) : BackupDb :=
  { db with backupJobs := db.backupJobs.filter fun _ job =>
      decide (job.accountId ≠ accountId) || decide (newerBackups db job < keep) }

/-! ## What the worker writes -/

inductive BackupWrite where
  | accountNotFound
  | start (accountId : Id) (now : Time)
  | success (snapshotId : Option String) (now : Time)
  | bytes (processed added : ℤ)
  | snapshots (count : ℕ) (latest : Option Time)
  | failure (text : String) (now : Time) (alreadyClosed : Bool)
  deriving DecidableEq, Repr

namespace BackupWrite

/-- The assignment to `last_status`. -/
def status : BackupWrite → Option BackupStatus
  | .accountNotFound | .failure .. => some .failed
  | .start .. => some .running
  | .success .. => some .completed
  | .bytes .. | .snapshots .. => none

/-- The other assignments to the policy. -/
def policy : BackupWrite → BackupPolicy → BackupPolicy
  | .accountNotFound, p => { p with lastError := some "Account not found" }
  | .start _ now, p => { p with lastError := none, lastRunAt := some now }
  | .success _ now, p =>
      { p with lastBackupAt := some now, lastSuccessfulRunAt := some now, lastError := none }
  | .bytes .., p => p
  | .snapshots count latest, p =>
      { p with lastSnapshotCount := count, lastSnapshotAt := latest.or p.lastSnapshotAt }
  | .failure text _ alreadyClosed, p =>
      if alreadyClosed = true then p else { p with lastError := some text }

def job : BackupWrite → BackupJob → BackupJob
  | .accountNotFound, j | .start .., j | .snapshots .., j => j
  | .success snapshotId now, j =>
      { j with status := .completed, completedAt := some now, snapshotId := snapshotId }
  | .bytes processed added, j => { j with bytesProcessed := processed, bytesAdded := added }
  | .failure text now alreadyClosed, j =>
      if alreadyClosed = true then
        { j with status := .failed, completedAt := j.completedAt.or (some now),
                 log := some (appendMarker j.log text) }
      else
        { j with status := .failed, completedAt := j.completedAt.or (some now),
                 failureKind := some "error", log := some text }

def updatesJob : BackupWrite → Bool
  | .success .. | .bytes .. | .failure .. => true
  | .accountNotFound | .start .. | .snapshots .. => false

end BackupWrite

/-- An assignment that the session has not committed; `emits` unless `last_status` was loaded
with the value that it is assigned, in which case the update leaves the column out. -/
structure Pending where
  write : BackupWrite
  emits : Bool
  deriving DecidableEq

def Pending.policy (p : Pending) (policy : BackupPolicy) : BackupPolicy :=
  let assigned := p.write.policy policy
  if p.emits = true then { assigned with lastStatus := p.write.status.getD assigned.lastStatus }
  else assigned

/-- The row that a start adds. -/
def newBackupJob (policyId accountId : Id) (now : Time) : BackupJob :=
  { policyId := policyId, accountId := accountId, status := .running, requestedAt := now,
    startedAt := some now }

def addBackupJob (jobId : Id) (job : BackupJob) (jobs : Table Id BackupJob) : Table Id BackupJob :=
  if h : jobs.get? jobId = none then jobs.add jobId job h else jobs

def Pending.apply (policyId jobId : Id) (p : Pending) (db : BackupDb) : BackupDb :=
  { db with
    policies := db.policies.modify policyId p.policy
    backupJobs := match p.write with
      | .start accountId now => addBackupJob jobId (newBackupJob policyId accountId now) db.backupJobs
      | w => db.backupJobs.modify jobId w.job }

/-! ## Operations -/

/-- What the code reads in the summary of `run_backup`. -/
structure Summary where
  snapshotId : Option String := none
  deriving DecidableEq, Repr

inductive BackupOp where
  | view
  | now
  | stage (w : BackupWrite)
  | commit
  | refreshJob
  /-- Reads an attribute of the policy, which loads the row when a commit has expired it. -/
  | loadPolicy
  /-- Renews the heartbeat in `_backup_progress`. -/
  | tick
  | initRepo
  /-- Starts restic and registers its process. -/
  | startRestic
  | waitRestic
  | recordSnapshot (snapshotId : String)
  | applyRetention
  | pruneSnapshot (snapshotId : String)
  /-- The two calls of `int` on the summary. -/
  | byteCounts
  | listSnapshots
  | dropProgress
  | cleanupOldJobs (accountId : Id)
  deriving DecidableEq

/-- Without messages to record `recordSnapshot` replies false and does not commit. -/
def BackupAns : BackupOp → Type
  | .view => BackupDb
  | .now => Time
  | .refreshJob => BackupJob
  | .loadPolicy => BackupPolicy
  | .initRepo | .recordSnapshot _ => Bool
  | .waitRestic => Summary
  | .applyRetention => List String
  | .byteCounts => ℤ × ℤ
  | .listSnapshots => ℕ × Option Time
  | _ => Unit

/-- The text of an exception. -/
abbrev BackupExc := String

def BackupOp.fallible : BackupOp → Bool
  | .commit | .refreshJob | .initRepo | .startRestic | .waitRestic | .recordSnapshot _
  | .applyRetention | .pruneSnapshot _ | .byteCounts | .listSnapshots | .cleanupOldJobs _ => true
  | _ => false

abbrev BackupTask (α : Type) := Prog BackupOp BackupAns BackupExc α

namespace BackupTask

def op (o : BackupOp) : BackupTask (BackupAns o) := Prog.op o

def view : BackupTask BackupDb := op .view
def now : BackupTask Time := op .now
def stage (w : BackupWrite) : BackupTask Unit := op (.stage w)
def commit : BackupTask Unit := op .commit
def refreshJob : BackupTask BackupJob := op .refreshJob
def loadPolicy : BackupTask BackupPolicy := op .loadPolicy
def tick : BackupTask Unit := op .tick
def initRepo : BackupTask Bool := op .initRepo
def startRestic : BackupTask Unit := op .startRestic
def waitRestic : BackupTask Summary := op .waitRestic
def recordSnapshot (snapshotId : String) : BackupTask Bool := op (.recordSnapshot snapshotId)
def applyRetention : BackupTask (List String) := op .applyRetention
def pruneSnapshot (snapshotId : String) : BackupTask Unit := op (.pruneSnapshot snapshotId)
def byteCounts : BackupTask (ℤ × ℤ) := op .byteCounts
def listSnapshots : BackupTask (ℕ × Option Time) := op .listSnapshots
def dropProgress : BackupTask Unit := op .dropProgress
def cleanupOldJobs (accountId : Id) : BackupTask Unit := op (.cleanupOldJobs accountId)

end BackupTask

open BackupTask

/-! ## The program -/

/-- The first two phases: the repository and the backup itself. -/
def backupPhase : BackupTask Summary := do
  tick
  let _ ← loadPolicy
  let ready ← initRepo
  if ready = true then do
    tick
    let _ ← loadPolicy
    startRestic
    let summary ← waitRestic
    tick
    pure summary
  else Prog.raise "Failed to initialize restic repository"

/-- The index learns of the new snapshot; its failure is swallowed. -/
def recordPhase (summary : Summary) : BackupTask Unit :=
  if given summary.snapshotId = true then do
    let _ ← loadPolicy
    let _ ← (recordSnapshot (summary.snapshotId.getD "")).handle fun _ => pure false
    pure ()
  else pure ()

/-- The third phase, with the index told of every removed snapshot. -/
def retentionPhase : BackupTask Unit := do
  tick
  let _ ← loadPolicy
  let removed ← applyRetention
  removed.foldlM (fun _ snapshotId => (pruneSnapshot snapshotId).handle fun _ => pure ()) ()

/-- The assignments of a success, which the `finally` clause commits. -/
def recordSuccess (summary : Summary) : BackupTask Unit := do
  let time ← now
  stage (.success summary.snapshotId time)
  let (processed, added) ← byteCounts
  stage (.bytes processed added)
  (do
    let (count, latest) ← listSnapshots
    stage (.snapshots count latest)).handle fun _ => pure ()

def runPhases : BackupTask Unit := do
  let summary ← backupPhase
  recordPhase summary
  retentionPhase
  recordSuccess summary

/-- The `except` clause: the verdict of the watchdog is not overwritten. -/
def backupFailed (text : String) : BackupTask Unit := do
  let job ← refreshJob
  let time ← now
  stage (.failure text time (decide (job.status = .failed) && given job.failureKind))
  commit.handle fun _ => pure ()

/-- The `finally` clause. -/
def backupCleanUp (accountId : Id) : BackupTask Unit := do
  dropProgress
  commit
  (BackupTask.cleanupOldJobs accountId).handle fun _ => pure ()

def executeBackup (policyId : Id) : BackupTask Unit := do
  let db ← view
  match db.policies.get? policyId with
  | none => pure ()
  | some backup =>
      match db.accounts.get? backup.accountId with
      | none => do
          stage .accountNotFound
          commit
      | some _ => do
          let time ← now
          stage (.start backup.accountId time)
          commit
          let _ ← refreshJob
          tick
          (runPhases.handle backupFailed).ensure (backupCleanUp backup.accountId)

end MailFallback
