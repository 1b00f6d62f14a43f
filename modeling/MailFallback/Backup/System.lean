import MailFallback.Backup.Discipline
import MailFallback.Library.Transition
import Mathlib.Logic.Function.Basic

/-! # All the backup workers and their watchdog

A worker takes one operation at a time. The watchdog reads the running rows in one step and
commits what it makes of them in a later one, since it stops processes in between. -/

namespace MailFallback

open Storage Effects

structure BackupSettings where
  stallGrace : Time := 1800000000
  stallThreshold : Time := 900000000

structure BackupWorker where
  policyId : Id
  prog : BackupTask Unit
  l : BackupLocal

structure BackupWorld where
  db : BackupDb
  clock : Time := 0
  /-- The ids given to jobs so far. -/
  used : List Id := []
  workers : Id → Option BackupWorker := fun _ => none
  /-- `updated_ts` in `_backup_progress`. -/
  progress : Id → Option Time := fun _ => none
  /-- The keys of `_running_backup_procs`. -/
  procs : List Id := []
  /-- The rows that the watchdog has loaded and found stalled. -/
  scanned : List (Id × BackupJob) := []
  /-- For each policy the job whose end was committed last. -/
  lastFinished : Id → Option Id := fun _ => none

inductive BackupEvent where
  | pass (time : ℕ)
  /-- The executor runs `execute_backup`, whose job will get that id. -/
  | submit (policyId jobId : Id)
  | work (jobId : Id) (reply : (o : BackupOp) → Except BackupExc (BackupAns o))
  /-- A message of restic. -/
  | heartbeat (jobId : Id)
  | scan
  | reap

/-- The rows as a commit would leave them. -/
def pendingBackup (policyId jobId : Id) (staged : List Pending) (db : BackupDb) : BackupDb :=
  staged.foldl (fun db p => p.apply policyId jobId db) db

/-- A row that is updated must exist. -/
def committable (jobId : Id) (staged : List Pending) (db : BackupDb) : Bool :=
  staged.all (fun p => !p.write.updatesJob) || (db.backupJobs.get? jobId).isSome

/-- The committed rows after an operation of the session; `none` when they do not allow the
reply. -/
def backupSession (policyId jobId : Id) (l : BackupLocal) (db : BackupDb) :
    (o : BackupOp) → Except BackupExc (BackupAns o) → Option BackupDb
  | .view, .ok (read : BackupDb) => if read = db then some db else none
  | .commit, .ok _ =>
      if committable jobId l.staged db = true then some (pendingBackup policyId jobId l.staged db)
      else none
  | .commit, .error _ => if committable jobId l.staged db = true then none else some db
  | .refreshJob, .ok (job : BackupJob) =>
      if (pendingBackup policyId jobId l.staged db).backupJobs.get? jobId = some job then some db
      else none
  | .refreshJob, .error _ =>
      if ((pendingBackup policyId jobId l.staged db).backupJobs.get? jobId).isNone then some db
      else none
  | .loadPolicy, .ok (policy : BackupPolicy) =>
      if l.seen.isSome || decide (db.policies.get? policyId = some policy) then some db else none
  | .cleanupOldJobs accountId, .ok _ => some (cleanupOldBackupJobs 150 accountId db)
  | _, _ => some db

namespace BackupWorld

variable (w : BackupWorld)

/-- What an operation of a worker does outside its session. -/
def perform (jobId : Id) : (o : BackupOp) → Except BackupExc (BackupAns o) → Option BackupWorld
  | .now, .ok (time : ℤ) => if time = w.clock then some w else none
  | .tick, .ok _ => some { w with progress := Function.update w.progress jobId (some w.clock) }
  | .startRestic, .ok _ => some { w with procs := jobId :: w.procs }
  | .dropProgress, .ok _ => some { w with
      progress := Function.update w.progress jobId none
      procs := w.procs.filter (· ≠ jobId) }
  | _, _ => some w

/-- The history after the end of a job was committed. -/
def finish (policyId jobId : Id) (before after : Table Id BackupJob) (last : Id → Option Id) :
    Id → Option Id :=
  if ((before.get? jobId).any fun job => job.status.isOpen) &&
      (after.get? jobId).any fun job => !job.status.isOpen then
    Function.update last policyId (some jobId)
  else last

/-- One operation of a worker, or the end of a worker that has left. -/
def work (jobId : Id) (reply : (o : BackupOp) → Except BackupExc (BackupAns o)) :
    Option BackupWorld :=
  match w.workers jobId with
  | none => none
  | some ⟨policyId, .perform o k, l⟩ => do
      let l' ← backupStep policyId o l (reply o)
      let db ← backupSession policyId jobId l w.db o (reply o)
      let w' ← w.perform jobId o (reply o)
      pure { w' with
        db := db
        workers := Function.update w.workers jobId (some ⟨policyId, k (reply o), l'⟩)
        lastFinished := finish policyId jobId w.db.backupJobs db.backupJobs w.lastFinished }
  | some _ => some { w with workers := Function.update w.workers jobId none }

/-- The running jobs whose heartbeat `recover_stalled_backup_jobs` misses. -/
def stalled (settings : BackupSettings) (jobId : Id) (job : BackupJob) : Bool :=
  decide (job.status = .running) &&
    (job.startedAt.any fun started => decide (settings.stallGrace ≤ w.clock - started)) &&
    !((w.progress jobId).any fun tick => decide (w.clock - tick < settings.stallThreshold))

/-- The closing of one of the loaded rows, whose process is stopped and forgotten. -/
def reapRow (row : Id × BackupJob) : BackupWorld :=
  let db := closeJob "stalled" backupReapedMarker w.clock row.1 row.2 w.db
  { w with
    db := db
    progress := Function.update w.progress row.1 none
    procs := w.procs.filter (· ≠ row.1)
    lastFinished := finish row.2.policyId row.1 w.db.backupJobs db.backupJobs w.lastFinished }

/-- The commit at the end of `recover_stalled_backup_jobs`, which fails when one of the rows is
gone. -/
def reap : BackupWorld :=
  let reaped := w.scanned.foldl reapRow { w with scanned := [] }
  if w.scanned.all (fun row => (w.db.backupJobs.get? row.1).isSome) then reaped
  else { reaped with db := w.db, lastFinished := w.lastFinished }

def next (settings : BackupSettings) : BackupEvent → Option BackupWorld
  | .pass time => some { w with clock := w.clock + time }
  | .submit policyId jobId =>
      if jobId ∈ w.used then none
      else some { w with
        used := jobId :: w.used
        workers := Function.update w.workers jobId (some ⟨policyId, executeBackup policyId, {}⟩) }
  | .work jobId reply => w.work jobId reply
  | .heartbeat jobId =>
      if jobId ∈ w.procs then
        some { w with progress := Function.update w.progress jobId (some w.clock) }
      else none
  | .scan => some { w with
      scanned := w.db.backupJobs.rows.filter fun row => w.stalled settings row.1 row.2 }
  | .reap => some w.reap

end BackupWorld

end MailFallback
