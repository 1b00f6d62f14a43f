import MailFallback.Library.PyString
import MailFallback.Tables

/-! # The scheduler

The jobs the scheduler holds, and how the periodic syncs among them follow the accounts
table. The reader of the cron fields comes from outside. -/

namespace MailFallback

open Storage PyString

/-- What a job of the scheduler calls. -/
inductive JobFunc where
  | runScheduledSync | runScheduledBackup | runScheduledConfigBackup
  | runMountCleanup | runStagingCleanup | runPauseExpiryTick
  | runWatchdog | runBackupWatchdog | runStaleNotify
  deriving DecidableEq, Repr

structure ScheduledJob (T : Type*) where
  func : JobFunc
  trigger : T
  args : List Id
  deriving DecidableEq, Repr

/-- The job store, under the ids of the jobs. -/
abbrev Jobs (T : Type*) := Table String (ScheduledJob T)

inductive SchedulerExc where
  | valueError (message : String)
  | jobLookupError (jobId : String)
  deriving DecidableEq, Repr

/-- `CronTrigger(minute, hour, day, month, day_of_week)`, with the message it raises. -/
abbrev CronTrigger (T : Type*) := String → String → String → String → String → Except String T

variable {T : Type*}

/-! ## The operations of the scheduler -/

/-- `add_job` with `replace_existing`. -/
def addJob (jobs : Jobs T) (jobId : String) (job : ScheduledJob T) : Jobs T :=
  jobs.set jobId job

def rescheduleJob (jobs : Jobs T) (jobId : String) (trigger : T) :
    Except SchedulerExc (Jobs T) :=
  match jobs.get? jobId with
  | some _ => .ok (jobs.modify jobId fun job => { job with trigger })
  | none => .error (.jobLookupError jobId)

def removeJob (jobs : Jobs T) (jobId : String) : Except SchedulerExc (Jobs T) :=
  match jobs.get? jobId with
  | some _ => .ok (jobs.filter fun k _ => decide (k ≠ jobId))
  | none => .error (.jobLookupError jobId)

/-! ## `sync_scheduler_jobs` -/

def syncPrefix : String := "sync_"

def syncJobId (accountId : Id) : String := syncPrefix ++ accountId

def isSyncJobId (jobId : String) : Bool := syncPrefix.toList.isPrefixOf jobId.toList

/-- The jobs the function leaves, and what it raised. -/
structure Pass (T : Type*) where
  jobs : Jobs T
  raised : Option SchedulerExc := none

variable (cron : CronTrigger T)

/-- The body of the loop over the accounts. -/
def scheduleAccount (existing : List String) (jobs : Jobs T) (accountId : Id)
    (account : Account) : Except SchedulerExc (Jobs T) :=
  if account.isAuthenticated = false then .ok jobs
  else if given account.syncSchedule = false then .ok jobs
  else
    match split (account.syncSchedule.getD "") with
    | [minute, hour, day, month, dayOfWeek] =>
        match cron minute hour day month dayOfWeek with
        | .error message => .error (.valueError message)
        | .ok trigger =>
            if syncJobId accountId ∈ existing then
              rescheduleJob jobs (syncJobId accountId) trigger
            else .ok (addJob jobs (syncJobId accountId) ⟨.runScheduledSync, trigger, [accountId]⟩)
    | _ => .ok jobs

/-- What is raised ends the loop; the jobs changed before it stay changed. -/
def scheduleAccounts (existing : List String) : List (Id × Account) → Jobs T → Pass T
  | [], jobs => ⟨jobs, none⟩
  | (accountId, account) :: rows, jobs =>
      match scheduleAccount cron existing jobs accountId account with
      | .ok jobs => scheduleAccounts existing rows jobs
      | .error raised => ⟨jobs, some raised⟩

def removeJobs : List String → Jobs T → Pass T
  | [], jobs => ⟨jobs, none⟩
  | jobId :: stale, jobs =>
      match removeJob jobs jobId with
      | .ok jobs => removeJobs stale jobs
      | .error raised => ⟨jobs, some raised⟩

def syncSchedulerJobs (accounts : Table Id Account) (jobs : Jobs T) : Pass T :=
  let existing := jobs.keys
  let rows := accounts.rows.filter fun row => !row.2.suspended
  let active := rows.map fun row => syncJobId row.1
  let pass := scheduleAccounts cron existing rows jobs
  match pass.raised with
  | some _ => pass
  | none =>
      removeJobs ((existing.filter fun jobId => !active.contains jobId).filter isSyncJobId)
        pass.jobs

end MailFallback
