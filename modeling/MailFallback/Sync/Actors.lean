import MailFallback.Sync.Semantics

/-! # The other writers of jobs and accounts

The triggers, the pause tick, the sampler, the watchdog and the sweep at boot. -/

namespace MailFallback

open Storage

/-! ## Triggers -/

/-- The query of `create_sync_job`. -/
def hasOpenJob (db : Db) (accountId : Id) : Bool :=
  db.syncJobs.rows.any fun row => decide (row.2.accountId = accountId) && row.2.status.isOpen

def newJob (accountId : Id) (now : Time) : SyncJob := { accountId := accountId, requestedAt := now }

/-- The insert of `create_sync_job`; an id that is taken cannot be inserted. -/
def insertJob (accountId jobId : Id) (now : Time) (db : Db) : Option Db :=
  if h : db.syncJobs.get? jobId = none then
    some { db with syncJobs := db.syncJobs.add jobId (newJob accountId now) h }
  else none

/-- `create_sync_job` without interruption; `none` when it refuses. -/
def createSyncJob (accountId jobId : Id) (now : Time) (db : Db) : Option Db :=
  if hasOpenJob db accountId = true then none else insertJob accountId jobId now db

def liftPause (account : Account) : Account :=
  { account with syncPausedUntil := none, pauseReason := none }

/-- `_resume_after_reauth`, before it triggers a sync. -/
def afterReauth (account : Account) : Account :=
  if account.syncState = .needsReauth ∨
      account.syncState = .error ∧ account.lastError = some tokenRefreshFailedText then
    { account with syncState := .idle, lastError := none }
  else account

def setAccount (accountId : Id) (f : Account → Account) (db : Db) : Db :=
  { db with accounts := db.accounts.modify accountId f }

/-! ## The budget -/

def mib : ℕ := 1024 * 1024

/-- `daily_budget_bytes`; `none` is unlimited. -/
def dailyBudgetBytes (account : Account) : Option ℕ :=
  match account.dailySyncBudgetMb with
  | some 0 => none
  | some override => some (override * mib)
  | none => if account.provider = "google" then some (2000 * mib) else none

/-- The date of a time, in days since the epoch. -/
def dateOf (now : Time) : ℤ := now / day

def budgetHeadroomToday (account : Account) (now : Time) : Bool :=
  match dailyBudgetBytes account with
  | none => true
  | some budget =>
      decide (account.trafficDate ≠ some (dateOf now)) || decide (account.bytesSyncedToday < budget)

/-- What a tick of the sampler books, from the first tick of a day on. -/
def bookTraffic (bytes : ℕ) (now : Time) (account : Account) : Account :=
  { account with
    trafficDate := some (dateOf now)
    bytesSyncedToday :=
      (if account.trafficDate = some (dateOf now) then account.bytesSyncedToday else 0) + bytes }

/-! ## Closing jobs that nobody works on -/

def interrupt (marker : String) (now : Time) (job : SyncJob) : SyncJob :=
  { job with status := .failed, failureKind := some "interrupted", completedAt := some now,
             log := some (appendLog job.log marker) }

/-- `_redrive_or_keep_pause` -/
def redriveOrKeepPause (now : Time) (account : Account) : Account :=
  if account.initialSyncCompletedAt = none ∧ budgetHeadroomToday account now = true then
    { account with syncPausedUntil := some (now - second), pauseReason := some "interrupted" }
  else account

def releaseAccount (now : Time) (account : Account) : Account :=
  redriveOrKeepPause now
    (if account.syncState = .syncing then { account with syncState := .idle } else account)

/-- One commit closes the jobs and releases their accounts; to release an account for
several jobs is to release it once. -/
def closeJobs (closing : Id → SyncJob → Bool) (marker : String) (now : Time) (db : Db) : Db :=
  { db with
    syncJobs := db.syncJobs.map fun jobId job =>
      if closing jobId job = true then interrupt marker now job else job
    accounts := db.accounts.map fun accountId account =>
      if (db.syncJobs.rows.any fun row =>
          closing row.1 row.2 && decide (row.2.accountId = accountId)) = true then
        releaseAccount now account
      else account }

def recoveredMarker : String := "[recovered] container restarted mid-sync — closed as interrupted"

def reapedMarker : String := "[reaped] stalled with no progress — closed as interrupted"

/-- The rows that the sweep at boot takes for dead: `handles` are the keys of
`_running_procs`. -/
def isZombie (handles : List Id) (jobId : Id) (job : SyncJob) : Bool :=
  decide (job.status = .pending) || decide (job.status = .running) && decide (jobId ∉ handles)

/-- `recover_zombie_sync_jobs`, with the number it returns. -/
def recoverZombieSyncJobs (handles : List Id) (now : Time) (db : Db) : Db × ℕ :=
  (closeJobs (isZombie handles) recoveredMarker now db,
    (db.syncJobs.rows.filter fun row => isZombie handles row.1 row.2).length)

end MailFallback
