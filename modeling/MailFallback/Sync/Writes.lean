import MailFallback.Tables

/-! # What a sync worker writes

Every assignment that `execute_sync_job` makes to its job and to its account, as data: a
write is a name with the values it assigns. -/

namespace MailFallback

open Storage

inductive Write where
  | blocked (log : String) (now : Time)
  | hostBlocked (error : String) (now : Time)
  | start (now : Time)
  | credentials (value : String)
  | tokenRefreshFailed (terminal : Bool) (now : Time)
  | totals (messages folders : ℕ)
  | result (code : Option ℤ) (output : String) (logPath : Option String) (now : Time)
  | signal (name : String)
  | completed (now : Time)
  | paused (kind : String) (resumeAt : Time)
  | capped (message : String) (output : String)
  | stopped (output : String)
  | errored (output : String)
  | timedOut (now : Time)
  | crashed (text : String) (now : Time)
  deriving DecidableEq, Repr

/-- `mailfallback.constants.TOKEN_REFRESH_FAILED`. -/
def tokenRefreshFailedText : String := "Failed to refresh OAuth2 token"

def timedOutText : String := "Sync timed out after 3600 seconds"

/-- A marker line below what the log holds already. -/
def appendLog (log : Option String) (line : String) : String :=
  if given log then log.getD "" ++ "\n" ++ line else line

/-- The reason that `_pause_account` gives for a kind. -/
def pauseReasonOf (kind : String) : String :=
  if kind = "budget_paused" then "budget"
  else if kind = "throttled" then "throttle"
  else "transient"

namespace Write

def job : Write → SyncJob → SyncJob
  | .blocked log now, j => { j with status := .failed, log := some log, completedAt := some now }
  | .hostBlocked error now, j =>
      { j with status := .failed, log := some s!"Sync blocked: {error}", completedAt := some now }
  | .start now, j => { j with status := .running, startedAt := some now }
  | .credentials _, j | .totals _ _, j => j
  | .tokenRefreshFailed _ now, j =>
      { j with status := .failed, log := some tokenRefreshFailedText, completedAt := some now }
  | .result code output logPath now, j =>
      { j with exitCode := code, log := some output, logPath := logPath, completedAt := some now }
  | .signal name, j => { j with signal := some name }
  | .completed _, j => { j with status := .completed }
  | .paused kind _, j => { j with status := .failed, failureKind := some kind }
  | .capped message output, j =>
      { j with status := .failed, failureKind := some "error",
               log := some (appendLog (some output) message) }
  | .stopped _, j => { j with status := .failed }
  | .errored _, j => { j with status := .failed, failureKind := some "error" }
  | .timedOut now, j =>
      { j with status := .failed, log := some timedOutText, completedAt := some now,
               failureKind := some "error" }
  | .crashed text now, j =>
      { j with status := .failed, log := some text, completedAt := some now,
               failureKind := some "error" }

def account : Write → Account → Account
  | .blocked _ _, a | .result .., a | .signal _, a => a
  | .hostBlocked error _, a => { a with syncState := .error, lastError := some error }
  | .start _, a => { a with syncState := .syncing }
  | .credentials value, a => { a with credentials := some value }
  | .tokenRefreshFailed terminal _, a =>
      { a with syncState := if terminal = true then .needsReauth else .error,
               lastError := some tokenRefreshFailedText, syncPausedUntil := none,
               pauseReason := none }
  | .totals messages folders, a =>
      { a with initialSyncTotalMessages := some messages, initialSyncTotalFolders := some folders }
  | .completed now, a =>
      { a with syncState := .idle, lastSyncAt := some now, lastError := none,
               initialSyncCompletedAt := a.initialSyncCompletedAt.or (some now),
               syncPausedUntil := none, pauseReason := none }
  | .paused kind resumeAt, a =>
      { a with syncState := .idle, lastError := none, pauseReason := some (pauseReasonOf kind),
               syncPausedUntil := some resumeAt }
  | .capped message _, a =>
      { a with syncState := .error, lastError := some message, syncPausedUntil := none,
               pauseReason := none }
  | .stopped output, a | .errored output, a =>
      { a with syncState := .error, lastError := some output, syncPausedUntil := none,
               pauseReason := none }
  | .timedOut _, a => { a with syncState := .error, lastError := some timedOutText }
  | .crashed text _, a => { a with syncState := .error, lastError := some text }

/-- The row of the account may be gone. -/
def apply (jobId accountId : Id) (w : Write) (db : Db) : Db :=
  { db with
    syncJobs := db.syncJobs.modify jobId w.job
    accounts := db.accounts.modify accountId w.account }

/-- Ends the job. -/
def closes : Write → Bool
  | .start _ | .credentials _ | .totals _ _ | .result .. | .signal _ => false
  | _ => true

/-- Concerns neither the outcome of the job nor the state of the account. -/
def neutral : Write → Bool
  | .credentials _ | .totals _ _ => true
  | _ => false

/-! ## What a write does to a status -/

variable (w : Write) (j : SyncJob) (a : Account)

@[simp] theorem job_accountId : (w.job j).accountId = j.accountId := by
  cases w <;> rfl

@[simp] theorem job_requestedAt : (w.job j).requestedAt = j.requestedAt := by
  cases w <;> rfl

theorem job_status_of_closes (h : w.closes = true) :
    (w.job j).status = .completed ∨ (w.job j).status = .failed := by
  cases w <;> simp_all [closes, job]

theorem job_status_cases :
    w.closes = true ∧ ((w.job j).status = .completed ∨ (w.job j).status = .failed) ∨
      (∃ now, w = .start now) ∧ (w.job j).status = .running ∨
      w.closes = false ∧ (∀ now, w ≠ .start now) ∧ (w.job j).status = j.status := by
  cases w <;> simp [closes, job]

/-- Only a block before the start ends a job and leaves the state of the account. -/
theorem account_syncState_cases :
    w.closes = true ∧ (∀ log now, w ≠ .blocked log now) ∧ (w.account a).syncState ≠ .syncing ∨
      (∃ now, w = .start now) ∧ (w.account a).syncState = .syncing ∨
      (w.closes = false ∨ ∃ log now, w = .blocked log now) ∧ (∀ now, w ≠ .start now) ∧
        (w.account a).syncState = a.syncState := by
  cases w <;> simp [closes, account]
  split <;> simp

@[simp] theorem account_migrating : (w.account a).migrating = a.migrating := by
  cases w <;> rfl

theorem closes_of_neutral (h : w.neutral = true) : w.closes = false := by
  cases w <;> simp_all [neutral, closes]

theorem job_of_neutral (h : w.neutral = true) : w.job j = j := by
  cases w <;> simp_all [neutral, job]

end Write

end MailFallback
