import MailFallback.Library.Pattern
import MailFallback.Library.Query
import MailFallback.Sync.Actors

/-! # The status of a mailbox

`mailbox_status`: how every surface reads the health of a mailbox off the columns of its
account and its latest finished job, and how the history reads a job. -/

namespace MailFallback.Status

open Storage Query

inductive Tone where
  | ok | active | attention | error | muted
  deriving DecidableEq, Repr

inductive MailboxState where
  | migrating | suspended | signInNeeded | firstSync | syncing | paused | stopped | error
  | initialSync | initialStalled | waiting | stale | current
  deriving DecidableEq, Repr

inductive NextAction where
  | reconnect | updatePassword | retry | syncNow
  deriving DecidableEq, Repr

def staleAfter : Time := 7 * day

/-! ## The cause of an error -/

section Causes

open Pattern

/-- The texts of a category, and what the owner is told. -/
structure ErrorCategory where
  ignoreCase : Bool := true
  choices : List (List Piece)
  category : String
  message : String

/-- The first that matches counts. -/
def errorCategories : List ErrorCategory := [
  { choices := [[.text "exceeded the ", .word, .text " runtime cap"]]
    category := "runtime_cap"
    message := "The sync ran past its time limit and was stopped. " ++
      "The next sync continues where it left off." },
  { choices := [[.text "Sync timed out after"]]
    category := "timeout"
    message := "The sync took too long and was stopped. The next sync continues where it left off." },
  { choices := [[.text "private/internal addresses are not allowed"]]
    category := "internal_host"
    message :=
      "The IMAP host points to a private network address, which MFB refuses to connect to." },
  { choices := [[.text "Host could not be resolved"]]
    category := "unresolved_host"
    message := "Couldn't find the IMAP host." },
  { ignoreCase := false
    choices := [[.text tokenRefreshFailedText]]
    category := "token_refresh"
    message := "Couldn't refresh the sign-in. It retries on the next sync." },
  { choices := [[.text "AUTHENTICATIONFAILED"], [.text "LOGIN failed"],
      [.text "Invalid credentials"], [.text "authentication failed"]]
    category := "auth"
    message := "The server rejected the sign-in." },
  { choices := [[.text "Connection refused"], [.text "could not connect"],
      [.text "connection timed out"], [.text "getaddrinfo"], [.text "Name or service not known"]]
    category := "network"
    message := "Couldn't reach the mail server." },
  { choices := [[.text "SSL"], [.text "TLS error"], [.text "certificate"], [.text "handshake"]]
    category := "tls"
    message := "Couldn't set up an encrypted connection." },
  { choices := [[.text "Permission denied"], [.text "No space"], [.text "disk full"],
      [.text "I/O error"], [.text "read-only"]]
    category := "disk"
    message := "Couldn't write to the mail store." },
  { choices := [[.text "Too many connections"], [.text "OVERQUOTA"], [.text "throttl"]]
    category := "rate_limit"
    message := "The server is limiting connections." },
  { choices := [[.text "not configured"], [.text "configuration"], [.text "syntax error"]]
    category := "config"
    message := "The sync configuration has an error." },
  { choices := [[.text "protocol error"], [.text "mailbox ", .line, .text " unavailable"],
      [.text "BYE ", .line, .text " closing"]]
    category := "server"
    message := "The mail server returned an error." }]

def unknownErrorMessage : String := "The last sync failed."

/-- `_classify_error`: the category and its message. -/
def classifyError (text : String) : String × String :=
  match errorCategories.find? fun e => search e.ignoreCase e.choices text with
  | some e => (e.category, e.message)
  | none => ("unknown", unknownErrorMessage)

def describeError (text : Option String) (appPassword : Bool) : String :=
  match text with
  | none => unknownErrorMessage
  | some text =>
      if text = "" then unknownErrorMessage
      else
        let (category, message) := classifyError text
        if category = "auth" ∧ appPassword = true then "The server rejected the password."
        else message

def isCredentialError (lastError : Option String) : Bool :=
  given lastError && decide ((classifyError (lastError.getD "")).1 = "auth")

end Causes

/-! ## The columns of an account -/

structure MailboxStatus where
  state : MailboxState
  tone : Tone
  label : String
  detail : Option String := none
  action : Option NextAction := none
  needsAttention : Bool := false
  signedIn : Bool
  badge : String
  icon : String
  spin : Bool := false
  lastSuccessAt : Option Time
  resumesAt : Option Time
  deriving DecidableEq, Repr

/-- The next moment a schedule fires, after a previous one, from a moment on; `none` also
when the schedule cannot be read. -/
abbrev FireTimes := String → Option Time → Time → Option Time

/-- Twice the interval of the schedule, and a week at least. -/
def staleThreshold (fire : FireTimes) (schedule : Option String) (now : Time) : Time :=
  let schedule := PyString.strip (schedule.getD "")
  if schedule = "" then staleAfter
  else
    match fire schedule none now with
    | none => staleAfter
    | some first =>
        match fire schedule (some first) first with
        | none => staleAfter
        | some second => max staleAfter (2 * (second - first))

section Account

variable (fire : FireTimes) (account : Account) (lastJob : Option SyncJob) (now : Time)

/-- The non-terminal failure to refresh the token, as the columns tell it. -/
def tokenRefresh : Bool :=
  decide (account.syncState = .error) && decide (account.authType = .oauth2) &&
    decide (account.lastError = some tokenRefreshFailedText)

def signedIn : Bool :=
  account.isAuthenticated && decide (account.syncState ≠ .needsReauth) && !tokenRefresh account

def isRefreshRetry : Bool := tokenRefresh account && account.isAuthenticated

def signInNeverCompleted : Bool := !account.isAuthenticated && account.lastSyncAt.isNone

def signInName : String :=
  if account.provider = "google" then "Google sign-in"
  else if account.provider = "microsoft" then "Microsoft sign-in"
  else "Sign-in"

def signInDetail : String :=
  if isRefreshRetry account = true then
    "Couldn't refresh the sign-in. It retries on the next sync; reconnect if this keeps happening."
  else if signInNeverCompleted account = true then
    signInName account ++ " not completed. Connect to start syncing."
  else signInName account ++ " expired. Reconnect to resume syncing."

/-- `account.pause_reason or None` -/
def pauseReason : Option String := account.pauseReason.filter fun reason => reason ≠ ""

/-- Only a pause that has yet to lift has a resume time. -/
def resumesAt : Option Time :=
  if (pauseReason account).isSome = true then
    account.syncPausedUntil.filter fun t => decide (now < t)
  else none

def jobStarted : Bool := lastJob.any fun job => job.startedAt.isSome

def started (liveProgress : Bool) : Bool :=
  liveProgress || account.initialSyncTotalMessages.isSome || jobStarted lastJob

def lastActivity : Option Time :=
  match lastJob with
  | some job =>
      if job.startedAt.isSome = true then job.completedAt.or job.startedAt
      else some account.createdAt
  | none => some account.createdAt

def manualOnly : Bool := decide (PyString.strip (account.syncSchedule.getD "") = "")

/-- Older than the threshold. -/
def old (t : Option Time) : Bool :=
  t.any fun t => decide (t < now - staleThreshold fire account.syncSchedule now)

def longUnsynced : Bool :=
  !manualOnly account &&
    if account.initialSyncCompletedAt.isSome = true then old fire account now account.lastSyncAt
    else old fire account now (lastActivity account lastJob)

/-- A stop by a person writes the log of the job into the account. -/
def stoppedJob : Bool :=
  lastJob.any fun job => decide (job.status = .failed) && given job.signal &&
    job.failureKind.isNone && decide (account.lastError = job.log)

/-- What the agent API refuses. -/
def pauseBlocksTrigger : Bool := account.syncPausedUntil.isSome || account.pauseReason.isSome

def pauseTooltip (reason : String) : String :=
  if reason = "budget" then "Daily sync budget reached"
  else if reason = "throttle" then "Provider throttled"
  else if reason = "transient" then "Connection lost — retrying"
  else if reason = "interrupted" then "Interrupted by a restart. It resumes on its own shortly."
  else "Paused for now. It resumes on its own."

def make (state : MailboxState) (tone : Tone) (label badge icon : String) : MailboxStatus where
  state := state
  tone := tone
  label := label
  signedIn := signedIn account
  badge := badge
  icon := icon
  lastSuccessAt := account.lastSyncAt
  resumesAt := resumesAt account now

/-- Whole days, rounded down. -/
def days (t : Time) : ℤ := t / day

/-- Nothing has been copied for too long. -/
def unsyncedStatus (liveProgress : Bool) : MailboxStatus :=
  let threshold := staleThreshold fire account.syncSchedule now
  let action := if pauseBlocksTrigger account = true then none else some NextAction.syncNow
  if account.initialSyncCompletedAt.isNone = true then
    if started account lastJob liveProgress = true then
      { make account now .initialStalled .attention "Initial sync stalled" "stamp-attention"
          "alert-triangle" with
        action := action
        detail := some
          s!"The initial sync has not progressed for over {days threshold} days."
        needsAttention := true }
    else
      { make account now .initialStalled .attention "Never synced" "stamp-attention"
          "alert-triangle" with
        action := action
        detail := some
          s!"This mailbox has never synced (added {days (now - account.createdAt)} days ago)."
        needsAttention := true }
  else
    { make account now .stale .attention "Out of date" "stamp-attention" "clock" with
      action := action
      detail := some s!"Last sync was {days (now - account.lastSyncAt.getD 0)} days ago."
      needsAttention := true }

/-- The precedence of the conditions. -/
def resolveMailboxStatus (liveProgress ownerMigrating : Bool) : MailboxStatus :=
  let isError := account.syncState = .error
  let initialDone := account.initialSyncCompletedAt.isSome
  let stopped := stoppedJob account lastJob
  -- Identity and permission come first.
  if account.migrating = true ∨ ownerMigrating = true then
    make account now .migrating .active "Migrating" "stamp-active" "loader"
  else if account.suspended = true then
    make account now .suspended .muted "Suspended" "stamp-muted" "pause-circle"
  else if signedIn account = false then
    { make account now .signInNeeded .attention "Sign-in needed" "stamp-attention" "key-round" with
      action := some .reconnect
      detail := some (signInDetail account)
      needsAttention := true }
  -- A sync in progress.
  else if account.syncState = .syncing then
    if initialDone = false then
      { make account now .firstSync .active "Initial sync" "stamp-active" "loader" with
        spin := true
        detail := some "First full sync incomplete" }
    else make account now .syncing .active "Syncing" "stamp-active" "loader"
  -- How the last run ended.
  else if isError ∧ stopped = true ∧ longUnsynced fire account lastJob now = false then
    { make account now .stopped .muted "Stopped" "stamp-muted" "circle-slash" with
      detail := some (if manualOnly account = true then
          "The last sync was stopped. Start a sync when you're ready."
        else "The last sync was stopped. The next scheduled sync runs normally.") }
  else if isError ∧ pauseReason account = none ∧ stopped = false then
    { make account now .error .error "Sync failed" "stamp-error" "alert-circle" with
      action :=
        if account.authType = .appPassword ∧ isCredentialError account.lastError = true then
          some .updatePassword
        else if pauseBlocksTrigger account = true then none
        else some .retry
      detail := some (describeError account.lastError (decide (account.authType = .appPassword)))
      needsAttention := true }
  -- Has anything been copied lately? This beats a pause.
  else if longUnsynced fire account lastJob now = true then
    unsyncedStatus fire account lastJob now liveProgress
  else
    match pauseReason account with
    | some reason =>
        { make account now .paused .active "Paused" "stamp-active" "pause-circle" with
          detail := some (pauseTooltip reason) }
    | none =>
        if initialDone = false then
          if started account lastJob liveProgress = true then
            { make account now .initialSync .active "Initial sync" "stamp-active" "download" with
              detail := some "First full sync incomplete" }
          else
            make account now .waiting .muted "Waiting for first sync" "stamp-muted" "clock"
        else make account now .current .ok "Up to date" "stamp-ok" "check-circle"

end Account

/-! ## The outcome of a job -/

structure JobOutcome where
  tone : Tone
  label : String
  badge : String
  icon : String
  spin : Bool := false
  deriving DecidableEq, Repr

/-- A job failed by one of the checks before the start. -/
def blockedLogs : List String := [
  "Sync blocked: account is suspended",
  "Sync blocked: account not authenticated",
  "Sync blocked: account migration in progress",
  "Sync blocked: user migration in progress"]

/-- `_PAUSE_KINDS` -/
def pauseKind? (kind : String) : Option String :=
  if kind = "budget_paused" then some "paused (daily limit)"
  else if kind = "throttled" then some "paused (provider throttling)"
  else if kind = "transient" then some "paused (temporary error)"
  else if kind = "interrupted" then some "interrupted"
  else none

def failedOutcome : JobOutcome := ⟨.error, "failed", "stamp-error", "x-circle", false⟩

def resolveJobOutcome (job : SyncJob) : JobOutcome :=
  match job.status with
  | .completed => ⟨.ok, "synced", "stamp-ok", "check-circle", false⟩
  | .running => ⟨.active, "syncing", "stamp-active", "loader", true⟩
  | .pending | .cancelled => ⟨.muted, "queued", "stamp-muted", "clock", false⟩
  | .failed =>
      match job.failureKind with
      | none =>
          if given job.signal = true then ⟨.muted, "stopped", "stamp-muted", "circle-slash", false⟩
          else if job.log.any (blockedLogs.contains ·) = true then
            ⟨.muted, "skipped", "stamp-muted", "circle-slash", false⟩
          else if job.log = some tokenRefreshFailedText then
            ⟨.attention, "sign-in failed", "stamp-attention", "key-round", false⟩
          else failedOutcome
      | some kind =>
          match pauseKind? kind with
          | some label => ⟨.active, label, "stamp-active", "pause-circle", false⟩
          | none => failedOutcome

/-! ## All mailboxes of a page -/

section Many

variable (db : Db) (accountIds : List Id)

def JobStatus.finished : JobStatus → Bool
  | .completed | .failed | .cancelled => true
  | .pending | .running => false

/-- The jobs that were started and have ended. -/
def finishedJobs : List (Id × SyncJob) :=
  db.syncJobs.rows.filter fun row => decide (row.2.accountId ∈ accountIds) &&
    JobStatus.finished row.2.status && row.2.completedAt.isSome && row.2.startedAt.isSome

/-- `latest_finished_jobs_by_account`; of jobs that ended at the same moment any one. -/
def latestFinishedJobs (order : Unordered (Id × SyncJob)) (accountId : Id) : Option SyncJob :=
  let latest (accountId : Id) : Option Time :=
    (((finishedJobs db accountIds).filter fun row => decide (row.2.accountId = accountId)).filterMap
      fun row => row.2.completedAt).max?
  let rows := order.list ((finishedJobs db accountIds).filter fun row =>
    decide (row.2.completedAt = latest row.2.accountId) : List (Id × SyncJob))
  (rows.find? fun row => decide (row.2.accountId = accountId)).map Prod.snd

/-- `accounts_with_migrating_owner` -/
def accountsWithMigratingOwner : List Id :=
  accountIds.filter fun accountId => (db.accounts.get? accountId).any fun account =>
    account.owners.any fun userId => (db.users.get? userId).any (·.migrating)

/-- The entry point of every surface; `liveProgress` is what the sampler has in memory. -/
def resolveMany (fire : FireTimes) (order : Unordered (Id × SyncJob)) (liveProgress : Id → Bool)
    (accounts : List (Id × Account)) (now : Time) (jobs : Option (Id → Option SyncJob)) :
    List (Id × MailboxStatus) :=
  let ids := accounts.map Prod.fst
  let jobs := jobs.getD (latestFinishedJobs db ids order)
  let migratingOwner := accountsWithMigratingOwner db ids
  accounts.map fun row =>
    (row.1, resolveMailboxStatus fire row.2 (jobs row.1) now (liveProgress row.1)
      (decide (row.1 ∈ migratingOwner)))

end Many

end MailFallback.Status
