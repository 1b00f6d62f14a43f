import MailFallback.Library.Program
import MailFallback.Sync.Writes
import Mathlib.Algebra.Group.Int.Defs
import Mathlib.Data.List.Infix

/-! # The sync worker

`execute_sync_job` as a program over one database session, the provider, the disk and the
`mbsync` process it starts. What the session reads after a commit it reads anew. Failing
database commits and the notifications are left out. -/

namespace MailFallback

open Storage Effects

structure SyncSettings where
  debug : Bool := false
  /-- `sync_job_max_runtime_s` as the messages print it. -/
  jobMaxRuntime : String := "21600"
  stallGrace : Time := 900000000
  stallThreshold : Time := 600000000

/-! ## Classification and back-off -/

def transientSignatures : List String :=
  ["Connection reset", "unexpected EOF", "Broken pipe", "timed out", ": timeout"]

def throttleSignatures (provider : String) : List String :=
  if provider = "google" then ["[OVERQUOTA]", "Too many simultaneous connections"]
  else if provider = "microsoft" then ["Request is throttled", "[THROTTLED]", "server busy"]
  else []

def genericThrottle : List String := ["[OVERQUOTA]", "[THROTTLED]"]

/-- Python's `str.lower`, as far as letters of ASCII come out of it. -/
def lowerChar (c : Char) : List Char :=
  if c = '\u212a' then ['k'] else if c = '\u0130' then ['i', '\u0307'] else [c.toLower]

def lower (s : List Char) : List Char := s.flatMap lowerChar

/-- Response codes in brackets match in their case, prose in any. -/
def signatureMatches (logTail signature : String) : Bool :=
  if signature.toList.head? = some '[' then decide (signature.toList <:+: logTail.toList)
  else decide (lower signature.toList <:+: lower logTail.toList)

def classifyFailure (logTail provider : String) : Option String :=
  if logTail = "" then none
  else if (throttleSignatures provider ++ genericThrottle).any (signatureMatches logTail) then
    some "throttled"
  else if transientSignatures.any (signatureMatches logTail) then some "transient"
  else none

/-- `output[-4096:]` -/
def logTail (output : String) : String :=
  String.ofList (output.toList.drop (output.toList.length - 4096))

def second : Time := 1000000

def day : Time := 86400 * second

/-- The next midnight and the jitter of up to half an hour. -/
def nextBudgetResume (now jitter : Time) : Time := (now / day + 1) * day + jitter

def backoff (base cap : Time) (attempt : ℕ) : Time :=
  min (base * 2 ^ min (max 1 attempt - 1) 12) cap

def nextThrottleResume (now : Time) (attempt : ℕ) (jitter : Time) : Time :=
  now + backoff (4 * 3600 * second) (24 * 3600 * second) attempt + jitter

def nextTransientResume (now : Time) (attempt : ℕ) (jitter : Time) : Time :=
  now + backoff (2 * 60 * second) (30 * 60 * second) attempt + jitter

/-- Today's jobs of the account with that kind, and this one. -/
def attemptToday (db : Db) (accountId : Id) (kind : String) (now : Time) : ℕ :=
  (db.syncJobs.rows.filter fun row =>
    decide (row.2.accountId = accountId) && decide (row.2.failureKind = some kind) &&
      row.2.startedAt.any fun started => now / day * day ≤ started).length + 1

/-! ## Operations -/

inductive SyncExc where
  | error (text : String)
  | timeoutExpired
  | rowDeleted
  deriving DecidableEq, Repr

/-- Python's `str(exc)`. -/
def SyncExc.text : SyncExc → String
  | .error text => text
  | .timeoutExpired => "Command timed out"
  | .rowDeleted => "Instance has been deleted, or its row is otherwise not present."

/-- What the provider says to a refresh token. -/
inductive Refreshed where
  | rejected (terminal : Bool)
  | token (accessToken : String) (credentials : String)
  deriving DecidableEq, Repr

inductive SyncOp where
  | view
  | stage (accountId : Id) (w : Write)
  | commit
  /-- Reads the columns of the account that a commit has expired. -/
  | reloadAccount (accountId : Id)
  | refreshJob
  | now
  | jitter
  | validateHost (host : String)
  | decryptCredentials (credentials : String)
  | refreshOauthToken (credentials : String)
  | writeTokenFile (token : String)
  | countUpstreamMessages
  | gentleExtraConfig (extra : Option String)
  | generateMbsyncrc (extra : Option String)
  | writeConfig (content : String)
  | makeMaildir (path : String)
  | inboxExcluded (extra : Option String)
  | makeLogDir
  | startSampler
  | openLog
  | stopRequested
  /-- `subprocess.Popen` -/
  | spawn (accountId : Id)
  | register
  | stopSyncJob
  | readUntilDeadline
  | markDeadline
  | wait
  | kill
  | waitBriefly
  | reconcileRemovedFolders
  | stopSampler
  | unregister
  | closeLog
  | takeBudgetStop
  | takeSignal
  | takeDeadline
  | parseOutput (output : String)
  | cleanupOldJobs (accountId : Id)
  | discardMarkers
  | unlinkConfig
  | tokenFileExists
  | unlinkToken

/-- `stopRequested` tells of a stop by the budget and of one by a person. A wait gives
`none` when it times out. -/
def SyncAns : SyncOp → Type
  | .view => Db
  | .reloadAccount _ => Account
  | .refreshJob => SyncJob
  | .now | .jitter => Time
  | .validateHost _ | .takeSignal | .takeDeadline => Option String
  | .decryptCredentials _ => String × Option String
  | .refreshOauthToken _ => Refreshed
  | .countUpstreamMessages => Option (ℕ × ℕ)
  | .gentleExtraConfig _ | .generateMbsyncrc _ => String
  | .inboxExcluded _ | .makeLogDir | .takeBudgetStop | .tokenFileExists => Bool
  | .stopRequested => Bool × Bool
  | .readUntilDeadline => List String × Bool
  | .wait | .waitBriefly => Option ℤ
  | .reconcileRemovedFolders => List String × List String
  | _ => Unit

/-- The operations whose exceptions come out of them. -/
def SyncOp.fallible : SyncOp → Bool
  | .reloadAccount _ | .refreshJob | .decryptCredentials _ | .refreshOauthToken _ | .writeTokenFile _
  | .countUpstreamMessages | .gentleExtraConfig _ | .generateMbsyncrc _ | .writeConfig _
  | .makeMaildir _ | .inboxExcluded _ | .makeLogDir | .startSampler | .openLog | .spawn _
  | .readUntilDeadline | .reconcileRemovedFolders | .closeLog | .parseOutput _
  | .cleanupOldJobs _ | .unlinkConfig | .unlinkToken => true
  | _ => false

abbrev SyncTask (α : Type) := Prog SyncOp SyncAns SyncExc α

namespace SyncTask

def op (o : SyncOp) : SyncTask (SyncAns o) := Prog.op o

def view : SyncTask Db := op .view
def stage (accountId : Id) (w : Write) : SyncTask Unit := op (.stage accountId w)
def commit : SyncTask Unit := op .commit
def reloadAccount (accountId : Id) : SyncTask Account := op (.reloadAccount accountId)
def refreshJob : SyncTask SyncJob := op .refreshJob
def now : SyncTask Time := op .now
def jitter : SyncTask Time := op .jitter
def validateHost (host : String) : SyncTask (Option String) := op (.validateHost host)
def decryptCredentials (c : String) : SyncTask (String × Option String) := op (.decryptCredentials c)
def refreshOauthToken (c : String) : SyncTask Refreshed := op (.refreshOauthToken c)
def writeTokenFile (token : String) : SyncTask Unit := op (.writeTokenFile token)
def countUpstreamMessages : SyncTask (Option (ℕ × ℕ)) := op .countUpstreamMessages
def gentleExtraConfig (extra : Option String) : SyncTask String := op (.gentleExtraConfig extra)
def generateMbsyncrc (extra : Option String) : SyncTask String := op (.generateMbsyncrc extra)
def writeConfig (content : String) : SyncTask Unit := op (.writeConfig content)
def makeMaildir (path : String) : SyncTask Unit := op (.makeMaildir path)
def inboxExcluded (extra : Option String) : SyncTask Bool := op (.inboxExcluded extra)
def makeLogDir : SyncTask Bool := op .makeLogDir
def startSampler : SyncTask Unit := op .startSampler
def openLog : SyncTask Unit := op .openLog
def stopRequested : SyncTask (Bool × Bool) := op .stopRequested
def spawn (accountId : Id) : SyncTask Unit := op (.spawn accountId)
def register : SyncTask Unit := op .register
def stopSyncJob : SyncTask Unit := op .stopSyncJob
def readUntilDeadline : SyncTask (List String × Bool) := op .readUntilDeadline
def markDeadline : SyncTask Unit := op .markDeadline
def wait : SyncTask (Option ℤ) := op .wait
def kill : SyncTask Unit := op .kill
def waitBriefly : SyncTask (Option ℤ) := op .waitBriefly
def reconcileRemovedFolders : SyncTask (List String × List String) := op .reconcileRemovedFolders
def stopSampler : SyncTask Unit := op .stopSampler
def unregister : SyncTask Unit := op .unregister
def closeLog : SyncTask Unit := op .closeLog
def takeBudgetStop : SyncTask Bool := op .takeBudgetStop
def takeSignal : SyncTask (Option String) := op .takeSignal
def takeDeadline : SyncTask (Option String) := op .takeDeadline
def parseOutput (output : String) : SyncTask Unit := op (.parseOutput output)
def cleanupOldJobs (accountId : Id) : SyncTask Unit := op (.cleanupOldJobs accountId)
def discardMarkers : SyncTask Unit := op .discardMarkers
def unlinkConfig : SyncTask Unit := op .unlinkConfig
def tokenFileExists : SyncTask Bool := op .tokenFileExists
def unlinkToken : SyncTask Unit := op .unlinkToken

end SyncTask

open SyncTask

/-! ## Before the start -/

/-- The reasons not to start, in the order they are checked. -/
def refusal (db : Db) (account : Account) : Option String :=
  if account.suspended = true then some "Sync blocked: account is suspended"
  else if account.isAuthenticated = false then some "Sync blocked: account not authenticated"
  else if account.migrating = true then some "Sync blocked: account migration in progress"
  else if (account.owners.any fun o => (db.users.get? o).any (·.migrating)) = true then
    some "Sync blocked: user migration in progress"
  else none

/-- Assigns the fields of one ending with the time it is reached, and commits. -/
def closeWith (accountId : Id) (w : Time → Write) : SyncTask Unit := do
  let time ← now
  stage accountId (w time)
  commit

/-! ## The set-up, before the `try` -/

/-- The access token of an OAuth account; `none` when it cannot be had and the job has been
closed. -/
def oauthToken (accountId : Id) (credentials : String) : SyncTask (Option String) := do
  let refreshed ← refreshOauthToken credentials
  match refreshed with
  | .rejected terminal => do
      closeWith accountId (.tokenRefreshFailed terminal)
      pure none
  | .token accessToken stored => do
      stage accountId (.credentials stored)
      commit
      if accessToken = "" then do
        closeWith accountId (.tokenRefreshFailed false)
        pure none
      else pure (some accessToken)

/-- Whether a token file was written; `none` when the job has been closed. -/
def authenticate (accountId : Id) (account : Account) : SyncTask (Option Bool) :=
  if given account.credentials = true then do
    let (credentials, upgraded) ← decryptCredentials (account.credentials.getD "")
    match upgraded with
    | some stored => do
        stage accountId (.credentials stored)
        commit
    | none => pure ()
    if account.authType = .oauth2 then do
      let token ← oauthToken accountId credentials
      match token with
      | none => pure none
      | some token => do
          writeTokenFile token
          pure (some true)
    else pure (some false)
  else pure (some false)

/-- What `authenticate` does with the decrypted credentials. -/
def authenticateWith (accountId : Id) (account : Account) (credentials : String) :
    SyncTask (Option Bool) :=
  if account.authType = .oauth2 then do
    let token ← oauthToken accountId credentials
    match token with
    | none => pure none
    | some token => do
        writeTokenFile token
        pure (some true)
  else pure (some false)

/-- The total of the provider is a courtesy: its failure is swallowed. -/
def statusPass (accountId : Id) : SyncTask Unit :=
  (do
    let counts ← countUpstreamMessages
    match counts with
    | some (messages, folders) => do
        stage accountId (.totals messages folders)
        commit
    | none => pure ()).handle fun _ => pure ()

/-- The configuration of the run and the account it is for. -/
def prepareConfig (accountId : Id) : SyncTask (Account × String) := do
  let account ← reloadAccount accountId
  if account.initialSyncCompletedAt = none then do
    statusPass accountId
    let account ← reloadAccount accountId
    let extra ← gentleExtraConfig account.extraConfig
    let content ← generateMbsyncrc (some extra)
    pure (account, content)
  else do
    let content ← generateMbsyncrc account.extraConfig
    pure (account, content)

/-! ## The runs of mbsync -/

/-- Waits for a process whose output has ended, and kills it when it does not exit. -/
def awaitProcess : SyncTask (Option ℤ) := do
  let code ← wait
  match code with
  | some code => pure (some code)
  | none => do
      kill
      waitBriefly

/-- Reads the output until it ends or the runtime cap is reached. -/
def readAndAwait : SyncTask (Option ℤ × List String) := do
  let (lines, expired) ← readUntilDeadline
  if expired = true then do
    markDeadline
    stopSyncJob
  else pure ()
  let code ← awaitProcess
  pure (code, lines)

/-- One invocation, from its start to its exit. -/
def invoke (accountId : Id) : SyncTask (Option ℤ × List String) := do
  spawn accountId
  register
  let stops ← stopRequested
  if stops.1 || stops.2 then stopSyncJob else pure ()
  readAndAwait

/-- The remaining invocations, after one that exited with zero. -/
def runRest (accountId : Id) (total : ℕ) :
    ℕ → Option ℤ → List String → SyncTask (Option ℤ × List String)
  | 0, code, log => pure (code, log)
  | left + 1, code, log => do
      let stops ← stopRequested
      if stops.1 = true then pure (code, log)
      else do
        let marker := s!"--- mbsync invocation {total - left}/{total}: full pass ---"
        let (code, lines) ← invoke accountId
        if code = some 0 then runRest accountId total left code (log ++ marker :: lines)
        else pure (code, log ++ marker :: lines)

/-- `_run_invocations`, which appends to the running log. -/
def runInvocations (accountId : Id) : ℕ → List String → SyncTask (Option ℤ × List String)
  | 0, log => pure (some 1, log)
  | count + 1, log => do
      let (code, lines) ← invoke accountId
      if code = some 0 then runRest accountId (count + 1) count code (log ++ lines)
      else pure (code, log ++ lines)

def joinLines (lines : List String) : String := "\n".intercalate lines

def retryMarker : String := "--- retry after quarantining folders removed from the Source ---"

/-- The first pass, and a second one after folders that are gone upstream were moved away. -/
def runTwice (account : Account) (accountId : Id) (count : ℕ) :
    SyncTask (Option ℤ × String) := do
  let (code, log) ← runInvocations accountId count []
  let stops ← stopRequested
  if code ≠ some 0 ∧ stops.1 = false ∧ stops.2 = false ∧
      classifyFailure (logTail (joinLines log)) account.provider = none then do
    let (quarantined, notes) ← SyncTask.reconcileRemovedFolders
    let stops ← stopRequested
    if quarantined ≠ [] ∧ stops.2 = false then do
      let (code, log) ← runInvocations accountId count (log ++ notes ++ [retryMarker])
      pure (code, joinLines log)
    else pure (code, joinLines (log ++ notes))
  else pure (code, joinLines log)

/-- The body of the inner `try`, which opens the log on the disk first. -/
def runAndRetry (account : Account) (accountId : Id) (count : ℕ) (logToDisk : Bool) :
    SyncTask (Option ℤ × String) := do
  if logToDisk = true then openLog else pure ()
  runTwice account accountId count

/-- The clean-up after the runs. -/
def endRuns (logToDisk : Bool) : SyncTask Unit := do
  stopSampler
  unregister
  if logToDisk = true then closeLog else pure ()

/-! ## The ending -/

def pauseFor (accountId : Id) (kind : String) (resume : Time → ℕ → Time → Time) :
    SyncTask Unit := do
  let time ← now
  let today ← now
  let db ← view
  let jitter ← jitter
  stage accountId (.paused kind (resume time (attemptToday db accountId kind today) jitter))

/-- What the job and the account become: the marker of the budget beats the exit code, and
that beats the signal. -/
def conclude (account : Account) (accountId : Id) (code : Option ℤ) (output : String)
    (budgetStopped : Bool) (signal : Option String) : SyncTask Unit := do
  let cap ← takeDeadline
  parseOutput output
  if code = some 0 ∧ budgetStopped = false then do
    let time ← now
    stage accountId (.completed time)
    commit
    (SyncTask.cleanupOldJobs accountId).handle fun _ => pure ()
  else if budgetStopped = true then do
    let time ← now
    let jitter ← jitter
    stage accountId (.paused "budget_paused" (nextBudgetResume time jitter))
  else if given signal = true then
    match cap with
    | some cap => stage accountId (.capped s!"Sync exceeded the {cap}s runtime cap" output)
    | none => stage accountId (.stopped output)
  else
    match classifyFailure (logTail output) account.provider with
    | some "throttled" => pauseFor accountId "throttled" nextThrottleResume
    | some "transient" => pauseFor accountId "transient" nextTransientResume
    | _ => stage accountId (.errored output)

/-- The run has ended and nobody else has closed the job. -/
def finalise (account : Account) (accountId : Id) (code : Option ℤ) (output : String)
    (logPath : Option String) (budgetStopped : Bool) : SyncTask Unit := do
  let time ← now
  stage accountId (.result code output logPath time)
  let signal ← takeSignal
  match signal with
  | some name => stage accountId (.signal name)
  | none => pure ()
  conclude account accountId code output budgetStopped signal

/-- The runs with the sampler beside them, and the ending unless somebody closed the job. -/
def runSampled (account : Account) (accountId jobId : Id) (count : ℕ) : SyncTask Unit := do
  let logToDisk ← makeLogDir
  startSampler
  let (code, output) ← (runAndRetry account accountId count logToDisk).ensure (endRuns logToDisk)
  let budgetStopped ← takeBudgetStop
  let job ← refreshJob
  if job.status = .running then
    finalise account accountId code output (if logToDisk = true then some s!"{jobId}.log" else none)
      budgetStopped
  else pure ()

/-- The body of the `try` once the configuration is on disk: while the initial sync is
incomplete, a pass over the inbox comes first. -/
def runJob (account : Account) (accountId jobId : Id) : SyncTask Unit := do
  makeMaildir account.maildirPath
  if account.initialSyncCompletedAt = none then do
    let excluded ← inboxExcluded account.extraConfig
    runSampled account accountId jobId (if excluded = true then 1 else 2)
  else runSampled account accountId jobId 1

/-- The `except` clauses. -/
def jobFailed (accountId : Id) (e : SyncExc) : SyncTask Unit := do
  let time ← now
  match e with
  | .timeoutExpired => stage accountId (.timedOut time)
  | e => stage accountId (.crashed e.text time)

/-- The end of the `finally` clause. -/
def dropToken (tokenWritten : Bool) : SyncTask Unit := do
  if tokenWritten = true then do
    let there ← tokenFileExists
    if there = true then unlinkToken else pure ()
  else pure ()
  commit

/-- The `finally` clause. -/
def cleanUp (settings : SyncSettings) (configWritten tokenWritten : Bool) : SyncTask Unit := do
  discardMarkers
  if configWritten = true ∧ settings.debug = false then unlinkConfig else pure ()
  dropToken tokenWritten

/-- The whole `try`: the configuration file exists for the clean-up once it was written. -/
def runGuarded (settings : SyncSettings) (account : Account) (accountId jobId : Id)
    (content : String) (tokenWritten : Bool) : SyncTask Unit := do
  let failure ← (do
    writeConfig content
    pure none).handle fun e => pure (some e)
  match failure with
  | some e => (jobFailed accountId e).ensure (cleanUp settings false tokenWritten)
  | none =>
      ((runJob account accountId jobId).handle (jobFailed accountId)).ensure
        (cleanUp settings true tokenWritten)

/-- From the commit of `running` on. -/
def runStarted (settings : SyncSettings) (accountId jobId : Id) : SyncTask Unit := do
  let account ← reloadAccount accountId
  let authenticated ← authenticate accountId account
  match authenticated with
  | none => pure ()
  | some tokenWritten => do
      let (account, content) ← prepareConfig accountId
      runGuarded settings account accountId jobId content tokenWritten

def executeSyncJob (settings : SyncSettings) (jobId : Id) : SyncTask Unit := do
  let db ← view
  match db.syncJobs.get? jobId with
  | none => pure ()
  | some job =>
      match db.accounts.get? job.accountId with
      | none => closeWith job.accountId (.blocked "Account not found")
      | some account =>
          match refusal db account with
          | some reason => closeWith job.accountId (.blocked reason)
          | none => do
              let refused ← validateHost account.imapHost
              match refused with
              | some error => closeWith job.accountId (.hostBlocked error)
              | none => do
                  closeWith job.accountId .start
                  runStarted settings job.accountId jobId

end MailFallback
