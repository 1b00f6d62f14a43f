import MailFallback.Library.Base64
import MailFallback.Staging.Push

/-! # The restore worker

What `restore_worker` does with a staging push. The other restore modes read from Dovecot and
touch nothing staged; they are left out, as are the notification and the audit row at the end. -/

namespace MailFallback.Staging

open Storage Effects PyString Index Snapshots Access Search StagingTask

variable {H : Type}

/-- The result of an operation, or its exception as a value. -/
def attempt {α : Type} (p : StagingTask H α) : StagingTask H (Except Failure α) :=
  (do
    let a ← p
    pure (Except.ok a)).handle fun e => pure (Except.error e)

/-- `contextlib.suppress` of the errors of a connection. -/
def suppressImap (p : StagingTask H Unit) : StagingTask H Unit :=
  p.handle fun
    | .imap _ | .os _ => pure ()
    | e => Prog.raise e

/-- `_retry_imap`, with the attempts that are left after the first. -/
def retryImap {α : Type} (p : StagingTask H α) : ℕ → StagingTask H α
  | 0 => p
  | n + 1 => p.handle fun
      | .imap _ | .os _ => retryImap p n
      | e => Prog.raise e

/-! ## Mailbox names -/

/-- `re.search(r'"(.)"', text)` -/
def quotedChar : List Char → Option Char
  | [] => none
  | c :: cs =>
      match c, cs with
      | '"', d :: '"' :: _ => if d = '\n' then quotedChar cs else some d
      | _, _ => quotedChar cs

/-- `_get_hierarchy_separator` -/
def getHierarchySeparator : StagingTask H String :=
  (do
    let reply ← (show StagingTask H (String × Option String) from imap .list)
    match reply with
    | ("OK", some line) => pure ((quotedChar line.toList).elim "/" String.singleton)
    | _ => pure "/").handle fun _ => pure "/"

/-- The code units of UTF-16, the high byte first. -/
def utf16be (c : Char) : List UInt8 :=
  let unit := fun n : ℕ => [UInt8.ofNat (n / 256), UInt8.ofNat (n % 256)]
  if c.toNat < 0x10000 then unit c.toNat
  else
    let n := c.toNat - 0x10000
    unit (0xd800 + n / 0x400) ++ unit (0xdc00 + n % 0x400)

/-- `_flush` -/
def shifted (run : List Char) : List Char :=
  if run.isEmpty = true then []
  else
    let b64 := rstrip (Base64.encode (run.flatMap utf16be)) '='
    '&' :: b64.toList.map (fun c => if c = '/' then ',' else c) ++ ['-']

/-- `run` is pending. -/
def encodeFrom (run : List Char) : List Char → List Char
  | [] => shifted run
  | c :: cs =>
      if ' ' ≤ c ∧ c ≤ '~' then
        shifted run ++ (if c = '&' then ['&', '-'] else [c]) ++ encodeFrom [] cs
      else encodeFrom (run ++ [c]) cs

/-- `_imap_utf7_encode` -/
def imapUtf7Encode (name : String) : String :=
  if name.toList.all (fun c => decide (c.toNat < 128)) = true then name
  else String.ofList (encodeFrom [] name.toList)

example : imapUtf7Encode "Caf\u00e9/\u65e5" = "Caf&AOk-/&ZeU-" := by decide +kernel

def quoted (folder : String) : String := "\"" ++ folder ++ "\""

/-- The mailbox of the target that a key of the manifest stands for. -/
def targetFolder (separator folder : String) : String :=
  imapUtf7Encode (if separator ≠ "/" then
    String.ofList (folder.toList.flatMap fun c => if c = '/' then separator.toList else [c])
  else folder)

/-- `_ensure_folder` -/
def ensureFolder (folder : String) : StagingTask H Unit := do
  let selected ← (do
    let status ← (show StagingTask H String from imap (.select (quoted folder) false))
    if status = "OK" then do
      imap .close
      pure true
    else pure false).handle fun
      | .imap _ | .value _ | .os _ => pure false
      | e => Prog.raise e
  match selected with
  | true => pure ()
  | false => suppressImap (imap (.create (quoted folder)))

/-! ## Duplicates -/

/-- The `Message-ID` lines of a header. -/
def headerIds (lines : List String) : List String :=
  lines.filterMap fun line =>
    if "message-id:".toList.isPrefixOf (line.toList.map Char.toLower) = true then
      some (strip (String.ofList ((line.toList.dropWhile fun c => c ≠ ':').drop 1)))
    else none

/-- An error of the server ends the collection with what it has so far. -/
def fetchIds : List String → List String → StagingTask H (List String)
  | ids, [] => do
      match ← attempt (imap .close) with
      | .ok _ | .error (.imap _) => pure ids
      | .error e => Prog.raise e
  | ids, uid :: uids => do
      match ← attempt (show StagingTask H (String × Option (List String)) from
          imap (.fetchHeader uid)) with
      | .ok ("OK", some lines) => fetchIds (ids ++ headerIds lines) uids
      | .ok _ => fetchIds ids uids
      | .error (.imap _) => pure ids
      | .error e => Prog.raise e

/-- `_get_existing_message_ids` -/
def getExistingMessageIds (folder : String) : StagingTask H (List String) := do
  match ← attempt (show StagingTask H String from imap (.select (quoted folder) true)) with
  | .error (.imap _) => pure []
  | .error e => Prog.raise e
  | .ok status =>
      if status ≠ "OK" then pure []
      else do
        match ← attempt (show StagingTask H (String × List String) from imap .search) with
        | .error (.imap _) => pure []
        | .error e => Prog.raise e
        | .ok (status, uids) => fetchIds [] (if status = "OK" then uids else [])

/-- `_is_duplicate` -/
def isDuplicate (host : Host H) (raw : Bytes) (existing : List String) : Bool :=
  (host.messageId raw).any fun id => id ≠ "" && existing.contains id

/-! ## Staged files -/

def locateExact (d : StagingDir) (name : String) : List Sub → StagingTask H (Option StagedPath)
  | [] => pure none
  | sub :: subs => do
      match ← pathExists ⟨d, sub, name⟩ with
      | true => pure (some ⟨d, sub, name⟩)
      | false => locateExact d name subs

def locatePrefix (d : StagingDir) (want : String) : List Sub → StagingTask H (Option StagedPath)
  | [] => pure none
  | sub :: subs => do
      match ← isSubdir d sub with
      | false => locatePrefix d want subs
      | true =>
          let listed ← listdir d sub
          match listed.find? fun actual => maildirFilenamePrefix actual = want with
          | some actual => pure (some ⟨d, sub, actual⟩)
          | none => locatePrefix d want subs

/-- `_locate_staged_file`; a name with slashes does not lead out of the Maildir. -/
def locateStagedFile (d : StagingDir) (filename : String) : StagingTask H (Option StagedPath) := do
  let name := basename filename
  match ← locateExact d name [.cur, .new] with
  | some path => pure (some path)
  | none => locatePrefix d (maildirFilenamePrefix name) [.cur, .new]

/-- `_staged_files_remain` -/
def stagedFilesRemain (d : StagingDir) : List Sub → StagingTask H Bool
  | [] => pure false
  | sub :: subs => do
      match ← isSubdir d sub with
      | false => stagedFilesRemain d subs
      | true =>
          let listed ← listdir d sub
          if listed.isEmpty = true then stagedFilesRemain d subs else pure true

/-! ## Clean-up -/

/-- The located files under the prefixes of the manifest names. -/
def byPrefix (pushed : Table String StagedPath) : Table String StagedPath :=
  pushed.rows.foldl (fun paths entry => paths.set (maildirFilenamePrefix entry.1) entry.2) .empty

/-- One row of the loop in `_cleanup_pushed`. -/
def dropPushed (paths : Table String StagedPath) (areaId : Id) (bytesUsed : ℕ)
    (row : Id × StagingMessage H) : StagingTask H ℕ :=
  match paths.get? (maildirFilenamePrefix row.2.stagedFilename) with
  | none => pure bytesUsed
  | some path => do
      (remove path).handle fun
        | .os _ => pure ()
        | e => Prog.raise e
      stage [.setBytesUsed areaId (bytesUsed - row.2.sizeBytes), .deleteMessage row.1]
      pure (bytesUsed - row.2.sizeBytes)

def dropAllPushed (area : Id × StagingArea) (pushed : Table String StagedPath) :
    StagingTask H Unit :=
  if pushed.rows.isEmpty = true then pure ()
  else do
    let rows ← stagedRows area.1
    let _ ← rows.foldlM (dropPushed (byPrefix pushed) area.1) area.2.bytesUsed
    flush

/-- The area dies with its directory once neither rows nor files remain. -/
def dropEmptyArea (requester : StagingUser) (d : StagingDir) (areaId : Id) :
    StagingTask H Unit := do
  let remaining ← stagedCount areaId
  if remaining = 0 then do
    match ← stagedFilesRemain d [.cur, .new] with
    | true => pure ()
    | false =>
        removeStagingDir requester
        stage [.deleteArea areaId]
  else pure ()

/-- `_cleanup_pushed` -/
def cleanupPushed (requester : StagingUser) (d : StagingDir) (pushed : Table String StagedPath) :
    StagingTask H Unit := do
  let db ← view
  match areaOf db requester.id with
  | none => pure ()
  | some area =>
      dropAllPushed area pushed
      dropEmptyArea requester d area.1
      commit

/-! ## The push -/

/-- `_fail_job` -/
def failJob (jobId : Id) (text : String) : StagingTask H Unit := do
  rollback
  let time ← now
  stage [.changeRestore jobId (.ended .failed (some text) time)]
  commit

/-- `_cancel_job` -/
def cancelJob (jobId : Id) : StagingTask H Unit := do
  let time ← now
  stage [.changeRestore jobId (.ended .cancelled (some "Cancelled by user") time)]
  commit

inductive Delivery where
  | duplicate | appended | refused
  deriving DecidableEq, Repr

/-- Reads one file and appends it, unless the folder has the message already. -/
def deliver (host : Host H) (folder : String) (existing : List String) (path : StagedPath) :
    StagingTask H Delivery := do
  let raw ← read path
  if isDuplicate host raw existing = true then pure .duplicate
  else do
    let result ← retryImap
      (show StagingTask H String from imap (.append (quoted folder) raw)) 2
    pure (if result = "OK" then .appended else .refused)

/-- What the loops over the manifest have done. -/
structure Pushing where
  restored : ℕ
  skipped : ℕ
  failed : ℕ
  pushed : Table String StagedPath := .empty
  /-- The job was cancelled, and nothing more is done. -/
  cancelled : Bool := false

/-- The counter that an outcome adds to; a connection error counts as a failure. -/
def Pushing.count (st : Pushing) (name : String) (path : StagedPath) :
    Option Delivery → Pushing × RestoreChange
  | some .duplicate =>
      ({ st with skipped := st.skipped + 1, pushed := st.pushed.set name path },
        .skipped (st.skipped + 1))
  | some .appended =>
      ({ st with restored := st.restored + 1, pushed := st.pushed.set name path },
        .restored (st.restored + 1))
  | some .refused | none => ({ st with failed := st.failed + 1 }, .failedMessages (st.failed + 1))

/-- `deliver`, with the errors that count as a failure. -/
def tryDeliver (host : Host H) (folder : String) (existing : List String) (path : StagedPath) :
    StagingTask H (Option Delivery) :=
  (do
    let outcome ← deliver host folder existing path
    pure (some outcome)).handle fun
      | .imap _ | .os _ => pure none
      | e => Prog.raise e

/-- One file of the manifest. -/
def pushFile (host : Host H) (jobId : Id) (requester : StagingUser) (d : StagingDir)
    (folder : String) (existing : List String) (st : Pushing) (name : String) :
    StagingTask H Pushing :=
  if st.cancelled = true then pure st
  else do
    match ← StagingTask.cancelled jobId with
    | true =>
        cleanupPushed requester d st.pushed
        cancelJob jobId
        pure { st with cancelled := true }
    | false =>
        match ← locateStagedFile d name with
        -- Deleted in webmail since the push.
        | none =>
            stage [.changeRestore jobId (.skipped (st.skipped + 1))]
            commit
            pure { st with skipped := st.skipped + 1 }
        | some path =>
            let outcome ← tryDeliver host folder existing path
            let counted := st.count name path outcome
            stage [.changeRestore jobId counted.2]
            commit
            pure counted.1

/-- One folder of the manifest. -/
def pushFiles (host : Host H) (jobId : Id) (requester : StagingUser) (d : StagingDir)
    (separator : String) (skipDuplicates : Bool) (st : Pushing) (entry : String × List String) :
    StagingTask H Pushing :=
  if st.cancelled = true then pure st
  else do
    let folder := targetFolder separator entry.1
    ensureFolder folder
    let existing ← if skipDuplicates = true then getExistingMessageIds folder else pure []
    entry.2.foldlM (pushFile host jobId requester d folder existing) st

/-- What is sent over the connection to the target. -/
def pushManifest (host : Host H) (jobId : Id) (job : RestoreJob) (requester : StagingUser)
    (d : StagingDir) : StagingTask H Unit := do
  let separator ← getHierarchySeparator
  let st ← (job.selectedUids.getD .empty).rows.foldlM
    (pushFiles host jobId requester d separator job.skipDuplicates)
    { restored := job.restoredMessages, skipped := job.skippedMessages,
      failed := job.failedMessages }
  if st.cancelled = true then pure () else cleanupPushed requester d st.pushed

/-- `_execute_staging_push` -/
def executeStagingPush (host : Host H) (jobId : Id) (job : RestoreJob) (password : String) :
    StagingTask H Unit := do
  let db ← view
  match loadUser db.toAccessDb job.requestedBy with
  | none => failJob jobId "Requesting user no longer exists"
  | some requester =>
      let d ← ensureStagingDir requester
      stage [.changeRestore jobId
        (.total ((job.selectedUids.getD .empty).rows.map fun entry => entry.2.length).sum)]
      commit
      imap (.connect job.targetAccountId password)
      (pushManifest host jobId job requester d).ensure
        ((imap .logout).handle fun _ => pure ())

/-! ## The job -/

/-- `_finalize_running_job` -/
def finalizeRunningJob (job : RestoreJob) (wasCancelled : Bool) : JobStatus × Option String :=
  if wasCancelled = true then (.cancelled, none)
  else if job.restoredMessages = 0 ∧ 0 < job.failedMessages then
    (.failed, some ("All " ++ toString job.failedMessages ++ " messages failed"))
  else
    (.completed, if 0 < job.failedMessages then
      some (toString job.failedMessages ++ " messages failed") else none)

/-- Reads the job again. -/
def refreshJob (jobId : Id) : StagingTask H RestoreJob := do
  let db ← view
  match db.restores.get? jobId with
  | some job => pure job
  | none => Prog.raise (.database "Could not refresh instance")

/-- The `finally` clause: a cancel that came during the run wins over completion. -/
def finishJob (jobId : Id) : StagingTask H Unit := do
  let wasCancelled ← StagingTask.cancelled jobId
  dropCancel jobId
  let job ← (refreshJob jobId).handle fun _ => do
    rollback
    refreshJob jobId
  if job.status = .running then do
    let time ← now
    let verdict := finalizeRunningJob job wasCancelled
    stage [.changeRestore jobId (.ended verdict.1 verdict.2 time)]
    commit
  else commit

/-- The text that an exception leaves in the job. -/
def jobError : Failure → String
  | .imap text | .os text => "IMAP error: " ++ text
  | e => e.text

/-- The body of the `try` clause. -/
def runRestore (host : Host H) (jobId : Id) (job : RestoreJob) (target : Account)
    (credentials : String) : StagingTask H Unit := do
  let password ← if target.authType = .oauth2 then refreshToken job.targetAccountId
    else pure (some credentials)
  if given password = true then
    match job.restoreMode with
    | .stagingPush => executeStagingPush host jobId job (password.getD "")
    | .full | .folder | .selection => pure ()
  else failJob jobId "Failed to refresh OAuth2 token for target"

def executeRestoreJob (host : Host H) (jobId : Id) : StagingTask H Unit := do
  let db ← view
  match db.restores.get? jobId with
  | none => pure ()
  | some job =>
      match db.accounts.get? job.sourceAccountId, db.accounts.get? job.targetAccountId with
      | some source, some target =>
          if source.suspended = true ∨ target.suspended = true then
            failJob jobId "Account is suspended"
          else do
            let credentials ← if given target.credentials = true then
              decrypt (target.credentials.getD "") else pure ""
            if credentials = "" then failJob jobId "Target account has no credentials"
            else do
              let time ← now
              stage [.changeRestore jobId (.running time)]
              commit
              ((runRestore host jobId job target credentials).handle fun e =>
                failJob jobId (jobError e)).ensure (finishJob jobId)
      | _, _ => failJob jobId "Source or target account not found"

end MailFallback.Staging
