import MailFallback.Staging.Semantics

/-! # Pushing the staged messages

`push` makes one restore job for each target account. -/

namespace MailFallback.Staging

open Storage Effects PyString Snapshots Access Search StagingTask

variable {H : Type}

/-! ## Restore jobs -/

/-- Whether `create_restore_job` makes a job for these accounts. -/
def takesRestore (db : StagingDb H) (source target : Id) : Bool :=
  match db.accounts.get? source, db.accounts.get? target with
  | some origin, some upstream =>
      !origin.suspended && !origin.migrating && !upstream.suspended && !upstream.migrating &&
        given upstream.credentials &&
        !db.restores.rows.any fun row => decide (row.2.sourceAccountId = source) &&
          decide (row.2.targetAccountId = target) && row.2.status.isOpen
  | _, _ => false

/-- The job is given as it is to be inserted. -/
def createRestoreJob (job : RestoreJob) : StagingTask H (Option Id) := do
  let db ← view
  match takesRestore db job.sourceAccountId job.targetAccountId with
  | false => pure none
  | true =>
      let jobId ← newId
      stage [.insertRestore jobId job]
      commit
      let _ ← view
      pure (some jobId)

/-! ## The service -/

/-- The destination folder of a staged message. -/
def destinationFolder (stamp folderMode : String) (customFolder : Option String)
    (m : StagingMessage H) : String :=
  if folderMode = "original" then m.originalFolder
  else if folderMode = "custom" then customFolder.getD ""
  else "Restored/" ++ stamp

def targetOf (destination : String) (m : StagingMessage H) : Id :=
  if destination = "origin" then m.sourceAccountId else destination

/-- `setdefault(folder, []).append(name)` -/
def addName (manifest : Manifest) (folder name : String) : Manifest :=
  manifest.set folder ((manifest.get? folder).getD [] ++ [name])

/-- The manifests of the targets. -/
def byTarget (destination stamp folderMode : String) (customFolder : Option String)
    (rows : List (Id × StagingMessage H)) : Table Id Manifest :=
  rows.foldl (fun targets row =>
    let target := targetOf destination row.2
    targets.set target (addName ((targets.get? target).getD .empty)
      (destinationFolder stamp folderMode customFolder row.2) row.2.stagedFilename)) .empty

structure PushResult where
  jobIds : List Id := []
  skippedTargets : List Id := []
  deriving DecidableEq, Repr

/-- One target of the loop in `push`. -/
def pushTarget (user : StagingUser) (result : PushResult) (target : Id × Manifest) :
    StagingTask H PushResult := do
  let created ← createRestoreJob
    { sourceAccountId := target.1
      targetAccountId := target.1
      restoreMode := .stagingPush
      requestedBy := user.id
      selectedUids := some target.2 }
  match created with
  | none => pure { result with skippedTargets := result.skippedTargets ++ [target.1] }
  | some jobId =>
      submit jobId
      pure { result with jobIds := result.jobIds ++ [jobId] }

def push (host : Host H) (user : StagingUser) (destination folderMode : String)
    (customFolder : Option String) : StagingTask H PushResult :=
  if folderMode = "custom" ∧ customFolder.all (fun folder => strip folder == "") = true then
    Prog.raise (.value "custom folder_mode requires a custom_folder")
  else do
    let db ← view
    match areaOf db user.id with
    | none => pure {}
    | some area =>
        match ← isExpired area.2 with
        | true => pure {}
        | false =>
            let _ ← reconcile user area
            let rows ← stagedRows area.1
            match rows with
            | [] => pure {}
            | rows =>
                let time ← now
                (byTarget destination (host.day time) folderMode customFolder rows).rows.foldlM
                  (pushTarget user) {}

/-! ## The endpoint -/

def customFolderMaxLen : ℕ := 200

/-- What `_sanitize_imap_string` strips and `_CTRL_GAP_RE` finds. -/
def isRefusedInFolder (c : Char) : Bool :=
  c == '"' || c == '\\' || decide (c.toNat ≤ 0x1f) ||
    decide (0x7f ≤ c.toNat ∧ c.toNat ≤ 0x9f)

/-- `_validate_custom_folder` -/
def validateCustomFolder (value : Option String) (field : String) : Except HttpError String :=
  let folder := strip (value.getD "")
  if folder = "" then .error ⟨400, field ++ " must not be empty"⟩
  else if customFolderMaxLen < folder.toList.length then
    .error ⟨400, field ++ " too long (max 200 characters)"⟩
  else if folder.toList.any isRefusedInFolder = true then
    .error ⟨400, field ++ " contains quotes, backslashes or control characters"⟩
  else if (folder.toList.splitOn '/').any (fun seg =>
      strip (String.ofList seg) == "" || seg == ['.'] || seg == ['.', '.']) = true then
    .error ⟨400, field ++ " has empty or relative path segments"⟩
  else .ok folder

structure PushRequest where
  destination : String := "origin"
  folderMode : String := "original"
  customFolder : Option String := none
  deriving DecidableEq, Repr

def pushFolder (req : PushRequest) : Except HttpError (Option String) :=
  if req.folderMode = "custom" then (validateCustomFolder req.customFolder "custom_folder").map some
  else .ok none

def apiStagingPush (host : Host H) (user : StagingUser) (req : PushRequest) :
    StagingTask H PushResult :=
  if req.folderMode ∉ ["original", "restored", "custom"] then
    Prog.raise (.http ⟨400, "Invalid folder_mode"⟩)
  else
    match pushFolder req with
    | .error e => Prog.raise (.http e)
    | .ok customFolder => do
        let db ← view
        if req.destination ≠ "origin" ∧
            getAccount db.toAccessDb req.destination user.id user.row = none then
          Prog.raise (.http ⟨404, "Destination account not found"⟩)
        else push host user req.destination req.folderMode customFolder

end MailFallback.Staging
