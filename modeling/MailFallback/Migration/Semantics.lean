import MailFallback.Library.Program
import MailFallback.Store.Semantics

/-! # Moving a directory from one store to another

The migration service and its copy engine, as programs over the disk and one database
session. A path string is taken as the directory it names. Symbolic links and failing
database commits are left out. -/

namespace MailFallback

open Storage Posix Effects

/-! ## The host -/

inductive Exc where
  | osError (message : String)
  | recursionError
  | migrationCancelled
  | rowDeleted
  deriving DecidableEq, Repr

/-- Python's `str(exc)`. -/
def Exc.text : Exc → String
  | .osError message => message
  | .recursionError => "maximum recursion depth exceeded"
  | .migrationCancelled => ""
  | .rowDeleted => "Instance has been deleted, or its row is otherwise not present."

/-- The disk, the committed rows, and what the session has assigned since its last commit. -/
structure Host where
  files : Files
  db : Db
  staged : Db → Db := id

inductive HostOp where
  | pathExists (p : Path)
  | isDirectory (p : Path)
  | scandir (p : Path)
  | fileSize (p : Path)
  | mkdir (p : Path)
  | readFile (p : Path)
  | openWrite (p : Path)
  | append (p : Path) (byte : UInt8)
  | copystat (source dest : Path)
  | unlink (p : Path)
  | rmdir (p : Path)
  /-- The call of `shutil.rmtree`, before it removes anything. -/
  | enterRmtree (p : Path)
  | view
  | assign (f : Db → Db)
  | commit
  | now
  | cancelRequested (migrationId : Id)
  | discardCancel (migrationId : Id)

/-- `scandir` gives each name with the flag that it is a directory. -/
def HostAns : HostOp → Type
  | .pathExists _ | .isDirectory _ | .cancelRequested _ => Bool
  | .scandir _ => List (Name × Bool)
  | .fileSize _ => ℕ
  | .readFile _ => List UInt8
  | .view => Db
  | .now => Time
  | _ => Unit

abbrev Job (α : Type) := Prog HostOp HostAns Exc α

/-- The operations that can raise an `OSError`. -/
def HostOp.fallible : HostOp → Bool
  | .scandir _ | .fileSize _ | .mkdir _ | .readFile _ | .openWrite _ | .append .. | .copystat ..
  | .unlink _ | .rmdir _ => true
  | _ => false

def Exc.isOsError : Exc → Bool
  | .osError _ => true
  | _ => false

def listing (d : Files) (p : Path) : List (Name × Bool) :=
  (d.children p).map fun e => (e.1, decide (e.2 = .dir))

def fileContent (d : Files) (p : Path) : Option (List UInt8) :=
  match d.node p with
  | some (.file content) => some content
  | _ => none

def Host.withFiles (s : Host) (d : Option Files) : Option Host :=
  d.map fun d => { s with files := d }

/-- A successful reply tells the truth about the disk; a failed operation changes nothing. -/
def hostStep : Machine HostOp HostAns Exc Host
  | o, s, .error e => if o.fallible = true ∧ e.isOsError = true then some s else none
  | .pathExists p, s, .ok (b : Bool) => if b = s.files.has p then some s else none
  | .isDirectory p, s, .ok (b : Bool) => if b = s.files.isDir p then some s else none
  | .scandir p, s, .ok (entries : List (Name × Bool)) =>
      if s.files.isDir p = true ∧ entries.Perm (listing s.files p) then some s else none
  | .fileSize p, s, .ok (size : ℕ) =>
      if (fileContent s.files p).map List.length = some size then some s else none
  | .mkdir p, s, .ok _ => s.withFiles (s.files.mkdir p)
  | .readFile p, s, .ok (content : List UInt8) =>
      if fileContent s.files p = some content then some s else none
  | .openWrite p, s, .ok _ => s.withFiles (s.files.write p [])
  | .append p byte, s, .ok _ =>
      (fileContent s.files p).bind fun content => s.withFiles (s.files.write p (content ++ [byte]))
  | .copystat _ _, s, .ok _ => some s
  | .unlink p, s, .ok _ => if s.files.isDir p then none else s.withFiles (s.files.remove p)
  | .rmdir p, s, .ok _ => if s.files.isDir p then s.withFiles (s.files.remove p) else none
  | .enterRmtree _, s, .ok _ => some s
  | .view, s, .ok (db : Db) => if db = s.staged s.db then some s else none
  | .assign f, s, .ok _ => some { s with staged := f ∘ s.staged }
  | .commit, s, .ok _ => some { s with db := s.staged s.db, staged := id }
  | .now, s, .ok _ => some s
  | .cancelRequested _, s, .ok _ => some s
  | .discardCancel _, s, .ok _ => some s

/-- What a killed process leaves: the disk and the committed rows. -/
def Host.killed (s : Host) : Host := { s with staged := id }

/-! ## Operations -/

namespace Job

def hostOp (o : HostOp) : Job (HostAns o) := Prog.op o

def pathExists (p : Path) : Job Bool := hostOp (.pathExists p)
def isDirectory (p : Path) : Job Bool := hostOp (.isDirectory p)
def scandir (p : Path) : Job (List (Name × Bool)) := hostOp (.scandir p)
def fileSize (p : Path) : Job ℕ := hostOp (.fileSize p)
def mkdir (p : Path) : Job Unit := hostOp (.mkdir p)
def readFile (p : Path) : Job (List UInt8) := hostOp (.readFile p)
def openWrite (p : Path) : Job Unit := hostOp (.openWrite p)
def append (p : Path) (byte : UInt8) : Job Unit := hostOp (.append p byte)
def copystat (source dest : Path) : Job Unit := hostOp (.copystat source dest)
def unlink (p : Path) : Job Unit := hostOp (.unlink p)
def rmdir (p : Path) : Job Unit := hostOp (.rmdir p)
def enterRmtree (p : Path) : Job Unit := hostOp (.enterRmtree p)
def view : Job Db := hostOp .view
def assign (f : Db → Db) : Job Unit := hostOp (.assign f)
def commit : Job Unit := hostOp .commit
def getNow : Job Time := hostOp .now
def cancelRequested (migrationId : Id) : Job Bool := hostOp (.cancelRequested migrationId)
def discardCancel (migrationId : Id) : Job Unit := hostOp (.discardCancel migrationId)

end Job

open Job

/-! ## The copy engine -/

/-- One directory of `os.makedirs` with `exist_ok`. -/
def mkdirOk (p : Path) : Job Unit :=
  (mkdir p).handle fun e => do
    let isDirectory ← isDirectory p
    if isDirectory = true then pure () else .raise e

/-- `os.makedirs` with `exist_ok`, on the names of a path from the last to the first. -/
def makedirsRev : List Name → Job Unit
  | [] => mkdirOk []
  | x :: rest => do
      let there ← pathExists rest.reverse
      if there = true then mkdirOk (x :: rest).reverse
      else do
        makedirsRev rest
        mkdirOk (x :: rest).reverse

/-- `shutil.copy2` to a path where nothing stands. -/
def copy2 (source dest : Path) : Job Unit := do
  let content ← readFile source
  openWrite dest
  content.foldlM (fun _ byte => append dest byte) ()
  copystat source dest

/-- What exists at the destination is skipped. -/
def copyMissing (source dest : Path) : Job Unit := do
  let there ← pathExists dest
  if there = true then pure () else copy2 source dest

/-- The fuel of the recursive functions is the recursion limit of the interpreter. -/
def prescan : ℕ → Path → Job (ℕ × ℕ)
  | 0, _ => .raise .recursionError
  | n + 1, source => do
      let entries ← scandir source
      entries.foldlM
        (fun (counts : ℕ × ℕ) entry => do
          if entry.2 = true then
            let sub ← prescan n (source ++ [entry.1])
            pure (counts.1 + sub.1, counts.2 + sub.2)
          else
            let size ← fileSize (source ++ [entry.1])
            pure (counts.1 + 1, counts.2 + size))
        (0, 0)

/-- The counter of files and bytes is handed from call to call. -/
def copyTree (onProgress : ℕ → ℕ → Job Unit) : ℕ → Path → Path → ℕ × ℕ → Job (ℕ × ℕ)
  | 0, _, _, _ => .raise .recursionError
  | n + 1, source, dest, counter => do
      makedirsRev dest.reverse
      let entries ← scandir source
      entries.foldlM
        (fun (counter : ℕ × ℕ) entry => do
          let srcPath := source ++ [entry.1]
          let dstPath := dest ++ [entry.1]
          if entry.2 = true then copyTree onProgress n srcPath dstPath counter
          else
            let size ← fileSize srcPath
            copyMissing srcPath dstPath
            onProgress (counter.1 + 1) (counter.2 + size)
            pure (counter.1 + 1, counter.2 + size))
        counter

def verifyCopy (limit : ℕ) (source dest : Path) : Job (Bool × String) := do
  let src ← prescan limit source
  let dst ← prescan limit dest
  if src.1 = dst.1 then pure (true, "OK")
  else pure (false, s!"File count mismatch: source={src.1}, dest={dst.1}")

/-- `shutil.rmtree` with `ignore_errors`. -/
def rmtreeFrom : ℕ → Path → Job Unit
  | 0, _ => .raise .recursionError
  | n + 1, p => do
      let entries ← (scandir p).handle fun _ => pure []
      entries.foldlM
        (fun _ entry =>
          if entry.2 = true then rmtreeFrom n (p ++ [entry.1])
          else (unlink (p ++ [entry.1])).handle fun _ => pure ())
        ()
      (rmdir p).handle fun _ => pure ()

/-! ## The migration service -/

def setMigration (migrationId : Id) (f : StoreMigration → StoreMigration) (db : Db) : Db :=
  { db with migrations := db.migrations.modify migrationId f }

def saveMigration (migrationId : Id) (f : StoreMigration → StoreMigration) : Job Unit := do
  assign (setMigration migrationId f)
  commit

/-- What the two kinds of migration do differently. -/
structure Places where
  sourcePath : String
  targetPath : String
  /-- Points the rows at the target. -/
  switch : Db → Db
  /-- Clears the `migrating` flag. -/
  release : Db → Db

structure MigrationKind where
  missing : String
  /-- The rows behind a migration, `none` when one is missing. -/
  locate : Db → StoreMigration → Option Places

def accountKind : MigrationKind where
  missing := "Missing account or store record"
  locate := fun db migration => do
    let accountId ← migration.accountId
    let account ← db.accounts.get? accountId
    let targetStore ← db.stores.get? migration.targetStoreId
    let targetPath := deriveMaildirPath targetStore.path accountId
    pure {
      sourcePath := account.maildirPath
      targetPath := targetPath
      switch := fun db => { db with
        accounts := db.accounts.modify accountId fun a =>
          { a with maildirPath := targetPath, storeId := migration.targetStoreId } }
      release := fun db => { db with
        accounts := db.accounts.modify accountId fun a => { a with migrating := false } } }

def homeKind : MigrationKind where
  missing := "Missing user or store record"
  locate := fun db migration => do
    let userId ← migration.userId
    let user ← db.users.get? userId
    let sourceStore ← db.stores.get? migration.sourceStoreId
    let targetStore ← db.stores.get? migration.targetStoreId
    pure {
      sourcePath := sourceStore.path ++ "/.dovecot-home/" ++ user.username
      targetPath := targetStore.path ++ "/.dovecot-home/" ++ user.username
      switch := fun db => { db with
        users := db.users.modify userId fun u => { u with storeId := migration.targetStoreId } }
      release := fun db => { db with
        users := db.users.modify userId fun u => { u with migrating := false } } }

def checkCancel (migrationId : Id) : Job Unit := do
  let cancelled ← cancelRequested migrationId
  if cancelled = true then .raise .migrationCancelled else pure ()

/-- The call-back of the copy: the file counter of the source and the number of calls are
the same. -/
def onProgress (migrationId : Id) (copiedFiles copiedBytes : ℕ) : Job Unit := do
  checkCancel migrationId
  assign (setMigration migrationId fun m =>
    { m with copiedFiles := copiedFiles, copiedBytes := copiedBytes })
  if copiedFiles % 100 = 0 then commit else pure ()

/-- The copy and its verification; false when the counts differ. -/
def copyPhase (limit : ℕ) (migrationId : Id) (source target : Path) : Job Bool := do
  let totals ← prescan limit source
  saveMigration migrationId fun m => { m with totalFiles := totals.1, totalBytes := totals.2 }
  let _ ← copyTree (onProgress migrationId) limit source target (0, 0)
  saveMigration migrationId fun m => { m with status := .verifying }
  checkCancel migrationId
  let verdict ← verifyCopy limit source target
  if verdict.1 = true then pure true
  else do
    saveMigration migrationId fun m => { m with status := .failed, error := some verdict.2 }
    pure false

/-- The switch of the rows and the removal of the source. -/
def cleanPhase (limit : ℕ) (migrationId : Id) (places : Places) (source : Path) : Job Unit := do
  checkCancel migrationId
  saveMigration migrationId fun m => { m with status := .cleaning }
  assign places.switch
  commit
  let there ← pathExists source
  if there = true then do
    enterRmtree source
    rmtreeFrom limit source
  let now ← getNow
  assign (setMigration migrationId fun m =>
    { m with status := .completed, completedAt := some now })
  assign places.release
  commit

/-- The body of the `try`. -/
def attemptMigration (kind : MigrationKind) (limit : ℕ) (cwd : Path) (migrationId : Id)
    (migration : StoreMigration) : Job Unit := do
  let now ← getNow
  saveMigration migrationId fun m =>
    { m with status := .copying, startedAt := some now,
             lastResumedAt := m.lastResumedAt.orElse fun _ => some now }
  let db ← view
  match kind.locate db migration with
  | none => .raise .rowDeleted
  | some places => do
      let source := resolve cwd places.sourcePath
      let there ← pathExists source
      let proceed ← if there = true then
          copyPhase limit migrationId source (resolve cwd places.targetPath)
        else do
          assign (setMigration migrationId fun m =>
            { m with totalFiles := 0, totalBytes := 0 })
          pure true
      if proceed = true then cleanPhase limit migrationId places source else pure ()

/-- The `except` clauses. -/
def migrationFailed (migrationId : Id) (places : Places) : Exc → Job Unit
  | .migrationCancelled => do
      assign (setMigration migrationId fun m =>
        { m with status := .failed, error := some "Cancelled by admin" })
      assign places.release
      commit
  | e => saveMigration migrationId fun m => { m with status := .failed, error := some e.text }

def executeMigration (kind : MigrationKind) (limit : ℕ) (cwd : Path) (migrationId : Id) :
    Job Unit := do
  let db ← view
  match db.migrations.get? migrationId with
  | none => pure ()
  | some migration =>
      match kind.locate db migration with
      | none => saveMigration migrationId fun m =>
          { m with status := .failed, error := some kind.missing }
      | some places =>
          ((attemptMigration kind limit cwd migrationId migration).handle
            (migrationFailed migrationId places)).ensure (discardCancel migrationId)

def executeAccountMigration : ℕ → Path → Id → Job Unit := executeMigration accountKind

def executeHomeMigration : ℕ → Path → Id → Job Unit := executeMigration homeKind

/-- What `_resume_migrations` does for one migration. -/
def resumeMigration (limit : ℕ) (cwd : Path) (migrationId : Id) : Job Unit := do
  let now ← getNow
  saveMigration migrationId fun m => { m with lastResumedAt := some now }
  let db ← view
  match db.migrations.get? migrationId with
  | none => pure ()
  | some migration =>
      if migration.accountId.isSome then executeAccountMigration limit cwd migrationId
      else executeHomeMigration limit cwd migrationId

end MailFallback
