import MailFallback.Folders.Semantics
import MailFallback.Library.Program
import MailFallback.Search.Semantics
import Mathlib.Algebra.GroupWithZero.Nat

/-! # The staging area

`staging_service` as programs over a database session, the staging Maildirs and what the
messages are read from. The upstream mail server is part of the same operations, for the
restore worker that pushes the staged messages. -/

namespace MailFallback.Staging

open Storage Effects PyString Index Snapshots Access Search

abbrev Bytes := List UInt8

/-! ## Tables -/

structure StagingArea where
  userId : Id
  expiresAt : Time
  /-- Zero for no limit. -/
  maxBytes : ℤ := 0
  bytesUsed : ℕ := 0
  deriving DecidableEq, Repr

structure StagingMessage (H : Type) where
  stagingId : Id
  sourceAccountId : Id
  messageIdHash : H
  originalFolder : String
  stagedFilename : String
  sizeBytes : ℕ
  deriving DecidableEq

inductive RestoreMode where
  | full | folder | selection | stagingPush
  deriving DecidableEq, Repr

/-- The staged file names for each destination folder. -/
abbrev Manifest := Table String (List String)

structure RestoreJob where
  sourceAccountId : Id
  targetAccountId : Id
  status : JobStatus := .pending
  restoreMode : RestoreMode
  folderMapping : String := "original"
  skipDuplicates : Bool := true
  selectedFolders : Option (List String) := none
  selectedUids : Option Manifest := none
  totalMessages : ℕ := 0
  restoredMessages : ℕ := 0
  skippedMessages : ℕ := 0
  failedMessages : ℕ := 0
  error : Option String := none
  requestedBy : Id
  startedAt : Option Time := none
  completedAt : Option Time := none
  deriving DecidableEq

deriving instance DecidableEq for AccessDb
deriving instance DecidableEq for SearchDb

structure StagingDb (H : Type) extends SearchDb H where
  areas : Table Id StagingArea := .empty
  staged : Table Id (StagingMessage H) := .empty
  restores : Table Id RestoreJob := .empty
  areaUsers : ∀ i j a b, areas.get? i = some a → areas.get? j = some b →
    a.userId = b.userId → i = j
  stagedAreas : ∀ i m, staged.get? i = some m → (areas.get? m.stagingId).isSome
  deriving DecidableEq

namespace StagingDb

variable {H : Type} (db : StagingDb H)

def insertArea (id : Id) (area : StagingArea) : Option (StagingDb H) :=
  if h : db.areas.get? id = none ∧ ∀ r ∈ db.areas.rows, r.2.userId ≠ area.userId then
    some { db with
      areas := db.areas.add id area h.1
      areaUsers := by
        intro i j a b ha hb hu
        rw [Table.get?_add] at ha hb
        split at ha
        · split at hb
          · simp_all
          · obtain rfl := Option.some.inj ha
            exact absurd hu.symm (h.2 (j, b) (Table.mem_rows.mpr hb))
        · split at hb
          · obtain rfl := Option.some.inj hb
            exact absurd hu (h.2 (i, a) (Table.mem_rows.mpr ha))
          · exact db.areaUsers i j a b ha hb hu
      stagedAreas := by
        intro i m hm
        rw [Table.get?_add]
        split
        · rfl
        · exact db.stagedAreas i m hm }
  else none

/-- The foreign key deletes the rows of the area with it. -/
def deleteArea (id : Id) : StagingDb H :=
  { db with
    areas := db.areas.filter fun k _ => decide (k ≠ id)
    staged := db.staged.filter fun _ m => decide (m.stagingId ≠ id)
    areaUsers := by
      intro i j a b ha hb
      rw [Table.get?_filter, Option.filter_eq_some_iff] at ha hb
      exact db.areaUsers i j a b ha.1 hb.1
    stagedAreas := by
      intro i m hm
      rw [Table.get?_filter, Option.filter_eq_some_iff, decide_eq_true_eq] at hm
      obtain ⟨area, harea⟩ := Option.isSome_iff_exists.mp (db.stagedAreas i m hm.1)
      rw [Table.get?_filter, harea, Option.filter_some, decide_eq_true hm.2]
      rfl }

def setBytesUsed (id : Id) (bytes : ℕ) : StagingDb H :=
  { db with
    areas := db.areas.modify id fun area => { area with bytesUsed := bytes }
    areaUsers := by
      intro i j a b ha hb hu
      rw [Table.modify, Table.get?_map, Option.map_eq_some_iff] at ha hb
      obtain ⟨a, ha, rfl⟩ := ha
      obtain ⟨b, hb, rfl⟩ := hb
      refine db.areaUsers i j a b ha hb ?_
      revert hu
      split <;> split <;> exact fun hu => hu
    stagedAreas := by
      intro i m hm
      rw [Table.modify, Table.get?_map, Option.isSome_map]
      exact db.stagedAreas i m hm }

def insertMessage (id : Id) (message : StagingMessage H) : Option (StagingDb H) :=
  if h : db.staged.get? id = none ∧ (db.areas.get? message.stagingId).isSome = true then
    some { db with
      staged := db.staged.add id message h.1
      stagedAreas := by
        intro i m hm
        rw [Table.get?_add] at hm
        split at hm
        · obtain rfl := Option.some.inj hm
          exact h.2
        · exact db.stagedAreas i m hm }
  else none

def deleteMessage (id : Id) : StagingDb H :=
  { db with
    staged := db.staged.filter fun k _ => decide (k ≠ id)
    stagedAreas := by
      intro i m hm
      rw [Table.get?_filter, Option.filter_eq_some_iff] at hm
      exact db.stagedAreas i m hm.1 }

def renameStaged (id : Id) (name : String) : StagingDb H :=
  { db with
    staged := db.staged.modify id fun m => { m with stagedFilename := name }
    stagedAreas := by
      intro i m hm
      rw [Table.modify, Table.get?_map, Option.map_eq_some_iff] at hm
      obtain ⟨m, hm, rfl⟩ := hm
      have harea := db.stagedAreas i m hm
      split <;> exact harea }

end StagingDb

/-! ## The session -/

/-- What the services assign to a restore job. -/
inductive RestoreChange where
  | running (now : Time)
  | total (n : ℕ)
  | restored (n : ℕ)
  | skipped (n : ℕ)
  | failedMessages (n : ℕ)
  | ended (status : JobStatus) (error : Option String) (now : Time)
  deriving DecidableEq, Repr

/-- `error` is assigned only where the source assigns it. -/
def RestoreChange.apply (job : RestoreJob) : RestoreChange → RestoreJob
  | .running now => { job with status := .running, startedAt := some now }
  | .total n => { job with totalMessages := n }
  | .restored n => { job with restoredMessages := n }
  | .skipped n => { job with skippedMessages := n }
  | .failedMessages n => { job with failedMessages := n }
  | .ended status error now =>
      { job with status := status, error := error.or job.error, completedAt := some now }

inductive StagingWrite (H : Type) where
  | insertArea (id : Id) (area : StagingArea)
  | deleteArea (id : Id)
  | setBytesUsed (id : Id) (bytes : ℕ)
  | insertMessage (id : Id) (message : StagingMessage H)
  | deleteMessage (id : Id)
  | renameStaged (id : Id) (name : String)
  | insertRestore (id : Id) (job : RestoreJob)
  | changeRestore (id : Id) (change : RestoreChange)

variable {H : Type}

/-- One statement of a flush. An insert fails on the constraint it breaks and an update on a
row that is gone; to delete a row that is gone is only warned of. -/
def StagingWrite.apply (db : StagingDb H) : StagingWrite H → Option (StagingDb H)
  | .insertArea id area => db.insertArea id area
  | .deleteArea id => some (db.deleteArea id)
  | .setBytesUsed id bytes =>
      if (db.areas.get? id).isSome = true then some (db.setBytesUsed id bytes) else none
  | .insertMessage id message => db.insertMessage id message
  | .deleteMessage id => some (db.deleteMessage id)
  | .renameStaged id name =>
      if (db.staged.get? id).isSome = true then some (db.renameStaged id name) else none
  | .insertRestore id job =>
      if h : db.restores.get? id = none then
        some { db with restores := db.restores.add id job h }
      else none
  | .changeRestore id change =>
      if (db.restores.get? id).isSome = true then
        some { db with restores := db.restores.modify id fun job => change.apply job }
      else none

/-- The database as the session sees it. -/
def flushed (db : StagingDb H) (pending : List (StagingWrite H)) : Option (StagingDb H) :=
  pending.foldlM StagingWrite.apply db

/-! ## The Maildirs -/

def stagingMailbox : String := "MFB-Staging"

/-- Where the staging Maildir of a home lies, lay before it was renamed and lay at first. -/
inductive Place where
  | current | preRename | legacy
  deriving DecidableEq, Repr

structure StagingDir where
  root : String
  place : Place
  deriving DecidableEq, Repr

def StagingDir.path (d : StagingDir) : String :=
  match d.place with
  | .current => d.root ++ "/root-inbox/" ++ stagingMailbox
  | .preRename => d.root ++ "/root-inbox/Staging"
  | .legacy => d.root ++ "/staging"

inductive Sub where
  | cur | new | tmp
  deriving DecidableEq, Repr

structure StagedPath where
  dir : StagingDir
  sub : Sub
  name : String
  deriving DecidableEq, Repr

/-- The files of each subdirectory that there is. -/
abbrev Maildir := Sub → Option (Table String Bytes)

abbrev Maildirs := Table StagingDir Maildir

namespace Maildirs

variable (disk : Maildirs)

def isdir (d : StagingDir) : Bool := (disk.get? d).isSome

def sub? (d : StagingDir) (sub : Sub) : Option (Table String Bytes) :=
  (disk.get? d).bind fun maildir => maildir sub

def file? (p : StagedPath) : Option Bytes := (disk.sub? p.dir p.sub).bind fun files => files.get? p.name

/-- `os.path.exists`, where a name without a letter stands for a directory. -/
def exists? (p : StagedPath) : Bool :=
  (disk.file? p).isSome || (["", ".", ".."].contains p.name && (disk.sub? p.dir p.sub).isSome)

def setSub (d : StagingDir) (sub : Sub) (files : Table String Bytes) : Maildirs :=
  disk.modify d fun maildir => Function.update maildir sub (some files)

def put (p : StagedPath) (bytes : Bytes) : Maildirs :=
  match disk.sub? p.dir p.sub with
  | some files => disk.setSub p.dir p.sub (files.set p.name bytes)
  | none => disk

def erase (p : StagedPath) : Maildirs :=
  match disk.sub? p.dir p.sub with
  | some files => disk.setSub p.dir p.sub (files.filter fun name _ => decide (name ≠ p.name))
  | none => disk

/-- `os.makedirs` of a subdirectory, with `exist_ok`. -/
def makedirs (d : StagingDir) (sub : Sub) : Maildirs :=
  match disk.get? d with
  | none => disk.set d (Function.update (fun _ => none) sub (some .empty))
  | some maildir =>
      match maildir sub with
      | none => disk.setSub d sub .empty
      | some _ => disk

def hasSubs (maildir : Maildir) : Bool := [Sub.cur, .new, .tmp].any fun sub => (maildir sub).isSome

/-- `os.rename` of a directory takes the place of an empty one only. -/
def rename (d e : StagingDir) : Option Maildirs :=
  match disk.get? d with
  | none => none
  | some maildir =>
      if (disk.get? e).any hasSubs = true then none
      else some ((disk.filter fun k _ => decide (k ≠ d)).set e maildir)

/-- What `shutil.rmtree` with `ignore_errors` leaves: nothing, or the files it could not
remove. -/
def rmtree (d : StagingDir) (left : Option (Sub → String → Bool)) : Maildirs :=
  match left with
  | none => disk.filter fun k _ => decide (k ≠ d)
  | some left => disk.modify d fun maildir sub => (maildir sub).map fun files =>
      files.filter fun name _ => left sub name

end Maildirs

/-! ## Operations -/

inductive Failure where
  | imap (text : String)
  | os (text : String)
  | integrity
  | database (text : String)
  /-- Also a `TypeError`. -/
  | value (text : String)
  | quota (text : String)
  | adoption (text : String)
  | http (e : HttpError)
  | other (text : String)
  deriving DecidableEq, Repr

/-- `str(e)` -/
def Failure.text : Failure → String
  | .imap text | .os text | .database text | .value text | .quota text | .adoption text
  | .other text => text
  | .http e => e.detail
  | .integrity => "UNIQUE constraint failed: staging_areas.user_id"

/-- The commands that the restore worker sends to the target. -/
inductive ImapOp where
  | connect (accountId : Id) (password : String)
  /-- `LIST "" ""` -/
  | list
  | select (folder : String) (readonly : Bool)
  | close
  | create (folder : String)
  | search
  /-- `FETCH uid (BODY.PEEK[HEADER.FIELDS (MESSAGE-ID)])` -/
  | fetchHeader (uid : String)
  | append (folder : String) (raw : Bytes)
  | logout
  deriving DecidableEq

def ImapAns : ImapOp → Type
  /- The status and the first line. -/
  | .list => String × Option String
  | .select .. | .append .. => String
  | .search => String × List String
  /- The status and the lines of the header. -/
  | .fetchHeader _ => String × Option (List String)
  | .connect .. | .close | .create _ | .logout => Unit

inductive StagingOp (H : Type) where
  | view
  | stagedRows (areaId : Id)
  | stagedCount (areaId : Id)
  | expiredAreas (now : Time)
  | indexed (key : MessageKey H)
  | stage (writes : List (StagingWrite H))
  | flush
  | commit
  | rollback
  | newId
  | now
  | token
  | submit (jobId : Id)
  | cancelled (jobId : Id)
  | dropCancel (jobId : Id)
  | isdir (d : StagingDir)
  | renameDir (d e : StagingDir)
  | makedirs (d : StagingDir) (sub : Sub)
  | rmtree (d : StagingDir)
  | isSubdir (d : StagingDir) (sub : Sub)
  | listdir (d : StagingDir) (sub : Sub)
  | pathExists (p : StagedPath)
  | read (p : StagedPath)
  | write (p : StagedPath) (bytes : Bytes)
  | rename (p q : StagedPath)
  | remove (p : StagedPath)
  /-- The live file of an indexed message, when it is found and can be read. -/
  | liveFile (key : MessageKey H)
  /-- The dump from the newest snapshot that holds the message, cut off at the cap. -/
  | snapshotBytes (key : MessageKey H)
  | decrypt (credentials : String)
  | refreshToken (accountId : Id)
  | imap (o : ImapOp)

def StagingAns (H : Type) : StagingOp H → Type
  | .view => StagingDb H
  | .stagedRows _ => List (Id × StagingMessage H)
  | .stagedCount _ => ℕ
  | .expiredAreas _ => List (Id × StagingArea)
  | .indexed _ => Option MessageRow
  | .newId | .token => String
  | .now => Time
  | .cancelled _ | .isdir _ | .isSubdir .. | .pathExists _ => Bool
  | .rmtree _ => Option (Sub → String → Bool)
  | .listdir .. => List String
  | .read _ => Bytes
  | .liveFile _ | .snapshotBytes _ => Option Bytes
  | .decrypt _ => String
  | .refreshToken _ => Option String
  | .imap o => ImapAns o
  | _ => Unit

/-- Which exceptions an operation may raise. -/
def StagingOp.raises : StagingOp H → Failure → Bool
  | .view, .database _ | .stagedRows _, .database _ | .stagedCount _, .database _
  | .expiredAreas _, .database _ | .indexed _, .database _ | .flush, .database _
  | .commit, .database _ => true
  | .renameDir .., .os _ | .makedirs .., .os _ | .listdir .., .os _ | .read _, .os _
  | .write .., .os _ | .rename .., .os _ | .remove _, .os _ => true
  | .snapshotBytes _, _ | .decrypt _, _ | .imap _, _ => true
  | _, _ => false

structure World (H : Type) where
  db : StagingDb H
  disk : Maildirs := .empty
  now : Time := 0
  /-- `_cancel_flags` -/
  cancelFlags : List Id := []
  /-- The jobs handed to the restore executor. -/
  submitted : List Id := []

/-- A database session in its world. -/
structure Session (H : Type) where
  world : World H
  pending : List (StagingWrite H) := []

namespace Session

variable (s : Session H)

def seen : Option (StagingDb H) := flushed s.world.db s.pending

def onDisk (disk : Maildirs) : Session H := { s with world := { s.world with disk := disk } }

/-- A constraint fails exactly when the changes do not fit the database. -/
def mayRaise : StagingOp H → Failure → Bool
  | .flush, .integrity | .commit, .integrity => s.seen.isNone
  | o, e => o.raises e

end Session

section Machine

variable [DecidableEq H]

def stagedOf (db : StagingDb H) (areaId : Id) : List (Id × StagingMessage H) :=
  db.staged.rows.filter fun row => row.2.stagingId = areaId

/-- The row of the mail index under its key. -/
def answersIndexed (db : StagingDb H) (key : MessageKey H) : Option MessageRow → Bool
  | none => decide (db.messages.filter (fun r => r.1 = key) = 0)
  | some row => decide ((key, row) ∈ db.messages)

/-- A new identifier is in no table. -/
def isFresh (db : StagingDb H) (id : Id) : Bool :=
  (db.areas.get? id).isNone && (db.staged.get? id).isNone && (db.restores.get? id).isNone

def expiredOf (db : StagingDb H) (now : Time) : List (Id × StagingArea) :=
  db.areas.rows.filter fun row => row.2.expiresAt ≤ now

/-- A query answers from what the session sees. Rows and directory entries come in any order,
and what the messages are read from and the mail server may answer anything. -/
def stagingMachine : Machine (StagingOp H) (StagingAns H) Failure (Session H)
  | o, s, .error e => if s.mayRaise o e = true then some s else none
  | .view, s, .ok db => if s.seen = some (show StagingDb H from db) then some s else none
  | .stagedRows areaId, s, .ok rows =>
      if s.seen.any fun db => (show List (Id × StagingMessage H) from rows).isPerm
        (stagedOf db areaId) then some s else none
  | .stagedCount areaId, s, .ok n =>
      if s.seen.any fun db => decide ((stagedOf db areaId).length = (show ℕ from n)) then some s
      else none
  | .expiredAreas now, s, .ok rows =>
      if s.seen.any fun db => (show List (Id × StagingArea) from rows).isPerm
        (expiredOf db now) then some s else none
  | .indexed key, s, .ok row =>
      if s.seen.any fun db => answersIndexed db key row then some s else none
  | .stage writes, s, .ok _ => some { s with pending := s.pending ++ writes }
  | .flush, s, .ok _ => if s.seen.isSome = true then some s else none
  | .commit, s, .ok _ => s.seen.map fun db => { world := { s.world with db := db } }
  | .rollback, s, .ok _ => some { s with pending := [] }
  | .newId, s, .ok id => if s.seen.all fun db => isFresh db id then some s else none
  | .now, s, .ok t => if s.world.now = (show Time from t) then some s else none
  | .submit jobId, s, .ok _ =>
      some { s with world := { s.world with submitted := s.world.submitted ++ [jobId] } }
  | .cancelled jobId, s, .ok b =>
      if s.world.cancelFlags.contains jobId = (show Bool from b) then some s else none
  | .dropCancel jobId, s, .ok _ =>
      some { s with world :=
        { s.world with cancelFlags := s.world.cancelFlags.filter (· ≠ jobId) } }
  | .isdir d, s, .ok b => if s.world.disk.isdir d = (show Bool from b) then some s else none
  | .renameDir d e, s, .ok _ => (s.world.disk.rename d e).map s.onDisk
  | .makedirs d sub, s, .ok _ => some (s.onDisk (s.world.disk.makedirs d sub))
  | .rmtree d, s, .ok left => some (s.onDisk (s.world.disk.rmtree d left))
  | .isSubdir d sub, s, .ok b =>
      if (s.world.disk.sub? d sub).isSome = (show Bool from b) then some s else none
  | .listdir d sub, s, .ok names =>
      if (s.world.disk.sub? d sub).any fun files =>
        (show List String from names).isPerm files.keys then some s else none
  | .pathExists p, s, .ok b =>
      if s.world.disk.exists? p = (show Bool from b) then some s else none
  | .read p, s, .ok bytes =>
      if s.world.disk.file? p = some (show Bytes from bytes) then some s else none
  | .write p bytes, s, .ok _ =>
      if (s.world.disk.sub? p.dir p.sub).isSome = true then
        some (s.onDisk (s.world.disk.put p bytes))
      else none
  | .rename p q, s, .ok _ =>
      match s.world.disk.file? p with
      | some bytes =>
          if (s.world.disk.sub? q.dir q.sub).isSome = true then
            some (s.onDisk ((s.world.disk.erase p).put q bytes))
          else none
      | none => none
  | .remove p, s, .ok _ =>
      if (s.world.disk.file? p).isSome = true then some (s.onDisk (s.world.disk.erase p)) else none
  | _, s, .ok _ => some s

variable {s t : Session H}

theorem machine_error {o : StagingOp H} {e : Failure} :
    stagingMachine o s (.error e) = some t ↔ s.mayRaise o e = true ∧ s = t := by
  rw [stagingMachine, Option.ite_none_right_eq_some, Option.some.injEq]

theorem machine_view {db : StagingDb H} :
    stagingMachine .view s (.ok db) = some t ↔ s.seen = some db ∧ s = t := by
  simp [stagingMachine]

end Machine

abbrev StagingTask (H : Type) (α : Type) := Prog (StagingOp H) (StagingAns H) Failure α

namespace StagingTask

def op (o : StagingOp H) : StagingTask H (StagingAns H o) := Prog.op o

def view : StagingTask H (StagingDb H) := op .view
def stagedRows (areaId : Id) : StagingTask H (List (Id × StagingMessage H)) := op (.stagedRows areaId)
def stagedCount (areaId : Id) : StagingTask H ℕ := op (.stagedCount areaId)
def expiredAreas (now : Time) : StagingTask H (List (Id × StagingArea)) := op (.expiredAreas now)
def indexed (key : MessageKey H) : StagingTask H (Option MessageRow) := op (.indexed key)
def stage (writes : List (StagingWrite H)) : StagingTask H Unit := op (.stage writes)
def flush : StagingTask H Unit := op .flush
def commit : StagingTask H Unit := op .commit
def rollback : StagingTask H Unit := op .rollback
def newId : StagingTask H Id := op .newId
def now : StagingTask H Time := op .now
def token : StagingTask H String := op .token
def submit (jobId : Id) : StagingTask H Unit := op (.submit jobId)
def cancelled (jobId : Id) : StagingTask H Bool := op (.cancelled jobId)
def dropCancel (jobId : Id) : StagingTask H Unit := op (.dropCancel jobId)
def isdir (d : StagingDir) : StagingTask H Bool := op (.isdir d)
def renameDir (d e : StagingDir) : StagingTask H Unit := op (.renameDir d e)
def makedirs (d : StagingDir) (sub : Sub) : StagingTask H Unit := op (.makedirs d sub)
def rmtree (d : StagingDir) : StagingTask H (Option (Sub → String → Bool)) := op (.rmtree d)
def isSubdir (d : StagingDir) (sub : Sub) : StagingTask H Bool := op (.isSubdir d sub)
def listdir (d : StagingDir) (sub : Sub) : StagingTask H (List String) := op (.listdir d sub)
def pathExists (p : StagedPath) : StagingTask H Bool := op (.pathExists p)
def read (p : StagedPath) : StagingTask H Bytes := op (.read p)
def write (p : StagedPath) (bytes : Bytes) : StagingTask H Unit := op (.write p bytes)
def rename (p q : StagedPath) : StagingTask H Unit := op (.rename p q)
def remove (p : StagedPath) : StagingTask H Unit := op (.remove p)
def liveFile (key : MessageKey H) : StagingTask H (Option Bytes) := op (.liveFile key)
def snapshotBytes (key : MessageKey H) : StagingTask H (Option Bytes) := op (.snapshotBytes key)
def decrypt (credentials : String) : StagingTask H String := op (.decrypt credentials)
def refreshToken (accountId : Id) : StagingTask H (Option String) := op (.refreshToken accountId)
def imap (o : ImapOp) : StagingTask H (ImapAns o) := op (.imap o)

end StagingTask

open StagingTask

/-! ## The service -/

/-- A user as the services hold it, with the path of the store. -/
structure StagingUser where
  id : Id
  row : User
  storePath : String
  deriving DecidableEq, Repr

def loadUser (db : AccessDb) (userId : Id) : Option StagingUser :=
  (db.users.get? userId).bind fun row =>
    (db.stores.get? row.storeId).map fun store => ⟨userId, row, store.path⟩

/-- `_home_root` -/
def homeRoot (user : StagingUser) : String := dovecotHomeDir user.storePath user.row.username

def stagingDir (user : StagingUser) : StagingDir := ⟨homeRoot user, .current⟩

/-- `_pre_rename_staging_dir` -/
def preRenameStagingDir (user : StagingUser) : StagingDir := ⟨homeRoot user, .preRename⟩

/-- `_legacy_staging_dir` -/
def legacyStagingDir (user : StagingUser) : StagingDir := ⟨homeRoot user, .legacy⟩

/-- The settings, the reading of dates and digests, and the parser of mail headers. -/
structure Host (H : Type) where
  stagingTtlMinutes : ℤ := 10080
  stagingMaxBytes : ℤ := 0
  day : Time → String
  hex : H → String
  /-- The `Message-ID` of a message, when the parser finds one and does not raise. -/
  messageId : Bytes → Option String

def stagingDumpMaxBytes : ℕ := 104857600

/-- `_adopt_pre_rename_staging_dir` -/
def adoptPreRenameStagingDir (user : StagingUser) : StagingTask H Unit := do
  let current := stagingDir user
  let previous := preRenameStagingDir user
  match ← isdir current with
  | true => pure ()
  | false =>
      match ← isdir previous with
      | false => pure ()
      | true =>
          (renameDir previous current).handle fun
            | .os text => Prog.raise (.adoption
                ("Could not adopt " ++ previous.path ++ " -> " ++ current.path ++ ": " ++ text))
            | e => Prog.raise e

/-- `_ensure_maildir` -/
def ensureMaildir (d : StagingDir) : StagingTask H Unit :=
  [Sub.cur, .new, .tmp].forM (StagingTask.makedirs d)

def ensureStagingDir (user : StagingUser) : StagingTask H StagingDir := do
  adoptPreRenameStagingDir user
  ensureMaildir (stagingDir user)
  pure (stagingDir user)

/-- `_remove_staging_dir`; what could not be removed is only warned of. -/
def removeStagingDir (user : StagingUser) : StagingTask H Unit :=
  [stagingDir user, preRenameStagingDir user, legacyStagingDir user].forM fun d => do
    match ← isdir d with
    | true =>
        let _ ← rmtree d
        pure ()
    | false => pure ()

/-- `_is_expired` -/
def isExpired (area : StagingArea) : StagingTask H Bool := do
  let now ← now
  pure (decide (area.expiresAt ≤ now))

/-- The area of a user; there is at most one. -/
def areaOf (db : StagingDb H) (userId : Id) : Option (Id × StagingArea) :=
  db.areas.rows.find? fun row => row.2.userId = userId

/-- The names in `cur` and in `new` under their stable prefixes; later ones take the place of
earlier ones. -/
def onDisk (d : StagingDir) : StagingTask H (Table String String) :=
  [Sub.cur, .new].foldlM (fun names sub => do
    match ← isSubdir d sub with
    | false => pure names
    | true =>
        let listed ← listdir d sub
        pure (listed.foldl (fun names name => names.set (maildirFilenamePrefix name) name) names))
    Table.empty

/-- What `reconcile` has found so far. -/
structure Findings (H : Type) where
  writes : List (StagingWrite H) := []
  dropped : ℕ := 0
  total : ℕ := 0
  renamed : Bool := false

/-- One row of the loop in `reconcile`. -/
def reconcileRow (names : Table String String) (found : Findings H) (row : Id × StagingMessage H) :
    Findings H :=
  match names.get? (maildirFilenamePrefix row.2.stagedFilename) with
  | none =>
      { found with writes := found.writes ++ [.deleteMessage row.1], dropped := found.dropped + 1 }
  | some actual =>
      if actual = row.2.stagedFilename then { found with total := found.total + row.2.sizeBytes }
      else
        { found with
          writes := found.writes ++ [.renameStaged row.1 actual]
          total := found.total + row.2.sizeBytes
          renamed := true }

/-- Drops the rows whose file vanished. Commits only when something changed. -/
def reconcile (user : StagingUser) (area : Id × StagingArea) : StagingTask H ℕ := do
  let adopted ← (do
    adoptPreRenameStagingDir user
    pure true).handle fun
      | .adoption _ => pure false
      | e => Prog.raise e
  match adopted with
  | false => pure 0
  | true =>
      let names ← onDisk (stagingDir user)
      let rows ← stagedRows area.1
      let found := rows.foldl (reconcileRow names) {}
      if found.dropped ≠ 0 ∨ found.renamed = true ∨ area.2.bytesUsed ≠ found.total then do
        stage (found.writes ++ [.setBytesUsed area.1 found.total])
        commit
        pure found.dropped
      else pure found.dropped

structure StagingStatus where
  present : Bool
  count : ℕ
  bytesUsed : ℕ
  expiresAt : Option Time
  maxBytes : ℤ
  deriving DecidableEq, Repr

/-- An attribute of a row is read again after a commit, which raises when the row is gone. -/
def reload (areaId : Id) : StagingTask H (Id × StagingArea) := do
  let db ← view
  match db.areas.get? areaId with
  | some area => pure (areaId, area)
  | none => Prog.raise (.database "Instance has been deleted")

def getStatus (host : Host H) (user : StagingUser) : StagingTask H StagingStatus := do
  let none' : StagingStatus := ⟨false, 0, 0, none, host.stagingMaxBytes⟩
  let db ← view
  match areaOf db user.id with
  | none => pure none'
  | some area =>
      match ← isExpired area.2 with
      | true => pure none'
      | false =>
          let _ ← reconcile user area
          let count ← stagedCount area.1
          let area ← reload area.1
          pure ⟨true, count, area.2.bytesUsed, some area.2.expiresAt, area.2.maxBytes⟩

/-- A fresh area for the user; a request that was faster has its area taken. -/
def createArea (host : Host H) (user : StagingUser) : StagingTask H (Option (Id × StagingArea)) := do
  let time ← now
  let id ← newId
  let area : StagingArea :=
    { userId := user.id
      expiresAt := time + host.stagingTtlMinutes * 60000000
      maxBytes := host.stagingMaxBytes }
  stage [.insertArea id area]
  (do
    flush
    pure (some (id, area))).handle fun
      | .integrity => do
          rollback
          let db ← view
          pure (areaOf db user.id)
      | e => Prog.raise e

/-- `_get_or_create_area` -/
def getOrCreateArea (host : Host H) (user : StagingUser) :
    StagingTask H (Option (Id × StagingArea)) := do
  let db ← view
  match areaOf db user.id with
  | none => createArea host user
  | some area =>
      match ← isExpired area.2 with
      | false => pure (some area)
      | true =>
          removeStagingDir user
          stage [.deleteArea area.1]
          flush
          createArea host user

section Add

variable [DecidableEq H]

/-- `_message_bytes`: the live file first, else the newest snapshot; a dump that fills the cap
is presumed truncated. -/
def messageBytes (key : MessageKey H) (row : MessageRow) : StagingTask H (Option Bytes) := do
  let live ← if row.deletedAt.isNone = true then liveFile key else pure none
  match live with
  | some raw => pure (some raw)
  | none =>
      let found ← snapshotBytes key
      pure (found.filter fun raw => decide (raw.length < stagingDumpMaxBytes))

/-- A message that is to be staged. -/
structure Selected (H : Type) where
  key : MessageKey H
  row : MessageRow
  raw : Bytes

structure Selection (H : Type) where
  toStage : List (Selected H) := []
  failed : ℕ := 0
  existing : List (MessageKey H)

/-- One pass of the loop that selects. A message that is staged already counts as skipped. -/
def selectItem (user : StagingUser) (visible : List Id) (includeAll : Bool)
    (chosen : Selection H) (key : MessageKey H) : StagingTask H (Selection H) :=
  if key.1 ∉ visible ∧ ¬(includeAll = true ∧ user.row.role = .admin) then
    Prog.raise (.value ("Account " ++ key.1 ++ " not accessible"))
  else if key ∈ chosen.existing then pure chosen
  else do
    let db ← view
    let row ← indexed key
    match db.accounts.get? key.1, row with
    | some _, some row => do
        match ← messageBytes key row with
        | none => pure { chosen with failed := chosen.failed + 1 }
        | some raw =>
            pure { chosen with
              toStage := chosen.toStage ++ [⟨key, row, raw⟩]
              existing := key :: chosen.existing }
    | _, _ => pure { chosen with failed := chosen.failed + 1 }

structure AddResult where
  staged : ℕ
  skipped : ℕ
  failed : ℕ
  deriving DecidableEq, Repr

/-- What the loop that copies has done. -/
structure Copied where
  staged : ℕ := 0
  failed : ℕ
  bytesUsed : ℕ

def stagedName (host : Host H) (now : Time) (token : String) (h : H) : String :=
  toString (now / 1000000) ++ "." ++ PyString.take token 8 ++ "." ++
    PyString.take (host.hex h) 12 ++ ":2,"

/-- Writes a message to `tmp` and moves it to `cur`; false when the file system refuses. -/
def copyFile (d : StagingDir) (name : String) (raw : Bytes) : StagingTask H Bool :=
  (do
    write ⟨d, .tmp, name⟩ raw
    rename ⟨d, .tmp, name⟩ ⟨d, .cur, name⟩
    pure true).handle fun
      | .os _ => do
          (remove ⟨d, .tmp, name⟩).handle fun
            | .os _ => pure ()
            | e => Prog.raise e
          pure false
      | e => Prog.raise e

/-- One pass of the loop that copies. -/
def stageOne (host : Host H) (d : StagingDir) (areaId : Id) (time : Time) (copied : Copied)
    (item : Selected H) : StagingTask H Copied := do
  let token ← token
  let name := stagedName host time token item.key.2
  match ← copyFile d name item.raw with
  | false => pure { copied with failed := copied.failed + 1 }
  | true =>
      let id ← newId
      let bytesUsed := copied.bytesUsed + item.raw.length
      stage [.insertMessage id
          { stagingId := areaId
            sourceAccountId := item.key.1
            messageIdHash := item.key.2
            originalFolder := originalFolderName item.row.folderPath
            stagedFilename := name
            sizeBytes := item.raw.length },
        .setBytesUsed areaId bytesUsed]
      pure { copied with staged := copied.staged + 1, bytesUsed := bytesUsed }

def Selection.incoming (chosen : Selection H) : ℕ := (chosen.toStage.map fun item => item.raw.length).sum

/-- The live area with the messages it holds already. -/
def stagedAlready (user : StagingUser) : StagingTask H (Option (Id × StagingArea) × List (MessageKey H)) := do
  let db ← view
  match areaOf db user.id with
  | none => pure (none, [])
  | some area =>
      match ← isExpired area.2 with
      -- A corpse, which is replaced below.
      | true => pure (none, [])
      | false =>
          let _ ← reconcile user area
          let rows ← stagedRows area.1
          let area ← reload area.1
          pure (some area, rows.map fun row => (row.2.sourceAccountId, row.2.messageIdHash))

/-- The second half of `add_messages`, once the quota is checked. -/
def stageSelected (host : Host H) (user : StagingUser) (items : List (MessageKey H))
    (chosen : Selection H) : StagingTask H AddResult := do
  let area ← getOrCreateArea host user
  let d ← ensureStagingDir user
  let time ← now
  match area with
  | none => Prog.raise (.other "'NoneType' object has no attribute 'id'")
  | some (areaId, area) =>
      let copied ← chosen.toStage.foldlM (stageOne host d areaId time)
        { failed := chosen.failed, bytesUsed := area.bytesUsed }
      commit
      pure ⟨copied.staged, items.length - copied.staged - copied.failed, copied.failed⟩

/-- `add_messages` for a user who sees these accounts. -/
def addVisible (host : Host H) (user : StagingUser) (visible : List Id)
    (items : List (MessageKey H)) (includeAll : Bool) : StagingTask H AddResult := do
  let (area, existing) ← stagedAlready user
  let chosen ← items.foldlM (selectItem user visible includeAll) { existing := existing }
  let used := area.elim 0 fun row => row.2.bytesUsed
  let limit := area.elim host.stagingMaxBytes fun row => row.2.maxBytes
  if limit ≠ 0 ∧ limit < ((used + chosen.incoming : ℕ) : ℤ) then
    Prog.raise (.quota ("Staging quota exceeded: " ++ toString (used + chosen.incoming) ++ " > " ++
      toString limit ++ " bytes"))
  else if chosen.toStage.isEmpty = true then pure ⟨0, items.length - chosen.failed, chosen.failed⟩
  else stageSelected host user items chosen

def addMessages (orders : Orders) (host : Host H) (user : StagingUser)
    (items : List (MessageKey H)) (includeAll : Bool) : StagingTask H AddResult := do
  let db ← view
  addVisible host user (accessibleAccountIds orders db.toAccessDb user.id) items includeAll

end Add

/-! ## The end of an area -/

def empty (user : StagingUser) : StagingTask H Unit := do
  let db ← view
  removeStagingDir user
  match areaOf db user.id with
  | none => pure ()
  | some area =>
      stage [.deleteArea area.1]
      commit

/-- One area of `cleanup_expired`. -/
def purge (area : Id × StagingArea) : StagingTask H Unit := do
  let db ← view
  match loadUser db.toAccessDb area.2.userId with
  | none => pure ()
  | some user => removeStagingDir user
  stage [.deleteArea area.1]

def cleanupExpired : StagingTask H ℕ := do
  let time ← now
  let expired ← expiredAreas time
  expired.forM purge
  commit
  pure expired.length

end MailFallback.Staging
