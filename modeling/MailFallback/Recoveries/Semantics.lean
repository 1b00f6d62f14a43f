import MailFallback.Access.Semantics
import MailFallback.Library.Transition
import MailFallback.Recoveries.Places

/-! # Recoveries made, used and removed by several callers

The commits and the disk operations of `create_recovery`, `delete_recovery` and the mount service
as steps over one table and one disk. -/

namespace MailFallback.Recoveries

open Storage Posix

inductive RecoveryKind where
  | persistent | ephemeral
  deriving DecidableEq, Repr

/-- What `_build_restore_root` makes a root from. -/
structure Origin where
  storePath : String
  accountId : Id
  madeAt : Time
  deriving DecidableEq, Repr

def Origin.root (o : Origin) : String := buildRestoreRoot o.storePath o.accountId o.madeAt

/-- A row of `recoveries`; the origin of its root and the end of its restore are history. -/
structure Row extends Access.Recovery where
  kind : RecoveryKind := .persistent
  ttlMinutes : Option ℤ := none
  lastAccessedAt : Time
  origin : Origin
  finishedAt : Option Time := none
  deriving DecidableEq, Repr

/-- What `create_recovery` reads of an account. -/
structure Place where
  storePath : String
  maildirPath : String
  /-- The account has a backup policy. -/
  backedUp : Bool := true

structure Host where
  cwd : Path := []
  accounts : Table Id Place
  recoveryEphemeralTtlMinutes : ℤ := 30

/-- The arguments of `create_recovery`; `sourcePrefix` for an attached repository. -/
structure Mount where
  accountId : Id
  snapshotId : String
  kind : RecoveryKind := .persistent
  ttlMinutes : Option ℤ := none
  sourcePrefix : Option String := none

/-- A call of `create_recovery` that has not inserted its row. -/
structure Start where
  mount : Mount
  askedAt : Time

/-- A call of `create_recovery` with its row inserted and restic at work. -/
structure Restore where
  id : Id
  accountId : Id
  restoreRoot : String
  maildirPath : String
  repoPrefix : Option String

inductive DeletePhase where
  /-- The status is committed. -/
  | marked
  /-- The row was read again. -/
  | found (accountId : Id) (restorePath : String)
  | removed
  deriving DecidableEq, Repr

/-- A call of `delete_recovery`, for a request or for the clean-up. -/
structure Deletion where
  id : Id
  byTick : Bool
  phase : DeletePhase := .marked
  origin : Origin
  deriving DecidableEq, Repr

/-- A run of `cleanup_idle_mounts` with the rows it has still to look at. A commit makes the
session read them again. -/
structure Tick where
  now : Time
  rest : List (Id × Row)
  expired : Bool := false

/-- A tree or a row that went. -/
structure Removal where
  id : Id
  row : Row
  time : Time
  deriving DecidableEq, Repr

structure World where
  clock : Time
  rows : Table Id Row := .empty
  used : List Id := []
  starting : List Start := []
  restoring : List Restore := []
  deletions : List Deletion := []
  tick : Option Tick := none
  files : Disk Name String
  removals : List Removal := []

/-- What `os.walk` tells of a restored tree. -/
abbrev Walk := List (List Name × List String)

inductive Event where
  | pass (span : ℕ)
  /-- Restic and everybody else. -/
  | disk (files : Disk Name String)
  | create (mount : Mount)
  | ensure (mount : Mount) (existing : Option Id)
  | insert (i : ℕ) (id : Id) (madeAt : Time)
  | finish (k : ℕ) (restored : Option Walk)
  | touch (id : Id)
  | delete (id : Id) (accountId : Option Id)
  | read (i : ℕ)
  | remove (i : ℕ) (stuck : List Path)
  | drop (i : ℕ)
  | tick (candidates : List (Id × Row))
  | next

namespace World

variable (host : Host) (s : World)

/-! ## Creation -/

/-- The checks of `create_recovery`. -/
def createRecovery (mount : Mount) : Option World := do
  let place ← host.accounts.get? mount.accountId
  if mount.sourcePrefix.elim place.backedUp (· ≠ "") = true then
    some { s with starting := s.starting ++ [⟨mount, s.clock⟩] }
  else none

def newRow (mount : Mount) (origin : Origin) : Row where
  accountId := mount.accountId
  snapshotId := mount.snapshotId
  restoredAt := some s.clock
  restorePath := origin.root
  kind := mount.kind
  ttlMinutes := mount.ttlMinutes
  lastAccessedAt := s.clock
  origin := origin

/-- The row is inserted some time after the root was made. -/
def insertRow (i : ℕ) (id : Id) (madeAt : Time) : Option World := do
  let start ← s.starting[i]?
  let place ← host.accounts.get? start.mount.accountId
  let origin : Origin := ⟨place.storePath, start.mount.accountId, madeAt⟩
  if start.askedAt ≤ madeAt ∧ madeAt ≤ s.clock ∧ id ∉ s.used then
    some { s with
      rows := s.rows.set id (s.newRow start.mount origin)
      used := id :: s.used
      starting := s.starting.eraseIdx i
      restoring := s.restoring ++
        [⟨id, start.mount.accountId, origin.root, place.maildirPath, start.mount.sourcePrefix⟩] }
  else none

end World

def Row.ended (row : Row) (maildirRoot : Option String) (now : Time) : Row :=
  match maildirRoot with
  | some path => { row with restorePath := path, status := .ready, finishedAt := some now }
  | none => { row with status := .failed, finishedAt := some now }

namespace World

variable (host : Host) (s : World)

/-- The last commit of `create_recovery`, with `none` when restic failed. -/
def finishRestore (k : ℕ) (restored : Option Walk) : Option World := do
  let r ← s.restoring[k]?
  let maildirRoot := restored.bind fun dirs =>
    resolveMaildirInsideRestore (isdir s.files host.cwd)
      (dirs.map fun d => (walked r.restoreRoot d.1, d.2)) r.restoreRoot r.maildirPath r.repoPrefix
  some { s with
    restoring := s.restoring.eraseIdx k
    rows := s.rows.modify r.id fun row => row.ended maildirRoot s.clock }

/-! ## Use -/

def touchMount (id : Id) : World :=
  { s with rows := s.rows.modify id fun row => { row with lastAccessedAt := s.clock } }

/-- The row that `ensure_mounted` looks for. -/
def serves (mount : Mount) (row : Row) : Bool :=
  row.accountId = mount.accountId ∧ row.snapshotId = mount.snapshotId ∧ row.status = .ready

def ensureMounted (mount : Mount) : Option Id → Option World
  | some id => if (s.rows.get? id).any (serves mount) = true then some (s.touchMount id) else none
  | none =>
      if s.rows.rows.any (fun r => serves mount r.2) = true then none
      else
        let ttlMinutes := if mount.ttlMinutes = none ∧ mount.kind = .ephemeral then
            some host.recoveryEphemeralTtlMinutes
          else mount.ttlMinutes
        s.createRecovery host { mount with ttlMinutes := ttlMinutes }

/-! ## Deletion -/

/-- The first commit of `delete_recovery`. -/
def deleteRecovery (id : Id) (accountId : Option Id) (byTick : Bool) : Option World := do
  let row ← s.rows.get? id
  if accountId.all (· = row.accountId) = true then
    some { s with
      rows := s.rows.modify id fun row => { row with status := .deleting }
      deletions := s.deletions ++ [{ id := id, byTick := byTick, origin := row.origin }] }
  else none

/-- The row is read again for its path; without it the call fails, and with it the clean-up. -/
def readPath (i : ℕ) : Option World := do
  let d ← s.deletions[i]?
  if d.phase = .marked then
    match s.rows.get? d.id with
    | some row =>
        some { s with
          deletions := s.deletions.set i { d with phase := .found row.accountId row.restorePath } }
    | none =>
        some { s with
          deletions := s.deletions.eraseIdx i
          tick := if d.byTick = true then none else s.tick }
  else none

def logged (id : Id) : List Removal :=
  (s.rows.get? id).toList.map (⟨id, ·, s.clock⟩) ++ s.removals

def removeTree (i : ℕ) (stuck : List Path) : Option World := do
  let d ← s.deletions[i]?
  match d.phase with
  | .found accountId restorePath =>
      some { s with
        files := rmtree s.files host.cwd (deleteTarget accountId restorePath) (stuck.contains ·)
        deletions := s.deletions.set i { d with phase := .removed }
        removals := s.logged d.id }
  | _ => none

def dropRow (i : ℕ) : Option World := do
  let d ← s.deletions[i]?
  if d.phase = .removed then
    some { s with
      rows := s.rows.filter fun id _ => decide (id ≠ d.id)
      deletions := s.deletions.eraseIdx i
      removals := s.logged d.id }
  else none

/-! ## Clean-up -/

end World

/-- `cutoff < now`, in minutes of the time of the database. -/
def Row.idle (row : Row) (now : Time) : Bool :=
  row.ttlMinutes.any fun m => decide (row.lastAccessedAt + m * 60000000 < now)

namespace World

variable (host : Host) (s : World)

/-- The query of `cleanup_idle_mounts`. -/
def candidates : List (Id × Row) :=
  s.rows.rows.filter fun r => decide (r.2.kind = .ephemeral) && r.2.ttlMinutes.isSome

/-- One round of the loop of `cleanup_idle_mounts`. -/
def nextCandidate (t : Tick) : Option World :=
  match t.rest with
  | [] => some { s with tick := none }
  | (id, loaded) :: rest =>
      match if t.expired = true then s.rows.get? id else some loaded with
      | none => some { s with tick := none }
      | some row =>
          if row.idle t.now = true then
            match s.deleteRecovery id none true with
            | some s' => some { s' with tick := some { t with rest := rest, expired := true } }
            | none => some { s with tick := some { t with rest := rest } }
          else some { s with tick := some { t with rest := rest } }

def next : Event → Option World
  | .pass span => some { s with clock := s.clock + span }
  | .disk files => some { s with files := files }
  | .create mount => s.createRecovery host mount
  | .ensure mount existing => s.ensureMounted host mount existing
  | .insert i id madeAt => s.insertRow host i id madeAt
  | .finish k restored => s.finishRestore host k restored
  | .touch id => some (s.touchMount id)
  | .delete id accountId => s.deleteRecovery id accountId false
  | .read i => s.readPath i
  | .remove i stuck => s.removeTree host i stuck
  | .drop i => s.dropRow i
  | .tick found =>
      if s.tick.isNone = true ∧ found.Perm s.candidates then
        some { s with tick := some { now := s.clock, rest := found } }
      else none
  | .next => do
      let t ← s.tick
      if s.deletions.any (·.byTick) = true then none else s.nextCandidate t

end World

end MailFallback.Recoveries
