import MailFallback.Library.Table
import Mathlib.Data.Int.Notation

/-! # The database

The rows the modelled services read and write. A row is kept under its primary key,
so the records have no `id`. -/

namespace MailFallback

open Storage

abbrev Id := String

/-- Microseconds since the epoch, UTC. -/
abbrev Time := ℤ

inductive AuthType where
  | oauth2 | appPassword
  deriving DecidableEq, Repr

inductive SyncState where
  | idle | syncing | error | needsReauth
  deriving DecidableEq, Repr

inductive JobStatus where
  | pending | running | completed | failed | cancelled
  deriving DecidableEq, Repr

inductive MigrationStatus where
  | pending | copying | verifying | cleaning | completed | failed
  deriving DecidableEq, Repr

structure MailStore where
  path : String
  enabled : Bool := true
  deriving DecidableEq, Repr

inductive UserRole where
  | admin | user
  deriving DecidableEq, Repr

structure User where
  username : String
  storeId : Id
  migrating : Bool := false
  role : UserRole := .user
  enabled : Bool := true
  deriving DecidableEq, Repr

structure Account where
  maildirPath : String
  storeId : Id
  migrating : Bool := false
  suspended : Bool := false
  owners : List Id := []
  provider : String := "other"
  imapHost : String := ""
  authType : AuthType := .appPassword
  credentials : Option String := none
  extraConfig : Option String := none
  syncSchedule : Option String := some "0 * * * *"
  syncState : SyncState := .idle
  lastSyncAt : Option Time := none
  lastError : Option String := none
  trafficDate : Option ℤ := none
  bytesSyncedToday : ℕ := 0
  dailySyncBudgetMb : Option ℕ := none
  syncPausedUntil : Option Time := none
  pauseReason : Option String := none
  initialSyncCompletedAt : Option Time := none
  initialSyncTotalMessages : Option ℕ := none
  initialSyncTotalFolders : Option ℕ := none
  name : String := ""
  emailAddress : String := ""
  enabled : Bool := true
  createdAt : Time := 0
  deriving DecidableEq, Repr

/-- Python's truth of an optional string. -/
def given (s : Option String) : Bool := s.any fun s => s ≠ ""

def Account.isAuthenticated (a : Account) : Bool :=
  !(decide (a.authType = .oauth2) && !given a.credentials)

structure SyncJob where
  accountId : Id
  status : JobStatus := .pending
  requestedAt : Time
  startedAt : Option Time := none
  completedAt : Option Time := none
  exitCode : Option ℤ := none
  log : Option String := none
  logPath : Option String := none
  signal : Option String := none
  /-- A plain string by design: new kinds need no database migration. -/
  failureKind : Option String := none
  deriving DecidableEq, Repr

/-- The statuses that make `create_sync_job` refuse. -/
def JobStatus.isOpen : JobStatus → Bool
  | .pending | .running => true
  | .completed | .failed | .cancelled => false

structure StoreMigration where
  userId : Option Id := none
  accountId : Option Id := none
  sourceStoreId : Id
  targetStoreId : Id
  status : MigrationStatus := .pending
  totalFiles : ℕ := 0
  copiedFiles : ℕ := 0
  totalBytes : ℕ := 0
  copiedBytes : ℕ := 0
  error : Option String := none
  startedAt : Option Time := none
  completedAt : Option Time := none
  lastResumedAt : Option Time := none
  deriving DecidableEq, Repr

/-- The statuses that `_resume_migrations` picks up at boot. -/
def MigrationStatus.incomplete : MigrationStatus → Bool
  | .pending | .copying | .verifying | .cleaning => true
  | .completed | .failed => false

structure Db where
  stores : Table Id MailStore := .empty
  users : Table Id User := .empty
  accounts : Table Id Account := .empty
  migrations : Table Id StoreMigration := .empty
  syncJobs : Table Id SyncJob := .empty
  deriving DecidableEq

end MailFallback
