import MailFallback.Library.PosixPath
import MailFallback.Library.Disk
import MailFallback.Library.PathLookup
import MailFallback.Library.PathSplit
import MailFallback.Library.Table
import MailFallback.Library.Program
import MailFallback.Library.Transition
import MailFallback.Library.Relational
import MailFallback.Library.IsoFormat
import MailFallback.Library.Base64
import MailFallback.Tables
import MailFallback.Store.Semantics
import MailFallback.Store.Orphans
import MailFallback.Store.Homes
import MailFallback.Folders.Semantics
import MailFallback.Folders.Quarantine
import MailFallback.Folders.Correctness
import MailFallback.Migration.Semantics
import MailFallback.Migration.FileOps
import MailFallback.Migration.CopyTree
import MailFallback.Migration.Rows
import MailFallback.Migration.Verify
import MailFallback.Migration.Completeness
import MailFallback.Migration.Nesting
import MailFallback.Migration.Safety
import MailFallback.Migration.Homes
import MailFallback.Sync.Writes
import MailFallback.Sync.Semantics
import MailFallback.Sync.Stages
import MailFallback.Sync.Discipline
import MailFallback.Sync.Session
import MailFallback.Sync.Attempt
import MailFallback.Sync.Actors
import MailFallback.Sync.System
import MailFallback.Sync.OpenJobs
import MailFallback.Sync.Invariants
import MailFallback.Sync.Sound
import MailFallback.Sync.Recovery
import MailFallback.Sync.Processes
import MailFallback.Sync.Closing
import MailFallback.Backup.Semantics
import MailFallback.Backup.Discipline
import MailFallback.Backup.System
import MailFallback.Backup.Endings
import MailFallback.Backup.Invariants
import MailFallback.Backup.Outcomes
import MailFallback.Boot.Semantics
import MailFallback.Boot.DeadWork
import MailFallback.Config.Schema
import MailFallback.Config.Semantics
import MailFallback.Config.Transfer
import MailFallback.Config.Run
import MailFallback.Config.References
import MailFallback.Config.Idempotence
import MailFallback.Config.Secrets
import MailFallback.Config.Flags
import MailFallback.Scheduler.Mirror
import MailFallback.Index.Convergence
import MailFallback.Snapshots.Backfill
import MailFallback.Snapshots.Truthful
import MailFallback.Access.Agreement
import MailFallback.Search.Noninterference
import MailFallback.Status.Agreement
import MailFallback.Status.Actions
import MailFallback.Sync.Pauses
import MailFallback.Staging.Accounting
import MailFallback.Tokens.Verification
import MailFallback.Config.DefaultStore
import MailFallback.TempUsers.Prefix
import MailFallback.Stops.BudgetStops
import MailFallback.Recoveries.IdleMounts
import MailFallback.Sync.Ledger
import MailFallback.Sync.BudgetPauses
import MailFallback.Library.Regex
import MailFallback.Progress.Semantics
import MailFallback.Sync.Finalisation
import MailFallback.Folders.Naming
import MailFallback.Folders.Listing
import MailFallback.Folders.ListNames
import MailFallback.Folders.Conservation
import MailFallback.Library.ModifiedUtf7
import MailFallback.Restore.WireNames
import MailFallback.Restore.FolderMapping
import MailFallback.Restore.Semantics
import MailFallback.Restore.Network
import MailFallback.Restore.Selection
import MailFallback.Library.Paging
import MailFallback.Search.Paging
import MailFallback.Restore.Quoting
import MailFallback.Restore.Reconnect
import MailFallback.Search.Dovecot
import MailFallback.Search.BodyHits
import MailFallback.Library.SlidingWindow
import MailFallback.Middleware.RateLimit
import MailFallback.Sync.Backoff
import MailFallback.Access.Namespaces
import MailFallback.Snapshots.Renames
import MailFallback.Progress.Growth
import MailFallback.Migration.AllowedStores
import MailFallback.Staging.Rejection
import MailFallback.Search.Resolving
import MailFallback.Search.Attachments
import MailFallback.Sync.Mbsyncrc
import MailFallback.Sync.MbsyncArguments
import MailFallback.Restore.Cancelling
import MailFallback.TempUsers.Restores
import MailFallback.Library.Pipes
import MailFallback.Library.TextReader
import MailFallback.Backup.Streaming
import MailFallback.Restore.Accounting
import MailFallback.Scheduler.Refresh
import MailFallback.Staging.Pushed
import MailFallback.Access.OAuth
import MailFallback.Access.Credentials
import MailFallback.Boot.Tasks
import MailFallback.Status.Alerts
import MailFallback.Tokens.Surfaces
import MailFallback.Access.Sharing
import MailFallback.Search.Criteria
import MailFallback.Index.AttachmentBackfill
