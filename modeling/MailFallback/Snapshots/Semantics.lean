import MailFallback.Backup.Semantics
import MailFallback.Index.Semantics

/-! # The snapshot bits

`snapshot_messages` says which messages lie in which restic snapshot. Its rows come from
`record_snapshot` and `backfill_snapshots`, and `prune_snapshot` deletes them. What restic
lists comes from outside. -/

namespace MailFallback.Snapshots

open Storage PyString Index

/-- A row of `snapshot_messages`, all of it key. -/
structure SnapshotMessage (H : Type*) where
  snapshotId : String
  accountId : Id
  messageIdHash : H
  deriving DecidableEq, Repr

/-- A snapshot as restic prints it. -/
structure SnapshotEntry where
  shortId : Option String := none
  id : Option String := none
  deriving DecidableEq, Repr

/-- `s.get("short_id") or s.get("id", "")[:8]` -/
def SnapshotEntry.sid (s : SnapshotEntry) : String :=
  if given s.shortId = true then s.shortId.getD "" else take (s.id.getD "") 8

/-- A Maildir file name without its flags, which change while the rest stays. -/
def maildirFilenamePrefix (filename : String) : String :=
  match before? ":2,".toList filename.toList with
  | some stem => String.ofList stem ++ ":2,"
  | none => filename

variable {H : Type*} [DecidableEq H]

def aliveMessages (index : MailIndex H) : List (H × MessageRow) :=
  index.messages.rows.filter fun row => row.2.deletedAt.isNone

/-- `INSERT ... ON CONFLICT DO NOTHING` -/
def insertIgnore (bits rows : List (SnapshotMessage H)) : List (SnapshotMessage H) :=
  rows.foldl (fun bits row => if row ∈ bits then bits else bits ++ [row]) bits

/-- The rows afterwards, and how many were inserted. -/
def recordSnapshot (accountId : Id) (snapshotId : String) (index : MailIndex H)
    (bits : List (SnapshotMessage H)) : List (SnapshotMessage H) × ℕ :=
  let rows := (aliveMessages index).map fun row => ⟨snapshotId, accountId, row.1⟩
  (insertIgnore bits rows, (insertIgnore bits rows).length - bits.length)

/-- The rows afterwards, and how many were deleted. The account is not asked for. -/
def pruneSnapshot (snapshotId : String) (bits : List (SnapshotMessage H)) :
    List (SnapshotMessage H) × ℕ :=
  let kept := bits.filter fun row => row.snapshotId ≠ snapshotId
  (kept, bits.length - kept.length)

/-! ## The backfill -/

/-- The repository of an account: its snapshots, the files in each, and the ids for which the
listing raises. -/
structure Restic where
  snapshots : Except String (List SnapshotEntry)
  listing : String → List String
  raises : String → Option String := fun _ => none

def Restic.listFiles (restic : Restic) (snapshotId : String) : Except String (List String) :=
  match restic.raises snapshotId with
  | some e => .error e
  | none => .ok (restic.listing snapshotId)

/-- Of alive messages with equal prefixes the last one read is kept. -/
def prefixToHash (alive : List (H × MessageRow)) : Table String H :=
  alive.foldl (fun t row => t.set (maildirFilenamePrefix row.2.maildirFilename) row.1) .empty

/-- The test for a file of a `cur` or `new` directory. -/
def passesCurOrNew (path : String) : Bool := has path "/cur/" || has path "/new/"

/-- A digest is never empty, so `if h` asks only whether there is one. -/
def seenHashes (lookup : Table String H) (paths : List String) : List H :=
  paths.foldl (fun seen path =>
    if passesCurOrNew path = true then
      match lookup.get? (maildirFilenamePrefix (basename path)) with
      | some h => seen.insert h
      | none => seen
    else seen) []

/-- What is yielded for each snapshot. -/
structure Progress where
  snapshotId : String
  total : ℕ
  processed : ℕ
  bitsInserted : ℕ
  skipped : Bool
  deriving DecidableEq, Repr

structure Backfill (H : Type*) where
  bits : List (SnapshotMessage H)
  status : Option RebuildStatus
  yielded : List Progress := []
  raised : Option String := none

def Backfill.yield (b : Backfill H) (progress : Progress) : Backfill H :=
  { b with yielded := b.yielded ++ [progress] }

section Loop

variable (restic : Restic) (accountId : Id) (lookup : Table String H) (alreadyDone : List String)
  (total : ℕ)

/-- The loop over the snapshots from the `i`-th one on. -/
def backfillLoop : ℕ → List SnapshotEntry → Backfill H → Backfill H
  | _, [], b =>
      { b with status := b.status.map fun rs => { rs with state := .idle, lastError := none } }
  | i, s :: snaps, b =>
      if s.sid = "" then backfillLoop (i + 1) snaps b
      else if s.sid ∈ alreadyDone then
        backfillLoop (i + 1) snaps (b.yield ⟨s.sid, total, i + 1, 0, true⟩)
      else
        match restic.listFiles s.sid with
        | .error e =>
            { b with
              status := b.status.map fun rs => { rs with state := .failed, lastError := some e }
              raised := some e }
        | .ok paths =>
            let bits := insertIgnore b.bits
              ((seenHashes lookup paths).map fun h => ⟨s.sid, accountId, h⟩)
            backfillLoop (i + 1) snaps
              ({ b with bits }.yield
                ⟨s.sid, total, i + 1, bits.length - b.bits.length, false⟩)

end Loop

/-- The snapshots of the account that have a row. -/
def alreadyDone (accountId : Id) (bits : List (SnapshotMessage H)) : List String :=
  ((bits.filter fun row => row.accountId = accountId).map SnapshotMessage.snapshotId).dedup

/-- An exception before the loop leaves everything as it was; one in the loop is told by
`raised`. -/
def backfillSnapshots (db : BackupDb) (restic : Restic) (accountId : Id) (index : MailIndex H)
    (bits : List (SnapshotMessage H)) : Except String (Backfill H) :=
  if db.policies.rows.any (fun row => row.2.accountId = accountId) = true then
    restic.snapshots.map fun snaps =>
      let status := index.status.map fun rs => { rs with state := .snapBackfilling }
      backfillLoop restic accountId (prefixToHash (aliveMessages index))
        (alreadyDone accountId bits) snaps.length 0 snaps { bits, status }
  else .error s!"Account {accountId} has no backup policy"

end MailFallback.Snapshots
