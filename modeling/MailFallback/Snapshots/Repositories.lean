import MailFallback.Library.Transition
import MailFallback.Snapshots.Semantics
import Mathlib.Logic.Function.Basic

/-! # Repositories and their bits

What happens to the restic repositories of the accounts and to `snapshot_messages`, over
backups, with the retention each of them ends in, and backfills. -/

namespace MailFallback.Snapshots

open Storage PyString Index Effects

/-- A snapshot in a repository, under its full id. -/
structure Snapshot where
  id : String
  id_ne : id ≠ ""
  deriving DecidableEq

/-- restic shortens an id to eight characters. -/
def Snapshot.shortId (s : Snapshot) : String := take s.id 8

/-- restic prints a snapshot with an id, in full or shortened, and may add the short id. -/
def Prints (e : SnapshotEntry) (s : Snapshot) : Prop :=
  (e.shortId = none ∨ e.shortId = some s.shortId) ∧ (e.id = some s.id ∨ e.id = some s.shortId)

/-- The `removed_snapshot_ids` of `apply_retention`, from the entries that restic printed. -/
def removedSnapshotIds (removed : List SnapshotEntry) : List String :=
  (removed.map SnapshotEntry.sid).filter fun sid => sid ≠ ""

theorem lawfulBEq_snapshotMessage {H : Type*} [DecidableEq H] : LawfulBEq (SnapshotMessage H) :=
  inferInstance

attribute [local instance] lawfulBEq_snapshotMessage

/-- The ids under which `_snapshot_bytes` looks for a message, of those restic lists. -/
def matching {H : Type*} [DecidableEq H] (accountId : Id) (messageIdHash : H)
    (bits : List (SnapshotMessage H)) (snaps : List SnapshotEntry) : List String :=
  (snaps.map SnapshotEntry.sid).filter fun sid => ⟨sid, accountId, messageIdHash⟩ ∈ bits

structure Vault (H : Type*) where
  repositories : Id → List Snapshot := fun _ => []
  indexes : Id → MailIndex H := fun _ => {}
  bits : List (SnapshotMessage H) := []

namespace Vault

variable {H : Type*} (v : Vault H)

def withRepository (accountId : Id) (snapshots : List Snapshot) : Vault H :=
  { v with repositories := Function.update v.repositories accountId snapshots }

def withIndex (accountId : Id) (index : MailIndex H) : Vault H :=
  { v with indexes := Function.update v.indexes accountId index }

def withBits (bits : List (SnapshotMessage H)) : Vault H := { v with bits }

end Vault

/-- What restic and the database do in one run of `execute_backup`. -/
structure ResticRun where
  created : Option Snapshot := none
  backup : Except BackupExc Summary
  forgotten : List Snapshot := []
  forget : Except BackupExc (List SnapshotEntry) := .ok []
  /-- The ids whose rows cannot be deleted. -/
  pruneFails : String → Bool := fun _ => false

section Machine

variable {H : Type} [DecidableEq H] (policyId accountId : Id) (plan : ResticRun)

/-- The snapshots once restic has made its backup. -/
def backedUp (v : Vault H) : Vault H :=
  v.withRepository accountId (v.repositories accountId ++ plan.created.toList)

/-- The snapshots once restic has forgotten some. -/
def retained (v : Vault H) : Vault H :=
  v.withRepository accountId ((v.repositories accountId).filter fun s => s ∉ plan.forgotten)

/-- What the operations of a backup of the account do to repositories and bits. -/
def vaultStep : Machine BackupOp BackupAns BackupExc (Vault H)
  | .view, v, .ok (db : BackupDb) =>
      if (db.policies.get? policyId).all (fun p => p.accountId = accountId) = true then some v
      else none
  | .waitRestic, v, .ok (summary : Summary) =>
      match plan.backup with
      | .ok summary' => if summary = summary' then some (backedUp accountId plan v) else none
      | .error _ => none
  | .waitRestic, v, .error e =>
      match plan.backup with
      | .ok _ => none
      | .error e' => if e = e' then some (backedUp accountId plan v) else none
  | .recordSnapshot snapshotId, v, .ok (inserted : Bool) =>
      if inserted = !(aliveMessages (v.indexes accountId)).isEmpty then
        some (v.withBits (recordSnapshot accountId snapshotId (v.indexes accountId) v.bits).1)
      else none
  | .applyRetention, v, .ok (removed : List String) =>
      match plan.forget with
      | .ok printed =>
          if removed = removedSnapshotIds printed then some (retained accountId plan v) else none
      | .error _ => none
  | .applyRetention, v, .error e =>
      match plan.forget with
      | .ok _ => none
      | .error e' => if e = e' then some (retained accountId plan v) else none
  | .pruneSnapshot snapshotId, v, .ok _ =>
      if plan.pruneFails snapshotId = true then none
      else some (v.withBits (pruneSnapshot snapshotId v.bits).1)
  | .pruneSnapshot snapshotId, v, .error _ =>
      if plan.pruneFails snapshotId = true then some v else none
  | _, v, _ => some v

end Machine

inductive VaultEvent (H : Type) where
  | backup (policyId accountId : Id) (plan : ResticRun)
  | backfill (accountId : Id) (db : BackupDb) (restic : Restic)
  /-- The index of the account changes. -/
  | reindex (accountId : Id) (index : MailIndex H)

def VaultEvent.accountId {H : Type} : VaultEvent H → Id
  | .backup _ accountId _ | .backfill accountId .. | .reindex accountId _ => accountId

/-- What restic prints is about the snapshots there are. -/
structure ResticRun.Faithful (plan : ResticRun) : Prop where
  summary : ∀ summary, plan.backup = .ok summary → ∀ sid, summary.snapshotId = some sid →
    ∃ s, plan.created = some s ∧ (sid = s.id ∨ sid = s.shortId)
  printed : ∀ printed, plan.forget = .ok printed →
    (∀ s ∈ plan.forgotten, ∃ e ∈ printed, Prints e s) ∧
      ∀ e ∈ printed, ∃ s ∈ plan.forgotten, Prints e s

variable {H : Type} [DecidableEq H]

/-- A whole run of the function that the event names. -/
inductive VaultStep : Vault H → VaultEvent H → Vault H → Prop where
  | backup {policyId accountId plan v tr p v'} : plan.Faithful →
      Run (vaultStep policyId accountId plan) (executeBackup policyId) v tr p v' →
      p.finished = true → VaultStep v (.backup policyId accountId plan) v'
  | backfill {accountId db restic snaps v b} : restic.snapshots = .ok snaps →
      (∀ e ∈ snaps, ∃ s ∈ v.repositories accountId, Prints e s) →
      backfillSnapshots db restic accountId (v.indexes accountId) v.bits = .ok b →
      VaultStep v (.backfill accountId db restic) (v.withBits b.bits)
  | reindex {accountId index v} :
      VaultStep v (.reindex accountId index) (v.withIndex accountId index)

end MailFallback.Snapshots
