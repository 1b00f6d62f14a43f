import MailFallback.Library.Query
import MailFallback.Store.Semantics

/-! # Who sees an account

A user sees the accounts he owns and those shared with one of his groups. The services ask
for them in five places, each with its own query. -/

namespace MailFallback.Access

open Storage Query

inductive RecoveryStatus where
  | restoring | ready | failed | deleting
  deriving DecidableEq, Repr

structure Recovery where
  accountId : Id
  snapshotId : String
  restoredAt : Option Time := none
  restorePath : String
  status : RecoveryStatus := .restoring
  deriving DecidableEq, Repr

/-- `ORDER BY restored_at DESC`, where no moment counts as the latest. -/
def Recovery.notOlder (a b : Recovery) : Prop :=
  match a.restoredAt, b.restoredAt with
  | none, _ => True
  | some _, none => False
  | some s, some t => t ≤ s

theorem Recovery.notOlder_total (a b : Recovery) : a.notOlder b ∨ b.notOlder a := by
  unfold Recovery.notOlder
  cases a.restoredAt with
  | none => exact .inl trivial
  | some s => cases b.restoredAt with
    | none => exact .inr trivial
    | some t => exact le_total t s

theorem Recovery.notOlder_trans {a b c : Recovery} (h : a.notOlder b) (h' : b.notOlder c) :
    a.notOlder c := by
  unfold Recovery.notOlder at *
  cases ha : a.restoredAt with
  | none => trivial
  | some s => cases hb : b.restoredAt with
    | none => simp [ha, hb] at h
    | some t => cases hc : c.restoredAt with
      | none => simp [hb, hc] at h'
      | some r =>
          rw [ha, hb] at h
          rw [hb, hc] at h'
          exact le_trans h' h

/-- The tables with the constraints the database keeps on them. -/
structure AccessDb extends Db where
  /-- Group and member. -/
  groupMembers : Multiset (Id × Id) := 0
  /-- Account and group. -/
  accountGroups : Multiset (Id × Id) := 0
  recoveries : Table Id Recovery := .empty
  usernames : ∀ i j u u', users.get? i = some u → users.get? j = some u' →
    u.username = u'.username → i = j
  userStores : ∀ i u, users.get? i = some u → (stores.get? u.storeId).isSome
  accountStores : ∀ i a, accounts.get? i = some a → (stores.get? a.storeId).isSome
  sharedAccounts : ∀ r ∈ accountGroups, (accounts.get? r.1).isSome

namespace AccessDb

variable (db : AccessDb)

def accountRows : Multiset (Id × Account) := (db.accounts.rows : Multiset (Id × Account))

/-- `account_owners`: account and user. -/
def accountOwners : Multiset (Id × Id) :=
  db.accountRows.bind fun row => (row.2.owners.map fun userId => (row.1, userId) : List (Id × Id))

/-- The accounts joined with their owners. -/
def ownerJoin : Multiset ((Id × Account) × Id × Id) :=
  join (fun row owner => owner.1 = row.1) db.accountRows db.accountOwners

/-- The groups of an account joined with their members. -/
def memberJoin : Multiset ((Id × Id) × Id × Id) :=
  join (fun accountGroup member => accountGroup.2 = member.1) db.accountGroups db.groupMembers

/-- The accounts joined with their groups and the members of these. -/
def groupJoin : Multiset (((Id × Account) × Id × Id) × Id × Id) :=
  join (fun row member => member.1 = row.2.2)
    (join (fun row accountGroup => accountGroup.1 = row.1) db.accountRows db.accountGroups)
    db.groupMembers

end AccessDb

/-- The orders in which the queries come back. -/
structure Orders where
  ids : Unordered Id
  accounts : Unordered (Id × Account)
  byCreation : Order (Id × Account) fun a b => a.2.createdAt ≤ b.2.createdAt
  newestFirst : Order (Id × Recovery) fun a b => a.2.notOlder b.2

variable (orders : Orders) (db : AccessDb)

/-! ## The account service -/

/-- "My mailboxes", whatever the role. -/
def getOwnAccounts (userId : Id) : List (Id × Account) :=
  let owned := (db.ownerJoin.filter fun r => r.2.2 = userId).map fun r => r.1.1
  let viaGroups := (db.groupJoin.filter fun r => r.2.2 = userId).map fun r => r.1.1.1
  let allIds := union owned viaGroups
  if allIds = 0 then []
  else orders.accounts.list (db.accountRows.filter fun row => row.1 ∈ allIds)

def getAccountsForUser (userId : Id) (user : User) : List (Id × Account) :=
  if user.role = .admin then orders.accounts.list db.accountRows
  else getOwnAccounts orders db userId

def getAccount (accountId userId : Id) (user : User) : Option Account :=
  match db.accounts.get? accountId with
  | none => none
  | some account =>
      if user.role = .admin then some account
      else if userId ∈ account.owners then some account
      else
        let viaGroup := db.memberJoin.filter fun r => r.1.1 = accountId ∧ r.2.2 = userId
        if viaGroup ≠ 0 then some account else none

/-! ## The search service and the agent API -/

/-- `_accessible_account_ids` -/
def accessibleAccountIds (userId : Id) : List Id :=
  let owned := (db.ownerJoin.filter fun r => r.2.2 = userId).map fun r => r.1.1
  let viaGroups := (db.groupJoin.filter fun r => r.2.2 = userId).map fun r => r.1.1.1
  orders.ids.list (union owned viaGroups)

structure HttpError where
  status : ℕ
  detail : String
  deriving DecidableEq, Repr

/-- `_agent_account` -/
def agentAccount (userId accountId : Id) : Except HttpError Account :=
  if accountId ∈ accessibleAccountIds orders db userId then
    match db.accounts.get? accountId with
    | none => .error ⟨404, "Mailbox not found"⟩
    | some account => .ok account
  else .error ⟨404, "Mailbox not found"⟩

/-! ## The namespaces of Dovecot -/

structure Namespace where
  name : String
  pre : String
  mailDriver : String := "maildir"
  mailPath : String
  inbox : Bool
  deriving DecidableEq, Repr

structure UserdbReply where
  uid : ℕ := 1000
  gid : ℕ := 1000
  home : String
  namespaces : List Namespace
  deriving DecidableEq, Repr

/-- `account_namespace_prefix` -/
def accountNamespacePrefix (accountId : Id) (account : Account) : String :=
  let shortId := String.ofList (accountId.toList.drop (accountId.toList.length - 4))
  account.name ++ " (" ++ account.emailAddress ++ ") [" ++ shortId ++ "]/"

/-- `recovery_namespace_prefix`; `day` is the date of the moment as `strftime` writes it. -/
def recoveryNamespacePrefix (day : Time → String) (recoveryId : Id) (recovery : Recovery)
    (accountLabel : String) : String :=
  let short := String.ofList (recoveryId.toList.take 8)
  let ts := (recovery.restoredAt.map day).getD "snapshot"
  "Recovery - " ++ accountLabel ++ " (" ++ ts ++ ") [" ++ short ++ "]/"

/-- The accounts of the user that Dovecot serves: enabled, not suspended, on an enabled store. -/
def servedAccounts (userId : Id) : List (Id × Account) :=
  let owned := (db.ownerJoin.filter fun r => r.2.2 = userId).map fun r => r.1
  let viaGroups := (db.groupJoin.filter fun r => r.2.2 = userId).map fun r => r.1.1
  (orders.byCreation.list (union owned viaGroups)).filter fun row =>
    row.2.enabled && !row.2.suspended && (db.stores.get? row.2.storeId).any MailStore.enabled

def accountNamespaces (accounts : List (Id × Account)) : List Namespace :=
  accounts.zipIdx.map fun (row, i) =>
    { name := "acc_" ++ row.1
      pre := accountNamespacePrefix row.1 row.2
      mailPath := row.2.maildirPath
      inbox := i == 0 }

/-- Of the recoveries of one snapshot the newest is kept. -/
def uniqueRecoveries (recoveries : List (Id × Recovery)) : List (Id × Recovery) :=
  recoveries.foldl (fun kept row =>
    if kept.any fun other => other.2.accountId = row.2.accountId ∧
        other.2.snapshotId = row.2.snapshotId then kept
    else kept ++ [row]) []

def recoveryNamespaces (day : Time → String) (accounts : List (Id × Account)) : List Namespace :=
  let recoveries := orders.newestFirst.list
    ((db.recoveries.rows : Multiset (Id × Recovery)).filter fun row =>
      row.2.accountId ∈ accounts.map Prod.fst ∧ row.2.status = .ready)
  (uniqueRecoveries recoveries).filterMap fun row =>
    (accounts.find? fun account => account.1 = row.2.accountId).map fun account =>
      { name := "rec_" ++ row.1
        pre := recoveryNamespacePrefix day row.1 row.2 account.2.name
        mailPath := row.2.restorePath
        inbox := false }

def userdbLookup (day : Time → String) (username : String) : Except HttpError UserdbReply :=
  match db.users.rows.find? fun row => row.2.username = username with
  | none => .error ⟨404, "User not found"⟩
  | some (userId, user) =>
      if !user.enabled || user.migrating then .error ⟨404, "User not found"⟩
      else
        match db.stores.get? user.storeId with
        -- The foreign key excludes this.
        | none => .error ⟨500, "Internal Server Error"⟩
        | some store =>
            let accounts := servedAccounts orders db userId
            .ok {
              home := dovecotHomeDir (Posix.rstripSlash store.path) username
              namespaces := accountNamespaces accounts ++
                recoveryNamespaces orders db day accounts }

end MailFallback.Access
