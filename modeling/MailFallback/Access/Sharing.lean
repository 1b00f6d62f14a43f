import MailFallback.Access.Agreement
import MailFallback.Library.Provenance
import MailFallback.Library.PyString

/-! # Who may share an account

An account is seen by its owners and through groups. The rows behind this are written by the forms
of the administrators, by the owners of a group and by every login of an identity provider. -/

namespace MailFallback.Sharing

open Storage Access Transition

/-! ## The tables -/

structure Group where
  name : String
  ownerId : Id
  ssoSync : Bool := false
  deriving DecidableEq, Repr

structure SharingDb extends AccessDb where
  groups : Table Id Group := .empty
  /-- `oidc_subject`, which is unique. -/
  subjects : Table String Id := .empty

namespace SharingDb

variable (db : SharingDb)

/-- `_get_session_user` -/
def sessionUser (userId : Id) : Option User :=
  (db.users.get? userId).filter User.enabled

def isAdmin (userId : Id) : Bool :=
  (db.sessionUser userId).any fun user => user.role = .admin

/-- `user.accounts` -/
def ownedIds (userId : Id) : List Id :=
  (db.accounts.rows.filter fun row => userId ∈ row.2.owners).map Prod.fst

/-- `group.accounts` -/
def accountsOf (groupId : Id) : Multiset Id :=
  (db.accountGroups.filter fun r => r.2 = groupId).map Prod.fst

def withMembers (rows : Multiset (Id × Id)) : SharingDb := { db with groupMembers := rows }

/-- Other owners of the accounts. -/
def mapOwners (f : Id → List Id → List Id) : SharingDb :=
  { db with
    accounts := db.accounts.map fun id account => { account with owners := f id account.owners }
    accountStores := by
      intro i a ha
      rw [Table.get?_map, Option.map_eq_some_iff] at ha
      obtain ⟨a, ha, rfl⟩ := ha
      exact db.accountStores i a ha
    sharedAccounts := by
      intro r hr
      rw [Table.get?_map, Option.isSome_map]
      exact db.sharedAccounts r hr }

/-! ## The group service -/

/-- `create_group`; the name is unique, and the owner a user. -/
def createGroup (groupId : Id) (name : String) (ownerId : Id) (ssoSync : Bool) : Option SharingDb :=
  if (db.users.get? ownerId).isNone ∨ (db.groups.get? groupId).isSome ∨
      (db.groups.rows.any fun row => row.2.name = name) = true then none
  else some { db with groups := db.groups.set groupId ⟨name, ownerId, ssoSync⟩ }

/-- `update_group`, as its one caller calls it. -/
def updateGroup (groupId : Id) (ssoSync : Bool) : SharingDb :=
  { db with groups := db.groups.modify groupId fun group => { group with ssoSync := ssoSync } }

/-- `delete_group` -/
def deleteGroup (groupId : Id) : SharingDb :=
  { db with
    groups := db.groups.filter fun id _ => id ≠ groupId
    groupMembers := db.groupMembers.filter fun r => r.1 ≠ groupId
    accountGroups := db.accountGroups.filter fun r => r.2 ≠ groupId
    sharedAccounts := fun r hr => db.sharedAccounts r (Multiset.mem_filter.mp hr).1 }

/-- `group.members = ...` -/
def setMembers (groupId : Id) (memberIds : List Id) : SharingDb :=
  db.withMembers ((db.groupMembers.filter fun r => r.1 ≠ groupId) +
    ((db.users.keys.filter fun id => id ∈ memberIds).map fun id => (groupId, id) : List (Id × Id)))

/-- `set_group_accounts` -/
def setGroupAccounts (groupId : Id) (accountIds : Multiset Id) : SharingDb :=
  { db with
    accountGroups := (db.accountGroups.filter fun r => r.2 ≠ groupId) +
      ((db.accounts.keys.filter fun id => id ∈ accountIds).map fun id => (id, groupId) :
        List (Id × Id))
    sharedAccounts := by
      intro r hr
      rw [Multiset.mem_add] at hr
      cases hr with
      | inl hr => exact db.sharedAccounts r (Multiset.mem_filter.mp hr).1
      | inr hr =>
          rw [Multiset.mem_coe, List.mem_map] at hr
          obtain ⟨id, hid, rfl⟩ := hr
          obtain ⟨a, ha⟩ := Table.mem_keys.mp (List.mem_filter.mp hid).1
          rw [ha]
          rfl }

/-- `can_manage_group` -/
def canManageGroup (userId : Id) (user : User) (group : Group) : Bool :=
  user.role = .admin || userId = group.ownerId

/-- One round of the loop of `sync_sso_groups`. -/
def syncSsoGroup (userId : Id) (names : List String) (members : Multiset (Id × Id))
    (row : Id × Group) : Multiset (Id × Id) :=
  if row.2.name ∈ names then
    if (row.1, userId) ∈ members then members else (row.1, userId) ::ₘ members
  else members.filter fun r => r ≠ (row.1, userId)

/-- `sync_sso_groups` -/
def syncSsoGroups (userId : Id) (names : List String) : SharingDb :=
  db.withMembers
    ((db.groups.rows.filter fun row => row.2.ssoSync).foldl (syncSsoGroup userId names)
      db.groupMembers)

/-! ## The account service and the users -/

/-- `create_account` and `assign_owner` for the one who asks. -/
def createAccount (accountId : Id) (account : Account) (ownerId : Id) : Option SharingDb :=
  if hnew : db.accounts.get? accountId = none then
    if hstore : (db.stores.get? account.storeId).isSome then
      some { db with
        accounts := db.accounts.add accountId { account with owners := [ownerId] } hnew
        accountStores := by
          intro i a ha
          rw [Table.get?_add] at ha
          split at ha
          · obtain rfl := Option.some.inj ha
            exact hstore
          · exact db.accountStores i a ha
        sharedAccounts := by
          intro r hr
          rw [Table.get?_add]
          split
          · rfl
          · exact db.sharedAccounts r hr }
    else none
  else none

/-- `delete_account` -/
def deleteAccount (accountId : Id) : SharingDb :=
  { db with
    accounts := db.accounts.filter fun id _ => id ≠ accountId
    accountGroups := db.accountGroups.filter fun r => r.1 ≠ accountId
    accountStores := by
      intro i a ha
      rw [Table.get?_filter, Option.filter_eq_some_iff] at ha
      exact db.accountStores i a ha.1
    sharedAccounts := by
      intro r hr
      obtain ⟨hr, hne⟩ := Multiset.mem_filter.mp hr
      obtain ⟨a, ha⟩ := Option.isSome_iff_exists.mp (db.sharedAccounts r hr)
      rw [Table.get?_filter, ha]
      simp [hne] }

/-- `assign_owner` -/
def assignOwner (accountId userId : Id) : Option SharingDb :=
  if (db.accounts.get? accountId).isNone ∨ (db.users.get? userId).isNone then none
  else some (db.mapOwners fun id owners =>
    if id = accountId ∧ userId ∉ owners then owners ++ [userId] else owners)

/-- `remove_owner` -/
def removeOwner (accountId userId : Id) : SharingDb :=
  db.mapOwners fun id owners => if id = accountId then owners.filter (· ≠ userId) else owners

/-- The role is written, and nothing else of the user. -/
def setRole (userId : Id) (role : UserRole) : SharingDb :=
  { db with
    users := db.users.modify userId fun user => { user with role := role }
    usernames := by
      intro i j u u' hu hu' hname
      rw [Table.modify, Table.get?_map, Option.map_eq_some_iff] at hu hu'
      obtain ⟨v, hv, rfl⟩ := hu
      obtain ⟨v', hv', rfl⟩ := hu'
      refine db.usernames i j v v' hv hv' ?_
      split at hname <;> split at hname <;> exact hname
    userStores := by
      intro i u hu
      rw [Table.modify, Table.get?_map, Option.map_eq_some_iff] at hu
      obtain ⟨v, hv, rfl⟩ := hu
      have hstore := db.userStores i v hv
      split <;> exact hstore }

/-- A new row of `users`; the username is unique. -/
def addUser (userId : Id) (user : User) : Option SharingDb :=
  if hnew : db.users.get? userId = none then
    if hname : ∀ row ∈ db.users.rows, row.2.username ≠ user.username then
      if hstore : (db.stores.get? user.storeId).isSome then
        some { db with
          users := db.users.add userId user hnew
          usernames := by
            intro i j u u' hu hu' heq
            rw [Table.get?_add] at hu hu'
            split at hu <;> split at hu'
            · rename_i hi hj
              rw [hi, hj]
            · obtain rfl := Option.some.inj hu
              exact absurd heq.symm (hname _ (Table.mem_rows.mpr hu'))
            · obtain rfl := Option.some.inj hu'
              exact absurd heq (hname _ (Table.mem_rows.mpr hu))
            · exact db.usernames i j u u' hu hu' heq
          userStores := by
            intro i u hu
            rw [Table.get?_add] at hu
            split at hu
            · obtain rfl := Option.some.inj hu
              exact hstore
            · exact db.userStores i u hu }
      else none
    else none
  else none

/-- `delete_user`; a user who owns a group is not deleted, because the group refers to it. -/
def deleteUser (userId : Id) : Option SharingDb :=
  if (db.groups.rows.any fun row => row.2.ownerId = userId) = true then none
  else
    let cleared := (db.mapOwners fun _ owners => owners.filter (· ≠ userId)).withMembers
      (db.groupMembers.filter fun r => r.2 ≠ userId)
    some { cleared with
      users := db.users.filter fun id _ => id ≠ userId
      subjects := db.subjects.filter fun _ id => id ≠ userId
      usernames := by
        intro i j u u' hu hu' heq
        rw [Table.get?_filter, Option.filter_eq_some_iff] at hu hu'
        exact db.usernames i j u u' hu.1 hu'.1 heq
      userStores := by
        intro i u hu
        rw [Table.get?_filter, Option.filter_eq_some_iff] at hu
        exact db.userStores i u hu.1 }

end SharingDb

/-! ## The routes -/

structure SsoSettings where
  userGroup : String := ""
  adminGroup : String := ""
  storeId : Id

/-- What the identity provider says of a user. -/
structure Claims where
  sub : String
  rawUsername : String
  groups : List String := []
  deriving DecidableEq, Repr

/-- The role that the groups give. -/
def Claims.role (settings : SsoSettings) (claims : Claims) : UserRole :=
  if settings.adminGroup ≠ "" ∧ settings.adminGroup ∈ claims.groups then .admin else .user

def Claims.admitted (settings : SsoSettings) (claims : Claims) : Bool :=
  settings.userGroup = "" || settings.userGroup ∈ claims.groups ||
    (settings.adminGroup ≠ "" && settings.adminGroup ∈ claims.groups)

/-- The user row of `oidc_callback`: found by the subject and given the role, or made. -/
def oidcUser (settings : SsoSettings) (db : SharingDb) (claims : Claims) (newUserId : Id) :
    Option (SharingDb × Id) :=
  match db.subjects.get? claims.sub with
  | some userId =>
      if settings.adminGroup = "" then some (db, userId)
      else some (db.setRole userId (claims.role settings), userId)
  | none =>
      (db.addUser newUserId
        { username := oidcUsername claims.rawUsername
          storeId := settings.storeId
          role := claims.role settings }).map fun db =>
        ({ db with subjects := db.subjects.set claims.sub newUserId }, newUserId)

/-- `oidc_callback`, with the database it leaves and the user it logs in. -/
def oidcCallback (settings : SsoSettings) (db : SharingDb) (claims : Claims) (newUserId : Id) :
    Option (SharingDb × Id) :=
  if PyString.strip claims.sub = "" then none
  else if claims.admitted settings = false then none
  else (oidcUser settings db claims newUserId).map fun r =>
    (r.1.syncSsoGroups r.2 claims.groups, r.2)

/-- `admin_edit_group` -/
def editGroup (db : SharingDb) (actor groupId : Id) (memberIds accountIds : List Id)
    (ssoSync : Bool) : Option SharingDb :=
  match db.sessionUser actor, db.groups.get? groupId with
  | some user, some group =>
      if SharingDb.canManageGroup actor user group = false then none
      else if user.role = .admin then
        some (((db.updateGroup groupId ssoSync).setMembers groupId memberIds).setGroupAccounts
          groupId accountIds)
      else
        let safeAccountIds := accountIds.filter fun id => id ∈ db.ownedIds actor
        let nonOwnedIds := (db.accountsOf groupId).filter fun id => id ∉ db.ownedIds actor
        some (db.setGroupAccounts groupId (safeAccountIds + nonOwnedIds))
  | _, _ => none

inductive SharingEvent where
  | createGroup (actor groupId : Id) (name : String) (ownerId : Option Id) (ssoSync : Bool)
  | editGroup (actor groupId : Id) (memberIds accountIds : List Id) (ssoSync : Bool)
  | deleteGroup (actor groupId : Id)
  | createAccount (actor accountId : Id) (account : Account)
  | deleteAccount (actor accountId : Id)
  | addOwner (actor accountId userId : Id)
  | removeOwner (actor accountId userId : Id)
  | setRole (actor userId : Id) (role : UserRole)
  | deleteUser (actor userId : Id)
  | login (claims : Claims) (newUserId : Id)
  deriving DecidableEq

/-- `require_admin`, and `user.role.value != "admin"` of the forms. -/
def asAdmin (db : SharingDb) (actor : Id) (act : Option SharingDb) : Option SharingDb :=
  if db.isAdmin actor = true then act else none

/-- A request that a route refuses is no step. -/
def SharingDb.next (settings : SsoSettings) (db : SharingDb) : SharingEvent → Option SharingDb
  | .createGroup actor groupId name ownerId ssoSync =>
      asAdmin db actor (db.createGroup groupId name (ownerId.getD actor) ssoSync)
  | .editGroup actor groupId memberIds accountIds ssoSync =>
      Sharing.editGroup db actor groupId memberIds accountIds ssoSync
  | .deleteGroup actor groupId => asAdmin db actor (some (db.deleteGroup groupId))
  | .createAccount actor accountId account =>
      if (db.sessionUser actor).isSome then db.createAccount accountId account actor else none
  | .deleteAccount actor accountId =>
      -- `get_account_for_modify`
      match db.sessionUser actor, db.accounts.get? accountId with
      | some user, some account =>
          if user.role = .admin ∨ actor ∈ account.owners then some (db.deleteAccount accountId)
          else none
      | _, _ => none
  | .addOwner actor accountId userId => asAdmin db actor (db.assignOwner accountId userId)
  | .removeOwner actor accountId userId =>
      match db.sessionUser actor with
      | none => none
      | some user =>
          if (getAccount db.toAccessDb accountId actor user).isNone then none
          else if user.role ≠ .admin ∧ userId ≠ actor then none
          else some (db.removeOwner accountId userId)
  | .setRole actor userId role => asAdmin db actor (some (db.setRole userId role))
  | .deleteUser actor userId =>
      asAdmin db actor (if userId = actor then none else db.deleteUser userId)
  | .login claims newUserId => (oidcCallback settings db claims newUserId).map Prod.fst

/-! ## Three rights -/

/-- Whom a login is for. -/
def SharingDb.loginOf (db : SharingDb) (claims : Claims) (newUserId : Id) : Id :=
  (db.subjects.get? claims.sub).getD newUserId

/-- The group is one whose members the identity provider names. -/
def SharingDb.SsoGroup (db : SharingDb) (groupId : Id) (group : Group) : Prop :=
  db.groups.get? groupId = some group ∧ group.ssoSync = true

def SharingDb.OwnsGroup (db : SharingDb) (userId groupId : Id) : Prop :=
  ∃ group, db.groups.get? groupId = some group ∧ userId = group.ownerId

def SharingDb.Owns (db : SharingDb) (userId accountId : Id) : Prop :=
  ∃ account, db.accounts.get? accountId = some account ∧ userId ∈ account.owners

def owning (userId accountId : Id) : Right SharingDb SharingEvent where
  holds db := db.Owns userId accountId
  given db e :=
    match e with
    | .createAccount actor id _ => id = accountId ∧ actor = userId
    | .addOwner actor id owner => id = accountId ∧ owner = userId ∧ db.isAdmin actor = true
    | _ => False
  taken db e :=
    match e with
    | .removeOwner actor id owner =>
        id = accountId ∧ owner = userId ∧ (db.isAdmin actor = true ∨ actor = userId)
    | .deleteAccount actor id => id = accountId ∧ (db.isAdmin actor = true ∨ db.Owns actor id)
    | .deleteUser actor id => id = userId ∧ db.isAdmin actor = true
    | _ => False

/-- The members of a group are what an administrator last said, or the member's last login. -/
def membership (userId groupId : Id) : Right SharingDb SharingEvent where
  holds db := (groupId, userId) ∈ db.groupMembers
  given db e :=
    match e with
    | .editGroup actor id memberIds _ _ => id = groupId ∧ db.isAdmin actor = true ∧
        userId ∈ memberIds ∧ (db.users.get? userId).isSome
    | .login claims newUserId => db.loginOf claims newUserId = userId ∧
        ∃ group, db.SsoGroup groupId group ∧ group.name ∈ claims.groups
    | _ => False
  taken db e :=
    match e with
    | .editGroup actor id _ _ _ => id = groupId ∧ db.isAdmin actor = true
    | .deleteGroup actor id => id = groupId ∧ db.isAdmin actor = true
    | .deleteUser actor id => id = userId ∧ db.isAdmin actor = true
    | .login claims newUserId => db.loginOf claims newUserId = userId ∧
        ∃ group, db.SsoGroup groupId group ∧ group.name ∉ claims.groups
    | _ => False

/-- The owner of a group shares with it what is his own. -/
def sharing (accountId groupId : Id) : Right SharingDb SharingEvent where
  holds db := (accountId, groupId) ∈ db.accountGroups
  given db e :=
    match e with
    | .editGroup actor id _ accountIds _ => id = groupId ∧ accountId ∈ accountIds ∧
        (db.isAdmin actor = true ∧ (db.accounts.get? accountId).isSome ∨
          db.OwnsGroup actor groupId ∧ db.Owns actor accountId)
    | _ => False
  taken db e :=
    match e with
    | .editGroup actor id _ _ _ => id = groupId ∧ (db.isAdmin actor = true ∨
        db.OwnsGroup actor groupId ∧ db.Owns actor accountId)
    | .deleteGroup actor id => id = groupId ∧ db.isAdmin actor = true
    | .deleteAccount actor id => id = accountId ∧ (db.isAdmin actor = true ∨ db.Owns actor id)
    | _ => False

/-! ## What the operations leave alone -/

variable {settings : SsoSettings} {db db' : SharingDb} {actor userId accountId groupId : Id}

@[simp] theorem mapOwners_groupMembers {f : Id → List Id → List Id} :
    (db.mapOwners f).groupMembers = db.groupMembers := rfl

@[simp] theorem mapOwners_accountGroups {f : Id → List Id → List Id} :
    (db.mapOwners f).accountGroups = db.accountGroups := rfl

theorem owns_mapOwners {f : Id → List Id → List Id} : (db.mapOwners f).Owns userId accountId ↔
    ∃ account, db.accounts.get? accountId = some account ∧
      userId ∈ f accountId account.owners := by
  simp only [SharingDb.Owns, SharingDb.mapOwners, Table.get?_map, Option.map_eq_some_iff]
  constructor
  · intro h
    obtain ⟨a, ⟨b, hb, rfl⟩, hu⟩ := h
    exact ⟨b, hb, hu⟩
  · intro h
    obtain ⟨b, hb, hu⟩ := h
    exact ⟨_, ⟨b, hb, rfl⟩, hu⟩

theorem owns_deleteAccount {id : Id} : (db.deleteAccount id).Owns userId accountId ↔
    accountId ≠ id ∧ db.Owns userId accountId := by
  simp only [SharingDb.Owns, SharingDb.deleteAccount, Table.get?_filter,
    Option.filter_eq_some_iff, decide_eq_true_eq]
  constructor
  · intro h
    obtain ⟨a, ⟨ha, hne⟩, hu⟩ := h
    exact ⟨hne, a, ha, hu⟩
  · intro h
    obtain ⟨hne, a, ha, hu⟩ := h
    exact ⟨a, ⟨ha, hne⟩, hu⟩

theorem mem_ownedIds : accountId ∈ db.ownedIds userId ↔ db.Owns userId accountId := by
  simp only [SharingDb.ownedIds, SharingDb.Owns, List.mem_map, List.mem_filter, decide_eq_true_eq]
  constructor
  · intro h
    obtain ⟨⟨i, a⟩, ⟨hrow, hu⟩, rfl⟩ := h
    exact ⟨a, Table.mem_rows.mp hrow, hu⟩
  · intro h
    obtain ⟨a, ha, hu⟩ := h
    exact ⟨(accountId, a), ⟨Table.mem_rows.mpr ha, hu⟩, rfl⟩

theorem mem_accountsOf : accountId ∈ db.accountsOf groupId ↔
    (accountId, groupId) ∈ db.accountGroups := by
  simp only [SharingDb.accountsOf, Multiset.mem_map, Multiset.mem_filter]
  constructor
  · intro h
    obtain ⟨r, ⟨hr, rfl⟩, rfl⟩ := h
    exact hr
  · exact fun h => ⟨_, ⟨h, rfl⟩, rfl⟩

theorem asAdmin_eq_some {act : Option SharingDb} :
    asAdmin db actor act = some db' ↔ db.isAdmin actor = true ∧ act = some db' := by
  unfold asAdmin
  split
  · rename_i h
    simp [h]
  · rename_i h
    simp [h]

theorem isAdmin_of_session {user : User} (h : db.sessionUser actor = some user) :
    db.isAdmin actor = true ↔ user.role = .admin := by
  simp [SharingDb.isAdmin, h]

theorem mem_setMembers {memberIds : List Id} {r : Id × Id} :
    r ∈ (db.setMembers groupId memberIds).groupMembers ↔
      r.1 ≠ groupId ∧ r ∈ db.groupMembers ∨
        r.1 = groupId ∧ r.2 ∈ memberIds ∧ (db.users.get? r.2).isSome := by
  obtain ⟨g, u⟩ := r
  simp only [SharingDb.setMembers, SharingDb.withMembers, Multiset.mem_add, Multiset.mem_filter,
    Multiset.mem_coe, List.mem_map, List.mem_filter, Table.mem_keys, decide_eq_true_eq,
    Prod.mk.injEq, Option.isSome_iff_exists]
  constructor
  · intro h
    cases h with
    | inl h => exact .inl ⟨h.2, h.1⟩
    | inr h =>
        obtain ⟨u, ⟨huser, hmember⟩, rfl, rfl⟩ := h
        exact .inr ⟨rfl, hmember, huser⟩
  · intro h
    cases h with
    | inl h => exact .inl ⟨h.2, h.1⟩
    | inr h =>
        obtain ⟨rfl, hmember, huser⟩ := h
        exact .inr ⟨u, ⟨huser, hmember⟩, rfl, rfl⟩

theorem mem_setGroupAccounts {accountIds : Multiset Id} {r : Id × Id} :
    r ∈ (db.setGroupAccounts groupId accountIds).accountGroups ↔
      r.2 ≠ groupId ∧ r ∈ db.accountGroups ∨
        r.2 = groupId ∧ r.1 ∈ accountIds ∧ (db.accounts.get? r.1).isSome := by
  obtain ⟨a, g⟩ := r
  simp only [SharingDb.setGroupAccounts, Multiset.mem_add, Multiset.mem_filter,
    Multiset.mem_coe, List.mem_map, List.mem_filter, Table.mem_keys, decide_eq_true_eq,
    Prod.mk.injEq, Option.isSome_iff_exists]
  constructor
  · intro h
    cases h with
    | inl h => exact .inl ⟨h.2, h.1⟩
    | inr h =>
        obtain ⟨a, ⟨haccount, hshared⟩, rfl, rfl⟩ := h
        exact .inr ⟨rfl, hshared, haccount⟩
  · intro h
    cases h with
    | inl h => exact .inl ⟨h.2, h.1⟩
    | inr h =>
        obtain ⟨rfl, hshared, haccount⟩ := h
        exact .inr ⟨a, ⟨haccount, hshared⟩, rfl, rfl⟩

/-! ## A login -/

/-- The loop changes the rows of one user in the groups that it passes. -/
theorem mem_foldl_syncSsoGroup (userId : Id) (names : List String) {rows : List (Id × Group)}
    (hrows : (rows.map Prod.fst).Nodup) (members : Multiset (Id × Id)) (r : Id × Id) :
    r ∈ rows.foldl (SharingDb.syncSsoGroup userId names) members ↔
      (r.2 = userId ∧ ∃ group, (r.1, group) ∈ rows ∧ group.name ∈ names) ∨
        r ∈ members ∧ ¬ (r.2 = userId ∧ ∃ group, (r.1, group) ∈ rows ∧ group.name ∉ names) := by
  induction rows generalizing members with
  | nil => simp
  | cons row rows ih =>
      obtain ⟨g, group⟩ := row
      obtain ⟨g', u⟩ := r
      rw [List.map_cons, List.nodup_cons] at hrows
      rw [List.foldl_cons, ih hrows.2]
      have hround : (g', u) ∈ SharingDb.syncSsoGroup userId names members (g, group) ↔
          (u = userId ∧ g' = g ∧ group.name ∈ names) ∨
            (g', u) ∈ members ∧ ¬ (u = userId ∧ g' = g ∧ group.name ∉ names) := by
        unfold SharingDb.syncSsoGroup
        by_cases hname : group.name ∈ names
        · by_cases hmember : (g, userId) ∈ members
          · simp only [hname, hmember, if_true]
            grind
          · simp only [hname, hmember, if_true, if_false, Multiset.mem_cons, Prod.mk.injEq]
            grind
        · simp only [hname, if_false, Multiset.mem_filter, ne_eq, Prod.mk.injEq]
          grind
      have hfirst : ∀ other, (g, other) ∉ rows := fun other hother =>
        hrows.1 (List.mem_map.mpr ⟨(g, other), hother, rfl⟩)
      rw [hround]
      simp only [List.mem_cons, Prod.mk.injEq]
      by_cases hg : g' = g
      · subst hg
        simp only [hfirst, or_false, true_and]
        grind
      · simp only [hg, false_and, false_or]
        grind

theorem mem_ssoRows {group : Group} :
    (groupId, group) ∈ db.groups.rows.filter (fun row => row.2.ssoSync) ↔
      db.SsoGroup groupId group := by
  rw [List.mem_filter, Table.mem_rows]
  rfl

theorem oidcUser_frame {claims : Claims} {newUserId : Id} {r : SharingDb × Id}
    (h : oidcUser settings db claims newUserId = some r) :
    r.2 = db.loginOf claims newUserId ∧ r.1.groups = db.groups ∧
      r.1.accounts = db.accounts ∧ r.1.accountGroups = db.accountGroups ∧
      r.1.groupMembers = db.groupMembers := by
  unfold oidcUser at h
  unfold SharingDb.loginOf
  cases hsub : db.subjects.get? claims.sub with
  | some userId =>
      simp only [hsub] at h
      split at h
      · obtain rfl := Option.some.inj h
        exact ⟨rfl, rfl, rfl, rfl, rfl⟩
      · obtain rfl := Option.some.inj h
        exact ⟨rfl, rfl, rfl, rfl, rfl⟩
  | none =>
      simp only [hsub] at h
      obtain ⟨added, hadded, rfl⟩ := Option.map_eq_some_iff.mp h
      unfold SharingDb.addUser at hadded
      split at hadded
      · split at hadded
        · split at hadded
          · obtain rfl := Option.some.inj hadded
            exact ⟨rfl, rfl, rfl, rfl, rfl⟩
          · cases hadded
        · cases hadded
      · cases hadded

theorem next_login {claims : Claims} {newUserId : Id}
    (h : db.next settings (.login claims newUserId) = some db') :
    db'.accounts = db.accounts ∧ db'.accountGroups = db.accountGroups ∧
      ∀ userId groupId, (groupId, userId) ∈ db'.groupMembers ↔
        (db.loginOf claims newUserId = userId ∧
          ∃ group, db.SsoGroup groupId group ∧ group.name ∈ claims.groups) ∨
        (groupId, userId) ∈ db.groupMembers ∧ ¬ (db.loginOf claims newUserId = userId ∧
          ∃ group, db.SsoGroup groupId group ∧ group.name ∉ claims.groups) := by
  rw [SharingDb.next, Option.map_eq_some_iff] at h
  obtain ⟨r, hr, rfl⟩ := h
  unfold oidcCallback at hr
  split at hr
  · cases hr
  split at hr
  · cases hr
  obtain ⟨found, hfound, rfl⟩ := Option.map_eq_some_iff.mp hr
  obtain ⟨hlogin, hgroups, haccounts, hshared, hmembers⟩ := oidcUser_frame hfound
  refine ⟨haccounts, hshared, fun userId groupId => ?_⟩
  have hnodup : ((db.groups.rows.filter fun row => row.2.ssoSync).map Prod.fst).Nodup :=
    db.groups.nodup.sublist (List.filter_sublist.map _)
  have hloop := mem_foldl_syncSsoGroup found.2 claims.groups hnodup db.groupMembers
    (groupId, userId)
  simp only [mem_ssoRows] at hloop
  simp only [SharingDb.syncSsoGroups, SharingDb.withMembers, hgroups, hmembers, ← hlogin]
  rw [hloop, eq_comm (a := userId)]

/-! ## The forms -/

theorem editGroup_cases {memberIds accountIds : List Id} {ssoSync : Bool}
    (h : editGroup db actor groupId memberIds accountIds ssoSync = some db') :
    (db.isAdmin actor = true ∧
      db' = ((db.updateGroup groupId ssoSync).setMembers groupId memberIds).setGroupAccounts
        groupId accountIds) ∨
    (db.isAdmin actor ≠ true ∧ db.OwnsGroup actor groupId ∧
      db' = db.setGroupAccounts groupId
        ((accountIds.filter fun id => id ∈ db.ownedIds actor : List Id) +
          (db.accountsOf groupId).filter fun id => id ∉ db.ownedIds actor)) := by
  unfold editGroup at h
  split at h
  · rename_i user group huser hgroup
    split at h
    · cases h
    · rename_i hmay
      have hadmin := isAdmin_of_session huser
      split at h
      · rename_i hrole
        exact .inl ⟨hadmin.mpr hrole, (Option.some.inj h).symm⟩
      · rename_i hrole
        refine .inr ⟨fun h => hrole (hadmin.mp h), ⟨group, hgroup, ?_⟩, (Option.some.inj h).symm⟩
        simpa [SharingDb.canManageGroup, hrole] using hmay
  · cases h

theorem editGroup_members {memberIds accountIds : List Id} {ssoSync : Bool}
    (h : editGroup db actor groupId memberIds accountIds ssoSync = some db') {r : Id × Id} :
    r ∈ db'.groupMembers ↔
      (r.1 = groupId ∧ db.isAdmin actor = true ∧ r.2 ∈ memberIds ∧
        (db.users.get? r.2).isSome) ∨
      r ∈ db.groupMembers ∧ ¬ (r.1 = groupId ∧ db.isAdmin actor = true) := by
  cases editGroup_cases h with
  | inl h =>
      obtain ⟨hadmin, rfl⟩ := h
      have hset : r ∈ ((db.updateGroup groupId ssoSync).setMembers groupId memberIds).groupMembers ↔
          r.1 ≠ groupId ∧ r ∈ db.groupMembers ∨
            r.1 = groupId ∧ r.2 ∈ memberIds ∧ (db.users.get? r.2).isSome := mem_setMembers
      refine hset.trans ?_
      simp only [hadmin]
      tauto
  | inr h =>
      obtain ⟨hadmin, -, rfl⟩ := h
      have hsame : ∀ ids, (db.setGroupAccounts groupId ids).groupMembers = db.groupMembers :=
        fun _ => rfl
      simp [hsame, hadmin]

theorem editGroup_shared {memberIds accountIds : List Id} {ssoSync : Bool}
    (h : editGroup db actor groupId memberIds accountIds ssoSync = some db') {r : Id × Id} :
    r ∈ db'.accountGroups ↔
      (r.2 = groupId ∧ r.1 ∈ accountIds ∧ (db.isAdmin actor = true ∧ (db.accounts.get? r.1).isSome ∨
        db.OwnsGroup actor groupId ∧ db.Owns actor r.1)) ∨
      r ∈ db.accountGroups ∧ ¬ (r.2 = groupId ∧ (db.isAdmin actor = true ∨
        db.OwnsGroup actor groupId ∧ db.Owns actor r.1)) := by
  have hrow : db.Owns actor r.1 → (db.accounts.get? r.1).isSome := by
    intro hr
    obtain ⟨a, ha, -⟩ := hr
    rw [ha]
    rfl
  cases editGroup_cases h with
  | inl h =>
      obtain ⟨hadmin, rfl⟩ := h
      have hset : r ∈ (((db.updateGroup groupId ssoSync).setMembers groupId
            memberIds).setGroupAccounts groupId accountIds).accountGroups ↔
          r.2 ≠ groupId ∧ r ∈ db.accountGroups ∨
            r.2 = groupId ∧ r.1 ∈ (accountIds : Multiset Id) ∧ (db.accounts.get? r.1).isSome :=
        mem_setGroupAccounts
      refine hset.trans ?_
      simp only [hadmin, Multiset.mem_coe]
      tauto
  | inr h =>
      obtain ⟨hadmin, howner, rfl⟩ := h
      have hshared : (r.1, groupId) ∈ db.accountGroups → (db.accounts.get? r.1).isSome :=
        db.sharedAccounts (r.1, groupId)
      rw [mem_setGroupAccounts]
      simp only [Multiset.mem_add, Multiset.mem_coe, Multiset.mem_filter, List.mem_filter,
        mem_ownedIds, mem_accountsOf, decide_eq_true_eq, hadmin, howner]
      obtain ⟨a, g⟩ := r
      by_cases hg : g = groupId
      · subst hg
        simp only [ne_eq, not_true_eq_false, true_and, false_and, false_or]
        tauto
      · simp [hg]

/-! ## One step -/

/-- A step changes the three rights as their definitions say. -/
structure Accounted (db : SharingDb) (e : SharingEvent) (db' : SharingDb) : Prop where
  owners : ∀ userId accountId, db'.Owns userId accountId ↔
    (owning userId accountId).given db e ∨
      db.Owns userId accountId ∧ ¬ (owning userId accountId).taken db e
  members : ∀ userId groupId, (groupId, userId) ∈ db'.groupMembers ↔
    (membership userId groupId).given db e ∨
      (groupId, userId) ∈ db.groupMembers ∧ ¬ (membership userId groupId).taken db e
  shared : ∀ accountId groupId, (accountId, groupId) ∈ db'.accountGroups ↔
    (sharing accountId groupId).given db e ∨
      (accountId, groupId) ∈ db.accountGroups ∧ ¬ (sharing accountId groupId).taken db e

theorem owns_congr (h : db'.accounts = db.accounts) :
    db'.Owns userId accountId ↔ db.Owns userId accountId := by
  unfold SharingDb.Owns
  rw [h]

theorem accounted_createGroup {name : String} {ownerId : Option Id} {ssoSync : Bool}
    (h : db.next settings (.createGroup actor groupId name ownerId ssoSync) = some db') :
    Accounted db (.createGroup actor groupId name ownerId ssoSync) db' := by
  rw [SharingDb.next, asAdmin_eq_some] at h
  obtain ⟨-, h⟩ := h
  unfold SharingDb.createGroup at h
  split at h
  · cases h
  · obtain rfl := Option.some.inj h
    exact ⟨fun u a => by simp [owning, SharingDb.Owns], fun u g => by simp [membership],
      fun a g => by simp [sharing]⟩

theorem accounted_editGroup {memberIds accountIds : List Id} {ssoSync : Bool}
    (h : db.next settings (.editGroup actor groupId memberIds accountIds ssoSync) = some db') :
    Accounted db (.editGroup actor groupId memberIds accountIds ssoSync) db' := by
  rw [SharingDb.next] at h
  have haccounts : db'.accounts = db.accounts := by
    cases editGroup_cases h with
    | inl h => rw [h.2]; rfl
    | inr h => rw [h.2.2]; rfl
  refine ⟨fun u a => ?_, fun u g => ?_, fun a g => ?_⟩
  · simp [owning, owns_congr haccounts]
  · rw [editGroup_members h]
    simp only [membership, eq_comm (a := g)]
  · rw [editGroup_shared h]
    by_cases hg : g = groupId
    · subst hg
      simp [sharing]
    · simp [sharing, hg, Ne.symm hg]

theorem accounted_deleteGroup (h : db.next settings (.deleteGroup actor groupId) = some db') :
    Accounted db (.deleteGroup actor groupId) db' := by
  rw [SharingDb.next, asAdmin_eq_some] at h
  obtain ⟨hadmin, h⟩ := h
  obtain rfl := Option.some.inj h
  refine ⟨fun u a => ?_, fun u g => ?_, fun a g => ?_⟩
  · simp [owning, SharingDb.Owns, SharingDb.deleteGroup]
  · simp [membership, SharingDb.deleteGroup, hadmin, eq_comm (a := g)]
  · simp [sharing, SharingDb.deleteGroup, hadmin, eq_comm (a := g)]

theorem accounted_createAccount {account : Account}
    (h : db.next settings (.createAccount actor accountId account) = some db') :
    Accounted db (.createAccount actor accountId account) db' := by
  rw [SharingDb.next] at h
  split at h
  · unfold SharingDb.createAccount at h
    split at h
    · rename_i hnew
      split at h
      · obtain rfl := Option.some.inj h
        refine ⟨fun u a => ?_, fun u g => by simp [membership], fun a g => by simp [sharing]⟩
        simp only [owning, SharingDb.Owns, Table.get?_add]
        by_cases ha : a = accountId
        · subst ha
          simp [hnew, eq_comm]
        · simp [ha, Ne.symm ha]
      · cases h
    · cases h
  · cases h

theorem accounted_deleteAccount (h : db.next settings (.deleteAccount actor accountId) = some db') :
    Accounted db (.deleteAccount actor accountId) db' := by
  rw [SharingDb.next] at h
  split at h
  · rename_i user account huser haccount
    split at h
    · rename_i hmay
      obtain rfl := Option.some.inj h
      have hadmin := isAdmin_of_session huser
      have hallowed : db.isAdmin actor = true ∨ db.Owns actor accountId := by
        cases hmay with
        | inl hrole => exact .inl (hadmin.mpr hrole)
        | inr howner => exact .inr ⟨account, haccount, howner⟩
      refine ⟨fun u a => ?_, fun u g => by simp [membership, SharingDb.deleteAccount],
        fun a g => ?_⟩
      · rw [owns_deleteAccount]
        simp only [owning, false_or]
        by_cases ha : a = accountId
        · subst ha
          simp only [hallowed, ne_eq, not_true_eq_false, false_and, and_self, and_false]
        · simp [ha, Ne.symm ha]
      · simp only [sharing, SharingDb.deleteAccount, Multiset.mem_filter, false_or]
        by_cases ha : a = accountId
        · subst ha
          simp only [hallowed, ne_eq, not_true_eq_false, and_self, and_false]
        · simp [ha, Ne.symm ha]
    · cases h
  · cases h

theorem accounted_addOwner (h : db.next settings (.addOwner actor accountId userId) = some db') :
    Accounted db (.addOwner actor accountId userId) db' := by
  rw [SharingDb.next, asAdmin_eq_some] at h
  obtain ⟨hadmin, h⟩ := h
  unfold SharingDb.assignOwner at h
  split at h
  · cases h
  · rename_i hfound
    obtain rfl := Option.some.inj h
    refine ⟨fun u a => ?_, fun u g => by simp [membership], fun a g => by simp [sharing]⟩
    rw [owns_mapOwners]
    simp only [owning, hadmin, and_true]
    by_cases ha : a = accountId
    · subst ha
      cases haccount : db.accounts.get? a with
      | none => exact absurd (.inl (by rw [haccount]; rfl)) hfound
      | some account =>
          simp only [SharingDb.Owns, haccount, Option.some.injEq, exists_eq_left', true_and]
          by_cases howner : userId ∈ account.owners
          · simp only [howner, not_true_eq_false, if_false]
            grind
          · simp only [howner, not_false_eq_true, if_true, List.mem_append, List.mem_singleton]
            grind
    · simp [ha, Ne.symm ha, SharingDb.Owns]

theorem accounted_removeOwner
    (h : db.next settings (.removeOwner actor accountId userId) = some db') :
    Accounted db (.removeOwner actor accountId userId) db' := by
  rw [SharingDb.next] at h
  split at h
  · cases h
  · rename_i user huser
    split at h
    · cases h
    split at h
    · cases h
    rename_i hmay
    obtain rfl := Option.some.inj h
    have hadmin := isAdmin_of_session huser
    have hallowed : db.isAdmin actor = true ∨ actor = userId := by
      rw [hadmin]
      tauto
    refine ⟨fun u a => ?_, fun u g => by simp [membership, SharingDb.removeOwner],
      fun a g => by simp [sharing, SharingDb.removeOwner]⟩
    rw [SharingDb.removeOwner, owns_mapOwners]
    simp only [owning, false_or, SharingDb.Owns]
    by_cases ha : a = accountId
    · subst ha
      by_cases hu : userId = u
      · subst hu
        simp only [hallowed, if_true, List.mem_filter, decide_eq_true_eq, ne_eq,
          not_true_eq_false, and_false, exists_false, and_self]
      · simp [hu, Ne.symm hu]
    · simp [ha, Ne.symm ha]

theorem accounted_setRole {role : UserRole}
    (h : db.next settings (.setRole actor userId role) = some db') :
    Accounted db (.setRole actor userId role) db' := by
  rw [SharingDb.next, asAdmin_eq_some] at h
  obtain ⟨-, h⟩ := h
  obtain rfl := Option.some.inj h
  exact ⟨fun u a => by simp [owning, SharingDb.Owns, SharingDb.setRole],
    fun u g => by simp [membership, SharingDb.setRole],
    fun a g => by simp [sharing, SharingDb.setRole]⟩

theorem accounted_deleteUser (h : db.next settings (.deleteUser actor userId) = some db') :
    Accounted db (.deleteUser actor userId) db' := by
  rw [SharingDb.next, asAdmin_eq_some] at h
  obtain ⟨hadmin, h⟩ := h
  split at h
  · cases h
  unfold SharingDb.deleteUser at h
  split at h
  · cases h
  obtain rfl := Option.some.inj h
  refine ⟨fun u a => ?_, fun u g => ?_, fun a g => by simp [sharing, SharingDb.withMembers]⟩
  · have hmapped : (db.mapOwners fun _ owners => owners.filter (· ≠ userId)).Owns u a ↔
        ∃ account, db.accounts.get? a = some account ∧ u ∈ account.owners.filter (· ≠ userId) :=
      owns_mapOwners
    refine hmapped.trans ?_
    by_cases hu : u = userId
    · simp [owning, hadmin, hu]
    · simp [owning, SharingDb.Owns, hu, Ne.symm hu]
  · simp [membership, SharingDb.withMembers, hadmin, eq_comm (a := u)]

theorem accounted {e : SharingEvent} (h : db.next settings e = some db') :
    Accounted db e db' := by
  cases e with
  | createGroup => exact accounted_createGroup h
  | editGroup => exact accounted_editGroup h
  | deleteGroup => exact accounted_deleteGroup h
  | createAccount => exact accounted_createAccount h
  | deleteAccount => exact accounted_deleteAccount h
  | addOwner => exact accounted_addOwner h
  | removeOwner => exact accounted_removeOwner h
  | setRole => exact accounted_setRole h
  | deleteUser => exact accounted_deleteUser h
  | login claims newUserId =>
      obtain ⟨haccounts, hshared, hmembers⟩ := next_login h
      refine ⟨fun u a => ?_, hmembers, fun a g => ?_⟩
      · simp [owning, owns_congr haccounts]
      · simp [sharing, hshared]

/-! ## Whole runs -/

section Runs

variable {steps : List (SharingDb × SharingEvent)} (settings)

theorem owning_governs : (owning userId accountId).Governs (SharingDb.next settings) :=
  fun _ _ _ h => (accounted h).owners userId accountId

theorem membership_governs : (membership userId groupId).Governs (SharingDb.next settings) :=
  fun _ _ _ h => (accounted h).members userId groupId

theorem sharing_governs : (sharing accountId groupId).Governs (SharingDb.next settings) :=
  fun _ _ _ h => (accounted h).shared accountId groupId

end Runs

theorem sees_iff : Sees db.toAccessDb userId accountId ↔ db.Owns userId accountId ∨
    ∃ groupId, (groupId, userId) ∈ db.groupMembers ∧ (accountId, groupId) ∈ db.accountGroups := by
  constructor
  · intro h
    obtain ⟨account, haccount, hsees⟩ := h
    cases hsees with
    | inl howner => exact .inl ⟨account, haccount, howner⟩
    | inr hgroup =>
        obtain ⟨g, hshared, hmember⟩ := hgroup
        exact .inr ⟨g, hmember, hshared⟩
  · intro h
    cases h with
    | inl howns =>
        obtain ⟨account, haccount, howner⟩ := howns
        exact ⟨account, haccount, .inl howner⟩
    | inr hgroup =>
        obtain ⟨g, hmember, hshared⟩ := hgroup
        obtain ⟨account, haccount⟩ := Option.isSome_iff_exists.mp
          (db.sharedAccounts (accountId, g) hshared)
        exact ⟨account, haccount, .inr ⟨g, hshared, hmember⟩⟩

/-- The history of the run shows an owner's right, or a member's and a group's. -/
def Entitled (userId accountId : Id) (db : SharingDb) (steps : List (SharingDb × SharingEvent)) :
    Prop :=
  (owning userId accountId).Stands db steps ∨
    ∃ groupId, (membership userId groupId).Stands db steps ∧
      (sharing accountId groupId).Stands db steps

theorem sees_iff_entitled {steps : List (SharingDb × SharingEvent)}
    (h : Took (SharingDb.next settings) db steps db') :
    Sees db'.toAccessDb userId accountId ↔ Entitled userId accountId db steps := by
  rw [sees_iff]
  exact or_congr ((owning_governs settings).holds_iff h) (exists_congr fun _ =>
    and_congr ((membership_governs settings).holds_iff h) ((sharing_governs settings).holds_iff h))

instance : Decidable (db.Owns userId accountId) := decidable_of_iff _ mem_ownedIds

/-- The step is no form of an administrator or of an owner of the account that gives something,
and not the user's own login or creation. -/
def Uninvolved (userId accountId : Id) (db : SharingDb) : SharingEvent → Prop
  | .createAccount actor id _ => ¬ (id = accountId ∧ actor = userId)
  | .addOwner actor _ _ => db.isAdmin actor = false
  | .editGroup actor _ _ _ _ => db.isAdmin actor = false ∧ ¬ db.Owns actor accountId
  | .login claims newUserId => db.loginOf claims newUserId ≠ userId
  | _ => True

theorem Accounted.sees_of_uninvolved {e : SharingEvent} (h : Accounted db e db')
    (he : Uninvolved userId accountId db e) (hsees : Sees db'.toAccessDb userId accountId) :
    Sees db.toAccessDb userId accountId := by
  have howning : ¬ (owning userId accountId).given db e := by
    cases e <;> simp_all [owning, Uninvolved]
  have hmembership : ∀ g, ¬ (membership userId g).given db e := by
    intro g
    cases e <;> simp_all [membership, Uninvolved]
  have hsharing : ∀ g, ¬ (sharing accountId g).given db e := by
    intro g
    cases e <;> simp_all [sharing, Uninvolved]
  rw [sees_iff] at hsees ⊢
  cases hsees with
  | inl howns => exact .inl (((h.owners userId accountId).mp howns).resolve_left howning).1
  | inr hgroup =>
      obtain ⟨g, hmember, hshared⟩ := hgroup
      exact .inr ⟨g, (((h.members userId g).mp hmember).resolve_left (hmembership g)).1,
        (((h.shared accountId g).mp hshared).resolve_left (hsharing g)).1⟩

/-- Users without a right in an account never widen who sees it, in whatever order they act. -/
theorem view_confined (orders : Orders)
    (h : Reaches (SharingDb.next settings) (Uninvolved userId accountId) db db')
    (hsees : accountId ∈ accessibleAccountIds orders db'.toAccessDb userId) :
    accountId ∈ accessibleAccountIds orders db.toAccessDb userId := by
  rw [mem_accessibleAccountIds] at hsees ⊢
  revert hsees
  refine Reaches.invariant (I := fun t => Sees t.toAccessDb userId accountId →
    Sees db.toAccessDb userId accountId) h id ?_
  intro s e s' ih he hnext hsees
  exact ih ((accounted hnext).sees_of_uninvolved he hsees)

/-! ## An account that a group shares -/

/-- The user of the sample is an administrator. -/
def startDb : SharingDb := ({ toAccessDb := Access.sampleDb } : SharingDb).setRole "u1" .admin

def someSettings : SsoSettings := { storeId := "s1" }

def bobsAccount : Account := { maildirPath := "/mail/a2", storeId := "s1" }

/-- Bob owns a group whose members the identity provider names, and shares his account with it. -/
def bobShares : List SharingEvent :=
  [.login ⟨"s2", "bob", []⟩ "u2", .createAccount "u2" "a2" bobsAccount,
    .createGroup "u1" "g3" "staff" (some "u2") true, .editGroup "u2" "g3" [] ["a2"] false,
    .login ⟨"s3", "eve", ["staff"]⟩ "u3"]

def eveInStaff (db : SharingDb) : Bool :=
  decide (("g3", "u3") ∈ db.groupMembers) && decide (("a2", "g3") ∈ db.accountGroups)

instance {e : SharingEvent} : Decidable (Uninvolved userId accountId db e) :=
  match e with
  | .createAccount actor id _ => inferInstanceAs (Decidable (¬ (id = accountId ∧ actor = userId)))
  | .addOwner actor _ _ => inferInstanceAs (Decidable (db.isAdmin actor = false))
  | .editGroup actor _ _ _ _ =>
      inferInstanceAs (Decidable (db.isAdmin actor = false ∧ ¬ db.Owns actor accountId))
  | .login claims newUserId => inferInstanceAs (Decidable (db.loginOf claims newUserId ≠ userId))
  | .createGroup .. | .deleteGroup .. | .deleteAccount .. | .removeOwner .. | .setRole ..
  | .deleteUser .. => inferInstanceAs (Decidable True)

/-- The administrator's own account stays his, whatever bob and eve do. -/
theorem view_confined_shared : ∃ db' : SharingDb, eveInStaff db' = true ∧
    ("a1" ∈ accessibleAccountIds sampleOrders db'.toAccessDb "u4" →
      "a1" ∈ accessibleAccountIds sampleOrders startDb.toAccessDb "u4") := by
  have hrun : (bobShares.foldlM (guarded (fun db e => decide (Uninvolved "u4" "a1" db e))
      (SharingDb.next someSettings)) startDb).any eveInStaff = true := by decide +kernel
  obtain ⟨db', hreach, hstaff⟩ := Reaches.of_any hrun fun _ _ h => of_decide_eq_true h
  exact ⟨db', hstaff, view_confined sampleOrders hreach⟩

end MailFallback.Sharing
