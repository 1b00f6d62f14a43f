import MailFallback.Access.Semantics

/-! # The access paths agree

Every query asks for the accounts that `Sees` describes, each of them once. -/

namespace MailFallback.Access

open Storage Query

variable {orders : Orders} {db : AccessDb} {accountId userId : Id} {account : Account} {user : User}

/-- The account is the user's own, or shared with a group that he is a member of. -/
def Sees (db : AccessDb) (userId accountId : Id) : Prop :=
  ∃ account, db.accounts.get? accountId = some account ∧
    (userId ∈ account.owners ∨
      ∃ groupId, (accountId, groupId) ∈ db.accountGroups ∧ (groupId, userId) ∈ db.groupMembers)

/-- Who sees an account sees a row. -/
theorem exists_row_and_sees :
    (∃ account, db.accounts.get? accountId = some account ∧ Sees db userId accountId) ↔
      Sees db userId accountId := by
  constructor
  · intro h
    obtain ⟨account, -, h⟩ := h
    exact h
  · intro h
    have hrow := h
    obtain ⟨account, hrow, -⟩ := hrow
    exact ⟨account, hrow, h⟩

/-! ## The joins -/

theorem mem_accountRows {row : Id × Account} :
    row ∈ db.accountRows ↔ db.accounts.get? row.1 = some row.2 := by
  rw [AccessDb.accountRows, Multiset.mem_coe]
  exact Table.mem_rows

theorem mem_accountOwners :
    (accountId, userId) ∈ db.accountOwners ↔
      ∃ account, db.accounts.get? accountId = some account ∧ userId ∈ account.owners := by
  simp only [AccessDb.accountOwners, Multiset.mem_bind, Multiset.mem_coe, List.mem_map,
    Prod.mk.injEq, mem_accountRows]
  constructor
  · intro h
    obtain ⟨⟨i, a⟩, hrow, u, hu, rfl, rfl⟩ := h
    exact ⟨a, hrow, hu⟩
  · intro h
    obtain ⟨a, hrow, hu⟩ := h
    exact ⟨(accountId, a), hrow, userId, hu, rfl, rfl⟩

/-- The rows that the user owns. -/
theorem mem_ownerJoin :
    (∃ r ∈ db.ownerJoin, r.2.2 = userId ∧ r.1 = (accountId, account)) ↔
      db.accounts.get? accountId = some account ∧ userId ∈ account.owners := by
  constructor
  · intro h
    obtain ⟨⟨row, i, u⟩, hr, rfl, rfl⟩ := h
    simp only [AccessDb.ownerJoin, mem_join, mem_accountRows, decide_eq_true_eq] at hr
    obtain ⟨⟨hrow, howner⟩, rfl⟩ := hr
    obtain ⟨a, ha, hu⟩ := mem_accountOwners.mp howner
    obtain rfl := Option.some.inj (hrow.symm.trans ha)
    exact ⟨hrow, hu⟩
  · intro h
    refine ⟨((accountId, account), accountId, userId), ?_, rfl, rfl⟩
    simp only [AccessDb.ownerJoin, mem_join, mem_accountRows, decide_eq_true_eq]
    exact ⟨⟨h.1, mem_accountOwners.mpr ⟨account, h⟩⟩, trivial⟩

/-- The rows shared with a group of the user. -/
theorem mem_groupJoin :
    (∃ r ∈ db.groupJoin, r.2.2 = userId ∧ r.1.1 = (accountId, account)) ↔
      db.accounts.get? accountId = some account ∧ ∃ groupId,
        (accountId, groupId) ∈ db.accountGroups ∧ (groupId, userId) ∈ db.groupMembers := by
  constructor
  · intro h
    obtain ⟨⟨⟨row, i, g⟩, g', u⟩, hr, rfl, rfl⟩ := h
    simp only [AccessDb.groupJoin, mem_join, mem_accountRows, decide_eq_true_eq] at hr
    obtain ⟨⟨⟨⟨hrow, hgroup⟩, rfl⟩, hmember⟩, rfl⟩ := hr
    exact ⟨hrow, g', hgroup, hmember⟩
  · intro h
    obtain ⟨hrow, g, hgroup, hmember⟩ := h
    refine ⟨(((accountId, account), accountId, g), g, userId), ?_, rfl, rfl⟩
    simp only [AccessDb.groupJoin, mem_join, mem_accountRows, decide_eq_true_eq]
    exact ⟨⟨⟨⟨hrow, hgroup⟩, trivial⟩, hmember⟩, trivial⟩

/-- The accounts that the two halves of the `UNION` select. -/
theorem mem_seenRows :
    (accountId, account) ∈ union ((db.ownerJoin.filter fun r => r.2.2 = userId).map fun r => r.1)
        ((db.groupJoin.filter fun r => r.2.2 = userId).map fun r => r.1.1) ↔
      db.accounts.get? accountId = some account ∧ Sees db userId accountId := by
  have hsees : db.accounts.get? accountId = some account → (Sees db userId accountId ↔
      userId ∈ account.owners ∨ ∃ groupId, (accountId, groupId) ∈ db.accountGroups ∧
        (groupId, userId) ∈ db.groupMembers) := by
    intro hrow
    simp [Sees, hrow]
  simp only [mem_union, Multiset.mem_map, Multiset.mem_filter, and_assoc, mem_ownerJoin,
    mem_groupJoin]
  constructor
  · intro h
    cases h with
    | inl h => exact ⟨h.1, (hsees h.1).mpr (.inl h.2)⟩
    | inr h => exact ⟨h.1, (hsees h.1).mpr (.inr h.2)⟩
  · intro h
    cases (hsees h.1).mp h.2 with
    | inl howner => exact .inl ⟨h.1, howner⟩
    | inr hgroup => exact .inr ⟨h.1, hgroup⟩

/-- The same for queries that ask for ids only. -/
theorem mem_seenIds :
    accountId ∈ union ((db.ownerJoin.filter fun r => r.2.2 = userId).map fun r => r.1.1)
        ((db.groupJoin.filter fun r => r.2.2 = userId).map fun r => r.1.1.1) ↔
      Sees db userId accountId := by
  have hids : accountId ∈ union
      ((db.ownerJoin.filter fun r => r.2.2 = userId).map fun r => r.1.1)
      ((db.groupJoin.filter fun r => r.2.2 = userId).map fun r => r.1.1.1) ↔
      ∃ account, (accountId, account) ∈ union
        ((db.ownerJoin.filter fun r => r.2.2 = userId).map fun r => r.1)
        ((db.groupJoin.filter fun r => r.2.2 = userId).map fun r => r.1.1) := by
    simp only [mem_union, Multiset.mem_map, exists_or]
    constructor
    · intro h
      cases h with
      | inl h =>
          obtain ⟨r, hr, rfl⟩ := h
          exact .inl ⟨r.1.2, r, hr, rfl⟩
      | inr h =>
          obtain ⟨r, hr, rfl⟩ := h
          exact .inr ⟨r.1.1.2, r, hr, rfl⟩
    · intro h
      cases h with
      | inl h =>
          obtain ⟨account, r, hr, hrow⟩ := h
          exact .inl ⟨r, hr, by rw [hrow]⟩
      | inr h =>
          obtain ⟨account, r, hr, hrow⟩ := h
          exact .inr ⟨r, hr, by rw [hrow]⟩
  rw [hids, ← exists_row_and_sees]
  exact exists_congr fun _ => mem_seenRows

/-! ## The five paths -/

theorem mem_accessibleAccountIds :
    accountId ∈ accessibleAccountIds orders db userId ↔ Sees db userId accountId := by
  rw [accessibleAccountIds, Order.mem_list]
  exact mem_seenIds

theorem nodup_accessibleAccountIds : (accessibleAccountIds orders db userId).Nodup := by
  rw [accessibleAccountIds, Order.nodup_list]
  exact nodup_union _ _

theorem nodup_accountIds : (db.accountRows.map Prod.fst).Nodup := by
  rw [AccessDb.accountRows, Multiset.map_coe, Multiset.coe_nodup]
  exact db.accounts.nodup

variable (db) in
/-- Rows of the accounts table, listed once, are of different accounts. -/
theorem nodup_ids_of_rows {rows : List (Id × Account)} (hnodup : rows.Nodup)
    (hrows : ∀ row ∈ rows, row ∈ db.accountRows) : (rows.map Prod.fst).Nodup := by
  refine List.Nodup.map_on ?_ hnodup
  intro a ha b hb hid
  have ha := mem_accountRows.mp (hrows a ha)
  have hb := mem_accountRows.mp (hrows b hb)
  rw [hid] at ha
  exact Prod.ext hid (Option.some.inj (ha.symm.trans hb))

theorem mem_getOwnAccounts :
    (accountId, account) ∈ getOwnAccounts orders db userId ↔
      db.accounts.get? accountId = some account ∧ Sees db userId accountId := by
  unfold getOwnAccounts
  dsimp only
  by_cases hnone : union ((db.ownerJoin.filter fun r => r.2.2 = userId).map fun r => r.1.1)
      ((db.groupJoin.filter fun r => r.2.2 = userId).map fun r => r.1.1.1) = 0
  · rw [if_pos hnone]
    have hsees : ¬ Sees db userId accountId := by
      rw [← mem_seenIds, hnone]
      exact Multiset.notMem_zero _
    simp [hsees]
  · rw [if_neg hnone, Order.mem_list, Multiset.mem_filter, mem_seenIds, mem_accountRows]

theorem nodup_getOwnAccounts : ((getOwnAccounts orders db userId).map Prod.fst).Nodup := by
  refine nodup_ids_of_rows db ?_ fun row hrow =>
    mem_accountRows.mpr (mem_getOwnAccounts.mp hrow).1
  unfold getOwnAccounts
  dsimp only
  split
  · exact List.nodup_nil
  · rw [Order.nodup_list]
    exact (Multiset.Nodup.of_map _ nodup_accountIds).filter _

/-- The last query of `get_account`. -/
theorem memberJoin_ne_zero :
    db.memberJoin.filter (fun r => r.1.1 = accountId ∧ r.2.2 = userId) ≠ 0 ↔
      ∃ groupId, (accountId, groupId) ∈ db.accountGroups ∧ (groupId, userId) ∈ db.groupMembers := by
  constructor
  · intro h
    obtain ⟨r, hr⟩ := Multiset.exists_mem_of_ne_zero h
    obtain ⟨⟨i, g⟩, g', u⟩ := r
    simp only [AccessDb.memberJoin, Multiset.mem_filter, mem_join, decide_eq_true_eq] at hr
    obtain ⟨⟨⟨hgroup, hmember⟩, rfl⟩, rfl, rfl⟩ := hr
    exact ⟨g, hgroup, hmember⟩
  · intro h hzero
    obtain ⟨g, hgroup, hmember⟩ := h
    have hr : ((accountId, g), g, userId) ∈
        db.memberJoin.filter (fun r => r.1.1 = accountId ∧ r.2.2 = userId) := by
      simp [AccessDb.memberJoin, hgroup, hmember]
    rw [hzero] at hr
    exact Multiset.notMem_zero _ hr

theorem getAccount_eq (hrole : user.role ≠ .admin) :
    getAccount db accountId userId user = some account ↔
      db.accounts.get? accountId = some account ∧ Sees db userId accountId := by
  unfold getAccount Sees
  cases haccount : db.accounts.get? accountId with
  | none => simp
  | some found =>
      simp only [if_neg hrole, Option.some.injEq, exists_eq_left']
      by_cases howner : userId ∈ found.owners
      · simp [howner]
      · by_cases hgroup : ∃ groupId, (accountId, groupId) ∈ db.accountGroups ∧
            (groupId, userId) ∈ db.groupMembers
        · simp [howner, hgroup, memberJoin_ne_zero.mpr hgroup]
        · have hzero := (not_iff_not.mpr memberJoin_ne_zero).mpr hgroup
          simp only [howner, hgroup, if_false, if_neg hzero]
          simp

theorem agentAccount_eq :
    agentAccount orders db userId accountId = .ok account ↔
      db.accounts.get? accountId = some account ∧ Sees db userId accountId := by
  unfold agentAccount
  by_cases hlisted : accountId ∈ accessibleAccountIds orders db userId
  · rw [if_pos hlisted]
    have hsees := mem_accessibleAccountIds.mp hlisted
    cases db.accounts.get? accountId <;> simp [hsees]
  · rw [if_neg hlisted]
    rw [mem_accessibleAccountIds] at hlisted
    simp [hlisted]

/-! ## The namespaces -/

/-- Dovecot serves the account: it is enabled, not suspended, and its store is enabled. -/
def Served (db : AccessDb) (accountId : Id) : Prop :=
  ∃ account, db.accounts.get? accountId = some account ∧ account.enabled = true ∧
    account.suspended = false ∧ ∃ store, db.stores.get? account.storeId = some store ∧
      store.enabled = true

variable (orders) in
theorem mem_servedAccounts :
    (∃ account, (accountId, account) ∈ servedAccounts orders db userId) ↔
      Sees db userId accountId ∧ Served db accountId := by
  simp only [servedAccounts, List.mem_filter, Order.mem_list, mem_seenRows, Bool.and_eq_true,
    Bool.not_eq_true', Option.any_eq_true, Served]
  constructor
  · intro h
    obtain ⟨account, ⟨hrow, hsees⟩, ⟨henabled, hsuspended⟩, hstore⟩ := h
    exact ⟨hsees, account, hrow, henabled, hsuspended, hstore⟩
  · intro h
    obtain ⟨hsees, account, hrow, henabled, hsuspended, hstore⟩ := h
    exact ⟨account, ⟨hrow, hsees⟩, ⟨henabled, hsuspended⟩, hstore⟩

theorem nodup_servedAccounts : ((servedAccounts orders db userId).map Prod.fst).Nodup := by
  refine nodup_ids_of_rows db ?_ ?_
  · refine List.Nodup.filter _ ?_
    rw [Order.nodup_list]
    exact nodup_union _ _
  · intro row hrow
    have hmem := (List.mem_filter.mp hrow).1
    rw [Order.mem_list] at hmem
    exact mem_accountRows.mpr (mem_seenRows.mp hmem).1

/-- The live namespace of an account. -/
def liveName (accountId : Id) : String := "acc_" ++ accountId

theorem liveName_inj {i j : Id} : liveName i = liveName j ↔ i = j := by
  unfold liveName
  exact String.append_right_inj _

theorem accountNamespaces_names (accounts : List (Id × Account)) :
    (accountNamespaces accounts).map Namespace.name = accounts.map fun row => liveName row.1 := by
  conv_rhs => rw [← List.zipIdx_map_fst 0 accounts, List.map_map]
  rw [accountNamespaces, List.map_map]
  exact List.map_congr_left fun _ _ => rfl

theorem recoveryNamespace_name {day : Time → String} {accounts : List (Id × Account)}
    {ns : Namespace} (h : ns ∈ recoveryNamespaces orders db day accounts) :
    ns.name ≠ liveName accountId := by
  simp only [recoveryNamespaces, List.mem_filterMap, Option.map_eq_some_iff] at h
  obtain ⟨row, -, source, -, rfl⟩ := h
  intro heq
  have hchars := congrArg String.toList heq
  simp [liveName] at hchars

theorem find_username (huser : db.users.get? userId = some user) :
    db.users.rows.find? (fun row => row.2.username = user.username) = some (userId, user) := by
  cases hfind : db.users.rows.find? (fun row => row.2.username = user.username) with
  | none =>
      rw [List.find?_eq_none] at hfind
      have hrow := hfind _ (Table.mem_rows.mpr huser)
      simp at hrow
  | some found =>
      have hname : found.2.username = user.username := by simpa using List.find?_some hfind
      have hfound := Table.mem_rows.mp (List.mem_of_find?_eq_some hfind)
      have hid : found.1 = userId := db.usernames _ _ _ _ hfound huser hname
      rw [hid] at hfound
      exact congrArg some (Prod.ext hid (Option.some.inj (hfound.symm.trans huser)))

theorem userdbLookup_ok (orders : Orders) (day : Time → String) (huser : db.users.get? userId = some user)
    (henabled : user.enabled = true) (hmigrating : user.migrating = false) :
    ∃ reply, userdbLookup orders db day user.username = .ok reply ∧
      reply.namespaces = accountNamespaces (servedAccounts orders db userId) ++
        recoveryNamespaces orders db day (servedAccounts orders db userId) := by
  obtain ⟨store, hstore⟩ := Option.isSome_iff_exists.mp (db.userStores userId user huser)
  rw [userdbLookup, find_username huser]
  simp only [henabled, hmigrating, Bool.not_true, Bool.or_self, Bool.false_eq_true, if_false, hstore]
  exact ⟨_, rfl, rfl⟩

/-- How often the reply publishes the live namespace of an account. -/
theorem count_liveName {day : Time → String} :
    ((accountNamespaces (servedAccounts orders db userId) ++
        recoveryNamespaces orders db day (servedAccounts orders db userId)).map
          Namespace.name).count (liveName accountId) =
      ((servedAccounts orders db userId).map Prod.fst).count accountId := by
  have hrecoveries : ((recoveryNamespaces orders db day (servedAccounts orders db userId)).map
      Namespace.name).count (liveName accountId) = 0 := by
    rw [List.count_eq_zero, List.mem_map]
    intro h
    obtain ⟨ns, hns, hname⟩ := h
    exact recoveryNamespace_name hns hname
  rw [List.map_append, List.count_append, hrecoveries, add_zero, accountNamespaces_names]
  have hnames : (servedAccounts orders db userId).map (fun row => liveName row.1) =
      ((servedAccounts orders db userId).map Prod.fst).map liveName := by
    rw [List.map_map]
    rfl
  rw [hnames]
  exact List.count_map_of_injective _ _ (fun _ _ h => liveName_inj.mp h) _

/-- For a user who is no administrator all the paths lead to the same accounts, and each list
has an account once. -/
theorem access_paths_agree (orders : Orders) (db : AccessDb) (day : Time → String)
    (huser : db.users.get? userId = some user) (hrole : user.role ≠ .admin) (accountId : Id) :
    (((getAccount db accountId userId user).isSome = true ↔
        accountId ∈ (getAccountsForUser orders db userId user).map Prod.fst) ∧
      ((getAccount db accountId userId user).isSome = true ↔
        accountId ∈ accessibleAccountIds orders db userId) ∧
      ((getAccount db accountId userId user).isSome = true ↔
        ∃ account, agentAccount orders db userId accountId = .ok account)) ∧
    (user.enabled = true → user.migrating = false →
      ∃ reply, userdbLookup orders db day user.username = .ok reply ∧
        (liveName accountId ∈ reply.namespaces.map Namespace.name ↔
          (getAccount db accountId userId user).isSome = true ∧ Served db accountId) ∧
        (reply.namespaces.map Namespace.name).count (liveName accountId) ≤ 1) ∧
    ((getAccountsForUser orders db userId user).map Prod.fst).Nodup ∧
      (accessibleAccountIds orders db userId).Nodup := by
  have hsees : (getAccount db accountId userId user).isSome = true ↔ Sees db userId accountId := by
    rw [Option.isSome_iff_exists, ← exists_row_and_sees]
    exact exists_congr fun _ => getAccount_eq hrole
  have hown : getAccountsForUser orders db userId user = getOwnAccounts orders db userId :=
    if_neg hrole
  rw [hsees, hown]
  refine ⟨⟨?_, mem_accessibleAccountIds.symm, ?_⟩, ?_, nodup_getOwnAccounts,
    nodup_accessibleAccountIds⟩
  · rw [List.mem_map, ← exists_row_and_sees]
    simp [mem_getOwnAccounts]
  · rw [← exists_row_and_sees]
    exact exists_congr fun _ => agentAccount_eq.symm
  · intro henabled hmigrating
    obtain ⟨reply, hreply, hnamespaces⟩ := userdbLookup_ok orders day huser henabled hmigrating
    refine ⟨reply, hreply, ?_, ?_⟩
    · rw [← List.count_pos_iff, hnamespaces, count_liveName, List.count_pos_iff,
        ← mem_servedAccounts orders]
      simp
    · rw [hnamespaces, count_liveName]
      exact List.nodup_iff_count_le_one.mp nodup_servedAccounts accountId

section Sample

noncomputable def sampleOrders : Orders where
  ids := .sorting _ (fun _ _ _ _ _ => trivial) fun _ _ => .inl trivial
  accounts := .sorting _ (fun _ _ _ _ _ => trivial) fun _ _ => .inl trivial
  byCreation := .sorting _ (fun _ _ _ => le_trans) fun _ _ => le_total _ _
  newestFirst :=
    haveI : DecidableRel fun a b : Id × Recovery => a.2.notOlder b.2 := Classical.decRel _
    .sorting _ (fun _ _ _ => Recovery.notOlder_trans) fun _ _ => Recovery.notOlder_total _ _

def sampleUser : User := { username := "ada", storeId := "s1" }

/-- The user owns the account, and shares it with two groups. -/
def sampleDb : AccessDb where
  stores := ⟨[("s1", { path := "/mail" })], by decide⟩
  users := ⟨[("u1", sampleUser)], by decide⟩
  accounts := ⟨[("a1", { maildirPath := "/mail/a1", storeId := "s1", owners := ["u1"] })],
    by decide⟩
  groupMembers := {("g1", "u1"), ("g2", "u1")}
  accountGroups := {("a1", "g1"), ("a1", "g2")}
  usernames := by
    intro i j u u' hi hj _
    have hi := Table.mem_rows.mpr hi
    have hj := Table.mem_rows.mpr hj
    simp only [List.mem_singleton, Prod.mk.injEq] at hi hj
    rw [hi.1, hj.1]
  userStores := by
    intro i u hi
    have hi := Table.mem_rows.mpr hi
    simp only [List.mem_singleton, Prod.mk.injEq] at hi
    rw [hi.2]
    rfl
  accountStores := by
    intro i a hi
    have hi := Table.mem_rows.mpr hi
    simp only [List.mem_singleton, Prod.mk.injEq] at hi
    rw [hi.2]
    rfl
  sharedAccounts := by decide

/-- The account is listed once, though the user reaches it three times. -/
theorem sample_access_paths_agree :
    "a1" ∈ (getAccountsForUser sampleOrders sampleDb "u1" sampleUser).map Prod.fst ∧
      "a1" ∈ accessibleAccountIds sampleOrders sampleDb "u1" ∧
      (accessibleAccountIds sampleOrders sampleDb "u1").Nodup := by
  have hagree := access_paths_agree sampleOrders sampleDb (fun _ => "") 
    (show sampleDb.users.get? "u1" = some sampleUser from rfl) (by decide) "a1"
  have hfound : (getAccount sampleDb "a1" "u1" sampleUser).isSome = true := by decide +kernel
  exact ⟨hagree.1.1.mp hfound, hagree.1.2.1.mp hfound, hagree.2.2.2⟩

end Sample

end MailFallback.Access
