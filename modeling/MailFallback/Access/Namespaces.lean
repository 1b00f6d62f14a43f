import MailFallback.Access.Agreement

/-! # The namespaces of a login

Dovecot refuses a login whose namespaces clash. Their prefixes are made of names that a user
types in and of parts of ids. -/

namespace MailFallback.Access

open Storage Query

variable {orders : Orders} {db : AccessDb} {day : Time → String} {userId : Id} {user : User}
  {accounts : List (Id × Account)}

/-! ## Prefixes of lists -/

section Prefixes

variable {s t : List Char} {texts : List (List Char)}

/-- One of the texts begins with the other once both are closed. -/
theorem closed_isPrefix_iff {a b : Char} (hab : a ≠ b) :
    s ++ [a, b] <+: t ++ [a, b] ↔ s = t ∨ s ++ [a, b] <+: t := by
  constructor
  · intro h
    have hle : s.length ≤ t.length := by simpa using h.length_le
    rcases Nat.lt_or_ge t.length (s.length + 2) with hlt | hge
    · obtain ⟨rest, hrest⟩ := h
      have hlength : s.length + rest.length = t.length := by
        have := congrArg List.length hrest
        simp at this
        omega
      left
      cases rest with
      | nil =>
          rw [List.append_nil] at hrest
          exact List.append_cancel_right hrest
      | cons c rest =>
          have hnil : rest = [] := by
            rw [List.length_cons] at hlength
            exact List.length_eq_zero_iff.mp (by omega)
          -- the last but one character is `b` on the left and `a` on the right
          subst hnil
          have hlast := congrArg List.reverse hrest
          simp only [List.reverse_append, List.reverse_cons, List.reverse_nil, List.nil_append,
            List.cons_append, List.cons.injEq] at hlast
          exact absurd hlast.2.1.symm hab
    · right
      refine List.prefix_of_prefix_length_le h (List.prefix_append t [a, b]) ?_
      simpa using hge
  · rintro (rfl | h)
    · exact List.prefix_rfl
    · exact h.trans (List.prefix_append t [a, b])

/-- No text twice, and none that another begins with. -/
theorem incomparable_iff : (texts.Nodup ∧ ∀ s ∈ texts, ∀ t ∈ texts, s <+: t → s = t) ↔
    texts.Pairwise fun s t => ¬ s <+: t ∧ ¬ t <+: s := by
  constructor
  · rintro ⟨hnodup, hnested⟩
    refine List.Pairwise.imp_of_mem (fun hs ht hne => ?_) hnodup
    exact ⟨fun h => hne (hnested _ hs _ ht h), fun h => hne (hnested _ ht _ hs h).symm⟩
  · intro h
    refine ⟨h.imp (fun {s t} hst (heq : s = t) => hst.1 (heq ▸ List.prefix_rfl)), ?_⟩
    have hsymm : (texts.Pairwise fun s t => s <+: t ∨ t <+: s → s = t) :=
      h.imp fun hst hor => (hor.elim hst.1 hst.2).elim
    have : Std.Symm fun s t : List Char => s <+: t ∨ t <+: s → s = t :=
      ⟨fun _ _ hst hor => (hst hor.symm).symm⟩
    intro s hs t ht hpre
    exact hsymm.forall_of_forall (fun _ _ _ => rfl) hs ht (.inl hpre)

end Prefixes

/-! ## What is shown of a mailbox -/

/-- What the prefix of an account begins with, up to the closing bracket. -/
def accountOpening (accountId : Id) (account : Account) : String :=
  account.name ++ " (" ++ account.emailAddress ++ ") [" ++
    String.ofList (accountId.toList.drop (accountId.toList.length - 4))

def recoveryOpening (day : Time → String) (recoveryId : Id) (recovery : Recovery)
    (accountLabel : String) : String :=
  "Recovery - " ++ accountLabel ++ " (" ++ (recovery.restoredAt.map day).getD "snapshot" ++ ") [" ++
    String.ofList (recoveryId.toList.take 8)

/-- The ready recoveries of the accounts, the newest of each snapshot, with their accounts. -/
def shownRecoveries (orders : Orders) (db : AccessDb) (accounts : List (Id × Account)) :
    List ((Id × Recovery) × Id × Account) :=
  (uniqueRecoveries (orders.newestFirst.list
    ((db.recoveries.rows : Multiset (Id × Recovery)).filter fun row =>
      row.2.accountId ∈ accounts.map Prod.fst ∧ row.2.status = .ready))).filterMap fun row =>
        (accounts.find? fun account => account.1 = row.2.accountId).map fun account => (row, account)

/-- What the user sees of his mailboxes. -/
def openings (orders : Orders) (db : AccessDb) (day : Time → String) (userId : Id) :
    List (List Char) :=
  (servedAccounts orders db userId).map (fun row => (accountOpening row.1 row.2).toList) ++
    (shownRecoveries orders db (servedAccounts orders db userId)).map fun r =>
      (recoveryOpening day r.1.1 r.1.2 r.2.2.name).toList

/-- Neither is the other, and neither begins with the other and its end. -/
def Apart (s t : List Char) : Prop := s ≠ t ∧ ¬ s ++ [']', '/'] <+: t ∧ ¬ t ++ [']', '/'] <+: s

/-- The namespaces of a reply that Dovecot accepts. -/
structure Unambiguous (namespaces : List Namespace) : Prop where
  names : (namespaces.map Namespace.name).Nodup
  prefixes : (namespaces.map Namespace.pre).Nodup
  inbox : namespaces ≠ [] → (namespaces.filter Namespace.inbox).length = 1
  nested : ∀ x ∈ namespaces, ∀ y ∈ namespaces, x.pre.toList <+: y.pre.toList → x.pre = y.pre

theorem recoveryNamespaces_eq : recoveryNamespaces orders db day accounts =
    (shownRecoveries orders db accounts).map fun r =>
      { name := "rec_" ++ r.1.1
        pre := recoveryNamespacePrefix day r.1.1 r.1.2 r.2.2.name
        mailPath := r.1.2.restorePath
        inbox := false } := by
  rw [recoveryNamespaces, shownRecoveries, List.map_filterMap]
  refine List.filterMap_congr fun row _ => ?_
  rw [Option.map_map]
  rfl

/-! ## Names and the inbox -/

theorem uniqueRecoveries_sublist (rows : List (Id × Recovery)) :
    (uniqueRecoveries rows).Sublist rows := by
  suffices ∀ rows kept : List (Id × Recovery), (rows.foldl (fun kept row =>
      if kept.any fun other => other.2.accountId = row.2.accountId ∧
          other.2.snapshotId = row.2.snapshotId then kept
      else kept ++ [row]) kept).Sublist (kept ++ rows) from this rows []
  intro rows
  induction rows with
  | nil => exact fun kept => List.sublist_append_left kept []
  | cons row rows ih =>
      intro kept
      rw [List.foldl_cons]
      split
      · exact (ih kept).trans ((List.Sublist.refl kept).append (List.sublist_cons_self row rows))
      · have hstep := ih (kept ++ [row])
        rwa [List.append_assoc, List.singleton_append] at hstep

theorem nodup_shownRecoveries :
    ((shownRecoveries orders db accounts).map fun r => r.1.1).Nodup := by
  have hrows : (((db.recoveries.rows : Multiset (Id × Recovery)).filter fun row =>
      row.2.accountId ∈ accounts.map Prod.fst ∧ row.2.status = .ready).map Prod.fst).Nodup := by
    refine Multiset.nodup_of_le (Multiset.map_le_map (Multiset.filter_le _ _)) ?_
    rw [Multiset.map_coe, Multiset.coe_nodup]
    exact db.recoveries.nodup
  rw [← orders.newestFirst.coe_list (Multiset.filter _ _), Multiset.map_coe,
    Multiset.coe_nodup] at hrows
  have hunique := hrows.sublist ((uniqueRecoveries_sublist _).map Prod.fst)
  refine hunique.sublist ?_
  rw [shownRecoveries, List.map_filterMap]
  have hids : ∀ rows : List (Id × Recovery), (rows.filterMap fun row =>
      ((accounts.find? fun account => account.1 = row.2.accountId).map
        fun account => (row, account)).map fun r => r.1.1).Sublist (rows.map Prod.fst) := by
    intro rows
    induction rows with
    | nil => exact List.Sublist.refl []
    | cons row rows ih =>
        rw [List.filterMap_cons, List.map_cons]
        cases accounts.find? fun account => account.1 = row.2.accountId with
        | none => exact ih.cons row.1
        | some account => exact ih.cons_cons row.1
  exact hids _

theorem nodup_names : ((accountNamespaces (servedAccounts orders db userId) ++
    recoveryNamespaces orders db day (servedAccounts orders db userId)).map
      Namespace.name).Nodup := by
  rw [List.map_append, List.nodup_append']
  refine ⟨?_, ?_, ?_⟩
  · rw [accountNamespaces_names]
    have hids := @nodup_servedAccounts orders db userId
    have hnames := hids.map (f := liveName) fun _ _ => liveName_inj.mp
    rwa [List.map_map] at hnames
  · rw [recoveryNamespaces_eq, List.map_map]
    have hids := @nodup_shownRecoveries orders db (servedAccounts orders db userId)
    have hnames := hids.map (f := fun id => "rec_" ++ id) fun _ _ => (String.append_right_inj _).mp
    rwa [List.map_map] at hnames
  · intro name haccount hrecovery
    rw [accountNamespaces_names] at haccount
    obtain ⟨row, -, rfl⟩ := List.mem_map.mp haccount
    obtain ⟨ns, hns, hname⟩ := List.mem_map.mp hrecovery
    exact recoveryNamespace_name hns hname

/-- The first account is the inbox. -/
theorem inbox_accountNamespaces (row : Id × Account) (rows : List (Id × Account)) :
    ((accountNamespaces (row :: rows)).filter Namespace.inbox).length = 1 := by
  rw [accountNamespaces, List.zipIdx_cons, List.map_cons, List.filter_cons_of_pos rfl,
    List.filter_eq_nil_iff.mpr]
  · rfl
  · -- the others do not stand first
    intro ns hns
    obtain ⟨⟨row, i⟩, hmem, rfl⟩ := List.mem_map.mp hns
    have hi : 1 ≤ i := by simpa using (List.mem_zipIdx hmem).1
    simp only [beq_iff_eq]
    omega

theorem inbox_of_ne_nil (h : accountNamespaces accounts ++ recoveryNamespaces orders db day accounts ≠ []) :
    ((accountNamespaces accounts ++ recoveryNamespaces orders db day accounts).filter
      Namespace.inbox).length = 1 := by
  have hrecoveries : (recoveryNamespaces orders db day accounts).filter Namespace.inbox = [] := by
    rw [recoveryNamespaces_eq, List.filter_eq_nil_iff]
    intro ns hns
    obtain ⟨r, -, rfl⟩ := List.mem_map.mp hns
    exact Bool.false_ne_true
  rw [List.filter_append, hrecoveries, List.append_nil]
  cases accounts with
  | nil =>
      -- without accounts there are no recoveries either
      refine absurd ?_ h
      rw [recoveryNamespaces_eq, shownRecoveries]
      simp [accountNamespaces]
  | cons row rows => exact inbox_accountNamespaces row rows

/-! ## Prefixes -/

theorem prefixes_eq (userId : Id) :
    ((accountNamespaces (servedAccounts orders db userId) ++
      recoveryNamespaces orders db day (servedAccounts orders db userId)).map fun ns =>
        ns.pre.toList) = (openings orders db day userId).map fun text => text ++ [']', '/'] := by
  have haccounts : ∀ accounts : List (Id × Account),
      (accountNamespaces accounts).map (fun ns => ns.pre.toList) = accounts.map fun row =>
        (accountOpening row.1 row.2).toList ++ [']', '/'] := by
    intro accounts
    conv_rhs => rw [← List.zipIdx_map_fst 0 accounts, List.map_map]
    rw [accountNamespaces, List.map_map]
    refine List.map_congr_left fun r _ => ?_
    simp [accountNamespacePrefix, accountOpening]
  rw [openings, List.map_append, List.map_append, List.map_map, List.map_map, haccounts,
    recoveryNamespaces_eq, List.map_map]
  congr 1
  refine List.map_congr_left fun r _ => ?_
  simp [recoveryNamespacePrefix, recoveryOpening]

theorem unambiguous_iff : Unambiguous (accountNamespaces (servedAccounts orders db userId) ++
    recoveryNamespaces orders db day (servedAccounts orders db userId)) ↔
      (openings orders db day userId).Pairwise Apart := by
  have happart : ∀ s t : List Char,
      (¬ s ++ [']', '/'] <+: t ++ [']', '/'] ∧ ¬ t ++ [']', '/'] <+: s ++ [']', '/']) ↔
        Apart s t := by
    intro s t
    rw [closed_isPrefix_iff (by decide), closed_isPrefix_iff (by decide), not_or, not_or]
    constructor
    · exact fun h => ⟨h.1.1, h.1.2, h.2.2⟩
    · exact fun h => ⟨⟨h.1, h.2.1⟩, fun heq => h.1 heq.symm, h.2.2⟩
  have hrelation : Apart = fun s t =>
      ¬ s ++ [']', '/'] <+: t ++ [']', '/'] ∧ ¬ t ++ [']', '/'] <+: s ++ [']', '/'] := by
    funext s t
    exact propext (happart s t).symm
  rw [hrelation, ← List.pairwise_map (f := fun text => text ++ [']', '/'])
    (R := fun s t => ¬ s <+: t ∧ ¬ t <+: s), ← prefixes_eq, ← incomparable_iff]
  generalize hns : accountNamespaces (servedAccounts orders db userId) ++
    recoveryNamespaces orders db day (servedAccounts orders db userId) = namespaces
  have htexts : (namespaces.map fun ns => ns.pre.toList) =
      (namespaces.map Namespace.pre).map String.toList := by rw [List.map_map]; rfl
  constructor
  · intro h
    refine ⟨?_, ?_⟩
    · rw [htexts]
      exact h.prefixes.map fun _ _ => String.toList_inj.mp
    · intro s hs t ht hpre
      obtain ⟨x, hx, rfl⟩ := List.mem_map.mp hs
      obtain ⟨y, hy, rfl⟩ := List.mem_map.mp ht
      exact congrArg String.toList (h.nested x hx y hy hpre)
  · rintro ⟨hnodup, hnested⟩
    refine ⟨hns ▸ nodup_names, ?_, fun hne => hns ▸ inbox_of_ne_nil (hns ▸ hne), ?_⟩
    · rw [htexts] at hnodup
      exact hnodup.of_map _
    · intro x hx y hy hpre
      exact String.toList_inj.mp (hnested _ (List.mem_map_of_mem hx) _ (List.mem_map_of_mem hy) hpre)

/-! ## Logins -/

/-- Whatever `userdb_lookup` answers for the name, its namespaces do not clash. -/
def LoginAccepted (orders : Orders) (db : AccessDb) (day : Time → String) (username : String) :
    Prop :=
  ∀ reply, userdbLookup orders db day username = .ok reply → Unambiguous reply.namespaces

theorem namespaces_of_userdbLookup {username : String} {reply : UserdbReply}
    (h : userdbLookup orders db day username = .ok reply) :
    ∃ userId user, db.users.get? userId = some user ∧ user.username = username ∧
      user.enabled = true ∧ user.migrating = false ∧
        reply.namespaces = accountNamespaces (servedAccounts orders db userId) ++
          recoveryNamespaces orders db day (servedAccounts orders db userId) := by
  unfold userdbLookup at h
  split at h
  · cases h
  · rename_i userId user hfind
    split at h
    · cases h
    · rename_i hserved
      split at h
      · cases h
      · cases h
        have hname : user.username = username := by simpa using List.find?_some hfind
        simp only [Bool.or_eq_true, Bool.not_eq_true', not_or, Bool.not_eq_false,
          Bool.not_eq_true] at hserved
        exact ⟨userId, user, Table.mem_rows.mp (List.mem_of_find?_eq_some hfind), hname,
          hserved.1, hserved.2, rfl⟩

/-- The namespaces of a login do not clash exactly if what is shown of the mailboxes is told
apart: no two open alike, and none goes on where another has ended. -/
theorem loginAccepted_iff (orders : Orders) (db : AccessDb) (day : Time → String)
    (username : String) : LoginAccepted orders db day username ↔
      ∀ userId user, db.users.get? userId = some user → user.username = username →
        user.enabled = true → user.migrating = false →
          (openings orders db day userId).Pairwise Apart := by
  constructor
  · rintro h userId user huser rfl henabled hmigrating
    obtain ⟨reply, hreply, hnamespaces⟩ := userdbLookup_ok orders day huser henabled hmigrating
    have hunambiguous := h reply hreply
    rw [hnamespaces] at hunambiguous
    exact unambiguous_iff.mp hunambiguous
  · intro h reply hreply
    obtain ⟨userId, user, huser, hname, henabled, hmigrating, hnamespaces⟩ :=
      namespaces_of_userdbLookup hreply
    rw [hnamespaces]
    exact unambiguous_iff.mpr (h userId user huser hname henabled hmigrating)

/-- Without slashes it is enough that no two open alike. -/
theorem apart_of_ne {s t : List Char} (hs : '/' ∉ s) (ht : '/' ∉ t) (hne : s ≠ t) : Apart s t :=
  ⟨hne, fun h => ht (h.subset (by simp)), fun h => hs (h.subset (by simp))⟩

section Clash

/-- Two accounts of one address whose ids end alike. -/
def twinDb : AccessDb := { sampleDb with
  accounts := ⟨[("0b31c2d4-abcd",
      { maildirPath := "/mail/a1", storeId := "s1", owners := ["u1"], name := "Work",
        emailAddress := "work@example.org" }),
    ("77e9f105-abcd",
      { maildirPath := "/mail/a2", storeId := "s1", owners := ["u1"], name := "Work",
        emailAddress := "work@example.org" })], by decide⟩
  accountGroups := 0
  accountStores := by
    intro i a hi
    have hi := Table.mem_rows.mp (Table.mem_rows.mpr hi)
    have hrow := Table.mem_rows.mpr hi
    simp only [List.mem_cons, List.not_mem_nil, or_false, Prod.mk.injEq] at hrow
    rcases hrow with ⟨-, rfl⟩ | ⟨-, rfl⟩ <;> rfl
  sharedAccounts := by simp }

theorem mem_servedAccounts_twin {accountId : Id} {account : Account}
    (h : twinDb.accounts.get? accountId = some account) (howner : account.owners = ["u1"])
    (hserved : account.enabled = true ∧ account.suspended = false ∧ account.storeId = "s1") :
    (accountId, account) ∈ servedAccounts sampleOrders twinDb "u1" := by
  have hsees : Sees twinDb "u1" accountId := ⟨account, h, .inl (by rw [howner]; decide)⟩
  obtain ⟨account', hmem⟩ := (mem_servedAccounts sampleOrders).mpr
    ⟨hsees, account, h, hserved.1, hserved.2.1, { path := "/mail" }, by rw [hserved.2.2]; rfl, rfl⟩
  have hrow := (List.mem_filter.mp hmem).1
  rw [Order.mem_list] at hrow
  have hget := (mem_seenRows.mp hrow).1
  rwa [Option.some.inj (h.symm.trans hget)]

/-- Both prefixes are the same text, and Dovecot refuses the login. -/
theorem not_loginAccepted :
    ¬ LoginAccepted sampleOrders twinDb (fun _ => "2026-05-11") "ada" := by
  intro h
  obtain ⟨reply, hreply, hnamespaces⟩ := @userdbLookup_ok twinDb "u1" sampleUser sampleOrders
    (fun _ => "2026-05-11") rfl rfl rfl
  have hunambiguous := h reply hreply
  rw [hnamespaces] at hunambiguous
  have hnodup : (openings sampleOrders twinDb (fun _ => "2026-05-11") "u1").Nodup :=
    (unambiguous_iff.mp hunambiguous).imp fun hapart => hapart.1
  have haccounts := hnodup.sublist (List.sublist_append_left _ _)
  have hfirst := @mem_servedAccounts_twin "0b31c2d4-abcd" _ rfl rfl ⟨rfl, rfl, rfl⟩
  have hsecond := @mem_servedAccounts_twin "77e9f105-abcd" _ rfl rfl ⟨rfl, rfl, rfl⟩
  have hsame := List.inj_on_of_nodup_map haccounts hfirst hsecond (by decide +kernel)
  exact absurd (congrArg Prod.fst hsame) (by decide)

end Clash

end MailFallback.Access
