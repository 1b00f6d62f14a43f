import MailFallback.Access.Agreement
import MailFallback.Search.Semantics

/-! # Search leaks nothing across accounts

Two databases that agree on what a user may see give him the same replies: every query asks
for rows of his accounts, but for the one of the snapshots, which is narrowed afterwards. -/

namespace MailFallback.Search

open Storage Query Index Snapshots Access

variable {H : Type*} [DecidableEq H] {engine : Engine H} {db₁ db₂ : SearchDb H} {userId : Id}
  {user : User}

/-- The databases agree on what the user owns, on his groups and what they share, and on the
rows of the accounts he sees. -/
structure AgreeFor (userId : Id) (db₁ db₂ : SearchDb H) : Prop where
  owned : ∀ accountId, (accountId, userId) ∈ db₁.accountOwners ↔
    (accountId, userId) ∈ db₂.accountOwners
  groups : ∀ groupId, (groupId, userId) ∈ db₁.groupMembers ↔ (groupId, userId) ∈ db₂.groupMembers
  shared : ∀ groupId, (groupId, userId) ∈ db₁.groupMembers → ∀ accountId,
    ((accountId, groupId) ∈ db₁.accountGroups ↔ (accountId, groupId) ∈ db₂.accountGroups)
  messages : Agree (fun r => Sees db₁.toAccessDb userId r.1.1) db₁.messages db₂.messages
  attachments : Agree (fun r => Sees db₁.toAccessDb userId r.1.1) db₁.attachments db₂.attachments
  snapshots : Agree (fun r => Sees db₁.toAccessDb userId r.accountId)
    db₁.snapshotMessages db₂.snapshotMessages

/-! ## The accounts in scope -/

/-- Seen through the owners or through the groups. -/
theorem sees_iff {db : AccessDb} {accountId : Id} :
    Sees db userId accountId ↔ (accountId, userId) ∈ db.accountOwners ∨
      ∃ groupId, (accountId, groupId) ∈ db.accountGroups ∧ (groupId, userId) ∈ db.groupMembers := by
  rw [mem_accountOwners]
  constructor
  · intro h
    obtain ⟨account, haccount, h⟩ := h
    exact h.imp_left fun howner => ⟨account, haccount, howner⟩
  · intro h
    cases h with
    | inl h =>
        obtain ⟨account, haccount, howner⟩ := h
        exact ⟨account, haccount, .inl howner⟩
    | inr h =>
        have hgroup := h
        obtain ⟨groupId, hshared, -⟩ := hgroup
        obtain ⟨account, haccount⟩ := Option.isSome_iff_exists.mp (db.sharedAccounts _ hshared)
        exact ⟨account, haccount, .inr h⟩

section Agreement

variable (hagree : AgreeFor userId db₁ db₂)

include hagree

theorem AgreeFor.sees (accountId : Id) :
    Sees db₁.toAccessDb userId accountId ↔ Sees db₂.toAccessDb userId accountId := by
  rw [sees_iff, sees_iff, hagree.owned]
  refine or_congr_right (exists_congr fun groupId => ?_)
  constructor
  · exact fun h => ⟨(hagree.shared groupId h.2 accountId).mp h.1, (hagree.groups groupId).mp h.2⟩
  · intro h
    have hmember := (hagree.groups groupId).mpr h.2
    exact ⟨(hagree.shared groupId hmember accountId).mpr h.1, hmember⟩

theorem AgreeFor.accessible (orders : Orders) :
    accessibleAccountIds orders db₁.toAccessDb userId =
      accessibleAccountIds orders db₂.toAccessDb userId := by
  unfold accessibleAccountIds
  dsimp only
  congr 1
  refine (Multiset.Nodup.ext (nodup_union _ _) (nodup_union _ _)).mpr fun accountId => ?_
  rw [mem_seenIds, mem_seenIds]
  exact hagree.sees accountId

variable {includeAll : Bool} (hplain : ¬ (includeAll = true ∧ user.role = .admin))

include hplain

theorem AgreeFor.scope (orders : Orders) (accountIds : Option (List Id)) :
    searchScope orders db₁.toAccessDb userId user includeAll accountIds =
      searchScope orders db₂.toAccessDb userId user includeAll accountIds := by
  simp only [searchScope, visibleAccountIds, if_neg hplain, hagree.accessible]

end Agreement

/-- Without the privilege, what is in scope is seen. -/
theorem sees_of_mem_scope {orders : Orders} {db : AccessDb} {includeAll : Bool}
    {accountIds : Option (List Id)} {accountId : Id}
    (hplain : ¬ (includeAll = true ∧ user.role = .admin))
    (h : accountId ∈ searchScope orders db userId user includeAll accountIds) :
    Sees db userId accountId := by
  simp only [searchScope, visibleAccountIds, if_neg hplain] at h
  have hmem : accountId ∈ accessibleAccountIds orders db userId := by
    split at h
    · exact h
    · exact h
    · simpa using (List.mem_filter.mp h).2
  exact mem_accessibleAccountIds.mp hmem

/-! ## The snapshots of a hit -/

theorem mergeSort_eq_of_perm {l l' : List String} (h : l.Perm l') :
    l.mergeSort (fun s t => decide (s ≤ t)) = l'.mergeSort fun s t => decide (s ≤ t) := by
  have hsorted : ∀ l : List String,
      (l.mergeSort fun s t => decide (s ≤ t)).Pairwise fun s t => decide (s ≤ t) = true :=
    List.pairwise_mergeSort (by simpa using fun a b c => le_trans (a := a) (b := b) (c := c))
      (by simpa using le_total)
  refine List.Perm.eq_of_pairwise ?_ (hsorted l) (hsorted l') ?_
  · intro a b _ _ hab hba
    exact le_antisymm (of_decide_eq_true hab) (of_decide_eq_true hba)
  · exact ((List.mergeSort_perm ..).trans h).trans (List.mergeSort_perm ..).symm

/-- Rows of other accounts in the selection do not show. -/
theorem snapshotsOf_agree {order : Unordered (SnapshotMessage H)} {hashes : List H}
    {key : MessageKey H} (hagree : AgreeFor userId db₁ db₂)
    (hsees : Sees db₁.toAccessDb userId key.1) :
    snapshotsOf (order.list (db₁.snapshotMessages.filter fun s => s.messageIdHash ∈ hashes)) key =
      snapshotsOf (order.list (db₂.snapshotMessages.filter fun s => s.messageIdHash ∈ hashes))
        key := by
  refine mergeSort_eq_of_perm (List.Perm.map _ ?_)
  rw [← Multiset.coe_eq_coe, ← Multiset.filter_coe, ← Multiset.filter_coe, order.coe_list,
    order.coe_list, Multiset.filter_filter, Multiset.filter_filter]
  refine hagree.snapshots.filter fun r hr => ?_
  rw [← hr.1] at hsees
  exact hsees

/-! ## Messages -/

section Selection

variable {scope : List Id} (hagree : AgreeFor userId db₁ db₂)
  (hscope : ∀ accountId ∈ scope, Sees db₁.toAccessDb userId accountId)

theorem scope_of_mem_selectMessages {req : MessageSearch} {bodyHashes : List H}
    {r : MessageKey H × MessageRow} (hr : r ∈ selectMessages engine db₁ scope req bodyHashes) :
    r.1.1 ∈ scope := by
  have hjoined : ∀ {q : Multiset (MessageKey H × MessageRow)},
      (∀ r ∈ q, r.1.1 ∈ scope) → ∀ snapshotId : String, ∀ r ∈
        ((join (fun m s => decide (s.accountId = m.1.1 ∧ s.messageIdHash = m.1.2)) q
          db₁.snapshotMessages).filter fun r => r.2.snapshotId = snapshotId).map Prod.fst,
        r.1.1 ∈ scope := by
    intro q hq snapshotId r hr
    obtain ⟨pair, hpair, rfl⟩ := Multiset.mem_map.mp hr
    exact hq _ (mem_join.mp (Multiset.mem_filter.mp hpair).1).1.1
  have hbase : ∀ r ∈ db₁.messages.filter (fun r => r.1.1 ∈ scope ∧
      (req.includeDeleted = true ∨ r.2.deletedAt = none) ∧
        inRange req.rangeStart req.rangeEnd r.2.dateSent = true), r.1.1 ∈ scope :=
    fun r hr => (Multiset.mem_filter.mp hr).2.1
  unfold selectMessages at hr
  dsimp only at hr
  split at hr
  · split at hr
    · exact hbase r hr
    · split at hr
      · exact hbase r hr
      · exact hjoined hbase _ r hr
  · have hr := (Multiset.mem_filter.mp hr).1
    split at hr
    · exact hbase r hr
    · split at hr
      · exact hbase r hr
      · exact hjoined hbase _ r hr

include hagree hscope

theorem selectMessages_agree (req : MessageSearch) (bodyHashes : List H) :
    selectMessages engine db₁ scope req bodyHashes =
      selectMessages engine db₂ scope req bodyHashes := by
  have hbase : db₁.messages.filter (fun r => r.1.1 ∈ scope ∧
      (req.includeDeleted = true ∨ r.2.deletedAt = none) ∧
        inRange req.rangeStart req.rangeEnd r.2.dateSent = true) =
      db₂.messages.filter fun r => r.1.1 ∈ scope ∧
        (req.includeDeleted = true ∨ r.2.deletedAt = none) ∧
          inRange req.rangeStart req.rangeEnd r.2.dateSent = true :=
    hagree.messages.filter fun r hr => hscope _ hr.1
  have hjoin : join (fun m s => decide (s.accountId = m.1.1 ∧ s.messageIdHash = m.1.2))
      (db₂.messages.filter fun r => r.1.1 ∈ scope ∧
        (req.includeDeleted = true ∨ r.2.deletedAt = none) ∧
          inRange req.rangeStart req.rangeEnd r.2.dateSent = true) db₁.snapshotMessages =
      join (fun m s => decide (s.accountId = m.1.1 ∧ s.messageIdHash = m.1.2))
        (db₂.messages.filter fun r => r.1.1 ∈ scope ∧
          (req.includeDeleted = true ∨ r.2.deletedAt = none) ∧
            inRange req.rangeStart req.rangeEnd r.2.dateSent = true) db₂.snapshotMessages := by
    refine join_congr _ hagree.snapshots fun m hm s hon => ?_
    rw [(of_decide_eq_true hon).1]
    exact hscope _ (Multiset.mem_filter.mp hm).2.1
  simp only [selectMessages, hbase, hjoin]

theorem messageHits_agree (req : MessageSearch) (bodyHashes : List H)
    {rows : List (MessageKey H × MessageRow)} (hrows : ∀ r ∈ rows, r.1.1 ∈ scope) :
    messageHits engine db₁ scope req bodyHashes rows =
      messageHits engine db₂ scope req bodyHashes rows := by
  have hattachments : db₁.attachments.filter
      (fun a => a.1.1 ∈ scope ∧ a.1.2 ∈ rows.map fun r => r.1.2) =
      db₂.attachments.filter fun a => a.1.1 ∈ scope ∧ a.1.2 ∈ rows.map fun r => r.1.2 :=
    hagree.attachments.filter fun a ha => hscope _ ha.1
  simp only [messageHits, hattachments]
  refine List.map_congr_left fun r hr => ?_
  rw [snapshotsOf_agree hagree (hscope _ (hrows r hr))]

/-! ## Attachments -/

theorem buildAttachmentQuery_agree (contentMode : Bool) (req : AttachmentSearch) :
    buildAttachmentQuery engine db₁ scope contentMode req =
      buildAttachmentQuery engine db₂ scope contentMode req := by
  have hjoin : Agree (fun r : (MessageKey H × Attachment) × MessageKey H × MessageRow =>
      Sees db₁.toAccessDb userId r.1.1.1)
      (join (fun a m => decide (m.1 = a.1)) db₁.attachments db₁.messages)
      (join (fun a m => decide (m.1 = a.1)) db₂.attachments db₂.messages) := by
    refine hagree.attachments.join _ hagree.messages fun a m ha hon => ?_
    rw [of_decide_eq_true hon]
    exact ha
  unfold buildAttachmentQuery
  rw [hjoin.filter fun r hr => hscope _ hr.1]

theorem attachmentHits_agree {rows : List (AttachmentRow H)}
    (hrows : ∀ r ∈ rows, r.key.1 ∈ scope) :
    attachmentHits engine db₁ rows = attachmentHits engine db₂ rows := by
  refine List.map_congr_left fun r hr => ?_
  rw [snapshotsOf_agree hagree (hscope _ (hrows r hr))]

end Selection

theorem scope_of_mem_buildAttachmentQuery {scope : List Id} {contentMode : Bool}
    {req : AttachmentSearch} {r : AttachmentRow H}
    (hr : r ∈ buildAttachmentQuery engine db₁ scope contentMode req) : r.key.1 ∈ scope := by
  obtain ⟨pair, hpair, rfl⟩ := Multiset.mem_map.mp hr
  exact (Multiset.mem_filter.mp hpair).2.1

theorem mem_of_mem_pageOf {α : Type*} {page pageSize : ℕ} {rows : List α} {a : α}
    (h : a ∈ pageOf page pageSize rows) : a ∈ rows :=
  List.mem_of_mem_drop (List.mem_of_mem_take h)

/-- Without the privilege of an administrator who asks for all, equal views give equal replies. -/
theorem search_noninterference (engine : Engine H) (bodySearch : BodySearch H)
    (tikaEnabled : Bool) (user : User) (hagree : AgreeFor userId db₁ db₂) :
    (∀ req : MessageSearch, ¬ (req.includeAll = true ∧ user.role = .admin) →
      searchMessages engine bodySearch db₁ userId user req =
        searchMessages engine bodySearch db₂ userId user req) ∧
    ∀ req : AttachmentSearch, ¬ (req.includeAll = true ∧ user.role = .admin) →
      searchAttachments engine tikaEnabled db₁ userId user req =
        searchAttachments engine tikaEnabled db₂ userId user req := by
  constructor
  · intro req hplain
    have hsees : ∀ accountId ∈ searchScope engine.orders db₁.toAccessDb userId user
        req.includeAll req.accountIds, Sees db₁.toAccessDb userId accountId :=
      fun _ h => sees_of_mem_scope hplain h
    unfold searchMessages
    rw [← hagree.scope hplain engine.orders req.accountIds]
    generalize searchScope engine.orders db₁.toAccessDb userId user req.includeAll
      req.accountIds = scope at hsees ⊢
    dsimp only
    rw [← selectMessages_agree hagree hsees]
    rw [messageHits_agree hagree hsees]
    intro r hr
    have hselected := mem_of_mem_pageOf hr
    rw [Order.mem_list] at hselected
    exact scope_of_mem_selectMessages hselected
  · intro req hplain
    have hsees : ∀ accountId ∈ searchScope engine.orders db₁.toAccessDb userId user
        req.includeAll req.accountIds, Sees db₁.toAccessDb userId accountId :=
      fun _ h => sees_of_mem_scope hplain h
    unfold searchAttachments
    rw [← hagree.scope hplain engine.orders req.accountIds]
    generalize searchScope engine.orders db₁.toAccessDb userId user req.includeAll
      req.accountIds = scope at hsees ⊢
    dsimp only
    rw [← buildAttachmentQuery_agree hagree hsees]
    rw [attachmentHits_agree hagree hsees]
    intro r hr
    have hselected := mem_of_mem_pageOf hr
    rw [Order.mem_list] at hselected
    exact scope_of_mem_buildAttachmentQuery hselected

/-! ## The mailbox of another user -/

section Sample

/-- What the database matches does not matter here. -/
noncomputable def sampleEngine : Engine ℕ where
  dialect := .postgresql
  orders := sampleOrders
  messageOrder :=
    haveI : DecidableRel fun a b : MessageKey ℕ × MessageRow =>
      newestFirst a.2.dateSent b.2.dateSent := Classical.decRel _
    .sorting _ (fun _ _ _ => newestFirst_trans) fun _ _ => newestFirst_total _ _
  partOrder := .sorting _ (fun _ _ _ => le_trans) fun _ _ => le_total _ _
  snapshotOrder := .sorting _ (fun _ _ _ _ _ => trivial) fun _ _ => .inl trivial
  hitOrder :=
    haveI : DecidableRel fun a b : AttachmentRow ℕ => a.before b := Classical.decRel _
    .sorting _ (fun _ _ _ => AttachmentRow.before_trans) fun _ _ => AttachmentRow.before_total _ _
  textMatches := fun _ _ => true
  attachmentMatches := fun _ _ => true
  contentMatches := fun _ _ => true
  headline := fun text _ => text
  ilike := fun _ _ => true
  jsonText := fun _ => ""

/-- A second user has a mailbox of his own. -/
def sharedServer : AccessDb := { Access.sampleDb with
  accounts := ⟨[("a1", { maildirPath := "/mail/a1", storeId := "s1", owners := ["u1"] }),
    ("b1", { maildirPath := "/mail/b1", storeId := "s1", owners := ["u2"] })], by decide⟩
  accountStores := by
    intro i a hi
    have hi := Table.mem_rows.mpr hi
    simp only [List.mem_cons, List.not_mem_nil, or_false, Prod.mk.injEq] at hi
    cases hi with
    | inl h => rw [h.2]; rfl
    | inr h => rw [h.2]; rfl
  sharedAccounts := by decide }

def sampleMessage : MessageRow where
  messageId := "<m@x>"
  subject := some "report"
  folderPath := ""
  maildirFilename := "1"
  firstSeenAt := 0
  lastSeenAt := 0

/-- The message of the first user. -/
def sampleSearchDb : SearchDb ℕ := { sharedServer with
  messages := {(("a1", 7), sampleMessage)}
  attachments := {(("a1", 7), ⟨0, "a.pdf", "pdf", none, "application/pdf", none⟩)}
  snapshotMessages := {⟨"s1", "a1", 7⟩} }

/-- The second user has it as well, in another snapshot. -/
def sampleSearchDb' : SearchDb ℕ := { sampleSearchDb with
  messages := (("b1", 7), sampleMessage) ::ₘ sampleSearchDb.messages
  attachments :=
    (("b1", 7), ⟨0, "b.pdf", "pdf", none, "application/pdf", none⟩) ::ₘ sampleSearchDb.attachments
  snapshotMessages := ⟨"s2", "b1", 7⟩ ::ₘ sampleSearchDb.snapshotMessages }

theorem not_sees_other : ¬ Sees sharedServer "u1" "b1" := by
  rw [sees_iff]
  intro h
  cases h with
  | inl h => exact absurd h (by decide +kernel)
  | inr h =>
      obtain ⟨groupId, hshared, -⟩ := h
      simp [sharedServer, Access.sampleDb] at hshared

/-- The first user finds his message and its snapshot, whatever the second one has. -/
theorem sample_search_noninterference :
    searchMessages sampleEngine (fun _ _ => ([], false)) sampleSearchDb "u1" sampleUser
        { query := "report" } =
      searchMessages sampleEngine (fun _ _ => ([], false)) sampleSearchDb' "u1" sampleUser
        { query := "report" } ∧
    searchAttachments sampleEngine false sampleSearchDb "u1" sampleUser { } =
      searchAttachments sampleEngine false sampleSearchDb' "u1" sampleUser { } := by
  have hagree : AgreeFor "u1" sampleSearchDb sampleSearchDb' := {
    owned := fun _ => Iff.rfl
    groups := fun _ => Iff.rfl
    shared := fun _ _ _ => Iff.rfl
    messages := agree_cons not_sees_other
    attachments := agree_cons not_sees_other
    snapshots := agree_cons not_sees_other }
  have hsame := search_noninterference sampleEngine (fun _ _ => ([], false)) false
    sampleUser hagree
  exact ⟨hsame.1 _ (by decide), hsame.2 _ (by decide)⟩

end Sample

end MailFallback.Search
