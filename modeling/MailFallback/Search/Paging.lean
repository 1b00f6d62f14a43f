import MailFallback.Library.Paging
import MailFallback.Search.Noninterference

/-! # The pages of a search

Every page is a query of its own. Rows that compare equal may come back in another order each
time. -/

namespace MailFallback.Search

open Storage Query Index Snapshots Access Paging

variable {H : Type*} [DecidableEq H]

instance : DecidableRel newestFirst
  | some s, some t => inferInstanceAs (Decidable (t ≤ s))
  | none, some _ => .isFalse id
  | some _, none => .isTrue trivial
  | none, none => .isTrue trivial

/-- The order of a message search. -/
abbrev newerMessage (a b : MessageKey H × MessageRow) : Prop :=
  newestFirst a.2.dateSent b.2.dateSent

omit [DecidableEq H] in
theorem newerMessage_trans (a b c : MessageKey H × MessageRow) (h : newerMessage a b)
    (h' : newerMessage b c) : newerMessage a c := newestFirst_trans h h'

omit [DecidableEq H] in
theorem newerMessage_total (a b : MessageKey H × MessageRow) : newerMessage a b ∨ newerMessage b a :=
  newestFirst_total _ _

instance : DecidableRel (AttachmentRow.before (H := H)) :=
  fun a b => inferInstanceAs (Decidable (newestFirst a.dateSent b.dateSent ∧
    (newestFirst b.dateSent a.dateSent → a.partIndex ≤ b.partIndex)))

/-- The primary keys of the tables. -/
structure PrimaryKeys (db : SearchDb H) : Prop where
  messages : (db.messages.map Prod.fst).Nodup
  attachments : (db.attachments.map fun a => (a.1, a.2.partIndex)).Nodup
  snapshots : db.snapshotMessages.Nodup

/-- The same matches; the order of the rows that an `ORDER BY` leaves open may differ. -/
structure Engine.Alike (e e' : Engine H) : Prop where
  dialect : e'.dialect = e.dialect
  orders : e'.orders = e.orders
  textMatches : e'.textMatches = e.textMatches
  attachmentMatches : e'.attachmentMatches = e.attachmentMatches
  contentMatches : e'.contentMatches = e.contentMatches
  headline : e'.headline = e.headline
  ilike : e'.ilike = e.ilike
  jsonText : e'.jsonText = e.jsonText

variable {engine engine' : Engine H} {db : SearchDb H} {userId : Id} {user : User}

/-! ## Messages -/

section Messages

variable {bodySearch : BodySearch H} {req : MessageSearch}

/-- The rows that a search is about. -/
def matchingMessages (engine : Engine H) (bodySearch : BodySearch H) (db : SearchDb H) (userId : Id)
    (user : User) (req : MessageSearch) : Multiset (MessageKey H × MessageRow) :=
  let scope := searchScope engine.orders db.toAccessDb userId user req.includeAll req.accountIds
  if scope = [] then 0
  else selectMessages engine db scope req
    (if req.deep = true ∧ req.query ≠ "" then bodySearch scope req.query else ([], false)).1

def MessageHit.key (hit : MessageHit H) : MessageKey H := (hit.accountId, hit.messageIdHash)

/-- The first `n` pages give every matching message exactly once, if they are enough for as many
as the total says. -/
def PagesMessages (engine : Engine H) (bodySearch : BodySearch H) (db : SearchDb H) (userId : Id)
    (user : User) (req : MessageSearch) : Prop :=
  ∀ engines : ℕ → Engine H, (∀ k, engine.Alike (engines k)) →
    let reply := fun k =>
      searchMessages (engines k) bodySearch db userId user { req with page := k + 1 }
    ∀ n, (reply 0).total ≤ n * req.pageSize →
      let shown := (List.range n).flatMap fun k => (reply k).results.map MessageHit.key
      (shown : Multiset (MessageKey H)) =
          (matchingMessages engine bodySearch db userId user req).map Prod.fst ∧
        shown.Nodup ∧ ∀ k, (reply k).total = shown.length

omit [DecidableEq H] in
theorem textMatch_alike (h : engine.Alike engine') (query : String) (row : MessageRow) :
    textMatch engine' query row = textMatch engine query row := by
  simp only [textMatch, h.dialect, h.textMatches, h.ilike, h.jsonText]

theorem matchingMessages_alike (h : engine.Alike engine') :
    matchingMessages engine' bodySearch db userId user req =
      matchingMessages engine bodySearch db userId user req := by
  simp only [matchingMessages, selectMessages, textMatch_alike h, h.orders]

theorem list_zero {α : Type*} {le : α → α → Prop} (order : Order α le) : order.list 0 = [] :=
  (Multiset.coe_eq_zero _).mp (order.coe_list 0)

/-- What a page shows. -/
theorem searchMessages_page (engine : Engine H) (req : MessageSearch) (k : ℕ) :
    let reply := searchMessages engine bodySearch db userId user { req with page := k + 1 }
    let rows := matchingMessages engine bodySearch db userId user req
    reply.results.map MessageHit.key =
        (page req.pageSize k (engine.messageOrder.list rows)).map Prod.fst ∧
      reply.total = rows.card := by
  unfold searchMessages matchingMessages
  dsimp only
  split
  · simp [list_zero, page]
  · refine ⟨?_, rfl⟩
    simp only [messageHits, List.map_map]
    rfl

/-- The messages of the snapshot that is asked for, if one is. -/
def inSnapshot (db : SearchDb H) (snapshotId : Option String)
    (q : Multiset (MessageKey H × MessageRow)) : Multiset (MessageKey H × MessageRow) :=
  match snapshotId with
  | none => q
  | some snapshotId =>
      if snapshotId = "" then q
      else ((join (fun (m : MessageKey H × MessageRow) (s : SnapshotMessage H) =>
        decide (s.accountId = m.1.1 ∧ s.messageIdHash = m.1.2)) q db.snapshotMessages).filter
          fun r : (MessageKey H × MessageRow) × SnapshotMessage H =>
            r.2.snapshotId = snapshotId).map Prod.fst

/-- A message comes once, also out of the join with the snapshots. -/
theorem nodup_matchingMessages (hkeys : PrimaryKeys db) :
    ((matchingMessages engine bodySearch db userId user req).map Prod.fst).Nodup := by
  have hjoined : ∀ (q : Multiset (MessageKey H × MessageRow)), (q.map Prod.fst).Nodup →
      ∀ snapshotId, ((((join (fun m s => decide (s.accountId = m.1.1 ∧ s.messageIdHash = m.1.2)) q
        db.snapshotMessages).filter fun r => r.2.snapshotId = snapshotId).map Prod.fst).map
          Prod.fst).Nodup := by
    intro q hq snapshotId
    rw [Multiset.map_map]
    refine Multiset.Nodup.map_on ?_
      ((nodup_join _ (Multiset.Nodup.of_map _ hq) hkeys.snapshots).filter _)
    rintro ⟨m, s⟩ hr ⟨m', s'⟩ hr' heq
    simp only [Multiset.mem_filter, mem_join, decide_eq_true_eq] at hr hr'
    obtain rfl : m = m' := Multiset.inj_on_of_nodup_map hq m hr.1.1.1 m' hr'.1.1.1 heq
    have hsame : s = s' := by
      cases s
      cases s'
      simp_all
    rw [hsame]
  unfold matchingMessages selectMessages
  dsimp only
  split
  · exact Multiset.nodup_zero
  · have hselected := nodup_map_filter hkeys.messages fun r =>
      r.1.1 ∈ searchScope engine.orders db.toAccessDb userId user req.includeAll req.accountIds ∧
        (req.includeDeleted = true ∨ r.2.deletedAt = none) ∧
          inRange req.rangeStart req.rangeEnd r.2.dateSent = true
    have hsnapshots : ∀ q : Multiset (MessageKey H × MessageRow), (q.map Prod.fst).Nodup →
        ((inSnapshot db req.snapshotId q).map Prod.fst).Nodup := by
      intro q hq
      unfold inSnapshot
      split
      · exact hq
      · split
        · exact hq
        · exact hjoined q hq _
    split
    · exact hsnapshots _ hselected
    · exact nodup_map_filter (hsnapshots _ hselected) _

theorem shownMessages_eq {engines : ℕ → Engine H} (halike : ∀ k, engine.Alike (engines k)) (n : ℕ) :
    ((List.range n).flatMap fun k => (searchMessages (engines k) bodySearch db userId user
      { req with page := k + 1 }).results.map MessageHit.key) =
        (pages req.pageSize (fun k => (engines k).messageOrder.list
          (matchingMessages engine bodySearch db userId user req)) n).map Prod.fst := by
  rw [pages, List.map_flatMap]
  congr 1
  funext k
  rw [← matchingMessages_alike (halike k)]
  exact (searchMessages_page (engines k) req k).1

/-- The pages of a message search are whole exactly if no page ends between two messages with
equal dates. -/
theorem pagesMessages_iff (hkeys : PrimaryKeys db) :
    PagesMessages engine bodySearch db userId user req ↔ Uncut newerMessage req.pageSize
      (matchingMessages engine bodySearch db userId user req) := by
  have hnodup : ((matchingMessages engine bodySearch db userId user req).map Prod.fst).Nodup :=
    nodup_matchingMessages hkeys
  have htotal : ∀ engine', engine.Alike engine' → ∀ k, (searchMessages engine' bodySearch db userId
      user { req with page := k + 1 }).total =
        (matchingMessages engine bodySearch db userId user req).card := by
    intro engine' halike k
    rw [← matchingMessages_alike halike]
    exact (searchMessages_page engine' req k).2
  rw [← pages_map_iff newerMessage_trans newerMessage_total hnodup engine.messageOrder req.pageSize]
  constructor
  · intro h orders n hn
    have halike : ∀ k, engine.Alike { engine with messageOrder := orders k } :=
      fun k => ⟨rfl, rfl, rfl, rfl, rfl, rfl, rfl, rfl⟩
    have hpages := (h _ halike n (by rwa [htotal _ (halike 0)])).1
    rwa [shownMessages_eq halike] at hpages
  · intro h engines halike reply n hn
    rw [htotal _ (halike 0)] at hn
    have hpages := h (fun k => (engines k).messageOrder) n hn
    dsimp only
    rw [shownMessages_eq halike]
    refine ⟨hpages, ?_, ?_⟩
    · rwa [← Multiset.coe_nodup, hpages]
    · intro k
      rw [htotal _ (halike k), ← Multiset.coe_card, hpages, Multiset.card_map]

end Messages

/-! ## Attachments -/

section Attachments

variable {tikaEnabled : Bool} {req : AttachmentSearch}

def matchingAttachments (engine : Engine H) (tikaEnabled : Bool) (db : SearchDb H) (userId : Id)
    (user : User) (req : AttachmentSearch) : Multiset (AttachmentRow H) :=
  let scope := searchScope engine.orders db.toAccessDb userId user req.includeAll req.accountIds
  if scope = [] then 0
  else buildAttachmentQuery engine db scope (req.includeContent && tikaEnabled) req

/-- A part of a message. -/
def AttachmentRow.part (row : AttachmentRow H) : MessageKey H × ℕ := (row.key, row.partIndex)

def AttachmentHit.part (hit : AttachmentHit H) : MessageKey H × ℕ :=
  ((hit.accountId, hit.messageIdHash), hit.partIndex)

def PagesAttachments (engine : Engine H) (tikaEnabled : Bool) (db : SearchDb H) (userId : Id)
    (user : User) (req : AttachmentSearch) : Prop :=
  ∀ engines : ℕ → Engine H, (∀ k, engine.Alike (engines k)) →
    let reply := fun k =>
      searchAttachments (engines k) tikaEnabled db userId user { req with page := k + 1 }
    ∀ n, (reply 0).total ≤ n * req.pageSize →
      let shown := (List.range n).flatMap fun k => (reply k).results.map AttachmentHit.part
      (shown : Multiset (MessageKey H × ℕ)) =
          (matchingAttachments engine tikaEnabled db userId user req).map AttachmentRow.part ∧
        shown.Nodup ∧ ∀ k, (reply k).total = shown.length

theorem matchingAttachments_alike (h : engine.Alike engine') :
    matchingAttachments engine' tikaEnabled db userId user req =
      matchingAttachments engine tikaEnabled db userId user req := by
  have hterms : ∀ contentMode a,
      termsMatch engine' contentMode req a = termsMatch engine contentMode req a := by
    intro contentMode a
    simp only [termsMatch, h.dialect, h.attachmentMatches, h.ilike]
  have hrow : ∀ contentMode,
      attachmentRow engine' contentMode req = attachmentRow (H := H) engine contentMode req := by
    intro contentMode
    funext r
    simp only [attachmentRow, h.dialect, h.headline, h.contentMatches]
  simp only [matchingAttachments, buildAttachmentQuery, hterms, hrow, h.orders]

theorem searchAttachments_page (engine : Engine H) (req : AttachmentSearch) (k : ℕ) :
    let reply := searchAttachments engine tikaEnabled db userId user { req with page := k + 1 }
    let rows := matchingAttachments engine tikaEnabled db userId user req
    reply.results.map AttachmentHit.part =
        (page req.pageSize k (engine.hitOrder.list rows)).map AttachmentRow.part ∧
      reply.total = rows.card := by
  unfold searchAttachments matchingAttachments
  dsimp only
  split
  · simp [list_zero, page]
  · refine ⟨?_, rfl⟩
    simp only [attachmentHits, List.map_map]
    rfl

theorem nodup_matchingAttachments (hkeys : PrimaryKeys db) :
    ((matchingAttachments engine tikaEnabled db userId user req).map
      AttachmentRow.part).Nodup := by
  unfold matchingAttachments buildAttachmentQuery
  dsimp only
  split
  · exact Multiset.nodup_zero
  · rw [Multiset.map_map]
    have hjoin := nodup_join (fun (a : MessageKey H × Attachment)
      (m : MessageKey H × MessageRow) => decide (m.1 = a.1)) (Multiset.Nodup.of_map _ hkeys.attachments) (Multiset.Nodup.of_map _ hkeys.messages)
    refine Multiset.Nodup.map_on ?_ (hjoin.filter _)
    rintro ⟨a, m⟩ hr ⟨a', m'⟩ hr' heq
    simp only [Multiset.mem_filter, mem_join, decide_eq_true_eq] at hr hr'
    have hpart : a = a' := Multiset.inj_on_of_nodup_map hkeys.attachments a hr.1.1.1 a' hr'.1.1.1 heq
    subst hpart
    have hmessage : m = m' := by
      refine Multiset.inj_on_of_nodup_map hkeys.messages m hr.1.1.2 m' hr'.1.1.2 ?_
      rw [hr.1.2, hr'.1.2]
    rw [hmessage]

theorem shownAttachments_eq {engines : ℕ → Engine H} (halike : ∀ k, engine.Alike (engines k))
    (n : ℕ) :
    ((List.range n).flatMap fun k => (searchAttachments (engines k) tikaEnabled db userId user
      { req with page := k + 1 }).results.map AttachmentHit.part) =
        (pages req.pageSize (fun k => (engines k).hitOrder.list
          (matchingAttachments engine tikaEnabled db userId user req)) n).map AttachmentRow.part := by
  rw [pages, List.map_flatMap]
  congr 1
  funext k
  rw [← matchingAttachments_alike (halike k)]
  exact (searchAttachments_page (engines k) req k).1

/-- The same for attachments, which compare equal at one place of messages of one date. -/
theorem pagesAttachments_iff (hkeys : PrimaryKeys db) :
    PagesAttachments engine tikaEnabled db userId user req ↔ Uncut AttachmentRow.before req.pageSize
      (matchingAttachments engine tikaEnabled db userId user req) := by
  have hnodup : ((matchingAttachments engine tikaEnabled db userId user req).map
    AttachmentRow.part).Nodup := nodup_matchingAttachments hkeys
  have htotal : ∀ engine', engine.Alike engine' → ∀ k, (searchAttachments engine' tikaEnabled db
      userId user { req with page := k + 1 }).total =
        (matchingAttachments engine tikaEnabled db userId user req).card := by
    intro engine' halike k
    rw [← matchingAttachments_alike halike]
    exact (searchAttachments_page engine' req k).2
  have htrans : ∀ a b c : AttachmentRow H, a.before b → b.before c → a.before c :=
    fun _ _ _ => AttachmentRow.before_trans
  rw [← pages_map_iff htrans AttachmentRow.before_total hnodup engine.hitOrder req.pageSize]
  constructor
  · intro h orders n hn
    have halike : ∀ k, engine.Alike { engine with hitOrder := orders k } :=
      fun k => ⟨rfl, rfl, rfl, rfl, rfl, rfl, rfl, rfl⟩
    have hpages := (h _ halike n (by rwa [htotal _ (halike 0)])).1
    rwa [shownAttachments_eq halike] at hpages
  · intro h engines halike reply n hn
    rw [htotal _ (halike 0)] at hn
    have hpages := h (fun k => (engines k).hitOrder) n hn
    dsimp only
    rw [shownAttachments_eq halike]
    refine ⟨hpages, ?_, ?_⟩
    · rwa [← Multiset.coe_nodup, hpages]
    · intro k
      rw [htotal _ (halike k), ← Multiset.coe_card, hpages, Multiset.card_map]

end Attachments

/-- Both searches show their matches whole exactly if no page ends between two of them that the
order does not tell apart. -/
theorem searchPages_iff (hkeys : PrimaryKeys db) (engine : Engine H) (bodySearch : BodySearch H)
    (tikaEnabled : Bool) (userId : Id) (user : User) :
    (∀ req, PagesMessages engine bodySearch db userId user req ↔
      Uncut newerMessage req.pageSize (matchingMessages engine bodySearch db userId user req)) ∧
    ∀ req, PagesAttachments engine tikaEnabled db userId user req ↔
      Uncut AttachmentRow.before req.pageSize
        (matchingAttachments engine tikaEnabled db userId user req) :=
  ⟨fun _ => pagesMessages_iff hkeys, fun _ => pagesAttachments_iff hkeys⟩

section Sample

theorem primaryKeys_sample : PrimaryKeys sampleSearchDb where
  messages := Multiset.nodup_singleton _
  attachments := Multiset.nodup_singleton _
  snapshots := Multiset.nodup_singleton _

theorem searchPages_sample :
    PagesMessages sampleEngine (fun _ _ => ([], false)) sampleSearchDb "u1" sampleUser
      { query := "report" } := by
  refine ((searchPages_iff primaryKeys_sample sampleEngine (fun _ _ => ([], false)) false "u1"
    sampleUser).1 _).mpr (uncut_of_card_le ?_)
  unfold matchingMessages selectMessages
  dsimp only
  split
  · exact Nat.zero_le _
  · rw [if_neg (by decide)]
    have hcard : sampleSearchDb.messages.card ≤ 50 := by decide
    exact ((Multiset.card_le_card (Multiset.filter_le _ _)).trans
      (Multiset.card_le_card (Multiset.filter_le _ _))).trans hcard

/-- Two messages without a date. -/
def undatedDb : SearchDb ℕ := { sampleSearchDb with
  messages := {(("a1", 7), sampleMessage), (("a1", 8), sampleMessage)} }

theorem undated_scope :
    "a1" ∈ searchScope sampleEngine.orders undatedDb.toAccessDb "u1" sampleUser false none := by
  rw [searchScope, visibleAccountIds, if_neg (by decide)]
  exact mem_accessibleAccountIds.mpr ⟨_, rfl, .inl (by decide)⟩

/-- The second page may show the first message again. -/
theorem not_pagesMessages : ¬ PagesMessages sampleEngine (fun _ _ => ([], false)) undatedDb "u1"
    sampleUser { query := "", pageSize := 1 } := by
  have hkeys : PrimaryKeys undatedDb := ⟨by decide, Multiset.nodup_singleton _,
    Multiset.nodup_singleton _⟩
  have hmatching : matchingMessages sampleEngine (fun _ _ => ([], false)) undatedDb "u1" sampleUser
      { query := "", pageSize := 1 } = undatedDb.messages := by
    have hscope := undated_scope
    unfold matchingMessages selectMessages
    dsimp only
    rw [if_neg (List.ne_nil_of_mem hscope)]
    rw [if_pos rfl, Multiset.filter_eq_self]
    intro r hr
    have haccount : r.1.1 = "a1" := by
      simp only [undatedDb, Multiset.insert_eq_cons, Multiset.mem_cons, Multiset.mem_singleton] at hr
      rcases hr with rfl | rfl <;> rfl
    exact ⟨haccount ▸ hscope, .inl rfl, rfl⟩
  rw [pagesMessages_iff hkeys, hmatching]
  intro huncut
  have hmem : (("a1", 7), sampleMessage) ∈ undatedDb.messages := by
    simp [undatedDb, Multiset.insert_eq_cons]
  exact huncut _ hmem 1 (by decide +kernel)

end Sample

end MailFallback.Search
