import MailFallback.Access.Semantics
import MailFallback.Snapshots.Semantics

/-! # Search

`search_messages` and `search_attachments` query the mail index within the accounts that the
user sees. What the database matches, and the body search of Dovecot, come from outside. -/

namespace MailFallback.Search

open Storage Query PyString Index Snapshots Access

variable {H : Type*} [DecidableEq H]

/-- A message within its account. -/
abbrev MessageKey (H : Type*) := Id × H

structure SearchDb (H : Type*) extends AccessDb where
  messages : Multiset (MessageKey H × MessageRow) := 0
  attachments : Multiset (MessageKey H × Attachment) := 0
  snapshotMessages : Multiset (SnapshotMessage H) := 0

/-- `date_sent DESC NULLS LAST` -/
def newestFirst : Option Time → Option Time → Prop
  | some s, some t => t ≤ s
  | none, some _ => False
  | _, none => True

theorem newestFirst_total (s t : Option Time) : newestFirst s t ∨ newestFirst t s := by
  cases s with
  | none => cases t with
    | none => exact .inl trivial
    | some t => exact .inr trivial
  | some s => cases t with
    | none => exact .inl trivial
    | some t => exact le_total t s

theorem newestFirst_trans {s t r : Option Time} (h : newestFirst s t) (h' : newestFirst t r) :
    newestFirst s r := by
  cases r with
  | none => cases s <;> trivial
  | some r => cases t with
    | none => exact h'.elim
    | some t => cases s with
      | none => exact h.elim
      | some s => exact le_trans h' h

inductive Dialect where
  | postgresql | sqlite
  deriving DecidableEq, Repr

/-- A row of the attachment query. -/
structure AttachmentRow (H : Type*) where
  key : MessageKey H
  partIndex : ℕ
  filename : String
  ext : String
  sizeBytes : Option ℕ
  messageId : String
  subject : Option String
  fromAddr : Option String
  folderPath : String
  dateSent : Option Time
  deletedAt : Option Time
  contentSnippet : Option String
  contentMatched : Option Bool
  deriving DecidableEq

/-- `ORDER BY date_sent DESC NULLS LAST, part_index` -/
def AttachmentRow.before (a b : AttachmentRow H) : Prop :=
  newestFirst a.dateSent b.dateSent ∧
    (newestFirst b.dateSent a.dateSent → a.partIndex ≤ b.partIndex)

omit [DecidableEq H] in
theorem AttachmentRow.before_total (a b : AttachmentRow H) : a.before b ∨ b.before a := by
  by_cases hab : newestFirst a.dateSent b.dateSent
  · by_cases hba : newestFirst b.dateSent a.dateSent
    · cases le_total a.partIndex b.partIndex with
      | inl h => exact .inl ⟨hab, fun _ => h⟩
      | inr h => exact .inr ⟨hba, fun _ => h⟩
    · exact .inl ⟨hab, fun h => absurd h hba⟩
  · have hba := (newestFirst_total a.dateSent b.dateSent).resolve_left hab
    exact .inr ⟨hba, fun h => absurd h hab⟩

omit [DecidableEq H] in
theorem AttachmentRow.before_trans {a b c : AttachmentRow H} (h : a.before b) (h' : b.before c) :
    a.before c := by
  refine ⟨newestFirst_trans h.1 h'.1, fun hca => ?_⟩
  have hba := newestFirst_trans h'.1 hca
  have hcb := newestFirst_trans hca h.1
  exact le_trans (h.2 hba) (h'.2 hcb)

/-- The database: what it matches, and the orders in which rows come back. -/
structure Engine (H : Type*) where
  dialect : Dialect
  orders : Orders
  messageOrder : Order (MessageKey H × MessageRow) fun a b => newestFirst a.2.dateSent b.2.dateSent
  partOrder : Order (MessageKey H × Attachment) fun a b => a.2.partIndex ≤ b.2.partIndex
  snapshotOrder : Unordered (SnapshotMessage H)
  hitOrder : Order (AttachmentRow H) fun a b => a.before b
  /-- `tsv @@ plainto_tsquery('simple', query)` of a message. -/
  textMatches : MessageRow → String → Bool
  /-- `ATTACHMENTS_FTS_EXPR @@ plainto_tsquery('simple', query)` -/
  attachmentMatches : Attachment → String → Bool
  /-- `to_tsvector('simple', text) @@ plainto_tsquery('simple', query)` -/
  contentMatches : String → String → Bool
  headline : String → String → String
  /-- `column ILIKE '%text%'` -/
  ilike : String → String → Bool
  /-- `CAST(list AS TEXT)` -/
  jsonText : List String → String

/-! ## Scope -/

section Scope

variable (orders : Orders) (db : AccessDb) (userId : Id) (user : User) (includeAll : Bool)

/-- `include_all` widens the scope of an administrator only. -/
def visibleAccountIds : List Id :=
  if includeAll = true ∧ user.role = .admin then orders.ids.list (db.accountRows.map Prod.fst)
  else accessibleAccountIds orders db userId

/-- The accounts asked for, of those visible; all of them when none are asked for. -/
def searchScope (accountIds : Option (List Id)) : List Id :=
  let visible := visibleAccountIds orders db userId user includeAll
  match accountIds with
  | none | some [] => visible
  | some ids => ids.filter fun a => a ∈ visible

end Scope

/-- A date that is unknown lies in every range. -/
def inRange (rangeStart rangeEnd date : Option Time) : Bool :=
  (rangeStart.all fun start => date.all fun t => decide (start ≤ t)) &&
    rangeEnd.all fun stop => date.all fun t => decide (t ≤ stop)

/-- `q.offset((page - 1) * page_size).limit(page_size)` -/
def pageOf {α : Type*} (page pageSize : ℕ) (rows : List α) : List α :=
  (rows.drop ((page - 1) * pageSize)).take pageSize

/-- `sorted(snap_by_msg.get(key, []))` -/
def snapshotsOf (rows : List (SnapshotMessage H)) (key : MessageKey H) : List String :=
  ((rows.filter fun r => (r.accountId, r.messageIdHash) = key).map
    SnapshotMessage.snapshotId).mergeSort fun s t => decide (s ≤ t)

/-! ## Messages -/

structure MessageSearch where
  query : String
  accountIds : Option (List Id) := none
  rangeStart : Option Time := none
  rangeEnd : Option Time := none
  includeDeleted : Bool := true
  snapshotId : Option String := none
  deep : Bool := false
  includeAll : Bool := false
  page : ℕ := 1
  pageSize : ℕ := 50

structure AttachmentEntry where
  filename : String
  ext : String
  sizeBytes : Option ℕ
  partIndex : ℕ
  deriving DecidableEq, Repr

structure MessageHit (H : Type*) where
  messageId : String
  accountId : Id
  subject : Option String
  fromAddr : Option String
  fromName : Option String
  toAddrs : List String
  ccAddrs : List String
  bccAddrs : List String
  dateSent : Option Time
  folderPath : String
  aliveInLive : Bool
  snapshots : List String
  bodyMatched : Option Bool
  messageIdHash : H
  hasAttachments : Bool
  attachments : List AttachmentEntry
  deriving DecidableEq

structure MessageReply (H : Type*) where
  results : List (MessageHit H)
  total : ℕ
  page : ℕ
  pageSize : ℕ
  isPartial : Bool
  deriving DecidableEq

/-- The text search in the indexed fields; SQLite stands in for the database in tests. -/
def textMatch (engine : Engine H) (query : String) (row : MessageRow) : Bool :=
  match engine.dialect with
  | .postgresql => engine.textMatches row query
  | .sqlite =>
      row.subject.any (engine.ilike · query) || row.fromAddr.any (engine.ilike · query) ||
        row.fromName.any (engine.ilike · query) ||
        (row.toAddrs.map engine.jsonText).any (engine.ilike · query) ||
        (row.ccAddrs.map engine.jsonText).any (engine.ilike · query) ||
        (row.bccAddrs.map engine.jsonText).any (engine.ilike · query)

section Messages

variable (engine : Engine H) (db : SearchDb H) (scope : List Id) (req : MessageSearch)
  (bodyHashes : List H)

/-- The rows of the query. -/
def selectMessages : Multiset (MessageKey H × MessageRow) :=
  let q := db.messages.filter fun r => r.1.1 ∈ scope ∧
    (req.includeDeleted = true ∨ r.2.deletedAt = none) ∧
      inRange req.rangeStart req.rangeEnd r.2.dateSent = true
  let q := match req.snapshotId with
    | none => q
    | some snapshotId =>
        if snapshotId = "" then q
        else ((join (fun m s => decide (s.accountId = m.1.1 ∧ s.messageIdHash = m.1.2)) q
          db.snapshotMessages).filter fun r => r.2.snapshotId = snapshotId).map Prod.fst
  if req.query = "" then q
  else q.filter fun r => textMatch engine req.query r.2 = true ∨ r.1.2 ∈ bodyHashes

/-- The hits of a page, with the snapshots and attachments of each. -/
def messageHits (rows : List (MessageKey H × MessageRow)) : List (MessageHit H) :=
  let hashes := rows.map fun r => r.1.2
  -- The snapshots are selected by hash over all accounts, and told apart by their keys.
  let snapRows := engine.snapshotOrder.list
    (db.snapshotMessages.filter fun s => s.messageIdHash ∈ hashes)
  let attRows := engine.partOrder.list
    (db.attachments.filter fun a => a.1.1 ∈ scope ∧ a.1.2 ∈ hashes)
  rows.map fun r => {
    messageId := r.2.messageId
    accountId := r.1.1
    subject := r.2.subject
    fromAddr := r.2.fromAddr
    fromName := r.2.fromName
    toAddrs := r.2.toAddrs.getD []
    ccAddrs := r.2.ccAddrs.getD []
    bccAddrs := r.2.bccAddrs.getD []
    dateSent := r.2.dateSent
    folderPath := r.2.folderPath
    aliveInLive := r.2.deletedAt.isNone
    snapshots := snapshotsOf snapRows r.1
    bodyMatched := if req.deep = true then some (decide (r.1.2 ∈ bodyHashes)) else none
    messageIdHash := r.1.2
    hasAttachments := r.2.hasAttachments
    attachments := (attRows.filter fun a => a.1 = r.1).map fun a =>
      ⟨a.2.filename, a.2.ext, a.2.sizeBytes, a.2.partIndex⟩ }

end Messages

/-- `_dovecot_body_search` with its deadline: the hashes it finds, and whether it ran out of
time. -/
abbrev BodySearch (H : Type*) := List Id → String → List H × Bool

def searchMessages (engine : Engine H) (bodySearch : BodySearch H) (db : SearchDb H) (userId : Id)
    (user : User) (req : MessageSearch) : MessageReply H :=
  let scope := searchScope engine.orders db.toAccessDb userId user req.includeAll req.accountIds
  if scope = [] then ⟨[], 0, req.page, req.pageSize, false⟩
  else
    let body := if req.deep = true ∧ req.query ≠ "" then bodySearch scope req.query else ([], false)
    let selected := selectMessages engine db scope req body.1
    let rows := pageOf req.page req.pageSize (engine.messageOrder.list selected)
    ⟨messageHits engine db scope req body.1 rows, selected.card, req.page, req.pageSize, body.2⟩

/-! ## Attachments -/

structure AttachmentSearch where
  query : String := ""
  accountIds : Option (List Id) := none
  includeAll : Bool := false
  exts : Option (List String) := none
  minSize : Option ℕ := none
  maxSize : Option ℕ := none
  includeContent : Bool := false
  rangeStart : Option Time := none
  rangeEnd : Option Time := none
  page : ℕ := 1
  pageSize : ℕ := 50

structure AttachmentHit (H : Type*) where
  accountId : Id
  messageIdHash : H
  messageId : String
  partIndex : ℕ
  filename : String
  ext : String
  sizeBytes : Option ℕ
  contentSnippet : Option String
  subject : Option String
  fromAddr : Option String
  folderPath : String
  dateSent : Option Time
  aliveInLive : Bool
  snapshots : List String
  hasLiveOrSnapshot : Bool
  deriving DecidableEq

structure AttachmentReply (H : Type*) where
  results : List (AttachmentHit H)
  total : ℕ
  page : ℕ
  pageSize : ℕ
  deriving DecidableEq

section Attachments

variable (engine : Engine H) (db : SearchDb H) (scope : List Id) (contentMode : Bool)
  (req : AttachmentSearch)

/-- The terms of the query: in the text that was extracted, or in the file name only. -/
def termsMatch (a : Attachment) : Bool :=
  let terms := PyString.split req.query
  if terms = [] then true
  else if contentMode = true then
    match engine.dialect with
    | .postgresql => engine.attachmentMatches a req.query
    | .sqlite => terms.all fun t =>
        engine.ilike a.filename t || a.contentText.any (engine.ilike · t)
  else terms.all fun t => engine.ilike a.filename t

def extMatches (a : Attachment) : Bool :=
  match req.exts with
  | none | some [] => true
  | some exts => (exts.map fun e => lstrip e.toLower '.').contains a.ext

/-- A size that is unknown is in no range. -/
def sizeMatches (a : Attachment) : Bool :=
  (req.minSize.all fun least => a.sizeBytes.any fun size => decide (least ≤ size)) &&
    req.maxSize.all fun most => a.sizeBytes.any fun size => decide (size ≤ most)

def attachmentRow (r : (MessageKey H × Attachment) × MessageKey H × MessageRow) :
    AttachmentRow H :=
  let highlights := contentMode && !(PyString.split req.query).isEmpty &&
    decide (engine.dialect = .postgresql)
  let content := r.1.2.contentText.getD ""
  { key := r.1.1
    partIndex := r.1.2.partIndex
    filename := r.1.2.filename
    ext := r.1.2.ext
    sizeBytes := r.1.2.sizeBytes
    messageId := r.2.2.messageId
    subject := r.2.2.subject
    fromAddr := r.2.2.fromAddr
    folderPath := r.2.2.folderPath
    dateSent := r.2.2.dateSent
    deletedAt := r.2.2.deletedAt
    contentSnippet := if highlights = true then some (engine.headline content req.query) else none
    contentMatched :=
      if highlights = true then some (engine.contentMatches content req.query) else none }

/-- `_build_attachment_query` -/
def buildAttachmentQuery : Multiset (AttachmentRow H) :=
  ((join (fun a m => decide (m.1 = a.1)) db.attachments db.messages).filter fun r =>
    r.1.1.1 ∈ scope ∧ termsMatch engine contentMode req r.1.2 = true ∧
      extMatches req r.1.2 = true ∧ sizeMatches req r.1.2 = true ∧
      inRange req.rangeStart req.rangeEnd r.2.2.dateSent = true).map
    (attachmentRow engine contentMode req)

def attachmentHits (rows : List (AttachmentRow H)) : List (AttachmentHit H) :=
  let hashes := rows.map fun r => r.key.2
  let snapRows := engine.snapshotOrder.list
    (db.snapshotMessages.filter fun s => s.messageIdHash ∈ hashes)
  rows.map fun r =>
    let alive := r.deletedAt.isNone
    let snapshots := snapshotsOf snapRows r.key
    { accountId := r.key.1
      messageIdHash := r.key.2
      messageId := r.messageId
      partIndex := r.partIndex
      filename := r.filename
      ext := r.ext
      sizeBytes := r.sizeBytes
      contentSnippet := if r.contentMatched = some true then r.contentSnippet else none
      subject := r.subject
      fromAddr := r.fromAddr
      folderPath := r.folderPath
      dateSent := r.dateSent
      aliveInLive := alive
      snapshots := snapshots
      hasLiveOrSnapshot := alive || !snapshots.isEmpty }

end Attachments

def searchAttachments (engine : Engine H) (tikaEnabled : Bool) (db : SearchDb H) (userId : Id)
    (user : User) (req : AttachmentSearch) : AttachmentReply H :=
  let scope := searchScope engine.orders db.toAccessDb userId user req.includeAll req.accountIds
  if scope = [] then ⟨[], 0, req.page, req.pageSize⟩
  else
    let contentMode := req.includeContent && tikaEnabled
    let selected := buildAttachmentQuery engine db scope contentMode req
    let rows := pageOf req.page req.pageSize (engine.hitOrder.list selected)
    ⟨attachmentHits engine db rows, selected.card, req.page, req.pageSize⟩

end MailFallback.Search
