import MailFallback.Library.PyString
import MailFallback.Tables
import Mathlib.Data.List.Sort
import Mathlib.Data.String.Basic

/-! # The mail index

`upsert_message_set` walks the live maildir of an account and brings the rows of the account
into line with it. The mail parser, the walk of the disk, the clock and the order in which a
set is iterated come from outside; the rows are those of one account, as every statement of
the function asks for them. -/

namespace MailFallback.Index

open Storage PyString

/-- Where a message lies: folder and file name. -/
abbrev Key := String × String

structure Attachment where
  partIndex : ℕ
  filename : String
  ext : String
  sizeBytes : Option ℕ
  contentType : String
  contentText : Option String
  deriving DecidableEq, Repr

structure Recipients where
  toAddrs : Option (List String) := none
  ccAddrs : Option (List String) := none
  bccAddrs : Option (List String) := none
  deriving DecidableEq, Repr

structure MessageRow extends Recipients where
  messageId : String
  dateSent : Option Time := none
  fromAddr : Option String := none
  fromName : Option String := none
  subject : Option String := none
  folderPath : String
  maildirFilename : String
  sizeBytes : ℕ := 0
  firstSeenAt : Time
  lastSeenAt : Time
  deletedAt : Option Time := none
  hasAttachments : Bool := false
  attachmentsIndexedAt : Option Time := none
  recipientsIndexedAt : Option Time := none
  deriving DecidableEq, Repr

def MessageRow.pointer (row : MessageRow) : Key := (row.folderPath, row.maildirFilename)

inductive IndexState where
  | idle | liveIndexing | snapBackfilling | failed
  deriving DecidableEq, Repr

structure RebuildStatus where
  state : IndexState
  lastIndexedAt : Option Time := none
  lastError : Option String := none
  deriving DecidableEq, Repr

/-- The rows of an account, those of messages under the hash of the Message-Id. -/
structure MailIndex (H : Type*) where
  messages : Table H MessageRow := .empty
  attachments : List (H × Attachment) := []
  status : Option RebuildStatus := none

/-! ## What is read of a mail -/

/-- The mail library and the digest, as far as the index asks them. -/
structure Reader (C H : Type*) where
  /-- `msg.get` -/
  get : C → String → Option String
  /-- `msg.get_all` -/
  getAll : C → String → List String
  getaddresses : List String → List (String × String)
  /-- `parsedate_to_datetime`, UTC where no zone is given, and nothing where it raises. -/
  parsedate : String → Option Time
  getsize : C → ℕ
  parseAttachments : C → Option (List Attachment)
  sha1 : String → H

variable {C H : Type*} (reader : Reader C H)

/-- The digest of the Message-Id without its angle brackets. -/
def hashMessageId (messageId : String) : H :=
  reader.sha1 (rstrip (lstrip (strip messageId) '<') '>')

def addresses (content : C) (header : String) : List String :=
  ((reader.getaddresses (reader.getAll content header)).map Prod.snd).filter fun a => a ≠ ""

/-- `x or None` of a list. -/
def listed (l : List String) : Option (List String) := if l = [] then none else some l

/-- `x or None` of a string. -/
def written (s : String) : Option String := if s = "" then none else some s

def parseRecipients (content : C) : Recipients where
  toAddrs := listed (addresses reader content "To")
  ccAddrs := listed (addresses reader content "Cc")
  bccAddrs := listed (addresses reader content "Bcc")

structure Parsed (H : Type*) extends Recipients where
  messageId : String
  messageIdHash : H
  dateSent : Option Time
  fromAddr : Option String
  fromName : Option String
  subject : Option String
  sizeBytes : ℕ

/-- Nothing where the file cannot be opened or has no Message-Id. -/
def parseHeaders (file : Option C) : Option (Parsed H) :=
  match file with
  | none => none
  | some content =>
      let msgid := if given (reader.get content "Message-Id") then reader.get content "Message-Id"
        else reader.get content "Message-ID"
      if given msgid = false then none
      else
        let msgid := strip (msgid.getD "")
        let rawDate := reader.get content "Date"
        let fromPair := (reader.getaddresses [(reader.get content "From").getD ""]).headD ("", "")
        some {
          toRecipients := parseRecipients reader content
          messageId := msgid
          messageIdHash := hashMessageId reader msgid
          dateSent := if given rawDate then rawDate.bind reader.parsedate else none
          fromAddr := written fromPair.2
          fromName := written fromPair.1
          subject := written ((reader.get content "Subject").getD "")
          sizeBytes := reader.getsize content }

/-- Nothing where the file cannot be opened. -/
def readRecipients (file : Option C) : Option Recipients := file.map (parseRecipients reader)

/-! ## The walk of the maildir -/

/-- A directory as `os.walk` yields it: its path below the root, and its files, with nothing
for one that cannot be opened. -/
structure Directory (C : Type*) where
  rel : List String
  filenames : List (String × Option C)

structure File (C : Type*) where
  folder : String
  filename : String
  content : Option C

def File.key (f : File C) : Key := (f.folder, f.filename)

def basename (path : String) : String :=
  String.ofList (path.toList.reverse.takeWhile fun c => c ≠ '/').reverse

/-- The files in the `cur` and `new` directories. What lies in those of the root is INBOX. -/
def walkMaildir (root : String) (walk : List (Directory C)) : List (File C) :=
  walk.flatMap fun d =>
    if ["cur", "new"].contains (d.rel.getLast?.getD (basename root)) then
      let folder := if d.rel.length ≤ 1 then "INBOX" else "/".intercalate d.rel.dropLast
      d.filenames.map fun entry => ⟨folder, entry.1, entry.2⟩
    else []

/-! ## The database session -/

/-- What a run finds by chance: the readings of the clock, and the order of a set. -/
structure RunEnv (H : Type*) where
  clock : ℕ → Time
  setOrder : List H → List H
  setOrder_perm : ∀ l, (setOrder l).Perm l

/-- The rows as the session sees them, what each commit left, and the rows written. -/
structure Session (H : Type*) where
  index : MailIndex H
  committed : List (MailIndex H) := []
  ticks : ℕ := 0
  touched : ℕ := 0

namespace Session

def commit (s : Session H) : Session H := { s with committed := s.committed ++ [s.index] }

/-- One row more was written; every so many the session commits. -/
def touch (batch : ℕ) (s : Session H) : Session H :=
  if (s.touched + 1) % batch = 0 then { s with touched := s.touched + 1 }.commit
  else { s with touched := s.touched + 1 }

def now (env : RunEnv H) (s : Session H) : Time := env.clock s.ticks

/-- The clock is read once. -/
def tick (s : Session H) : Session H := { s with ticks := s.ticks + 1 }

def withMessages (s : Session H) (messages : Table H MessageRow) : Session H :=
  { s with index := { s.index with messages } }

def withStatus (s : Session H) (status : RebuildStatus) : Session H :=
  { s with index := { s.index with status := some status } }

@[simp] theorem touch_index {batch : ℕ} {s : Session H} :
    (s.touch batch).index = s.index := by
  unfold touch
  split <;> rfl

theorem mem_touch {batch : ℕ} {s : Session H} {index : MailIndex H}
    (h : index ∈ (s.touch batch).committed) : index ∈ s.committed ∨ index = s.index := by
  unfold touch at h
  split at h
  · simpa [commit] using h
  · exact .inl h

end Session

variable [DecidableEq H]

/-- What the walk keeps: two maps of the rows, the rows whose recipients are to be read again,
and what was met on disk. -/
structure Walk (H : Type*) where
  session : Session H
  byFile : Table Key H := .empty
  byHash : Table H (Key × Bool) := .empty
  recipientsPending : List H := []
  seenHashes : List H := []
  seenFiles : List Key := []
  relocations : Table H Key := .empty
  dupBcc : Table H (List String) := .empty

def setDefault {κ α : Type*} [DecidableEq κ] (t : Table κ α) (k : κ) (a : α) : Table κ α :=
  match t.get? k with
  | some _ => t
  | none => t.set k a

/-- `t.setdefault(k, set()).update(l)` -/
def updateSet {κ α : Type*} [DecidableEq κ] [BEq α] (t : Table κ (List α)) (k : κ) (l : List α) :
    Table κ (List α) :=
  t.set k (l.foldl (fun found a => found.insert a) ((t.get? k).getD []))

/-- One row of the bulk read. -/
def readRow (w : Walk H) (row : H × MessageRow) : Walk H :=
  { w with
    byFile := w.byFile.set row.2.pointer row.1
    byHash := w.byHash.set row.1 (row.2.pointer, row.2.deletedAt.isSome)
    recipientsPending :=
      if row.2.recipientsIndexedAt.isNone then w.recipientsPending.insert row.1
      else w.recipientsPending }

/-- The status row says that the walk is on. -/
def startSession (index : MailIndex H) : Session H :=
  let status : RebuildStatus := match index.status with
    | none => { state := .liveIndexing }
    | some status => { status with state := .liveIndexing }
  Session.commit { index := { index with status := some status } }

def startWalk (index : MailIndex H) : Walk H :=
  index.messages.rows.foldl readRow { session := startSession index }

variable (env : RunEnv H) (batch : ℕ)

/-- A file that is where a row points. -/
def meetKnown (known : H) (f : File C) (w : Walk H) : Walk H :=
  let w := { w with seenHashes := w.seenHashes.insert known }
  if known ∈ w.recipientsPending then
    let w := { w with recipientsPending := w.recipientsPending.filter fun h => h ≠ known }
    match readRecipients reader f.content with
    | none => w
    | some recipients =>
        let reread := w.session.index.messages.modify known fun row =>
          { row with
            toRecipients := recipients
            recipientsIndexedAt := some (w.session.now env) }
        { w with session := (w.session.tick.withMessages reread).touch batch }
  else w

/-- A message that has a row already, in a file its row does not point at. -/
def meetDuplicate (parsed : Parsed H) (f : File C) (w : Walk H) : Walk H :=
  let h := parsed.messageIdHash
  { w with
    seenHashes := w.seenHashes.insert h
    relocations := setDefault w.relocations h f.key
    dupBcc :=
      match parsed.bccAddrs with
      | none => w.dupBcc
      | some addrs => updateSet w.dupBcc h addrs }

def newRow (parsed : Parsed H) (f : File C) (attachments : Option (List Attachment))
    (now : Time) : MessageRow where
  toRecipients := parsed.toRecipients
  messageId := parsed.messageId
  dateSent := parsed.dateSent
  fromAddr := parsed.fromAddr
  fromName := parsed.fromName
  subject := parsed.subject
  folderPath := f.folder
  maildirFilename := f.filename
  sizeBytes := parsed.sizeBytes
  firstSeenAt := now
  lastSeenAt := now
  hasAttachments := !(attachments.getD []).isEmpty
  -- A file whose attachments could not be read is left for a later pass.
  attachmentsIndexedAt := if attachments.isSome then some now else none
  recipientsIndexedAt := some now

/-- A message without a row. -/
def meetNew (parsed : Parsed H) (f : File C) (w : Walk H) : Walk H :=
  let h := parsed.messageIdHash
  let attachments := f.content.bind reader.parseAttachments
  let s := w.session.tick
  let index : MailIndex H :=
    { s.index with
      messages := s.index.messages.set h (newRow parsed f attachments (w.session.now env))
      attachments := s.index.attachments ++ (attachments.getD []).map fun a => (h, a) }
  { w with
    session := { s with index }.touch batch
    byHash := w.byHash.set h (f.key, false)
    byFile := w.byFile.set f.key h
    seenHashes := w.seenHashes.insert h }

/-- The body of the walk. -/
def walkFile (w : Walk H) (f : File C) : Walk H :=
  let w := { w with seenFiles := w.seenFiles.insert f.key }
  match w.byFile.get? f.key with
  | some known => meetKnown reader env batch known f w
  | none =>
      match parseHeaders reader f.content with
      | none => w
      | some parsed =>
          if (w.byHash.get? parsed.messageIdHash).isSome then meetDuplicate parsed f w
          else meetNew reader env batch parsed f w

/-! ## Bcc addresses of duplicate copies -/

/-- The addresses of a chunk that a row lacks. -/
def missingBcc (chunk : List (H × List String)) (h : H) (row : MessageRow) : List String :=
  (((chunk.lookup h).getD []).filter fun a => !(row.bccAddrs.getD []).contains a).insertionSort
    (· ≤ ·)

def mergeRow (chunk : List (H × List String)) (h : H) (row : MessageRow) : MessageRow :=
  if missingBcc chunk h row = [] then row
  else { row with bccAddrs := some (row.bccAddrs.getD [] ++ missingBcc chunk h row) }

def mergeChunk (s : Session H) (chunk : List (H × List String)) : Session H :=
  let messages := s.index.messages
  let changed := messages.rows.filter fun row => !(missingBcc chunk row.1 row.2).isEmpty
  { s.withMessages (messages.map (mergeRow chunk)) with
    touched := s.touched + changed.length }.commit

/-- `[l[i : i + n] for i in range(0, len(l), n)]` -/
def chunks {α : Type*} (n : ℕ) (l : List α) : List (List α) :=
  (List.range ((l.length + n - 1) / n)).map fun i => (l.drop (i * n)).take n

/-! ## Relocations and deletions -/

/-- The row's pointer is stale and no copy was met: this cannot be. -/
def defensiveSkip (w : Walk H) (h : H) : Bool :=
  match w.byHash.get? h with
  | none => false
  | some stored => !w.seenFiles.contains stored.1 && (w.relocations.get? h).isNone

def relocate (w : Walk H) (now : Time) (s : Session H) (h : H) : Session H :=
  match w.byHash.get? h with
  | none => s
  | some (key, isDeleted) =>
      let stale := !w.seenFiles.contains key
      if defensiveSkip w h then s
      else if stale || isDeleted then
        match s.index.messages.get? h with
        | none => s
        | some _ =>
            let coords := if stale then (w.relocations.get? h).getD key else key
            (s.withMessages (s.index.messages.modify h fun row =>
              { row with
                folderPath := if stale then coords.1 else row.folderPath
                maildirFilename := if stale then coords.2 else row.maildirFilename
                deletedAt := none
                lastSeenAt := now })).touch batch
      else s

/-- The rows deleted so far, besides the session. -/
def softDelete (w : Walk H) (now : Time) (p : Session H × ℕ) (entry : H × Key × Bool) :
    Session H × ℕ :=
  let (s, deletedInBatch) := p
  if entry.2.2 || w.seenHashes.contains entry.1 then (s, deletedInBatch)
  else
    match s.index.messages.get? entry.1 with
    | none => (s, deletedInBatch)
    | some _ =>
        let s := s.withMessages (s.index.messages.modify entry.1 fun row =>
          { row with deletedAt := some now, lastSeenAt := now })
        let s := { s with touched := s.touched + 1 }
        (if (deletedInBatch + 1) % batch = 0 then s.commit else s, deletedInBatch + 1)

/-! ## The whole run -/

/-- The state when the walk is through. -/
def walked (files : List (File C)) (index : MailIndex H) : Walk H :=
  files.foldl (walkFile reader env batch) (startWalk index)

def merged (w : Walk H) : Session H :=
  (chunks batch w.dupBcc.rows).foldl mergeChunk w.session.tick

def relocated (w : Walk H) (now : Time) (s : Session H) : Session H :=
  (env.setOrder w.seenHashes).foldl (relocate batch w now) s

def softDeleted (w : Walk H) (now : Time) (s : Session H) : Session H :=
  (w.byHash.rows.foldl (softDelete batch w now) (s, 0)).1

/-- The end of the run: the status row, and the last commit. -/
def finish (now : Time) (s : Session H) : Session H :=
  (s.withStatus ⟨.idle, some now, none⟩).commit

def reconcileMaildir (files : List (File C)) (index : MailIndex H) : Session H :=
  let w := walked reader env batch files index
  let now := w.session.now env
  finish now (softDeleted batch w now (relocated env batch w now (merged batch w)))

def batchSize : ℕ := 1000

/-- The session as the function leaves it; its `touched` is what the function returns. -/
def upsertMessageSet (db : Db) (accountId : Id) (walk : String → List (Directory C))
    (index : MailIndex H) : Except String (Session H) :=
  match db.accounts.get? accountId with
  | none => .error s!"Account {accountId} not found"
  | some account =>
      .ok (reconcileMaildir reader env batchSize
        (walkMaildir account.maildirPath (walk account.maildirPath)) index)

end MailFallback.Index
