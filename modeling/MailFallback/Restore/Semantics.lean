import MailFallback.Library.Program
import MailFallback.Library.Regex
import MailFallback.Restore.FolderMapping
import MailFallback.Staging.Worker

/-! # The restore worker

What `restore_worker` does with a job that reads from Dovecot: the folders one after the other,
message by message, on connections that can be lost. The job's counters are written with
`record`; how its status is settled in the end is left out. -/

namespace MailFallback.Restore

open Effects PyString Storage Staging

inductive Side where
  | source | target
  deriving DecidableEq, Repr

/-- A connection object. -/
structure Conn where
  side : Side
  number : ℕ
  deriving DecidableEq, Repr

/-- The exceptions of a command. Whether a server had carried the command out when the
connection was lost, the worker cannot see. -/
inductive Failure where
  /-- `IMAP4.error`, but not `abort`. -/
  | refused
  | abort (done : Bool)
  | os (done : Bool)
  | value
  deriving DecidableEq, Repr

/-- `imaplib.IMAP4.error`, of which `abort` is one. -/
def Failure.isImap : Failure → Bool
  | .refused | .abort _ => true
  | _ => false

/-- `IMAP4.abort` or `OSError`. -/
def Failure.isLost : Failure → Bool
  | .abort _ | .os _ => true
  | _ => false

/-- The counter of the job that a message goes to. -/
inductive Outcome where
  | restored | skipped | failed
  deriving DecidableEq, Repr

inductive RestoreOp where
  | connect (side : Side)
  | select (conn : Conn) (mailbox : String) (readonly : Bool)
  | close (conn : Conn)
  | create (conn : Conn) (mailbox : String)
  /-- `UID SEARCH ALL` or `SEARCH ALL` -/
  | search (conn : Conn) (byUid : Bool)
  /-- `FETCH id (RFC822 FLAGS INTERNALDATE)`, by UID or by sequence number. -/
  | fetch (conn : Conn) (byUid : Bool) (id : ℕ)
  /-- `FETCH id (BODY.PEEK[HEADER.FIELDS (MESSAGE-ID)])` -/
  | fetchHeader (conn : Conn) (id : ℕ)
  | append (conn : Conn) (mailbox : String) (flags date : Option String) (raw : Bytes)
  | record (o : Outcome)
  /-- `job.id in _cancel_flags` -/
  | cancelled
  deriving DecidableEq

def RestoreAns : RestoreOp → Type
  | .connect _ => Conn
  /- The status and the number of messages. -/
  | .select .. => String × ℕ
  | .search .. => String × List ℕ
  /- The status and, if it is there, the envelope of the data with the message. -/
  | .fetch .. => String × Option (String × Bytes)
  /- The status and the header, decoded. -/
  | .fetchHeader .. => String × Option String
  | .append .. => String
  | .cancelled => Bool
  | .close _ | .create .. | .record _ => Unit

abbrev RestoreTask (α : Type) := Prog RestoreOp RestoreAns Failure α

namespace RestoreTask

def connect (side : Side) : RestoreTask Conn := Prog.op (RestoreOp.connect side)

def select (conn : Conn) (mailbox : String) (readonly : Bool) : RestoreTask (String × ℕ) :=
  Prog.op (RestoreOp.select conn mailbox readonly)

def close (conn : Conn) : RestoreTask Unit := Prog.op (RestoreOp.close conn)

def create (conn : Conn) (mailbox : String) : RestoreTask Unit := Prog.op (RestoreOp.create conn mailbox)

def search (conn : Conn) (byUid : Bool) : RestoreTask (String × List ℕ) :=
  Prog.op (RestoreOp.search conn byUid)

def fetch (conn : Conn) (byUid : Bool) (id : ℕ) : RestoreTask (String × Option (String × Bytes)) :=
  Prog.op (RestoreOp.fetch conn byUid id)

def fetchHeader (conn : Conn) (id : ℕ) : RestoreTask (String × Option String) :=
  Prog.op (RestoreOp.fetchHeader conn id)

def append (conn : Conn) (mailbox : String) (flags date : Option String) (raw : Bytes) :
    RestoreTask String := Prog.op (RestoreOp.append conn mailbox flags date raw)

def record (o : Outcome) : RestoreTask Unit := Prog.op (RestoreOp.record o)

def cancelled : RestoreTask Bool := Prog.op RestoreOp.cancelled

/-- The result of a part, or its exception as a value. -/
def attempt {α : Type} (p : RestoreTask α) : RestoreTask (Except Failure α) :=
  (do
    let a ← p
    pure (Except.ok a)).handle fun e => pure (Except.error e)

end RestoreTask

/-! ## The job -/

/-- What the worker reads of a `RestoreJob`; `None` and an empty selection are one. -/
structure RestoreJob where
  folderMapping : String := "original"
  skipDuplicates : Bool := true
  selectedFolders : List String := []
  selectedUids : Table String (List ℕ) := .empty

/-- Messages are named by UID exactly if some are selected. -/
def RestoreJob.byUid (job : RestoreJob) : Bool := !job.selectedUids.rows.isEmpty

/-- The other arguments of `_execute_restore`, and what it takes from the standard library. -/
structure Context where
  job : RestoreJob
  tgtSeparator : String := "/"
  srcNamespacePrefix : String := ""
  /-- Whether there are parameters to connect again with. -/
  srcConnParams : Bool := true
  tgtConnParams : Bool := true
  /-- `email.message_from_bytes(raw).get("Message-ID", "")`, unless it raises. -/
  messageId : Bytes → Option String
  /-- `Time2Internaldate(Internaldate2tuple(...))`, unless it raises. -/
  internalDate : String → Option String

open RestoreTask

/-! ## Helpers -/

/-- `_retry_imap`, with the attempts that are left after the first. -/
def retry {α : Type} (p : RestoreTask α) : ℕ → RestoreTask α
  | 0 => p
  | n + 1 => p.handle fun e =>
      if e.isImap = true ∨ e.isLost = true then retry p n else Prog.raise e

/-- `_ensure_folder` -/
def ensureMailbox (conn : Conn) (folder : String) : RestoreTask Unit := do
  let selected ← (do
    let reply ← select conn (Staging.quoted folder) false
    if reply.1 = "OK" then do
      close conn
      pure true
    else pure false).handle fun _ => pure false
  if selected = true then pure ()
  else (create conn (Staging.quoted folder)).handle fun e =>
    if e.isImap = true ∨ e.isLost = true then pure () else Prog.raise e

/-- The headers of the messages, until a command fails; an `OSError` goes on. -/
def collectIds (conn : Conn) : List String → List ℕ → RestoreTask (List String)
  | ids, [] => do
      match ← attempt (close conn) with
      | .ok _ => pure ids
      | .error e => if e.isImap = true then pure ids else Prog.raise e
  | ids, id :: rest => do
      match ← attempt (fetchHeader conn id) with
      | .ok reply =>
          let found := if reply.1 = "OK" then reply.2.toList else []
          collectIds conn (ids ++ found.flatMap fun header => headerIds (splitlines header)) rest
      | .error e => if e.isImap = true then pure ids else Prog.raise e

/-- `_get_existing_message_ids` -/
def existingMessageIds (conn : Conn) (folder : String) : RestoreTask (List String) := do
  match ← attempt (select conn (Staging.quoted folder) true) with
  | .error e => if e.isImap = true then pure [] else Prog.raise e
  | .ok reply =>
      if reply.1 ≠ "OK" then pure []
      else do
        match ← attempt (search conn false) with
        | .error e => if e.isImap = true then pure [] else Prog.raise e
        | .ok found => collectIds conn [] (if found.1 = "OK" then found.2 else [])

/-- `_is_duplicate` -/
def duplicate (ctx : Context) (raw : Bytes) (existing : List String) : Bool :=
  (ctx.messageId raw).any fun id => id ≠ "" && existing.contains id

/-- The flags of a message, but `\Recent`. -/
def flagsOf (envelope : String) : String :=
  let pattern := Regex.all [Regex.lit "FLAGS (", .group 1 (.star fun c => c ≠ ')'), Regex.lit ")"]
  if has envelope "FLAGS" = true then
    match pattern.search envelope.toList with
    | some m => join ' ' ((split (String.ofList (m.group 1))).filter fun flag =>
        flag.toList.map Char.toUpper ≠ "\\RECENT".toList)
    | none => ""
  else ""

def dateOf (ctx : Context) (envelope : String) : RestoreTask (Option String) :=
  let pattern := Regex.all
    [Regex.lit "INTERNALDATE \"", .group 1 (.plus fun c => c ≠ '"'), Regex.lit "\""]
  if has envelope "INTERNALDATE" = true then
    match pattern.search envelope.toList with
    | some m =>
        match ctx.internalDate (String.ofList (m.group 1)) with
        | some date => pure (some date)
        | none => Prog.raise .value
    | none => pure none
  else pure none

/-! ## One message -/

/-- Hands a message over. -/
def deliverMessage (ctx : Context) (tgt : Conn) (targetFolder envelope : String) (raw : Bytes) :
    RestoreTask Outcome := do
  let date ← dateOf ctx envelope
  ensureMailbox tgt targetFolder
  let flags := flagsOf envelope
  (do
    let result ← retry (append tgt (Staging.quoted targetFolder)
      (if flags = "" then none else some flags) date raw) 2
    pure (if result = "OK" then Outcome.restored else .failed)).handle fun e =>
      if e.isImap = true ∨ e.isLost = true then pure .failed else Prog.raise e

/-- `_restore_single_message` -/
def restoreSingleMessage (ctx : Context) (src tgt : Conn) (uid : ℕ) (targetFolder : String)
    (existing : List String) : RestoreTask Outcome := do
  let reply ← fetch src ctx.job.byUid uid
  if reply.1 ≠ "OK" then pure .failed
  else
    match reply.2 with
    | none => pure .failed
    | some (envelope, raw) =>
        if ctx.job.skipDuplicates = true ∧ duplicate ctx raw existing = true then pure .skipped
        else deliverMessage ctx tgt targetFolder envelope raw

/-- The connections in use. -/
structure Session where
  src : Conn
  tgt : Conn
  deriving DecidableEq

/-- The source is connected again and the folder selected. -/
def reconnectSource (ctx : Context) (fullFolder : String) (s : Session) :
    RestoreTask (Session × Bool) :=
  if ctx.srcConnParams = true then do
    match ← attempt (connect .source) with
    | .error _ => pure (s, false)
    | .ok src =>
        match ← attempt (select src (Staging.quoted fullFolder) true) with
        | .error _ => pure ({ s with src := src }, false)
        | .ok _ => pure ({ s with src := src }, true)
  else pure (s, true)

def reconnectTarget (ctx : Context) (s : Session) : RestoreTask (Session × Bool) :=
  if ctx.tgtConnParams = true then do
    match ← attempt (connect .target) with
    | .error _ => pure (s, false)
    | .ok tgt => pure ({ s with tgt := tgt }, true)
  else pure (s, true)

def reconnect (ctx : Context) (fullFolder : String) (s : Session) :
    RestoreTask (Session × Bool) := do
  let r ← reconnectSource ctx fullFolder s
  if r.2 = true then reconnectTarget ctx r.1 else pure r

/-- A message, with one more attempt on new connections when one is lost. -/
def restoreMessage (ctx : Context) (fullFolder targetFolder : String) (existing : List String)
    (uid : ℕ) (s : Session) : RestoreTask Session := do
  match ← attempt (restoreSingleMessage ctx s.src s.tgt uid targetFolder existing) with
  | .ok outcome => do
      record outcome
      pure s
  | .error e =>
      if e.isLost = true then do
        let r ← reconnect ctx fullFolder s
        if r.2 = true then
          match ← attempt (restoreSingleMessage ctx r.1.src r.1.tgt uid targetFolder existing) with
          | .ok outcome => do
              record outcome
              pure r.1
          | .error _ => do
              record .failed
              pure r.1
        else do
          record .failed
          pure r.1
      else do
        record .failed
        pure s

/-! ## Folders -/

/-- What is behind the last place where a text occurs. -/
def afterLast? (sep : List Char) : List Char → Option (List Char)
  | [] => none
  | c :: cs => (afterLast? sep cs).or
      (if sep.isPrefixOf (c :: cs) = true then some ((c :: cs).drop sep.length) else none)

/-- The folder of a line of the listing, in full and without the prefix of the namespace. -/
def listedFolder (namespacePrefix line : String) : Option (String × String) :=
  (afterLast? ['"', ' ', '"'] line.toList).map fun name =>
    let full := (rstrip (String.ofList name) '"').toList
    (String.ofList full, String.ofList
      (if namespacePrefix.toList.isPrefixOf full = true then
        full.drop namespacePrefix.toList.length
      else full))

/-- `_resolve_folders`; the keys of a selection are trusted as they are. -/
def resolveFolders (job : RestoreJob) (namespacePrefix : String) (listing : List String) :
    List (String × String) :=
  if job.byUid = true then job.selectedUids.rows.map fun row => (row.1, row.1)
  else
    let all := (listing.filter fun line => line ≠ "").filterMap (listedFolder namespacePrefix)
    if job.selectedFolders ≠ [] then all.filter fun folder => folder.2 ∈ job.selectedFolders
    else all

/-- `uid_filter`, when the folder is one of the keys. -/
def uidFilter (ctx : Context) (shortFolder : String) : Option (List ℕ) :=
  if ctx.job.byUid = true then ctx.job.selectedUids.get? shortFolder else none

/-- `uid_filter and int(uid) not in uid_filter` -/
def passesOver (uidFilter : Option (List ℕ)) (uid : ℕ) : Bool :=
  match uidFilter with
  | none => false
  | some uids => !uids.isEmpty && !uids.contains uid

/-- Without a result when the job was cancelled. -/
def restoreMessages (ctx : Context) (fullFolder targetFolder : String) (existing : List String)
    (uidFilter : Option (List ℕ)) : List ℕ → Session → RestoreTask (Option Session)
  | [], s => pure (some s)
  | uid :: uids, s => do
      if (← cancelled) = true then pure none
      else if passesOver uidFilter uid = true then
        restoreMessages ctx fullFolder targetFolder existing uidFilter uids s
      else do
        let s ← restoreMessage ctx fullFolder targetFolder existing uid s
        restoreMessages ctx fullFolder targetFolder existing uidFilter uids s

/-- The mailbox of the target that a folder goes to. -/
def targetMailbox (ctx : Context) (shortFolder : String) : String :=
  imapUtf7Encode (mapFolder shortFolder ctx.job.folderMapping ctx.tgtSeparator "_"
    ctx.srcNamespacePrefix)

/-- What the destination holds already, when the job asks. -/
def existingIds (ctx : Context) (tgt : Conn) (shortFolder : String) : RestoreTask (List String) :=
  if ctx.job.skipDuplicates = true then existingMessageIds tgt (targetMailbox ctx shortFolder)
  else pure []

def restoreFolder (ctx : Context) (folder : String × String) (s : Session) :
    RestoreTask (Option Session) := do
  let reply ← select s.src (Staging.quoted folder.1) true
  if reply.1 ≠ "OK" then pure (some s)
  else do
    let found ← search s.src ctx.job.byUid
    if found.1 ≠ "OK" ∨ found.2 = [] then pure (some s)
    else do
      let existing ← existingIds ctx s.tgt folder.2
      restoreMessages ctx folder.1 (targetMailbox ctx folder.2) existing (uidFilter ctx folder.2)
        found.2 s

def restoreFolders (ctx : Context) : List (String × String) → Session →
    RestoreTask (Option Session)
  | [], s => pure (some s)
  | folder :: folders, s => do
      if (← cancelled) = true then pure none
      else
        match ← restoreFolder ctx folder s with
        | none => pure none
        | some s => restoreFolders ctx folders s

/-- The messages that the folders hold. -/
def countMessages (src : Conn) : List (String × String) → RestoreTask ℕ
  | [] => pure 0
  | folder :: folders => do
      let reply ← select src (Staging.quoted folder.1) true
      let rest ← countMessages src folders
      pure (if reply.1 = "OK" then reply.2 + rest else rest)

/-- `job.total_messages` -/
def totalMessages (job : RestoreJob) (counted : ℕ) : ℕ :=
  if job.byUid = true then (job.selectedUids.rows.map fun row => row.2.length).sum else counted

/-- `_execute_restore`: the total, and the connections in the end unless the job was cancelled. -/
def executeRestore (ctx : Context) (folders : List (String × String)) (s : Session) :
    RestoreTask (ℕ × Option Session) := do
  let counted ← countMessages s.src folders
  let s ← restoreFolders ctx folders s
  pure (totalMessages ctx.job counted, s)

end MailFallback.Restore
