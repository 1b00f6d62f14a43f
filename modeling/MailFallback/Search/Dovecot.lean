import MailFallback.Library.Program
import MailFallback.Library.Regex
import MailFallback.Search.Semantics

/-! # Search through Dovecot

The deep search asks Dovecot for the messages with a keyword in their bodies, and the restore
workspace asks it where the messages of the index lie. Bytes are characters up to U+00FF. -/

namespace MailFallback.Search

open Storage Effects Query PyString Index Access

/-- `_sanitize_imap_string` -/
def sanitizeImapString (value : String) : String :=
  String.ofList (value.toList.filter fun c => !(c == '"' || c == '\\' || decide (c.toNat ≤ 0x1f)))

/-! ## The Message-Id of a FETCH answer -/

/-- An item of the answer as imaplib hands it over. -/
inductive FetchItem where
  | pair (metadata payload : String)
  | bytes (text : String)
  deriving DecidableEq, Repr

/-- `\s` in a pattern of bytes. -/
def isByteSpace (c : Char) : Bool := (9 ≤ c.toNat && c.toNat ≤ 13) || c == ' '

/-- `[^>\r\n]` -/
def isInsideBrackets (c : Char) : Bool := !(c == '>' || c == '\r' || c == '\n')

/-- `_MESSAGE_ID_RE` -/
def messageIdRe : Regex := Regex.all [.text Char.toLower "message-id:", .star isByteSpace,
  .group 1 (Regex.all [Regex.lit "<", .star isInsideBrackets, Regex.lit ">"])]

/-- `decode("ascii", errors="replace")` -/
def decodeAscii (bytes : List Char) : String :=
  String.ofList (bytes.map fun c => if c.toNat < 128 then c else '\uFFFD')

/-- `_parse_message_id_from_fetch` -/
def parseMessageIdFromFetch : FetchItem → Option String
  | .bytes _ => none
  | .pair _ payload => (messageIdRe.search payload.toList).map fun m => decodeAscii (m.group 1)

example : parseMessageIdFromFetch (.pair "1 (BODY[] {20}" "MESSAGE-ID:\r\n <X@y>\r\n\r\n") =
    some "<X@y>" := by decide +kernel

/-! ## Conversations -/

/-- The clock, the queries of the database, and the commands on a connection as a temporary
user. -/
inductive DovecotOp where
  | monotonic
  | account (accountId : Id)
  /-- The folders of the rows of the account that are live. -/
  | liveFolders (accountId : Id)
  | connect (accountId : Id)
  | select (target : String)
  | uidSearch (criteria : List String) (literal : Option String)
  | uidFetch (uids items : String)
  | logout
  | deleteTempImapUser
  deriving DecidableEq

def DovecotOp.Reply : DovecotOp → Type
  | .monotonic => ℕ
  | .account _ => Option Account
  | .liveFolders _ => List String
  /- Whether the status is OK. -/
  | .select _ => Bool
  /- The UIDs, if the status is OK. -/
  | .uidSearch .. => Option (List String)
  | .uidFetch .. => Option (List FetchItem)
  | .connect _ | .logout | .deleteTempImapUser => Unit

/-- All that matters of an exception is that there is one. -/
abbrev DovecotTask (α : Type) := Prog DovecotOp DovecotOp.Reply Unit α

namespace DovecotTask

def monotonic : DovecotTask ℕ := Prog.op DovecotOp.monotonic

def account (accountId : Id) : DovecotTask (Option Account) := Prog.op (DovecotOp.account accountId)

def liveFolders (accountId : Id) : DovecotTask (List String) :=
  Prog.op (DovecotOp.liveFolders accountId)

def connect (accountId : Id) : DovecotTask Unit := Prog.op (DovecotOp.connect accountId)

def select (target : String) : DovecotTask Bool := Prog.op (DovecotOp.select target)

def uidSearch (criteria : List String) (literal : Option String) :
    DovecotTask (Option (List String)) := Prog.op (DovecotOp.uidSearch criteria literal)

def uidFetch (uids items : String) : DovecotTask (Option (List FetchItem)) :=
  Prog.op (DovecotOp.uidFetch uids items)

def logout : DovecotTask Unit := Prog.op DovecotOp.logout

def deleteTempImapUser : DovecotTask Unit := Prog.op DovecotOp.deleteTempImapUser

/-- `contextlib.suppress(Exception)` -/
def suppress (p : DovecotTask Unit) : DovecotTask Unit := p.handle fun _ => pure ()

/-- The result, or nothing where an exception comes out. -/
def attempt {α : Type} (p : DovecotTask α) : DovecotTask (Option α) :=
  (do
    let a ← p
    pure (some a)).handle fun _ => pure none

/-- Whatever comes out, the connection is closed and its user deleted. -/
def andLogOut {α : Type} (p : DovecotTask α) : DovecotTask α :=
  p.ensure do
    suppress logout
    suppress deleteTempImapUser

end DovecotTask

open DovecotTask

/-! ## Body search -/

section BodySearch

variable {C H : Type} (reader : Reader C H)

/-- The hashes that are added for an answer. -/
def matchedHashes (items : List FetchItem) : List H :=
  ((items.filterMap parseMessageIdFromFetch).filter fun msgid => msgid ≠ "").map
    (hashMessageId reader)

/-- What has matched, and whether the time has run out. -/
abbrev Matched (H : Type) := List H × Bool

def searchBatches (deadline : ℕ) (matched : List H) : List (List String) → DovecotTask (Matched H)
  | [] => pure (matched, false)
  | batch :: batches => do
      let now ← monotonic
      if deadline < now then pure (matched, true)
      else
        let items ← attempt (uidFetch (",".intercalate batch) "(BODY[HEADER.FIELDS (MESSAGE-ID)])")
        match items with
        | none => pure (matched, false)
        | some items =>
            searchBatches deadline (matched ++ matchedHashes reader (items.getD [])) batches

def searchFolder (deadline : ℕ) (keyword pre : String) (matched : List H) (folder : String) :
    DovecotTask (Matched H) := do
  let uids ← attempt do
    let ok ← select ("\"" ++ pre ++ sanitizeImapString folder ++ "\"")
    if ok = false then pure none
    else if keyword.toList.all fun c => decide (c.toNat < 128) then
      uidSearch ["BODY", "\"" ++ keyword ++ "\""] none
    else uidSearch ["CHARSET", "UTF-8", "BODY"] (some keyword)
  match uids with
  | some (some uids) => searchBatches reader deadline matched (uids.toChunks 500)
  | _ => pure (matched, false)

def searchFolders (deadline : ℕ) (keyword pre : String) (matched : List H) :
    List String → DovecotTask (Matched H)
  | [] => pure (matched, false)
  | folder :: folders => do
      let now ← monotonic
      if deadline < now then pure (matched, true)
      else
        let found ← searchFolder reader deadline keyword pre matched folder
        if found.2 = true then pure found
        else searchFolders deadline keyword pre found.1 folders

def searchAccount (deadline : ℕ) (keyword : String) (matched : List H) (accountId : Id)
    (account : Account) : DovecotTask (Matched H) := do
  let folders ← liveFolders accountId
  if folders = [] then pure (matched, false)
  else
    let connected ← attempt (connect accountId)
    match connected with
    | none => pure (matched, false)
    | some _ => andLogOut (searchFolders reader deadline keyword
        (accountNamespacePrefix accountId account) matched folders)

def searchAccounts (deadline : ℕ) (keyword : String) (matched : List H) :
    List Id → DovecotTask (Matched H)
  | [] => pure (matched, false)
  | accountId :: accountIds => do
      let now ← monotonic
      if deadline < now then pure (matched, true)
      else
        let account ← DovecotTask.account accountId
        match account with
        | none => searchAccounts deadline keyword matched accountIds
        | some account =>
            let found ← searchAccount reader deadline keyword matched accountId account
            if found.2 = true then pure found
            else searchAccounts deadline keyword found.1 accountIds

/-- `_dovecot_body_search` -/
def dovecotBodySearch (accountIds : List Id) (keyword : String) (deadline : ℕ) :
    DovecotTask (Matched H) :=
  let keyword := sanitizeImapString keyword
  if keyword = "" then pure ([], false)
  else searchAccounts reader deadline keyword [] accountIds

end BodySearch

/-! ## UIDs of indexed messages -/

section ResolveUids

variable {H : Type} [DecidableEq H]

/-- The live rows of the account with one of the Message-Ids. -/
def requestedRows (unordered : Unordered (MessageKey H × MessageRow)) (db : SearchDb H)
    (accountId : Id) (messageIds : List String) : List MessageRow :=
  (unordered.list (db.messages.filter fun r => r.1.1 = accountId ∧ r.2.messageId ∈ messageIds ∧
    r.2.deletedAt = none)).map Prod.snd

/-- The Message-Ids of each folder. -/
def byFolder (rows : List MessageRow) : Table String (List String) :=
  rows.foldl (fun folders r => folders.append r.folderPath r.messageId) .empty

structure Resolved where
  resolved : Table String (List String) := .empty
  found : List String := []

structure ResolvedUids where
  resolved : Table String (List String)
  missing : List String
  imapUnavailable : Bool

/-- The first hit is taken. -/
def resolveMessage (key : String) (r : Resolved) (msgid : String) : DovecotTask Resolved := do
  let uids ← uidSearch ["HEADER", "Message-Id", "\"" ++ sanitizeImapString msgid ++ "\""] none
  match uids with
  | some (uid :: _) => pure ⟨r.resolved.append key uid, r.found ++ [msgid]⟩
  | _ => pure r

def resolveFolder (pre : String) (r : Resolved) (folder : String × List String) :
    DovecotTask Resolved := do
  let key := pre ++ sanitizeImapString folder.1
  let ok ← select ("\"" ++ key ++ "\"")
  if ok = false then pure r else folder.2.foldlM (resolveMessage key) r

/-- `resolve_uids_for_account`, with the rows of its query. -/
def resolveUidsForAccount (accountId : Id) (account : Account) (rows : List MessageRow)
    (messageIds : List String) : DovecotTask ResolvedUids := do
  let reply := fun (r : Resolved) (unavailable : Bool) =>
    ResolvedUids.mk r.resolved (messageIds.filter fun m => m ∉ r.found) unavailable
  let folders := (byFolder rows).rows
  if folders = [] then pure (reply {} false)
  else
    let connected ← attempt (connect accountId)
    match connected with
    | none => pure (reply {} true)
    | some _ =>
        let r ← andLogOut
          (folders.foldlM (resolveFolder (accountNamespacePrefix accountId account)) {})
        pure (reply r false)

end ResolveUids

end MailFallback.Search
