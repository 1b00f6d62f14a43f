import MailFallback.Library.PathLookup
import MailFallback.Tables
import Mathlib.Algebra.GroupWithZero.Nat

/-! # Store paths, orphaned directories and Dovecot homes -/

namespace MailFallback

open Storage Posix

/-- The files of the host: absolute paths, file contents as bytes. -/
abbrev Files := Disk Name (List UInt8)

def dovecotHomeDirname : String := ".dovecot-home"

/-- `[a-zA-Z0-9@._-]`. -/
def isPathSafe (c : Char) : Bool :=
  ('a' ≤ c && c ≤ 'z') || ('A' ≤ c && c ≤ 'Z') || ('0' ≤ c && c ≤ '9') ||
    c == '@' || c == '.' || c == '_' || c == '-'

def sanitizePathComponent (name : String) : String :=
  String.ofList (name.toList.map fun c => if isPathSafe c then c else '_')

def tempUserPrefix : String := "_restore_"

/-- The one check that `create_user` makes of a username; `update_user` makes none. -/
def createUserRefuses (username : String) : Bool :=
  tempUserPrefix.toList.isPrefixOf username.toList

/-- The username that a first OIDC login is given. -/
def oidcUsername (rawUsername : String) : String :=
  let username := String.ofList ((sanitizePathComponent rawUsername).toList.take 255)
  if createUserRefuses username then "u" ++ username else username

def dovecotHomeDir (storePath username : String) : String :=
  rstripSlash storePath ++ "/" ++ dovecotHomeDirname ++ "/" ++ sanitizePathComponent username

def deriveMaildirPath (storePath : String) (accountId : Id) : String :=
  rstripSlash storePath ++ "/" ++ accountId

/-! ## Orphaned directories -/

structure Orphan where
  name : String
  path : String
  size : ℕ
  deriving DecidableEq, Repr

/-- The bytes of the files that lie directly in a directory. -/
def directFileBytes (d : Files) (dir : Path) : ℕ :=
  ((d.children dir).map fun
    | (_, .file content) => content.length
    | (_, .dir) => 0).sum

/-- The ids of the accounts whose `store_id` is this store. -/
def accountIds (db : Db) (storeId : Id) : List Id :=
  (db.accounts.rows.filter fun r => r.2.storeId = storeId).map Prod.fst

def hidden (name : String) : Bool := name.toList.head? == some '.'

def getOrphanedDirs (db : Db) (d : Files) (cwd : Path) (storeId : Id) : List Orphan :=
  match db.stores.get? storeId with
  | none => []
  | some store =>
      match find d cwd store.path with
      | none => []
      | some dir =>
          if d.isDir dir then
            (d.children dir).filterMap fun entry =>
              if entry.2 ≠ .dir ∨ hidden entry.1.1 = true then none
              else if entry.1.1 ∉ accountIds db storeId then
                some ⟨entry.1.1, join store.path entry.1.1, directFileBytes d (dir ++ [entry.1])⟩
              else none
          else []

/-- `stuck` are the files that `shutil.rmtree` fails to remove. -/
def deleteOrphanedDirs (db : Db) (d : Files) (cwd : Path) (storeId : Id) (stuck : Path → Bool) :
    Files × ℕ :=
  let orphans := getOrphanedDirs db d cwd storeId
  (orphans.foldl (fun d orphan => rmtree d cwd orphan.path stuck) d, orphans.length)

/-! ## Dovecot homes -/

/-- The other users of the store whose home is the same string. -/
def homeCollisions (db : Db) (userId storeId : Id) (storePath home : String) : List String :=
  (db.users.rows.filter fun r =>
    r.1 ≠ userId ∧ r.2.storeId = storeId ∧ dovecotHomeDir storePath r.2.username = home).map
      fun r => r.2.username

/-- The home that is handed to `shutil.rmtree`, unless it is shared or not there. -/
def homeToRemove (db : Db) (d : Files) (cwd : Path) (userId : Id) (user : User) : Option String :=
  match db.stores.get? user.storeId with
  | none => none
  | some store =>
      let home := dovecotHomeDir store.path user.username
      if homeCollisions db userId user.storeId store.path home ≠ [] then none
      else if isdir d cwd home = false then none
      else some home

def removeDovecotHome (db : Db) (d : Files) (cwd : Path) (userId : Id) (user : User)
    (stuck : Path → Bool) : Files × Bool :=
  match homeToRemove db d cwd userId user with
  | none => (d, false)
  | some home =>
      let d' := rmtree d cwd home stuck
      (d', !isdir d' cwd home)

end MailFallback
