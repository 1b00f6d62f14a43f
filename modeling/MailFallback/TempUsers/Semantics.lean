import MailFallback.Config.Stores
import MailFallback.Store.Homes

/-! # Users and temporary users

The paths that set a username, on the tables that the import writes to, and what deletes the
users and the homes of restores. Passwords and tokens are inputs. -/

namespace MailFallback.TempUsers

open Relational Storage Posix Transition Config

/-! ## Rows -/

/-- The text of a column that holds one. -/
def text : PyValue → String
  | .str s => s
  | _ => ""

def username (row : Row) : String := text (row "username")

def roleValue : UserRole → PyValue
  | .admin => .enum "admin" "admin"
  | .user => .enum "user" "user"

/-- `User(...)` with the defaults of its columns. -/
def userRow (new : NewRow) (username : String) (passwordHash oidcSubject : PyValue) (role : UserRole)
    (storeId : PyValue) : Row :=
  rowOf [("id", .str new.id), ("username", .str username), ("password_hash", passwordHash),
    ("role", roleValue role), ("oidc_subject", oidcSubject), ("enabled", .bool true),
    ("created_at", .datetime new.createdAt), ("store_id", storeId), ("migrating", .bool false),
    ("preferences", .json "\x7b\x7d")]

variable (db : ConfigDb)

def withRows (name : TableName) (rows : List Row) : Option ConfigDb :=
  db.replace? exportTables mem_exportTables name rows

/-- An INSERT and a commit; `none` when the database refuses. -/
def insertRow (name : TableName) (row : Row) : Option ConfigDb :=
  match db.insert? name row with
  | .ok db => some db
  | .error _ => none

/-! ## The paths that set a username -/

/-- The welcome mail is left to the changes that others make on the disk. -/
def createUser (new : NewRow) (username passwordHash : String) (role : UserRole) (storeId : String) :
    Option ConfigDb :=
  if createUserRefuses username = true then none
  else insertRow db .users
    (userRow new username (.str passwordHash) .none role (.str storeId))

def updatableUserFields : List String := ["username", "role", "enabled", "store_id"]

/-- One turn of the loop over the keyword arguments. -/
def setUserField (row : Row) (field : String × PyValue) : Row :=
  if field.1 ∈ updatableUserFields then Function.update row field.1 field.2 else row

/-- The user of a migration stays on its store. -/
def updateUser (id : String) (fields : List (String × PyValue)) : Option ConfigDb :=
  match (db.rows .users).find? (hasId id) with
  | none => some db
  | some user =>
      let fields := if user "migrating" = .bool true then
          fields.filter fun field => field.1 ≠ "store_id" else fields
      withRows db .users ((db.rows .users).map fun row =>
        if hasId id row = true then fields.foldl setUserField row else row)

/-- The part of the OIDC callback that writes users; the first commit may be that of the default
store. -/
def oidcLogin (bootstrapStorePath : String) (newStore newUser : NewRow) (sub rawUsername : String)
    (role : UserRole) (adminGroup : Bool) : ConfigDb :=
  match (db.rows .users).find? fun row => decide (row "oidc_subject" = .str sub) with
  | some user =>
      if adminGroup = true ∧ user "role" ≠ roleValue role then
        (withRows db .users ((db.rows .users).map fun row =>
          if row "id" = user "id" then Function.update row "role" (roleValue role) else row)).getD db
      else db
  | none =>
      match ensureDefaultStore db bootstrapStorePath newStore with
      | none => db
      | some (db, _) =>
          match getDefaultStore db with
          | none => db
          | some store =>
              (insertRow db .users
                (userRow newUser (oidcUsername rawUsername) .none (.str sub) role (store "id"))).getD db

/-- `hex` is the first part of a fresh UUID. -/
def tempUsername (hex : String) : String := tempUserPrefix ++ hex

def createTempImapUser (new : NewRow) (hex passwordHash : String) (accountIds : List String) :
    Option ConfigDb := do
  let store ← (getDefaultStore db).or (db.rows .mailStores).head?
  let withUser ← insertRow db .users
    (userRow new (tempUsername hex) (.str passwordHash) .none .user (store "id"))
  accountIds.foldlM (fun db accountId => insertRow db .accountOwners
    (rowOf [("account_id", .str accountId), ("user_id", .str new.id)])) withUser

/-! ## The rows as the deletion of a home reads them -/

/-- A required column of strings. -/
theorem eq_str_text {name : TableName} {row : Row} {col : String} (hrow : row ∈ db.rows name)
    (htype : columnType name col = some .string) (hcol : col ∈ requiredColumns name)
    (hmem : col ∈ columnNames name) : row col = .str (text (row col)) := by
  have hadmits := db.admitted name row hrow
  have hholds := holds_string hadmits hmem htype
  have hne := admits_required hadmits hcol
  cases hv : row col with
  | str s => rfl
  | none => exact absurd hv hne
  | bool b => rw [hv] at hholds; cases hholds
  | int n => rw [hv] at hholds; cases hholds
  | json t => rw [hv] at hholds; cases hholds
  | enum n v => rw [hv] at hholds; cases hholds
  | datetime t => rw [hv] at hholds; cases hholds
  | date d => rw [hv] at hholds; cases hholds

theorem id_eq_str {name : TableName} (hid : pkCols name = ["id"]) {row : Row}
    (hrow : row ∈ db.rows name) : row "id" = .str (text (row "id")) := by
  have hpk : "id" ∈ pkCols name := by simp [hid]
  obtain ⟨hmem, -, htype⟩ := pkCols_plain name "id" hpk
  exact eq_str_text db hrow htype (pkCols_required name "id" hpk) hmem

theorem nodup_ids {name : TableName} (hid : pkCols name = ["id"]) :
    ((db.rows name).map fun row => text (row "id")).Nodup := by
  have hkey : ["id"] ∈ schema.key name :: schema.unique name := by
    rw [← hid]
    exact List.mem_cons_self
  rw [List.Nodup, List.pairwise_map]
  refine List.pairwise_iff_forall_sublist.mpr fun {r s} hsub hsame => ?_
  have hdistinct := (db.distinct name ["id"] hkey).forall_sublist hsub
  have hr : r ∈ db.rows name := hsub.subset List.mem_cons_self
  have hs : s ∈ db.rows name := hsub.subset (List.mem_cons_of_mem _ List.mem_cons_self)
  have heq : schema.same ["id"] r s = true := by
    refine same_singleton.mpr ⟨?_, id_ne_none hid hr⟩
    rw [id_eq_str db hid hr, id_eq_str db hid hs, hsame]
  rw [heq] at hdistinct
  cases hdistinct

def usersTable : Table Id User where
  rows := (db.rows .users).map fun row => (text (row "id"),
    { username := username row, storeId := text (row "store_id")
      migrating := decide (row "migrating" = .bool true) })
  nodup := by
    rw [List.map_map]
    exact nodup_ids db rfl

def storesTable : Table Id MailStore where
  rows := (db.rows .mailStores).map fun row => (text (row "id"), { path := text (row "path") })
  nodup := by
    rw [List.map_map]
    exact nodup_ids db rfl

def homesDb : Db := { users := usersTable db, stores := storesTable db }

/-! ## What deletes -/

/-- `_temp_user_filter` -/
def isTempUser (row : Row) : Bool := createUserRefuses (username row)

/-- The directory of the processes, the cipher, and the comparison with one hour ago. -/
structure Host where
  cwd : Path
  x : Externals
  secretKey : String
  bootstrapStorePath : String
  hourOld : (now createdAt : IsoFormat.DateTime) → Bool

/-- A user without a creation time is never selected. -/
def expired (host : Host) (now : IsoFormat.DateTime) (row : Row) : Bool :=
  isTempUser row && match row "created_at" with
    | .datetime t => host.hourOld now t
    | _ => false

def ownedBy (id : PyValue) (row : Row) : Bool := decide (row "user_id" = id)

/-- `db.delete(user)`: the links that the user's relationships write, and the row. -/
def deleteUser (id : PyValue) : Option ConfigDb := do
  let db ← withRows db .accountOwners ((db.rows .accountOwners).filter fun row => !ownedBy id row)
  let db ← withRows db .userAllowedStores
    ((db.rows .userAllowedStores).filter fun row => !ownedBy id row)
  let db ← withRows db .userAllowedRepositories
    ((db.rows .userAllowedRepositories).filter fun row => !ownedBy id row)
  withRows db .users ((db.rows .users).filter fun row => !decide (row "id" = id))

/-- One turn of the loop, on the disk and on what the session sees; a refused DELETE ends it. -/
def retire (host : Host) (stuck : Path → Bool) (s : Files × Option ConfigDb) (row : Row) :
    Files × Option ConfigDb :=
  match s.2 with
  | none => s
  | some db =>
      let user : User := { username := username row, storeId := text (row "store_id") }
      ((removeDovecotHome (homesDb db) s.1 host.cwd (text (row "id")) user stuck).1,
        deleteUser db (row "id"))

/-- The homes go one by one; the rows go with the commit, or not at all. -/
def cleanupTempImapUsers (host : Host) (now : IsoFormat.DateTime) (stuck : Path → Bool)
    (d : Files) : Files × ConfigDb :=
  let result := ((db.rows .users).filter (expired host now)).foldl (retire host stuck) (d, some db)
  (result.1, result.2.getD db)

/-- The folded names of the temporary users. -/
def liveHomes : List String :=
  ((db.rows .users).filter isTempUser).map fun row => sanitizePathComponent (username row)

def hasTempPrefix (name : String) : Bool := createUserRefuses name

/-- The entries of one `.dovecot-home` that the sweep removes, as `scandir` spells them. -/
def orphanedRestoreHomes (cwd : Path) (live : List String) (d : Files) (storePath : String) :
    List String :=
  let root := rstripSlash storePath ++ "/" ++ dovecotHomeDirname
  match find d cwd root with
  | none => []
  | some dir =>
      if d.isDir dir = false then []
      else (d.children dir).filterMap fun entry =>
        if entry.2 ≠ .dir ∨ hasTempPrefix entry.1.1 = false ∨ entry.1.1 ∈ live then none
        else some (join root entry.1.1)

/-- One store after another. -/
def sweepOrphanedRestoreHomes (host : Host) (stuck : Path → Bool) (d : Files) : Files :=
  ((db.rows .mailStores).map fun row => text (row "path")).foldl (fun d storePath =>
    (orphanedRestoreHomes host.cwd (liveHomes db) d storePath).foldl
      (fun d path => rmtree d host.cwd path stuck) d) d

/-! ## Histories -/

/-- The tables, the disk, and the ids of the users that `create_temp_imap_user` has made. -/
structure UsersState where
  db : ConfigDb
  files : Files
  minted : List String := []

inductive UserEvent where
  | create (new : NewRow) (username passwordHash : String) (role : UserRole) (storeId : String)
  | update (id : String) (fields : List (String × PyValue))
  | oidc (newStore newUser : NewRow) (sub rawUsername : String) (role : UserRole) (adminGroup : Bool)
  | importExport (nonces : TableName → Config.Record → String → ℕ) (data : Export)
  | createTemp (new : NewRow) (hex passwordHash : String) (accountIds : List String)
  | cleanup (now : IsoFormat.DateTime) (stuck : Path → Bool)
  | sweep (stuck : Path → Bool)
  /-- Whatever else is done to the disk. -/
  | disk (files : Files)

def UsersState.next (host : Host) (s : UsersState) : UserEvent → Option UsersState
  | .create new username passwordHash role storeId =>
      (createUser s.db new username passwordHash role storeId).map fun db => { s with db := db }
  | .update id fields => (updateUser s.db id fields).map fun db => { s with db := db }
  | .oidc newStore newUser sub rawUsername role adminGroup =>
      let db := oidcLogin s.db host.bootstrapStorePath newStore newUser sub rawUsername role adminGroup
      some { s with db := db }
  | .importExport nonces data =>
      (importExport host.x host.secretKey nonces s.db data).map fun st => { s with db := st.db }
  | .createTemp new hex passwordHash accountIds =>
      (createTempImapUser s.db new hex passwordHash accountIds).map fun db =>
        { s with db := db, minted := new.id :: s.minted }
  | .cleanup now stuck =>
      let result := cleanupTempImapUsers s.db host now stuck s.files
      some { s with db := result.2, files := result.1 }
  | .sweep stuck => some { s with files := sweepOrphanedRestoreHomes s.db host stuck s.files }
  | .disk files => some { s with files := files }

end MailFallback.TempUsers
