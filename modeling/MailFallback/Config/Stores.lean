import MailFallback.Config.Flags
import MailFallback.Library.PosixPath
import MailFallback.Library.Transition

/-! # The stores and their default

The part of `store_service` that writes stores, on the tables that the import writes to. A call
works on what its session sees; it may commit, and an exception rolls the session back. -/

namespace MailFallback.Config

open Relational Storage Posix Transition

def isDefault (row : Row) : Bool := decide (row "is_default" = .bool true)

def defaultStores (db : ConfigDb) : List Row := (db.rows .mailStores).filter isDefault

/-- What a session sees after a call, and whether the call has committed; `none` for an
exception. -/
abbrev Called := Option (ConfigDb × Bool)

variable (db : ConfigDb)

def getDefaultStore : Option Row := (db.rows .mailStores).find? isDefault

def hasId (id : String) (row : Row) : Bool := decide (row "id" = .str id)

def getStore (id : String) : Option Row := (db.rows .mailStores).find? (hasId id)

def withStores (rows : List Row) : Option ConfigDb :=
  db.replace? exportTables mem_exportTables .mailStores rows

/-- UPDATE of the stores that meet the condition. -/
def updateStores (p : Row → Bool) (f : Row → Row) : Option ConfigDb :=
  withStores db ((db.rows .mailStores).map fun row => if p row = true then f row else row)

def setFlag (flag : Bool) (row : Row) : Row := Function.update row "is_default" (.bool flag)

/-- The flags are cleared before the store is looked up. -/
def setDefaultStore (id : String) : Called := do
  let cleared ← updateStores db isDefault (setFlag false)
  match getStore cleared id with
  | none => pure (cleared, false)
  | some _ =>
      let flagged ← updateStores cleared (hasId id) (setFlag true)
      pure (flagged, true)

/-- What a new row draws. -/
structure NewRow where
  id : String
  createdAt : IsoFormat.DateTime

/-- `MailStore(...)` with the defaults of its columns. -/
def mailStore (new : NewRow) (name path : String) (isDefault : Bool) : Row :=
  rowOf [("id", .str new.id), ("name", .str name), ("path", .str path), ("enabled", .bool true),
    ("is_default", .bool isDefault), ("created_at", .datetime new.createdAt)]

def addStore (row : Row) : Called :=
  match db.insert? .mailStores row with
  | .ok db => some (db, true)
  | .error _ => none

def storeAt (path : String) : Option Row :=
  (db.rows .mailStores).find? fun row => decide (row "path" = .str path)

/-- The store at the bootstrap path is adopted, in its canonical spelling first. -/
def ensureDefaultStore (bootstrapStorePath : String) (new : NewRow) : Called :=
  match getDefaultStore db with
  | some _ => some (db, false)
  | none =>
      let path := rstripSlash bootstrapStorePath
      match (storeAt db path).or (storeAt db (path ++ "/")) with
      | some store => do
          let adopted ← updateStores db (fun row => decide (row "id" = store "id")) (setFlag true)
          pure (adopted, true)
      | none => addStore db (mailStore new "default" path true)

/-- The directory may fail to be made. -/
def createStore (name path : String) (new : NewRow) : Called :=
  addStore db (mailStore new name (rstripSlash path) false)

def updatableStoreFields : List String := ["name", "path", "enabled", "is_default"]

/-- The loop over the keyword arguments. -/
def assign (fields : List (String × PyValue)) (row : Row) : Row :=
  fields.foldl (fun row field =>
    if field.1 ∈ updatableStoreFields then Function.update row field.1 field.2 else row) row

def updateStore (id : String) (fields : List (String × PyValue)) : Called :=
  match getStore db id with
  | none => some (db, false)
  | some _ => do
      let updated ← updateStores db (hasId id) (assign fields)
      pure (updated, true)

/-- `get_store_contents` finds accounts or users. -/
def occupied (id : String) : Bool :=
  (db.rows .accounts).any (fun row => decide (row "store_id" = .str id)) ||
    (db.rows .users).any fun row => decide (row "store_id" = .str id)

/-- The migrations refer to their stores as well. -/
def deleteStore (migrations : Table Id StoreMigration) (id : String) : Called :=
  match getStore db id with
  | none => some (db, false)
  | some _ =>
      if occupied db id = true then some (db, false)
      else if (migrations.rows.any fun row =>
          decide (row.2.sourceStoreId = id) || decide (row.2.targetStoreId = id)) = true then none
      else do
        let left ← withStores db ((db.rows .mailStores).filter fun row => !hasId id row)
        pure (left, true)

/-! ## Sessions one after another -/

/-- What is committed, and what the current session sees. -/
structure StoreState where
  db : LocalDb
  view : ConfigDb

inductive StoreEvent where
  | ensure (new : NewRow)
  | create (name path : String) (new : NewRow)
  | setDefault (id : String)
  | update (id : String) (fields : List (String × PyValue))
  | delete (id : String)
  | importExport (nonces : TableName → Record → String → ℕ) (data : Export)
  /-- A later commit on the same session. -/
  | commit
  /-- The session ends, and another one begins. -/
  | close

namespace StoreState

variable (s : StoreState)

def committed (view : ConfigDb) : StoreState := ⟨{ s.db with config := view }, view⟩

def closed : StoreState := ⟨s.db, s.db.config⟩

def after : Called → StoreState
  | none => s.closed
  | some (view, true) => s.committed view
  | some (view, false) => ⟨s.db, view⟩

/-- The cipher and its key, and the path of the bootstrap store. -/
structure Host where
  x : Externals
  secretKey : String
  bootstrapStorePath : String

def next (host : Host) (s : StoreState) : StoreEvent → Option StoreState
  | .ensure new => some (s.after (ensureDefaultStore s.view host.bootstrapStorePath new))
  | .create name path new => some (s.after (createStore s.view name path new))
  | .setDefault id => some (s.after (setDefaultStore s.view id))
  | .update id fields => some (s.after (updateStore s.view id fields))
  | .delete id => some (s.after (deleteStore s.view s.db.storeMigrations id))
  | .importExport nonces data =>
      some (s.after ((importExport host.x host.secretKey nonces s.view data).map
        fun st => (st.db, true)))
  | .commit => some (s.committed s.view)
  | .close => some s.closed

end StoreState

end MailFallback.Config
