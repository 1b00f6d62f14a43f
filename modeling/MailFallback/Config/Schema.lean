import MailFallback.Library.Relational
import MailFallback.Library.IsoFormat

/-! # The configuration tables

The tables of an export with their columns, as the models declare them, and the lists that the
export and the import go by. -/

namespace MailFallback.Config

open Relational

inductive TableName where
  | mailStores | users | userAllowedStores | backupDestinations | userAllowedRepositories
  | accounts | accountOwners | groups | groupMembers | accountGroups | accountBackups
  | repositoryAttachments
  deriving DecidableEq, Repr

def TableName.name : TableName → String
  | .mailStores => "mail_stores"
  | .users => "users"
  | .userAllowedStores => "user_allowed_stores"
  | .backupDestinations => "backup_destinations"
  | .userAllowedRepositories => "user_allowed_repositories"
  | .accounts => "accounts"
  | .accountOwners => "account_owners"
  | .groups => "groups"
  | .groupMembers => "group_members"
  | .accountGroups => "account_groups"
  | .accountBackups => "account_backups"
  | .repositoryAttachments => "repository_attachments"

/-! ## Values -/

/-- The values of an exported record. A nested value is kept as its document. -/
inductive JsonValue where
  | null
  | bool (b : Bool)
  | int (n : ℤ)
  | str (s : String)
  | document (text : String)
  deriving DecidableEq, Repr

/-- The values of a row, as the program reads and writes them. -/
inductive PyValue where
  | none
  | bool (b : Bool)
  | int (n : ℤ)
  | str (s : String)
  | json (text : String)
  | enum (name value : String)
  | datetime (t : IsoFormat.DateTime)
  | date (d : IsoFormat.Date)
  deriving DecidableEq, Repr

abbrev Row := String → PyValue

def PyValue.ofJson : JsonValue → PyValue
  | .null => .none
  | .bool b => .bool b
  | .int n => .int n
  | .str s => .str s
  | .document text => .json text

/-- The truth value of `if value:`. -/
def PyValue.truthy : PyValue → Bool
  | .none => false
  | .bool b => b
  | .int n => decide (n ≠ 0)
  | .str s => decide (s ≠ "")
  | .json text => decide (text ∉ ["null", "false", "0", "\"\"", "[]", "\x7b\x7d"])
  | .enum _ value => decide (value ≠ "")
  | .datetime _ => true
  | .date _ => true

/-- An enumeration is given by the names and the values of its members. -/
inductive ColumnType where
  | string | integer | boolean | dateTime | date | json
  | enum (members : List (String × String))
  deriving DecidableEq, Repr

/-- Whether a column of this type can hold the value; NULL is left to `nullable`. -/
def ColumnType.holds : ColumnType → PyValue → Bool
  | _, .none => true
  | .string, .str _ => true
  | .integer, .int _ => true
  | .boolean, .bool _ => true
  | .dateTime, .datetime _ => true
  | .date, .date _ => true
  | .json, .json _ => true
  | .enum members, .enum name value => decide ((name, value) ∈ members)
  | _, _ => false

/-! ## Columns -/

structure Column where
  name : String
  type : ColumnType := .string
  nullable : Bool := true
  primaryKey : Bool := false
  unique : Bool := false
  foreignKey : Option TableName := none
  deriving DecidableEq, Repr

/-- `Column(name, String, primary_key=True)` -/
def keyColumn (name : String) (foreignKey : Option TableName := none) : Column where
  name := name
  nullable := false
  primaryKey := true
  foreignKey := foreignKey

/-- `Column(name, type, nullable=False)` -/
def required (name : String) (type : ColumnType := .string) : Column where
  name := name
  type := type
  nullable := false

/-- `Column(name, type, nullable=True)` -/
def optional (name : String) (type : ColumnType := .string) : Column where
  name := name
  type := type

/-- `Column(name, String, ForeignKey(...), nullable=False)` -/
def referring (name : String) (table : TableName) : Column where
  name := name
  nullable := false
  foreignKey := some table

def userRole : ColumnType := .enum [("admin", "admin"), ("user", "user")]

def authType : ColumnType := .enum [("oauth2", "oauth2"), ("app_password", "app_password")]

def syncState : ColumnType :=
  .enum [("idle", "idle"), ("syncing", "syncing"), ("error", "error"),
    ("needs_reauth", "needs_reauth")]

def backendType : ColumnType := .enum [("s3", "s3"), ("local", "local")]

def retentionPreset : ColumnType :=
  .enum [("light", "light"), ("standard", "standard"), ("full", "full"), ("custom", "custom")]

def backupStatus : ColumnType :=
  .enum [("idle", "idle"), ("running", "running"), ("completed", "completed"), ("failed", "failed")]

def accountColumns : List Column :=
  [keyColumn "id", required "name", required "email_address", required "provider",
    required "imap_host", required "imap_port" .integer, required "auth_type" authType,
    optional "credentials", optional "imap_user", required "tls_type",
    { name := "maildir_path", nullable := false, unique := true },
    optional "sync_schedule", optional "extra_config", required "sync_state" syncState,
    optional "last_sync_at" .dateTime, optional "last_error", required "total_messages" .integer,
    required "unread_messages" .integer, required "maildir_size_bytes" .integer,
    optional "folder_stats", optional "traffic_date" .date,
    required "bytes_synced_today" .integer, optional "daily_sync_budget_mb" .integer,
    optional "sync_paused_until" .dateTime, optional "pause_reason",
    optional "initial_sync_completed_at" .dateTime,
    optional "initial_sync_total_messages" .integer,
    optional "initial_sync_total_folders" .integer, optional "last_notified_state",
    referring "store_id" .mailStores, required "enabled" .boolean, required "suspended" .boolean,
    required "migrating" .boolean, optional "created_at" .dateTime]

def backupDestinationColumns : List Column :=
  [keyColumn "id", required "name", required "backend_type" backendType, optional "s3_endpoint",
    optional "s3_bucket", optional "s3_access_key", optional "s3_secret_key", optional "local_path",
    required "restic_password", required "insecure_tls" .boolean,
    required "config_backup_enabled" .boolean, optional "config_backup_passphrase",
    optional "last_config_backup_at" .dateTime, optional "last_config_backup_status",
    optional "last_config_backup_error", optional "created_at" .dateTime]

def accountBackupColumns : List Column :=
  [keyColumn "id", referring "account_id" .accounts, referring "destination_id" .backupDestinations,
    required "enabled" .boolean, required "schedule", required "retention_preset" retentionPreset,
    optional "keep_daily" .integer, optional "keep_weekly" .integer,
    optional "keep_monthly" .integer, optional "last_backup_at" .dateTime,
    optional "last_run_at" .dateTime, optional "last_successful_run_at" .dateTime,
    required "last_snapshot_count" .integer, optional "last_snapshot_at" .dateTime,
    required "last_status" backupStatus, optional "last_error", optional "created_at" .dateTime]

def columns : TableName → List Column
  | .mailStores =>
      [keyColumn "id", required "name", { name := "path", nullable := false, unique := true },
        required "enabled" .boolean, required "is_default" .boolean, optional "created_at" .dateTime]
  | .users =>
      [keyColumn "id", { name := "username", nullable := false, unique := true },
        optional "password_hash", required "role" userRole,
        { name := "oidc_subject", unique := true }, required "enabled" .boolean,
        optional "created_at" .dateTime, referring "store_id" .mailStores,
        required "migrating" .boolean, required "preferences" .json]
  | .userAllowedStores => [keyColumn "user_id" TableName.users, keyColumn "store_id" TableName.mailStores]
  | .backupDestinations => backupDestinationColumns
  | .userAllowedRepositories =>
      [keyColumn "user_id" TableName.users, keyColumn "repository_id" TableName.backupDestinations]
  | .accounts => accountColumns
  | .accountOwners =>
      [keyColumn "account_id" TableName.accounts, keyColumn "user_id" TableName.users]
  | .groups =>
      [keyColumn "id", { name := "name", nullable := false, unique := true },
        referring "owner_id" .users, required "sso_sync" .boolean, optional "created_at" .dateTime]
  | .groupMembers => [keyColumn "group_id" TableName.groups, keyColumn "user_id" TableName.users]
  | .accountGroups =>
      [keyColumn "account_id" TableName.accounts, keyColumn "group_id" TableName.groups]
  | .accountBackups => accountBackupColumns
  | .repositoryAttachments =>
      [keyColumn "id", referring "repository_id" .backupDestinations,
        referring "account_id" .accounts, required "prefix", optional "restic_password",
        optional "created_at" .dateTime]

/-- `UniqueConstraint` of a whole table. -/
def uniqueConstraints : TableName → List (List String)
  | .repositoryAttachments => [["repository_id", "prefix"]]
  | _ => []

def columnNames (name : TableName) : List String := (columns name).map Column.name

def columnType (name : TableName) (col : String) : Option ColumnType :=
  ((columns name).find? fun c => c.name = col).map Column.type

/-- `pk_cols` -/
def pkCols (name : TableName) : List String :=
  ((columns name).filter Column.primaryKey).map Column.name

/-- `fk_cols` -/
def fkCols (name : TableName) : List String :=
  ((columns name).filter fun c => c.foreignKey.isSome).map Column.name

def admits (name : TableName) (row : Row) : Bool :=
  (columns name).all fun c =>
    c.type.holds (row c.name) && (c.nullable || decide (row c.name ≠ .none))

/-- Every foreign key refers to the `id` of its table. -/
def references (name : TableName) : List (Reference TableName String) :=
  (columns name).filterMap fun c => c.foreignKey.map fun table => ⟨c.name, table, "id"⟩

def schema : Schema TableName String PyValue where
  null := .none
  key := pkCols
  unique name :=
    ((columns name).filter Column.unique).map (fun c => [c.name]) ++ uniqueConstraints name
  admits := admits
  references := references

abbrev ConfigDb := Database schema

/-! ## What the export and the import go by -/

/-- `_EXPORT_TABLES` -/
def exportTables : List TableName :=
  [.mailStores, .users, .userAllowedStores, .backupDestinations, .userAllowedRepositories,
    .accounts, .accountOwners, .groups, .groupMembers, .accountGroups, .accountBackups,
    .repositoryAttachments]

/-- `_SECRET_COLUMNS` -/
def secretColumns : TableName → List String
  | .accounts => ["credentials"]
  | .backupDestinations =>
      ["s3_endpoint", "s3_bucket", "s3_access_key", "s3_secret_key", "local_path",
        "restic_password", "config_backup_passphrase"]
  | _ => []

/-- `_NATURAL_KEYS` -/
def naturalKey : TableName → Option String
  | .users => some "username"
  | .mailStores => some "path"
  | .accounts => some "maildir_path"
  | _ => none

/-! ## Facts about the lists -/

theorem mem_exportTables (name : TableName) : name ∈ exportTables := by
  cases name <;> decide

theorem nodup_exportTables : exportTables.Nodup := by decide

theorem nodup_columnNames (name : TableName) : (columnNames name).Nodup := by
  cases name <;> decide

/-- The insert order respects the foreign keys. -/
theorem references_pairwise : exportTables.Pairwise fun name later =>
    ∀ ref ∈ references name, ref.table ≠ name ∧ ref.table ≠ later := by decide

def requiredColumns (name : TableName) : List String :=
  ((columns name).filter fun c => !c.nullable).map Column.name

theorem admits_required {name : TableName} {row : Row} {col : String}
    (hrow : schema.admits name row = true) (hcol : col ∈ requiredColumns name) :
    row col ≠ .none := by
  obtain ⟨c, hc, rfl⟩ := List.mem_map.mp hcol
  obtain ⟨hmem, hnullable⟩ := List.mem_filter.mp hc
  have hadmits : admits name row = true := hrow
  have hcolumn := List.all_eq_true.mp hadmits c hmem
  simp only [Bool.not_eq_true'] at hnullable
  simpa [hnullable] using (Bool.and_eq_true_iff.mp hcolumn).2

theorem target_eq (name : TableName) : ∀ ref ∈ references name, ref.target = "id" := by
  cases name <;> decide

theorem reference_column (name : TableName) : ∀ ref ∈ references name,
    ref.column ∈ fkCols name ∧ ref.column ∈ columnNames name ∧ ref.column ∈ requiredColumns name := by
  cases name <;> decide

theorem pkCols_required (name : TableName) : ∀ col ∈ pkCols name, col ∈ requiredColumns name := by
  cases name <;> decide

/-- The tables that others refer to, or that have a natural key, have an id of their own. -/
theorem reference_table (name : TableName) : ∀ ref ∈ references name, pkCols ref.table = ["id"] := by
  cases name <;> decide

theorem naturalKey_table (name : TableName) : ∀ col ∈ naturalKey name,
    pkCols name = ["id"] ∧ col ∉ fkCols name ∧ [col] ∈ schema.unique name ∧
      col ∈ requiredColumns name := by
  cases name <;> decide

theorem id_not_fk (name : TableName) : "id" ∉ fkCols name := by
  cases name <;> decide

end MailFallback.Config
