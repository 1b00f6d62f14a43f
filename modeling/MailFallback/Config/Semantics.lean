import MailFallback.Config.Schema
import MailFallback.Library.Base64

/-! # Export and import of the configuration

`config_backup_service` and the part of `security` it uses. Fernet, the key derivations, JSON
and the texts of the database driver are parameters. -/

namespace MailFallback.Config

open Relational

/-- A record as JSON gives it, with its keys in order. -/
abbrev Record := List (String × JsonValue)

/-- What `build_export` returns. -/
structure Export where
  schemaVersion : ℤ
  tables : List (TableName × List Record)
  deriving DecidableEq

/-- The type of an exception, and the text of the driver's error under it. -/
structure PyError where
  typeName : String
  orig : Option String := none

/-- The code that the service calls. A nonce stands for what one encryption draws. -/
structure Externals where
  fernetEncrypt : (key : String) → (nonce : ℕ) → (plaintext : String) → String
  fernetDecrypt : (key token : String) → Option String
  deriveFernetKey : (secretKey : String) → String
  deriveFernetKeyLegacy : (secretKey : String) → String
  deriveKey : (passphrase : String) → (salt : List UInt8) → String
  dumps : Export → String
  loads : String → Option Export
  dumpsEnvelope : Record → String
  loadsEnvelope : String → Option Record
  driverError : Violation String → PyError

/-- Fernet decrypts what it encrypted and no empty token; JSON is read as it was written. -/
structure Externals.Correct (x : Externals) : Prop where
  decrypt_encrypt : ∀ key nonce plaintext,
    x.fernetDecrypt key (x.fernetEncrypt key nonce plaintext) = some plaintext
  decrypt_empty : ∀ key, x.fernetDecrypt key "" = none
  loads_dumps : ∀ data, x.loads (x.dumps data) = some data
  loadsEnvelope_dumpsEnvelope : ∀ envelope,
    x.loadsEnvelope (x.dumpsEnvelope envelope) = some envelope

variable (x : Externals)

/-! ## Secrets -/

def encryptCredentials (nonce : ℕ) (plaintext secretKey : String) : String :=
  x.fernetEncrypt (x.deriveFernetKey secretKey) nonce plaintext

/-- Tries the legacy key as well; `none` when it raises. -/
def decryptCredentials (encrypted secretKey : String) : Option String :=
  match x.fernetDecrypt (x.deriveFernetKey secretKey) encrypted with
  | some plaintext => some plaintext
  | none => x.fernetDecrypt (x.deriveFernetKeyLegacy secretKey) encrypted

/-! ## Export -/

/-- `_jsonable` -/
def jsonable : PyValue → JsonValue
  | .none => .null
  | .bool b => .bool b
  | .int n => .int n
  | .str s => .str s
  | .json text => .document text
  | .enum _ value => .str value
  | .datetime t => .str t.isoformat
  | .date d => .str d.isoformat

/-- `decrypt_credentials(record[col], ...)` under its `if`. -/
def decryptSecret (secretKey : String) (value : JsonValue) : Option JsonValue :=
  if (PyValue.ofJson value).truthy = true then
    match value with
    | .str encrypted => (decryptCredentials x encrypted secretKey).map .str
    | _ => none
  else some value

def exportValue (secretKey : String) (name : TableName) (row : Row) (col : String) :
    Option JsonValue :=
  if col ∈ secretColumns name then decryptSecret x secretKey (jsonable (row col))
  else some (jsonable (row col))

def exportRecord (secretKey : String) (name : TableName) (row : Row) : Option Record :=
  (columnNames name).mapM fun col => (exportValue x secretKey name row col).map fun v => (col, v)

/-- `build_export`; `none` when a secret cannot be decrypted. -/
def buildExport (secretKey : String) (db : ConfigDb) : Option Export :=
  (exportTables.mapM fun name =>
    ((db.rows name).mapM (exportRecord x secretKey name)).map fun records => (name, records)).map
      fun tables => ⟨1, tables⟩

/-- `encrypt_export`; `none` for an empty passphrase. -/
def encryptExport (salt : List UInt8) (nonce : ℕ) (data : Export) (passphrase : String) :
    Option String :=
  if passphrase = "" then none
  else
    let token := x.fernetEncrypt (x.deriveKey passphrase salt) nonce (x.dumps data)
    some (x.dumpsEnvelope [("mfb_config_backup", .int 1), ("kdf", .str "scrypt"),
      ("salt", .str (Base64.encode salt)), ("ciphertext", .str token)])

inductive ConfigDecryptError where
  | notABackup
  | unsupportedKdf (kdf : Option JsonValue)
  | wrongPassphrase
  /-- The `json.loads` of the plaintext raises its own error. -/
  | notJson
  deriving DecidableEq, Repr

/-- `decrypt_export` -/
def decryptExport (blob passphrase : String) : Except ConfigDecryptError Export :=
  match x.loadsEnvelope blob with
  | none => .error .notABackup
  | some envelope =>
      match envelope.lookup "salt", envelope.lookup "ciphertext" with
      | some (.str salt), some (.str token) =>
          match Base64.decode salt with
          | none => .error .notABackup
          | some salt =>
              if envelope.lookup "kdf" ≠ some (.str "scrypt") then
                .error (.unsupportedKdf (envelope.lookup "kdf"))
              else
                match x.fernetDecrypt (x.deriveKey passphrase salt) token with
                | none => .error .wrongPassphrase
                | some plaintext =>
                    match x.loads plaintext with
                    | none => .error .notJson
                    | some data => .ok data
      | _, _ => .error .notABackup

/-! ## Import -/

/-- A record as a Python dictionary. -/
abbrev Dict := String → Option PyValue

def dictOf (record : Record) : Dict := fun col => (record.lookup col).map PyValue.ofJson

/-- `_coerce_types` on one value. -/
def coerceType : Option ColumnType → PyValue → PyValue
  | some .dateTime, .str s => (IsoFormat.DateTime.fromisoformat s).elim (.str s) .datetime
  | some .date, .str s => (IsoFormat.Date.fromisoformat s).elim (.str s) .date
  | _, v => v

def coerceTypes (name : TableName) (record : Dict) : Dict := fun col =>
  (record col).map (coerceType (columnType name col))

/-- The columns of the foreign keys, rewritten through the remap. -/
def rewriteRefs (remap : PyValue → Option PyValue) (name : TableName) (record : Dict) : Dict :=
  fun col =>
    if col ∈ fkCols name then (record col).map fun v => (remap v).getD v else record col

/-- `encrypt_credentials` takes strings only. -/
def encryptable (v : Option PyValue) : Bool :=
  v.all fun v => !v.truthy || v matches .str _

def encryptSecret (secretKey : String) (nonce : ℕ) (v : PyValue) : PyValue :=
  if v.truthy = true then
    match v with
    | .str plaintext => .str (encryptCredentials x nonce plaintext secretKey)
    | v => v
  else v

def encryptSecrets (secretKey : String) (nonces : String → ℕ) (name : TableName) (values : Dict) :
    Option Dict :=
  if (secretColumns name).all (fun col => encryptable (values col)) = true then
    some fun col =>
      if col ∈ secretColumns name then (values col).map (encryptSecret x secretKey (nonces col))
      else values col
  else none

/-- What a column makes of a bound value: an enumeration is looked up by its names. -/
def bindValue : Option ColumnType → PyValue → PyValue
  | some (.enum members), .str s =>
      (members.find? fun m => m.1 = s).elim (.str s) fun m => .enum m.1 m.2
  | some _, v => v
  | none, _ => .none

def toRow (name : TableName) (values : Dict) : Row := fun col =>
  bindValue (columnType name col) ((values col).getD .none)

/-- `_safe_error`: no parameters of the statement. -/
def safeError (e : PyError) : String :=
  match e.orig with
  | none => e.typeName
  | some orig =>
      e.typeName ++ " (" ++ String.ofList ((orig.toList.takeWhile (· ≠ '\n')).take 120) ++ ")"

structure ImportState where
  db : ConfigDb
  /-- From an old exported id to the id of the existing local row. -/
  remap : PyValue → Option PyValue
  imported : TableName → ℕ
  skipped : TableName → ℕ
  errors : List String

/-- What becomes of one record. -/
inductive Outcome where
  | present
  | matched (old new : PyValue)
  | inserted (db : ConfigDb)
  | failed (error : PyError)

/-- The INSERT in its savepoint. -/
def insertRecord (secretKey : String) (nonces : String → ℕ) (db : ConfigDb) (name : TableName)
    (keys : List String) (record : Dict) : Outcome :=
  match encryptSecrets x secretKey nonces name (coerceTypes name record) with
  | none => .failed ⟨"AttributeError", none⟩
  | some values =>
      if keys.all (fun col => decide (col ∈ columnNames name)) = true then
        match db.insert? name (toRow name values) with
        | .ok db => .inserted db
        | .error violation => .failed (x.driverError violation)
      else .failed ⟨"CompileError", none⟩

/-- The existing row under the natural key of the record. -/
def naturalMatch (db : ConfigDb) (name : TableName) (record : Dict) : Option Row :=
  match naturalKey name with
  | none => none
  | some col => db.first? name [col] fun col => (record col).getD .none

/-- The body of the `try`, on a record whose references are rewritten. -/
def settle (secretKey : String) (nonces : String → ℕ) (db : ConfigDb) (name : TableName)
    (keys : List String) (record : Dict) : Outcome :=
  if (pkCols name).all (fun col => (record col).isSome) = true then
    match db.first? name (pkCols name) fun col => (record col).getD .none with
    | some _ => .present
    | none =>
        match naturalMatch db name record with
        | some existing =>
            .matched ((record ((pkCols name).headD "")).getD .none) (existing ((pkCols name).headD ""))
        | none => insertRecord x secretKey nonces db name keys record
  else .failed ⟨"KeyError", none⟩

/-- What the loop records of an outcome. -/
def ImportState.take (st : ImportState) (name : TableName) : Outcome → ImportState
  | .present => { st with skipped := Function.update st.skipped name (st.skipped name + 1) }
  | .matched old new =>
      { st with
        remap := Function.update st.remap old (some new)
        skipped := Function.update st.skipped name (st.skipped name + 1) }
  | .inserted db =>
      { st with db := db, imported := Function.update st.imported name (st.imported name + 1) }
  | .failed error => { st with errors := st.errors ++ [name.name ++ ": " ++ safeError error] }

/-- One turn of the inner loop. -/
def importRecord (secretKey : String) (nonces : TableName → Record → String → ℕ)
    (name : TableName) (st : ImportState) (record : Record) : ImportState :=
  st.take name (settle x secretKey (nonces name record) st.db name (record.map Prod.fst)
    (rewriteRefs st.remap name (dictOf record)))

/-- `data["tables"].get(name, [])` -/
def Export.records (data : Export) (name : TableName) : List Record :=
  (data.tables.lookup name).getD []

def importTable (secretKey : String) (nonces : TableName → Record → String → ℕ) (data : Export)
    (st : ImportState) (name : TableName) : ImportState :=
  (data.records name).foldl (importRecord x secretKey nonces name) st

def startImport (db : ConfigDb) : ImportState where
  db := db
  remap _ := none
  imported _ := 0
  skipped _ := 0
  errors := []

/-- `import_export`; `none` for another schema version. -/
def importExport (secretKey : String) (nonces : TableName → Record → String → ℕ) (db : ConfigDb)
    (data : Export) : Option ImportState :=
  if data.schemaVersion ≠ 1 then none
  else some (exportTables.foldl (importTable x secretKey nonces data) (startImport db))

end MailFallback.Config
