import MailFallback.Config.References
import Mathlib.Tactic.DeriveEncodable
import Mathlib.Logic.Equiv.List

/-! # Secrets after an export and an import

The whole way from one installation to an empty one with another key. -/

namespace MailFallback.Config

open Relational

variable {x : Externals} {K₁ K₂ passphrase : String} {salt : List UInt8} {nonce : ℕ}
  {nonces : TableName → Record → String → ℕ} {src : ConfigDb} {name t : TableName}
  {row : Row} {col : String} {P R : List (TableName × Row)} {p : TableName × Row}

/-- The columns that hold Fernet tokens, by the comments of the models. -/
def encryptedColumns : TableName → List String
  | .accounts => ["credentials"]
  | .backupDestinations =>
      ["s3_endpoint", "s3_bucket", "s3_access_key", "s3_secret_key", "local_path",
        "restic_password", "config_backup_passphrase"]
  | .repositoryAttachments => ["restic_password"]
  | _ => []

/-- Export, encryption, decryption with the same passphrase, and import into an empty database;
`none` when one of them raises. -/
def transfer (x : Externals) (K₁ K₂ passphrase : String) (salt : List UInt8) (nonce : ℕ)
    (nonces : TableName → Record → String → ℕ) (src : ConfigDb) : Option ImportState := do
  let data ← buildExport x K₁ src
  let blob ← encryptExport x salt nonce data passphrase
  match decryptExport x blob passphrase with
  | .error _ => none
  | .ok data => importExport x K₂ nonces .empty data

/-- What the old key decrypted, the new key decrypts; NULL stays NULL. -/
def SecretKept (x : Externals) (K₁ K₂ : String) (v v' : PyValue) : Prop :=
  (v = .none → v' = .none) ∧
    ∀ token, v = .str token → ∀ plaintext, decryptCredentials x token K₁ = some plaintext →
      ∃ token', v' = .str token' ∧ decryptCredentials x token' K₂ = some plaintext

def RowKept (x : Externals) (K₁ K₂ : String) (name : TableName) (row row' : Row) : Prop :=
  ∀ col ∈ columnNames name,
    if col ∈ encryptedColumns name then SecretKept x K₁ K₂ (row col) (row' col)
    else row' col = row col

def PreservesSecrets (x : Externals) (K₁ K₂ passphrase : String) (salt : List UInt8) (nonce : ℕ)
    (nonces : TableName → Record → String → ℕ) (src : ConfigDb) : Prop :=
  ∃ st, transfer x K₁ K₂ passphrase salt nonce nonces src = some st ∧
    ∀ name, List.Forall₂ (RowKept x K₁ K₂ name) (src.rows name) (st.db.rows name)

/-- The secrets that the service knows of are tokens of something, and those of the attachments
mean the same to both keys. -/
def Portable (x : Externals) (K₁ K₂ : String) (src : ConfigDb) : Prop :=
  (∀ name, ∀ row ∈ src.rows name, ∀ col ∈ secretColumns name, ∀ token, row col = .str token →
    token ≠ "" → ∃ plaintext, decryptCredentials x token K₁ = some plaintext ∧ plaintext ≠ "") ∧
  ∀ row ∈ src.rows .repositoryAttachments, ∀ token, row "restic_password" = .str token →
    ∀ plaintext, decryptCredentials x token K₁ = some plaintext →
      decryptCredentials x token K₂ = some plaintext

/-! ## The envelope -/

theorem decryptExport_encryptExport (hx : x.Correct) {data : Export} {blob : String}
    (h : encryptExport x salt nonce data passphrase = some blob) :
    decryptExport x blob passphrase = .ok data := by
  obtain ⟨-, hblob⟩ := Option.ite_none_left_eq_some.mp h
  obtain rfl := Option.some.inj hblob
  have hsalt : ∀ v w u t : JsonValue, List.lookup "salt" [("mfb_config_backup", v), ("kdf", w),
      ("salt", u), ("ciphertext", t)] = some u := fun _ _ _ _ => rfl
  have htoken : ∀ v w u t : JsonValue, List.lookup "ciphertext" [("mfb_config_backup", v),
      ("kdf", w), ("salt", u), ("ciphertext", t)] = some t := fun _ _ _ _ => rfl
  have hkdf : ∀ v w u t : JsonValue, List.lookup "kdf" [("mfb_config_backup", v),
      ("kdf", w), ("salt", u), ("ciphertext", t)] = some w := fun _ _ _ _ => rfl
  rw [decryptExport, hx.loadsEnvelope_dumpsEnvelope]
  dsimp only
  rw [hsalt, htoken, hkdf]
  dsimp only
  rw [Base64.decode_encode]
  dsimp only
  rw [if_neg (not_not_intro rfl), hx.decrypt_encrypt]
  dsimp only
  rw [hx.loads_dumps]

theorem decryptCredentials_encryptCredentials (hx : x.Correct) (plaintext K : String) :
    decryptCredentials x (encryptCredentials x nonce plaintext K) K = some plaintext := by
  rw [decryptCredentials, encryptCredentials, hx.decrypt_encrypt]

theorem decryptCredentials_empty (hx : x.Correct) (K : String) :
    decryptCredentials x "" K = none := by
  rw [decryptCredentials, hx.decrypt_empty, hx.decrypt_empty]

/-! ## Into an empty database -/

theorem worklist_filter (src : ConfigDb) (t : TableName) :
    ((worklist src).filter fun p => decide (p.1 = t)).map Prod.snd = src.rows t := by
  have hself : ∀ name, ((src.rows name).map fun row => (name, row)).filter
      (fun p => decide (p.1 = t)) = if name = t then (src.rows t).map fun row => (t, row) else [] := by
    intro name
    rw [List.filter_map]
    by_cases hname : name = t
    · subst hname
      simp [Function.comp_def]
    · simp [Function.comp_def, hname]
  rw [worklist, List.filter_flatMap]
  simp only [hself]
  cases t <;> simp [exportTables]

/-- An import into an empty database puts in every row, with its secrets under the other key. -/
theorem import_empty (x : Externals) (K₁ K₂ : String) (nonces : TableName → Record → String → ℕ)
    (h : worklist src = P ++ R) :
    (run x K₁ K₂ nonces P (startImport .empty)).remap = (fun _ => none) ∧
      ∀ t, (run x K₁ K₂ nonces P (startImport .empty)).db.rows t =
        (P.filter fun p => decide (p.1 = t)).map fun p =>
          carried x K₁ K₂ nonces (fun _ => none) t p.2 := by
  induction P using List.reverseRecOn generalizing R with
  | nil => exact ⟨rfl, fun t => rfl⟩
  | append_singleton P p ih =>
      rw [List.append_assoc, List.singleton_append] at h
      obtain ⟨hremap, hrows⟩ := ih h
      rw [run_append_singleton]
      generalize run x K₁ K₂ nonces P (startImport .empty) = st at hremap hrows ⊢
      have halike := alike_carried x K₁ K₂ nonces p.1 p.2
      have hfine : st.db.violation? p.1 (carried x K₁ K₂ nonces (fun _ => none) p.1 p.2) = none := by
        refine Database.violation?_eq_none.mpr ⟨halike.admitted (src.admitted p.1 p.2
          (mem_rows_of_split h)), fun cols hcols l hl => ?_, fun ref href => ?_⟩
        · rw [hrows] at hl
          obtain ⟨⟨t, q⟩, hq, rfl⟩ := List.mem_map.mp hl
          obtain ⟨hqP, htable⟩ := List.mem_filter.mp hq
          obtain rfl : t = p.1 := by simpa using htable
          have hplain := keys_plain p.1 cols hcols
          rw [← halike.same_eq hplain]
          refine Schema.not_same_comm ?_
          rw [← (alike_carried x K₁ K₂ nonces p.1 q).same_eq hplain]
          exact (precedes_of_mem_before h hqP).2 rfl cols hcols
        · obtain ⟨q, -, hqP, hid⟩ := referenced_before h href
          obtain ⟨hfk, hmem, -⟩ := reference_column p.1 ref href
          refine Schema.refersTo_iff.mpr (.inr
            ⟨carried x K₁ K₂ nonces (fun _ => none) ref.table q, ?_, ?_⟩)
          · refine Database.mem_rowsWith.mpr (.inl ?_)
            rw [hrows]
            exact List.mem_map.mpr ⟨(ref.table, q), List.mem_filter.mpr ⟨hqP, by simp⟩, rfl⟩
          · rw [target_eq p.1 ref href, carried_id (reference_table p.1 ref href), hid,
              carried_fk hmem hfk]
            rfl
      obtain ⟨db', hinsert, hsettle⟩ := settleRow_fine (x := x) hfine
      rw [importStep, importRow, hremap, hsettle]
      refine ⟨hremap, fun t => ?_⟩
      change db'.rows t = _
      rw [(Database.insert?_eq_ok.mp hinsert).2, Database.rowsWith, List.filter_append,
        List.map_append]
      by_cases ht : t = p.1
      · subst ht
        rw [Function.update_self, hrows]
        simp
      · rw [Function.update_of_ne ht, hrows]
        simp [Ne.symm ht]

/-! ## What becomes of the secrets -/

/-- `List.mapM` succeeds where every element does. -/
theorem mapM_isSome {α β : Type} {f : α → Option β} {l : List α}
    (h : ∀ a ∈ l, (f a).isSome = true) : (l.mapM f).isSome = true := by
  induction l with
  | nil => rfl
  | cons a l ih =>
      obtain ⟨b, hb⟩ := Option.isSome_iff_exists.mp (h a List.mem_cons_self)
      obtain ⟨tail, htail⟩ := Option.isSome_iff_exists.mp
        (ih fun a ha => h a (List.mem_cons_of_mem _ ha))
      rw [List.mapM_cons, hb, htail]
      rfl

theorem mem_of_mapM {α β : Type} {f : α → Option β} {l : List α} {l' : List β}
    (h : l.mapM f = some l') {a : α} (ha : a ∈ l) : (f a).isSome = true := by
  induction l generalizing l' with
  | nil => cases ha
  | cons a' l ih =>
      rw [List.mapM_cons] at h
      obtain ⟨b, hb, hrest⟩ := Option.bind_eq_some_iff.mp h
      obtain ⟨tail, htail, -⟩ := Option.bind_eq_some_iff.mp hrest
      rcases List.mem_cons.mp ha with rfl | ha
      · rw [hb]
        rfl
      · exact ih htail ha

theorem exportRecord_isSome (h : ∀ col ∈ secretColumns name, ∀ token, row col = .str token →
    token ≠ "" → (decryptCredentials x token K₁).isSome = true)
    (hrow : schema.admits name row = true) : (exportRecord x K₁ name row).isSome = true := by
  refine mapM_isSome fun col hcol => ?_
  rw [Option.isSome_map, exportValue]
  split
  · rename_i hsecret
    have hholds := holds_string hrow hcol (secret_type name col hsecret).1
    have hdecrypts := h col hsecret
    generalize row col = v at hholds hdecrypts
    cases v with
    | none => rfl
    | str token =>
        by_cases hempty : token = ""
        · subst hempty
          rfl
        · rw [jsonable, decryptSecret_str hempty, Option.isSome_map]
          exact hdecrypts token rfl hempty
    | _ => cases hholds
  · rfl

/-- An export fails exactly where a secret cannot be decrypted. -/
theorem buildExport_isSome_iff (x : Externals) (K₁ : String) (src : ConfigDb) :
    (buildExport x K₁ src).isSome = true ↔ ∀ name, ∀ row ∈ src.rows name, ∀ col ∈ secretColumns name, ∀ token, row col = .str token →
      token ≠ "" → (decryptCredentials x token K₁).isSome = true := by
  constructor
  · intro h name row hrow col hcol token htoken hempty
    obtain ⟨data, hdata⟩ := Option.isSome_iff_exists.mp h
    obtain ⟨tables, htables, -⟩ := Option.map_eq_some_iff.mp hdata
    have htable := mem_of_mapM htables (mem_exportTables name)
    rw [Option.isSome_map] at htable
    obtain ⟨records, hrecords⟩ := Option.isSome_iff_exists.mp htable
    obtain ⟨record, hrecord⟩ := Option.isSome_iff_exists.mp (mem_of_mapM hrecords hrow)
    have hmem : col ∈ columnNames name := by
      by_contra hnot
      have htype := (secret_type name col hcol).1
      rw [columnType_eq_none hnot] at htype
      cases htype
    have hvalue := (exportRecord_spec hrecord).2.1 col hmem
    rw [exportValue, if_pos hcol, htoken, jsonable, decryptSecret_str hempty,
      Option.isSome_map] at hvalue
    exact hvalue
  · intro h
    rw [buildExport, Option.isSome_map]
    refine mapM_isSome fun name _ => ?_
    rw [Option.isSome_map]
    exact mapM_isSome fun row hrow =>
      exportRecord_isSome (h name row hrow) (src.admitted name row hrow)

/-- The transfer comes to the import of the rows themselves. -/
theorem transfer_exported (hx : x.Correct) (hpass : passphrase ≠ "") {data : Export}
    (h : buildExport x K₁ src = some data) :
    transfer x K₁ K₂ passphrase salt nonce nonces src =
      some (importAll x K₁ K₂ nonces src .empty) := by
  have hblob : ∃ blob, encryptExport x salt nonce data passphrase = some blob := by
    rw [encryptExport, if_neg hpass]
    exact ⟨_, rfl⟩
  obtain ⟨blob, hblob⟩ := hblob
  rw [transfer, h, Option.bind_eq_bind, Option.bind_some, hblob, Option.bind_eq_bind,
    Option.bind_some, decryptExport_encryptExport hx hblob]
  exact importExport_exported h .empty

/-- A secret that the service knows of is kept unless it is the empty text. -/
theorem secretKept_rekey_iff (hx : x.Correct) (v : PyValue) :
    SecretKept x K₁ K₂ v (rekey x K₁ K₂ nonce v) ↔ ∀ token, v = .str token →
      ∀ plaintext, decryptCredentials x token K₁ = some plaintext → plaintext ≠ "" := by
  cases v with
  | str token =>
      by_cases hempty : token = ""
      · subst hempty
        simp [SecretKept, decryptCredentials_empty hx]
      · cases hplain : decryptCredentials x token K₁ with
        | none => simp [SecretKept, hplain]
        | some plaintext =>
            have hrekey : rekey x K₁ K₂ nonce (.str token) =
                encryptSecret x K₂ nonce (.str plaintext) := by
              simp only [rekey, if_neg hempty, hplain]
            rw [hrekey]
            by_cases hp : plaintext = ""
            · subst hp
              simp [SecretKept, hplain, encryptSecret, PyValue.truthy,
                decryptCredentials_empty hx]
            · simp [SecretKept, hplain, encryptSecret, PyValue.truthy, hp,
                decryptCredentials_encryptCredentials hx]
  | _ => simp [SecretKept, rekey]

theorem secret_encrypted (name : TableName) : ∀ col ∈ secretColumns name,
    col ∈ columnNames name ∧ col ∈ encryptedColumns name := by
  cases name <;> decide

/-- The one encrypted column that is not listed. -/
theorem encrypted_cases (name : TableName) : ∀ col ∈ encryptedColumns name,
    col ∈ secretColumns name ∨ name = .repositoryAttachments ∧ col = "restic_password" := by
  cases name <;> decide

theorem restic_password_plain : "restic_password" ∈ columnNames .repositoryAttachments ∧
    "restic_password" ∈ encryptedColumns .repositoryAttachments ∧
    "restic_password" ∉ fkCols .repositoryAttachments ∧
    "restic_password" ∉ secretColumns .repositoryAttachments := by decide

theorem rowKept_carried_iff (hx : x.Correct) :
    RowKept x K₁ K₂ name row (carried x K₁ K₂ nonces (fun _ => none) name row) ↔
      (∀ col ∈ secretColumns name, ∀ token, row col = .str token →
        ∀ plaintext, decryptCredentials x token K₁ = some plaintext → plaintext ≠ "") ∧
      (name = .repositoryAttachments → ∀ token, row "restic_password" = .str token →
        ∀ plaintext, decryptCredentials x token K₁ = some plaintext →
          decryptCredentials x token K₂ = some plaintext) := by
  have hsecret : ∀ col ∈ secretColumns name,
      carried x K₁ K₂ nonces (fun _ => none) name row col = rekey x K₁ K₂
        (nonces name ((exportRecord x K₁ name row).getD []) col) (row col) := by
    intro col hcol
    rw [carried, if_pos (secret_encrypted name col hcol).1, if_neg (secret_type name col hcol).2,
      if_pos hcol]
  constructor
  · intro h
    refine ⟨fun col hcol => ?_, ?_⟩
    · obtain ⟨hmem, hencrypted⟩ := secret_encrypted name col hcol
      have hkept := h col hmem
      rw [if_pos hencrypted, hsecret col hcol] at hkept
      exact (secretKept_rekey_iff hx _).mp hkept
    · rintro rfl token htoken plaintext hplain
      obtain ⟨hmem, hencrypted, hfk, hnot⟩ := restic_password_plain
      have hkept := h "restic_password" hmem
      rw [if_pos hencrypted, carried_plain hmem hfk hnot] at hkept
      obtain ⟨token', htoken', hplain'⟩ := hkept.2 token htoken plaintext hplain
      obtain rfl : token = token' := PyValue.str.inj (htoken.symm.trans htoken')
      exact hplain'
  · rintro ⟨hlisted, hattachment⟩ col hmem
    by_cases hencrypted : col ∈ encryptedColumns name
    · rw [if_pos hencrypted]
      rcases encrypted_cases name col hencrypted with hcol | ⟨rfl, rfl⟩
      · rw [hsecret col hcol]
        exact (secretKept_rekey_iff hx _).mpr (hlisted col hcol)
      · obtain ⟨-, -, hfk, hnot⟩ := restic_password_plain
        rw [carried_plain hmem hfk hnot]
        exact ⟨id, fun token htoken plaintext hplain =>
          ⟨token, htoken, hattachment rfl token htoken plaintext hplain⟩⟩
    · rw [if_neg hencrypted]
      have hcol : col ∉ secretColumns name := fun hcol => hencrypted (secret_encrypted name col hcol).2
      rw [carried, if_pos hmem, if_neg hcol]
      split <;> rfl

theorem importAll_empty_rows (name : TableName) :
    (importAll x K₁ K₂ nonces src .empty).db.rows name =
      (src.rows name).map (carried x K₁ K₂ nonces (fun _ => none) name) := by
  have hrows := (import_empty x K₁ K₂ nonces (List.append_nil (worklist src)).symm).2 name
  rw [importAll_eq_run, hrows, ← worklist_filter src name, List.map_map]
  rfl

theorem preservesSecrets_exported (hx : x.Correct) (hpass : passphrase ≠ "") {data : Export}
    (h : buildExport x K₁ src = some data) :
    PreservesSecrets x K₁ K₂ passphrase salt nonce nonces src ↔
      ∀ name, ∀ row ∈ src.rows name,
        RowKept x K₁ K₂ name row (carried x K₁ K₂ nonces (fun _ => none) name row) := by
  rw [PreservesSecrets, transfer_exported hx hpass h]
  simp only [Option.some.injEq, exists_eq_left', importAll_empty_rows,
    List.forall₂_map_right_iff, List.forall₂_same]

/-- The way to another installation preserves every secret if and only if the listed secrets can
be read and are not empty, and the passwords of the attachments mean the same to both keys. -/
theorem preservesSecrets_iff (hx : x.Correct) (hpass : passphrase ≠ "") :
    PreservesSecrets x K₁ K₂ passphrase salt nonce nonces src ↔ Portable x K₁ K₂ src := by
  have hreadable := buildExport_isSome_iff x K₁ src
  cases hexport : buildExport x K₁ src with
  | none =>
      rw [hexport] at hreadable
      constructor
      · rintro ⟨st, hst, -⟩
        rw [transfer, hexport] at hst
        cases hst
      · rintro ⟨hlisted, -⟩
        have hall := hreadable.mpr fun name row hrow col hcol token htoken hempty => by
          obtain ⟨plaintext, hplain, -⟩ := hlisted name row hrow col hcol token htoken hempty
          rw [hplain]
          rfl
        cases hall
  | some data =>
      rw [hexport] at hreadable
      have hread := hreadable.mp rfl
      rw [preservesSecrets_exported hx hpass hexport]
      simp only [rowKept_carried_iff hx]
      constructor
      · intro h
        refine ⟨fun name row hrow col hcol token htoken hempty => ?_, fun row hrow => ?_⟩
        · have hsome := hread name row hrow col hcol token htoken hempty
          obtain ⟨plaintext, hplain⟩ := Option.isSome_iff_exists.mp hsome
          exact ⟨plaintext, hplain, (h name row hrow).1 col hcol token htoken plaintext hplain⟩
        · exact (h .repositoryAttachments row hrow).2 rfl
      · rintro ⟨hlisted, hattachment⟩ name row hrow
        refine ⟨fun col hcol token htoken plaintext hplain => ?_, ?_⟩
        · by_cases hempty : token = ""
          · rw [hempty, decryptCredentials_empty hx] at hplain
            cases hplain
          · obtain ⟨plaintext', hplain', hne⟩ :=
              hlisted name row hrow col hcol token htoken hempty
            rw [hplain] at hplain'
            obtain rfl := Option.some.inj hplain'
            exact hne
        · rintro rfl
          exact hattachment row hrow

/-! ## An attachment with a password of its own -/

instance encodableChar : Encodable Char := Encodable.ofLeftInverse Char.toNat Char.ofNat Char.ofNat_toNat

instance encodableString : Encodable String :=
  Encodable.ofLeftInverse String.toList String.ofList fun s => by simp

deriving instance Encodable for JsonValue, TableName

deriving instance Encodable for Export

/-- The cipher of the sample, and texts that count. -/
def sealingExternals : Externals :=
  { sampleExternals with
    dumps data := String.ofList (List.replicate (Encodable.encode data) '1')
    loads text := Encodable.decode text.toList.length
    dumpsEnvelope envelope := String.ofList (List.replicate (Encodable.encode envelope) '1')
    loadsEnvelope text := Encodable.decode text.toList.length }

theorem sealingExternals_correct : sealingExternals.Correct where
  decrypt_encrypt key nonce plaintext := by
    simp [sealingExternals, sampleExternals]
  decrypt_empty key := by
    simp [sealingExternals, sampleExternals]
  loads_dumps data := by
    simp [sealingExternals]
  loadsEnvelope_dumpsEnvelope envelope := by
    simp [sealingExternals]

/-- A repository whose attachment is under another restic password. -/
def attachedDb : ConfigDb :=
  fill [(.mailStores, sampleStore "s1"), (.accounts, sampleAccount "idle" false),
    (.backupDestinations, rowOf [("id", .str "d1"), ("name", .str "offsite"),
      ("backend_type", .enum "local" "local"), ("local_path", .str "old|/mnt"),
      ("restic_password", .str "old|rp"), ("insecure_tls", .bool false),
      ("config_backup_enabled", .bool false)]),
    (.repositoryAttachments, rowOf [("id", .str "r1"), ("repository_id", .str "d1"),
      ("account_id", .str "a1"), ("prefix", .str "old-prefix"),
      ("restic_password", .str "old|pw")])]

/-- Where no attachment has a password of its own, everything arrives. -/
theorem preservesSecrets_of_sample : PreservesSecrets sealingExternals "old" "new" "correct horse"
    [7] 0 (fun _ _ _ => 0) (sampleDb "idle" false) := by
  refine (preservesSecrets_iff sealingExternals_correct (by decide)).mpr ⟨?_, ?_⟩
  · intro name row hrow col hcol token htoken _
    cases name with
    | accounts =>
        obtain rfl := List.mem_singleton.mp hrow
        obtain rfl := List.mem_singleton.mp hcol
        obtain rfl : "old|pw" = token := PyValue.str.inj htoken
        exact ⟨"pw", by decide, by decide⟩
    | backupDestinations => cases hrow
    | _ => cases hcol
  · intro row hrow
    cases hrow

/-- The password of the attachment arrives as a token of the old key. -/
theorem not_preservesSecrets_of_attachment :
    ¬ ∀ (x : Externals) (K₁ K₂ passphrase : String) (salt : List UInt8) (nonce : ℕ)
        (nonces : TableName → Record → String → ℕ) (src : ConfigDb), x.Correct → passphrase ≠ "" →
      PreservesSecrets x K₁ K₂ passphrase salt nonce nonces src := by
  intro h
  have hkept := h sealingExternals "old" "new" "correct horse" [7] 0 (fun _ _ _ => 0) attachedDb
    sealingExternals_correct (by decide)
  have hexport : (buildExport sealingExternals "old" attachedDb).isSome = true := by decide
  obtain ⟨data, hdata⟩ := Option.isSome_iff_exists.mp hexport
  rw [preservesSecrets_exported sealingExternals_correct (by decide) hdata] at hkept
  obtain ⟨row, hrow, htoken⟩ : ∃ row ∈ attachedDb.rows .repositoryAttachments,
      row "restic_password" = .str "old|pw" := ⟨_, List.mem_singleton.mpr rfl, rfl⟩
  have hrow := (rowKept_carried_iff sealingExternals_correct).mp
    (hkept .repositoryAttachments row hrow)
  have hplain := hrow.2 rfl "old|pw" htoken "pw" (by decide)
  revert hplain
  decide

end MailFallback.Config
