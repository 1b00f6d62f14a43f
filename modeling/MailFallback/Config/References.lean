import MailFallback.Config.Run
import Mathlib.Data.List.Induction

/-! # References after an import

The remap of an import always leads from a row of the export to the local row that stands for
it, so that no inserted row refers to anything else. -/

namespace MailFallback.Config

open Relational

variable {x : Externals} {K₁ K₂ : String} {nonces : TableName → Record → String → ℕ}
  {src loc db : ConfigDb} {st : ImportState} {remap : PyValue → Option PyValue}
  {name t : TableName} {row r l : Row} {col : String} {P R : List (TableName × Row)}
  {p : TableName × Row}

/-- No two tables share an id. -/
def GloballyUnique (db : ConfigDb) : Prop :=
  ∀ t ∈ exportTables, ∀ t' ∈ exportTables, pkCols t = ["id"] → pkCols t' = ["id"] →
    ∀ r ∈ db.rows t, ∀ r' ∈ db.rows t', r "id" = r' "id" → t = t'

instance (db : ConfigDb) : Decidable (GloballyUnique db) :=
  inferInstanceAs (Decidable (∀ t ∈ exportTables, _))

/-- The id is that of the local row for an exported row: the row with the same id or, where
there is none, the row of the old database with the same natural key. -/
def Represents (loc db : ConfigDb) (t : TableName) (exported : Row) (id : PyValue) : Prop :=
  (∃ l ∈ db.rows t, l "id" = id) ∧
    (id = exported "id" ∨
      (∀ l ∈ db.rows t, l "id" ≠ exported "id") ∧
        ∃ col, naturalKey t = some col ∧ ∃ l ∈ loc.rows t, l "id" = id ∧ l col = exported col)

/-- What an import of an export of `src` makes of the database `loc`: the old rows stay, and the
references of the new ones lead to the representatives of what they led to before. -/
def ReferencesKept (src loc db : ConfigDb) : Prop :=
  ∃ log : List Added,
    (log.map fun e => (e.table, e.exported)).Sublist (worklist src) ∧
    (∀ t, db.rows t = loc.rows t ++ addedTo log t) ∧
    ∀ e ∈ log,
      (∀ col ∈ columnNames e.table, col ∉ fkCols e.table → col ∉ secretColumns e.table →
        e.row col = e.exported col) ∧
      ∀ ref ∈ references e.table, ∃ q ∈ src.rows ref.table, q "id" = e.exported ref.column ∧
        Represents loc db ref.table q (e.row ref.column)

/-! ## Keys -/

theorem same_singleton : schema.same [col] r l = true ↔ r col = l col ∧ r col ≠ .none := by
  rw [Schema.same_iff]
  simp [schema]

theorem carried_id (hid : pkCols name = ["id"]) :
    carried x K₁ K₂ nonces remap name row "id" = row "id" := by
  obtain ⟨hmem, hsecret, -⟩ := pkCols_plain name "id" (by simp [hid])
  exact carried_plain hmem (id_not_fk name) hsecret

theorem carried_naturalKey (hkey : naturalKey name = some col) :
    carried x K₁ K₂ nonces remap name row col = row col := by
  obtain ⟨hmem, hsecret, -⟩ := naturalKey_plain name col hkey
  exact carried_plain hmem (naturalKey_table name col hkey).2.1 hsecret

theorem id_ne_none (hid : pkCols name = ["id"]) (hrow : row ∈ src.rows name) : row "id" ≠ .none :=
  admits_required (src.admitted name row hrow) (pkCols_required name "id" (by simp [hid]))

/-- Two rows of the worklist that are in one table have two ids. -/
theorem Precedes.id_ne {q : TableName × Row} (h : Precedes q p) (htable : q.1 = p.1)
    (hid : pkCols q.1 = ["id"]) (hq : q.2 ∈ src.rows q.1) : q.2 "id" ≠ p.2 "id" := by
  intro heq
  have hne := h.2 htable (pkCols q.1) List.mem_cons_self
  rw [hid] at hne
  rw [same_singleton.mpr ⟨heq, id_ne_none hid hq⟩] at hne
  cases hne

theorem Precedes.naturalKey_ne {q : TableName × Row} (h : Precedes q p) (htable : q.1 = p.1)
    (hkey : naturalKey q.1 = some col) (hq : q.2 ∈ src.rows q.1) : q.2 col ≠ p.2 col := by
  intro heq
  obtain ⟨-, -, hunique, hrequired⟩ := naturalKey_table q.1 col hkey
  have hne := h.2 htable [col] (List.mem_cons_of_mem _ hunique)
  rw [same_singleton.mpr ⟨heq, admits_required (src.admitted q.1 q.2 hq) hrequired⟩] at hne
  cases hne

theorem id_ne_of_absent (hid : pkCols name = ["id"]) (hnull : r "id" ≠ .none)
    (h : db.first? name (pkCols name) r = none) (hl : l ∈ db.rows name) : l "id" ≠ r "id" := by
  intro heq
  have hne := Database.first?_none h hl
  rw [hid, same_singleton.mpr ⟨heq.symm, hnull⟩] at hne
  cases hne

/-! ## The remap -/

/-- An entry of the remap is about a row of the export that has been skipped in favour of a row
of the old database. -/
structure Remapped (loc db : ConfigDb) (P : List (TableName × Row)) (old new : PyValue) : Prop where
  entry : ∃ t q col, (t, q) ∈ P ∧ naturalKey t = some col ∧ q "id" = old ∧
    (∀ l ∈ db.rows t, l "id" ≠ old) ∧ ∃ l ∈ loc.rows t, l "id" = new ∧ l col = q col

theorem run_append (P R : List (TableName × Row)) (st : ImportState) :
    run x K₁ K₂ nonces (P ++ R) st = run x K₁ K₂ nonces R (run x K₁ K₂ nonces P st) :=
  List.foldl_append

theorem run_append_singleton (P : List (TableName × Row)) (p : TableName × Row) (st : ImportState) :
    run x K₁ K₂ nonces (P ++ [p]) st = importStep x K₁ K₂ nonces (run x K₁ K₂ nonces P st) p := by
  rw [run_append]
  rfl

/-- A row found under the natural key of the next row is a row of the old database. -/
theorem matched_old (h : worklist src = P ++ p :: R) (hkey : naturalKey p.1 = some col)
    (hl : l ∈ (run x K₁ K₂ nonces P (startImport loc)).db.rows p.1) (heq : l col = p.2 col) :
    l ∈ loc.rows p.1 := by
  rcases mem_run hl with hold | ⟨row, remap, hrow, rfl⟩
  · exact hold
  · rw [carried_naturalKey hkey] at heq
    have hne := (precedes_of_mem_before h hrow).naturalKey_ne rfl hkey (mem_rows_of_mem_before h hrow)
    exact absurd heq hne

theorem remap_sound (h : worklist src = P ++ R) {old new : PyValue}
    (hremap : (run x K₁ K₂ nonces P (startImport loc)).remap old = some new) :
    Remapped loc (run x K₁ K₂ nonces P (startImport loc)).db P old new := by
  induction P using List.reverseRecOn generalizing R with
  | nil => cases hremap
  | append_singleton P p ih =>
      rw [List.append_assoc, List.singleton_append] at h
      have ih := ih h
      have hold : ∀ {l}, l ∈ (run x K₁ K₂ nonces P (startImport loc)).db.rows p.1 →
          ∀ {col}, naturalKey p.1 = some col → l col = p.2 col → l ∈ loc.rows p.1 :=
        fun hl _ hkey heq => matched_old h hkey hl heq
      rw [run_append_singleton] at hremap ⊢
      generalize run x K₁ K₂ nonces P (startImport loc) = st at hremap ih hold ⊢
      have hcases := settles x st.db p.1 (carried x K₁ K₂ nonces st.remap p.1 p.2)
      unfold importStep importRow at hremap ⊢
      generalize settleRow x st.db p.1 _ = outcome at hcases hremap ⊢
      have hkeep : st.remap old = some new → Remapped loc st.db (P ++ [p]) old new := by
        intro hst
        obtain ⟨t, q, col, hq, hrest⟩ := ih hst
        exact ⟨t, q, col, List.mem_append_left _ hq, hrest⟩
      cases hcases with
      | present _ _ => exact hkeep hremap
      | failed _ _ _ => exact hkeep hremap
      | @matched col e habsent hkey he =>
          obtain ⟨hid, -⟩ := naturalKey_table p.1 col hkey
          rw [carried_id hid] at hremap ⊢
          change Function.update st.remap (p.2 "id") (some (e "id")) old = some new at hremap
          by_cases heq : old = p.2 "id"
          · subst heq
            rw [Function.update_self] at hremap
            obtain ⟨he, hcol⟩ := Database.first?_some he
            have hvalue := (hcol col List.mem_cons_self).1
            rw [carried_naturalKey hkey] at hvalue
            refine ⟨p.1, p.2, col, by simp, hkey, rfl, fun l hl => ?_, e, ?_, ?_, hvalue.symm⟩
            · have hne := id_ne_of_absent hid ?_ habsent hl
              · rwa [carried_id hid] at hne
              · rw [carried_id hid]
                exact id_ne_none hid (mem_rows_of_split h)
            · exact hold he hkey hvalue.symm
            · exact Option.some.inj hremap
          · rw [Function.update_of_ne heq] at hremap
            exact hkeep hremap
      | @inserted db' _ _ hinsert =>
          obtain ⟨t, q, col, hq, hkey, rfl, habsent, hmatch⟩ := ih hremap
          refine ⟨t, q, col, List.mem_append_left _ hq, hkey, rfl, fun l hl => ?_, hmatch⟩
          change l ∈ db'.rows t at hl
          rw [(Database.insert?_eq_ok.mp hinsert).2] at hl
          rcases Database.mem_rowsWith.mp hl with hl | ⟨rfl, rfl⟩
          · exact habsent l hl
          · -- a later row of the same table
            obtain ⟨hid, -⟩ := naturalKey_table p.1 col hkey
            rw [carried_id hid]
            exact ((precedes_of_mem_before h hq).id_ne rfl hid (mem_rows_of_mem_before h hq)).symm

/-! ## The references of one row -/

/-- The references of a row that is inserted in its turn lead to representatives. -/
theorem represents_of_inserted (hids : GloballyUnique src) (h : worklist src = P ++ p :: R)
    (hinsert : (run x K₁ K₂ nonces P (startImport loc)).db.insert? p.1
      (carried x K₁ K₂ nonces (run x K₁ K₂ nonces P (startImport loc)).remap p.1 p.2) = .ok db)
    {ref : Reference TableName String} (href : ref ∈ references p.1) :
    ∃ q ∈ src.rows ref.table, q "id" = p.2 ref.column ∧
      Represents loc (run x K₁ K₂ nonces P (startImport loc)).db ref.table q
        (carried x K₁ K₂ nonces (run x K₁ K₂ nonces P (startImport loc)).remap p.1 p.2
          ref.column) := by
  obtain ⟨q, hq, hbefore, hid⟩ := referenced_before h href
  obtain ⟨hfk, hmem, hrequired⟩ := reference_column p.1 ref href
  obtain ⟨hadmits, -, hrefs⟩ :=
    Database.violation?_eq_none.mp (Database.insert?_eq_ok.mp hinsert).1
  have hthere : ∃ l ∈ (run x K₁ K₂ nonces P (startImport loc)).db.rows ref.table,
      l "id" = carried x K₁ K₂ nonces (run x K₁ K₂ nonces P (startImport loc)).remap p.1 p.2
        ref.column := by
    rcases Schema.refersTo_iff.mp (hrefs ref href) with hnull | ⟨l, hl, heq⟩
    · exact absurd hnull (admits_required hadmits hrequired)
    · rw [target_eq p.1 ref href] at heq
      rcases Database.mem_rowsWith.mp hl with hl | ⟨htable, -⟩
      · exact ⟨l, hl, heq⟩
      · exact absurd htable (references_self p.1 ref href)
  refine ⟨q, hq, hid, hthere, ?_⟩
  rw [carried_fk hmem hfk, ← hid]
  cases hremap : (run x K₁ K₂ nonces P (startImport loc)).remap (q "id") with
  | none => exact .inl rfl
  | some new =>
      obtain ⟨t, q', col, hq', hkey, hq'id, habsent, e, he, heid, hecol⟩ := remap_sound h hremap
      obtain ⟨hpk, -⟩ := naturalKey_table t col hkey
      have hq'src := mem_rows_of_mem_before h hq'
      obtain rfl : t = ref.table := hids t (mem_exportTables t) _ (mem_exportTables _) hpk
        (reference_table p.1 ref href) q' hq'src q hq hq'id
      have hsame : schema.same (pkCols ref.table) q' q = true := by
        rw [hpk]
        exact same_singleton.mpr ⟨hq'id, id_ne_none hpk hq'src⟩
      obtain rfl := Database.eq_of_same hq'src hq List.mem_cons_self hsame
      exact .inr ⟨habsent, col, hkey, e, he, heid, hecol⟩

/-- Import keeps references right. -/
theorem importExport_keeps_references {data : Export} (hexport : buildExport x K₁ src = some data)
    (hids : GloballyUnique src) (himport : importExport x K₂ nonces loc data = some st) :
    ReferencesKept src loc st.db := by
  rw [importExport_exported hexport, importAll_eq_run] at himport
  obtain rfl := Option.some.inj himport
  obtain ⟨log, hsub, hrows, hlog⟩ := run_log x K₁ K₂ nonces (worklist src)
    (startImport loc)
  refine ⟨log, hsub, hrows, fun e he => ?_⟩
  obtain ⟨P, R, hsplit, hrow, db, hinsert⟩ := hlog e he
  refine ⟨fun col hcol hfk hsecret => by rw [hrow, carried_plain hcol hfk hsecret],
    fun ref href => ?_⟩
  rw [hrow] at hinsert ⊢
  obtain ⟨q, hq, hid, hrepresents⟩ := represents_of_inserted hids hsplit hinsert href
  refine ⟨q, hq, hid, ?_⟩
  -- the table referred to is complete by now
  have hcomplete : ∀ row, (ref.table, row) ∉ (e.table, e.exported) :: R := by
    intro row hmem
    rcases List.mem_cons.mp hmem with heq | hafter
    · exact references_self e.table ref href (congrArg Prod.fst heq)
    · exact ((precedes_of_mem_after hsplit hafter).1 ref href).2 rfl
  have hsame := run_rows_of_not_mem x K₁ K₂ nonces (run x K₁ K₂ nonces P (startImport loc)) hcomplete
  rw [← run_append, ← hsplit] at hsame
  unfold Represents at hrepresents ⊢
  rw [hsame]
  exact hrepresents

/-! ## A fresh install -/

/-- A cipher that puts the key in front. -/
def sampleExternals : Externals where
  fernetEncrypt key _ plaintext := String.ofList (key.toList ++ '|' :: plaintext.toList)
  fernetDecrypt key token :=
    if (key.toList ++ ['|']).isPrefixOf token.toList then
      some (String.ofList (token.toList.drop (key.toList.length + 1)))
    else none
  deriveFernetKey secretKey := secretKey
  deriveFernetKeyLegacy secretKey := secretKey
  deriveKey passphrase _ := passphrase
  dumps _ := ""
  loads _ := none
  dumpsEnvelope _ := ""
  loadsEnvelope _ := none
  driverError _ := ⟨"IntegrityError", none⟩

def rowOf (fields : List (String × PyValue)) : Row := fun col => (fields.lookup col).getD .none

def fill (rows : List (TableName × Row)) : ConfigDb :=
  rows.foldl (fun db p => match db.insert? p.1 p.2 with | .ok db' => db' | .error _ => db) .empty

def sampleStore (id : String) : Row :=
  rowOf [("id", .str id), ("name", .str "default"), ("path", .str "/data"), ("enabled", .bool true),
    ("is_default", .bool true)]

def sampleUser (id storeId : String) : Row :=
  rowOf [("id", .str id), ("username", .str "alice"), ("role", .enum "admin" "admin"),
    ("enabled", .bool true), ("store_id", .str storeId), ("migrating", .bool false),
    ("preferences", .json "\x7b\x7d")]

def sampleAccount (syncState : String) (migrating : Bool) : Row :=
  rowOf [("id", .str "a1"), ("name", .str "work"), ("email_address", .str "a@b.c"),
    ("provider", .str "other"), ("imap_host", .str "imap.b.c"), ("imap_port", .int 993),
    ("auth_type", .enum "app_password" "app_password"), ("credentials", .str "old|pw"),
    ("tls_type", .str "IMAPS"), ("maildir_path", .str "/data/a1"),
    ("sync_state", .enum syncState syncState), ("total_messages", .int 0),
    ("unread_messages", .int 0), ("maildir_size_bytes", .int 0), ("bytes_synced_today", .int 0),
    ("store_id", .str "s1"), ("enabled", .bool true), ("suspended", .bool false),
    ("migrating", .bool migrating)]

/-- An installation with one account and its owner. -/
def sampleDb (syncState : String) (migrating : Bool) : ConfigDb :=
  fill [(.mailStores, sampleStore "s1"), (.users, sampleUser "u1" "s1"),
    (.accounts, sampleAccount syncState migrating),
    (.accountOwners, rowOf [("account_id", .str "a1"), ("user_id", .str "u1")])]

/-- A fresh installation, with its own ids for the default store and the administrator. -/
def freshDb : ConfigDb := fill [(.mailStores, sampleStore "s9"), (.users, sampleUser "u9" "s9")]

theorem freshDb_keeps_references : ∃ data st,
    buildExport sampleExternals "old" (sampleDb "idle" false) = some data ∧
      importExport sampleExternals "new" (fun _ _ _ => 0) freshDb data = some st ∧
      ReferencesKept (sampleDb "idle" false) freshDb st.db := by
  have hexport : (buildExport sampleExternals "old" (sampleDb "idle" false)).isSome = true := by
    decide
  obtain ⟨data, hdata⟩ := Option.isSome_iff_exists.mp hexport
  have himport : importExport sampleExternals "new" (fun _ _ _ => 0) freshDb data = some
      (importAll sampleExternals "old" "new" (fun _ _ _ => 0) (sampleDb "idle" false) freshDb) :=
    importExport_exported hdata freshDb
  exact ⟨data, _, hdata, himport, importExport_keeps_references hdata (by decide) himport⟩

end MailFallback.Config
