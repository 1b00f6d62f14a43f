import MailFallback.Config.Semantics

/-! # What becomes of an exported row

An import works on records. On the records of an export it does to every row what `importRow`
says, in terms of the row itself. -/

namespace MailFallback.Config

open Relational

variable (x : Externals) (K₁ K₂ : String) (nonces : TableName → Record → String → ℕ)

/-! ## Values -/

/-- A value of a column that the service takes for a secret, under the other key. -/
def rekey (nonce : ℕ) (value : PyValue) : PyValue :=
  match value with
  | .str encrypted =>
      if encrypted = "" then value
      else
        match decryptCredentials x encrypted K₁ with
        | some plaintext => encryptSecret x K₂ nonce (.str plaintext)
        | none => value
  | value => value

/-- The row to insert for an exported row, under the remap of the moment. -/
def carried (remap : PyValue → Option PyValue) (name : TableName) (row : Row) : Row := fun col =>
  if col ∈ columnNames name then
    if col ∈ fkCols name then (remap (row col)).getD (row col)
    else if col ∈ secretColumns name then
      rekey x K₁ K₂ (nonces name ((exportRecord x K₁ name row).getD []) col) (row col)
    else row col
  else .none

/-- `settle` on the row to insert. -/
def settleRow (db : ConfigDb) (name : TableName) (row : Row) : Outcome :=
  match db.first? name (pkCols name) row with
  | some _ => .present
  | none =>
      match (naturalKey name).bind fun col => db.first? name [col] row with
      | some existing => .matched (row ((pkCols name).headD "")) (existing ((pkCols name).headD ""))
      | none =>
          match db.insert? name row with
          | .ok db => .inserted db
          | .error violation => .failed (x.driverError violation)

def importRow (name : TableName) (st : ImportState) (row : Row) : ImportState :=
  st.take name (settleRow x st.db name (carried x K₁ K₂ nonces st.remap name row))

variable {x K₁ K₂ nonces} {name : TableName} {row : Row} {record : Record} {col : String}
  {remap : PyValue → Option PyValue}

/-! ## Facts about the columns -/

theorem fkCol_type (name : TableName) : ∀ col ∈ fkCols name, columnType name col = some .string := by
  cases name <;> decide

theorem secret_type (name : TableName) :
    ∀ col ∈ secretColumns name, columnType name col = some .string ∧ col ∉ fkCols name := by
  cases name <;> decide

theorem pkCols_plain (name : TableName) : ∀ col ∈ pkCols name,
    col ∈ columnNames name ∧ col ∉ secretColumns name ∧ columnType name col = some .string := by
  cases name <;> decide

theorem head_mem_pkCols (name : TableName) : (pkCols name).headD "" ∈ pkCols name := by
  cases name <;> decide

theorem naturalKey_plain (name : TableName) : ∀ col ∈ naturalKey name,
    col ∈ columnNames name ∧ col ∉ secretColumns name ∧ columnType name col = some .string := by
  cases name <;> decide

/-- The values of every enumeration are its names, so that an import finds them again. -/
def ColumnType.faithful : ColumnType → Bool
  | .enum members => members.all fun m => decide (m.1 = m.2)
  | _ => true

theorem columns_faithful (name : TableName) : ∀ c ∈ columns name, c.type.faithful = true := by
  cases name <;> decide

theorem column_of_mem (h : col ∈ columnNames name) : ∃ c ∈ columns name, c.name = col ∧
    columnType name col = some c.type := by
  obtain ⟨c, hc, rfl⟩ := List.mem_map.mp h
  cases hfind : (columns name).find? fun c' => c'.name = c.name with
  | none =>
      have hnone := List.find?_eq_none.mp hfind c hc
      simp at hnone
  | some c' =>
      have hname : c'.name = c.name := by simpa using List.find?_some hfind
      exact ⟨c', List.mem_of_find?_eq_some hfind, hname, by rw [columnType, hfind, Option.map_some]⟩

/-! ## The way of a value -/

/-- A value survives JSON and the types of its column. -/
theorem bindValue_jsonable {type : ColumnType} {v : PyValue} (hfaithful : type.faithful = true)
    (hv : type.holds v = true) :
    bindValue (some type) (coerceType (some type) (.ofJson (jsonable v))) = v := by
  cases v with
  | none => cases type <;> rfl
  | enum member value =>
      cases type with
      | enum members =>
          have hmem : (member, value) ∈ members := by simpa [ColumnType.holds] using hv
          have hnames : ∀ m ∈ members, m.1 = m.2 := by simpa [ColumnType.faithful] using hfaithful
          obtain rfl : member = value := hnames _ hmem
          change (members.find? fun m => m.1 = member).elim _ _ = _
          cases hfind : members.find? fun m => m.1 = member with
          | none =>
              have hnone := List.find?_eq_none.mp hfind _ hmem
              simp at hnone
          | some m =>
              have hm : m.1 = member := by simpa using List.find?_some hfind
              have hvalue := hnames m (List.mem_of_find?_eq_some hfind)
              rw [Option.elim_some, ← hvalue, hm]
      | _ => cases hv
  | datetime t =>
      cases type with
      | dateTime =>
          change bindValue _ ((IsoFormat.DateTime.fromisoformat t.isoformat).elim _ _) = _
          rw [IsoFormat.DateTime.fromisoformat_isoformat]
          rfl
      | _ => cases hv
  | date d =>
      cases type with
      | date =>
          change bindValue _ ((IsoFormat.Date.fromisoformat d.isoformat).elim _ _) = _
          rw [IsoFormat.Date.fromisoformat_isoformat]
          rfl
      | _ => cases hv
  | _ =>
      cases type with
      | enum _ => cases hv
      | _ => first | rfl | cases hv

theorem admits_column (hrow : schema.admits name row = true) (hcol : col ∈ columnNames name) :
    ∃ type, columnType name col = some type ∧ type.faithful = true ∧
      type.holds (row col) = true := by
  obtain ⟨c, hc, rfl, htype⟩ := column_of_mem hcol
  have hadmits : admits name row = true := hrow
  have hcolumn := List.all_eq_true.mp hadmits c hc
  rw [Bool.and_eq_true] at hcolumn
  exact ⟨c.type, htype, columns_faithful name c hc, hcolumn.1⟩

/-! ## The way of a record -/

/-- The pairs that a list of keys is mapped to. -/
theorem mapM_pairs {κ β : Type} [BEq κ] [LawfulBEq κ] {g : κ → Option β}
    {keys : List κ} {pairs : List (κ × β)}
    (h : keys.mapM (fun k => (g k).map fun v => (k, v)) = some pairs) :
    pairs.map Prod.fst = keys ∧ (∀ k ∈ keys, (g k).isSome = true) ∧
      ∀ k, pairs.lookup k = if k ∈ keys then g k else none := by
  induction keys generalizing pairs with
  | nil =>
      obtain rfl : [] = pairs := Option.some.inj h
      exact ⟨rfl, by simp, fun k => rfl⟩
  | cons key keys ih =>
      rw [List.mapM_cons] at h
      obtain ⟨p, hp, hrest⟩ := Option.bind_eq_some_iff.mp h
      obtain ⟨v, hv, rfl⟩ := Option.map_eq_some_iff.mp hp
      obtain ⟨tail, htail, hpairs⟩ := Option.bind_eq_some_iff.mp hrest
      obtain rfl := Option.some.inj hpairs
      obtain ⟨hkeys, hsome, hlookup⟩ := ih htail
      refine ⟨by rw [List.map_cons, hkeys], fun k hk => ?_, fun k => ?_⟩
      · rcases List.mem_cons.mp hk with rfl | hk
        · rw [hv]
          rfl
        · exact hsome k hk
      · by_cases hk : k = key
        · subst hk
          rw [List.lookup_cons_self, if_pos List.mem_cons_self, hv]
        · rw [List.lookup_cons, beq_false_of_ne hk, hlookup k]
          simp [hk]

/-- A loop over what a list is mapped to is a loop over the list. -/
theorem foldl_of_mapM {α β σ : Type} {f : α → Option β} {step : σ → β → σ} {step' : σ → α → σ}
    {l : List α} {l' : List β} (h : l.mapM f = some l')
    (hstep : ∀ a ∈ l, ∀ b, f a = some b → ∀ st, step st b = step' st a) (st : σ) :
    l'.foldl step st = l.foldl step' st := by
  induction l generalizing l' st with
  | nil =>
      obtain rfl : [] = l' := Option.some.inj h
      rfl
  | cons a l ih =>
      rw [List.mapM_cons] at h
      obtain ⟨b, hb, hrest⟩ := Option.bind_eq_some_iff.mp h
      obtain ⟨tail, htail, hl'⟩ := Option.bind_eq_some_iff.mp hrest
      obtain rfl := Option.some.inj hl'
      rw [List.foldl_cons, List.foldl_cons, hstep a List.mem_cons_self b hb]
      exact ih htail (fun a ha => hstep a (List.mem_cons_of_mem _ ha)) _

theorem exportRecord_spec (h : exportRecord x K₁ name row = some record) :
    record.map Prod.fst = columnNames name ∧
      (∀ col ∈ columnNames name, (exportValue x K₁ name row col).isSome = true) ∧
      ∀ col, dictOf record col =
        if col ∈ columnNames name then (exportValue x K₁ name row col).map .ofJson else none := by
  obtain ⟨hkeys, hsome, hlookup⟩ := mapM_pairs h
  refine ⟨hkeys, hsome, fun col => ?_⟩
  rw [dictOf, hlookup]
  split <;> rfl

theorem columnType_eq_none (h : col ∉ columnNames name) : columnType name col = none := by
  rw [columnType, Option.map_eq_none_iff, List.find?_eq_none]
  intro c hc
  simp only [decide_eq_true_eq]
  rintro rfl
  exact h (List.mem_map_of_mem hc)

/-- Strings and NULL go through JSON as they are. -/
theorem ofJson_jsonable {v : PyValue} (h : ColumnType.string.holds v = true) :
    PyValue.ofJson (jsonable v) = v := by
  cases v with
  | none => rfl
  | str s => rfl
  | _ => cases h

theorem decryptSecret_str {encrypted : String} (h : encrypted ≠ "") :
    decryptSecret x K₁ (.str encrypted) = (decryptCredentials x encrypted K₁).map .str := by
  have htruthy : (PyValue.ofJson (.str encrypted)).truthy = true := by
    simpa [PyValue.ofJson, PyValue.truthy] using h
  rw [decryptSecret, if_pos htruthy]

theorem holds_string (hrow : schema.admits name row = true) (hcol : col ∈ columnNames name) (htype : columnType name col = some .string) :
    ColumnType.string.holds (row col) = true := by
  obtain ⟨type, htype', -, hholds⟩ := admits_column hrow hcol
  rw [htype] at htype'
  obtain rfl := Option.some.inj htype'
  exact hholds

section Exported

variable (K₂ nonces remap)
variable (hrow : schema.admits name row = true) (h : exportRecord x K₁ name row = some record)
include hrow h

/-- The columns that the queries go by. -/
theorem rewriteRefs_plain (hcol : col ∈ columnNames name) (hsecret : col ∉ secretColumns name)
    (htype : columnType name col = some .string) :
    rewriteRefs remap name (dictOf record) col =
      some (carried x K₁ K₂ nonces remap name row col) := by
  obtain ⟨-, -, hdict⟩ := exportRecord_spec h
  have hvalue : dictOf record col = some (row col) := by
    rw [hdict, if_pos hcol, exportValue, if_neg hsecret, Option.map_some,
      ofJson_jsonable (holds_string hrow hcol htype)]
  rw [rewriteRefs, carried, if_pos hcol, hvalue, if_neg hsecret]
  split <;> rfl

/-- A secret on its way: decrypted, and encrypted again under the other key. -/
theorem secret_value (hcol : col ∈ secretColumns name) : ∃ v,
    coerceTypes name (rewriteRefs remap name (dictOf record)) col = some v ∧
      encryptable (some v) = true ∧
      encryptSecret x K₂ (nonces name record col) v =
        carried x K₁ K₂ nonces remap name row col := by
  obtain ⟨-, hsome, hdict⟩ := exportRecord_spec h
  obtain ⟨htype, hfk⟩ := secret_type name col hcol
  have hmem : col ∈ columnNames name := by
    by_contra hnot
    rw [columnType_eq_none hnot] at htype
    cases htype
  have hexported := hsome col hmem
  rw [exportValue, if_pos hcol] at hexported
  have hholds := holds_string hrow hmem htype
  rw [coerceTypes, rewriteRefs, if_neg hfk, hdict, if_pos hmem, exportValue, if_pos hcol, htype,
    carried, if_pos hmem, if_neg hfk, if_pos hcol, h, Option.getD_some]
  generalize row col = v at hexported hholds ⊢
  cases v with
  | none => exact ⟨.none, rfl, rfl, rfl⟩
  | str encrypted =>
      by_cases hempty : encrypted = ""
      · subst hempty
        exact ⟨.str "", rfl, rfl, rfl⟩
      · rw [jsonable, decryptSecret_str hempty] at hexported ⊢
        rw [rekey, if_neg hempty]
        cases hplain : decryptCredentials x encrypted K₁ with
        | none =>
            rw [hplain] at hexported
            cases hexported
        | some plaintext => exact ⟨.str plaintext, rfl, by simp [encryptable], rfl⟩
  | _ => cases hholds

theorem plain_value (hcol : col ∈ columnNames name) (hfk : col ∉ fkCols name)
    (hsecret : col ∉ secretColumns name) : ∃ v,
    coerceTypes name (rewriteRefs remap name (dictOf record)) col = some v ∧
      bindValue (columnType name col) v = row col := by
  obtain ⟨-, -, hdict⟩ := exportRecord_spec h
  obtain ⟨type, htype, hfaithful, hholds⟩ := admits_column hrow hcol
  refine ⟨coerceType (some type) (.ofJson (jsonable (row col))), ?_, ?_⟩
  · rw [coerceTypes, rewriteRefs, if_neg hfk, hdict, if_pos hcol, exportValue, if_neg hsecret,
      htype]
    rfl
  · rw [htype]
    exact bindValue_jsonable hfaithful hholds

/-- The row that the INSERT of an exported record is given. -/
theorem toRow_exported : ∃ values,
    encryptSecrets x K₂ (nonces name record) name
        (coerceTypes name (rewriteRefs remap name (dictOf record))) = some values ∧
      toRow name values = carried x K₁ K₂ nonces remap name row := by
  refine ⟨_, if_pos ?_, ?_⟩
  · rw [List.all_eq_true]
    intro col hcol
    obtain ⟨v, hv, hencryptable, -⟩ := secret_value K₂ nonces remap hrow h hcol
    rw [hv]
    exact hencryptable
  · funext col
    by_cases hcol : col ∈ columnNames name
    · by_cases hsecret : col ∈ secretColumns name
      · obtain ⟨v, hv, -, hcarried⟩ := secret_value K₂ nonces remap hrow h hsecret
        rw [toRow, if_pos hsecret, hv, (secret_type name col hsecret).1, Option.map_some,
          Option.getD_some, hcarried]
        rfl
      · by_cases hfk : col ∈ fkCols name
        · have htype := fkCol_type name col hfk
          rw [toRow, if_neg hsecret, coerceTypes, rewriteRefs_plain K₂ nonces remap hrow h hcol hsecret htype,
            htype]
          rfl
        · obtain ⟨v, hv, hbind⟩ := plain_value remap hrow h hcol hfk hsecret
          rw [toRow, if_neg hsecret, hv, Option.getD_some, hbind, carried, if_pos hcol,
            if_neg hfk, if_neg hsecret]
    · rw [toRow, columnType_eq_none hcol, carried, if_neg hcol]
      rfl

/-- An import does to the record of a row what `settleRow` says. -/
theorem settle_exported (db : ConfigDb) :
    settle x K₂ (nonces name record) db name (record.map Prod.fst)
        (rewriteRefs remap name (dictOf record)) =
      settleRow x db name (carried x K₁ K₂ nonces remap name row) := by
  obtain ⟨hkeys, -, -⟩ := exportRecord_spec h
  have hplain : ∀ col ∈ pkCols name, rewriteRefs remap name (dictOf record) col =
      some (carried x K₁ K₂ nonces remap name row col) := by
    intro col hcol
    obtain ⟨hmem, hsecret, htype⟩ := pkCols_plain name col hcol
    exact rewriteRefs_plain K₂ nonces remap hrow h hmem hsecret htype
  have hall : (pkCols name).all (fun col =>
      (rewriteRefs remap name (dictOf record) col).isSome) = true := by
    rw [List.all_eq_true]
    intro col hcol
    simp [hplain col hcol]
  have hfirst : db.first? name (pkCols name)
        (fun col => (rewriteRefs remap name (dictOf record) col).getD .none) =
      db.first? name (pkCols name) (carried x K₁ K₂ nonces remap name row) := by
    refine Database.first?_congr fun col hcol => ?_
    rw [hplain col hcol, Option.getD_some]
  have hnatural : naturalMatch db name (rewriteRefs remap name (dictOf record)) =
      (naturalKey name).bind fun col =>
        db.first? name [col] (carried x K₁ K₂ nonces remap name row) := by
    unfold naturalMatch
    cases hkey : naturalKey name with
    | none => rfl
    | some key =>
        obtain ⟨hmem, hsecret, htype⟩ := naturalKey_plain name key hkey
        rw [Option.bind_some]
        refine Database.first?_congr fun col hcol => ?_
        obtain rfl := List.mem_singleton.mp hcol
        rw [rewriteRefs_plain K₂ nonces remap hrow h hmem hsecret htype, Option.getD_some]
  have hhead := hplain _ (head_mem_pkCols name)
  obtain ⟨values, hvalues, htoRow⟩ := toRow_exported K₂ nonces remap hrow h
  have hinsert : insertRecord x K₂ (nonces name record) db name (record.map Prod.fst)
        (rewriteRefs remap name (dictOf record)) =
      match db.insert? name (carried x K₁ K₂ nonces remap name row) with
      | .ok db => .inserted db
      | .error violation => .failed (x.driverError violation) := by
    have hknown : (record.map Prod.fst).all (fun col => decide (col ∈ columnNames name)) = true := by
      rw [hkeys, List.all_eq_true]
      exact fun col hcol => decide_eq_true hcol
    cases hinserted : db.insert? name (carried x K₁ K₂ nonces remap name row) with
    | ok db' => simp only [insertRecord, hvalues, if_pos hknown, htoRow, hinserted]
    | error violation => simp only [insertRecord, hvalues, if_pos hknown, htoRow, hinserted]
  rw [settle, if_pos hall, hfirst, hnatural, hinsert, hhead, Option.getD_some]
  rfl

end Exported

/-! ## The whole import -/

def importRows (x : Externals) (K₁ K₂ : String) (nonces : TableName → Record → String → ℕ)
    (src : ConfigDb) (st : ImportState) (name : TableName) : ImportState :=
  (src.rows name).foldl (importRow x K₁ K₂ nonces name) st

/-- An import of an export, in terms of the rows it was made of. -/
def importAll (x : Externals) (K₁ K₂ : String) (nonces : TableName → Record → String → ℕ)
    (src db : ConfigDb) : ImportState :=
  exportTables.foldl (importRows x K₁ K₂ nonces src) (startImport db)

theorem importRecord_exported (hrow : schema.admits name row = true)
    (h : exportRecord x K₁ name row = some record) (st : ImportState) :
    importRecord x K₂ nonces name st record = importRow x K₁ K₂ nonces name st row := by
  rw [importRecord, importRow, settle_exported K₂ nonces st.remap hrow h]

theorem importExport_exported {src : ConfigDb} {data : Export}
    (h : buildExport x K₁ src = some data) (db : ConfigDb) :
    importExport x K₂ nonces db data = some (importAll x K₁ K₂ nonces src db) := by
  obtain ⟨tables, htables, rfl⟩ := Option.map_eq_some_iff.mp h
  obtain ⟨-, hsome, hlookup⟩ := mapM_pairs htables
  have htable : ∀ st name, importTable x K₂ nonces ⟨1, tables⟩ st name =
      importRows x K₁ K₂ nonces src st name := by
    intro st name
    obtain ⟨records, hrecords⟩ := Option.isSome_iff_exists.mp (hsome name (mem_exportTables name))
    rw [importTable, importRows, Export.records, hlookup, if_pos (mem_exportTables name), hrecords,
      Option.getD_some]
    refine foldl_of_mapM hrecords (fun row hrow record hrecord st => ?_) st
    exact importRecord_exported (src.admitted name row hrow) hrecord st
  have hversion : ¬ (Export.mk 1 tables).schemaVersion ≠ 1 := not_not_intro rfl
  rw [importExport, if_neg hversion, importAll, funext₂ htable]

/-! ## One row -/

end MailFallback.Config
