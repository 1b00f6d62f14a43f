import MailFallback.Config.Stores

/-! # One default store

As long as nobody commits a session that has lost the flag, and nobody sets or removes a flag by
hand, exactly one store is the default. -/

namespace MailFallback.Config

open Relational Storage Posix Transition

variable {db db' : ConfigDb} {id : String} {rows : List Row} {row r store : Row}
  {p : Row → Bool} {f : Row → Row}

/-! ## Flags in a list of stores -/

theorem isDefault_setFlag (flag : Bool) (row : Row) : isDefault (setFlag flag row) = flag := by
  cases flag <;> simp [isDefault, setFlag]

/-- Rows that keep their flag. -/
theorem length_filter_map (h : ∀ r ∈ rows, isDefault (f r) = isDefault r) :
    ((rows.map f).filter isDefault).length = (rows.filter isDefault).length := by
  rw [List.filter_map, List.length_map]
  congr 1
  exact List.filter_congr h

theorem filter_cleared : (rows.map fun r => if isDefault r = true then setFlag false r else r).filter
    isDefault = [] := by
  rw [List.filter_eq_nil_iff]
  intro r hr
  obtain ⟨old, -, rfl⟩ := List.mem_map.mp hr
  by_cases hold : isDefault old = true
  · rw [if_pos hold, isDefault_setFlag]
    exact Bool.false_ne_true
  · rw [if_neg hold]
    exact hold

/-- One row among rows without a flag is given it. -/
theorem length_filter_flagged (hone : rows.Pairwise fun r s => ¬(p r = true ∧ p s = true))
    (hnone : rows.filter isDefault = []) (hr : r ∈ rows) (hp : p r = true) :
    ((rows.map fun r => if p r = true then setFlag true r else r).filter isDefault).length = 1 := by
  rw [List.filter_eq_nil_iff] at hnone
  induction rows with
  | nil => cases hr
  | cons first rest ih =>
      rw [List.pairwise_cons] at hone
      rw [List.map_cons]
      by_cases hfirst : p first = true
      · -- none of the others is flagged
        have hrest : (rest.map fun r => if p r = true then setFlag true r else r).filter
            isDefault = [] := by
          rw [List.filter_eq_nil_iff]
          intro s hs
          obtain ⟨old, hold, rfl⟩ := List.mem_map.mp hs
          rw [if_neg fun h => hone.1 old hold ⟨hfirst, h⟩]
          exact hnone old (List.mem_cons_of_mem _ hold)
        rw [if_pos hfirst, List.filter_cons_of_pos (isDefault_setFlag true first), hrest]
        rfl
      · rw [if_neg hfirst, List.filter_cons_of_neg (hnone first List.mem_cons_self)]
        apply ih hone.2
        · exact fun s hs => hnone s (List.mem_cons_of_mem _ hs)
        · rcases List.mem_cons.mp hr with rfl | hr
          · exact absurd hp hfirst
          · exact hr

/-! ## The store table -/

theorem rows_withStores (h : withStores db rows = some db') : db'.rows .mailStores = rows := by
  rw [Database.rows_replace? h, Function.update_self]

theorem rows_updateStores (h : updateStores db p f = some db') :
    db'.rows .mailStores = (db.rows .mailStores).map fun r => if p r = true then f r else r :=
  rows_withStores h

theorem store_id_unique (hr : row ∈ db.rows .mailStores) (hs : store ∈ db.rows .mailStores)
    (h : row "id" = store "id") : row = store := by
  have hkey : ["id"] ∈ schema.key .mailStores :: schema.unique .mailStores := by decide
  apply Database.eq_of_same hr hs hkey
  exact same_singleton.mpr ⟨h, id_ne_none rfl hr⟩

theorem getStore_eq_some (h : getStore db id = some store) :
    store ∈ db.rows .mailStores ∧ store "id" = .str id := by
  have hid := List.find?_some h
  exact ⟨List.mem_of_find?_eq_some h, of_decide_eq_true hid⟩

/-- The rows under one id are one row. -/
theorem eq_of_hasId (h : getStore db id = some store) (hr : row ∈ db.rows .mailStores)
    (hid : hasId id row = true) : row = store := by
  obtain ⟨hmem, hstore⟩ := getStore_eq_some h
  exact store_id_unique hr hmem ((of_decide_eq_true hid).trans hstore.symm)

theorem pairwise_id (value : PyValue) : (db.rows .mailStores).Pairwise fun r s =>
    ¬(decide (r "id" = value) = true ∧ decide (s "id" = value) = true) := by
  have hkey : ["id"] ∈ schema.key .mailStores :: schema.unique .mailStores := by decide
  refine (List.pairwise_iff_forall_sublist.mpr ?_)
  intro r s hsub hboth
  have hdistinct := (db.distinct .mailStores ["id"] hkey).forall_sublist hsub
  have hmem : r ∈ db.rows .mailStores := hsub.subset List.mem_cons_self
  have hsame : schema.same ["id"] r s = true := same_singleton.mpr
    ⟨(of_decide_eq_true hboth.1).trans (of_decide_eq_true hboth.2).symm, id_ne_none rfl hmem⟩
  rw [hsame] at hdistinct
  cases hdistinct

/-! ## The calls -/

def OneDefault (db : ConfigDb) : Prop := (defaultStores db).length = 1

def Cleared (db : ConfigDb) : Prop := defaultStores db = []

theorem setFlag_one (hcleared : Cleared db) (hstore : store ∈ db.rows .mailStores)
    (h : updateStores db (fun row => decide (row "id" = store "id")) (setFlag true) = some db') :
    OneDefault db' := by
  unfold OneDefault defaultStores
  rw [rows_updateStores h]
  exact length_filter_flagged (pairwise_id _) hcleared hstore (decide_eq_true rfl)

theorem cleared_updateStores (h : updateStores db isDefault (setFlag false) = some db') :
    Cleared db' := by
  unfold Cleared defaultStores
  rw [rows_updateStores h]
  exact filter_cleared

/-- With a known id the call ends with one default; with an unknown one the session has none and
nothing is committed. -/
theorem setDefaultStore_cases {committed : Bool}
    (h : setDefaultStore db id = some (db', committed)) :
    committed = true ∧ OneDefault db' ∨ committed = false ∧ Cleared db' := by
  obtain ⟨cleared, hcleared, h⟩ := Option.bind_eq_some_iff.mp h
  cases hget : getStore cleared id with
  | none =>
      rw [hget] at h
      obtain ⟨rfl, rfl⟩ := Prod.mk.inj (Option.some.inj h)
      exact .inr ⟨rfl, cleared_updateStores hcleared⟩
  | some store =>
      rw [hget] at h
      obtain ⟨flagged, hflagged, h⟩ := Option.bind_eq_some_iff.mp h
      obtain ⟨rfl, rfl⟩ := Prod.mk.inj (Option.some.inj h)
      obtain ⟨hmem, hid⟩ := getStore_eq_some hget
      have hsame : hasId id = fun row => decide (row "id" = store "id") := by
        funext row
        rw [hasId, hid]
      rw [hsame] at hflagged
      exact .inl ⟨rfl, setFlag_one (cleared_updateStores hcleared) hmem hflagged⟩

theorem addStore_rows {committed : Bool} (h : addStore db row = some (db', committed)) :
    committed = true ∧ defaultStores db' = defaultStores db ++ [row].filter isDefault := by
  unfold addStore at h
  cases hinsert : db.insert? .mailStores row with
  | error v =>
      rw [hinsert] at h
      cases h
  | ok db₁ =>
      rw [hinsert] at h
      obtain ⟨rfl, rfl⟩ := Prod.mk.inj (Option.some.inj h)
      obtain ⟨-, hrows⟩ := Database.insert?_eq_ok.mp hinsert
      refine ⟨rfl, ?_⟩
      unfold defaultStores
      rw [hrows, Database.rowsWith, Function.update_self, List.filter_append]

theorem cleared_of_getDefaultStore (h : getDefaultStore db = none) : Cleared db := by
  unfold Cleared defaultStores
  rw [List.filter_eq_nil_iff]
  exact fun r hr => List.find?_eq_none.mp h r hr

theorem ensureDefaultStore_cases {path : String} {new : NewRow} {committed : Bool}
    (h : ensureDefaultStore db path new = some (db', committed)) :
    committed = false ∧ db' = db ∧ ¬Cleared db ∨ committed = true ∧ OneDefault db' := by
  unfold ensureDefaultStore at h
  cases hdefault : getDefaultStore db with
  | some store =>
      rw [hdefault] at h
      obtain ⟨rfl, rfl⟩ := Prod.mk.inj (Option.some.inj h)
      refine .inl ⟨rfl, rfl, ?_⟩
      intro hcleared
      have hmem : store ∈ defaultStores db :=
        List.mem_filter.mpr ⟨List.mem_of_find?_eq_some hdefault, List.find?_some hdefault⟩
      rw [hcleared] at hmem
      cases hmem
  | none =>
      have hcleared := cleared_of_getDefaultStore hdefault
      rw [hdefault] at h
      dsimp only at h
      right
      split at h
      · rename_i store hfound
        obtain ⟨adopted, hadopted, h⟩ := Option.bind_eq_some_iff.mp h
        obtain ⟨rfl, rfl⟩ := Prod.mk.inj (Option.some.inj h)
        have hstore : store ∈ db.rows .mailStores := by
          rcases Option.or_eq_some_iff.mp hfound with hat | ⟨-, hat⟩
          · exact List.mem_of_find?_eq_some hat
          · exact List.mem_of_find?_eq_some hat
        exact ⟨rfl, setFlag_one hcleared hstore hadopted⟩
      · obtain ⟨rfl, hrows⟩ := addStore_rows h
        have hflag : [mailStore new "default" (rstripSlash path) true].filter isDefault =
            [mailStore new "default" (rstripSlash path) true] := rfl
        unfold OneDefault
        rw [hrows, hcleared, hflag]
        exact ⟨rfl, rfl⟩

theorem createStore_cases {name path : String} {new : NewRow} {committed : Bool}
    (h : createStore db name path new = some (db', committed)) :
    committed = true ∧ defaultStores db' = defaultStores db := by
  obtain ⟨rfl, hrows⟩ := addStore_rows h
  have hflag : [mailStore new name (rstripSlash path) false].filter isDefault = [] := rfl
  rw [hflag, List.append_nil] at hrows
  exact ⟨rfl, hrows⟩

/-- The arguments leave the flag as it is stored. -/
def KeepsFlag (fields : List (String × PyValue)) (row : Row) : Prop :=
  ∀ field ∈ fields, field.1 = "is_default" → field.2 = row "is_default"

theorem assign_flag {fields : List (String × PyValue)} (h : KeepsFlag fields row) :
    assign fields row "is_default" = row "is_default" := by
  suffices ∀ r : Row, r "is_default" = row "is_default" →
      assign fields r "is_default" = row "is_default" from this row rfl
  induction fields with
  | nil => exact fun r hr => hr
  | cons field fields ih =>
      intro r hr
      have hrest : KeepsFlag fields row := fun field hfield => h field (List.mem_cons_of_mem _ hfield)
      change assign fields (if field.1 ∈ updatableStoreFields then
        Function.update r field.1 field.2 else r) "is_default" = _
      apply ih hrest
      by_cases hupdatable : field.1 ∈ updatableStoreFields
      · rw [if_pos hupdatable]
        by_cases hflag : field.1 = "is_default"
        · rw [hflag, Function.update_self]
          exact h field List.mem_cons_self hflag
        · rw [Function.update_of_ne (Ne.symm hflag)]
          exact hr
      · rw [if_neg hupdatable]
        exact hr

theorem updateStore_cases {fields : List (String × PyValue)} {committed : Bool}
    (hkeeps : ∀ store, getStore db id = some store → KeepsFlag fields store)
    (h : updateStore db id fields = some (db', committed)) :
    committed = false ∧ db' = db ∨
      committed = true ∧ (defaultStores db').length = (defaultStores db).length := by
  unfold updateStore at h
  cases hget : getStore db id with
  | none =>
      rw [hget] at h
      obtain ⟨rfl, rfl⟩ := Prod.mk.inj (Option.some.inj h)
      exact .inl ⟨rfl, rfl⟩
  | some store =>
      rw [hget] at h
      obtain ⟨updated, hupdated, h⟩ := Option.bind_eq_some_iff.mp h
      obtain ⟨rfl, rfl⟩ := Prod.mk.inj (Option.some.inj h)
      refine .inr ⟨rfl, ?_⟩
      unfold defaultStores
      rw [rows_updateStores hupdated]
      apply length_filter_map
      intro r hr
      by_cases hid : hasId id r = true
      · obtain rfl := eq_of_hasId hget hr hid
        rw [if_pos hid, isDefault, isDefault, assign_flag (hkeeps r hget)]
      · rw [if_neg hid]

theorem deleteStore_cases {migrations : Table Id StoreMigration} {committed : Bool}
    (hspare : ∀ store, getStore db id = some store → isDefault store = true → occupied db id = true)
    (h : deleteStore db migrations id = some (db', committed)) :
    committed = false ∧ db' = db ∨ committed = true ∧ defaultStores db' = defaultStores db := by
  unfold deleteStore at h
  cases hget : getStore db id with
  | none =>
      rw [hget] at h
      obtain ⟨rfl, rfl⟩ := Prod.mk.inj (Option.some.inj h)
      exact .inl ⟨rfl, rfl⟩
  | some store =>
      rw [hget] at h
      dsimp only at h
      split at h
      · obtain ⟨rfl, rfl⟩ := Prod.mk.inj (Option.some.inj h)
        exact .inl ⟨rfl, rfl⟩
      · rename_i hempty
        split at h
        · cases h
        · obtain ⟨left, hleft, h⟩ := Option.bind_eq_some_iff.mp h
          obtain ⟨rfl, rfl⟩ := Prod.mk.inj (Option.some.inj h)
          refine .inr ⟨rfl, ?_⟩
          unfold defaultStores
          rw [rows_withStores hleft, List.filter_filter]
          apply List.filter_congr
          intro r hr
          cases hflag : isDefault r with
          | false => rfl
          | true =>
              have hid : hasId id r = false := by
                by_contra hid
                rw [Bool.not_eq_false] at hid
                obtain rfl := eq_of_hasId hget hr hid
                exact hempty (hspare r hget hflag)
              rw [hid]
              rfl

/-! ## The import -/

section Import

variable {x : Externals} {key : String} {nonces : String → ℕ} {name : TableName}
  {keys : List String} {record : Dict} {st : ImportState}

theorem settle_inserted (h : settle x key nonces db name keys record = .inserted db') :
    db.first? name (pkCols name) (fun col => (record col).getD .none) = none ∧
      naturalMatch db name record = none ∧
      keys.all (fun col => decide (col ∈ columnNames name)) = true ∧
      ∃ values, encryptSecrets x key nonces name (coerceTypes name record) = some values ∧
        db.insert? name (toRow name values) = .ok db' := by
  unfold settle at h
  split at h
  · split at h
    · cases h
    · rename_i hpk
      split at h
      · cases h
      · rename_i hnatural
        unfold insertRecord at h
        split at h
        · cases h
        · rename_i values hvalues
          split at h
          · rename_i hkeys
            split at h
            · rename_i db₁ hinsert
              obtain rfl := Outcome.inserted.inj h
              exact ⟨hpk, hnatural, hkeys, values, hvalues, hinsert⟩
            · cases h
          · cases h
  · cases h

theorem take_db (st : ImportState) (name : TableName) (outcome : Outcome) :
    (st.take name outcome).db = st.db ∨ ∃ db', outcome = .inserted db' ∧
      (st.take name outcome).db = db' := by
  cases outcome with
  | inserted db' => exact .inr ⟨db', rfl, rfl⟩
  | present | matched | failed => exact .inl rfl

/-- Tables without secrets. -/
theorem encryptSecrets_plain (hplain : secretColumns name = []) (values : Dict) :
    encryptSecrets x key nonces name values = some values := by
  simp [encryptSecrets, hplain]

theorem rewriteRefs_stores (remap : PyValue → Option PyValue) :
    rewriteRefs remap .mailStores record = record := by
  funext col
  unfold rewriteRefs
  rw [if_neg]
  rw [mailStores_columns.1]
  exact List.not_mem_nil

end Import

/-- A record that the table of stores takes. -/
def storable (record : Record) : Bool :=
  (record.map Prod.fst).all (fun col => decide (col ∈ columnNames .mailStores)) &&
    schema.admits .mailStores (toRow .mailStores (coerceTypes .mailStores (dictOf record)))

def Known (db : ConfigDb) (record : Record) : Prop :=
  ∃ store ∈ db.rows .mailStores,
    dictOf record "id" = some (store "id") ∨ dictOf record "path" = some (store "path")

/-- Every default store of the export is one the database has under its id or its path. -/
def BringsNoDefault (db : ConfigDb) (data : Export) : Prop :=
  ∀ record ∈ data.records .mailStores, record.lookup "is_default" = some (.bool true) →
    storable record = true → Known db record

section Runs

variable {x : Externals} {key : String} {nonces : TableName → Record → String → ℕ}
  {name : TableName} {record : Record} {st : ImportState} {data : Export}

theorem importRecord_cases (x : Externals) (key : String)
    (nonces : TableName → Record → String → ℕ) (name : TableName) (st : ImportState)
    (record : Record) :
    (importRecord x key nonces name st record).db = st.db ∨
      ∃ db', (importRecord x key nonces name st record).db = db' ∧
        settle x key (nonces name record) st.db name (record.map Prod.fst)
          (rewriteRefs st.remap name (dictOf record)) = .inserted db' := by
  rcases take_db st name (settle x key (nonces name record) st.db name (record.map Prod.fst)
    (rewriteRefs st.remap name (dictOf record))) with hsame | ⟨db', hinserted, hdb⟩
  · exact .inl hsame
  · exact .inr ⟨db', hdb, hinserted⟩

/-- The flag of a row is the flag of its record. -/
theorem isDefault_toRow :
    isDefault (toRow .mailStores (coerceTypes .mailStores (dictOf record))) = true ↔
      record.lookup "is_default" = some (.bool true) := by
  have htype : columnType .mailStores "is_default" = some .boolean := by decide
  rw [isDefault, decide_eq_true_eq, toRow, coerceTypes, htype, dictOf]
  cases record.lookup "is_default" with
  | none => simp [bindValue]
  | some v => cases v <;> simp [bindValue, coerceType, PyValue.ofJson]

theorem importRecord_stores (hgrows : Database.Grows db st.db)
    (hnew : record.lookup "is_default" = some (.bool true) → storable record = true →
      Known db record) :
    Database.Grows db (importRecord x key nonces .mailStores st record).db ∧
      defaultStores (importRecord x key nonces .mailStores st record).db = defaultStores st.db := by
  rcases importRecord_cases x key nonces .mailStores st record with hsame | ⟨db', hdb, hsettle⟩
  · rw [hsame]
    exact ⟨hgrows, rfl⟩
  · rw [rewriteRefs_stores] at hsettle
    obtain ⟨hpk, hnatural, hkeys, values, hvalues, hinsert⟩ := settle_inserted hsettle
    rw [encryptSecrets_plain rfl] at hvalues
    obtain rfl := Option.some.inj hvalues
    refine ⟨hgrows.trans (hdb ▸ Database.grows_insert? hinsert), ?_⟩
    obtain ⟨hviolation, hrows⟩ := Database.insert?_eq_ok.mp hinsert
    have hplain : isDefault (toRow .mailStores (coerceTypes .mailStores (dictOf record))) = false := by
      by_contra hflag
      rw [Bool.not_eq_false, isDefault_toRow] at hflag
      have hstorable : storable record = true := by
        rw [storable, hkeys, (Database.violation?_eq_none.mp hviolation).1]
        rfl
      -- the store it names is found before anything is inserted
      obtain ⟨store, hstore, hid | hpath⟩ := hnew hflag hstorable
      · have hmem := hgrows.mem hstore
        have hdiffers := Database.first?_none hpk hmem
        have hsame : schema.same ["id"] (fun col => (dictOf record col).getD .none) store = true := by
          apply same_singleton.mpr
          rw [hid]
          exact ⟨rfl, id_ne_none rfl hmem⟩
        exact absurd (hsame.symm.trans hdiffers) (by decide)
      · have hmem := hgrows.mem hstore
        have hdiffers := Database.first?_none hnatural hmem
        have hrequired : "path" ∈ requiredColumns .mailStores := by decide
        have hsame : schema.same ["path"] (fun col => (dictOf record col).getD .none) store =
            true := by
          apply same_singleton.mpr
          rw [hpath]
          exact ⟨rfl, admits_required (st.db.admitted .mailStores store hmem) hrequired⟩
        rw [hsame] at hdiffers
        cases hdiffers
    unfold defaultStores
    rw [hdb, hrows, Database.rowsWith, Function.update_self, List.filter_append,
      List.filter_cons_of_neg (by rw [hplain]; exact Bool.false_ne_true), List.filter_nil,
      List.append_nil]

theorem importTable_stores (hnew : BringsNoDefault db data) :
    defaultStores (importTable x key nonces data (startImport db) .mailStores).db =
      defaultStores db := by
  have hstart : Database.Grows db (startImport db).db ∧
      defaultStores (startImport db).db = defaultStores db := ⟨.refl, rfl⟩
  unfold importTable
  generalize startImport db = st at hstart ⊢
  unfold BringsNoDefault at hnew
  generalize data.records .mailStores = records at hnew ⊢
  induction records generalizing st with
  | nil => exact hstart.2
  | cons record records ih =>
      rw [List.foldl_cons]
      obtain ⟨hgrows, hsame⟩ := importRecord_stores (x := x) hstart.1
        (hnew record List.mem_cons_self)
      exact ih _ ⟨hgrows, hsame.trans hstart.2⟩ fun r hr => hnew r (List.mem_cons_of_mem _ hr)

theorem importTable_other {t : TableName} (hname : name ≠ t) (st : ImportState) :
    (importTable x key nonces data st name).db.rows t = st.db.rows t := by
  unfold importTable
  generalize data.records name = records
  induction records generalizing st with
  | nil => rfl
  | cons record records ih =>
      rw [List.foldl_cons, ih]
      rcases importRecord_cases x key nonces name st record with hsame | ⟨db', hdb, hsettle⟩
      · rw [hsame]
      · obtain ⟨-, -, -, values, -, hinsert⟩ := settle_inserted hsettle
        rw [hdb, (Database.insert?_eq_ok.mp hinsert).2, Database.rowsWith,
          Function.update_of_ne hname.symm]

theorem importExport_stores (hnew : BringsNoDefault db data)
    (h : importExport x key nonces db data = some st) :
    defaultStores st.db = defaultStores db := by
  unfold importExport at h
  split at h
  · cases h
  · obtain rfl := Option.some.inj h
    have htables : exportTables = .mailStores :: exportTables.tail := rfl
    have hothers : ∀ t ∈ exportTables.tail, t ≠ TableName.mailStores := by decide
    rw [htables, List.foldl_cons]
    have hfirst : defaultStores
        (importTable x key nonces data (startImport db) .mailStores).db = defaultStores db :=
      importTable_stores hnew
    generalize importTable x key nonces data (startImport db) .mailStores = st at hfirst ⊢
    generalize exportTables.tail = tables at hothers ⊢
    induction tables generalizing st with
    | nil => exact hfirst
    | cons t tables ih =>
        rw [List.foldl_cons]
        apply ih
        · unfold defaultStores
          rw [importTable_other (hothers t List.mem_cons_self)]
          exact hfirst
        · exact fun t ht => hothers t (List.mem_cons_of_mem _ ht)

end Runs

/-! ## Sessions -/

/-- No step commits a session without a default store, and no flag is set, taken along with its
store or brought in by an import. -/
def Careful (s : StoreState) : StoreEvent → Prop
  | .ensure _ | .setDefault _ | .close => True
  | .create .. | .commit => ¬Cleared s.view
  | .update id fields => ∀ store, getStore s.view id = some store →
      ¬Cleared s.view ∧ KeepsFlag fields store
  | .delete id => ∀ store, getStore s.view id = some store → occupied s.view id = false →
      ¬Cleared s.view ∧ isDefault store = false
  | .importExport _ data => ¬Cleared s.view ∧ BringsNoDefault s.view data

/-- One default is committed; the session sees one as well, or none. -/
structure Settled (s : StoreState) : Prop where
  stored : OneDefault s.db.config
  seen : OneDefault s.view ∨ Cleared s.view

theorem Settled.one_of_kept {s : StoreState} (h : Settled s) (hkept : ¬Cleared s.view) :
    OneDefault s.view := h.seen.resolve_right hkept

theorem Settled.closed {s : StoreState} (h : Settled s) : Settled s.closed :=
  ⟨h.stored, .inl h.stored⟩

theorem Settled.after {s : StoreState} {called : Called} (h : Settled s)
    (hcalled : ∀ view committed, called = some (view, committed) →
      OneDefault view ∨ committed = false ∧ Cleared view) : Settled (s.after called) := by
  cases called with
  | none => exact h.closed
  | some result =>
      obtain ⟨view, committed⟩ := result
      rcases hcalled view committed rfl with hone | ⟨rfl, hcleared⟩
      · cases committed with
        | true => exact ⟨hone, .inl hone⟩
        | false => exact ⟨h.stored, .inl hone⟩
      · exact ⟨h.stored, .inr hcleared⟩

/-- A call that leaves the defaults as they are, or does not commit. -/
theorem Settled.kept {s : StoreState} {called : Called} (h : Settled s)
    (hcalled : ∀ view committed, called = some (view, committed) →
      committed = false ∧ view = s.view ∨
        ¬Cleared s.view ∧ (defaultStores view).length = (defaultStores s.view).length) :
    Settled (s.after called) := by
  apply h.after
  intro view committed hresult
  rcases hcalled view committed hresult with ⟨rfl, rfl⟩ | ⟨hkept, hlength⟩
  · exact h.seen.imp id fun hcleared => ⟨rfl, hcleared⟩
  · exact .inl (hlength.trans (h.one_of_kept hkept))

theorem settled_step {host : StoreState.Host} {s s' : StoreState} {e : StoreEvent}
    (h : Settled s) (hcareful : Careful s e) (hstep : s.next host e = some s') : Settled s' := by
  cases e with
  | ensure new =>
      obtain rfl := Option.some.inj hstep
      apply h.after
      intro view committed hresult
      rcases ensureDefaultStore_cases hresult with ⟨rfl, rfl, hkept⟩ | ⟨-, hone⟩
      · exact .inl (h.one_of_kept hkept)
      · exact .inl hone
  | create name path new =>
      obtain rfl := Option.some.inj hstep
      apply h.kept
      intro view committed hresult
      obtain ⟨-, hsame⟩ := createStore_cases hresult
      exact .inr ⟨hcareful, congrArg List.length hsame⟩
  | setDefault id =>
      obtain rfl := Option.some.inj hstep
      apply h.after
      intro view committed hresult
      exact (setDefaultStore_cases hresult).imp (fun hdone => hdone.2) fun hunknown => hunknown
  | update id fields =>
      obtain rfl := Option.some.inj hstep
      apply h.kept
      intro view committed hresult
      cases hget : getStore s.view id with
      | none =>
          rw [updateStore, hget] at hresult
          obtain ⟨rfl, rfl⟩ := Prod.mk.inj (Option.some.inj hresult)
          exact .inl ⟨rfl, rfl⟩
      | some store =>
          have hkeeps := fun store hstore => (hcareful store hstore).2
          rcases updateStore_cases hkeeps hresult with hidle | ⟨-, hlength⟩
          · exact .inl hidle
          · exact .inr ⟨(hcareful store hget).1, hlength⟩
  | delete id =>
      obtain rfl := Option.some.inj hstep
      apply h.kept
      intro view committed hresult
      cases hget : getStore s.view id with
      | none =>
          rw [deleteStore, hget] at hresult
          obtain ⟨rfl, rfl⟩ := Prod.mk.inj (Option.some.inj hresult)
          exact .inl ⟨rfl, rfl⟩
      | some store =>
          cases hempty : occupied s.view id with
          | true =>
              rw [deleteStore, hget] at hresult
              dsimp only at hresult
              rw [if_pos hempty] at hresult
              obtain ⟨rfl, rfl⟩ := Prod.mk.inj (Option.some.inj hresult)
              exact .inl ⟨rfl, rfl⟩
          | false =>
              have hspare : ∀ store, getStore s.view id = some store → isDefault store = true →
                  occupied s.view id = true := by
                intro store hstore hflag
                rw [(hcareful store hstore hempty).2] at hflag
                cases hflag
              rcases deleteStore_cases hspare hresult with hidle | ⟨-, hsame⟩
              · exact .inl hidle
              · exact .inr ⟨(hcareful store hget hempty).1, congrArg List.length hsame⟩
  | importExport nonces data =>
      obtain rfl := Option.some.inj hstep
      apply h.kept
      intro view committed hresult
      obtain ⟨st, hst, hview⟩ := Option.map_eq_some_iff.mp hresult
      obtain ⟨rfl, -⟩ := Prod.mk.inj hview
      exact .inr ⟨hcareful.1, congrArg List.length (importExport_stores hcareful.2 hst)⟩
  | commit =>
      obtain rfl := Option.some.inj hstep
      have hone := h.one_of_kept hcareful
      exact ⟨hone, .inl hone⟩
  | close =>
      obtain rfl := Option.some.inj hstep
      exact h.closed

theorem settled_start {path : String} {new : NewRow} {db : LocalDb} {config : ConfigDb}
    {committed : Bool} (hfew : (defaultStores db.config).length ≤ 1)
    (hensure : ensureDefaultStore db.config path new = some (config, committed)) :
    Settled ⟨{ db with config := config }, config⟩ := by
  rcases ensureDefaultStore_cases hensure with ⟨-, rfl, hkept⟩ | ⟨-, hone⟩
  · have hpos : 0 < (defaultStores db.config).length := List.length_pos_iff.mpr hkept
    have hone : OneDefault db.config := by
      unfold OneDefault
      omega
    exact ⟨hone, .inl hone⟩
  · exact ⟨hone, .inl hone⟩

/-- After `ensure_default_store` every careful history keeps exactly one default store, and
`set_default_store` with an unknown id leaves it in place. -/
theorem one_default_of_careful {host : StoreState.Host} {new : NewRow} {db : LocalDb}
    {config : ConfigDb} {committed : Bool} {s : StoreState}
    (hfew : (defaultStores db.config).length ≤ 1)
    (hensure : ensureDefaultStore db.config host.bootstrapStorePath new = some (config, committed))
    (hrun : Reaches (StoreState.next host) Careful ⟨{ db with config := config }, config⟩ s) :
    OneDefault s.db.config ∧ ∀ id s', getStore s.view id = none →
      s.next host (.setDefault id) = some s' →
        defaultStores s'.db.config = defaultStores s.db.config ∧ OneDefault s'.db.config := by
  have hs : Settled s := hrun.invariant (settled_start hfew hensure)
    fun _ _ _ h hcareful hstep => settled_step h hcareful hstep
  refine ⟨hs.stored, ?_⟩
  intro id s' hunknown hstep
  have hcareful : Careful s (.setDefault id) := trivial
  have hs' : Settled s' := settled_step hs hcareful hstep
  refine ⟨?_, hs'.stored⟩
  obtain rfl := Option.some.inj hstep
  cases hresult : setDefaultStore s.view id with
  | none => rfl
  | some result =>
      obtain ⟨view, committed⟩ := result
      have hidle : committed = false := by
        obtain ⟨cleared, hcleared, hrest⟩ := Option.bind_eq_some_iff.mp hresult
        have hnone : getStore cleared id = none := by
          unfold getStore at hunknown ⊢
          rw [List.find?_eq_none] at hunknown ⊢
          intro r hr
          rw [rows_updateStores hcleared] at hr
          obtain ⟨old, hold, rfl⟩ := List.mem_map.mp hr
          have hid : hasId id (if isDefault old = true then setFlag false old else old) =
              hasId id old := by
            split <;> rfl
          rw [hid]
          exact hunknown old hold
        rw [hnone] at hrest
        exact (Prod.mk.inj (Option.some.inj hrest)).2.symm
      rw [hidle]
      rfl

def sampleLocal : LocalDb := { config := freshDb }

def sampleStart : StoreState := ⟨sampleLocal, freshDb⟩

def sampleHost : StoreState.Host := ⟨sampleExternals, "new", "/data"⟩

def sampleRow (id : String) : NewRow := ⟨id, ⟨⟨2026, 1, 2, by decide⟩, 0, 0, 0, 0, none⟩⟩

/-- A second store, and then the default moved to it. -/
def sampleCreated : StoreState :=
  sampleStart.after (createStore sampleStart.view "archive" "/archive/" (sampleRow "s2"))

def sampleMoved : StoreState := sampleCreated.after (setDefaultStore sampleCreated.view "s2")

theorem sample_one_default :
    (defaultStores sampleMoved.db.config).map (fun row => row "id") = [.str "s2"] ∧
      OneDefault sampleMoved.db.config := by
  have hcareful : Careful sampleStart (.create "archive" "/archive/" (sampleRow "s2")) := by
    change defaultStores sampleStart.view ≠ []
    decide +kernel
  have hcreated : Reaches (StoreState.next sampleHost) Careful sampleStart sampleCreated :=
    .step .refl hcareful rfl
  have hset : Careful sampleCreated (.setDefault "s2") := trivial
  have hmoved : Reaches (StoreState.next sampleHost) Careful
      ⟨{ sampleLocal with config := freshDb }, freshDb⟩ sampleMoved := hcreated.step hset rfl
  have hfew : (defaultStores sampleLocal.config).length ≤ 1 := by decide
  have hensure : ensureDefaultStore sampleLocal.config sampleHost.bootstrapStorePath
      (sampleRow "s1") = some (freshDb, false) := rfl
  exact ⟨by decide +kernel, (one_default_of_careful hfew hensure hmoved).1⟩

/-- A commit after `set_default_store` with an unknown id leaves no default store. -/
theorem not_one_default_of_unknown_id : ¬ ∀ (host : StoreState.Host) (new : NewRow) (db : LocalDb)
    (config : ConfigDb) (committed : Bool) (s : StoreState),
    (defaultStores db.config).length ≤ 1 →
    ensureDefaultStore db.config host.bootstrapStorePath new = some (config, committed) →
    Reaches (StoreState.next host) (fun _ _ => True) ⟨{ db with config := config }, config⟩ s →
    OneDefault s.db.config := by
  intro h
  have hrun : (([.setDefault "nope", .commit] : List StoreEvent).foldlM
      (guarded (fun _ _ => true) (StoreState.next sampleHost)) sampleStart).any
        (fun s => (defaultStores s.db.config).isEmpty) = true := by
    decide +kernel
  obtain ⟨s, hreach, hnone⟩ := Reaches.of_any hrun fun _ _ _ => trivial
  have hone := h sampleHost (sampleRow "s1") sampleLocal freshDb false s (by decide) rfl hreach
  rw [List.isEmpty_iff] at hnone
  rw [OneDefault, hnone] at hone
  cases hone

end MailFallback.Config
