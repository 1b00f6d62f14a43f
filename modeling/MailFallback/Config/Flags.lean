import MailFallback.Config.References
import MailFallback.Tables

/-! # Run-time flags after an import

The exported tables hold flags of runs that the tables of the runs are not exported with. -/

namespace MailFallback.Config

open Relational Storage

variable {x : Externals} {K₁ K₂ : String} {nonces : TableName → Record → String → ℕ}
  {src loc : ConfigDb} {st : ImportState} {remap : PyValue → Option PyValue} {name : TableName}
  {row r l : Row} {P R : List (TableName × Row)} {p : TableName × Row}

/-- The configuration tables with the tables of the runs, which are not exported. -/
structure LocalDb where
  config : ConfigDb
  syncJobs : Table Id SyncJob := .empty
  storeMigrations : Table Id StoreMigration := .empty

/-- The account or user of a row is being migrated, or the account is being synced. -/
def MigrationOf (db : LocalDb) (subject : StoreMigration → Option Id) (row : Row) : Prop :=
  ∃ j m id, db.storeMigrations.get? j = some m ∧ m.status.incomplete = true ∧
    subject m = some id ∧ row "id" = .str id

def SyncOf (db : LocalDb) (row : Row) : Prop :=
  ∃ j job, db.syncJobs.get? j = some job ∧ job.status.isOpen = true ∧ row "id" = .str job.accountId

def Migrating (row : Row) : Prop := row "migrating" = .bool true

def Syncing (row : Row) : Prop := row "sync_state" = .enum "syncing" "syncing"

/-- Every flag of a run has its run. -/
structure NoDeadRun (db : LocalDb) : Prop where
  accounts : ∀ row ∈ db.config.rows .accounts, Migrating row →
    MigrationOf db StoreMigration.accountId row
  users : ∀ row ∈ db.config.rows .users, Migrating row → MigrationOf db StoreMigration.userId row
  syncing : ∀ row ∈ db.config.rows .accounts, Syncing row → SyncOf db row

/-- Nothing runs. -/
structure Quiescent (db : LocalDb) : Prop where
  jobs : ∀ j job, db.syncJobs.get? j = some job → job.status.isOpen = false
  migrations : ∀ j m, db.storeMigrations.get? j = some m → m.status.incomplete = false
  flags : NoDeadRun db

/-- The flags of a row of this table. -/
def HasRunFlag : TableName → Row → Prop
  | .accounts, row => Migrating row ∨ Syncing row
  | .users, row => Migrating row
  | _, _ => False

/-- Every exported row with a flag is in the local database already, under its id or under the
value of a unique column. -/
def FlagsKnown (src loc : ConfigDb) : Prop :=
  ∀ name, ∀ row ∈ src.rows name, HasRunFlag name row →
    ∃ l ∈ loc.rows name, ∃ cols ∈ schema.key name :: schema.unique name,
      schema.same cols row l = true

/-! ## Tables with flags -/

theorem flagged_table (h : HasRunFlag name row) : name = .accounts ∨ name = .users := by
  cases name with
  | accounts => exact .inl rfl
  | users => exact .inr rfl
  | _ => cases h

/-- Their keys and their flags pass through an import as they are. -/
theorem flagged_keys (h : name = .accounts ∨ name = .users) :
    ∀ cols ∈ schema.key name :: schema.unique name, ∀ col ∈ cols,
      col ∈ columnNames name ∧ col ∉ fkCols name ∧ col ∉ secretColumns name := by
  rcases h with rfl | rfl <;> decide

theorem flagged_references (h : name = .accounts ∨ name = .users) :
    ∀ ref ∈ references name, ref.table = .mailStores := by
  rcases h with rfl | rfl <;> decide

theorem hasRunFlag_carried :
    HasRunFlag name (carried x K₁ K₂ nonces remap name row) ↔ HasRunFlag name row := by
  cases name with
  | accounts =>
      simp only [HasRunFlag, Migrating, Syncing]
      rw [carried_plain (by decide) (by decide) (by decide),
        carried_plain (by decide) (by decide) (by decide)]
  | users =>
      simp only [HasRunFlag, Migrating]
      rw [carried_plain (by decide) (by decide) (by decide)]
  | _ => exact Iff.rfl

theorem same_carried (h : name = .accounts ∨ name = .users) {cols : List String}
    (hcols : cols ∈ schema.key name :: schema.unique name) :
    schema.same cols (carried x K₁ K₂ nonces remap name row) = schema.same cols row := by
  funext l
  rw [Bool.eq_iff_iff, Schema.same_iff, Schema.same_iff]
  refine forall₂_congr fun col hcol => ?_
  obtain ⟨hmem, hfk, hsecret⟩ := flagged_keys h cols hcols col hcol
  rw [carried_plain hmem hfk hsecret]

/-- In a quiescent database a flag is a dead run. -/
theorem noDeadRun_iff_no_flag {db : LocalDb} {config : ConfigDb} (h : Quiescent db) :
    NoDeadRun { db with config := config } ↔
      ∀ name, ∀ row ∈ config.rows name, ¬HasRunFlag name row := by
  have hmigration : ∀ subject row, ¬MigrationOf { db with config := config } subject row := by
    rintro subject row ⟨j, m, id, hj, hincomplete, -⟩
    rw [h.migrations j m hj] at hincomplete
    cases hincomplete
  have hsync : ∀ row, ¬SyncOf { db with config := config } row := by
    rintro row ⟨j, job, hj, hopen, -⟩
    rw [h.jobs j job hj] at hopen
    cases hopen
  constructor
  · intro hflags name row hrow hflag
    cases name with
    | accounts =>
        rcases hflag with hmigrating | hsyncing
        · exact hmigration _ row (hflags.accounts row hrow hmigrating)
        · exact hsync row (hflags.syncing row hrow hsyncing)
    | users => exact hmigration _ row (hflags.users row hrow hflag)
    | _ => cases hflag
  · intro hnone
    exact ⟨fun row hrow hmigrating => absurd (.inl hmigrating) (hnone .accounts row hrow),
      fun row hrow hmigrating => absurd hmigrating (hnone .users row hrow),
      fun row hrow hsyncing => absurd (.inr hsyncing) (hnone .accounts row hrow)⟩

/-! ## The rows that go in -/

theorem fkCols_required (name : TableName) : ∀ col ∈ fkCols name,
    col ∈ columnNames name ∧ col ∈ requiredColumns name := by
  cases name <;> decide

theorem fkCols_references (name : TableName) : ∀ col ∈ fkCols name,
    ∃ ref ∈ references name, ref.column = col := by
  cases name <;> decide

/-- A value that is there, in a column for strings. -/
theorem str_of_holds {v : PyValue} (h : ColumnType.string.holds v = true) (hv : v ≠ .none) :
    ∃ s, v = .str s := by
  cases v with
  | str s => exact ⟨s, rfl⟩
  | none => exact absurd rfl hv
  | _ => cases h

theorem id_str {db : ConfigDb} (hid : pkCols name = ["id"]) (hrow : row ∈ db.rows name) :
    ∃ s, row "id" = .str s := by
  obtain ⟨hmem, -, htype⟩ := pkCols_plain name "id" (by simp [hid])
  exact str_of_holds (holds_string (db.admitted name row hrow) hmem htype) (id_ne_none hid hrow)

theorem carried_admits (hrow : schema.admits name row = true) (hfk : ∀ col ∈ fkCols name,
      ∃ s, carried x K₁ K₂ nonces remap name row col = .str s) :
    schema.admits name (carried x K₁ K₂ nonces remap name row) = true := by
  refine admits_of_strings (fun col hcol => ?_) hrow
  by_cases hcolfk : col ∈ fkCols name
  · obtain ⟨s', hs'⟩ := hfk col hcolfk
    obtain ⟨s, hs⟩ := str_of_holds (holds_string hrow hcol (fkCol_type name col hcolfk))
      (admits_required hrow (fkCols_required name col hcolfk).2)
    exact .inr ⟨s, s', hs, hs'⟩
  · have halike := (alike_carried x K₁ K₂ nonces name row col hcol).imp_right And.right
    rw [carried, if_pos hcol, if_neg hcolfk] at halike ⊢
    exact halike

theorem mailStores_columns : fkCols .mailStores = [] ∧ references .mailStores = [] ∧
    schema.key .mailStores :: schema.unique .mailStores = [["id"], ["path"]] := by decide

/-- Every store that has been dealt with is there, or stands for one that is. -/
theorem store_settled (x : Externals) (K₁ K₂ : String)
    (nonces : TableName → Record → String → ℕ) (loc : ConfigDb) (h : worklist src = P ++ R) {q : Row} (hq : (.mailStores, q) ∈ P) :
    (∃ l ∈ (run x K₁ K₂ nonces P (startImport loc)).db.rows .mailStores, l "id" = q "id") ∨
      ∃ new, (run x K₁ K₂ nonces P (startImport loc)).remap (q "id") = some new := by
  induction P using List.reverseRecOn generalizing R with
  | nil => cases hq
  | append_singleton P p ih =>
      rw [List.append_assoc, List.singleton_append] at h
      have ih := ih h
      have hsrc := mem_rows_of_split h
      rw [run_append_singleton]
      generalize run x K₁ K₂ nonces P (startImport loc) = st at ih ⊢
      have hcases := settles x st.db p.1 (carried x K₁ K₂ nonces st.remap p.1 p.2)
      have hgrows := grows_run x K₁ K₂ nonces [p] st
      change Database.Grows st.db (importStep x K₁ K₂ nonces st p).db at hgrows
      unfold importStep importRow at hgrows ⊢
      generalize settleRow x st.db p.1 _ = outcome at hcases hgrows ⊢
      rcases List.mem_append.mp hq with hq | hq
      · rcases ih hq with ⟨l, hl, hid⟩ | ⟨new, hnew⟩
        · exact .inl ⟨l, hgrows.mem hl, hid⟩
        · right
          cases hcases with
          | present _ _ => exact ⟨new, hnew⟩
          | inserted _ _ _ => exact ⟨new, hnew⟩
          | failed _ _ _ => exact ⟨new, hnew⟩
          | matched _ _ _ =>
              refine Option.isSome_iff_exists.mp ?_
              change (Function.update st.remap _ (some _) (q "id")).isSome = true
              rw [Function.update_apply]
              split
              · rfl
              · rw [hnew]
                rfl
      · -- its own turn
        obtain rfl := List.mem_singleton.mp hq
        have hid : pkCols TableName.mailStores = ["id"] := by decide
        have hcarried : carried x K₁ K₂ nonces st.remap .mailStores q "id" = q "id" :=
          carried_id hid
        cases hcases with
        | @present l hl hsame =>
            rw [hid, same_singleton, hcarried] at hsame
            exact .inl ⟨l, hl, hsame.1.symm⟩
        | @inserted db' _ _ hinsert =>
            refine .inl ⟨_, ?_, hcarried⟩
            change _ ∈ db'.rows .mailStores
            rw [(Database.insert?_eq_ok.mp hinsert).2]
            exact Database.mem_rowsWith.mpr (.inr ⟨rfl, rfl⟩)
        | @matched col e _ _ _ =>
            refine .inr ⟨e "id", ?_⟩
            change Function.update st.remap _ (some _) (q "id") = _
            rw [hcarried, Function.update_self]
        | @failed v habsent hunmatched hviolation =>
            have hfine : st.db.violation? .mailStores
                (carried x K₁ K₂ nonces st.remap .mailStores q) = none := by
              refine Database.violation?_eq_none.mpr ⟨carried_admits (src.admitted _ _ hsrc)
                fun col hcol => ?_, fun cols hcols l hl => ?_, fun ref href => ?_⟩
              · rw [mailStores_columns.1] at hcol
                cases hcol
              · rw [mailStores_columns.2.2] at hcols
                rcases List.mem_cons.mp hcols with rfl | hcols
                · rw [← hid]
                  exact Database.first?_none habsent hl
                · obtain rfl := List.mem_singleton.mp hcols
                  exact Database.first?_none (hunmatched "path" rfl) hl
              · change ref ∈ references .mailStores at href
                rw [mailStores_columns.2.1] at href
                cases href
            rw [hfine] at hviolation
            cases hviolation

/-- A row with a flag goes in unless it is known. -/
theorem flagged_inserted (x : Externals) (K₁ K₂ : String)
    (nonces : TableName → Record → String → ℕ) (loc : ConfigDb) (hids : GloballyUnique src) (h : worklist src = P ++ p :: R)
    (htable : p.1 = .accounts ∨ p.1 = .users)
    (hunknown : ∀ l ∈ loc.rows p.1, ∀ cols ∈ schema.key p.1 :: schema.unique p.1,
      schema.same cols p.2 l = false) :
    (run x K₁ K₂ nonces P (startImport loc)).db.violation? p.1
      (carried x K₁ K₂ nonces (run x K₁ K₂ nonces P (startImport loc)).remap p.1 p.2) = none := by
  have hrow := src.admitted p.1 p.2 (mem_rows_of_split h)
  -- where the reference to the store leads
  have hstore : ∀ ref ∈ references p.1,
      ∃ l ∈ (run x K₁ K₂ nonces P (startImport loc)).db.rows .mailStores, l "id" =
        carried x K₁ K₂ nonces (run x K₁ K₂ nonces P (startImport loc)).remap p.1 p.2
          ref.column := by
    intro ref href
    obtain ⟨hfk, hmem, -⟩ := reference_column p.1 ref href
    obtain ⟨q, hq, hqP, hid⟩ := referenced_before h href
    have hstores := flagged_references htable ref href
    rw [hstores] at hq hqP
    rw [carried_fk hmem hfk, ← hid]
    cases hremap : (run x K₁ K₂ nonces P (startImport loc)).remap (q "id") with
    | none =>
        rcases store_settled x K₁ K₂ nonces loc h hqP with hthere | ⟨new, hnew⟩
        · exact hthere
        · rw [hremap] at hnew
          cases hnew
    | some new =>
        obtain ⟨t, q', col, hq', hkey, hq'id, -, l, hl, hlid, -⟩ := remap_sound h hremap
        obtain rfl : t = .mailStores := hids t (mem_exportTables t) _ (mem_exportTables _)
          (naturalKey_table t col hkey).1 (by decide) q' (mem_rows_of_mem_before h hq') q hq hq'id
        exact ⟨l, (grows_run x K₁ K₂ nonces P (startImport loc)).mem hl, hlid⟩
  refine Database.violation?_eq_none.mpr ⟨carried_admits hrow fun col hcol => ?_,
    fun cols hcols l hl => ?_, fun ref href => ?_⟩
  · obtain ⟨ref, href, rfl⟩ := fkCols_references p.1 col hcol
    obtain ⟨l, hl, hid⟩ := hstore ref href
    rw [← hid]
    exact id_str (by decide) hl
  · rw [same_carried htable hcols]
    rcases mem_run hl with hold | ⟨row', remap', hbefore, rfl⟩
    · exact hunknown l hold cols hcols
    · refine Schema.not_same_comm ?_
      rw [same_carried htable hcols]
      exact (precedes_of_mem_before h hbefore).2 rfl cols hcols
  · obtain ⟨l, hl, hid⟩ := hstore ref href
    have hstores := flagged_references htable ref href
    refine Schema.refersTo_iff.mpr (.inr ⟨l, Database.mem_rowsWith.mpr (.inl ?_), ?_⟩)
    · rw [hstores]
      exact hl
    · rw [target_eq p.1 ref href, hid]

/-- After an import into a quiescent database there is no flag without its run, if every exported
row with a flag is known to it; where ids are globally unique, only if. -/
theorem noDeadRun_iff {db : LocalDb} {data : Export} (hexport : buildExport x K₁ src = some data)
    (hquiet : Quiescent db) (himport : importExport x K₂ nonces db.config data = some st) :
    (FlagsKnown src db.config → NoDeadRun { db with config := st.db }) ∧
      (GloballyUnique src → NoDeadRun { db with config := st.db } → FlagsKnown src db.config) := by
  rw [importExport_exported hexport, importAll_eq_run] at himport
  obtain rfl := Option.some.inj himport
  rw [noDeadRun_iff_no_flag hquiet]
  constructor
  · intro hknown name row hrow hflag
    obtain ⟨log, hsub, hrows, hlog⟩ := run_log x K₁ K₂ nonces (worklist src)
      (startImport db.config)
    rw [hrows, List.mem_append, mem_addedTo] at hrow
    rcases hrow with hold | ⟨e, he, rfl, rfl⟩
    · exact (noDeadRun_iff_no_flag hquiet).mp hquiet.flags name row hold hflag
    · obtain ⟨P, R, hsplit, hrow, db', hinsert⟩ := hlog e he
      rw [hrow, hasRunFlag_carried] at hflag
      obtain ⟨l, hl, cols, hcols, hsame⟩ :=
        hknown e.table e.exported (mem_rows_of_split hsplit) hflag
      have hfine := Database.violation?_eq_none.mp (Database.insert?_eq_ok.mp hinsert).1
      have hne := hfine.2.1 cols hcols l
        ((grows_run x K₁ K₂ nonces P (startImport db.config)).mem hl)
      rw [hrow, same_carried (flagged_table hflag) hcols, hsame] at hne
      cases hne
  · intro hids hnone name row hrow hflag
    by_contra hunknown
    obtain ⟨P, R, hsplit⟩ := List.append_of_mem (mem_worklist.mpr hrow)
    have hfine := flagged_inserted x K₁ K₂ nonces db.config hids hsplit (flagged_table hflag) fun l hl cols hcols => by
        by_contra hsame
        exact hunknown ⟨l, hl, cols, hcols, by simpa using hsame⟩
    obtain ⟨db', hinsert, hsettle⟩ := settleRow_fine (x := x) hfine
    have hmem : carried x K₁ K₂ nonces
          (run x K₁ K₂ nonces P (startImport db.config)).remap name row ∈
        (run x K₁ K₂ nonces (worklist src) (startImport db.config)).db.rows name := by
      rw [hsplit, run_append]
      refine (grows_run x K₁ K₂ nonces R (importStep x K₁ K₂ nonces
        (run x K₁ K₂ nonces P (startImport db.config)) (name, row))).mem ?_
      rw [importStep, importRow, hsettle]
      change _ ∈ db'.rows name
      rw [(Database.insert?_eq_ok.mp hinsert).2]
      exact Database.mem_rowsWith.mpr (.inr ⟨rfl, rfl⟩)
    exact hnone name _ hmem (hasRunFlag_carried.mpr hflag)

/-! ## An export during a sync -/

theorem quiescent_fresh : Quiescent { config := freshDb } := by
  refine ⟨fun j job hj => ?_, fun j m hj => ?_, ⟨fun row hrow _ => ?_, fun row hrow hflag => ?_,
    fun row hrow _ => ?_⟩⟩
  · cases hj
  · cases hj
  · cases hrow
  · obtain rfl := List.mem_singleton.mp hrow
    exact absurd hflag (by decide : ¬ sampleUser "u9" "s9" "migrating" = .bool true)
  · cases hrow

/-- An export of an installation where nothing runs revives nothing. -/
theorem noDeadRun_of_idle : ∃ data st,
    buildExport sampleExternals "old" (sampleDb "idle" false) = some data ∧
      importExport sampleExternals "new" (fun _ _ _ => 0) freshDb data = some st ∧
      NoDeadRun { config := st.db } := by
  have hexport : (buildExport sampleExternals "old" (sampleDb "idle" false)).isSome = true := by
    decide
  obtain ⟨data, hdata⟩ := Option.isSome_iff_exists.mp hexport
  have himport : importExport sampleExternals "new" (fun _ _ _ => 0) freshDb data = some
      (importAll sampleExternals "old" "new" (fun _ _ _ => 0) (sampleDb "idle" false) freshDb) :=
    importExport_exported hdata freshDb
  refine ⟨data, _, hdata, himport, (noDeadRun_iff hdata quiescent_fresh himport).1 ?_⟩
  intro name row hrow hflag
  cases name with
  | accounts =>
      obtain rfl := List.mem_singleton.mp hrow
      exact absurd hflag (by decide : ¬ (sampleAccount "idle" false "migrating" = .bool true ∨
        sampleAccount "idle" false "sync_state" = .enum "syncing" "syncing"))
  | users =>
      obtain rfl := List.mem_singleton.mp hrow
      exact absurd hflag (by decide : ¬ sampleUser "u1" "s1" "migrating" = .bool true)
  | _ => cases hflag

/-- The account that was syncing is syncing in the fresh installation, without a job. -/
theorem not_noDeadRun_of_syncing :
    ¬ ∀ (x : Externals) (K₁ K₂ : String) (nonces : TableName → Record → String → ℕ)
        (src : ConfigDb) (db : LocalDb) (data : Export) (st : ImportState),
      buildExport x K₁ src = some data → Quiescent db →
        importExport x K₂ nonces db.config data = some st →
          NoDeadRun { db with config := st.db } := by
  intro h
  have hexport : (buildExport sampleExternals "old" (sampleDb "syncing" false)).isSome = true := by
    decide
  obtain ⟨data, hdata⟩ := Option.isSome_iff_exists.mp hexport
  have himport : importExport sampleExternals "new" (fun _ _ _ => 0) freshDb data = some
      (importAll sampleExternals "old" "new" (fun _ _ _ => 0) (sampleDb "syncing" false)
        freshDb) := importExport_exported hdata freshDb
  have hflags := h sampleExternals "old" "new" (fun _ _ _ => 0) (sampleDb "syncing" false)
    { config := freshDb } data _ hdata quiescent_fresh himport
  have hsyncing : ((importAll sampleExternals "old" "new" (fun _ _ _ => 0)
      (sampleDb "syncing" false) freshDb).db.rows .accounts).any
        (fun row => decide (row "sync_state" = .enum "syncing" "syncing")) = true := by decide
  obtain ⟨row, hrow, hflag⟩ := List.any_eq_true.mp hsyncing
  have hstate : row "sync_state" = .enum "syncing" "syncing" := of_decide_eq_true hflag
  obtain ⟨j, job, hj, -⟩ := hflags.syncing row hrow hstate
  cases hj

end MailFallback.Config
