import MailFallback.Config.Transfer

/-! # The run of an import

All rows of an export in the order of the import, and what the steps before and after one of
them leave in the database. -/

namespace MailFallback.Config

open Relational

variable {x : Externals} {K₁ K₂ : String} {nonces : TableName → Record → String → ℕ}
  {nonces' : TableName → Record → String → ℕ} {src loc db : ConfigDb} {st : ImportState} {remap : PyValue → Option PyValue} {name t : TableName}
  {row r r' l : Row} {col : String} {L P R : List (TableName × Row)} {p : TableName × Row}

/-! ## The worklist -/

def worklist (src : ConfigDb) : List (TableName × Row) :=
  exportTables.flatMap fun name => (src.rows name).map fun row => (name, row)

/-- One row of the worklist. -/
def importStep (x : Externals) (K₁ K₂ : String) (nonces : TableName → Record → String → ℕ)
    (st : ImportState) (p : TableName × Row) : ImportState :=
  importRow x K₁ K₂ nonces p.1 st p.2

def run (x : Externals) (K₁ K₂ : String) (nonces : TableName → Record → String → ℕ)
    (L : List (TableName × Row)) (st : ImportState) : ImportState :=
  L.foldl (importStep x K₁ K₂ nonces) st

theorem importAll_eq_run (loc : ConfigDb) :
    importAll x K₁ K₂ nonces src loc =
      run x K₁ K₂ nonces (worklist src) (startImport loc) := by
  rw [run, worklist, List.foldl_flatMap, importAll]
  congr 1
  funext st name
  rw [importRows, List.foldl_map]
  rfl

theorem mem_worklist : (name, row) ∈ worklist src ↔ row ∈ src.rows name := by
  simp [worklist, mem_exportTables]

/-- The first comes before the second: nothing that the first refers to is still to come, and in
one table they differ under every key. -/
def Precedes (p q : TableName × Row) : Prop :=
  (∀ ref ∈ references p.1, ref.table ≠ p.1 ∧ ref.table ≠ q.1) ∧
    (p.1 = q.1 → ∀ cols ∈ schema.key p.1 :: schema.unique p.1, schema.same cols p.2 q.2 = false)

theorem references_self (name : TableName) : ∀ ref ∈ references name, ref.table ≠ name := by
  cases name <;> decide

theorem worklist_pairwise (src : ConfigDb) : (worklist src).Pairwise Precedes := by
  rw [worklist, List.pairwise_flatMap]
  constructor
  · intro name _
    rw [List.pairwise_map, List.pairwise_iff_forall_sublist]
    intro r s hrs
    refine ⟨fun ref href => ⟨references_self name ref href, references_self name ref href⟩,
      fun _ cols hcols => ?_⟩
    exact (src.distinct name cols hcols).forall_sublist hrs
  · have htables : exportTables.Pairwise fun name later => name ≠ later := nodup_exportTables
    refine (references_pairwise.and htables).imp ?_
    rintro name later ⟨hrefs, hne⟩ p hp q hq
    obtain ⟨r, -, rfl⟩ := List.mem_map.mp hp
    obtain ⟨s, -, rfl⟩ := List.mem_map.mp hq
    exact ⟨hrefs, fun heq => absurd heq hne⟩

section Split

variable (h : worklist src = P ++ p :: R)
include h

theorem precedes_of_mem_before {q : TableName × Row} (hq : q ∈ P) : Precedes q p := by
  have hpair := worklist_pairwise src
  rw [h, List.pairwise_append] at hpair
  exact hpair.2.2 q hq p List.mem_cons_self

theorem precedes_of_mem_after {q : TableName × Row} (hq : q ∈ R) : Precedes p q := by
  have hpair := worklist_pairwise src
  rw [h, List.pairwise_append, List.pairwise_cons] at hpair
  exact hpair.2.1.1 q hq

theorem mem_rows_of_split : p.2 ∈ src.rows p.1 := by
  rw [← mem_worklist, h]
  simp

theorem mem_rows_of_mem_before {q : TableName × Row} (hq : q ∈ P) : q.2 ∈ src.rows q.1 := by
  rw [← mem_worklist, h]
  exact List.mem_append_left _ hq

/-- What a row refers to has been dealt with before it. -/
theorem referenced_before {ref : Reference TableName String} (href : ref ∈ references p.1) :
    ∃ q ∈ src.rows ref.table, (ref.table, q) ∈ P ∧ q "id" = p.2 ref.column := by
  have hrow := mem_rows_of_split h
  have hrefers := src.referenced p.1 p.2 hrow ref href
  rcases Schema.refersTo_iff.mp hrefers with hnull | ⟨q, hq, heq⟩
  · exact absurd hnull
      (admits_required (src.admitted p.1 p.2 hrow) (reference_column p.1 ref href).2.2)
  · refine ⟨q, hq, ?_, by rw [← target_eq p.1 ref href, heq]⟩
    have hmem : (ref.table, q) ∈ worklist src := mem_worklist.mpr hq
    rw [h] at hmem
    rcases List.mem_append.mp hmem with hbefore | hrest
    · exact hbefore
    · rcases List.mem_cons.mp hrest with heq' | hafter
      · exact absurd (congrArg Prod.fst heq') (references_self p.1 ref href)
      · exact absurd rfl ((precedes_of_mem_after h hafter).1 ref href).2

end Split

/-! ## The row to insert -/

theorem carried_fk (hcol : col ∈ columnNames name) (hfk : col ∈ fkCols name) :
    carried x K₁ K₂ nonces remap name row col = (remap (row col)).getD (row col) := by
  rw [carried, if_pos hcol, if_pos hfk]

theorem carried_plain (hcol : col ∈ columnNames name) (hfk : col ∉ fkCols name)
    (hsecret : col ∉ secretColumns name) :
    carried x K₁ K₂ nonces remap name row col = row col := by
  rw [carried, if_pos hcol, if_neg hfk, if_neg hsecret]

/-! ## Rows that differ in what their secrets were encrypted to -/

/-- The same row but for the tokens of its secrets. -/
def Alike (name : TableName) (r r' : Row) : Prop :=
  ∀ col ∈ columnNames name, r col = r' col ∨
    col ∈ secretColumns name ∧ ∃ s s', r col = .str s ∧ r' col = .str s'

theorem rekey_str (x : Externals) (K₁ K₂ : String) (nonce : ℕ) (s : String) :
    ∃ s', rekey x K₁ K₂ nonce (.str s) = .str s' := by
  unfold rekey
  dsimp only
  split
  · exact ⟨s, rfl⟩
  · cases decryptCredentials x s K₁ with
    | none => exact ⟨s, rfl⟩
    | some plaintext =>
        dsimp only [encryptSecret]
        split
        · exact ⟨_, rfl⟩
        · exact ⟨_, rfl⟩

theorem carried_alike (x : Externals) (K₁ K₂ : String)
    (nonces nonces' : TableName → Record → String → ℕ) (remap : PyValue → Option PyValue) (name : TableName) (row : Row) :
    Alike name (carried x K₁ K₂ nonces remap name row) (carried x K₁ K₂ nonces' remap name row) := by
  intro col hcol
  by_cases hsecret : col ∈ secretColumns name
  · have hfk := (secret_type name col hsecret).2
    rw [carried, carried, if_pos hcol, if_pos hcol, if_neg hfk, if_neg hfk, if_pos hsecret,
      if_pos hsecret]
    cases row col with
    | str s =>
        obtain ⟨s₁, h₁⟩ :=
          rekey_str x K₁ K₂ (nonces name ((exportRecord x K₁ name row).getD []) col) s
        obtain ⟨s₂, h₂⟩ :=
          rekey_str x K₁ K₂ (nonces' name ((exportRecord x K₁ name row).getD []) col) s
        exact .inr ⟨hsecret, s₁, s₂, h₁, h₂⟩
    | _ => exact .inl rfl
  · left
    rw [carried, carried, if_pos hcol, if_pos hcol, if_neg hsecret, if_neg hsecret]

/-- Without a remap only the secrets of a row change. -/
theorem alike_carried (x : Externals) (K₁ K₂ : String)
    (nonces : TableName → Record → String → ℕ) (name : TableName) (row : Row) :
    Alike name row (carried x K₁ K₂ nonces (fun _ => none) name row) := by
  intro col hcol
  rw [carried, if_pos hcol]
  by_cases hfk : col ∈ fkCols name
  · rw [if_pos hfk]
    exact .inl rfl
  · rw [if_neg hfk]
    by_cases hsecret : col ∈ secretColumns name
    · rw [if_pos hsecret]
      cases row col with
      | str s =>
          obtain ⟨s', hs'⟩ :=
            rekey_str x K₁ K₂ (nonces name ((exportRecord x K₁ name row).getD []) col) s
          exact .inr ⟨hsecret, s, s', rfl, hs'⟩
      | _ => exact .inl rfl
    · rw [if_neg hsecret]
      exact .inl rfl

theorem keys_plain (name : TableName) : ∀ cols ∈ schema.key name :: schema.unique name,
    ∀ col ∈ cols, col ∈ columnNames name ∧ col ∉ secretColumns name := by
  cases name <;> decide

theorem Alike.symm (h : Alike name r r') : Alike name r' r := by
  intro col hcol
  rcases h col hcol with heq | ⟨hsecret, s, s', hs, hs'⟩
  · exact .inl heq.symm
  · exact .inr ⟨hsecret, s', s, hs', hs⟩

theorem Alike.eq (h : Alike name r r') (hcol : col ∈ columnNames name)
    (hsecret : col ∉ secretColumns name) : r col = r' col := by
  rcases h col hcol with heq | ⟨hsecret', -⟩
  · exact heq
  · exact absurd hsecret' hsecret

/-- A string in place of a string makes no difference to the types. -/
theorem admits_of_strings (h : ∀ col ∈ columnNames name, r col = r' col ∨
    ∃ s s', r col = .str s ∧ r' col = .str s') (hr : schema.admits name r = true) :
    schema.admits name r' = true := by
  have hadmits : admits name r = true := hr
  refine List.all_eq_true.mpr fun c hc => ?_
  have hcolumn := List.all_eq_true.mp hadmits c hc
  rcases h c.name (List.mem_map_of_mem hc) with heq | ⟨s, s', hs, hs'⟩
  · rwa [heq] at hcolumn
  · rw [hs] at hcolumn
    rw [hs']
    revert hcolumn
    cases c.type <;> exact id

theorem Alike.admitted (h : Alike name r r') (hr : schema.admits name r = true) :
    schema.admits name r' = true :=
  admits_of_strings (fun col hcol => (h col hcol).imp_right And.right) hr

theorem Alike.same_eq (h : Alike name r r') {cols : List String}
    (hcols : ∀ col ∈ cols, col ∈ columnNames name ∧ col ∉ secretColumns name) :
    schema.same cols r = schema.same cols r' := by
  funext l
  rw [Bool.eq_iff_iff, Schema.same_iff, Schema.same_iff]
  refine forall₂_congr fun col hcol => ?_
  rw [h.eq (hcols col hcol).1 (hcols col hcol).2]

theorem Alike.violation_none (h : Alike name r r') (hr : db.violation? name r = none) :
    db.violation? name r' = none := by
  obtain ⟨hadmits, hdistinct, hrefs⟩ := Database.violation?_eq_none.mp hr
  refine Database.violation?_eq_none.mpr ⟨h.admitted hadmits, fun cols hcols l hl => ?_,
    fun ref href => ?_⟩
  · rw [← h.same_eq (keys_plain name cols hcols)]
    exact hdistinct cols hcols l hl
  · obtain ⟨hfk, hmem, -⟩ := reference_column name ref href
    have hthere := hrefs ref href
    rw [Schema.refersTo_iff, Database.rowsWith,
      Function.update_of_ne (references_self name ref href)] at hthere ⊢
    rwa [← h.eq hmem fun hsecret => (secret_type name _ hsecret).2 hfk]

theorem Alike.first_eq (h : Alike name r r') {cols : List String}
    (hcols : ∀ col ∈ cols, col ∈ columnNames name ∧ col ∉ secretColumns name) :
    db.first? name cols r = db.first? name cols r' := by
  rw [Database.first?, Database.first?, h.same_eq hcols]

/-! ## The cases of one step -/

/-- The cases of `settleRow`. -/
inductive Settles (x : Externals) (db : ConfigDb) (name : TableName) (r : Row) : Outcome → Prop where
  | present {l : Row} (hl : l ∈ db.rows name) (hsame : schema.same (pkCols name) r l = true) :
      Settles x db name r .present
  | matched {col : String} {e : Row} (habsent : db.first? name (pkCols name) r = none)
      (hkey : naturalKey name = some col) (he : db.first? name [col] r = some e) :
      Settles x db name r (.matched (r "id") (e "id"))
  | inserted {db' : ConfigDb} (habsent : db.first? name (pkCols name) r = none)
      (hunmatched : ∀ col ∈ naturalKey name, db.first? name [col] r = none)
      (hinsert : db.insert? name r = .ok db') : Settles x db name r (.inserted db')
  | failed {v : Violation String} (habsent : db.first? name (pkCols name) r = none)
      (hunmatched : ∀ col ∈ naturalKey name, db.first? name [col] r = none)
      (hviolation : db.violation? name r = some v) :
      Settles x db name r (.failed (x.driverError v))

theorem settles (x : Externals) (db : ConfigDb) (name : TableName) (r : Row) :
    Settles x db name r (settleRow x db name r) := by
  unfold settleRow
  cases hfirst : db.first? name (pkCols name) r with
  | some l =>
      obtain ⟨hl, hsame⟩ := Database.first?_some hfirst
      exact .present hl (Schema.same_iff.mpr hsame)
  | none =>
      dsimp only
      cases hnatural : (naturalKey name).bind fun col => db.first? name [col] r with
      | some e =>
          obtain ⟨col, hkey, he⟩ := Option.bind_eq_some_iff.mp hnatural
          have hhead : (pkCols name).headD "" = "id" := by
            rw [(naturalKey_table name col hkey).1]
            rfl
          dsimp only
          rw [hhead]
          exact .matched hfirst hkey he
      | none =>
          have hunmatched : ∀ col ∈ naturalKey name, db.first? name [col] r = none :=
            Option.bind_eq_none_iff.mp hnatural
          cases hinsert : db.insert? name r with
          | ok db' => exact .inserted hfirst hunmatched hinsert
          | error v => exact .failed hfirst hunmatched (Database.insert?_eq_error.mp hinsert)

theorem settleRow_present (hl : l ∈ db.rows name)
    (hsame : schema.same (pkCols name) r l = true) : settleRow x db name r = .present := by
  unfold settleRow
  cases hfirst : db.first? name (pkCols name) r with
  | some _ => rfl
  | none =>
      rw [Database.first?_none hfirst hl] at hsame
      cases hsame

theorem settleRow_matched {e : Row} (habsent : db.first? name (pkCols name) r = none)
    (hkey : naturalKey name = some col) (he : db.first? name [col] r = some e) :
    settleRow x db name r = .matched (r "id") (e "id") := by
  have hhead : (pkCols name).headD "" = "id" := by
    rw [(naturalKey_table name col hkey).1]
    rfl
  rw [settleRow, habsent, hkey, Option.bind_some, he, hhead]

theorem settleRow_of_unmatched (habsent : db.first? name (pkCols name) r = none)
    (hunmatched : ∀ col ∈ naturalKey name, db.first? name [col] r = none) :
    settleRow x db name r =
      match db.insert? name r with
      | .ok db => .inserted db
      | .error violation => .failed (x.driverError violation) := by
  have hnone := Option.bind_eq_none_iff.mpr hunmatched
  cases hinsert : db.insert? name r with
  | ok db' => simp only [settleRow, habsent, hnone, hinsert]
  | error violation => simp only [settleRow, habsent, hnone, hinsert]

/-- Where nothing clashes and nothing dangles the row is inserted. -/
theorem settleRow_fine (h : db.violation? name r = none) :
    ∃ db', db.insert? name r = .ok db' ∧ settleRow x db name r = .inserted db' := by
  obtain ⟨-, hdistinct, -⟩ := Database.violation?_eq_none.mp h
  have hnone : ∀ cols ∈ schema.key name :: schema.unique name, db.first? name cols r = none := by
    intro cols hcols
    refine List.find?_eq_none.mpr fun l hl hsame => ?_
    rw [hdistinct cols hcols l hl] at hsame
    cases hsame
  have hsettle := settleRow_of_unmatched (x := x) (hnone _ List.mem_cons_self) fun col hkey =>
    hnone [col] (List.mem_cons_of_mem _ (naturalKey_table name col hkey).2.2.1)
  cases hinsert : db.insert? name r with
  | ok db' =>
      rw [hinsert] at hsettle
      exact ⟨db', rfl, hsettle⟩
  | error v =>
      rw [Database.insert?_eq_error.mp hinsert] at h
      cases h

theorem importStep_db (st : ImportState) (p : TableName × Row) :
    (importStep x K₁ K₂ nonces st p).db = st.db ∨
      st.db.insert? p.1 (carried x K₁ K₂ nonces st.remap p.1 p.2) =
        .ok (importStep x K₁ K₂ nonces st p).db := by
  have hcases := settles x st.db p.1 (carried x K₁ K₂ nonces st.remap p.1 p.2)
  unfold importStep importRow
  generalize settleRow x st.db p.1 _ = outcome at hcases ⊢
  cases hcases with
  | present _ _ => exact .inl rfl
  | matched _ _ _ => exact .inl rfl
  | inserted _ _ hinsert => exact .inr hinsert
  | failed _ _ _ => exact .inl rfl

/-! ## What a run adds -/

/-- A row that an import has added: what it was in the export, and what it is now. -/
structure Added where
  table : TableName
  exported : Row
  row : Row

/-- The rows added to one table. -/
def addedTo (log : List Added) (t : TableName) : List Row :=
  (log.filter fun e => decide (e.table = t)).map Added.row

variable (x K₁ K₂ nonces) in
/-- All that a run adds comes from rows of its worklist, each under the remap of its turn. -/
theorem run_log (L : List (TableName × Row)) (st : ImportState) : ∃ log : List Added,
    (log.map fun e => (e.table, e.exported)).Sublist L ∧
    (∀ t, (run x K₁ K₂ nonces L st).db.rows t = st.db.rows t ++ addedTo log t) ∧
    ∀ e ∈ log, ∃ P R, L = P ++ (e.table, e.exported) :: R ∧
      e.row = carried x K₁ K₂ nonces (run x K₁ K₂ nonces P st).remap e.table e.exported ∧
      ∃ db, (run x K₁ K₂ nonces P st).db.insert? e.table e.row = .ok db := by
  induction L generalizing st with
  | nil => exact ⟨[], .slnil, fun t => by simp [run, addedTo], by simp⟩
  | cons p L ih =>
      obtain ⟨log, hsub, hrows, hlog⟩ := ih (importStep x K₁ K₂ nonces st p)
      have hlater : ∀ e ∈ log, ∃ P R, p :: L = P ++ (e.table, e.exported) :: R ∧
          e.row = carried x K₁ K₂ nonces (run x K₁ K₂ nonces P st).remap e.table e.exported ∧
          ∃ db, (run x K₁ K₂ nonces P st).db.insert? e.table e.row = .ok db := by
        intro e he
        obtain ⟨P, R, hL, hrow, hdb⟩ := hlog e he
        exact ⟨p :: P, R, by rw [hL, List.cons_append], hrow, hdb⟩
      rcases importStep_db st p with hsame | hinsert
      · refine ⟨log, hsub.cons _, fun t => ?_, hlater⟩
        rw [← hsame]
        exact hrows t
      · refine ⟨⟨p.1, p.2, carried x K₁ K₂ nonces st.remap p.1 p.2⟩ :: log, hsub.cons_cons _,
          fun t => ?_, ?_⟩
        · have hrow := congrFun (Database.insert?_eq_ok.mp hinsert).2 t
          change (run x K₁ K₂ nonces L (importStep x K₁ K₂ nonces st p)).db.rows t = _
          rw [hrows t, hrow, Database.rowsWith]
          by_cases ht : t = p.1
          · subst ht
            simp [addedTo]
          · rw [Function.update_of_ne ht]
            simp [addedTo, Ne.symm ht]
        · intro e he
          rcases List.mem_cons.mp he with rfl | he
          · exact ⟨[], L, rfl, rfl, _, hinsert⟩
          · exact hlater e he

theorem mem_addedTo {log : List Added} : r ∈ addedTo log t ↔ ∃ e ∈ log, e.table = t ∧ e.row = r := by
  simp [addedTo, and_assoc]

/-- A row of the database after a run was there before it or comes from the worklist. -/
theorem mem_run (h : r ∈ (run x K₁ K₂ nonces L st).db.rows t) :
    r ∈ st.db.rows t ∨ ∃ row remap, (t, row) ∈ L ∧ r = carried x K₁ K₂ nonces remap t row := by
  obtain ⟨log, hsub, hrows, hlog⟩ := run_log x K₁ K₂ nonces L st
  rw [hrows, List.mem_append, mem_addedTo] at h
  rcases h with hold | ⟨e, he, rfl, rfl⟩
  · exact .inl hold
  · obtain ⟨P, R, hL, hrow, -⟩ := hlog e he
    refine .inr ⟨e.exported, _, ?_, hrow⟩
    rw [hL]
    simp

variable (x K₁ K₂ nonces) in
theorem grows_run (L : List (TableName × Row)) (st : ImportState) :
    Database.Grows st.db (run x K₁ K₂ nonces L st).db := by
  obtain ⟨log, -, hrows, -⟩ := run_log x K₁ K₂ nonces L st
  intro t
  rw [hrows]
  exact List.prefix_append _ _

variable (x K₁ K₂ nonces) in
/-- A table without rows in the worklist stays as it is. -/
theorem run_rows_of_not_mem (st : ImportState) (h : ∀ row, (t, row) ∉ L) :
    (run x K₁ K₂ nonces L st).db.rows t = st.db.rows t := by
  obtain ⟨log, hsub, hrows, -⟩ := run_log x K₁ K₂ nonces L st
  have hnone : addedTo log t = [] := by
    rw [List.eq_nil_iff_forall_not_mem]
    intro r hr
    obtain ⟨e, he, rfl, -⟩ := mem_addedTo.mp hr
    exact h e.exported (hsub.subset (List.mem_map_of_mem he))
  rw [hrows, hnone, List.append_nil]

end MailFallback.Config
