import MailFallback.Config.References

/-! # A second import

A second import of the same data finds everything that the first has settled, and settles it the
same way. -/

namespace MailFallback.Config

open Relational

variable {x : Externals} {K₁ K₂ : String} {nonces nonces' : TableName → Record → String → ℕ}
  {src loc db : ConfigDb} {st : ImportState} {remap : PyValue → Option PyValue}
  {name t : TableName} {row r r' l : Row} {col : String} {P R : List (TableName × Row)}
  {p : TableName × Row}

/-! ## The second run -/

/-- Rows that come after the next one, in its own table, are not under its id. -/
theorem first?_id_none (h : worklist src = P ++ p :: R) (hid : pkCols p.1 = ["id"])
    (habsent : st.db.first? p.1 (pkCols p.1) (carried x K₁ K₂ nonces remap p.1 p.2) = none) :
    (run x K₁ K₂ nonces' R st).db.first? p.1 (pkCols p.1)
      (carried x K₁ K₂ nonces remap p.1 p.2) = none := by
  refine List.find?_eq_none.mpr fun l hl hsame => ?_
  rcases mem_run hl with hold | ⟨row, remap', hrow, rfl⟩
  · rw [Database.first?_none habsent hold] at hsame
    cases hsame
  · rw [hid, same_singleton, carried_id hid, carried_id hid] at hsame
    have hne := (precedes_of_mem_after h hrow).id_ne rfl hid (mem_rows_of_split h)
    exact hne hsame.1

theorem first?_naturalKey_none (h : worklist src = P ++ p :: R) (hkey : naturalKey p.1 = some col)
    (hunmatched : st.db.first? p.1 [col] (carried x K₁ K₂ nonces remap p.1 p.2) = none) :
    (run x K₁ K₂ nonces' R st).db.first? p.1 [col]
      (carried x K₁ K₂ nonces remap p.1 p.2) = none := by
  refine List.find?_eq_none.mpr fun l hl hsame => ?_
  rcases mem_run hl with hold | ⟨row, remap', hrow, rfl⟩
  · rw [Database.first?_none hunmatched hold] at hsame
    cases hsame
  · rw [same_singleton, carried_naturalKey hkey, carried_naturalKey hkey] at hsame
    have hne := (precedes_of_mem_after h hrow).naturalKey_ne rfl hkey (mem_rows_of_split h)
    exact hne hsame.1

/-- A row that was refused in the first run is refused at its end as well, or has been added by
another row meanwhile. -/
theorem refused_again (h : worklist src = P ++ p :: R)
    (halike : Alike p.1 (carried x K₁ K₂ nonces remap p.1 p.2) r)
    (hdb : db = (run x K₁ K₂ nonces R st).db)
    (hunmatched : ∀ col ∈ naturalKey p.1,
      st.db.first? p.1 [col] (carried x K₁ K₂ nonces remap p.1 p.2) = none)
    {v : Violation String}
    (hviolation : st.db.violation? p.1 (carried x K₁ K₂ nonces remap p.1 p.2) = some v) :
    settleRow x db p.1 r = .present ∨ ∃ e, settleRow x db p.1 r = .failed e := by
  subst hdb
  cases hfirst : (run x K₁ K₂ nonces R st).db.first? p.1 (pkCols p.1) r with
  | some l =>
      obtain ⟨hl, hsame⟩ := Database.first?_some hfirst
      exact .inl (settleRow_present hl (Schema.same_iff.mpr hsame))
  | none =>
      right
      have hstill : ∀ col ∈ naturalKey p.1,
          (run x K₁ K₂ nonces R st).db.first? p.1 [col] r = none := by
        intro col hkey
        have hcol : ∀ c ∈ [col], c ∈ columnNames p.1 ∧ c ∉ secretColumns p.1 :=
          keys_plain p.1 [col] (List.mem_cons_of_mem _ (naturalKey_table p.1 col hkey).2.2.1)
        rw [← halike.first_eq hcol]
        exact first?_naturalKey_none h hkey (hunmatched col hkey)
      rw [settleRow_of_unmatched hfirst hstill]
      cases hinsert : (run x K₁ K₂ nonces R st).db.insert? p.1 r with
      | error v => exact ⟨_, rfl⟩
      | ok db =>
          -- nothing it refers to has come in since
          have hsettled : ∀ ref ∈ schema.references p.1, ref.table ≠ p.1 ∧
              (run x K₁ K₂ nonces R st).db.rows ref.table = st.db.rows ref.table := by
            intro ref href
            refine ⟨references_self p.1 ref href, run_rows_of_not_mem x K₁ K₂ nonces st ?_⟩
            intro row hrow
            exact ((precedes_of_mem_after h hrow).1 ref href).2 rfl
          have hfine := halike.symm.violation_none (Database.insert?_eq_ok.mp hinsert).1
          rw [Database.violation?_persists (grows_run x K₁ K₂ nonces R st) hsettled hfine] at hviolation
          cases hviolation

/-- How far a second run is: nothing is added, and the remap is that of the first run. -/
structure Repeats (first second : ImportState) (db : ConfigDb) : Prop where
  db_eq : second.db = db
  remap_eq : second.remap = first.remap
  imported_eq : second.imported = fun _ => 0

/-- One step of the second run, at the end of the first. -/
theorem repeats_step (h : worklist src = P ++ p :: R) {second : ImportState}
    (hrepeats : Repeats st second
      (run x K₁ K₂ nonces R (importStep x K₁ K₂ nonces st p)).db) :
    Repeats (importStep x K₁ K₂ nonces st p) (importStep x K₁ K₂ nonces' second p)
      (run x K₁ K₂ nonces R (importStep x K₁ K₂ nonces st p)).db := by
  obtain ⟨hdb, hremap, himported⟩ := hrepeats
  have halike := carried_alike x K₁ K₂ nonces nonces' st.remap p.1 p.2
  have hcases := settles x st.db p.1 (carried x K₁ K₂ nonces st.remap p.1 p.2)
  have hpk := keys_plain p.1 (pkCols p.1) List.mem_cons_self
  have hsecond : importStep x K₁ K₂ nonces' second p =
      second.take p.1 (settleRow x second.db p.1 (carried x K₁ K₂ nonces' st.remap p.1 p.2)) := by
    rw [importStep, importRow, hremap]
  have hfirst : importStep x K₁ K₂ nonces st p =
      st.take p.1 (settleRow x st.db p.1 (carried x K₁ K₂ nonces st.remap p.1 p.2)) := rfl
  rw [hsecond]
  rw [hfirst] at hdb ⊢
  have hgrows := grows_run x K₁ K₂ nonces R
    (st.take p.1 (settleRow x st.db p.1 (carried x K₁ K₂ nonces st.remap p.1 p.2)))
  rw [← hdb] at hgrows ⊢
  generalize settleRow x st.db p.1 _ = outcome at hcases hdb hgrows ⊢
  cases hcases with
  | @present l hl hsame =>
      rw [halike.same_eq hpk] at hsame
      rw [settleRow_present (hgrows.mem hl) hsame]
      exact ⟨rfl, hremap, himported⟩
  | @matched col e habsent hkey he =>
      obtain ⟨hid, -⟩ := naturalKey_table p.1 col hkey
      have hnone : second.db.first? p.1 (pkCols p.1)
          (carried x K₁ K₂ nonces' st.remap p.1 p.2) = none := by
        rw [← halike.first_eq hpk, hdb]
        exact first?_id_none h hid habsent
      have hcol : ∀ c ∈ [col], c ∈ columnNames p.1 ∧ c ∉ secretColumns p.1 :=
        keys_plain p.1 [col] (List.mem_cons_of_mem _ (naturalKey_table p.1 col hkey).2.2.1)
      have hfound := hgrows.first? he
      rw [halike.first_eq hcol] at hfound
      rw [settleRow_matched hnone hkey hfound, carried_id hid, carried_id hid]
      refine ⟨rfl, ?_, himported⟩
      change Function.update second.remap _ _ = Function.update st.remap _ _
      rw [hremap]
  | @inserted db' habsent hunmatched hinsert =>
      -- the row of the first run is there
      obtain ⟨hviolation, hrows⟩ := Database.insert?_eq_ok.mp hinsert
      have hadmits := (Database.violation?_eq_none.mp hviolation).1
      have hmem : carried x K₁ K₂ nonces st.remap p.1 p.2 ∈ second.db.rows p.1 := by
        refine hgrows.mem ?_
        change _ ∈ db'.rows p.1
        rw [hrows]
        exact Database.mem_rowsWith.mpr (.inr ⟨rfl, rfl⟩)
      have hsame : schema.same (pkCols p.1) (carried x K₁ K₂ nonces' st.remap p.1 p.2)
          (carried x K₁ K₂ nonces st.remap p.1 p.2) = true := by
        rw [← halike.same_eq hpk, Schema.same_iff]
        exact fun col hcol => ⟨rfl, admits_required hadmits (pkCols_required p.1 col hcol)⟩
      rw [settleRow_present hmem hsame]
      exact ⟨rfl, hremap, himported⟩
  | @failed v habsent hunmatched hviolation =>
      rcases refused_again h halike hdb hunmatched hviolation with
        hpresent | ⟨e, hfailed⟩
      · rw [hpresent]
        exact ⟨rfl, hremap, himported⟩
      · rw [hfailed]
        exact ⟨rfl, hremap, himported⟩

/-- Import is idempotent. -/
theorem importExport_idempotent {data : Export} (hexport : buildExport x K₁ src = some data)
    (himport : importExport x K₂ nonces loc data = some st) :
    ∃ st', importExport x K₂ nonces' st.db data = some st' ∧ st'.db = st.db ∧
      ∀ name, st'.imported name = 0 := by
  rw [importExport_exported hexport, importAll_eq_run] at himport
  obtain rfl := Option.some.inj himport
  rw [importExport_exported hexport, importAll_eq_run]
  refine ⟨_, rfl, ?_⟩
  have hrun : ∀ P R, worklist src = P ++ R → Repeats (run x K₁ K₂ nonces P (startImport loc))
      (run x K₁ K₂ nonces' P
        (startImport (run x K₁ K₂ nonces (worklist src) (startImport loc)).db))
      (run x K₁ K₂ nonces (worklist src) (startImport loc)).db := by
    intro P
    induction P using List.reverseRecOn with
    | nil => exact fun _ _ => ⟨rfl, rfl, rfl⟩
    | append_singleton P p ih =>
        intro R h
        rw [List.append_assoc, List.singleton_append] at h
        have ih := ih (p :: R) h
        have hend : (run x K₁ K₂ nonces (worklist src) (startImport loc)).db =
            (run x K₁ K₂ nonces R
              (importStep x K₁ K₂ nonces (run x K₁ K₂ nonces P (startImport loc)) p)).db := by
          rw [h, run_append]
          rfl
        rw [hend] at ih ⊢
        rw [run_append_singleton, run_append_singleton]
        exact repeats_step h ih
  obtain ⟨hdb, -, himported⟩ := hrun (worklist src) [] (List.append_nil _).symm
  exact ⟨hdb, fun name => congrFun himported name⟩

theorem freshDb_idempotent : ∃ data st,
    buildExport sampleExternals "old" (sampleDb "idle" false) = some data ∧
      importExport sampleExternals "new" (fun _ _ _ => 0) freshDb data = some st ∧
      ∃ st', importExport sampleExternals "new" (fun _ _ _ => 1) st.db data = some st' ∧
        st'.db = st.db ∧ ∀ name, st'.imported name = 0 := by
  have hexport : (buildExport sampleExternals "old" (sampleDb "idle" false)).isSome = true := by
    decide
  obtain ⟨data, hdata⟩ := Option.isSome_iff_exists.mp hexport
  have himport : importExport sampleExternals "new" (fun _ _ _ => 0) freshDb data = some
      (importAll sampleExternals "old" "new" (fun _ _ _ => 0) (sampleDb "idle" false) freshDb) :=
    importExport_exported hdata freshDb
  exact ⟨data, _, hdata, himport, importExport_idempotent hdata himport⟩

end MailFallback.Config
