import MailFallback.Index.Entries
import Mathlib.Data.List.Induction

/-! # The walk of the maildir

What the walk keeps after each file is a function of the rows it started from and of the files
it met. -/

namespace MailFallback.Index

open Storage Catalogue

variable {C H : Type*}

/-! ## The rows after some files -/

/-- A row from before Cc and Bcc were indexed gets the recipients of its file. -/
def refreshed (reader : Reader C H) (pre : List (File C)) (row : MessageRow) : Entry Key String :=
  if row.recipientsIndexedAt.isNone then
    match (pre.find? fun f => f.key = row.pointer).bind fun f =>
        readRecipients reader f.content with
    | some recipients => { row.entry with labels := {a | a ∈ recipients.bccAddrs.getD []} }
    | none => row.entry
  else row.entry

section

variable (reader : Reader C H) [DecidableEq H] (rows : Table H MessageRow) (pre : List (File C))

/-- A Message-Id without a row gets one for its first copy. -/
def entryAfter (h : H) : Option (Entry Key String) :=
  match rows.get? h with
  | some row => some (refreshed reader pre row)
  | none => (first (copies reader pre) h).map fun c => ⟨c.place, true, c.labels⟩

def placeAfter (h : H) : Option Key := (entryAfter reader rows pre h).map Entry.place

/-- The copies that are not where the row points. -/
def besides (h : H) : List (Copy Key H String) :=
  (copies reader pre).filter fun c =>
    decide (c.name = h) && decide (placeAfter reader rows pre h ≠ some c.place)

/-- The rows of every commit are those after some of the files. -/
def History (s : Session H) : Prop :=
  ∀ index ∈ s.committed, ∃ pre', pre' <+: pre ∧
    ∀ h, catalogue index.messages h = entryAfter reader rows pre' h

/-- What the walk keeps after the files. -/
structure WalkInv (w : Walk H) : Prop where
  entries : ∀ h, catalogue w.session.index.messages h = entryAfter reader rows pre h
  byHash : ∀ h, w.byHash.get? h =
    (entryAfter reader rows pre h).map fun e => (e.place, !e.live)
  byFile : ∀ k h, w.byFile.get? k = some h ↔ placeAfter reader rows pre h = some k
  pending : ∀ h, h ∈ w.recipientsPending ↔ ∃ row, rows.get? h = some row ∧
    row.recipientsIndexedAt = none ∧ ∀ f ∈ pre, f.key ≠ row.pointer
  seenHashes : ∀ h, h ∈ w.seenHashes ↔ ∃ c ∈ copies reader pre, c.name = h
  seenFiles : ∀ k, k ∈ w.seenFiles ↔ ∃ f ∈ pre, f.key = k
  relocations : ∀ h, w.relocations.get? h = (besides reader rows pre h).head?.map Copy.place
  dupBcc : ∀ h a, a ∈ (w.dupBcc.get? h).getD [] ↔
    ∃ c ∈ besides reader rows pre h, a ∈ c.labels
  history : History reader rows pre w.session

end

variable {reader : Reader C H} {pre : List (File C)} {f : File C} {h : H} {k : Key}
  {row : MessageRow}

@[simp] theorem refreshed_place : (refreshed reader pre row).place = row.pointer := by
  unfold refreshed
  split
  · split <;> rfl
  · rfl

@[simp] theorem refreshed_live : (refreshed reader pre row).live = row.deletedAt.isNone := by
  unfold refreshed
  split
  · split <;> rfl
  · rfl

theorem refreshed_of_indexed (hindexed : row.recipientsIndexedAt ≠ none) :
    refreshed reader pre row = row.entry := by
  simp [refreshed, hindexed]

theorem refreshed_append_of_ne (hkey : row.pointer ≠ f.key) :
    refreshed reader (pre ++ [f]) row = refreshed reader pre row := by
  unfold refreshed
  rw [List.find?_append]
  simp [Ne.symm hkey]

variable [DecidableEq H] {rows : Table H MessageRow} {w : Walk H}

theorem entryAfter_of_row (hrow : rows.get? h = some row) :
    entryAfter reader rows pre h = some (refreshed reader pre row) := by
  simp [entryAfter, hrow]

theorem entryAfter_of_none (hrow : rows.get? h = none) :
    entryAfter reader rows pre h =
      (first (copies reader pre) h).map fun c => ⟨c.place, true, c.labels⟩ := by
  simp [entryAfter, hrow]

theorem entryAfter_nil : entryAfter reader rows [] h = catalogue rows h := by
  unfold entryAfter catalogue
  cases rows.get? h with
  | none => rfl
  | some row => simp [refreshed]

theorem first_append :
    first (copies reader (pre ++ [f])) h =
      (first (copies reader pre) h).or ((copyOf reader f).filter fun c => decide (c.name = h)) := by
  rw [copies_append, first, List.find?_append]
  congr 1
  cases hcopy : copyOf reader f with
  | none => rfl
  | some c => by_cases hname : c.name = h <;> simp [hname, Option.filter]

/-- A file no row points at changes no row; it may be the first copy of its message. -/
theorem entryAfter_append (hunpointed : ∀ h row, rows.get? h = some row → row.pointer ≠ f.key) :
    entryAfter reader rows (pre ++ [f]) h =
      (entryAfter reader rows pre h).or
        (((copyOf reader f).filter fun c => decide (c.name = h)).map
          fun c => ⟨c.place, true, c.labels⟩) := by
  cases hrow : rows.get? h with
  | some row =>
      rw [entryAfter_of_row hrow, entryAfter_of_row hrow,
        refreshed_append_of_ne (hunpointed h row hrow)]
      rfl
  | none =>
      rw [entryAfter_of_none hrow, entryAfter_of_none hrow, first_append]
      cases first (copies reader pre) h <;> rfl

/-! ## Where the entries point -/

theorem placeAfter_found (hplace : placeAfter reader rows pre h = some k) (hrow : rows.get? h = none) :
    ∃ c ∈ copies reader pre, c.name = h ∧ c.place = k := by
  rw [placeAfter, entryAfter_of_none hrow, Option.map_map, Option.map_eq_some_iff] at hplace
  obtain ⟨c, hc, rfl⟩ := hplace
  exact ⟨c, (first_some hc).1, (first_some hc).2, rfl⟩

theorem placeAfter_of_row (hrow : rows.get? h = some row) :
    placeAfter reader rows pre h = some row.pointer := by
  simp [placeAfter, entryAfter_of_row hrow]

/-- The row that points at a file met now is one of those the walk started from. -/
theorem pointed_row (hconsistent : Consistent reader (pre ++ [f]) rows)
    (hplace : placeAfter reader rows pre h = some f.key) :
    ∃ row, rows.get? h = some row ∧ row.pointer = f.key := by
  cases hrow : rows.get? h with
  | some row =>
      rw [placeAfter_of_row hrow] at hplace
      exact ⟨row, rfl, Option.some.inj hplace⟩
  | none =>
      obtain ⟨c, hc, -, hkey⟩ := placeAfter_found hplace hrow
      obtain ⟨g, hg, hcopy⟩ := List.mem_filterMap.mp hc
      have hsame : g.key = f.key := (copyOf_eq_some hcopy).1.symm.trans hkey
      have hdistinct := hconsistent.distinct
      rw [List.map_append, List.nodup_append] at hdistinct
      exact absurd hsame (hdistinct.2.2 _ (List.mem_map_of_mem hg) _ (by simp))

theorem Consistent.hash_of_pointed (hconsistent : Consistent reader (pre ++ [f]) rows)
    (hrow : rows.get? h = some row) (hkey : row.pointer = f.key) : f.hash reader = some h :=
  hconsistent.named hrow (by simp) hkey.symm

/-! ## The bulk read -/

/-- What the bulk read keeps after some of the rows. -/
structure ReadInv (start : Walk H) (l : List (H × MessageRow)) (w : Walk H) : Prop where
  byFile : ∀ k h, w.byFile.get? k = some h ↔ ∃ row, (h, row) ∈ l ∧ row.pointer = k
  byHash : ∀ h p, w.byHash.get? h = some p ↔
    ∃ row, (h, row) ∈ l ∧ p = (row.pointer, row.deletedAt.isSome)
  pending : ∀ h, h ∈ w.recipientsPending ↔ ∃ row, (h, row) ∈ l ∧ row.recipientsIndexedAt = none
  others : w = { start with
    byFile := w.byFile, byHash := w.byHash, recipientsPending := w.recipientsPending }

theorem ReadInv.readRow {start w : Walk H} {l : List (H × MessageRow)} {r : H × MessageRow}
    (h : ReadInv start l w) (hkey : ∀ row, (r.1, row) ∉ l)
    (hapart : ∀ h row, (h, row) ∈ l → row.pointer ≠ r.2.pointer) :
    ReadInv start (l ++ [r]) (readRow w r) := by
  obtain ⟨name, row⟩ := r
  refine ⟨?_, ?_, ?_, ?_⟩
  · intro k h'
    simp only [Index.readRow, Table.get?_set, List.mem_append, List.mem_singleton, Prod.mk.injEq]
    by_cases hk : k = row.pointer
    · subst hk
      simp only [if_true, Option.some.injEq]
      constructor
      · rintro rfl
        exact ⟨row, .inr ⟨rfl, rfl⟩, rfl⟩
      · rintro ⟨row', hmem | ⟨rfl, rfl⟩, hpointer⟩
        · exact absurd hpointer (hapart h' row' hmem)
        · rfl
    · rw [if_neg hk, h.byFile]
      constructor
      · rintro ⟨row', hmem, hpointer⟩
        exact ⟨row', .inl hmem, hpointer⟩
      · rintro ⟨row', hmem | ⟨rfl, rfl⟩, hpointer⟩
        · exact ⟨row', hmem, hpointer⟩
        · exact absurd hpointer.symm hk
  · intro h' p
    simp only [Index.readRow, Table.get?_set, List.mem_append, List.mem_singleton, Prod.mk.injEq]
    by_cases hname : h' = name
    · subst hname
      simp only [if_true, Option.some.injEq]
      constructor
      · rintro rfl
        exact ⟨row, by simp, rfl⟩
      · rintro ⟨row', hmem | ⟨-, rfl⟩, rfl⟩
        · exact absurd hmem (hkey row')
        · rfl
    · rw [if_neg hname, h.byHash]
      simp [hname]
  · intro h'
    simp only [Index.readRow, List.mem_append, List.mem_singleton, Prod.mk.injEq]
    by_cases hindexed : row.recipientsIndexedAt = none
    · simp only [hindexed, Option.isNone_none, if_true, List.mem_insert_iff, h.pending]
      constructor
      · rintro (rfl | ⟨row', hmem, hnone⟩)
        · exact ⟨row, .inr ⟨rfl, rfl⟩, hindexed⟩
        · exact ⟨row', .inl hmem, hnone⟩
      · rintro ⟨row', hmem | ⟨rfl, rfl⟩, hnone⟩
        · exact .inr ⟨row', hmem, hnone⟩
        · exact .inl rfl
    · simp only [Option.isNone_iff_eq_none, hindexed, if_false, h.pending]
      constructor
      · rintro ⟨row', hmem, hnone⟩
        exact ⟨row', .inl hmem, hnone⟩
      · rintro ⟨row', hmem | ⟨rfl, rfl⟩, hnone⟩
        · exact ⟨row', hmem, hnone⟩
        · exact absurd hnone hindexed
  · rw [h.others]
    rfl

theorem readInv_foldl {start : Walk H} (hbyFile : start.byFile = .empty)
    (hbyHash : start.byHash = .empty) (hpending : start.recipientsPending = [])
    {l : List (H × MessageRow)} (hnodup : (l.map Prod.fst).Nodup)
    (hapart : ∀ h h' row row', (h, row) ∈ l → (h', row') ∈ l → row.pointer = row'.pointer →
      h = h') :
    ReadInv start l (l.foldl readRow start) := by
  induction l using List.reverseRecOn with
  | nil => exact ⟨by simp [hbyFile], by simp [hbyHash], by simp [hpending], rfl⟩
  | append_singleton l r ih =>
      rw [List.map_append, List.nodup_append] at hnodup
      rw [List.foldl_append]
      have hkey : ∀ row, (r.1, row) ∉ l := by
        intro row hmem
        exact hnodup.2.2 _ (List.mem_map_of_mem hmem) r.1 (by simp) rfl
      refine (ih hnodup.1 fun h h' row row' hmem hmem' =>
        hapart h h' row row' (List.mem_append_left _ hmem) (List.mem_append_left _ hmem')).readRow
          hkey ?_
      intro h row hmem hpointer
      obtain rfl : h = r.1 := hapart h r.1 row r.2 (List.mem_append_left _ hmem)
        (List.mem_append_right _ (List.mem_singleton.mpr rfl)) hpointer
      exact hkey row hmem

theorem startWalk_inv {index : MailIndex H} (hconsistent : Consistent reader [] index.messages) :
    WalkInv reader index.messages [] (startWalk index) := by
  have hread : ReadInv { session := startSession index } index.messages.rows
      (startWalk index) :=
    readInv_foldl rfl rfl rfl index.messages.nodup fun h h' row row' hmem hmem' =>
      hconsistent.apart (Table.mem_rows.mp hmem) (Table.mem_rows.mp hmem')
  generalize startWalk index = w at hread
  have hmem : ∀ h row, (h, row) ∈ index.messages.rows ↔ index.messages.get? h = some row :=
    fun h row => Table.mem_rows
  have hplace : ∀ h, placeAfter reader index.messages [] h =
      (index.messages.get? h).map MessageRow.pointer := by
    intro h
    rw [placeAfter, entryAfter_nil, catalogue, Option.map_map]
    rfl
  obtain ⟨hbyFile, hbyHash, hpending, hothers⟩ := hread
  refine ⟨?_, ?_, ?_, ?_, ?_, ?_, ?_, ?_, ?_⟩
  · intro h
    rw [entryAfter_nil, hothers]
    rfl
  · intro h
    refine Option.ext fun p => ?_
    rw [hbyHash, entryAfter_nil, catalogue, Option.map_map, Option.map_eq_some_iff]
    simp only [hmem]
    refine exists_congr fun row => and_congr_right fun _ => ?_
    cases hdeleted : row.deletedAt <;> simp [MessageRow.entry, hdeleted, eq_comm]
  · intro k h
    rw [hbyFile, hplace, Option.map_eq_some_iff]
    simp only [hmem]
  · intro h
    rw [hpending]
    simp only [hmem, List.not_mem_nil, false_imp_iff, implies_true, and_true]
  · intro h
    rw [hothers]
    simp [copies]
  · intro k
    rw [hothers]
    simp
  · intro h
    rw [hothers]
    simp [besides, copies]
  · intro h a
    rw [hothers]
    simp [besides, copies]
  · intro committed hcommitted
    rw [hothers] at hcommitted
    obtain rfl := List.mem_singleton.mp hcommitted
    exact ⟨[], List.nil_prefix, fun h => entryAfter_nil.symm⟩

/-! ## Commits -/

theorem History.append {s : Session H} (h : History reader rows pre s) :
    History reader rows (pre ++ [f]) s := by
  intro index hindex
  obtain ⟨pre', hpre, hentries⟩ := h index hindex
  exact ⟨pre', hpre.trans (List.prefix_append _ _), hentries⟩

theorem History.touch {batch : ℕ} {s : Session H} (h : History reader rows pre s)
    (hnow : ∀ h, catalogue s.index.messages h = entryAfter reader rows pre h) :
    History reader rows pre (s.touch batch) := by
  intro index hindex
  rcases Session.mem_touch hindex with hbefore | rfl
  · exact h index hbefore
  · exact ⟨pre, List.prefix_rfl, hnow⟩

/-! ## A file that is where a row points -/

section Known

variable {known : H}

theorem entryAfter_known (hconsistent : Consistent reader (pre ++ [f]) rows)
    (hrow : rows.get? known = some row) (hkey : row.pointer = f.key) (h : H) :
    entryAfter reader rows (pre ++ [f]) h =
      if h = known then some (refreshed reader (pre ++ [f]) row) else entryAfter reader rows pre h := by
  by_cases hname : h = known
  · subst hname
    rw [if_pos rfl, entryAfter_of_row hrow]
  · rw [if_neg hname]
    cases hrow' : rows.get? h with
    | some row' =>
        have hne : row'.pointer ≠ f.key := by
          intro heq
          exact hname (hconsistent.apart hrow' hrow (heq.trans hkey.symm))
        rw [entryAfter_of_row hrow', entryAfter_of_row hrow', refreshed_append_of_ne hne]
    | none =>
        obtain ⟨c, hcopy, -, hcname⟩ := copyOf_of_hash (hconsistent.hash_of_pointed hrow hkey)
        have hother : c.name ≠ h := by
          rw [hcname]
          exact Ne.symm hname
        rw [entryAfter_of_none hrow', entryAfter_of_none hrow', first_append, hcopy]
        simp [hother, Option.filter]

theorem placeAfter_known (hconsistent : Consistent reader (pre ++ [f]) rows)
    (hrow : rows.get? known = some row) (hkey : row.pointer = f.key) (h : H) :
    placeAfter reader rows (pre ++ [f]) h = placeAfter reader rows pre h := by
  unfold placeAfter
  rw [entryAfter_known hconsistent hrow hkey]
  by_cases hname : h = known
  · subst hname
    simp [entryAfter_of_row hrow]
  · rw [if_neg hname]

theorem besides_known (hconsistent : Consistent reader (pre ++ [f]) rows)
    (hrow : rows.get? known = some row) (hkey : row.pointer = f.key) (h : H) :
    besides reader rows (pre ++ [f]) h = besides reader rows pre h := by
  obtain ⟨c, hcopy, hplace, hcname⟩ := copyOf_of_hash (hconsistent.hash_of_pointed hrow hkey)
  unfold besides
  rw [copies_append, hcopy, List.filter_append]
  simp only [placeAfter_known hconsistent hrow hkey]
  by_cases hname : known = h
  · subst hname
    simp [hcname, hplace, placeAfter_of_row hrow, hkey]
  · simp [hcname, hname]

theorem find?_key_of_fresh (hconsistent : Consistent reader (pre ++ [f]) rows)
    (hkey : row.pointer = f.key) :
    (pre.find? fun g => g.key = row.pointer) = none := by
  have hdistinct := hconsistent.distinct
  rw [List.map_append, List.nodup_append] at hdistinct
  refine List.find?_eq_none.mpr fun g hg hsame => ?_
  rw [decide_eq_true_eq, hkey] at hsame
  exact hdistinct.2.2 _ (List.mem_map_of_mem hg) f.key (by simp) hsame

theorem WalkInv.meetKnown {env : RunEnv H} {batch : ℕ} (hinv : WalkInv reader rows pre w)
    (hconsistent : Consistent reader (pre ++ [f]) rows) (hrow : rows.get? known = some row)
    (hkey : row.pointer = f.key) :
    WalkInv reader rows (pre ++ [f])
      (meetKnown reader env batch known f { w with seenFiles := w.seenFiles.insert f.key }) := by
  obtain ⟨c, hcopy, -, hcname⟩ := copyOf_of_hash (hconsistent.hash_of_pointed hrow hkey)
  have hplace := placeAfter_known hconsistent hrow hkey
  have hbesides := besides_known hconsistent hrow hkey
  have hentry := entryAfter_known hconsistent hrow hkey
  -- The two maps keep place and life, which no reading of recipients changes.
  have hmaps : ∀ h, (entryAfter reader rows (pre ++ [f]) h).map (fun e => (e.place, !e.live)) =
      (entryAfter reader rows pre h).map fun e => (e.place, !e.live) := by
    intro h
    rw [hentry]
    by_cases hname : h = known
    · subst hname
      simp [entryAfter_of_row hrow]
    · rw [if_neg hname]
  have hcommon : ∀ (session : Session H) (pending : List H),
      (∀ h, catalogue session.index.messages h = entryAfter reader rows (pre ++ [f]) h) →
      (∀ h, h ∈ pending ↔ h ∈ w.recipientsPending ∧ h ≠ known) →
      History reader rows (pre ++ [f]) session →
      WalkInv reader rows (pre ++ [f])
        { w with
          seenFiles := w.seenFiles.insert f.key
          seenHashes := w.seenHashes.insert known
          recipientsPending := pending
          session } := by
    intro session pending hentries hpending hhistory
    refine ⟨hentries, ?_, ?_, ?_, ?_, ?_, ?_, ?_, hhistory⟩
    · intro h
      rw [hmaps]
      exact hinv.byHash h
    · intro k h
      rw [hplace]
      exact hinv.byFile k h
    · intro h
      rw [hpending, hinv.pending]
      constructor
      · rintro ⟨⟨row', hrow', hnone, hfresh⟩, hname⟩
        refine ⟨row', hrow', hnone, fun g hg => ?_⟩
        rcases List.mem_append.mp hg with hg | hg
        · exact hfresh g hg
        · rw [List.mem_singleton.mp hg]
          intro heq
          exact hname (hconsistent.apart hrow' hrow (heq.symm.trans hkey.symm))
      · rintro ⟨row', hrow', hnone, hfresh⟩
        refine ⟨⟨row', hrow', hnone, fun g hg => hfresh g (List.mem_append_left _ hg)⟩, ?_⟩
        rintro rfl
        obtain rfl := Option.some.inj (hrow.symm.trans hrow')
        exact hfresh f (by simp) hkey.symm
    · intro h
      rw [copies_append, hcopy]
      simp [List.mem_insert_iff, hinv.seenHashes, hcname, or_and_right, exists_or, or_comm, eq_comm]
    · intro k
      simp [List.mem_insert_iff, hinv.seenFiles, or_and_right, exists_or, or_comm, eq_comm]
    · intro h
      rw [hbesides]
      exact hinv.relocations h
    · intro h a
      rw [hbesides]
      exact hinv.dupBcc h a
  have hfresh := find?_key_of_fresh hconsistent hkey
  have hhistory := hinv.history.append (f := f)
  unfold Index.meetKnown
  by_cases hpending : known ∈ w.recipientsPending
  · have hnone : row.recipientsIndexedAt = none := by
      obtain ⟨row', hrow', hnone, -⟩ := (hinv.pending known).mp hpending
      rwa [Option.some.inj (hrow.symm.trans hrow')]
    have hremoved : ∀ h, h ∈ (w.recipientsPending.filter fun h => h ≠ known) ↔
        h ∈ w.recipientsPending ∧ h ≠ known := by
      simp
    have hbefore : refreshed reader pre row = row.entry := by
      simp [refreshed, hfresh]
    have hafter : (pre ++ [f]).find? (fun g => g.key = row.pointer) = some f := by
      rw [List.find?_append, hfresh]
      simp [hkey]
    simp only [hpending, if_true]
    cases hread : readRecipients reader f.content with
    | none =>
        refine hcommon w.session _ (fun h => ?_) hremoved hhistory
        rw [hinv.entries, hentry]
        by_cases hname : h = known
        · subst hname
          rw [if_pos rfl, entryAfter_of_row hrow, hbefore]
          simp [refreshed, hafter, hread]
        · rw [if_neg hname]
    | some recipients =>
        have hentries : ∀ h, catalogue (w.session.index.messages.modify known fun row =>
            { row with toRecipients := recipients, recipientsIndexedAt := some (w.session.now env) })
              h = entryAfter reader rows (pre ++ [f]) h := by
          intro h
          rw [catalogue_modify (fun e =>
            { e with labels := {a | a ∈ recipients.bccAddrs.getD []} }) fun row => rfl, hentry]
          by_cases hname : h = known
          · subst hname
            rw [if_pos rfl, if_pos rfl, hinv.entries, entryAfter_of_row hrow, hbefore]
            simp [refreshed, hafter, hread, hnone]
          · rw [if_neg hname, if_neg hname]
            exact hinv.entries h
        refine hcommon _ _ (fun h => ?_) hremoved (History.touch hhistory hentries)
        rw [Session.touch_index]
        exact hentries h
  · have hindexed : row.recipientsIndexedAt ≠ none := by
      intro hnone
      refine hpending ((hinv.pending known).mpr ⟨row, hrow, hnone, fun g hg hsame => ?_⟩)
      have hnot := List.find?_eq_none.mp hfresh g hg
      exact hnot (by simpa using hsame)
    simp only [hpending, if_false]
    refine hcommon w.session _ (fun h => ?_) (fun h => ?_) hhistory
    · rw [hinv.entries, hentry]
      by_cases hname : h = known
      · subst hname
        rw [if_pos rfl, entryAfter_of_row hrow, refreshed_of_indexed hindexed,
          refreshed_of_indexed hindexed]
      · rw [if_neg hname]
    · refine ⟨fun hmem => ⟨hmem, ?_⟩, fun hmem => hmem.1⟩
      rintro rfl
      exact hpending hmem

end Known

/-! ## A file no row points at -/

section Unknown

variable {c : Copy Key H String}

theorem WalkInv.unpointed (hinv : WalkInv reader rows pre w)
    (hunknown : w.byFile.get? f.key = none) (h : H) :
    placeAfter reader rows pre h ≠ some f.key := by
  intro hplace
  rw [(hinv.byFile f.key h).mpr hplace] at hunknown
  cases hunknown

theorem row_of_unpointed (hunpointed : ∀ h, placeAfter reader rows pre h ≠ some f.key) (h : H)
    (row : MessageRow) (hrow : rows.get? h = some row) : row.pointer ≠ f.key := by
  intro heq
  exact hunpointed h (by rw [placeAfter_of_row hrow, heq])

theorem pending_append (hunpointed : ∀ h, placeAfter reader rows pre h ≠ some f.key) (h : H) :
    (∃ row, rows.get? h = some row ∧ row.recipientsIndexedAt = none ∧
        ∀ g ∈ pre ++ [f], g.key ≠ row.pointer) ↔
      ∃ row, rows.get? h = some row ∧ row.recipientsIndexedAt = none ∧
        ∀ g ∈ pre, g.key ≠ row.pointer := by
  constructor
  · rintro ⟨row, hrow, hnone, hfresh⟩
    exact ⟨row, hrow, hnone, fun g hg => hfresh g (List.mem_append_left _ hg)⟩
  · rintro ⟨row, hrow, hnone, hfresh⟩
    refine ⟨row, hrow, hnone, fun g hg => ?_⟩
    rcases List.mem_append.mp hg with hg | hg
    · exact hfresh g hg
    · rw [List.mem_singleton.mp hg]
      exact (row_of_unpointed hunpointed h row hrow).symm

theorem seenFiles_append (hinv : WalkInv reader rows pre w) (k : Key) :
    k ∈ w.seenFiles.insert f.key ↔ ∃ g ∈ pre ++ [f], g.key = k := by
  simp [List.mem_insert_iff, hinv.seenFiles, or_and_right, exists_or, or_comm, eq_comm]

theorem seenHashes_append (hinv : WalkInv reader rows pre w) (hcopy : copyOf reader f = some c)
    (h : H) : h ∈ w.seenHashes.insert c.name ↔ ∃ c ∈ copies reader (pre ++ [f]), c.name = h := by
  rw [copies_append, hcopy]
  simp [List.mem_insert_iff, hinv.seenHashes, or_and_right, exists_or, or_comm, eq_comm]

/-- A file without a Message-Id. -/
theorem WalkInv.unparsed (hinv : WalkInv reader rows pre w)
    (hunknown : w.byFile.get? f.key = none) (hcopy : copyOf reader f = none) :
    WalkInv reader rows (pre ++ [f]) { w with seenFiles := w.seenFiles.insert f.key } := by
  have hunpointed := hinv.unpointed hunknown
  have hcopies : copies reader (pre ++ [f]) = copies reader pre := by
    rw [copies_append, hcopy]
    simp
  have hentry : ∀ h, entryAfter reader rows (pre ++ [f]) h = entryAfter reader rows pre h := by
    intro h
    rw [entryAfter_append (row_of_unpointed hunpointed), hcopy]
    simp
  have hbesides : ∀ h, besides reader rows (pre ++ [f]) h = besides reader rows pre h := by
    intro h
    have hplace : placeAfter reader rows (pre ++ [f]) h = placeAfter reader rows pre h := by
      rw [placeAfter, hentry, placeAfter]
    rw [besides, besides, hcopies, hplace]
  refine ⟨?_, ?_, ?_, ?_, ?_, seenFiles_append hinv, ?_, ?_, hinv.history.append⟩
  · intro h
    rw [hentry]
    exact hinv.entries h
  · intro h
    rw [hentry]
    exact hinv.byHash h
  · intro k h
    rw [placeAfter, hentry]
    exact hinv.byFile k h
  · intro h
    rw [pending_append hunpointed]
    exact hinv.pending h
  · intro h
    rw [hcopies]
    exact hinv.seenHashes h
  · intro h
    rw [hbesides]
    exact hinv.relocations h
  · intro h a
    rw [hbesides]
    exact hinv.dupBcc h a

/-! ### A second copy -/

theorem entryAfter_duplicate (hunpointed : ∀ h, placeAfter reader rows pre h ≠ some f.key)
    (hcopy : copyOf reader f = some c) (hthere : (entryAfter reader rows pre c.name).isSome = true)
    (h : H) : entryAfter reader rows (pre ++ [f]) h = entryAfter reader rows pre h := by
  rw [entryAfter_append (row_of_unpointed hunpointed), hcopy]
  by_cases hname : c.name = h
  · subst hname
    obtain ⟨e, he⟩ := Option.isSome_iff_exists.mp hthere
    rw [he, Option.some_or]
  · simp [Option.filter, hname]

theorem besides_duplicate (hunpointed : ∀ h, placeAfter reader rows pre h ≠ some f.key)
    (hcopy : copyOf reader f = some c) (hthere : (entryAfter reader rows pre c.name).isSome = true)
    (h : H) :
    besides reader rows (pre ++ [f]) h =
      besides reader rows pre h ++ if h = c.name then [c] else [] := by
  have hplace : placeAfter reader rows pre h ≠ some c.place := by
    rw [(copyOf_eq_some hcopy).1]
    exact hunpointed h
  have hsame : placeAfter reader rows (pre ++ [f]) h = placeAfter reader rows pre h := by
    rw [placeAfter, entryAfter_duplicate hunpointed hcopy hthere, placeAfter]
  rw [besides, besides, copies_append, hcopy, List.filter_append, hsame]
  congr 1
  by_cases hname : c.name = h
  · simpa [hname] using hplace
  · simp [hname, Ne.symm hname]

theorem setDefault_get? {κ α : Type*} [DecidableEq κ] (t : Table κ α) (k k' : κ) (a : α) :
    (setDefault t k a).get? k' = if k' = k then (t.get? k').or (some a) else t.get? k' := by
  unfold setDefault
  by_cases hk : k' = k
  · subst hk
    cases hget : t.get? k' with
    | some b => simp [hget]
    | none => simp [Table.get?_set]
  · rw [if_neg hk]
    cases hget : t.get? k with
    | some b => rfl
    | none => simp [Table.get?_set, hk]

theorem mem_foldl_insert {α : Type*} [BEq α] [LawfulBEq α] {l found : List α} {a : α} :
    a ∈ l.foldl (fun found a => found.insert a) found ↔ a ∈ found ∨ a ∈ l := by
  induction l generalizing found with
  | nil => simp
  | cons b l ih =>
      rw [List.foldl_cons, ih, List.mem_insert_iff, List.mem_cons]
      tauto

theorem mem_updateSet {κ α : Type*} [DecidableEq κ] [BEq α] [LawfulBEq α] {t : Table κ (List α)}
    {k : κ} {l : List α} (k' : κ) (a : α) :
    a ∈ ((updateSet t k l).get? k').getD [] ↔ a ∈ (t.get? k').getD [] ∨ k' = k ∧ a ∈ l := by
  unfold updateSet
  rw [Table.get?_set]
  by_cases hk : k' = k
  · subst hk
    simp [mem_foldl_insert]
  · simp [hk]

theorem WalkInv.meetDuplicate (hinv : WalkInv reader rows pre w)
    (hunknown : w.byFile.get? f.key = none) {parsed : Parsed H}
    (hparsed : parseHeaders reader f.content = some parsed)
    (hthere : (w.byHash.get? parsed.messageIdHash).isSome = true) :
    WalkInv reader rows (pre ++ [f])
      (meetDuplicate parsed f { w with seenFiles := w.seenFiles.insert f.key }) := by
  have hunpointed := hinv.unpointed hunknown
  have hcopy := copyOf_some hparsed
  have hthere' : (entryAfter reader rows pre (parsed.copy f).name).isSome = true := by
    rw [hinv.byHash, Option.isSome_map] at hthere
    exact hthere
  have hentry := entryAfter_duplicate hunpointed hcopy hthere'
  have hbesides : ∀ h, besides reader rows (pre ++ [f]) h = besides reader rows pre h ++
      if h = parsed.messageIdHash then [parsed.copy f] else [] :=
    besides_duplicate hunpointed hcopy hthere'
  refine ⟨?_, ?_, ?_, ?_, seenHashes_append hinv hcopy, seenFiles_append hinv, ?_, ?_,
    hinv.history.append⟩
  · intro h
    rw [hentry]
    exact hinv.entries h
  · intro h
    rw [hentry]
    exact hinv.byHash h
  · intro k h
    rw [placeAfter, hentry]
    exact hinv.byFile k h
  · intro h
    rw [pending_append hunpointed]
    exact hinv.pending h
  · intro h
    simp only [Index.meetDuplicate, setDefault_get?, hinv.relocations, hbesides]
    by_cases hname : h = parsed.messageIdHash
    · subst hname
      rw [if_pos rfl, if_pos rfl]
      cases besides reader rows pre parsed.messageIdHash <;> rfl
    · rw [if_neg hname, if_neg hname, List.append_nil]
  · intro h a
    rw [hbesides]
    have hbefore := hinv.dupBcc h a
    simp only [Index.meetDuplicate]
    cases haddrs : parsed.bccAddrs with
    | none =>
        rw [hbefore]
        by_cases hname : h = parsed.messageIdHash <;> simp [hname, Parsed.copy, haddrs]
    | some addrs =>
        rw [mem_updateSet, hbefore]
        by_cases hname : h = parsed.messageIdHash <;>
          simp [hname, Parsed.copy, haddrs, or_and_right, exists_or]

/-! ### A new message -/

theorem entryAfter_new (hunpointed : ∀ h, placeAfter reader rows pre h ≠ some f.key)
    (hcopy : copyOf reader f = some c) (hnew : entryAfter reader rows pre c.name = none) (h : H) :
    entryAfter reader rows (pre ++ [f]) h =
      if h = c.name then some ⟨c.place, true, c.labels⟩ else entryAfter reader rows pre h := by
  rw [entryAfter_append (row_of_unpointed hunpointed), hcopy]
  by_cases hname : c.name = h
  · subst hname
    simp [hnew]
  · simp [Option.filter, hname, Ne.symm hname]

theorem not_copied_of_new (hnew : entryAfter reader rows pre h = none) :
    ∀ c ∈ copies reader pre, c.name ≠ h := by
  cases hrow : rows.get? h with
  | some row =>
      rw [entryAfter_of_row hrow] at hnew
      cases hnew
  | none =>
      rw [entryAfter_of_none hrow, Option.map_eq_none_iff] at hnew
      intro c hc
      exact first_none hnew hc

theorem besides_new (hunpointed : ∀ h, placeAfter reader rows pre h ≠ some f.key)
    (hcopy : copyOf reader f = some c) (hnew : entryAfter reader rows pre c.name = none) (h : H) :
    besides reader rows (pre ++ [f]) h = besides reader rows pre h := by
  have hplace : placeAfter reader rows (pre ++ [f]) h =
      if h = c.name then some c.place else placeAfter reader rows pre h := by
    rw [placeAfter, entryAfter_new hunpointed hcopy hnew]
    by_cases hname : h = c.name <;> simp [hname, placeAfter]
  rw [besides, besides, copies_append, hcopy, List.filter_append, hplace]
  by_cases hname : h = c.name
  · subst hname
    have hnone : (copies reader pre).filter (fun c' => decide (c'.name = c.name) &&
        decide (placeAfter reader rows pre c.name ≠ some c'.place)) = [] := by
      refine List.filter_eq_nil_iff.mpr fun c' hc' => ?_
      simp [not_copied_of_new hnew c' hc']
    have hnone' : (copies reader pre).filter (fun c' => decide (c'.name = c.name) &&
        decide (some c.place ≠ some c'.place)) = [] := by
      refine List.filter_eq_nil_iff.mpr fun c' hc' => ?_
      simp [not_copied_of_new hnew c' hc']
    rw [if_pos rfl, hnone, hnone']
    simp
  · rw [if_neg hname]
    simp [Ne.symm hname]

theorem WalkInv.meetNew {env : RunEnv H} {batch : ℕ} (hinv : WalkInv reader rows pre w)
    (hunknown : w.byFile.get? f.key = none) {parsed : Parsed H}
    (hparsed : parseHeaders reader f.content = some parsed)
    (hnew : w.byHash.get? parsed.messageIdHash = none) :
    WalkInv reader rows (pre ++ [f])
      (meetNew reader env batch parsed f { w with seenFiles := w.seenFiles.insert f.key }) := by
  have hunpointed := hinv.unpointed hunknown
  have hcopy := copyOf_some hparsed
  have hnew' : entryAfter reader rows pre (parsed.copy f).name = none := by
    rw [hinv.byHash, Option.map_eq_none_iff] at hnew
    exact hnew
  have hentry : ∀ h, entryAfter reader rows (pre ++ [f]) h =
      if h = parsed.messageIdHash then some ⟨f.key, true, {a | a ∈ parsed.bccAddrs.getD []}⟩
      else entryAfter reader rows pre h := entryAfter_new hunpointed hcopy hnew'
  have hbesides := besides_new hunpointed hcopy hnew'
  have hentries : ∀ h, catalogue (w.session.index.messages.set parsed.messageIdHash
      (newRow parsed f (f.content.bind reader.parseAttachments) (w.session.now env))) h =
        entryAfter reader rows (pre ++ [f]) h := by
    intro h
    rw [catalogue_set, hentry]
    by_cases hname : h = parsed.messageIdHash
    · rw [if_pos hname, if_pos hname]
      rfl
    · rw [if_neg hname, if_neg hname]
      exact hinv.entries h
  have hhistory : History reader rows (pre ++ [f]) w.session := hinv.history.append
  refine ⟨?_, ?_, ?_, ?_, seenHashes_append hinv hcopy, seenFiles_append hinv, ?_, ?_,
    History.touch hhistory hentries⟩
  · intro h
    simp only [Index.meetNew, Session.touch_index]
    exact hentries h
  · intro h
    simp only [Index.meetNew, Table.get?_set, hentry]
    by_cases hname : h = parsed.messageIdHash
    · simp [hname]
    · rw [if_neg hname, if_neg hname]
      exact hinv.byHash h
  · intro k h
    simp only [Index.meetNew, Table.get?_set]
    rw [placeAfter, hentry]
    by_cases hname : h = parsed.messageIdHash
    · subst hname
      rw [if_pos rfl]
      by_cases hk : k = f.key
      · simp [hk]
      · rw [if_neg hk, hinv.byFile]
        have hplace : placeAfter reader rows pre parsed.messageIdHash = none := by
          rw [placeAfter, Option.map_eq_none_iff]
          exact hnew'
        simp [hplace, Ne.symm hk]
    · rw [if_neg hname]
      by_cases hk : k = f.key
      · subst hk
        rw [if_pos rfl]
        constructor
        · intro heq
          exact absurd (Option.some.inj heq).symm hname
        · intro hplace
          exact absurd hplace (hunpointed h)
      · rw [if_neg hk]
        exact hinv.byFile k h
  · intro h
    rw [pending_append hunpointed]
    exact hinv.pending h
  · intro h
    rw [hbesides]
    exact hinv.relocations h
  · intro h a
    rw [hbesides]
    exact hinv.dupBcc h a

end Unknown

/-! ## The whole walk -/

theorem WalkInv.walkFile {env : RunEnv H} {batch : ℕ} (hinv : WalkInv reader rows pre w)
    (hconsistent : Consistent reader (pre ++ [f]) rows) :
    WalkInv reader rows (pre ++ [f]) (walkFile reader env batch w f) := by
  unfold Index.walkFile
  dsimp only
  cases hknown : w.byFile.get? f.key with
  | some known =>
      obtain ⟨row, hrow, hkey⟩ := pointed_row hconsistent ((hinv.byFile _ _).mp hknown)
      exact hinv.meetKnown hconsistent hrow hkey
  | none =>
      cases hparsed : parseHeaders reader f.content with
      | none => exact hinv.unparsed hknown (copyOf_none hparsed)
      | some parsed =>
          cases hhash : w.byHash.get? parsed.messageIdHash with
          | some stored =>
              have hthere : (w.byHash.get? parsed.messageIdHash).isSome = true := by simp [hhash]
              simp only [hhash, Option.isSome_some, if_true]
              exact hinv.meetDuplicate hknown hparsed hthere
          | none =>
              simp only [hhash, Option.isSome_none, Bool.false_eq_true, if_false]
              exact hinv.meetNew hknown hparsed hhash

/-- What the assumptions say of the files they say of the first of them. -/
theorem Consistent.sub_prefix {files : List (File C)} (hconsistent : Consistent reader files rows)
    (hpre : pre <+: files) : Consistent reader pre rows where
  readable f hf := hconsistent.readable f (hpre.subset hf)
  distinct := hconsistent.distinct.sublist (hpre.sublist.map _)
  apart := hconsistent.apart
  named hrow hf := hconsistent.named hrow (hpre.subset hf)

theorem walked_inv (env : RunEnv H) (batch : ℕ) {files : List (File C)} {index : MailIndex H}
    (hconsistent : Consistent reader files index.messages) :
    WalkInv reader index.messages files (walked reader env batch files index) := by
  unfold walked
  induction files using List.reverseRecOn with
  | nil => exact startWalk_inv hconsistent
  | append_singleton pre f ih =>
      rw [List.foldl_append]
      exact (ih (hconsistent.sub_prefix (List.prefix_append _ _))).walkFile hconsistent

end MailFallback.Index
