import MailFallback.Index.Run

/-! # A run reconciles the index with the disk -/

namespace MailFallback.Index

open Storage Catalogue

variable {C H : Type*} [DecidableEq H] {reader : Reader C H} {rows : Table H MessageRow}
  {files : List (File C)} {w : Walk H} {h : H} {row : MessageRow}

/-- The rows a run starts from, with the recipients it reads again. -/
def refreshedCatalogue (reader : Reader C H) (files : List (File C)) (rows : Table H MessageRow)
    (h : H) : Option (Entry Key String) :=
  (rows.get? h).map (refreshed reader files)

/-! ## After the walk -/

theorem refreshedCatalogue_of_row (hrow : rows.get? h = some row) :
    refreshedCatalogue reader files rows h = some (refreshed reader files row) := by
  simp [refreshedCatalogue, hrow]

theorem refreshedCatalogue_of_none (hrow : rows.get? h = none) :
    refreshedCatalogue reader files rows h = none := by
  simp [refreshedCatalogue, hrow]

/-- The addresses of the copies beside the row's pointer. -/
def besideLabels (reader : Reader C H) (rows : Table H MessageRow) (files : List (File C)) (h : H) :
    Set String :=
  {a | ∃ c ∈ besides reader rows files h, a ∈ c.labels}

theorem besideLabels_eq {k : Key} (hplace : placeAfter reader rows files h = some k) :
    besideLabels reader rows files h = labelsBeside (copies reader files) h k := by
  refine Set.ext fun a => ?_
  simp only [besideLabels, besides, labelsBeside, hplace, List.mem_filter, Bool.and_eq_true,
    decide_eq_true_eq, ne_eq, Option.some.injEq, Set.mem_ofPred_eq, and_assoc]
  refine exists_congr fun c => and_congr_right fun _ => and_congr_right fun _ => ?_
  rw [eq_comm (a := k)]

theorem placeAfter_of_first {c : Copy Key H String} (hrow : rows.get? h = none)
    (hfirst : first (copies reader files) h = some c) :
    placeAfter reader rows files h = some c.place := by
  rw [placeAfter, entryAfter_of_none hrow, hfirst]
  rfl

theorem entryAfter_underway {pre : List (File C)} (hpre : pre <+: files)
    (hindexed : ∀ h row, rows.get? h = some row → row.recipientsIndexedAt ≠ none) (h : H) :
    Underway (copies reader files) h (catalogue rows h) (entryAfter reader rows pre h) := by
  cases hrow : rows.get? h with
  | some row =>
      rw [entryAfter_of_row hrow, refreshed_of_indexed (hindexed h row hrow), catalogue, hrow]
      exact .refl _
  | none =>
      rw [entryAfter_of_none hrow, catalogue, hrow]
      cases hfirst : first (copies reader pre) h with
      | none => exact .absent
      | some c =>
          obtain ⟨rest, rfl⟩ := hpre
          have hfirst' : first (copies reader (pre ++ rest)) h = some c := by
            rw [first, copies] at hfirst
            rw [copies, List.filterMap_append, first, List.find?_append, hfirst, Option.some_or]
          refine .arrived c _ hfirst' rfl (le_refl _) fun a ha => ?_
          exact ⟨c, (first_some hfirst').1, (first_some hfirst').2, ha⟩

/-! ## After the other passes -/

theorem mem_of_lookup {α : Type*} {l : List (H × α)} {a : α} (hlookup : l.lookup h = some a) :
    (h, a) ∈ l := by
  obtain ⟨before, after, rfl, -⟩ := List.lookup_eq_some_iff.mp hlookup
  simp

/-- Whether an entry is live does not matter on the way. -/
theorem underway_live {copies : List (Copy Key H String)} {entry : Option (Entry Key String)}
    {m m' : Entry Key String} (hunderway : Underway copies h entry (some m))
    (hplace : m'.place = m.place) (hlabels : m'.labels = m.labels) :
    Underway copies h entry (some m') := by
  cases hunderway with
  | arrived c m hfirst hm hlower hupper =>
      exact .arrived c m' hfirst (hplace.trans hm) (hlabels ▸ hlower) (hlabels ▸ hupper)
  | kept e m hm hlower hupper =>
      exact .kept e m' (hplace.trans hm) (hlabels ▸ hlower) (hlabels ▸ hupper)
  | moved e c m hgone hfirst hm hall =>
      exact .moved e c m' hgone hfirst (hplace.trans hm) (hlabels.trans hall)

/-- The entries when the Bcc addresses are merged. -/
def mergedEntry (reader : Reader C H) (rows : Table H MessageRow) (files : List (File C)) (h : H) :
    Option (Entry Key String) :=
  (entryAfter reader rows files h).map (addLabels (besideLabels reader rows files h))

/-- The entries when the stale pointers are moved. -/
def relocatedEntry (reader : Reader C H) (rows : Table H MessageRow) (files : List (File C))
    (w : Walk H) (h : H) : Option (Entry Key String) :=
  if h ∈ w.seenHashes then (mergedEntry reader rows files h).map (relocateEntry w h)
  else mergedEntry reader rows files h

theorem merged_underway {labels : Set String} (hlabels : labels ⊆ besideLabels reader rows files h) :
    Underway (copies reader files) h (refreshedCatalogue reader files rows h)
      ((entryAfter reader rows files h).map (addLabels labels)) := by
  cases hrow : rows.get? h with
  | some row =>
      rw [besideLabels_eq (placeAfter_of_row hrow)] at hlabels
      rw [refreshedCatalogue_of_row hrow, entryAfter_of_row hrow, Option.map_some]
      refine .kept _ _ rfl Set.subset_union_left (Set.union_subset_union_right _ ?_)
      rwa [refreshed_place]
  | none =>
      rw [refreshedCatalogue_of_none hrow, entryAfter_of_none hrow]
      cases hfirst : first (copies reader files) h with
      | none => exact .absent
      | some c =>
          rw [besideLabels_eq (placeAfter_of_first hrow hfirst)] at hlabels
          refine .arrived c _ hfirst rfl Set.subset_union_left (Set.union_subset ?_ ?_)
          · intro a ha
            exact ⟨c, (first_some hfirst).1, (first_some hfirst).2, ha⟩
          · exact hlabels.trans labelsBeside_subset

section Later

variable (hinv : WalkInv reader rows files w) (hconsistent : Consistent reader files rows)

include hinv

theorem mem_seenFiles_of_first {c : Copy Key H String}
    (hfirst : first (copies reader files) h = some c) : c.place ∈ w.seenFiles := by
  obtain ⟨f, hf, hcopy⟩ := List.mem_filterMap.mp (first_some hfirst).1
  exact (hinv.seenFiles _).mpr ⟨f, hf, (copyOf_eq_some hcopy).1.symm⟩

theorem seen_iff : h ∈ w.seenHashes ↔ (first (copies reader files) h).isSome = true := by
  rw [hinv.seenHashes, first_isSome]

/-- A row that points nowhere is moved to the first copy. -/
theorem relocations_of_stale (hrow : rows.get? h = some row) (hstale : row.pointer ∉ w.seenFiles) :
    w.relocations.get? h = (first (copies reader files) h).map Copy.place := by
  have hall : besides reader rows files h =
      (copies reader files).filter fun c => decide (c.name = h) := by
    refine List.filter_congr fun c hc => ?_
    obtain ⟨f, hf, hcopy⟩ := List.mem_filterMap.mp hc
    have hne : row.pointer ≠ c.place := by
      intro heq
      exact hstale ((hinv.seenFiles _).mpr ⟨f, hf, by rw [heq, (copyOf_eq_some hcopy).1]⟩)
    simp [placeAfter_of_row hrow, hne]
  rw [hinv.relocations, hall, List.head?_filter, first]

include hconsistent

theorem found_iff_seen (hrow : rows.get? h = some row) :
    Found (copies reader files) row.pointer ↔ row.pointer ∈ w.seenFiles := by
  rw [hconsistent.found_iff hrow, hinv.seenFiles]

theorem relocated_underway :
    Underway (copies reader files) h (refreshedCatalogue reader files rows h)
      (relocatedEntry reader rows files w h) := by
  have hmerged : Underway (copies reader files) h (refreshedCatalogue reader files rows h)
      (mergedEntry reader rows files h) := merged_underway (le_refl _)
  unfold relocatedEntry
  by_cases hseen : h ∈ w.seenHashes
  · rw [if_pos hseen]
    obtain ⟨c, hfirst⟩ := Option.isSome_iff_exists.mp ((seen_iff hinv).mp hseen)
    cases hrow : rows.get? h with
    | none =>
        have hc : c.place ∈ w.seenFiles := mem_seenFiles_of_first hinv hfirst
        rw [mergedEntry, entryAfter_of_none hrow, hfirst] at hmerged ⊢
        exact underway_live hmerged (by simp [relocateEntry, addLabels, hc]) rfl
    | some row =>
        rw [mergedEntry, entryAfter_of_row hrow, Option.map_some] at hmerged ⊢
        by_cases hstale : row.pointer ∈ w.seenFiles
        · exact underway_live hmerged (by simp [relocateEntry, addLabels, hstale]) rfl
        · have hgone : ¬ Found (copies reader files) row.pointer := by
            rwa [found_iff_seen hinv hconsistent hrow]
          have hmoved := relocations_of_stale hinv hrow hstale
          rw [hfirst, Option.map_some] at hmoved
          rw [refreshedCatalogue_of_row hrow]
          refine .moved _ c _ (by rwa [refreshed_place]) hfirst ?_ ?_
          · simp [relocateEntry, addLabels, hstale, hmoved]
          · rw [← labelsBeside_of_not_found hgone, ← besideLabels_eq (placeAfter_of_row hrow)]
            rfl
  · rw [if_neg hseen]
    exact hmerged

/-- The last pass leaves what reconciling the rows with the copies makes of them. -/
theorem reconciled_entry (h : H) :
    (if h ∉ w.seenHashes then (relocatedEntry reader rows files w h).map dieEntry
      else relocatedEntry reader rows files w h) =
      reconcile (copies reader files) (refreshedCatalogue reader files rows) h := by
  unfold reconcile relocatedEntry mergedEntry
  cases hfirst : first (copies reader files) h with
  | none =>
      have hseen : h ∉ w.seenHashes := by simp [seen_iff hinv, hfirst]
      rw [if_pos hseen, if_neg hseen]
      cases hrow : rows.get? h with
      | none =>
          rw [entryAfter_of_none hrow, refreshedCatalogue_of_none hrow, hfirst]
          simp [reconcileEntry, hfirst]
      | some row =>
          rw [entryAfter_of_row hrow, refreshedCatalogue_of_row hrow,
            besideLabels_eq (placeAfter_of_row hrow), labelsBeside_of_none hfirst]
          simp [reconcileEntry, hfirst, addLabels, dieEntry]
  | some c =>
      have hseen : h ∈ w.seenHashes := by simp [seen_iff hinv, hfirst]
      have hc : c.place ∈ w.seenFiles := mem_seenFiles_of_first hinv hfirst
      rw [if_neg (not_not.mpr hseen), if_pos hseen]
      cases hrow : rows.get? h with
      | none =>
          rw [entryAfter_of_none hrow, refreshedCatalogue_of_none hrow, hfirst,
            besideLabels_eq (placeAfter_of_first hrow hfirst)]
          have hlabels := labels_union_beside (copies_distinct hconsistent.distinct)
            (first_some hfirst).1 (first_some hfirst).2
          simp [reconcileEntry, hfirst, addLabels, relocateEntry, hc, hlabels]
      | some row =>
          rw [entryAfter_of_row hrow, refreshedCatalogue_of_row hrow,
            besideLabels_eq (placeAfter_of_row hrow)]
          have hfound := found_iff_seen hinv hconsistent hrow
          by_cases hstale : row.pointer ∈ w.seenFiles
          · simp [reconcileEntry, hfirst, addLabels, relocateEntry, hstale, hfound]
          · have hmoved := relocations_of_stale hinv hrow hstale
            simp [reconcileEntry, hfirst, addLabels, relocateEntry, hstale, hfound, hmoved]

/-! ## The whole run -/

omit hconsistent in
theorem mapped_merged : Mapped w (mergedEntry reader rows files) := by
  intro h
  rw [hinv.byHash, mergedEntry, Option.map_map]
  rfl

omit hconsistent in
theorem mergedEntry_isSome (hseen : h ∈ w.seenHashes) :
    (mergedEntry reader rows files h).isSome = true := by
  rw [mergedEntry, Option.isSome_map]
  cases hrow : rows.get? h with
  | some row => simp [entryAfter_of_row hrow]
  | none => simpa [entryAfter_of_none hrow] using (seen_iff hinv).mp hseen

omit hconsistent in
/-- A message that was met has a row that points at a file, or a copy to point it at. -/
theorem defensiveSkip_never (hseen : h ∈ w.seenHashes) : defensiveSkip w h = false := by
  unfold defensiveSkip
  rw [mapped_merged hinv h]
  cases hentry : mergedEntry reader rows files h with
  | none => rfl
  | some e =>
      simp only [Option.map_some, List.contains_eq_mem, Bool.and_eq_false_iff]
      by_cases hstale : e.place ∈ w.seenFiles
      · exact .inl (by simp [hstale])
      · right
        obtain ⟨c, hfirst⟩ := Option.isSome_iff_exists.mp ((seen_iff hinv).mp hseen)
        cases hrow : rows.get? h with
        | none =>
            rw [mergedEntry, entryAfter_of_none hrow, hfirst] at hentry
            obtain rfl := Option.some.inj hentry
            exact absurd (mem_seenFiles_of_first hinv hfirst) hstale
        | some row =>
            rw [mergedEntry, entryAfter_of_row hrow] at hentry
            obtain rfl := Option.some.inj hentry
            have hplace : (addLabels (besideLabels reader rows files h)
                (refreshed reader files row)).place = row.pointer := refreshed_place
            rw [hplace] at hstale
            simp [relocations_of_stale hinv hrow hstale, hfirst]

omit hconsistent in
theorem labelsOfChunks_subset {batch : ℕ} (hbatch : 0 < batch)
    {cs : List (List (H × List String))} (hcs : ∀ chunk ∈ cs, chunk ∈ chunks batch w.dupBcc.rows) :
    labelsOfChunks cs h ⊆ besideLabels reader rows files h := by
  rintro a ⟨chunk, hchunk, ha⟩
  rw [besideLabels, Set.mem_ofPred_eq, ← hinv.dupBcc h a]
  cases hlookup : chunk.lookup h with
  | none => simp [chunkLabels, hlookup] at ha
  | some found =>
      have hmem : (h, found) ∈ w.dupBcc.rows :=
        (mem_chunks hbatch).mp ⟨chunk, hcs chunk hchunk, mem_of_lookup hlookup⟩
      rw [Table.mem_rows.mp hmem]
      simpa [chunkLabels, hlookup] using ha

omit hconsistent in
theorem labelsOfChunks_all {batch : ℕ} (hbatch : 0 < batch) :
    labelsOfChunks (chunks batch w.dupBcc.rows) h = besideLabels reader rows files h := by
  refine Set.Subset.antisymm (labelsOfChunks_subset hinv hbatch fun _ hchunk => hchunk) ?_
  intro a ha
  rw [besideLabels, Set.mem_ofPred_eq, ← hinv.dupBcc h a] at ha
  cases hget : w.dupBcc.get? h with
  | none => simp [hget] at ha
  | some found =>
      obtain ⟨chunk, hchunk, hmem⟩ := (mem_chunks hbatch).mpr (Table.mem_rows.mpr hget)
      refine ⟨chunk, hchunk, ?_⟩
      cases hlookup : chunk.lookup h with
      | none =>
          rw [List.lookup_eq_none_iff] at hlookup
          simpa using hlookup _ hmem
      | some found' =>
          have hmem' : (h, found') ∈ w.dupBcc.rows :=
            (mem_chunks hbatch).mp ⟨chunk, hchunk, mem_of_lookup hlookup⟩
          have hsame : found' = found :=
            Option.some.inj ((Table.mem_rows.mp hmem').symm.trans hget)
          simpa [chunkLabels, hlookup, hsame, hget] using ha

end Later

section Run

variable {env : RunEnv H} {batch : ℕ} {index : MailIndex H}
  {Q : (H → Option (Entry Key String)) → Prop}

variable (env batch) in
/-- A run reconciles the rows with the disk, and what its commits leave is on the way there. -/
theorem run_spec (hbatch : 0 < batch) (hconsistent : Consistent reader files index.messages)
    (hwalk : ∀ pre, pre <+: files → Q (entryAfter reader index.messages pre))
    (hlater : ∀ later, (∀ h, Underway (copies reader files) h
      (refreshedCatalogue reader files index.messages h) (later h)) → Q later) :
    (∀ h, catalogue (reconcileMaildir reader env batch files index).index.messages h =
        reconcile (copies reader files)
          (refreshedCatalogue reader files index.messages) h) ∧
      (reconcileMaildir reader env batch files index).Kept Q := by
  have hinv := walked_inv env batch hconsistent
  unfold reconcileMaildir
  dsimp only
  generalize walked reader env batch files index = w at hinv
  generalize w.session.now env = now
  have hmerged : ∀ labels : H → Set String,
      (∀ h, labels h ⊆ besideLabels reader index.messages files h) →
      Q fun h => (entryAfter reader index.messages files h).map (addLabels (labels h)) :=
    fun labels hlabels => hlater _ fun h => merged_underway (hlabels h)
  have hrelocated : ∀ h, Underway (copies reader files) h
      (refreshedCatalogue reader files index.messages h)
      (relocatedEntry reader index.messages files w h) :=
    fun h => relocated_underway hinv hconsistent
  -- the Bcc addresses
  obtain ⟨hcat₁, hkept₁⟩ := mergeChunks_spec (s := w.session.tick) (Q := Q)
    (chunks batch w.dupBcc.rows) hinv.entries (by
      intro committed hcommitted
      obtain ⟨pre, hpre, hentries⟩ := hinv.history committed hcommitted
      rw [funext hentries]
      exact hwalk pre hpre)
    (fun cs hcs => hmerged _ fun h => labelsOfChunks_subset hinv hbatch
      fun chunk hchunk => hcs.subset hchunk)
  simp only [labelsOfChunks_all hinv hbatch] at hcat₁
  -- the stale pointers
  have hperm := env.setOrder_perm w.seenHashes
  obtain ⟨hcat₂, hkept₂⟩ := relocations_spec now batch (env.setOrder w.seenHashes)
    (mapped_merged hinv)
    (fun h hh => ⟨mergedEntry_isSome hinv (hperm.mem_iff.mp hh),
      defensiveSkip_never hinv (hperm.mem_iff.mp hh)⟩) hcat₁ hkept₁ (by
      intro done hdone
      refine hlater _ fun h => ?_
      by_cases hh : h ∈ done
      · have hseen := hperm.mem_iff.mp (hdone hh)
        have hunderway := hrelocated h
        rw [relocatedEntry, if_pos hseen] at hunderway
        simpa [hh] using hunderway
      · rw [if_neg hh]
        exact merged_underway (le_refl _))
  have hcat₂' : ∀ h, catalogue ((env.setOrder w.seenHashes).foldl (relocate batch w now)
      ((chunks batch w.dupBcc.rows).foldl mergeChunk w.session.tick)).index.messages h =
        relocatedEntry reader index.messages files w h := by
    intro h
    rw [hcat₂, relocatedEntry]
    simp only [hperm.mem_iff]
  -- the deletions
  have hnames : ∀ h, h ∈ w.byHash.rows.map Prod.fst ↔
      (mergedEntry reader index.messages files h).isSome = true := by
    intro h
    have hkeys : h ∈ w.byHash.rows.map Prod.fst ↔ _ := Table.mem_keys (t := w.byHash)
    rw [hkeys, ← Option.isSome_iff_exists, mapped_merged hinv h, Option.isSome_map]
  have hunseen : ∀ h, h ∉ w.seenHashes → relocatedEntry reader index.messages files w h =
      mergedEntry reader index.messages files h := fun h hh => if_neg hh
  obtain ⟨hcat₃, hkept₃⟩ := deletions_spec now batch (w := w) w.byHash.rows
    (p := (_, 0)) (by
      intro entry hentry
      have hstored := Table.mem_rows.mp hentry
      rw [mapped_merged hinv] at hstored
      obtain ⟨e, he, hpair⟩ := Option.map_eq_some_iff.mp hstored
      refine ⟨?_, ?_⟩
      · unfold relocatedEntry
        split <;> simp [he]
      · intro hh hdead
        rw [hunseen _ hh, he, Option.map_some]
        rw [← hpair, Bool.not_eq_true'] at hdead
        exact congrArg some (Entry.ext rfl hdead.symm rfl))
    hcat₂' hkept₂ (by
      intro done hdone
      refine hlater _ fun h => ?_
      by_cases hh : h ∈ done ∧ h ∉ w.seenHashes
      · rw [if_pos hh]
        have hunderway := hrelocated h
        cases hentry : relocatedEntry reader index.messages files w h with
        | none => rwa [hentry] at hunderway
        | some e =>
            rw [hentry] at hunderway
            exact underway_live hunderway rfl rfl
      · rw [if_neg hh]
        exact hrelocated h)
  have hfinal : ∀ h, catalogue (softDeleted batch w now (relocated env batch w now
      (merged batch w))).index.messages h = reconcile (copies reader files)
        (refreshedCatalogue reader files index.messages) h := by
    intro h
    rw [← reconciled_entry hinv hconsistent]
    refine (hcat₃ h).trans ?_
    by_cases hh : h ∈ w.seenHashes
    · simp [hh]
    · by_cases hthere : h ∈ w.byHash.rows.map Prod.fst
      · rw [if_pos ⟨hthere, hh⟩, if_pos hh]
      · have hnone : relocatedEntry reader index.messages files w h = none := by
          rw [hunseen h hh, ← Option.not_isSome_iff_eq_none, ← hnames]
          exact hthere
        rw [if_neg fun hboth => hthere hboth.1, if_pos hh, hnone]
        rfl
  refine ⟨hfinal, Session.Kept.commit hkept₃ (hlater _ fun h => ?_)⟩
  rw [show (catalogue (Session.withStatus _ _).index.messages) h = _ from hfinal h]
  exact Underway.reconcileEntry _

end Run

/-! ## Exactness -/

/-- What a run promises: one row for every Message-Id ever seen, the live rows those of the
messages on disk, each pointing at one, and no pointer moved without need. -/
structure Exact (reader : Reader C H) (files : List (File C)) (before after : Table H MessageRow) :
    Prop where
  rows : ∀ h, (after.get? h).isSome = true ↔
    (before.get? h).isSome = true ∨ OnDisk reader files h
  alive : ∀ h, (∃ row, after.get? h = some row ∧ row.deletedAt = none) ↔ OnDisk reader files h
  pointer : ∀ h row, after.get? h = some row → row.deletedAt = none →
    ∃ f ∈ files, f.key = row.pointer ∧ f.hash reader = some h
  kept : ∀ h row row', before.get? h = some row → after.get? h = some row' →
    (∃ f ∈ files, f.key = row.pointer) → row'.pointer = row.pointer
  apart : ∀ h h' row row', after.get? h = some row → row.deletedAt = none →
    after.get? h' = some row' → row'.deletedAt = none → row.pointer = row'.pointer → h = h'

theorem refreshedCatalogue_sound (hconsistent : Consistent reader files rows) :
    Sound (copies reader files) (refreshedCatalogue reader files rows) := by
  have hrow : ∀ {h e}, refreshedCatalogue reader files rows h = some e →
      ∃ e', catalogue rows h = some e' ∧ e.place = e'.place := by
    intro h e he
    obtain ⟨row, hrow, rfl⟩ := Option.map_eq_some_iff.mp he
    exact ⟨row.entry, catalogue_eq_some.mpr ⟨row, hrow, rfl⟩, refreshed_place⟩
  refine ⟨fun he he' hplace => ?_, fun he hc hplace => ?_⟩
  · obtain ⟨e₁, he₁, hsame₁⟩ := hrow he
    obtain ⟨e₂, he₂, hsame₂⟩ := hrow he'
    exact hconsistent.sound.apart he₁ he₂ (hsame₁.symm.trans (hplace.trans hsame₂))
  · obtain ⟨e₁, he₁, hsame₁⟩ := hrow he
    exact hconsistent.sound.named he₁ hc (hplace.trans hsame₁)

theorem exact_of_reconciled {after : Table H MessageRow}
    (hconsistent : Consistent reader files rows)
    (hafter : ∀ h, catalogue after h =
      reconcile (copies reader files) (refreshedCatalogue reader files rows) h) :
    Exact reader files rows after := by
  have hsound := refreshedCatalogue_sound hconsistent
  have hentry : ∀ {h row}, after.get? h = some row →
      reconcile (copies reader files) (refreshedCatalogue reader files rows) h =
        some row.entry := by
    intro h row hrow
    rw [← hafter]
    exact catalogue_eq_some.mpr ⟨row, hrow, rfl⟩
  have hlive : ∀ {row : MessageRow}, row.deletedAt = none → row.entry.live = true := by
    intro row hnone
    simp [MessageRow.entry, hnone]
  have hisSome : ∀ h, (after.get? h).isSome = true ↔
      (rows.get? h).isSome = true ∨ OnDisk reader files h := by
    intro h
    have hcat : (catalogue after h).isSome = (after.get? h).isSome := Option.isSome_map
    rw [← hcat, hafter, reconcile_isSome, ← onDisk_iff, refreshedCatalogue, Option.isSome_map]
  refine ⟨hisSome, ?_, ?_, ?_, ?_⟩
  · intro h
    constructor
    · rintro ⟨row, hrow, hnone⟩
      exact onDisk_iff.mpr ((reconcile_live (hentry hrow)).mp (hlive hnone))
    · intro hdisk
      obtain ⟨row, hrow⟩ := Option.isSome_iff_exists.mp ((hisSome h).mpr (.inr hdisk))
      have halive := (reconcile_live (hentry hrow)).mpr (onDisk_iff.mp hdisk)
      exact ⟨row, hrow, by simpa [MessageRow.entry] using halive⟩
  · intro h row hrow hnone
    obtain ⟨c, hc, hplace, hname⟩ := reconcile_place hsound (hentry hrow) (hlive hnone)
    obtain ⟨f, hf, hcopy⟩ := List.mem_filterMap.mp hc
    obtain ⟨hkey, hhash⟩ := copyOf_eq_some hcopy
    exact ⟨f, hf, hkey.symm.trans hplace, hname ▸ hhash⟩
  · intro h row row' hrow hrow' hfile
    have hfound := (hconsistent.found_iff hrow).mpr hfile
    have hkeeps := reconcile_keeps (refreshedCatalogue_of_row hrow)
      (by rwa [refreshed_place]) (hentry hrow')
    rwa [refreshed_place] at hkeeps
  · intro h h' row row' hrow hnone hrow' hnone' hpointer
    exact reconcile_apart hsound (copies_distinct hconsistent.distinct) (hentry hrow)
      (hlive hnone) (hentry hrow') (hlive hnone') hpointer

/-- A mail that is a list of headers, and a digest that is the text itself. -/
def sampleReader : Reader (List (String × String)) String where
  get headers name := headers.lookup name
  getAll headers name := (headers.filter fun h => h.1 = name).map Prod.snd
  getaddresses texts := texts.map fun a => ("", a)
  parsedate _ := none
  getsize := List.length
  parseAttachments _ := some []
  sha1 := id

def sampleEnv : RunEnv String where
  clock n := n
  setOrder := id
  setOrder_perm := List.Perm.refl

def sampleDb : Db where
  accounts := ⟨[("a", { maildirPath := "/mail", storeId := "s" })], by decide⟩

def sampleWalk : String → List (Directory (List (String × String))) := fun _ =>
  [⟨[], []⟩, ⟨["Archive"], []⟩, ⟨["Archive", "cur"], [("2", some [("Message-Id", "<m>")])]⟩]

/-- The row still points into the inbox. -/
def sampleIndex : MailIndex String where
  messages := ⟨[("m", {
    messageId := "<m>", folderPath := "INBOX", maildirFilename := "1", firstSeenAt := 0,
    lastSeenAt := 0, recipientsIndexedAt := some 0 })], by decide⟩

theorem sample_consistent : Consistent sampleReader
    (walkMaildir "/mail" (sampleWalk "/mail")) sampleIndex.messages where
  readable := by decide
  distinct := by decide
  apart := by
    intro h h' row row' hrow hrow' _
    have hkey := Table.mem_rows.mpr hrow
    have hkey' := Table.mem_rows.mpr hrow'
    simp only [sampleIndex, List.mem_singleton, Prod.mk.injEq] at hkey hkey'
    rw [hkey.1, hkey'.1]
  named := by
    intro h row f hrow hf hkey
    have hrow' := Table.mem_rows.mpr hrow
    simp only [sampleIndex, List.mem_singleton, Prod.mk.injEq] at hrow'
    have hnone : ∀ f ∈ walkMaildir "/mail" (sampleWalk "/mail"), f.key ≠ ("INBOX", "1") := by
      decide
    rw [hrow'.2] at hkey
    exact absurd hkey (hnone f hf)

end MailFallback.Index
