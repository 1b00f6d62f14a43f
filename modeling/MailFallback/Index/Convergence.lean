import MailFallback.Index.Exactness

/-! # Runs converge

A second run finds nothing to do, and a run that was killed is finished by the next one. -/

namespace MailFallback.Index

open Storage Catalogue

variable {C H : Type*} [DecidableEq H] {reader : Reader C H} {env : RunEnv H} {batch : ℕ}
  {rows : Table H MessageRow} {pre files : List (File C)} {f : File C} {w : Walk H}
  {s : Session H} {index : MailIndex H} {h : H}

/-- No row is from before Cc and Bcc were indexed. -/
def Indexed (rows : Table H MessageRow) : Prop :=
  ∀ h row, rows.get? h = some row → row.recipientsIndexedAt ≠ none

variable (reader files) in
theorem refreshedCatalogue_of_indexed (hindexed : Indexed rows) :
    refreshedCatalogue reader files rows = catalogue rows := by
  funext h
  unfold refreshedCatalogue catalogue
  cases hrow : rows.get? h with
  | none => rfl
  | some row => simp [refreshed_of_indexed (hindexed h row hrow)]

/-! ## Rows stay indexed -/

theorem Indexed.modify {name : H} {change : MessageRow → MessageRow} (hindexed : Indexed rows)
    (hchange : ∀ row, row.recipientsIndexedAt ≠ none → (change row).recipientsIndexedAt ≠ none) :
    Indexed (rows.modify name change) := by
  intro h row hrow
  rw [Table.get?_modify] at hrow
  by_cases hname : h = name
  · rw [if_pos hname, Option.map_eq_some_iff] at hrow
    obtain ⟨row', hrow', rfl⟩ := hrow
    exact hchange row' (hindexed h row' hrow')
  · rw [if_neg hname] at hrow
    exact hindexed h row hrow

theorem Indexed.set {name : H} {new : MessageRow} (hindexed : Indexed rows)
    (hnew : new.recipientsIndexedAt ≠ none) : Indexed (rows.set name new) := by
  intro h row hrow
  rw [Table.get?_set] at hrow
  by_cases hname : h = name
  · rw [if_pos hname] at hrow
    obtain rfl := Option.some.inj hrow
    exact hnew
  · rw [if_neg hname] at hrow
    exact hindexed h row hrow

/-- The session sees indexed rows, and every commit left such. -/
structure AllIndexed (s : Session H) : Prop where
  now : Indexed s.index.messages
  committed : ∀ index ∈ s.committed, Indexed index.messages

theorem AllIndexed.commit (hall : AllIndexed s) : AllIndexed s.commit where
  now := hall.now
  committed := by
    intro index hindex
    rcases List.mem_append.mp hindex with hindex | hindex
    · exact hall.committed index hindex
    · rw [List.mem_singleton.mp hindex]
      exact hall.now

theorem AllIndexed.touch (hall : AllIndexed s) : AllIndexed (s.touch batch) where
  now := by
    rw [Session.touch_index]
    exact hall.now
  committed := by
    intro index hindex
    rcases Session.mem_touch hindex with hindex | rfl
    · exact hall.committed index hindex
    · exact hall.now

theorem AllIndexed.withMessages (hall : AllIndexed s) (hrows : Indexed rows) :
    AllIndexed (s.withMessages rows) where
  now := hrows
  committed := hall.committed

theorem AllIndexed.walkFile (hall : AllIndexed w.session) :
    AllIndexed (walkFile reader env batch w f).session := by
  unfold Index.walkFile
  dsimp only
  split
  · unfold meetKnown
    dsimp only
    split
    · split
      · exact hall
      · refine AllIndexed.touch (AllIndexed.withMessages ⟨hall.now, hall.committed⟩ ?_)
        exact hall.now.modify fun _ _ => by simp
    · exact hall
  · split
    · exact hall
    · split
      · exact hall
      · exact AllIndexed.touch ⟨hall.now.set (by simp [newRow]), hall.committed⟩

theorem AllIndexed.mergeChunk {chunk : List (H × List String)} (hall : AllIndexed s) :
    AllIndexed (mergeChunk s chunk) := by
  refine AllIndexed.commit ⟨fun h row hrow => ?_, hall.committed⟩
  change (s.index.messages.map (mergeRow chunk)).get? h = some row at hrow
  rw [Table.get?_map, Option.map_eq_some_iff] at hrow
  obtain ⟨row', hrow', rfl⟩ := hrow
  unfold mergeRow
  split <;> exact hall.now h row' hrow'

theorem AllIndexed.relocate {now : Time} (hall : AllIndexed s) :
    AllIndexed (relocate batch w now s h) := by
  unfold Index.relocate
  split
  · exact hall
  · dsimp only
    split
    · exact hall
    · split
      · split
        · exact hall
        · exact AllIndexed.touch (hall.withMessages (hall.now.modify fun _ hrow => hrow))
      · exact hall

theorem AllIndexed.softDelete {now : Time} {p : Session H × ℕ} {entry : H × Key × Bool}
    (hall : AllIndexed p.1) : AllIndexed (softDelete batch w now p entry).1 := by
  obtain ⟨s, deletedInBatch⟩ := p
  unfold Index.softDelete
  dsimp only
  split
  · exact hall
  · split
    · exact hall
    · have hmodified : AllIndexed (s.withMessages (s.index.messages.modify entry.1 fun row =>
          { row with deletedAt := some now, lastSeenAt := now })) :=
        hall.withMessages (hall.now.modify fun _ hrow => hrow)
      dsimp only
      split
      · exact AllIndexed.commit ⟨hmodified.now, hmodified.committed⟩
      · exact ⟨hmodified.now, hmodified.committed⟩

theorem startWalk_session : (startWalk index).session = startSession index := by
  have hfold : ∀ (l : List (H × MessageRow)) (w : Walk H),
      (l.foldl readRow w).session = w.session := by
    intro l
    induction l with
    | nil => intro w; rfl
    | cons row l ih => intro w; exact ih (readRow w row)
  exact hfold _ _

theorem AllIndexed.run (hindexed : Indexed index.messages) :
    AllIndexed (reconcileMaildir reader env batch files index) := by
  have hwalked : AllIndexed (walked reader env batch files index).session := by
    refine List.foldlRecOn (motive := fun w => AllIndexed (Walk.session w)) files _ ?_
      fun w hall f _ => hall.walkFile
    rw [startWalk_session]
    exact AllIndexed.commit ⟨hindexed, fun _ hindex => absurd hindex List.not_mem_nil⟩
  unfold reconcileMaildir
  dsimp only
  generalize walked reader env batch files index = w at hwalked ⊢
  have hmerged : AllIndexed (merged batch w) :=
    List.foldlRecOn (motive := AllIndexed) _ _ ⟨hwalked.now, hwalked.committed⟩
      fun _ hall _ _ => hall.mergeChunk
  have hrelocated : AllIndexed (relocated env batch w (w.session.now env) (merged batch w)) :=
    List.foldlRecOn (motive := AllIndexed) _ _ hmerged fun _ hall _ _ => hall.relocate
  have hdeleted : AllIndexed (softDeleted batch w (w.session.now env)
      (relocated env batch w (w.session.now env) (merged batch w))) :=
    List.foldlRecOn (motive := fun p : Session H × ℕ => AllIndexed p.1) _ _ hrelocated
      fun _ hall _ _ => hall.softDelete
  exact AllIndexed.commit ⟨hdeleted.now, hdeleted.committed⟩

/-! ## A run with nothing to do -/

/-- The rows say what the disk says. -/
structure Settled (reader : Reader C H) (files : List (File C)) (rows : Table H MessageRow) :
    Prop where
  indexed : Indexed rows
  found : ∀ c ∈ copies reader files, ∃ row, rows.get? c.name = some row ∧ row.deletedAt = none ∧
    ∃ f ∈ files, f.key = row.pointer
  gone : ∀ h row, rows.get? h = some row → (∀ c ∈ copies reader files, c.name ≠ h) →
    row.deletedAt ≠ none
  merged : ∀ h row, rows.get? h = some row →
    ∀ a ∈ labelsBeside (copies reader files) h row.pointer, a ∈ row.bccAddrs.getD []

/-- The rows were not written, and nothing was counted. -/
structure Quiet (index : MailIndex H) (s : Session H) : Prop where
  messages : s.index.messages = index.messages
  attachments : s.index.attachments = index.attachments
  touched : s.touched = 0
  committed : ∀ later ∈ s.committed, later.messages = index.messages ∧
    later.attachments = index.attachments

omit [DecidableEq H] in
theorem Quiet.commit (hquiet : Quiet index s) : Quiet index s.commit where
  messages := hquiet.messages
  attachments := hquiet.attachments
  touched := hquiet.touched
  committed := by
    intro later hlater
    rcases List.mem_append.mp hlater with hlater | hlater
    · exact hquiet.committed later hlater
    · rw [List.mem_singleton.mp hlater]
      exact ⟨hquiet.messages, hquiet.attachments⟩

section Quiet

variable (hsettled : Settled reader files rows) (hconsistent : Consistent reader files rows)

include hsettled hconsistent

variable (env batch) in
theorem walkFile_quiet (hpre : pre ++ [f] <+: files) (hinv : WalkInv reader rows pre w) :
    (walkFile reader env batch w f).session = w.session := by
  have hconsistent' := hconsistent.sub_prefix hpre
  unfold walkFile
  dsimp only
  cases hknown : w.byFile.get? f.key with
  | some known =>
      have hpending : known ∉ w.recipientsPending := by
        intro hmem
        obtain ⟨row, hrow, hnone, -⟩ := (hinv.pending known).mp hmem
        exact hsettled.indexed known row hrow hnone
      simp [meetKnown, hpending]
  | none =>
      cases hparsed : parseHeaders reader f.content with
      | none => rfl
      | some parsed =>
          have hmem : parsed.copy f ∈ copies reader files :=
            List.mem_filterMap.mpr ⟨f, hpre.subset (by simp), copyOf_some hparsed⟩
          obtain ⟨row, hrow, -⟩ := hsettled.found _ hmem
          have hthere : (w.byHash.get? parsed.messageIdHash).isSome = true := by
            have hentry : entryAfter reader rows pre parsed.messageIdHash = _ :=
              entryAfter_of_row hrow
            rw [hinv.byHash, hentry]
            rfl
          simp only [hthere, if_true]
          rfl

variable (env batch) in
theorem walked_quiet {index : MailIndex H} (hrows : index.messages = rows) :
    (walked reader env batch files index).session = startSession index := by
  subst hrows
  have hprefix : ∀ pre, pre <+: files →
      (walked reader env batch pre index).session = startSession index := by
    intro pre
    induction pre using List.reverseRecOn with
    | nil => exact fun _ => startWalk_session
    | append_singleton pre f ih =>
        intro hpre
        have hbefore := (List.prefix_append pre [f]).trans hpre
        have hinv := walked_inv env batch (hconsistent.sub_prefix hbefore)
        have hstep := walkFile_quiet env batch hsettled hconsistent hpre hinv
        rw [walked, List.foldl_append]
        exact hstep.trans (ih hbefore)
  exact hprefix files List.prefix_rfl

omit hconsistent in
theorem mergeChunk_quiet (hbatch : 0 < batch) (hinv : WalkInv reader rows files w)
    {chunk : List (H × List String)} (hchunk : chunk ∈ chunks batch w.dupBcc.rows)
    (hrows : index.messages = rows) (hquiet : Quiet index s) :
    Quiet index (mergeChunk s chunk) := by
  have hmissing : ∀ h row, rows.get? h = some row → missingBcc chunk h row = [] := by
    intro h row hrow
    refine List.eq_nil_iff_forall_not_mem.mpr fun a ha => ?_
    obtain ⟨hlabel, hnot⟩ := mem_missingBcc.mp ha
    have hchunks : ∀ c ∈ [chunk], c ∈ chunks batch w.dupBcc.rows := by simpa using hchunk
    have hbeside : a ∈ besideLabels reader rows files h :=
      labelsOfChunks_subset hinv hbatch hchunks ⟨chunk, by simp, hlabel⟩
    rw [besideLabels_eq (placeAfter_of_row hrow)] at hbeside
    exact hnot (hsettled.merged h row hrow a hbeside)
  have hsame : s.index.messages = rows := hquiet.messages.trans hrows
  have hmap : s.index.messages.map (mergeRow chunk) = s.index.messages := by
    refine Table.map_eq_self fun h row hrow => ?_
    rw [hsame] at hrow
    simp [mergeRow, hmissing h row hrow]
  have hnone : (s.index.messages.rows.filter fun row =>
      !(missingBcc chunk row.1 row.2).isEmpty) = [] := by
    refine List.filter_eq_nil_iff.mpr fun row hrow => ?_
    have hrow' := Table.mem_rows.mp hrow
    rw [hsame] at hrow'
    simp [hmissing row.1 row.2 hrow']
  unfold mergeChunk
  dsimp only
  rw [hmap, hnone]
  exact Quiet.commit ⟨hquiet.messages, hquiet.attachments, hquiet.touched, hquiet.committed⟩

omit hconsistent in
theorem relocate_quiet {now : Time} (hinv : WalkInv reader rows files w)
    (hseen : h ∈ w.seenHashes) : relocate batch w now s h = s := by
  obtain ⟨c, hc, rfl⟩ := (hinv.seenHashes h).mp hseen
  obtain ⟨row, hrow, hnone, hfile⟩ := hsettled.found c hc
  have hstored : w.byHash.get? c.name = some (row.pointer, false) := by
    rw [hinv.byHash, entryAfter_of_row hrow]
    simp [hnone]
  have hthere : row.pointer ∈ w.seenFiles := (hinv.seenFiles _).mpr hfile
  unfold relocate
  simp [hstored, hthere]

omit hconsistent in
theorem softDelete_quiet {now : Time} {p : Session H × ℕ} (hinv : WalkInv reader rows files w)
    {entry : H × Key × Bool} (hentry : entry ∈ w.byHash.rows) :
    softDelete batch w now p entry = p := by
  obtain ⟨h, key, dead⟩ := entry
  obtain ⟨s, deletedInBatch⟩ := p
  unfold softDelete
  by_cases hseen : h ∈ w.seenHashes
  · simp [hseen]
  · have hstored := Table.mem_rows.mp hentry
    have hnone : ∀ c ∈ copies reader files, c.name ≠ h := by
      intro c hc hname
      exact hseen ((hinv.seenHashes h).mpr ⟨c, hc, hname⟩)
    rw [hinv.byHash, Option.map_eq_some_iff] at hstored
    obtain ⟨e, he, hpair⟩ := hstored
    cases hrow : rows.get? h with
    | none =>
        rw [entryAfter_of_none hrow, Option.map_eq_some_iff] at he
        obtain ⟨c, hc, -⟩ := he
        exact absurd (first_some hc).2 (hnone c (first_some hc).1)
    | some row =>
        rw [entryAfter_of_row hrow] at he
        obtain rfl := Option.some.inj he
        have hdead : dead = true := by
          have hdeleted := hsettled.gone h row hrow hnone
          rw [refreshed_live] at hpair
          have hlast := (Prod.mk.inj hpair).2
          rw [← hlast]
          simpa [Option.isSome_iff_ne_none] using hdeleted
        simp [hdead]

theorem run_quiet (hbatch : 0 < batch) (hrows : index.messages = rows) :
    Quiet index (reconcileMaildir reader env batch files index) := by
  have hinv : WalkInv reader rows files (walked reader env batch files index) := by
    subst hrows
    exact walked_inv env batch hconsistent
  have hsession := walked_quiet env batch hsettled hconsistent hrows
  unfold reconcileMaildir
  dsimp only
  generalize walked reader env batch files index = w at hinv hsession ⊢
  generalize w.session.now env = now
  have hstart : Quiet index w.session.tick := by
    rw [hsession]
    refine ⟨rfl, rfl, rfl, fun later hlater => ?_⟩
    rw [List.mem_singleton.mp hlater]
    exact ⟨rfl, rfl⟩
  have hmerged : Quiet index (merged batch w) :=
    List.foldlRecOn (motive := Quiet index) _ _ hstart fun s hquiet chunk hchunk =>
      mergeChunk_quiet hsettled hbatch hinv hchunk hrows hquiet
  have hrelocated : relocated env batch w now (merged batch w) = merged batch w :=
    List.foldlRecOn (motive := fun s => s = merged batch w) _ _ rfl fun s hsame h hh => by
      rw [hsame]
      exact relocate_quiet hsettled hinv ((env.setOrder_perm w.seenHashes).mem_iff.mp hh)
  have hdeleted : softDeleted batch w now (merged batch w) = merged batch w :=
    List.foldlRecOn (motive := fun p : Session H × ℕ => p.1 = merged batch w) w.byHash.rows _ rfl
      fun p hsame entry hentry => by
        rw [softDelete_quiet hsettled hinv hentry]
        exact hsame
  rw [hrelocated, hdeleted]
  exact Quiet.commit ⟨hmerged.messages, hmerged.attachments, hmerged.touched, hmerged.committed⟩

end Quiet

/-! ## Convergence -/

theorem settled_of_reconciled {after : Table H MessageRow}
    (hconsistent : Consistent reader files rows) (hindexed : Indexed rows)
    (hindexed' : Indexed after)
    (hafter : ∀ h, catalogue after h = reconcile (copies reader files) (catalogue rows) h) :
    Settled reader files after := by
  rw [← refreshedCatalogue_of_indexed reader files hindexed] at hafter
  have hexact := exact_of_reconciled hconsistent hafter
  have hdistinct : ((copies reader files).map Copy.place).Nodup :=
    copies_distinct hconsistent.distinct
  refine ⟨hindexed', ?_, ?_, ?_⟩
  · intro c hc
    obtain ⟨row, hrow, hnone⟩ := (hexact.alive c.name).mpr (onDisk_iff.mpr ⟨c, hc, rfl⟩)
    obtain ⟨f, hf, hkey, -⟩ := hexact.pointer c.name row hrow hnone
    exact ⟨row, hrow, hnone, f, hf, hkey⟩
  · intro h row hrow hnot hnone
    obtain ⟨c, hc, hname⟩ := onDisk_iff.mp ((hexact.alive h).mp ⟨row, hrow, hnone⟩)
    exact hnot c hc hname
  · intro h row hrow a ha
    -- Reconciling once more adds no label, and it adds those beside the pointer.
    have hagain : reconcile (copies reader files) (reconcile (copies reader files)
        (refreshedCatalogue reader files rows)) h = _ := congrFun (reconcile_idem hdistinct) h
    have hentry : reconcile (copies reader files) (refreshedCatalogue reader files rows) h =
        some row.entry := (hafter h).symm.trans (catalogue_eq_some.mpr ⟨row, hrow, rfl⟩)
    rw [hentry, reconcile, hentry] at hagain
    cases hfirst : first (copies reader files) h with
    | none =>
        rw [labelsBeside_of_none hfirst] at ha
        exact absurd ha (Set.notMem_empty a)
    | some c =>
        simp only [reconcileEntry, hfirst, Option.some.injEq] at hagain
        have hlabels := congrArg Entry.labels hagain
        have hmem : a ∈ row.entry.labels ∪ labelsBeside (copies reader files) h row.pointer :=
          .inr ha
        rw [show row.entry.labels ∪ labelsBeside (copies reader files) h row.pointer =
          row.entry.labels from hlabels] at hmem
        exact hmem

section Runs

variable {env' : RunEnv H}

variable (env) in
theorem run_catalogue (hbatch : 0 < batch) (hconsistent : Consistent reader files index.messages)
    (hindexed : Indexed index.messages) (h : H) :
    catalogue (reconcileMaildir reader env batch files index).index.messages h =
      reconcile (copies reader files) (catalogue index.messages) h := by
  rw [← refreshedCatalogue_of_indexed reader files hindexed]
  exact (run_spec (Q := fun _ => True) env batch hbatch hconsistent (fun _ _ => trivial)
    fun _ _ => trivial).1 h

/-- What a commit left is on its way to what the run leaves. -/
theorem run_committed (hbatch : 0 < batch) (hconsistent : Consistent reader files index.messages)
    (hindexed : Indexed index.messages) {killed : MailIndex H}
    (hkilled : killed ∈ (reconcileMaildir reader env batch files index).committed) (h : H) :
    Underway (copies reader files) h (catalogue index.messages h) (catalogue killed.messages h) := by
  have hkept := (run_spec env batch hbatch hconsistent
    (Q := fun later => ∀ h, Underway (copies reader files) h (catalogue index.messages h) (later h))
    (fun pre hpre h => entryAfter_underway hpre hindexed h) fun later hlater h => by
      rw [← refreshedCatalogue_of_indexed reader files hindexed]
      exact hlater h).2
  exact hkept killed hkilled h

variable (env env') in
theorem second_run_quiet (hbatch : 0 < batch)
    (hconsistent : Consistent reader files index.messages) (hindexed : Indexed index.messages) :
    Quiet (reconcileMaildir reader env batch files index).index
      (reconcileMaildir reader env' batch files
        (reconcileMaildir reader env batch files index).index) := by
  have hafter := run_catalogue env hbatch hconsistent hindexed
  have hall : AllIndexed (reconcileMaildir reader env batch files index) := AllIndexed.run hindexed
  have hunderway : ∀ h, Underway (copies reader files) h (catalogue index.messages h)
      (catalogue (reconcileMaildir reader env batch files index).index.messages h) := by
    intro h
    rw [hafter]
    exact Underway.reconcileEntry _
  exact run_quiet (settled_of_reconciled hconsistent hindexed hall.now hafter)
    (hconsistent.underway hunderway) hbatch rfl

theorem resumed_run (hbatch : 0 < batch) (hconsistent : Consistent reader files index.messages)
    (hindexed : Indexed index.messages) {killed : MailIndex H}
    (hkilled : killed ∈ (reconcileMaildir reader env batch files index).committed) (h : H) :
    catalogue (reconcileMaildir reader env' batch files killed).index.messages h =
      reconcile (copies reader files) (catalogue index.messages) h := by
  have hunderway := run_committed hbatch hconsistent hindexed hkilled
  have hindexed' := (AllIndexed.run hindexed).committed killed hkilled
  rw [run_catalogue env' hbatch (hconsistent.underway hunderway) hindexed',
    reconcile_underway (copies_distinct hconsistent.distinct) hunderway]

end Runs

end MailFallback.Index
