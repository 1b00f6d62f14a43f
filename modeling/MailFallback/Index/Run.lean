import MailFallback.Index.Walk

/-! # The passes after the walk

The Bcc addresses of duplicate copies, the relocations and the deletions each change the
entries in one way, whatever batch a commit ends. -/

namespace MailFallback.Index

open Storage Catalogue

variable {C H : Type*} [DecidableEq H]

/-- Every commit left a catalogue of some kind. -/
def Session.Kept (Q : (H → Option (Entry Key String)) → Prop) (s : Session H) : Prop :=
  ∀ index ∈ s.committed, Q (catalogue index.messages)

variable {Q : (H → Option (Entry Key String)) → Prop} {s : Session H}
  {before : H → Option (Entry Key String)}

theorem Session.Kept.commit (h : s.Kept Q) (hnow : Q (catalogue s.index.messages)) :
    s.commit.Kept Q := by
  intro index hindex
  rcases List.mem_append.mp hindex with hindex | hindex
  · exact h index hindex
  · rw [List.mem_singleton.mp hindex]
    exact hnow

theorem Session.Kept.touch {batch : ℕ} (h : s.Kept Q) (hnow : Q (catalogue s.index.messages)) :
    (s.touch batch).Kept Q := by
  intro index hindex
  rcases Session.mem_touch hindex with hindex | rfl
  · exact h index hindex
  · exact hnow

/-! ## Bcc addresses -/

def addLabels (labels : Set String) (e : Entry Key String) : Entry Key String :=
  { e with labels := e.labels ∪ labels }

def chunkLabels (chunk : List (H × List String)) (h : H) : Set String :=
  {a | a ∈ (chunk.lookup h).getD []}

theorem mem_missingBcc {chunk : List (H × List String)} {h : H} {row : MessageRow} {a : String} :
    a ∈ missingBcc chunk h row ↔ a ∈ chunkLabels chunk h ∧ a ∉ row.bccAddrs.getD [] := by
  simp [missingBcc, chunkLabels, List.mem_insertionSort]

theorem mergeRow_entry (chunk : List (H × List String)) (h : H) (row : MessageRow) :
    (mergeRow chunk h row).entry = addLabels (chunkLabels chunk h) row.entry := by
  unfold mergeRow
  by_cases hmissing : missingBcc chunk h row = []
  · rw [if_pos hmissing]
    refine Entry.ext rfl rfl (Set.Subset.antisymm Set.subset_union_left ?_)
    refine Set.union_subset (le_refl _) fun a ha => ?_
    by_contra hnot
    have hmem := mem_missingBcc.mpr ⟨ha, hnot⟩
    rw [hmissing] at hmem
    cases hmem
  · rw [if_neg hmissing]
    refine Entry.ext rfl rfl (Set.ext fun a => ?_)
    simp only [MessageRow.entry, addLabels, Option.getD_some, Set.mem_ofPred_eq, List.mem_append,
      Set.mem_union, mem_missingBcc]
    tauto

theorem mergeChunk_catalogue (chunk : List (H × List String)) (h : H) :
    catalogue (mergeChunk s chunk).index.messages h =
      (catalogue s.index.messages h).map (addLabels (chunkLabels chunk h)) := by
  unfold catalogue mergeChunk Session.commit Session.withMessages
  simp only [Table.get?_map, Option.map_map]
  congr 1
  funext row
  exact mergeRow_entry chunk h row

theorem mem_chunks {α : Type*} {n : ℕ} (hn : 0 < n) {l : List α} {a : α} :
    (∃ chunk ∈ chunks n l, a ∈ chunk) ↔ a ∈ l := by
  constructor
  · rintro ⟨chunk, hchunk, ha⟩
    obtain ⟨i, -, rfl⟩ := List.mem_map.mp hchunk
    exact List.mem_of_mem_drop (List.mem_of_mem_take ha)
  · intro ha
    obtain ⟨k, hk, rfl⟩ := List.getElem_of_mem ha
    have hk' : k / n < (l.length + n - 1) / n := by
      rw [Nat.div_lt_iff_lt_mul hn]
      have hround := Nat.lt_div_mul_add hn (a := l.length + n - 1)
      omega
    refine ⟨(l.drop (k / n * n)).take n, List.mem_map.mpr ⟨k / n, List.mem_range.mpr hk', rfl⟩, ?_⟩
    have hmod := Nat.div_add_mod' k n
    have hlt := Nat.mod_lt k hn
    refine List.mem_iff_getElem.mpr ⟨k % n, ?_, ?_⟩
    · simp only [List.length_take, List.length_drop]
      omega
    · simp only [List.getElem_take, List.getElem_drop]
      congr 1

/-- The labels of some chunks. -/
def labelsOfChunks (cs : List (List (H × List String))) (h : H) : Set String :=
  {a | ∃ chunk ∈ cs, a ∈ chunkLabels chunk h}

theorem mergeChunks_spec (cs : List (List (H × List String)))
    (hbefore : ∀ h, catalogue s.index.messages h = before h) (hkept : s.Kept Q)
    (hQ : ∀ cs', cs' <+: cs →
      Q fun h => (before h).map (addLabels (labelsOfChunks cs' h))) :
    (∀ h, catalogue (cs.foldl mergeChunk s).index.messages h =
        (before h).map (addLabels (labelsOfChunks cs h))) ∧
      (cs.foldl mergeChunk s).Kept Q := by
  induction cs using List.reverseRecOn with
  | nil =>
      refine ⟨fun h => ?_, hkept⟩
      rw [List.foldl_nil, hbefore]
      cases before h with
      | none => rfl
      | some e => simp [addLabels, labelsOfChunks]
  | append_singleton cs chunk ih =>
      obtain ⟨hcatalogue, hkept'⟩ := ih fun cs' hcs' =>
        hQ cs' (hcs'.trans (List.prefix_append _ _))
      rw [List.foldl_append, List.foldl_cons, List.foldl_nil]
      have hnow : ∀ h, catalogue (mergeChunk (cs.foldl mergeChunk s) chunk).index.messages h =
          (before h).map (addLabels (labelsOfChunks (cs ++ [chunk]) h)) := by
        intro h
        rw [mergeChunk_catalogue, hcatalogue, Option.map_map]
        congr 1
        funext e
        refine Entry.ext rfl rfl (Set.ext fun a => ?_)
        simp only [addLabels, labelsOfChunks, Function.comp_apply, Set.mem_union, Set.mem_ofPred_eq,
          List.mem_append, List.mem_singleton, or_and_right, exists_or, exists_eq_left, or_assoc]
      refine ⟨hnow, Session.Kept.commit hkept' ?_⟩
      have hall := hQ (cs ++ [chunk]) List.prefix_rfl
      rw [← funext hnow] at hall
      exact hall

/-! ## Relocations -/

section Passes

variable {w : Walk H} {now : Time} {batch : ℕ}

theorem lawfulBEq_key : LawfulBEq Key := inferInstance

attribute [local instance] lawfulBEq_key

/-- What a relocation makes of an entry. -/
def relocateEntry (w : Walk H) (h : H) (e : Entry Key String) : Entry Key String :=
  ⟨if e.place ∈ w.seenFiles then e.place else (w.relocations.get? h).getD e.place, true, e.labels⟩

/-- The map of the walk says where an entry points and whether it is live. -/
def Mapped (w : Walk H) (before : H → Option (Entry Key String)) : Prop :=
  ∀ h, w.byHash.get? h = (before h).map fun e => (e.place, !e.live)

theorem relocate_catalogue (hmapped : Mapped w before) {h : H} (hthere : (before h).isSome = true)
    (hskip : defensiveSkip w h = false)
    (hnow : catalogue s.index.messages h = before h ∨
      catalogue s.index.messages h = (before h).map (relocateEntry w h)) (h' : H) :
    catalogue (relocate batch w now s h).index.messages h' =
      if h' = h then (before h).map (relocateEntry w h) else catalogue s.index.messages h' := by
  obtain ⟨e, he⟩ := Option.isSome_iff_exists.mp hthere
  have hstored : w.byHash.get? h = some (e.place, !e.live) := by rw [hmapped, he]; rfl
  rw [he, Option.map_some] at hnow
  rw [he, Option.map_some]
  unfold relocate
  simp only [hstored, hskip, Bool.false_eq_true, if_false, List.contains_eq_mem]
  by_cases hchange : (!decide (e.place ∈ w.seenFiles) || !e.live) = true
  · have hsome : (s.index.messages.get? h).isSome = true := by
      have hcat : (catalogue s.index.messages h).isSome = true := by
        rcases hnow with hnow | hnow <;> rw [hnow] <;> rfl
      simpa [catalogue] using hcat
    obtain ⟨row, hrow⟩ := Option.isSome_iff_exists.mp hsome
    simp only [hchange, if_true, hrow, Session.touch_index, Session.withMessages]
    rw [catalogue_modify fun e' =>
      ⟨if e.place ∈ w.seenFiles then e'.place else (w.relocations.get? h).getD e.place, true,
        e'.labels⟩]
    · by_cases hname : h' = h
      · subst hname
        rw [if_pos rfl, if_pos rfl]
        rcases hnow with hnow | hnow <;> rw [hnow, Option.map_some] <;>
          by_cases hseen : e.place ∈ w.seenFiles <;> simp [relocateEntry, hseen]
      · rw [if_neg hname, if_neg hname]
    · intro row'
      by_cases hseen : e.place ∈ w.seenFiles <;>
        simp [MessageRow.entry, MessageRow.pointer, hseen]
  · simp only [Bool.not_eq_true, Bool.or_eq_false_iff, Bool.not_eq_false', decide_eq_true_eq]
      at hchange
    have hsame : relocateEntry w h e = e := by
      refine Entry.ext ?_ hchange.2.symm rfl
      simp [relocateEntry, hchange.1]
    rw [hsame]
    simp only [hchange.1, hchange.2, decide_true, Bool.not_true, Bool.or_self, Bool.false_eq_true,
      if_false]
    by_cases hname : h' = h
    · subst hname
      rw [if_pos rfl]
      rcases hnow with hnow | hnow
      · exact hnow
      · rw [hnow, hsame]
    · rw [if_neg hname]

theorem relocate_kept {h : H} (hkept : s.Kept Q)
    (hnow : Q (catalogue (relocate batch w now s h).index.messages)) :
    (relocate batch w now s h).Kept Q := by
  revert hnow
  unfold relocate
  split
  · exact fun _ => hkept
  · dsimp only
    split
    · exact fun _ => hkept
    · split
      · split
        · exact fun _ => hkept
        · rw [Session.touch_index]
          exact fun hnow => Session.Kept.touch hkept hnow
      · exact fun _ => hkept

variable (batch now) in
theorem relocations_spec (names : List H) (hmapped : Mapped w before)
    (hthere : ∀ h ∈ names, (before h).isSome = true ∧ defensiveSkip w h = false)
    (hbefore : ∀ h, catalogue s.index.messages h = before h) (hkept : s.Kept Q)
    (hQ : ∀ done : List H, done ⊆ names →
      Q fun h => if h ∈ done then (before h).map (relocateEntry w h) else before h) :
    (∀ h, catalogue (names.foldl (relocate batch w now) s).index.messages h =
        if h ∈ names then (before h).map (relocateEntry w h) else before h) ∧
      (names.foldl (relocate batch w now) s).Kept Q := by
  induction names using List.reverseRecOn with
  | nil => exact ⟨by simpa using hbefore, hkept⟩
  | append_singleton names h ih =>
      obtain ⟨hcatalogue, hkept'⟩ := ih
        (fun h hh => hthere h (List.mem_append_left _ hh))
        (fun done hdone => hQ done (List.subset_append_of_subset_left _ hdone))
      rw [List.foldl_append, List.foldl_cons, List.foldl_nil]
      have hname := hthere h (by simp)
      have hnow : ∀ h', catalogue
          (relocate batch w now (names.foldl (relocate batch w now) s) h).index.messages h' =
            if h' ∈ names ++ [h] then (before h').map (relocateEntry w h') else before h' := by
        intro h'
        rw [relocate_catalogue hmapped hname.1 hname.2]
        · by_cases heq : h' = h
          · subst heq
            simp
          · simp [heq, hcatalogue]
        · rw [hcatalogue]
          by_cases hmem : h ∈ names <;> simp [hmem]
      refine ⟨hnow, relocate_kept hkept' ?_⟩
      have hall := hQ (names ++ [h]) (List.Subset.refl _)
      rw [← funext hnow] at hall
      exact hall

/-! ## Deletions -/

def dieEntry (e : Entry Key String) : Entry Key String := { e with live := false }

variable (before) in
theorem softDelete_catalogue {p : Session H × ℕ} {h : H} {key : Key} {dead : Bool}
    (hnow : catalogue p.1.index.messages h = before h ∨
      catalogue p.1.index.messages h = (before h).map dieEntry)
    (hdead : h ∉ w.seenHashes → dead = true → (before h).map dieEntry = before h)
    (hthere : (before h).isSome = true) (h' : H) :
    catalogue (softDelete batch w now p (h, key, dead)).1.index.messages h' =
      if h' = h ∧ h ∉ w.seenHashes then (before h).map dieEntry
      else catalogue p.1.index.messages h' := by
  obtain ⟨s, deletedInBatch⟩ := p
  unfold softDelete
  simp only [List.contains_eq_mem] at hnow ⊢
  by_cases hseen : h ∈ w.seenHashes
  · simp [hseen]
  · simp only [hseen, decide_false, Bool.or_false, not_false_eq_true, and_true]
    by_cases hdead' : dead = true
    · rw [if_pos hdead']
      by_cases hname : h' = h
      · subst hname
        rw [if_pos rfl, hdead hseen hdead']
        rcases hnow with hnow | hnow
        · exact hnow
        · rw [hnow, hdead hseen hdead']
      · rw [if_neg hname]
    · rw [if_neg hdead']
      have hsome : (s.index.messages.get? h).isSome = true := by
        have hcat : (catalogue s.index.messages h).isSome = true := by
          rcases hnow with hnow | hnow <;> rw [hnow] <;> simpa using hthere
        simpa [catalogue] using hcat
      obtain ⟨row, hrow⟩ := Option.isSome_iff_exists.mp hsome
      simp only [hrow]
      have hmessages : ∀ t : Session H, (if (deletedInBatch + 1) % batch = 0 then t.commit
          else t).index.messages = t.index.messages := by
        intro t
        split <;> rfl
      rw [hmessages]
      simp only [Session.withMessages]
      rw [catalogue_modify dieEntry fun row' => rfl]
      by_cases hname : h' = h
      · subst hname
        rw [if_pos rfl, if_pos rfl]
        rcases hnow with hnow | hnow <;> rw [hnow]
        rw [Option.map_map]
        rfl
      · rw [if_neg hname, if_neg hname]

theorem softDelete_kept {p : Session H × ℕ} {entry : H × Key × Bool} (hkept : p.1.Kept Q)
    (hnow : Q (catalogue (softDelete batch w now p entry).1.index.messages)) :
    (softDelete batch w now p entry).1.Kept Q := by
  revert hnow
  obtain ⟨s, deletedInBatch⟩ := p
  unfold softDelete
  dsimp only
  split
  · exact fun _ => hkept
  · split
    · exact fun _ => hkept
    · dsimp only
      split
      · exact fun hnow => Session.Kept.commit hkept hnow
      · exact fun _ => hkept

variable (batch now) in
theorem deletions_spec (entries : List (H × Key × Bool)) {p : Session H × ℕ}
    (hentries : ∀ entry ∈ entries, (before entry.1).isSome = true ∧
      (entry.1 ∉ w.seenHashes → entry.2.2 = true → (before entry.1).map dieEntry = before entry.1))
    (hbefore : ∀ h, catalogue p.1.index.messages h = before h) (hkept : p.1.Kept Q)
    (hQ : ∀ done : List H, done ⊆ entries.map Prod.fst → Q fun h =>
      if h ∈ done ∧ h ∉ w.seenHashes then (before h).map dieEntry else before h) :
    (∀ h, catalogue (entries.foldl (softDelete batch w now) p).1.index.messages h =
        if h ∈ entries.map Prod.fst ∧ h ∉ w.seenHashes then (before h).map dieEntry
        else before h) ∧
      (entries.foldl (softDelete batch w now) p).1.Kept Q := by
  induction entries using List.reverseRecOn with
  | nil => exact ⟨by simpa using hbefore, hkept⟩
  | append_singleton entries entry ih =>
      obtain ⟨h, key, dead⟩ := entry
      obtain ⟨hcatalogue, hkept'⟩ := ih
        (fun entry hentry => hentries entry (List.mem_append_left _ hentry))
        (fun done hdone => hQ done (by
          rw [List.map_append]
          exact List.subset_append_of_subset_left _ hdone))
      rw [List.foldl_append, List.foldl_cons, List.foldl_nil]
      obtain ⟨hthere, hdead⟩ := hentries (h, key, dead) (by simp)
      have hnow : ∀ h', catalogue (softDelete batch w now
          (entries.foldl (softDelete batch w now) p) (h, key, dead)).1.index.messages h' =
            if h' ∈ (entries ++ [(h, key, dead)]).map Prod.fst ∧ h' ∉ w.seenHashes then
              (before h').map dieEntry
            else before h' := by
        intro h'
        rw [softDelete_catalogue before _ hdead hthere]
        · by_cases heq : h' = h
          · subst heq
            by_cases hseen : h' ∈ w.seenHashes
            · simp [hseen, hcatalogue]
            · simp [hseen]
          · have hnames : h' ∈ (entries ++ [(h, key, dead)]).map Prod.fst ↔
                h' ∈ entries.map Prod.fst := by
              rw [List.map_append, List.mem_append]
              simp [heq]
            simp only [heq, false_and, if_false, hcatalogue, hnames]
        · rw [hcatalogue]
          by_cases hmem : h ∈ entries.map Prod.fst ∧ h ∉ w.seenHashes
          · exact .inr (if_pos hmem)
          · exact .inl (if_neg hmem)
      refine ⟨hnow, softDelete_kept hkept' ?_⟩
      have hall := hQ ((entries ++ [(h, key, dead)]).map Prod.fst) (List.Subset.refl _)
      rw [← funext hnow] at hall
      exact hall

end Passes

end MailFallback.Index
