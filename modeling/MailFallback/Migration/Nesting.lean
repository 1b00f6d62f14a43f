import MailFallback.Migration.Completeness

/-! # Copies between directories that may lie in each other

A copy into its own source never ends. For every other pair of directories the outcome of
the verification is decided by the disk before the copy. -/

namespace MailFallback

open Storage Posix Effects Job

variable {P : Db → Prop} {s : Host} {d d' : Files} {q source dest : Path} {migrationId : Id}
  {limit : ℕ}

/-! ## Copies into their own source -/

/-- Each level of the copy meets the directory that it has just made. -/
theorem copyTree_inside {progress : ℕ → ℕ → Job Unit} (n : ℕ) (source : Path) {r : Path}
    (hr : r ≠ []) (counter : ℕ × ℕ) (s : Host) :
    Safe hostStep ⟨fun _ => True, fun _ _ => True⟩ (fun _ _ => False) (fun _ _ => True)
      (copyTree progress n source (source ++ r) counter) s := by
  induction n generalizing source r counter s with
  | zero => exact ⟨trivial, trivial⟩
  | succ n ih =>
      obtain ⟨x, r, rfl⟩ := List.exists_cons_of_ne_nil hr
      apply Safe.bind
      refine (makedirs_spec (source ++ x :: r) s).mono (fun _ _ => trivial) (fun _ _ _ => trivial)
        ?_ (fun _ _ _ _ => trivial)
      rintro _ t - hdest
      apply Safe.bind
      refine (scandir_spec trivial trivial).post ?_ (fun _ _ _ _ => trivial)
      rintro entries t' - ⟨rfl, hlisted⟩
      have hmem : (x, true) ∈ entries := by
        refine hlisted.mem.mpr ⟨.dir, ?_, by simp⟩
        cases r with
        | nil => exact hdest
        | cons y r =>
            rw [List.append_cons] at hdest
            exact Disk.node_ancestor hdest (by simp)
      refine (Safe.foldlM (fun done _ _ => (x, true) ∉ done) entries (by simp) trivial ?_).post
        (fun _ _ _ h => absurd hmem h) (fun _ _ _ h => h)
      intro done entry rest counter u _ _ hdone
      by_cases hentry : entry = (x, true)
      · subst hentry
        have hdown : Safe hostStep ⟨fun _ => True, fun _ _ => True⟩ (fun _ _ => False)
            (fun _ _ => True)
            (copyTree progress n (source ++ [x]) (source ++ x :: r ++ [x]) counter) u := by
          simpa using ih (source ++ [x]) (r := r ++ [x]) (by simp) counter u
        exact hdown.post (fun _ _ _ h => h.elim) (fun _ _ _ h => h)
      · have hdone' : (x, true) ∉ done ++ [entry] := by
          rw [List.mem_append, List.mem_singleton, not_or]
          exact ⟨hdone, fun h => hentry h.symm⟩
        exact Safe.top.post (fun _ _ _ _ => hdone') (fun _ _ _ h => h)

theorem copyPhase_inside (limit : ℕ) (source : Path) {r : Path} (hr : r ≠ []) (s : Host) :
    Safe hostStep ⟨fun _ => True, fun _ _ => True⟩ (fun _ _ => False) (fun _ _ => True)
      (copyPhase limit migrationId source (source ++ r)) s := by
  apply Safe.bind
  refine Safe.top.post ?_ (fun _ _ _ h => h)
  intro totals t _ _
  apply Safe.bind
  refine Safe.top.post ?_ (fun _ _ _ h => h)
  intro _ t _ _
  apply Safe.bind
  exact (copyTree_inside limit source hr (0, 0) t).post (fun _ _ _ h => h.elim) (fun _ _ _ h => h)

/-- A copy phase that returns did not copy into its own source. -/
theorem copyPhase_returns (hP : Blind migrationId P) (hs : Holds P s) :
    Safe hostStep (copyContract (Holds P) s.files)
      (fun ok s' => ok = true → Verified source dest s.files s'.files ∧
        (source <+: dest → source = dest)) (fun _ _ => True)
      (copyPhase limit migrationId source dest) s := by
  by_cases hinside : source <+: dest ∧ source ≠ dest
  · obtain ⟨⟨r, rfl⟩, hne⟩ := hinside
    have hr : r ≠ [] := by
      rintro rfl
      simp at hne
    exact ((copyPhase_spec hP hs).and (copyPhase_inside limit source hr s)).mono
      (fun _ h => h.1) (fun _ _ h => h.1) (fun _ _ _ h => h.2.elim) (fun _ _ _ _ => trivial)
  · refine (copyPhase_spec hP hs).post ?_ (fun _ _ _ h => h)
    intro ok s' _ h hok
    exact ⟨h hok, fun hpre => by_contra fun hne => hinside ⟨hpre, hne⟩⟩

/-! ## What the verification will find -/

/-- Where the copy puts what stands at `q` below the source. -/
def relocated (source dest q : Path) : Path := dest ++ q.drop source.length

theorem relocated_append (source dest r : Path) : relocated source dest (source ++ r) = dest ++ r := by
  simp [relocated]

/-- The files that only the destination will have: those it has already and those the copy
will add. -/
def onlyAtDest (source dest : Path) (d : Files) : ℕ :=
  ((filesBelow d dest).filter fun q => ¬ source <+: q).card +
  ((filesBelow d source).filter fun q =>
    d.node (relocated source dest q) = none ∧ ¬ source <+: relocated source dest q).card

/-- The files that only the source has. -/
def onlyAtSource (source dest : Path) (d : Files) : ℕ :=
  ((filesBelow d source).filter fun q => ¬ dest <+: q).card

theorem Verified.mem_dest (h : Verified source dest d d') (hkeep : Keeps d d')
    (hq : q ∈ filesBelow d source) (hnone : d.node (relocated source dest q) = none) :
    relocated source dest q ∈ filesBelow d' dest := by
  obtain ⟨⟨r, rfl⟩, content, hfile⟩ := mem_filesBelow.mp hq
  rw [relocated_append] at hnone ⊢
  exact mem_filesBelow.mpr ⟨List.prefix_append _ _, content, h.file hkeep hfile (.inl hnone)⟩

theorem Keeps.filesBelow (hkeep : Keeps d d') (hq : q ∈ filesBelow d source) :
    q ∈ filesBelow d' source := by
  obtain ⟨hpre, content, hfile⟩ := mem_filesBelow.mp hq
  exact mem_filesBelow.mpr ⟨hpre, content, hkeep _ _ hfile⟩

theorem not_prefix_of_apart (hapart : ¬ Overlap source dest) (hq : dest <+: q) : ¬ source <+: q :=
  fun hs => hapart (List.prefix_or_prefix_of_prefix hs hq)

/-- A copy to a directory apart adds nothing to the source. -/
theorem Verified.node_source (h : Verified source dest d d') (hkeep : Keeps d d')
    (hapart : ¬ Overlap source dest) {content : List UInt8} (hpre : source <+: q)
    (hfile : d'.node q = some (.file content)) : d.node q = some (.file content) := by
  cases hnode : d.node q with
  | some n => rw [← hfile, hkeep _ _ hnode]
  | none =>
      rcases h.origin q _ hnode hfile with ⟨-, hdir⟩ | ⟨r, rfl, -⟩
      · cases hdir
      · exact absurd hpre (not_prefix_of_apart hapart (List.prefix_append _ _))

theorem Verified.filesBelow_source (h : Verified source dest d d') (hkeep : Keeps d d')
    (hapart : ¬ Overlap source dest) : filesBelow d' source = filesBelow d source := by
  ext q
  constructor
  · intro hq
    obtain ⟨hpre, content, hfile⟩ := mem_filesBelow.mp hq
    exact mem_filesBelow.mpr ⟨hpre, content, h.node_source hkeep hapart hpre hfile⟩
  · exact hkeep.filesBelow

/-- Below a directory apart the copy adds what was missing of the source. -/
theorem Verified.filesBelow_dest (h : Verified source dest d d') (hkeep : Keeps d d')
    (hapart : ¬ Overlap source dest) :
    filesBelow d' dest = (filesBelow d dest).filter (fun q => ¬ source <+: q) ∪
      ((filesBelow d source).filter fun q => d.node (relocated source dest q) = none ∧
        ¬ source <+: relocated source dest q).image (relocated source dest) := by
  ext q
  simp only [Finset.mem_union, Finset.mem_filter, Finset.mem_image]
  constructor
  · intro hq
    obtain ⟨hpre, content, hfile⟩ := mem_filesBelow.mp hq
    cases hnode : d.node q with
    | some n =>
        have hn := hkeep _ _ hnode
        rw [hfile] at hn
        cases hn
        exact .inl ⟨mem_filesBelow.mpr ⟨hpre, content, hnode⟩, not_prefix_of_apart hapart hpre⟩
    | none =>
        rcases h.origin q _ hnode hfile with ⟨-, hdir⟩ | ⟨r, rfl, hr⟩
        · cases hdir
        · have hsource := h.node_source hkeep hapart (List.prefix_append _ _) hr
          refine .inr ⟨source ++ r, ?_, relocated_append source dest r⟩
          rw [relocated_append]
          exact ⟨mem_filesBelow.mpr ⟨List.prefix_append _ _, content, hsource⟩, hnode,
            not_prefix_of_apart hapart hpre⟩
  · rintro (⟨hq, -⟩ | ⟨q', ⟨hq', hnone, -⟩, rfl⟩)
    · exact hkeep.filesBelow hq
    · exact h.mem_dest hkeep hq' hnone

/-- Equal counts mean that neither directory has more files of its own than the other. -/
theorem Verified.only_eq (h : Verified source dest d d') (hkeep : Keeps d d')
    (hnest : ¬ source <+: dest) : onlyAtDest source dest d = onlyAtSource source dest d := by
  by_cases habove : dest <+: source
  · -- the source lies in the destination, and all that the destination has is the source
    have hsub : filesBelow d' source ⊆ filesBelow d' dest := by
      intro q hq
      obtain ⟨hpre, hfile⟩ := mem_filesBelow.mp hq
      exact mem_filesBelow.mpr ⟨habove.trans hpre, hfile⟩
    have heq : filesBelow d' source = filesBelow d' dest :=
      Finset.eq_of_subset_of_card_le hsub h.counts.ge
    have hdest : ∀ q ∈ filesBelow d' dest, source <+: q := by
      intro q hq
      rw [← heq] at hq
      exact (mem_filesBelow.mp hq).1
    have hthere : (filesBelow d dest).filter (fun q => ¬ source <+: q) = ∅ := by
      rw [Finset.filter_eq_empty_iff]
      exact fun q hq => not_not.mpr (hdest q (hkeep.filesBelow hq))
    have hmissing : (filesBelow d source).filter (fun q =>
        d.node (relocated source dest q) = none ∧ ¬ source <+: relocated source dest q) = ∅ := by
      rw [Finset.filter_eq_empty_iff]
      rintro q hq ⟨hnone, hout⟩
      exact hout (hdest _ (h.mem_dest hkeep hq hnone))
    have hown : (filesBelow d source).filter (fun q => ¬ dest <+: q) = ∅ := by
      rw [Finset.filter_eq_empty_iff]
      exact fun q hq => not_not.mpr (habove.trans (mem_filesBelow.mp hq).1)
    rw [onlyAtDest, onlyAtSource, hthere, hmissing, hown]
    rfl
  · have hapart : ¬ Overlap source dest := fun h => h.elim hnest habove
    have hinj : Set.InjOn (relocated source dest) (filesBelow d source) := by
      intro q hq q' hq' heq
      obtain ⟨r, rfl⟩ := (mem_filesBelow.mp (Finset.mem_coe.mp hq)).1
      obtain ⟨r', rfl⟩ := (mem_filesBelow.mp (Finset.mem_coe.mp hq')).1
      rw [relocated_append, relocated_append] at heq
      rw [List.append_cancel_left heq]
    have hdisj : Disjoint ((filesBelow d dest).filter fun q => ¬ source <+: q)
        (((filesBelow d source).filter fun q => d.node (relocated source dest q) = none ∧
          ¬ source <+: relocated source dest q).image (relocated source dest)) := by
      rw [Finset.disjoint_left]
      intro q hq hq'
      obtain ⟨q', hmissing, rfl⟩ := Finset.mem_image.mp hq'
      obtain ⟨-, content, hfile⟩ := mem_filesBelow.mp (Finset.mem_filter.mp hq).1
      rw [(Finset.mem_filter.mp hmissing).2.1] at hfile
      cases hfile
    have hown : (filesBelow d source).filter (fun q => ¬ dest <+: q) = filesBelow d source := by
      rw [Finset.filter_eq_self]
      intro q hq
      exact fun hd => not_prefix_of_apart hapart hd (mem_filesBelow.mp hq).1
    calc onlyAtDest source dest d
        = (filesBelow d' dest).card := by
          rw [h.filesBelow_dest hkeep hapart, Finset.card_union_of_disjoint hdisj,
            Finset.card_image_of_injOn (hinj.mono (Finset.coe_subset.mpr (Finset.filter_subset _ _))),
            onlyAtDest]
      _ = (filesBelow d' source).card := h.counts.symm
      _ = onlyAtSource source dest d := by
          rw [h.filesBelow_source hkeep hapart, onlyAtSource, hown]

/-- What must hold of the disk when the copy starts: the target is another directory, and the
copy cannot end, or its verification will fail, or it loses nothing. -/
def SafeMove (source target : Path) (d : Files) : Prop :=
  d.has source = true → source ≠ target ∧
    (source <+: target ∨ onlyAtDest source target d ≠ onlyAtSource source target d ∨
      Agrees source target d d ∧ ∀ r content, d.node (source ++ r) = some (.file content) →
        ¬ source <+: target ++ r)

end MailFallback
