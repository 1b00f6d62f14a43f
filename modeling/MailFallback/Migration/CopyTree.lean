import MailFallback.Migration.FileOps

/-! # What the copy engine copies

The copy never changes what exists; whatever it adds below the destination stands at the
same place in the source; and when it returns, nothing of the source is missing. -/

namespace MailFallback

open Storage Posix Effects Job

variable {s s' : Host} {d d₁ d₂ : Files} {p q source dest : Path} {I : Host → Prop}
  {progress : ℕ → ℕ → Job Unit}

/-- What is new is a directory on the way to the destination, or stands in the source too. -/
def Origin (source dest : Path) (d d' : Files) : Prop :=
  ∀ q n, d.node q = none → d'.node q = some n →
    q <+: dest ∧ n = .dir ∨ ∃ r, q = dest ++ r ∧ d'.node (source ++ r) = some n

/-- The source is no file itself, and at the place of each file below it there is something. -/
def Copied (source dest : Path) (d d' : Files) : Prop :=
  ∀ r content, d.node (source ++ r) = some (.file content) → r ≠ [] ∧ d'.node (dest ++ r) ≠ none

theorem Origin.refl (source dest : Path) (d : Files) : Origin source dest d d := by
  intro q n hnone hn
  rw [hnone] at hn
  cases hn

/-- Two copies one after the other, the second of a part of the source. -/
theorem Origin.step {x : Name} (h : Origin source dest d d₁) (hkeep : Keeps d₁ d₂)
    (h' : Origin (source ++ [x]) (dest ++ [x]) d₁ d₂)
    (hx : d₁.node (source ++ [x]) = some .dir) : Origin source dest d d₂ := by
  intro q n hnone hn
  cases hq : d₁.node q with
  | some m =>
      have hm := hkeep q m hq
      rw [hn] at hm
      cases hm
      rcases h q n hnone hq with hdir | ⟨r, rfl, hr⟩
      · exact .inl hdir
      · exact .inr ⟨r, rfl, hkeep _ _ hr⟩
  | none =>
      rcases h' q n hq hn with ⟨hpre, rfl⟩ | ⟨r, rfl, hr⟩
      · rcases List.prefix_concat_iff.mp hpre with rfl | hpre
        · exact .inr ⟨[x], rfl, hkeep _ _ hx⟩
        · exact .inl ⟨hpre, rfl⟩
      · exact .inr ⟨x :: r, by simp, by simpa using hr⟩

/-- The contract of the copy: the bookkeeping invariant, and nothing that existed changes. -/
def copyContract (I : Host → Prop) (d : Files) : Contract HostOp Host where
  crash := fun s => I s ∧ Keeps d s.files
  allow := NoRmtree

/-- A call-back that keeps the bookkeeping invariant and leaves the files alone. -/
def ProgressSpec (I : Host → Prop) (progress : ℕ → ℕ → Job Unit) : Prop :=
  ∀ files bytes s, I s →
    Safe hostStep ⟨fun s' => I s' ∧ s'.files = s.files, NoRmtree⟩ (fun _ _ => True)
      (fun _ _ => True) (progress files bytes) s

/-- The invariant does not look at the files. -/
def Filesless (I : Host → Prop) : Prop :=
  ∀ s s', FilesOnly s s' → I s → I s'

/-- The contract of a piece that only adds to the disk. -/
def addContract (s : Host) : Contract HostOp Host where
  crash := fun s' => FilesOnly s s' ∧ Keeps s.files s'.files
  allow := NoRmtree

theorem add_refl (s : Host) : (addContract s).crash s := ⟨FilesOnly.refl s, Keeps.refl s.files⟩

/-- A missing file arrives with the source's bytes; what exists is left as it is. -/
theorem copyMissing_spec (s : Host) (source dest : Path) :
    Safe hostStep (addContract s)
      (fun _ s' => s'.files.node dest ≠ none ∧ ∀ q n, s.files.node q = none →
        s'.files.node q = some n → q = dest ∧ s'.files.node source = some n)
      (fun _ _ => True) (copyMissing source dest) s := by
  apply Safe.bind
  refine (pathExists_spec (add_refl s) nofun).post ?_ (fun _ _ _ _ => trivial)
  rintro there s' - ⟨rfl, rfl⟩
  split
  · rename_i hthere
    obtain ⟨n, hn⟩ := Disk.has_iff.mp hthere
    refine ⟨add_refl s', by simp [hn], fun q m hnone hm => ?_⟩
    rw [hnone] at hm
    cases hm
  · rename_i hthere
    have hdest : s'.files.node dest = none := Disk.has_eq_false_iff.mp (by simpa using hthere)
    refine (copy2_spec hdest).mono ?_ (fun _ _ h => h) ?_ (fun _ _ _ _ => trivial)
    · rintro t ⟨hfiles, hsame⟩
      refine ⟨hfiles, fun q n hn => ?_⟩
      have hne : q ≠ dest := by
        rintro rfl
        rw [hdest] at hn
        cases hn
      rw [hsame q hne, hn]
    · rintro _ t ⟨-, hsame⟩ ⟨content, hsource, hcopy⟩
      refine ⟨by simp [hcopy], fun q n hnone hn => ?_⟩
      by_cases hq : q = dest
      · have hne : source ≠ dest := by
          rintro rfl
          rw [hdest] at hsource
          cases hsource
        rw [hq, hcopy] at hn
        cases hn
        exact ⟨hq, (hsame source hne).trans hsource⟩
      · rw [hsame q hq, hnone] at hn
        cases hn

/-! ## The recursion -/

/-- What is known of the entries that the loop has passed. -/
structure Progressed (source dest : Path) (d : Files) (done : List (Name × Bool)) (d' : Files) :
    Prop where
  origin : Origin source dest d d'
  copied : ∀ entry ∈ done, ∀ r content, d.node (source ++ entry.1 :: r) = some (.file content) →
    d'.node (dest ++ entry.1 :: r) ≠ none

theorem Progressed.snoc {done : List (Name × Bool)} {entry : Name × Bool}
    (h : Progressed source dest d done d₁) (hkeep : Keeps d₁ d₂) (horigin : Origin source dest d d₂)
    (hcopied : ∀ r content, d.node (source ++ entry.1 :: r) = some (.file content) →
      d₂.node (dest ++ entry.1 :: r) ≠ none) :
    Progressed source dest d (done ++ [entry]) d₂ := by
  refine ⟨horigin, ?_⟩
  intro e he r content hfile
  rcases List.mem_append.mp he with hdone | hlast
  · obtain ⟨n, hn⟩ := Option.ne_none_iff_exists'.mp (h.copied e hdone r content hfile)
    rw [hkeep _ _ hn]
    simp
  · rw [List.mem_singleton] at hlast
    subst hlast
    exact hcopied r content hfile

/-- One file of the loop. -/
theorem copyFile_spec (hI : Filesless I) (hprogress : ProgressSpec I progress) (x : Name) (b : Bool)
    {done : List (Name × Bool)} (counter : ℕ × ℕ) (hcrash : (copyContract I d).crash s)
    (h : Progressed source dest d done s.files) :
    Safe hostStep (copyContract I d)
      (fun _ s' => Keeps s.files s'.files ∧ Progressed source dest d (done ++ [(x, b)]) s'.files)
      (fun _ _ => True)
      (do
        let size ← fileSize (source ++ [x])
        copyMissing (source ++ [x]) (dest ++ [x])
        progress (counter.1 + 1) (counter.2 + size)
        pure (counter.1 + 1, counter.2 + size)) s := by
  apply Safe.bind
  refine (fileSize_spec hcrash nofun).post ?_ (fun _ _ _ _ => trivial)
  rintro size s' - ⟨rfl, content, hfile⟩
  apply Safe.bind
  refine (copyMissing_spec s' _ _).mono ?_ (fun _ _ h => h) ?_ (fun _ _ _ _ => trivial)
  · rintro t ⟨hfiles, hkeep⟩
    exact ⟨hI s' t hfiles hcrash.1, hcrash.2.trans hkeep⟩
  rintro _ t ⟨hfiles, hkeep⟩ ⟨hthere, hnew⟩
  have hIt := hI s' t hfiles hcrash.1
  have hdone : Progressed source dest d (done ++ [(x, b)]) t.files := by
    refine h.snoc hkeep ?_ ?_
    · intro q n hnone hn
      cases hq : s'.files.node q with
      | some m =>
          rw [hkeep q m hq] at hn
          cases hn
          rcases h.origin q n hnone hq with hdir | ⟨r, rfl, hr⟩
          · exact .inl hdir
          · exact .inr ⟨r, rfl, hkeep _ _ hr⟩
      | none =>
          obtain ⟨rfl, hsource⟩ := hnew q n hq hn
          exact .inr ⟨[x], rfl, hsource⟩
    · intro r content' hr
      cases r with
      | nil => exact hthere
      | cons y r =>
          -- below a file there is nothing
          have hdir : s'.files.node (source ++ [x]) = some .dir := by
            apply Disk.node_ancestor (q := y :: r)
            · simpa using hcrash.2 _ _ hr
            · simp
          rw [hfile] at hdir
          cases hdir
  apply Safe.bind
  refine (hprogress _ _ t hIt).mono ?_ (fun _ _ h => h) ?_ (fun _ _ _ _ => trivial)
  · rintro u ⟨hIu, hsame⟩
    exact ⟨hIu, by rw [hsame]; exact hcrash.2.trans hkeep⟩
  · rintro _ u ⟨hIu, hsame⟩ -
    refine ⟨⟨hIu, by rw [hsame]; exact hcrash.2.trans hkeep⟩, ?_⟩
    show Keeps s'.files u.files ∧ Progressed source dest d (done ++ [(x, b)]) u.files
    rw [hsame]
    exact ⟨hkeep, hdone⟩

/-- The copy of a tree. -/
theorem copyTree_spec (hI : Filesless I) (hprogress : ProgressSpec I progress) (n : ℕ)
    (source dest : Path) (counter : ℕ × ℕ) (s : Host) (hs : I s) :
    Safe hostStep (copyContract I s.files)
      (fun _ s' => Origin source dest s.files s'.files ∧ Copied source dest s.files s'.files)
      (fun _ _ => True) (copyTree progress n source dest counter) s := by
  induction n generalizing source dest counter s with
  | zero => exact ⟨⟨hs, Keeps.refl _⟩, trivial⟩
  | succ n ih =>
      apply Safe.bind
      refine (makedirs_spec dest s).mono ?_ (fun _ _ h => h) ?_ (fun _ _ _ _ => trivial)
      · rintro t ⟨hfiles, hfill⟩
        exact ⟨hI s t hfiles hs, hfill.keeps⟩
      rintro _ t ⟨hfiles, hfill⟩ -
      have ht : (copyContract I s.files).crash t := ⟨hI s t hfiles hs, hfill.keeps⟩
      apply Safe.bind
      refine (scandir_spec ht nofun).post ?_ (fun _ _ _ _ => trivial)
      rintro entries t' - ⟨rfl, hlisted⟩
      have hstart : Progressed source dest s.files [] t'.files := by
        refine ⟨fun q n hnone hn => ?_, nofun⟩
        rcases hfill q with hsame | ⟨hpre, -, hdir⟩
        · rw [hsame, hnone] at hn
          cases hn
        · rw [hdir] at hn
          cases hn
          exact .inl ⟨hpre, rfl⟩
      refine (Safe.foldlM (fun done _ u => Keeps t'.files u.files ∧
        Progressed source dest s.files done u.files) entries ⟨Keeps.refl _, hstart⟩ ht ?_).post ?_
        (fun _ _ _ h => h)
      · rintro done ⟨x, b⟩ rest counter u rfl hu ⟨hkeep, hdone⟩
        have hentry : ∃ n, t'.files.node (source ++ [x]) = some n ∧ b = decide (n = .dir) :=
          hlisted.mem.mp (by simp)
        dsimp only
        split
        · rename_i hdir
          subst hdir
          obtain ⟨n, hn, hb⟩ := hentry
          obtain rfl : n = .dir := by simpa using hb.symm
          refine (ih (source ++ [x]) (dest ++ [x]) counter u hu.1).mono ?_ (fun _ _ h => h) ?_
            (fun _ _ _ _ => trivial)
          · rintro v ⟨hIv, hkeep'⟩
            exact ⟨hIv, hu.2.trans hkeep'⟩
          · rintro counter' v ⟨-, hkeep'⟩ ⟨horigin, hcopied⟩
            refine ⟨hkeep.trans hkeep', hdone.snoc hkeep' ?_ ?_⟩
            · exact hdone.origin.step hkeep' horigin (hkeep _ _ hn)
            · intro r content hfile
              have hthere := hcopied r content (by simpa using hu.2 _ _ hfile)
              simpa using hthere.2
        · refine (copyFile_spec hI hprogress x b counter hu hdone).post ?_ (fun _ _ _ h => h)
          rintro counter' v - ⟨hkeep', hdone'⟩
          exact ⟨hkeep.trans hkeep', hdone'⟩
      · rintro counter u hu ⟨hkeep, hdone⟩
        refine ⟨hdone.origin, ?_⟩
        intro r content hfile
        cases r with
        | nil =>
            have hdir := hkeep _ _ hlisted.dir
            rw [List.append_nil] at hfile
            rw [hu.2 _ _ hfile] at hdir
            cases hdir
        | cons x r =>
            have hx : t'.files.node (source ++ [x]) ≠ none := by
              intro hnone
              have hbelow := ht.2 _ _ hfile
              rw [List.append_cons, Disk.node_none_of_ancestor hnone] at hbelow
              cases hbelow
            obtain ⟨n, hn⟩ := Option.ne_none_iff_exists'.mp hx
            have hmem := hlisted.mem.mpr ⟨n, hn, rfl⟩
            exact ⟨by simp, hdone.copied (x, decide (n = .dir)) hmem r content hfile⟩

end MailFallback
