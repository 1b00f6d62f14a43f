import MailFallback.Migration.Nesting

/-! # Migrations as passages

What the migration of an account and that of a home have in common. The rows and the disk
agree on one directory before the switch and on another after it, and the tree that is
removed is the one that was left. -/

namespace MailFallback

open Storage Posix Effects Job

variable {s s' : Host} {places : Places} {limit : ℕ} {cwd : Path} {switched : Bool}

/-- The two sides of a migration's switch, as one start of the service finds them. -/
structure Passage where
  migrationId : Id
  source : Path
  target : Path
  /-- The disk when the service is started. -/
  start : Files
  rows : Bool → Db → Prop
  kept : Bool → Files → Prop
  /-- Nothing that is kept is lost with the source. -/
  clear : Prop
  blind : ∀ switched, Blind migrationId (rows switched)
  keeps : ∀ d d', kept false d → Keeps d d' → kept false d'
  verified : ∀ d', start.has source = true → Keeps start d' → Verified source target start d' →
    (source <+: target → source = target) → kept true d' ∧ clear
  absent : start.has source = false → kept true start
  removal : clear → ∀ d d', kept true d → (∀ q, ¬ source <+: q → d'.node q = d.node q) →
    kept true d'

namespace Passage

variable {m : Passage}

/-- On one side of the switch, whether or not the session commits what it has pending. -/
def At (m : Passage) (switched : Bool) (s : Host) : Prop :=
  Holds (m.rows switched) s ∧ m.kept switched s.files

/-- The committed rows and the disk agree. -/
def Settled (m : Passage) (s : Host) : Prop :=
  ∃ switched, m.rows switched s.db ∧ m.kept switched s.files

/-- Only the source is removed, and only once the switch is committed. -/
def contract (m : Passage) : Contract HostOp Host where
  crash := m.Settled
  allow := fun o s => ∀ p, o = .enterRmtree p → p = m.source ∧ m.rows true s.db ∧ m.clear

/-- On some side of the switch. -/
def Somewhere (m : Passage) (s : Host) : Prop := ∃ switched, m.At switched s

theorem At.settled (h : m.At switched s) : m.contract.crash s := ⟨switched, h.1.1, h.2⟩

theorem allow_of_noRmtree {o : HostOp} (h : NoRmtree o s) : m.contract.allow o s :=
  fun p hp => absurd hp (h p)

/-! ## Pieces that only write rows -/

theorem At.rows {α : Type} {Q : α → Host → Prop} {E : Exc → Host → Prop} {p : Job α}
    (h : m.At switched s) (hp : Safe hostStep (rowsContract (m.rows switched) s.files) Q E p s) :
    Safe hostStep m.contract (fun a s' => (m.At switched s' ∧ s'.files = s.files) ∧ Q a s')
      (fun _ s' => m.Somewhere s') p s := by
  have hat : ∀ {s'}, (rowsContract (m.rows switched) s.files).crash s' →
      m.At switched s' ∧ s'.files = s.files := by
    rintro s' ⟨hrows, hfiles⟩
    exact ⟨⟨hrows, by rw [hfiles]; exact h.2⟩, hfiles⟩
  exact hp.mono (fun _ hs' => (hat hs').1.settled) (fun _ _ => allow_of_noRmtree)
    (fun _ _ hs' hQ => ⟨hat hs', hQ⟩) (fun _ _ hs' _ => ⟨switched, (hat hs').1⟩)

theorem At.save (h : m.At switched s) {f : StoreMigration → StoreMigration} (hf : KeepsTarget f) :
    Safe hostStep m.contract (fun _ s' => m.At switched s' ∧ s'.files = s.files)
      (fun _ s' => m.Somewhere s') (saveMigration m.migrationId f) s :=
  (h.rows (saveMigration_spec (E := fun _ _ => True) (m.blind switched) hf ⟨h.1, rfl⟩)).post
    (fun _ _ _ h => h.1) (fun _ _ _ h => h)

theorem At.assign (h : m.At switched s) {f : Db → Db}
    (hf : ∀ db, m.rows switched db → m.rows switched (f db)) :
    Safe hostStep m.contract (fun _ s' => m.At switched s' ∧ s'.files = s.files)
      (fun _ s' => m.Somewhere s') (assign f) s :=
  (h.rows (assign_spec (E := fun _ _ => True) ⟨h.1, rfl⟩ hf)).post (fun _ _ _ h => h.1)
    (fun _ _ _ h => h)

theorem At.commit (h : m.At switched s) :
    Safe hostStep m.contract (fun _ s' => m.At switched s') (fun _ s' => m.Somewhere s')
      commit s :=
  (h.rows (commit_spec (E := fun _ _ => True) ⟨h.1, rfl⟩)).post (fun _ _ _ h => h.1.1)
    (fun _ _ _ h => h)

theorem At.getNow (h : m.At switched s) :
    Safe hostStep m.contract (fun _ s' => s' = s) (fun _ s' => m.Somewhere s') getNow s :=
  (h.rows (getNow_spec (E := fun _ _ => True) ⟨h.1, rfl⟩)).post (fun _ _ _ h => h.2)
    (fun _ _ _ h => h)

theorem At.view (h : m.At switched s) :
    Safe hostStep m.contract (fun db s' => s' = s ∧ db = s.staged s.db)
      (fun _ s' => m.Somewhere s') view s :=
  (h.rows (view_spec (E := fun _ _ => True) ⟨h.1, rfl⟩)).post (fun _ _ _ h => h.2)
    (fun _ _ _ h => h)

/-! ## The switch and the removal -/

/-- The places that the migration works on. -/
structure Leads (m : Passage) (cwd : Path) (places : Places) : Prop where
  sourcePath : resolve cwd places.sourcePath = m.source
  targetPath : resolve cwd places.targetPath = m.target
  switch : ∀ db, m.rows false db → m.rows true (places.switch db)
  release : ∀ switched db, m.rows switched db → m.rows switched (places.release db)

theorem At.enterRmtree (h : m.At true s) (hclear : m.clear) :
    Safe hostStep m.contract (fun _ s' => s' = s) (fun _ s' => m.Somewhere s')
      (enterRmtree m.source) s := by
  refine safe_op h.settled ?_ ?_ nofun
  · rintro p ⟨⟩
    exact ⟨rfl, h.1.1, hclear⟩
  · rintro _ s' ⟨⟩
    exact ⟨h.settled, rfl⟩

/-- The removal of the directory that was left. -/
theorem At.rmtreeFrom (h : m.At true s) (hclear : m.clear) :
    Safe hostStep m.contract (fun _ s' => m.At true s') (fun _ s' => m.Somewhere s')
      (rmtreeFrom limit m.source) s := by
  have hat : ∀ {s'}, (insideContract m.source s).crash s' → m.At true s' := by
    rintro s' ⟨hfiles, hsame⟩
    exact ⟨h.1.files hfiles, m.removal hclear _ _ h.2 hsame⟩
  exact (rmtreeFrom_spec limit List.prefix_rfl (inside_refl _ s)).mono
    (fun _ hs' => (hat hs').settled) (fun _ _ => allow_of_noRmtree) (fun _ _ hs' _ => hat hs')
    (fun _ _ hs' _ => ⟨true, hat hs'⟩)

/-- The rows end up where the files are before the source is removed. -/
theorem At.cleanPhase (h : m.At false s) (hplaces : m.Leads cwd places)
    (hthere : m.kept true s.files) (hclear : s.files.has m.source = true → m.clear) :
    Safe hostStep m.contract (fun _ s' => m.Somewhere s') (fun _ s' => m.Somewhere s')
      (cleanPhase limit m.migrationId places m.source) s := by
  apply Safe.bind
  refine (h.rows (checkCancel_spec ⟨h.1, rfl⟩)).post ?_ (fun _ _ _ h => h)
  rintro _ s₀ - ⟨-, rfl⟩
  apply Safe.bind
  refine (h.save ?_).post ?_ (fun _ _ _ h => h)
  · exact fun _ => ⟨rfl, rfl, rfl, rfl⟩
  rintro _ s₁ - ⟨hat₁, hfiles₁⟩
  rw [← hfiles₁] at hthere hclear
  -- the switch is pending, then committed
  apply Safe.bind
  refine safe_op hat₁.settled nofun ?_ nofun
  rintro _ s₂ ⟨⟩
  refine ⟨hat₁.settled, ?_⟩
  apply Safe.bind
  refine safe_op hat₁.settled nofun ?_ nofun
  rintro _ s₃ ⟨⟩
  have hrows : m.rows true (places.switch (s₁.staged s₁.db)) := hplaces.switch _ hat₁.1.2
  have hat₃ : m.At true { s₁ with db := places.switch (s₁.staged s₁.db), staged := id } :=
    ⟨⟨hrows, hrows⟩, hthere⟩
  refine ⟨hat₃.settled, ?_⟩
  -- the removal, if there is something to remove
  have hfinish : ∀ t, m.At true t → Safe hostStep m.contract (fun _ s' => m.Somewhere s')
      (fun _ s' => m.Somewhere s')
      (do
        let now ← Job.getNow
        Job.assign (setMigration m.migrationId fun r =>
          { r with status := .completed, completedAt := some now })
        Job.assign places.release
        Job.commit) t := by
    intro t hat
    apply Safe.bind
    refine hat.getNow.post ?_ (fun _ _ _ h => h)
    rintro now t' - rfl
    apply Safe.bind
    refine (hat.assign (m.blind true _ ?_)).post ?_ (fun _ _ _ h => h)
    · exact fun _ => ⟨rfl, rfl, rfl, rfl⟩
    rintro _ t₁ - ⟨hat₁, -⟩
    apply Safe.bind
    refine (hat₁.assign (hplaces.release true)).post ?_ (fun _ _ _ h => h)
    rintro _ t₂ - ⟨hat₂, -⟩
    exact hat₂.commit.post (fun _ _ _ h => ⟨true, h⟩) (fun _ _ _ h => h)
  apply Safe.bind
  refine (pathExists_spec hat₃.settled nofun).post ?_ (fun _ _ _ h => ⟨true, h ▸ hat₃⟩)
  rintro there s₄ - ⟨rfl, hhas⟩
  dsimp only
  split
  · rename_i hsource
    have hclear := hclear (hhas ▸ hsource)
    apply Safe.bind
    refine (hat₃.enterRmtree hclear).post ?_ (fun _ _ _ h => h)
    rintro _ s₅ - rfl
    apply Safe.bind
    exact (hat₃.rmtreeFrom hclear).post (fun _ t _ hat => hfinish t hat) (fun _ _ _ h => h)
  · exact hfinish _ hat₃

/-! ## A whole run -/

variable {kind : MigrationKind}

/-- The `try` block. -/
theorem At.attempt {r : StoreMigration} (h : m.At false s) (hstart : s.files = m.start)
    (hlocate : ∀ db, m.rows false db → ∃ places, kind.locate db r = some places ∧ m.Leads cwd places) :
    Safe hostStep m.contract (fun _ s' => m.Somewhere s') (fun _ s' => m.Somewhere s')
      (attemptMigration kind limit cwd m.migrationId r) s := by
  apply Safe.bind
  refine h.getNow.post ?_ (fun _ _ _ h => h)
  rintro now s₀ - rfl
  apply Safe.bind
  refine (h.save ?_).post ?_ (fun _ _ _ h => h)
  · exact fun _ => ⟨rfl, rfl, rfl, rfl⟩
  rintro _ s₁ - ⟨hat, hfiles⟩
  rw [hstart] at hfiles
  apply Safe.bind
  refine hat.view.post ?_ (fun _ _ _ h => h)
  rintro db s₂ - ⟨rfl, rfl⟩
  obtain ⟨places, hplace, hplaces⟩ := hlocate _ hat.1.2
  rw [hplace]
  dsimp only
  rw [hplaces.sourcePath, hplaces.targetPath]
  have hreturn : ∀ s, m.Somewhere s → m.contract.crash s ∧ m.Somewhere s :=
    fun s ⟨switched, hat⟩ => ⟨hat.settled, switched, hat⟩
  apply Safe.bind
  refine (pathExists_spec hat.settled nofun).post ?_ (fun _ _ _ h => ⟨false, h ▸ hat⟩)
  rintro there s₃ - ⟨rfl, hhas⟩
  rw [hfiles] at hhas
  split
  · rename_i hthere
    rw [hthere] at hhas
    have hcopy : Safe hostStep (copyContract (Holds (m.rows false)) s₃.files)
        (fun ok t => ok = true → Verified m.source m.target s₃.files t.files ∧
          (m.source <+: m.target → m.source = m.target)) (fun _ _ => True)
        (copyPhase limit m.migrationId m.source m.target) s₃ :=
      copyPhase_returns (m.blind false) hat.1
    rw [hfiles] at hcopy
    have hkept : ∀ {t : Host}, Keeps m.start t.files → m.kept false t.files := fun hkeep =>
      m.keeps _ _ hat.2 (by rw [hfiles]; exact hkeep)
    apply Safe.bind
    refine hcopy.mono ?_ (fun _ _ => allow_of_noRmtree) ?_ ?_
    · intro t ht
      have hatt : m.At false t := ⟨ht.1, hkept ht.2⟩
      exact hatt.settled
    · intro ok t ht hok
      have hatt : m.At false t := ⟨ht.1, hkept ht.2⟩
      split
      · rename_i hok'
        obtain ⟨hverified, hnest⟩ := hok hok'
        obtain ⟨hafter, hclear⟩ := m.verified _ hhas.symm ht.2 hverified hnest
        exact hatt.cleanPhase hplaces hafter fun _ => hclear
      · exact hreturn t ⟨false, hatt⟩
    · exact fun _ t ht _ => ⟨false, ht.1, hkept ht.2⟩
  · rename_i hthere
    have hno : m.start.has m.source = false := by
      rw [← hhas]
      simpa using hthere
    apply Safe.bind
    refine (hat.assign (m.blind false _ ?_)).post ?_ (fun _ _ _ h => h)
    · exact fun _ => ⟨rfl, rfl, rfl, rfl⟩
    rintro _ s₄ - ⟨hat₄, hfiles₄⟩
    rw [hfiles] at hfiles₄
    refine hat₄.cleanPhase hplaces ?_ ?_
    · rw [hfiles₄]
      exact m.absent hno
    · intro hyes
      rw [hfiles₄, hno] at hyes
      cases hyes

/-- The `except` clauses stay on their side of the switch. -/
theorem At.failed (h : m.At switched s) (hplaces : m.Leads cwd places) (e : Exc) :
    Safe hostStep m.contract (fun _ s' => m.Somewhere s') (fun _ s' => m.Somewhere s')
      (migrationFailed m.migrationId places e) s := by
  have hsave : ∀ f, KeepsTarget f → Safe hostStep m.contract (fun _ s' => m.Somewhere s')
      (fun _ s' => m.Somewhere s') (saveMigration m.migrationId f) s := fun f hf =>
    (h.save hf).post (fun _ _ _ hat => ⟨switched, hat.1⟩) (fun _ _ _ h => h)
  cases e with
  | migrationCancelled =>
      apply Safe.bind
      refine (h.assign (m.blind switched _ ?_)).post ?_ (fun _ _ _ h => h)
      · exact fun _ => ⟨rfl, rfl, rfl, rfl⟩
      rintro _ s₁ - ⟨hat₁, -⟩
      apply Safe.bind
      refine (hat₁.assign (hplaces.release switched)).post ?_ (fun _ _ _ h => h)
      rintro _ s₂ - ⟨hat₂, -⟩
      exact hat₂.commit.post (fun _ _ _ h => ⟨switched, h⟩) (fun _ _ _ h => h)
  | osError message => exact hsave _ fun _ => ⟨rfl, rfl, rfl, rfl⟩
  | recursionError => exact hsave _ fun _ => ⟨rfl, rfl, rfl, rfl⟩
  | rowDeleted => exact hsave _ fun _ => ⟨rfl, rfl, rfl, rfl⟩

/-- The row of the migration names the two directories. -/
def Located (m : Passage) (kind : MigrationKind) (cwd : Path) : Prop :=
  ∀ db, m.rows false db → ∃ r, db.migrations.get? m.migrationId = some r ∧
    ∀ db', m.rows false db' → ∃ places, kind.locate db' r = some places ∧ m.Leads cwd places

theorem At.execute (h : m.At false s) (hstart : s.files = m.start) (hlocated : m.Located kind cwd) :
    Safe hostStep m.contract (fun _ s' => m.Somewhere s') (fun _ s' => m.Somewhere s')
      (executeMigration kind limit cwd m.migrationId) s := by
  apply Safe.bind
  refine h.view.post ?_ (fun _ _ _ h => h)
  rintro db s₁ - ⟨rfl, rfl⟩
  obtain ⟨r, hr, hlocate⟩ := hlocated _ h.1.2
  obtain ⟨places, hplace, hplaces⟩ := hlocate _ h.1.2
  rw [hr]
  dsimp only
  rw [hplace]
  have hdiscard : ∀ t, m.Somewhere t → Safe hostStep m.contract (fun _ s' => m.Somewhere s')
      (fun _ s' => m.Somewhere s') (discardCancel m.migrationId) t := by
    rintro t ⟨switched, hat⟩
    refine safe_op hat.settled nofun ?_ nofun
    rintro _ t' ⟨⟩
    exact ⟨hat.settled, switched, hat⟩
  apply Safe.ensure
  apply Safe.handle
  refine (h.attempt hstart hlocate).post ?_ ?_
  · exact fun _ t _ ht => hdiscard t ht
  · rintro e t - ⟨switched, hat⟩
    exact (hat.failed hplaces e).post (fun _ t _ ht => hdiscard t ht)
      (fun _ t _ ht => hdiscard t ht)

end Passage

end MailFallback
