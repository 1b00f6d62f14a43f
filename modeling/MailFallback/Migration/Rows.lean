import MailFallback.Migration.FileOps

/-! # What a migration writes into its row

Between the file operations the services only write the row of their migration. A
property of the database that such writes keep holds of the committed rows and of what
the session has pending. -/

namespace MailFallback

open Storage Posix Effects Job

variable {P : Db → Prop} {s s' : Host} {E : Exc → Host → Prop} {migrationId : Id}

/-- The property holds of the committed rows, and would hold after a commit. -/
def Holds (P : Db → Prop) (s : Host) : Prop := P s.db ∧ P (s.staged s.db)

theorem Holds.files (hfiles : FilesOnly s s') (h : Holds P s) : Holds P s' := by
  obtain ⟨hdb, hstaged⟩ := hfiles
  unfold Holds
  rw [hdb, hstaged]
  exact h

theorem Holds.killed (h : Holds P s) : Holds P s.killed := ⟨h.1, h.1⟩

/-- A write of the migration's row that leaves alone what is moved, and between which stores. -/
def KeepsTarget (f : StoreMigration → StoreMigration) : Prop :=
  ∀ m, (f m).accountId = m.accountId ∧ (f m).targetStoreId = m.targetStoreId ∧
    (f m).userId = m.userId ∧ (f m).sourceStoreId = m.sourceStoreId

/-- The property is blind to the progress of a migration. -/
def Blind (migrationId : Id) (P : Db → Prop) : Prop :=
  ∀ f, KeepsTarget f → ∀ db, P db → P (setMigration migrationId f db)

/-- The contract of a piece that only writes rows. -/
def rowsContract (P : Db → Prop) (files : Files) : Contract HostOp Host where
  crash := fun s => Holds P s ∧ s.files = files
  allow := NoRmtree

variable {files : Files}

theorem assign_spec {f : Db → Db} (hs : (rowsContract P files).crash s)
    (hf : ∀ db, P db → P (f db)) :
    Safe hostStep (rowsContract P files) (fun _ _ => True) E (assign f) s := by
  refine safe_op hs nofun ?_ nofun
  rintro _ s' ⟨⟩
  exact ⟨⟨⟨hs.1.1, hf _ hs.1.2⟩, hs.2⟩, trivial⟩

theorem commit_spec (hs : (rowsContract P files).crash s) :
    Safe hostStep (rowsContract P files) (fun _ s' => s'.db = s.staged s.db ∧ s'.staged = id) E
      commit s := by
  refine safe_op hs nofun ?_ nofun
  rintro _ s' ⟨⟩
  exact ⟨⟨⟨hs.1.2, hs.1.2⟩, hs.2⟩, rfl, rfl⟩

theorem saveMigration_spec {f : StoreMigration → StoreMigration} (hP : Blind migrationId P)
    (hf : KeepsTarget f) (hs : (rowsContract P files).crash s) :
    Safe hostStep (rowsContract P files) (fun _ s' => s'.staged = id) E
      (saveMigration migrationId f) s := by
  apply Safe.bind
  refine (assign_spec hs (hP f hf)).post ?_ (fun _ _ _ h => h)
  intro _ s' hs' _
  exact (commit_spec hs').post (fun _ _ _ h => h.2) (fun _ _ _ h => h)

theorem getNow_spec (hs : (rowsContract P files).crash s) :
    Safe hostStep (rowsContract P files) (fun _ s' => s' = s) E getNow s := by
  refine safe_op hs nofun ?_ nofun
  rintro _ s' ⟨⟩
  exact ⟨hs, rfl⟩

theorem view_spec (hs : (rowsContract P files).crash s) :
    Safe hostStep (rowsContract P files) (fun db s' => s' = s ∧ db = s.staged s.db) E view s := by
  refine safe_op hs nofun ?_ nofun
  intro db s' h
  obtain ⟨hdb, hs'⟩ := Option.ite_none_right_eq_some.mp h
  obtain rfl := Option.some.inj hs'
  exact ⟨hs, rfl, hdb⟩

theorem checkCancel_spec (hs : (rowsContract P files).crash s) :
    Safe hostStep (rowsContract P files) (fun _ s' => s' = s) (fun _ s' => s' = s)
      (checkCancel migrationId) s := by
  apply Safe.bind
  refine safe_op hs nofun ?_ nofun
  rintro cancelled s' ⟨⟩
  refine ⟨hs, ?_⟩
  split
  · exact ⟨hs, rfl⟩
  · exact ⟨hs, rfl⟩

theorem onProgress_spec (hP : Blind migrationId P) (copiedFiles copiedBytes : ℕ)
    (hs : (rowsContract P files).crash s) :
    Safe hostStep (rowsContract P files) (fun _ _ => True) (fun _ _ => True)
      (onProgress migrationId copiedFiles copiedBytes) s := by
  apply Safe.bind
  refine (checkCancel_spec hs).post ?_ (fun _ _ _ _ => trivial)
  rintro _ s' hs' -
  apply Safe.bind
  refine (assign_spec hs' (hP _ ?_)).post ?_ (fun _ _ _ h => h)
  · exact fun _ => ⟨rfl, rfl, rfl, rfl⟩
  · intro _ s'' hs'' _
    split
    · exact (commit_spec hs'').post (fun _ _ _ _ => trivial) (fun _ _ _ h => h)
    · exact ⟨hs'', trivial⟩

end MailFallback
