import MailFallback.Migration.Passage

/-! # No migration destroys the last copy

An account migration is killed and resumed any number of times. As long as no start of it
has another directory in the way of the copy, the account's committed directory holds every
message, and what is removed is never that directory. -/

namespace MailFallback

open Storage Posix Effects Job

variable {s : Host} {path target : String} {limit : ℕ}

/-! ## The rows behind a migration -/

/-- An account on its way to another store: what the migration never changes, and the
directory and the disk at its beginning. -/
structure Move where
  cwd : Path
  migrationId : Id
  accountId : Id
  targetStoreId : Id
  targetStore : Option MailStore
  path : String
  files : Files

namespace Move

variable {m : Move}

/-- The account's directory is `path`. -/
structure Rows (m : Move) (path : String) (db : Db) : Prop where
  migration : ∃ r, db.migrations.get? m.migrationId = some r ∧ r.accountId = some m.accountId ∧
    r.targetStoreId = m.targetStoreId
  account : ∃ a, db.accounts.get? m.accountId = some a ∧ a.maildirPath = path
  store : db.stores.get? m.targetStoreId = m.targetStore

/-- The messages of the beginning are all below `path`. -/
def Intact (m : Move) (path : String) (d : Files) : Prop :=
  Complete (resolve m.cwd m.path) (resolve m.cwd path) m.files d

theorem Rows.path_eq {db : Db} {path' : String} (h : m.Rows path db) (h' : m.Rows path' db) :
    path = path' := by
  obtain ⟨a, ha, rfl⟩ := h.account
  obtain ⟨a', ha', rfl⟩ := h'.account
  rw [ha] at ha'
  cases ha'
  rfl

theorem rows_blind (m : Move) (path : String) : Blind m.migrationId (m.Rows path) := by
  rintro f hf db ⟨⟨r, hr, haccount, htarget⟩, ha, hstore⟩
  refine ⟨⟨f r, ?_, ?_, ?_⟩, ha, hstore⟩
  · simp [setMigration, hr]
  · rw [(hf r).1, haccount]
  · rw [(hf r).2.1, htarget]

theorem Intact.keeps {d d' : Files} (h : m.Intact path d) (hkeep : Keeps d d') :
    m.Intact path d' :=
  fun r content hfile => hkeep _ _ (h r content hfile)

/-! ## The contract -/

/-- The committed directory has every message. -/
def Settled (m : Move) (s : Host) : Prop := ∃ path, m.Rows path s.db ∧ m.Intact path s.files

/-- Settled, whether or not the session commits what it has pending. -/
def At (m : Move) (path : String) (s : Host) : Prop := Holds (m.Rows path) s ∧ m.Intact path s.files

/-- The tree that is removed is not the committed directory. -/
def contract (m : Move) : Contract HostOp Host where
  crash := m.Settled
  allow := fun o s => ∀ p, o = .enterRmtree p → ∀ path, m.Rows path s.db → p ≠ resolve m.cwd path

theorem At.settled (h : m.At path s) : m.contract.crash s := ⟨path, h.1.1, h.2⟩

/-- A piece that only writes the migration's row. -/
theorem At.rows {α : Type} {Q : α → Host → Prop} {E : Exc → Host → Prop} {p : Job α}
    (h : m.At path s) (hp : Safe hostStep (rowsContract (m.Rows path) s.files) Q E p s) :
    Safe hostStep m.contract (fun a s' => (m.At path s' ∧ s'.files = s.files) ∧ Q a s')
      (fun _ s' => ∃ path, m.At path s') p s := by
  have hat : ∀ {s'}, (rowsContract (m.Rows path) s.files).crash s' →
      m.At path s' ∧ s'.files = s.files := by
    rintro s' ⟨hrows, hfiles⟩
    exact ⟨⟨hrows, by rw [hfiles]; exact h.2⟩, hfiles⟩
  exact hp.mono (fun _ hs' => (hat hs').1.settled) (fun _ _ hno p hp => absurd hp (hno p))
    (fun _ _ hs' hQ => ⟨hat hs', hQ⟩) (fun _ _ hs' _ => ⟨path, (hat hs').1⟩)

theorem At.save (h : m.At path s) {f : StoreMigration → StoreMigration} (hf : KeepsTarget f) :
    Safe hostStep m.contract (fun _ s' => m.At path s' ∧ s'.files = s.files)
      (fun _ s' => ∃ path, m.At path s') (saveMigration m.migrationId f) s :=
  (h.rows (saveMigration_spec (E := fun _ _ => True) (m.rows_blind path) hf ⟨h.1, rfl⟩)).post
    (fun _ _ _ h => h.1) (fun _ _ _ h => h)

/-! ## The switch and the removal -/

/-- The places that a migration from `path` to `target` works on. -/
structure Leads (m : Move) (path target : String) (places : Places) : Prop where
  sourcePath : places.sourcePath = path
  targetPath : places.targetPath = target
  switch : ∀ db, m.Rows path db → m.Rows target (places.switch db)
  release : ∀ path db, m.Rows path db → m.Rows path (places.release db)

/-- Nothing of the target is lost with the source. -/
def Apart (m : Move) (path target : String) : Prop :=
  resolve m.cwd path ≠ resolve m.cwd target ∧
    ∀ r content, m.files.node (resolve m.cwd m.path ++ r) = some (.file content) →
      ¬ resolve m.cwd path <+: resolve m.cwd target ++ r

/-! ## A whole run -/

/-- A verified copy from a safe start. -/
theorem Intact.verified {d d' : Files} (h : m.Intact path d)
    (hsafe : SafeMove (resolve m.cwd path) (resolve m.cwd target) d)
    (hhas : d.has (resolve m.cwd path) = true) (hkeep : Keeps d d')
    (hverified : Verified (resolve m.cwd path) (resolve m.cwd target) d d')
    (hnest : resolve m.cwd path <+: resolve m.cwd target →
      resolve m.cwd path = resolve m.cwd target) :
    m.Intact target d' ∧ m.Apart path target := by
  obtain ⟨hne, hcases⟩ := hsafe hhas
  have hnot : ¬ resolve m.cwd path <+: resolve m.cwd target := fun hpre => hne (hnest hpre)
  rcases hcases with hpre | hcounts | ⟨hagree, hclear⟩
  · exact absurd hpre hnot
  · exact absurd (hverified.only_eq hkeep hnot) hcounts
  · refine ⟨fun r content hfile => ?_, hne, fun r content hfile => ?_⟩
    · have hsource := h r content hfile
      exact hverified.file hkeep hsource (hagree r content hsource)
    · exact hclear r content (h r content hfile)

/-- The removal of a directory apart from the committed one. -/
theorem Intact.removal {d d' : Files} (hapart : m.Apart path target) (h : m.Intact target d)
    (hsame : ∀ q, ¬ resolve m.cwd path <+: q → d'.node q = d.node q) : m.Intact target d' := by
  intro r content hfile
  rw [hsame _ (hapart.2 r content hfile)]
  exact h r content hfile

/-- Without a source there is no message. -/
theorem Intact.absent {d : Files} (h : m.Intact path d)
    (hhas : d.has (resolve m.cwd path) = false) : m.Intact target d := by
  intro r content hfile
  have hnode := h r content hfile
  rw [Disk.node_none_of_ancestor (Disk.has_eq_false_iff.mp hhas)] at hnode
  cases hnode

/-- The target that the migration derives from the store. -/
def targetIn (m : Move) (store : MailStore) : String := deriveMaildirPath store.path m.accountId

theorem Rows.locate {db : Db} {r : StoreMigration} {store : MailStore} (h : m.Rows path db)
    (haccount : r.accountId = some m.accountId) (htarget : r.targetStoreId = m.targetStoreId)
    (hstore : m.targetStore = some store) :
    ∃ places, accountKind.locate db r = some places ∧ m.Leads path (m.targetIn store) places := by
  obtain ⟨a, ha, rfl⟩ := h.account
  have hs := h.store
  rw [hstore] at hs
  refine ⟨_, by simp [accountKind, haccount, htarget, ha, hs]; rfl, rfl, rfl, ?_, ?_⟩
  · rintro db ⟨hr, ⟨a', ha', -⟩, hs'⟩
    let moved : Account :=
      { a' with maildirPath := deriveMaildirPath store.path m.accountId, storeId := m.targetStoreId }
    exact ⟨hr, ⟨moved, by simp [ha', moved], rfl⟩, hs'⟩
  · rintro path db ⟨hr, ⟨a', ha', hpath⟩, hs'⟩
    exact ⟨hr, ⟨{ a' with migrating := false }, by simp [ha'], hpath⟩, hs'⟩

theorem Rows.locate_none {db : Db} {r : StoreMigration} (h : m.Rows path db)
    (htarget : r.targetStoreId = m.targetStoreId) (hstore : m.targetStore = none) :
    accountKind.locate db r = none := by
  have hs := h.store
  rw [hstore] at hs
  cases haccount : r.accountId with
  | none => simp [accountKind, haccount]
  | some accountId =>
      cases ha : db.accounts.get? accountId <;> simp [accountKind, haccount, htarget, hs]

/-- The migration to a store that is there, from a safe start. -/
def passage (m : Move) (path target : String) (d : Files) (h : m.Intact path d)
    (hsafe : SafeMove (resolve m.cwd path) (resolve m.cwd target) d) : Passage where
  migrationId := m.migrationId
  source := resolve m.cwd path
  target := resolve m.cwd target
  start := d
  rows := fun switched => m.Rows (if switched = true then target else path)
  kept := fun switched => m.Intact (if switched = true then target else path)
  clear := m.Apart path target
  blind := fun _ => m.rows_blind _
  keeps := fun _ _ h hkeep => h.keeps hkeep
  verified := fun _ hhas hkeep hverified hnest => h.verified hsafe hhas hkeep hverified hnest
  absent := fun hhas => h.absent hhas
  removal := fun hapart _ _ hthere hsame => Intact.removal hapart hthere hsame

/-- The row of the migration names the two directories. -/
theorem located_passage {store : MailStore} (hstore : m.targetStore = some store)
    (htarget : m.targetIn store = target) {d : Files} (h : m.Intact path d)
    (hsafe : SafeMove (resolve m.cwd path) (resolve m.cwd target) d) :
    (m.passage path target d h hsafe).Located accountKind m.cwd := by
  intro db hrows
  obtain ⟨r, hr, haccount, hstoreId⟩ := hrows.migration
  refine ⟨r, hr, fun db' hrows' => ?_⟩
  obtain ⟨places, hlocate, hplaces⟩ := hrows'.locate haccount hstoreId hstore
  rw [htarget] at hplaces
  exact ⟨places, hlocate, congrArg (resolve m.cwd) hplaces.sourcePath,
    congrArg (resolve m.cwd) hplaces.targetPath, hplaces.switch, fun _ => hplaces.release _⟩

/-- A run to a store that is there. -/
theorem At.passage {store : MailStore} (h : m.At path s) (hstore : m.targetStore = some store)
    (htarget : m.targetIn store = target)
    (hsafe : SafeMove (resolve m.cwd path) (resolve m.cwd target) s.files) :
    Safe hostStep m.contract (fun _ s' => ∃ path, m.At path s') (fun _ s' => ∃ path, m.At path s')
      (executeAccountMigration limit m.cwd m.migrationId) s := by
  have hat : (m.passage path target s.files h.2 hsafe).At false s := h
  refine (hat.execute rfl (located_passage hstore htarget h.2 hsafe)).mono ?_ ?_ ?_ ?_
  · rintro s' ⟨switched, hrows, hkept⟩
    exact ⟨_, hrows, hkept⟩
  · intro o s' hallow p hp path' hrows
    obtain ⟨rfl, hrows', hclear⟩ := hallow p hp
    have hpath : path' = target := hrows.path_eq hrows'
    rw [hpath]
    exact hclear.1
  · rintro _ s' _ ⟨switched, hat'⟩
    exact ⟨_, hat'⟩
  · rintro _ s' _ ⟨switched, hat'⟩
    exact ⟨_, hat'⟩

/-- A run from a safe start. -/
theorem At.execute (h : m.At path s)
    (hsafe : ∀ store, m.targetStore = some store →
      SafeMove (resolve m.cwd path) (resolve m.cwd (m.targetIn store)) s.files) :
    Safe hostStep m.contract (fun _ s' => ∃ path, m.At path s') (fun _ s' => ∃ path, m.At path s')
      (executeAccountMigration limit m.cwd m.migrationId) s := by
  cases hstore : m.targetStore with
  | some store => exact h.passage hstore rfl (hsafe store hstore)
  | none =>
      apply Safe.bind
      refine (h.rows (view_spec (E := fun _ _ => True) ⟨h.1, rfl⟩)).post ?_ (fun _ _ _ h => h)
      rintro db s₁ - ⟨-, rfl, rfl⟩
      obtain ⟨r, hr, haccount, htarget⟩ := h.1.2.migration
      rw [hr]
      dsimp only
      rw [h.1.2.locate_none htarget hstore]
      refine (h.save ?_).post (fun _ _ _ hat => ⟨path, hat.1⟩) (fun _ _ _ h => h)
      exact fun _ => ⟨rfl, rfl, rfl, rfl⟩

theorem At.resume (h : m.At path s)
    (hsafe : ∀ store, m.targetStore = some store →
      SafeMove (resolve m.cwd path) (resolve m.cwd (m.targetIn store)) s.files) :
    Safe hostStep m.contract (fun _ s' => ∃ path, m.At path s') (fun _ s' => ∃ path, m.At path s')
      (resumeMigration limit m.cwd m.migrationId) s := by
  apply Safe.bind
  refine (h.rows (getNow_spec (E := fun _ _ => True) ⟨h.1, rfl⟩)).post ?_ (fun _ _ _ h => h)
  rintro now s₀ - ⟨-, rfl⟩
  apply Safe.bind
  refine (h.save ?_).post ?_ (fun _ _ _ h => h)
  · exact fun _ => ⟨rfl, rfl, rfl, rfl⟩
  rintro _ s₁ - ⟨hat, hfiles⟩
  rw [← hfiles] at hsafe
  apply Safe.bind
  refine (hat.rows (view_spec (E := fun _ _ => True) ⟨hat.1, rfl⟩)).post ?_ (fun _ _ _ h => h)
  rintro db s₂ - ⟨-, rfl, rfl⟩
  obtain ⟨r, hr, haccount, -⟩ := hat.1.2.migration
  rw [hr]
  dsimp only
  rw [haccount]
  exact hat.execute hsafe

end Move

/-! ## Restarts -/

/-- The service is started on a migration that is not finished, by the request that made it
or at boot. -/
def Starts (limit : ℕ) (cwd : Path) (migrationId : Id) (q : Job Unit) (s : Host) : Prop :=
  (∃ r, s.db.migrations.get? migrationId = some r ∧ r.status.incomplete = true) ∧
    (q = executeAccountMigration limit cwd migrationId ∨ q = resumeMigration limit cwd migrationId)

/-- The disk lets the migration start, as the rows stand. -/
def SafeStart (cwd : Path) (migrationId : Id) (s : Host) : Prop :=
  ∀ r places, s.db.migrations.get? migrationId = some r → accountKind.locate s.db r = some places →
    SafeMove (resolve cwd places.sourcePath) (resolve cwd places.targetPath) s.files

/-- The directory that is about to be removed is not the account's, and the account's
directory holds every file that stood below `origin` in the beginning. -/
structure LastCopyKept (cwd : Path) (accountId : Id) (origin : Path) (files : Files)
    (cur : Option (Job Unit)) (s : Host) : Prop where
  removes : ∀ p k, cur = some (.perform (.enterRmtree p) k) →
    ∀ a, s.db.accounts.get? accountId = some a → p ≠ resolve cwd a.maildirPath
  messages : ∃ a, s.db.accounts.get? accountId = some a ∧
    Complete origin (resolve cwd a.maildirPath) files s.files

/-- However often it is killed and resumed. -/
theorem lastCopyKept_of_safeStart {limit : ℕ} {cwd : Path} {migrationId accountId : Id}
    {r : StoreMigration} {a : Account} {s₀ s : Host} {cur : Option (Job Unit)}
    (hmigration : s₀.db.migrations.get? migrationId = some r)
    (haccountId : r.accountId = some accountId)
    (haccount : s₀.db.accounts.get? accountId = some a)
    (hruns : Restarted hostStep
      (fun q t => Starts limit cwd migrationId q t ∧ SafeStart cwd migrationId t) Host.killed
      s₀.killed cur s) :
    LastCopyKept cwd accountId (resolve cwd a.maildirPath) s₀.files cur s := by
  let m : Move := {
    cwd := cwd, migrationId := migrationId, accountId := accountId
    targetStoreId := r.targetStoreId, targetStore := s₀.db.stores.get? r.targetStoreId
    path := a.maildirPath, files := s₀.files }
  have hrows : m.Rows a.maildirPath s₀.db := ⟨⟨r, hmigration, haccountId, rfl⟩, ⟨a, haccount, rfl⟩, rfl⟩
  have hstart : m.Settled s₀.killed ∧ s₀.killed.staged = id :=
    ⟨⟨a.maildirPath, hrows, fun _ _ hfile => hfile⟩, rfl⟩
  have hsafe := hruns.safe (C := m.contract) (Q := fun _ s' => ∃ path, m.At path s')
    (E := fun _ s' => ∃ path, m.At path s') (fun s => m.Settled s ∧ s.staged = id) hstart ?_
    (fun s hs => (⟨hs, rfl⟩ : m.Settled s.killed ∧ s.killed.staged = id))
  · have hsettled : m.Settled s := by
      cases cur with
      | none => exact (hsafe.1 rfl).1
      | some p => exact (hsafe.2 p rfl).crash
    obtain ⟨path, hpath, hintact⟩ := hsettled
    refine ⟨?_, ?_⟩
    · rintro p k rfl a' ha'
      obtain ⟨a'', ha'', rfl⟩ := hpath.account
      rw [ha'] at ha''
      cases ha''
      exact (hsafe.2 _ rfl).2.1 p rfl _ hpath
    · obtain ⟨a', ha', rfl⟩ := hpath.account
      exact ⟨a', ha', hintact⟩
  · rintro q t ⟨⟨path, hpath, hintact⟩, hstaged⟩ ⟨⟨-, hq⟩, hsafeStart⟩
    have hat : m.At path t := ⟨⟨hpath, by rw [hstaged]; exact hpath⟩, hintact⟩
    have hmove : ∀ store, m.targetStore = some store →
        SafeMove (resolve m.cwd path) (resolve m.cwd (m.targetIn store)) t.files := by
      intro store hstore
      obtain ⟨r', hr', haccountId', htarget'⟩ := hpath.migration
      obtain ⟨places, hlocate, hplaces⟩ := hpath.locate haccountId' htarget' hstore
      have := hsafeStart r' places hr' hlocate
      rwa [hplaces.sourcePath, hplaces.targetPath] at this
    rcases hq with rfl | rfl
    · exact hat.execute hmove
    · exact hat.resume hmove

/-- An account with one message, about to move to the second store. -/
def pendingMove : Host where
  files := .build [([⟨"mail1", by decide⟩], .dir), ([⟨"mail2", by decide⟩], .dir),
    ([⟨"mail1", by decide⟩, ⟨"a1", by decide⟩], .dir),
    ([⟨"mail1", by decide⟩, ⟨"a1", by decide⟩, message], .file [1, 2])]
  db := {
    stores := ⟨[("s1", { path := "/mail1" }), ("s2", { path := "/mail2" })], by decide⟩
    users := .empty
    accounts := ⟨[("a1", { maildirPath := "/mail1/a1", storeId := "s1", migrating := true })],
      List.nodup_singleton "a1"⟩
    migrations := ⟨[("g1", { accountId := "a1", sourceStoreId := "s1", targetStoreId := "s2" })],
      List.nodup_singleton "g1"⟩ }

/-- Killed between the switch and the last commit, the migration is resumed with the new
directory as its source: the copy onto itself is verified, and the directory removed. -/
theorem lastCopyKept_fails_after_switch : ¬ ∀ (limit : ℕ) (cwd : Path) (migrationId accountId : Id)
    (r : StoreMigration) (a : Account) (s₀ s : Host) (cur : Option (Job Unit)),
    s₀.db.migrations.get? migrationId = some r → r.accountId = some accountId →
      s₀.db.accounts.get? accountId = some a →
        Restarted hostStep (Starts limit cwd migrationId) Host.killed s₀.killed cur s →
          LastCopyKept cwd accountId (resolve cwd a.maildirPath) s₀.files cur s := by
  intro h
  have htwice : (exec hostStep smoothly 41 (executeAccountMigration 10 [] "g1")
      pendingMove.killed).any (fun x =>
        (x.2.killed.db.migrations.get? "g1").any (fun r => r.status.incomplete) &&
        (exec hostStep smoothly 60 (resumeMigration 10 [] "g1") x.2.killed).any fun y =>
          decide ((y.2.db.accounts.get? "a1").map (fun a => a.maildirPath) = some "/mail2/a1") &&
            decide (y.2.files.node (resolve [] "/mail2/a1" ++ [message]) = none)) = true := by
    decide
  obtain ⟨tr, p, s', hkilled, hrest⟩ := exec_any htwice
  rw [Bool.and_eq_true] at hrest
  obtain ⟨r, hr, hincomplete⟩ := (Option.any_eq_true ..).mp hrest.1
  obtain ⟨tr', p', t, hrun, hend⟩ := exec_any hrest.2
  rw [Bool.and_eq_true, decide_eq_true_eq, decide_eq_true_eq] at hend
  have hfirst : Restarted hostStep (Starts 10 [] "g1") Host.killed pendingMove.killed (some p) s' :=
    (Restarted.init.start ⟨⟨_, rfl, rfl⟩, .inl rfl⟩).run hkilled
  have hsecond : Restarted hostStep (Starts 10 [] "g1") Host.killed pendingMove.killed (some p') t :=
    (hfirst.stop.start ⟨⟨r, hr, hincomplete⟩, .inr rfl⟩).run hrun
  obtain ⟨a, ha, hmessages⟩ := (h 10 [] "g1" "a1" _ _ pendingMove t _ rfl rfl rfl hsecond).messages
  obtain ⟨a', ha', hpath⟩ := Option.map_eq_some_iff.mp hend.1
  rw [ha] at ha'
  cases ha'
  have hmessage := hmessages [message] [1, 2] (by decide)
  rw [hpath, hend.2] at hmessage
  cases hmessage

/-- The move of one message to an empty store, killed while it removes the source. -/
theorem lastCopyKept_during_removal : ∃ s cur, s.files.node (resolve [] "/mail1/a1" ++ [message]) = none ∧
    LastCopyKept [] "a1" (resolve [] "/mail1/a1") pendingMove.files cur s := by
  have honce : (exec hostStep smoothly 38 (executeAccountMigration 10 [] "g1")
      pendingMove.killed).any (fun x =>
        decide (x.2.files.node (resolve [] "/mail1/a1" ++ [message]) = none)) = true := by
    decide +kernel
  obtain ⟨tr, p, s, hrun, hgone⟩ := exec_any honce
  have hsafe : SafeStart [] "g1" pendingMove.killed := by
    rintro r places ⟨⟩ ⟨⟩
    have honly : filesBelow pendingMove.files (resolve [] "/mail1/a1") =
        {resolve [] "/mail1/a1" ++ [message]} := by decide
    have hr : ∀ r content,
        pendingMove.files.node (resolve [] "/mail1/a1" ++ r) = some (.file content) →
          r = [message] := by
      intro r content hfile
      have hmem := mem_filesBelow.mpr ⟨List.prefix_append (resolve [] "/mail1/a1") r, content, hfile⟩
      rw [honly, Finset.mem_singleton] at hmem
      exact List.append_cancel_left hmem
    refine fun _ => ⟨by decide, .inr (.inr ⟨fun r content hfile => ?_, fun r content hfile => ?_⟩)⟩
    · obtain rfl := hr r content hfile
      exact .inl (by decide)
    · obtain rfl := hr r content hfile
      decide
  refine ⟨s, some p, of_decide_eq_true hgone, ?_⟩
  exact lastCopyKept_of_safeStart rfl rfl rfl
    ((Restarted.init.start ⟨⟨⟨_, rfl, rfl⟩, .inl rfl⟩, hsafe⟩).run hrun)

end MailFallback
