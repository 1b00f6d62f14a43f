import MailFallback.Migration.HomePlaces
import MailFallback.Migration.Safety

/-! # No home is left behind

A home migration is killed and resumed any number of times. When the migration looks where
Dovecot looks, the home that Dovecot is given holds every file that the home ever held. -/

namespace MailFallback

open Storage Posix Effects Job

variable {s : Host} {limit : ℕ} {switched started : Bool}

/-! ## The rows behind a migration -/

/-- A home on its way to another store: what the migration never changes, and the disk at
its beginning. -/
structure HomeMove where
  cwd : Path
  migrationId : Id
  userId : Id
  username : String
  sourceStoreId : Id
  targetStoreId : Id
  source : MailStore
  target : MailStore
  files : Files

namespace HomeMove

variable {m : HomeMove}

/-- The home that Dovecot is given, before and after the switch. -/
@[irreducible] def home (m : HomeMove) (switched : Bool) : Path :=
  resolve m.cwd (userdbHome (if switched = true then m.target else m.source).path m.username)

theorem home_false (m : HomeMove) :
    m.home false = resolve m.cwd (userdbHome m.source.path m.username) := by
  simp [home]

theorem home_true (m : HomeMove) :
    m.home true = resolve m.cwd (userdbHome m.target.path m.username) := by
  simp [home]

structure Rows (m : HomeMove) (switched : Bool) (db : Db) : Prop where
  migration : ∃ r, db.migrations.get? m.migrationId = some r ∧ r.accountId = none ∧
    r.userId = some m.userId ∧ r.sourceStoreId = m.sourceStoreId ∧
    r.targetStoreId = m.targetStoreId
  user : ∃ u, db.users.get? m.userId = some u ∧ u.username = m.username ∧
    u.storeId = if switched = true then m.targetStoreId else m.sourceStoreId
  only : ∀ id u, db.users.get? id = some u → u.username = m.username → id = m.userId
  source : db.stores.get? m.sourceStoreId = some m.source
  target : db.stores.get? m.targetStoreId = some m.target

/-- No file of the home would stand below the old home in the new one. -/
def Apart (m : HomeMove) : Prop :=
  ∀ r content, m.files.node (m.home false ++ r) = some (.file content) →
    ¬ m.home false <+: m.home true ++ r

/-- The files of the beginning are all in the home. -/
structure Kept (m : HomeMove) (switched : Bool) (d : Files) : Prop where
  complete : Complete (m.home false) (m.home switched) m.files d
  apart : switched = true → m.Apart

theorem rows_blind (m : HomeMove) (switched : Bool) : Blind m.migrationId (m.Rows switched) := by
  rintro f hf db ⟨⟨r, hr, haccount, huser, hsource, htarget⟩, hu, honly, hs, ht⟩
  obtain ⟨haccount', htarget', huser', hsource'⟩ := hf r
  refine ⟨⟨f r, ?_, ?_, ?_, ?_, ?_⟩, hu, honly, hs, ht⟩
  · simp [setMigration, hr]
  · rw [haccount', haccount]
  · rw [huser', huser]
  · rw [hsource', hsource]
  · rw [htarget', htarget]

/-- A write of the user's row that keeps the name. -/
theorem Rows.modify {db : Db} {f : User → User} (h : m.Rows started db)
    (hname : ∀ u, (f u).username = u.username)
    (hstore : ∀ u, u.storeId = (if started = true then m.targetStoreId else m.sourceStoreId) →
      (f u).storeId = if switched = true then m.targetStoreId else m.sourceStoreId) :
    m.Rows switched { db with users := db.users.modify m.userId f } := by
  obtain ⟨u, hu, huname, hustore⟩ := h.user
  refine ⟨h.migration, ⟨f u, ?_, ?_, hstore u hustore⟩, ?_, h.source, h.target⟩
  · simp [hu]
  · rw [hname, huname]
  · intro id v hv hvname
    by_cases hid : id = m.userId
    · exact hid
    · rw [Table.get?_modify_of_ne _ _ hid] at hv
      exact h.only id v hv hvname

/-- When folding changes nothing, the migration works on the two homes. -/
theorem Rows.locate {db : Db} {r : StoreMigration} (h : m.Rows switched db)
    (hplain : sanitizePathComponent m.username = m.username) (huser : r.userId = some m.userId)
    (hsource : r.sourceStoreId = m.sourceStoreId) (htarget : r.targetStoreId = m.targetStoreId) :
    ∃ places, homeKind.locate db r = some places ∧
      resolve m.cwd places.sourcePath = m.home false ∧
      resolve m.cwd places.targetPath = m.home true ∧
      (∀ switched db, m.Rows switched db → m.Rows true (places.switch db)) ∧
      ∀ switched db, m.Rows switched db → m.Rows switched (places.release db) := by
  obtain ⟨u, hu, huname, -⟩ := h.user
  have hhome : ∀ path, resolve m.cwd (migrationHome path m.username) =
      resolve m.cwd (userdbHome path m.username) := by
    intro path
    rw [resolve_migrationHome, resolve_userdbHome]
    exact (walk_pieces_eq_enter_iff _ _).mpr hplain
  refine ⟨_, by simp [homeKind, huser, hu, hsource, htarget, h.source, h.target]; rfl, ?_, ?_, ?_, ?_⟩
  · rw [huname, home_false, ← hhome]
    rfl
  · rw [huname, home_true, ← hhome]
    rfl
  · exact fun _ _ h => h.modify (fun _ => rfl) fun _ _ => by simp
  · exact fun _ _ h => h.modify (fun _ => rfl) fun _ hu => hu

/-! ## The passage -/

theorem Kept.keeps {d d' : Files} (h : m.Kept switched d) (hkeep : Keeps d d') :
    m.Kept switched d' :=
  ⟨fun r content hfile => hkeep _ _ (h.complete r content hfile), h.apart⟩

/-- A verified copy from a safe start. -/
theorem Kept.verified {d d' : Files} (h : m.Kept false d)
    (hsafe : SafeMove (m.home false) (m.home true) d) (hhas : d.has (m.home false) = true)
    (hkeep : Keeps d d') (hverified : Verified (m.home false) (m.home true) d d')
    (hnest : m.home false <+: m.home true → m.home false = m.home true) : m.Kept true d' := by
  obtain ⟨hne, hcases⟩ := hsafe hhas
  have hnot : ¬ m.home false <+: m.home true := fun hpre => hne (hnest hpre)
  rcases hcases with hpre | hcounts | ⟨hagree, hclear⟩
  · exact absurd hpre hnot
  · exact absurd (hverified.only_eq hkeep hnot) hcounts
  · refine ⟨fun r content hfile => ?_, fun _ r content hfile => ?_⟩
    · have hsource := h.complete r content hfile
      exact hverified.file hkeep hsource (hagree r content hsource)
    · exact hclear r content (h.complete r content hfile)

/-- Without a home there is no file. -/
theorem Kept.absent {d : Files} (h : m.Kept false d) (hhas : d.has (m.home false) = false) :
    m.Kept true d := by
  have hno : ∀ r content, m.files.node (m.home false ++ r) ≠ some (.file content) := by
    intro r content hfile
    have hnode := h.complete r content hfile
    rw [Disk.node_none_of_ancestor (Disk.has_eq_false_iff.mp hhas)] at hnode
    cases hnode
  exact ⟨fun r content hfile => absurd hfile (hno r content),
    fun _ r content hfile => absurd hfile (hno r content)⟩

theorem Kept.removal {d d' : Files} (h : m.Kept true d)
    (hsame : ∀ q, ¬ m.home false <+: q → d'.node q = d.node q) : m.Kept true d' := by
  refine ⟨fun r content hfile => ?_, h.apart⟩
  rw [hsame _ (h.apart rfl r content hfile)]
  exact h.complete r content hfile

/-- The migration, started on either side of the switch. -/
def passage (m : HomeMove) (started : Bool) (d : Files) (h : m.Kept started d)
    (hsafe : started = false → SafeMove (m.home false) (m.home true) d) : Passage where
  migrationId := m.migrationId
  source := m.home false
  target := m.home true
  start := d
  rows := fun switched => m.Rows (started || switched)
  kept := fun switched => m.Kept (started || switched)
  clear := m.Apart
  blind := fun _ => m.rows_blind _
  keeps := fun _ _ h hkeep => h.keeps hkeep
  verified := by
    intro d' hhas hkeep hverified hnest
    have hkept : m.Kept true d' := by
      cases started with
      | false => exact h.verified (hsafe rfl) hhas hkeep hverified hnest
      | true => exact h.keeps hkeep
    rw [Bool.or_true]
    exact ⟨hkept, hkept.apart rfl⟩
  absent := by
    intro hhas
    rw [Bool.or_true]
    cases started with
    | false => exact h.absent hhas
    | true => exact h
  removal := by
    intro _ d d' hkept hsame
    rw [Bool.or_true] at hkept ⊢
    exact hkept.removal hsame

/-- The row of the migration names the two homes. -/
theorem located_passage {d : Files} (hplain : sanitizePathComponent m.username = m.username)
    (h : m.Kept started d)
    (hsafe : started = false → SafeMove (m.home false) (m.home true) d) :
    (m.passage started d h hsafe).Located homeKind m.cwd := by
  intro db hrows
  obtain ⟨r, hr, -, huser, hsource, htarget⟩ := hrows.migration
  refine ⟨r, hr, fun db' hrows' => ?_⟩
  obtain ⟨places, hlocate, hsourcePath, htargetPath, hswitch, hrelease⟩ :=
    hrows'.locate hplain huser hsource htarget
  refine ⟨places, hlocate, hsourcePath, htargetPath, fun db h => ?_, fun _ => hrelease _⟩
  have hrows : m.Rows true (places.switch db) := hswitch _ db h
  rw [← Bool.or_true started] at hrows
  exact hrows

/-! ## A whole run -/

/-- The committed rows lead Dovecot to every file. -/
def Settled (m : HomeMove) (s : Host) : Prop :=
  ∃ switched, m.Rows switched s.db ∧ m.Kept switched s.files

def contract (m : HomeMove) : Contract HostOp Host := ⟨m.Settled, fun _ _ => True⟩

theorem execute_safe (hplain : sanitizePathComponent m.username = m.username)
    (hrows : Holds (m.Rows started) s) (hkept : m.Kept started s.files)
    (hsafe : started = false → SafeMove (m.home false) (m.home true) s.files) :
    Safe hostStep m.contract (fun _ _ => True) (fun _ _ => True)
      (executeHomeMigration limit m.cwd m.migrationId) s := by
  have hat : (m.passage started s.files hkept hsafe).At false s := by
    refine ⟨?_, ?_⟩
    · show Holds (m.Rows (started || false)) s
      rwa [Bool.or_false]
    · show m.Kept (started || false) s.files
      rwa [Bool.or_false]
  refine (hat.execute rfl (located_passage hplain hkept hsafe)).mono ?_
    (fun _ _ _ => trivial) (fun _ _ _ _ => trivial) (fun _ _ _ _ => trivial)
  rintro s' ⟨switched, hrows', hkept'⟩
  exact ⟨_, hrows', hkept'⟩

/-- A run that goes on after a restart. -/
theorem resume_safe (hplain : sanitizePathComponent m.username = m.username)
    (hrows : Holds (m.Rows started) s) (hkept : m.Kept started s.files)
    (hsafe : started = false → SafeMove (m.home false) (m.home true) s.files) :
    Safe hostStep m.contract (fun _ _ => True) (fun _ _ => True)
      (resumeMigration limit m.cwd m.migrationId) s := by
  have hwithin : ∀ {t}, (rowsContract (m.Rows started) s.files).crash t → m.contract.crash t := by
    rintro t ⟨hrows, hfiles⟩
    exact ⟨started, hrows.1, by rw [hfiles]; exact hkept⟩
  have hrowsOnly : ∀ {α : Type} {Q : α → Host → Prop} {p : Job α} {t : Host},
      Safe hostStep (rowsContract (m.Rows started) s.files) Q (fun _ _ => True) p t →
      Safe hostStep m.contract
        (fun a t => (rowsContract (m.Rows started) s.files).crash t ∧ Q a t) (fun _ _ => True) p t :=
    fun h => h.mono (fun _ => hwithin) (fun _ _ _ => trivial) (fun _ _ hc hQ => ⟨hc, hQ⟩)
      (fun _ _ _ h => h)
  apply Safe.bind
  refine (hrowsOnly (getNow_spec ⟨hrows, rfl⟩)).post ?_ (fun _ _ _ h => h)
  rintro now s₀ - ⟨hs₀, -⟩
  apply Safe.bind
  refine (hrowsOnly (saveMigration_spec (m.rows_blind started) ?_ hs₀)).post ?_ (fun _ _ _ h => h)
  · exact fun _ => ⟨rfl, rfl, rfl, rfl⟩
  rintro _ s₁ - ⟨hs₁, -⟩
  apply Safe.bind
  refine (hrowsOnly (view_spec hs₁)).post ?_ (fun _ _ _ h => h)
  rintro db s₂ - ⟨⟨hrows₂, hfiles₂⟩, rfl, rfl⟩
  obtain ⟨r, hr, haccount, -⟩ := hrows₂.2.migration
  rw [hr]
  dsimp only
  rw [haccount]
  rw [← hfiles₂] at hkept hsafe
  exact execute_safe hplain hrows₂ hkept hsafe

end HomeMove

/-! ## Restarts -/

/-- What `initiate_home_migration` leaves: the row of a migration from the store of a user,
whose name nobody else has. -/
structure HomeInitiated (db : Db) (migrationId userId : Id) (user : User) (source target : MailStore) :
    Prop where
  migration : ∃ r, db.migrations.get? migrationId = some r ∧ r.accountId = none ∧
    r.userId = some userId ∧ r.sourceStoreId = user.storeId ∧
    db.stores.get? r.targetStoreId = some target
  owner : db.users.get? userId = some user
  source : db.stores.get? user.storeId = some source
  unique : ∀ id u, db.users.get? id = some u → u.username = user.username → id = userId

/-- The service is started on a migration that is not finished. -/
def HomeStarts (limit : ℕ) (cwd : Path) (migrationId : Id) (q : Job Unit) (s : Host) : Prop :=
  (∃ r, s.db.migrations.get? migrationId = some r ∧ r.status.incomplete = true) ∧
    (q = executeHomeMigration limit cwd migrationId ∨ q = resumeMigration limit cwd migrationId)

/-- The disk lets the migration start, unless the user is on the target store already. -/
def SafeHomeStart (cwd : Path) (migrationId userId : Id) (s : Host) : Prop :=
  ∀ r user source target, s.db.migrations.get? migrationId = some r →
    s.db.users.get? userId = some user → user.storeId = r.sourceStoreId →
    s.db.stores.get? r.sourceStoreId = some source → s.db.stores.get? r.targetStoreId = some target →
    SafeMove (resolve cwd (userdbHome source.path user.username))
      (resolve cwd (userdbHome target.path user.username)) s.files

/-- The home that Dovecot is given holds every file that the home held in the beginning. -/
def HomeServed (cwd : Path) (user : User) (source : MailStore) (files : Files) (s : Host) : Prop :=
  ∀ home, userdbLookup s.db user.username = some home →
    Complete (resolve cwd (userdbHome source.path user.username)) (resolve cwd home) files s.files

theorem HomeMove.Rows.lookup {m : HomeMove} {db : Db} {home : String} (h : m.Rows switched db)
    (hlookup : userdbLookup db m.username = some home) : resolve m.cwd home = m.home switched := by
  unfold userdbLookup at hlookup
  cases hfind : db.users.rows.find? fun r => r.2.username = m.username with
  | none =>
      rw [hfind] at hlookup
      cases hlookup
  | some row =>
      obtain ⟨id, v⟩ := row
      rw [hfind] at hlookup
      have hv : db.users.get? id = some v := Table.mem_rows.mp (List.mem_of_find?_eq_some hfind)
      have hname : v.username = m.username := by simpa using List.find?_some hfind
      obtain rfl := h.only id v hv hname
      obtain ⟨u, hu, -, hstore⟩ := h.user
      rw [hu] at hv
      cases hv
      dsimp only at hlookup
      split at hlookup
      · cases hlookup
      · rw [hstore] at hlookup
        cases switched with
        | false =>
            rw [if_neg (by simp), h.source] at hlookup
            obtain rfl := Option.some.inj hlookup
            rw [home_false]
        | true =>
            rw [if_pos rfl, h.target] at hlookup
            obtain rfl := Option.some.inj hlookup
            rw [home_true]

/-- However often the migration is killed and resumed. -/
theorem homeServed_of_safeStarts {limit : ℕ} {cwd : Path} {migrationId userId : Id} {user : User}
    {source target : MailStore} {s₀ s : Host} {cur : Option (Job Unit)}
    (hinit : HomeInitiated s₀.db migrationId userId user source target)
    (hplain : sanitizePathComponent user.username = user.username)
    (hruns : Restarted hostStep
      (fun q t => HomeStarts limit cwd migrationId q t ∧ SafeHomeStart cwd migrationId userId t)
      Host.killed s₀.killed cur s) :
    HomeServed cwd user source s₀.files s := by
  obtain ⟨r, hr, haccount, huserId, hsourceId, htarget⟩ := hinit.migration
  let m : HomeMove := {
    cwd := cwd, migrationId := migrationId, userId := userId, username := user.username
    sourceStoreId := user.storeId, targetStoreId := r.targetStoreId
    source := source, target := target, files := s₀.files }
  have hrows : m.Rows false s₀.db :=
    ⟨⟨r, hr, haccount, huserId, hsourceId, rfl⟩, ⟨user, hinit.owner, rfl, rfl⟩, hinit.unique,
      hinit.source, htarget⟩
  have hstart : m.Settled s₀.killed ∧ s₀.killed.staged = id :=
    ⟨⟨false, hrows, fun _ _ hfile => hfile, nofun⟩, rfl⟩
  have hsafe := hruns.safe (C := m.contract) (Q := fun _ _ => True) (E := fun _ _ => True)
    (fun s => m.Settled s ∧ s.staged = id) hstart ?_
    (fun s hs => (⟨hs, rfl⟩ : m.Settled s.killed ∧ s.killed.staged = id))
  · have hsettled : m.Settled s := by
      cases cur with
      | none => exact (hsafe.1 rfl).1
      | some p => exact (hsafe.2 p rfl).crash
    obtain ⟨switched, hrows, hkept⟩ := hsettled
    intro home hlookup
    have hhome : resolve cwd home = m.home switched := hrows.lookup hlookup
    have hcomplete := hkept.complete
    rwa [HomeMove.home_false, ← hhome] at hcomplete
  · rintro q t ⟨⟨switched, hrows, hkept⟩, hstaged⟩ ⟨⟨-, hq⟩, hsafeStart⟩
    have hholds : Holds (m.Rows switched) t := ⟨hrows, by rw [hstaged]; exact hrows⟩
    have hmove : switched = false → SafeMove (m.home false) (m.home true) t.files := by
      rintro rfl
      obtain ⟨r', hr', -, -, hsource', htarget'⟩ := hrows.migration
      obtain ⟨u, hu, huname, hustore⟩ := hrows.user
      have hsafe := hsafeStart r' u source target hr' hu (hustore.trans hsource'.symm)
        (by rw [hsource']; exact hrows.source) (by rw [htarget']; exact hrows.target)
      rw [huname] at hsafe
      rwa [HomeMove.home_false, HomeMove.home_true]
    rcases hq with rfl | rfl
    · exact HomeMove.execute_safe hplain hholds hkept hmove
    · exact HomeMove.resume_safe hplain hholds hkept hmove

/-! ## The result -/

/-- The five paths are one directory exactly for a username that folding leaves alone, on a
store whose path is not empty; and the migration of such a user leaves no file behind. -/
theorem one_home (cwd : Path) :
    (∀ storePath username, OneHome cwd storePath username ↔
      sanitizePathComponent username = username ∧ (storePath = "" → cwd = [])) ∧
    ∀ (limit : ℕ) (migrationId userId : Id) (user : User) (source target : MailStore)
      (s₀ s : Host) (cur : Option (Job Unit)),
      HomeInitiated s₀.db migrationId userId user source target →
        sanitizePathComponent user.username = user.username →
          Restarted hostStep (fun q t => HomeStarts limit cwd migrationId q t ∧
            SafeHomeStart cwd migrationId userId t) Host.killed s₀.killed cur s →
            HomeServed cwd user source s₀.files s :=
  ⟨fun _ _ => oneHome_iff, fun _ _ _ _ _ _ _ _ _ hinit hplain hruns =>
    homeServed_of_safeStarts hinit hplain hruns⟩

theorem isName_mail1 : IsName "mail1" := by decide

theorem isName_mail2 : IsName "mail2" := by decide

def mail1 : Path := [⟨"mail1", isName_mail1⟩]

def mail2 : Path := [⟨"mail2", isName_mail2⟩]

theorem nodup_homeStores : ["s1", "s2"].Nodup := by decide

/-- A user with one message in the home, about to move to the second store. -/
def pendingHome (username : String) (folded : Name) : Host where
  files := .build [(mail1, .dir), (mail2, .dir), (mail1 ++ [dovecotHomeName], .dir),
    (mail1 ++ [dovecotHomeName, folded], .dir),
    (mail1 ++ [dovecotHomeName, folded, message], .file [1, 2])]
  db := {
    stores := ⟨[("s1", { path := "/mail1" }), ("s2", { path := "/mail2" })], nodup_homeStores⟩
    users := ⟨[("u1", { username := username, storeId := "s1", migrating := true })],
      List.nodup_singleton "u1"⟩
    accounts := .empty
    migrations := ⟨[("g1", { userId := "u1", sourceStoreId := "s1", targetStoreId := "s2" })],
      List.nodup_singleton "g1"⟩ }

theorem pendingHome_initiated (username : String) (folded : Name) :
    HomeInitiated (pendingHome username folded).db "g1" "u1"
      { username := username, storeId := "s1", migrating := true } { path := "/mail1" }
      { path := "/mail2" } := by
  refine ⟨⟨_, rfl, rfl, rfl, rfl, rfl⟩, rfl, rfl, ?_⟩
  intro id u hu _
  have hmem := List.mem_singleton.mp (Table.mem_rows.mpr hu)
  exact congrArg Prod.fst hmem

/-- The home of a name with a space is folded; the migration does not find it, and ends with
success. -/
theorem not_one_home : ¬ (∀ cwd storePath username, OneHome cwd storePath username) ∧
    ¬ ∀ (limit : ℕ) (cwd : Path) (migrationId userId : Id) (user : User) (source target : MailStore)
      (s₀ s : Host) (cur : Option (Job Unit)) (r : StoreMigration),
      HomeInitiated s₀.db migrationId userId user source target →
        Restarted hostStep (HomeStarts limit cwd migrationId) Host.killed s₀.killed cur s →
          s.db.migrations.get? migrationId = some r → r.status = .completed →
            HomeServed cwd user source s₀.files s := by
  refine ⟨fun h => ?_, fun h => ?_⟩
  · have hname := (oneHome_iff.mp (h [] "/mail1" "a b")).1
    revert hname
    decide
  · let s₀ : Host := pendingHome "a b" ⟨"a_b", by decide⟩
    have honce : (exec hostStep smoothly 60 (executeHomeMigration 10 [] "g1") s₀.killed).any
        (fun x =>
          (x.2.db.migrations.get? "g1").any (fun r => r.status = .completed) &&
          decide (userdbLookup x.2.db "a b" = some "/mail2/.dovecot-home/a_b") &&
          decide (x.2.files.node (resolve [] "/mail2/.dovecot-home/a_b" ++ [message]) = none)) =
        true := by
      decide +kernel
    obtain ⟨tr, p, s, hrun, hend⟩ := exec_any honce
    simp only [Bool.and_eq_true, decide_eq_true_eq] at hend
    obtain ⟨⟨hcompleted, hlookup⟩, hgone⟩ := hend
    obtain ⟨r, hr, hstatus⟩ := (Option.any_eq_true ..).mp hcompleted
    have hruns : Restarted hostStep (HomeStarts 10 [] "g1") Host.killed s₀.killed (some p) s :=
      (Restarted.init.start ⟨⟨_, rfl, rfl⟩, .inl rfl⟩).run hrun
    have hserved := h 10 [] "g1" "u1" _ _ _ s₀ s _ r (pendingHome_initiated _ _) hruns hr
      (of_decide_eq_true hstatus) _ hlookup [message] [1, 2] (by decide)
    rw [hgone] at hserved
    cases hserved

/-- The home of a plain name arrives. -/
theorem pendingHome_served : ∃ s cur, userdbLookup s.db "bob" = some "/mail2/.dovecot-home/bob" ∧
    HomeServed [] { username := "bob", storeId := "s1", migrating := true } { path := "/mail1" }
      (pendingHome "bob" ⟨"bob", by decide⟩).files s ∧
    Restarted hostStep (HomeStarts 10 [] "g1") Host.killed
      (pendingHome "bob" ⟨"bob", by decide⟩).killed cur s := by
  let s₀ : Host := pendingHome "bob" ⟨"bob", by decide⟩
  have honce : (exec hostStep smoothly 60 (executeHomeMigration 10 [] "g1") s₀.killed).any
      (fun x => decide (userdbLookup x.2.db "bob" = some "/mail2/.dovecot-home/bob")) = true := by
    decide +kernel
  obtain ⟨tr, p, s, hrun, hlookup⟩ := exec_any honce
  have hsafe : SafeHomeStart [] "g1" "u1" s₀.killed := by
    rintro r user source target ⟨⟩ ⟨⟩ - ⟨⟩ ⟨⟩
    let home : Path := mail1 ++ [dovecotHomeName, ⟨"bob", by decide⟩]
    have honly : filesBelow s₀.files home = {home ++ [message]} := by decide
    have hr : ∀ r content, s₀.files.node (home ++ r) = some (.file content) → r = [message] := by
      intro r content hfile
      have hmem := mem_filesBelow.mpr ⟨List.prefix_append home r, content, hfile⟩
      rw [honly, Finset.mem_singleton] at hmem
      exact List.append_cancel_left hmem
    have hhome : resolve [] (userdbHome "/mail1" "bob") = home := by decide
    show SafeMove (resolve [] (userdbHome "/mail1" "bob")) _ s₀.files
    rw [hhome]
    refine fun _ => ⟨by decide, .inr (.inr ⟨fun r content hfile => ?_, fun r content hfile => ?_⟩)⟩
    · obtain rfl := hr r content hfile
      exact .inl (by decide)
    · obtain rfl := hr r content hfile
      decide
  have hstarts : HomeStarts 10 [] "g1" (executeHomeMigration 10 [] "g1") s₀.killed :=
    ⟨⟨_, rfl, rfl⟩, .inl rfl⟩
  refine ⟨s, some p, of_decide_eq_true hlookup, ?_, (Restarted.init.start hstarts).run hrun⟩
  exact (one_home []).2 10 "g1" "u1" _ _ _ s₀ s (some p) (pendingHome_initiated _ _) (by decide)
    ((Restarted.init.start ⟨hstarts, hsafe⟩).run hrun)

end MailFallback
