import MailFallback.Migration.Semantics
import MailFallback.Staging.Semantics
import MailFallback.Store.Homes

/-! # The places where a home is looked for

Dovecot, the welcome mail, the staging area, the deletion of a user and the migration of a
home each build the path of a user's home. -/

namespace MailFallback

open Storage Posix

variable {cwd : Path} {storePath username : String}

/-! ## The paths -/

/-- The home that `userdb_lookup` hands to Dovecot. -/
def userdbHome (storePath username : String) : String :=
  dovecotHomeDir (rstripSlash storePath) username

/-- What `userdb_lookup` answers; `none` is the 404. -/
def userdbLookup (db : Db) (username : String) : Option String :=
  match db.users.rows.find? fun r => r.2.username = username with
  | none => none
  | some (_, user) =>
      if !user.enabled || user.migrating then none
      else (db.stores.get? user.storeId).map fun store => userdbHome store.path username

/-- `os.path.join` of the first three parts in `create_welcome_email`. -/
def welcomeHome (storePath username : String) : String :=
  join (join storePath dovecotHomeDirname) (sanitizePathComponent username)

/-- The three directories that `create_welcome_email` makes. -/
def welcomeInbox (storePath username sub : String) : String :=
  join (join (welcomeHome storePath username) "root-inbox") sub

/-- `source_home` and `target_home` of `execute_home_migration`. -/
def migrationHome (storePath username : String) : String :=
  storePath ++ "/.dovecot-home/" ++ username

theorem homeKind_locate {db : Db} {r : StoreMigration} {places : Places}
    (h : homeKind.locate db r = some places) :
    ∃ userId user source target, r.userId = some userId ∧ db.users.get? userId = some user ∧
      db.stores.get? r.sourceStoreId = some source ∧ db.stores.get? r.targetStoreId = some target ∧
      places.sourcePath = migrationHome source.path user.username ∧
      places.targetPath = migrationHome target.path user.username := by
  obtain ⟨userId, huserId, h⟩ := Option.bind_eq_some_iff.mp h
  obtain ⟨user, huser, h⟩ := Option.bind_eq_some_iff.mp h
  obtain ⟨source, hsource, h⟩ := Option.bind_eq_some_iff.mp h
  obtain ⟨target, htarget, h⟩ := Option.bind_eq_some_iff.mp h
  cases h
  exact ⟨userId, user, source, target, huserId, huser, hsource, htarget, rfl, rfl⟩

/-- All of them mean the directory that Dovecot is given. -/
structure OneHome (cwd : Path) (storePath username : String) : Prop where
  welcome : resolve cwd (welcomeHome storePath username) = resolve cwd (userdbHome storePath username)
  staging : ∀ user : Staging.StagingUser, user.storePath = storePath → user.row.username = username →
    resolve cwd (Staging.homeRoot user) = resolve cwd (userdbHome storePath username)
  removal : ∀ db d userId (user : User) (store : MailStore) home, user.username = username →
    db.stores.get? user.storeId = some store → store.path = storePath →
    homeToRemove db d cwd userId user = some home →
    resolve cwd home = resolve cwd (userdbHome storePath username)
  migration : resolve cwd (migrationHome storePath username) =
    resolve cwd (userdbHome storePath username)

/-! ## Where they lead -/

theorem homesDir_rstripSlash (cwd : Path) (storePath : String) :
    homesDir cwd (rstripSlash storePath) = homesDir cwd storePath := by
  simp [homesDir]

theorem resolve_userdbHome (cwd : Path) (storePath username : String) :
    resolve cwd (userdbHome storePath username) =
      enter (homesDir cwd storePath) (sanitizePathComponent username) := by
  rw [userdbHome, resolve_dovecotHomeDir, homesDir_rstripSlash]

theorem resolve_migrationHome (cwd : Path) (storePath username : String) :
    resolve cwd (migrationHome storePath username) =
      walk (homesDir cwd storePath) (pieces username) := by
  have hassoc : migrationHome storePath username =
      storePath ++ "/" ++ (".dovecot-home" ++ "/" ++ username) := by
    apply String.toList_injective
    simp [migrationHome]
  have hpieces : pieces ".dovecot-home" = [dovecotHomeName.1] := pieces_name dovecotHomeName
  rw [hassoc, resolve_below, pieces_append_slash, hpieces, walk_append, walk_cons, enter_name]
  rfl

theorem isAbsolute_sanitize (username : String) :
    isAbsolute (sanitizePathComponent username) = false := by
  have hno := sanitizePathComponent_no_slash username
  unfold isAbsolute
  cases h : (sanitizePathComponent username).toList with
  | nil => rfl
  | cons c cs =>
      rw [h] at hno
      have hc : c ≠ '/' := by
        rintro rfl
        exact hno List.mem_cons_self
      simpa using hc

theorem join_ne_empty {a b : String} (h : a ≠ "" ∨ b ≠ "") : join a b ≠ "" := by
  unfold join
  split
  · rename_i habs
    rintro rfl
    cases habs
  · split
    · intro hempty
      obtain ⟨rfl, rfl⟩ := String.append_eq_empty_iff.mp hempty
      simp at h
    · simp

/-- The welcome mail goes to the child of the directory that the first join names. -/
theorem resolve_welcomeHome (cwd : Path) (storePath username : String) :
    resolve cwd (welcomeHome storePath username) =
      enter (resolve cwd (join storePath dovecotHomeDirname)) (sanitizePathComponent username) := by
  rw [welcomeHome, resolve_join_relative cwd (isAbsolute_sanitize username)
    (join_ne_empty (.inr (by decide))),
    pieces_of_not_mem (sanitizePathComponent_no_slash username)]
  rfl

theorem resolve_welcomeInbox (cwd : Path) (storePath username : String) (sub : Name) :
    resolve cwd (welcomeInbox storePath username sub.1) =
      resolve cwd (welcomeHome storePath username) ++ [⟨"root-inbox", by decide⟩, sub] := by
  have hne : welcomeHome storePath username ≠ "" :=
    join_ne_empty (.inl (join_ne_empty (.inr (by decide))))
  have hinbox : pieces "root-inbox" = ["root-inbox"] := pieces_name ⟨"root-inbox", by decide⟩
  rw [welcomeInbox, resolve_join_relative cwd (isAbsolute_name sub) (join_ne_empty (.inl hne)),
    resolve_join_relative cwd (by decide) hne, hinbox, pieces_name, walk_cons, walk_cons, walk_nil,
    walk_nil, enter_name, enter_name (resolve cwd _) ⟨"root-inbox", by decide⟩]
  simp

/-! ## Names that are folded to themselves -/

theorem length_sanitizePathComponent (username : String) :
    (sanitizePathComponent username).length = username.length := by
  simp [sanitizePathComponent, String.length_toList]

/-- A name that is changed has a character replaced. -/
theorem underscore_mem_sanitize (h : sanitizePathComponent username ≠ username) :
    '_' ∈ (sanitizePathComponent username).toList := by
  by_contra hno
  apply h
  apply String.toList_injective
  simp only [sanitizePathComponent, String.toList_ofList] at hno ⊢
  conv_rhs => rw [← List.map_id username.toList]
  apply List.map_congr_left
  intro c hc
  split
  · rfl
  · rename_i hsafe
    exact absurd (List.mem_map.mpr ⟨c, hc, by simp [hsafe]⟩) hno

theorem isName_of_changed (h : sanitizePathComponent username ≠ username) :
    IsName (sanitizePathComponent username) := by
  have hmem := underscore_mem_sanitize h
  rw [isName_sanitize]
  refine ⟨?_, ?_, ?_⟩ <;> intro heq <;> rw [heq] at hmem <;> revert hmem <;> decide

/-- The migration looks where Dovecot looks exactly when folding changes nothing: a changed
name is as long as the username, and the pieces of a username with a slash are shorter. -/
theorem walk_pieces_eq_enter_iff (dir : Path) (username : String) :
    walk dir (pieces username) = enter dir (sanitizePathComponent username) ↔
      sanitizePathComponent username = username := by
  constructor
  · intro h
    by_contra hne
    let x : Name := ⟨_, isName_of_changed hne⟩
    have henter : enter dir (sanitizePathComponent username) = dir ++ [x] := enter_name dir x
    have hlast : x ∈ (walk dir (pieces username)).drop dir.length := by
      rw [h, henter]
      simp
    have hpiece : sanitizePathComponent username ∈ pieces username := mem_drop_walk le_rfl hlast
    by_cases hslash : '/' ∈ username.toList
    · have hlt := length_lt_of_mem_pieces hslash hpiece
      rw [length_sanitizePathComponent] at hlt
      exact absurd hlt (lt_irrefl _)
    · rw [pieces_of_not_mem hslash, List.mem_singleton] at hpiece
      exact hne hpiece
  · intro h
    have hslash : '/' ∉ username.toList := by
      rw [← h]
      exact sanitizePathComponent_no_slash username
    rw [pieces_of_not_mem hslash, h]
    rfl

/-! ## The agreement -/

theorem resolve_join_homes (hne : storePath ≠ "") :
    resolve cwd (join storePath dovecotHomeDirname) = homesDir cwd storePath := by
  have hpieces : pieces dovecotHomeDirname = [dovecotHomeName.1] := pieces_name dovecotHomeName
  rw [resolve_join_relative cwd (by decide) hne, hpieces, homesDir, baseDir_of_ne cwd hne]
  simp

theorem enter_length_ne {dir dir' : Path} {piece : String} (h : enter dir piece = enter dir' piece)
    (hdir : dir ≠ []) (hdir' : dir' ≠ []) : dir.length = dir'.length := by
  have hpos := List.length_pos_iff.mpr hdir
  have hpos' := List.length_pos_iff.mpr hdir'
  have hlen := congrArg List.length h
  unfold enter at hlen
  split at hlen
  · simpa using hlen
  · split at hlen
    · simp only [List.length_dropLast] at hlen
      omega
    · exact hlen

/-- Without a store path the welcome mail is written below the working directory. -/
theorem welcomeHome_iff :
    resolve cwd (welcomeHome storePath username) = resolve cwd (userdbHome storePath username) ↔
      (storePath = "" → cwd = []) := by
  rw [resolve_welcomeHome, resolve_userdbHome]
  by_cases hne : storePath = ""
  · subst hne
    have hwelcome : resolve cwd (join "" dovecotHomeDirname) = cwd ++ [dovecotHomeName] := by
      have hpieces : pieces dovecotHomeDirname = [dovecotHomeName.1] := pieces_name dovecotHomeName
      have habs : isAbsolute dovecotHomeDirname = false := by decide
      have hjoin : join "" dovecotHomeDirname = dovecotHomeDirname := by decide
      rw [hjoin, resolve, habs, hpieces]
      simp
    have hhomes : homesDir cwd "" = [dovecotHomeName] := by rfl
    rw [hwelcome, hhomes]
    constructor
    · intro h _
      have hlen := enter_length_ne h (by simp) (by simp)
      simpa using hlen
    · intro h
      rw [h rfl]
      rfl
  · rw [resolve_join_homes hne]
    simp [hne]

/-- Everyone means the same directory exactly for a name without foreign characters, on a
store whose path is not empty. -/
theorem oneHome_iff : OneHome cwd storePath username ↔
    sanitizePathComponent username = username ∧ (storePath = "" → cwd = []) := by
  constructor
  · intro h
    refine ⟨?_, welcomeHome_iff.mp h.welcome⟩
    have hmigration := h.migration
    rw [resolve_migrationHome, resolve_userdbHome] at hmigration
    exact (walk_pieces_eq_enter_iff _ _).mp hmigration
  · rintro ⟨hname, hpath⟩
    refine ⟨welcomeHome_iff.mpr hpath, ?_, ?_, ?_⟩
    · rintro user rfl rfl
      rw [Staging.homeRoot, resolve_dovecotHomeDir, resolve_userdbHome]
    · rintro db d userId user store home rfl hstore rfl hhome
      obtain ⟨store', hstore', rfl, -, -⟩ := homeToRemove_eq_some.mp hhome
      rw [hstore] at hstore'
      cases hstore'
      rw [resolve_dovecotHomeDir, resolve_userdbHome]
    · rw [resolve_migrationHome, resolve_userdbHome]
      exact (walk_pieces_eq_enter_iff _ _).mpr hname

end MailFallback
