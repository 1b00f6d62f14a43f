import MailFallback.Store.Semantics

/-! # What the deletion of a user can reach -/

namespace MailFallback

open Storage Posix

variable {db : Db} {d : Files} {cwd : Path} {userId : Id} {user : User} {store : MailStore}

/-! ## Folded usernames -/

theorem isPathSafe_slash : isPathSafe '/' = false := by decide

/-- A folded name is one piece of a path string. -/
theorem sanitizePathComponent_no_slash (name : String) :
    '/' ∉ (sanitizePathComponent name).toList := by
  simp only [sanitizePathComponent, String.toList_ofList, List.mem_map, not_exists, not_and]
  intro c _ hc
  split at hc
  · rename_i hsafe
    rw [hc, isPathSafe_slash] at hsafe
    cases hsafe
  · cases hc

/-- A folded name is a name, unless it is one of three special pieces. -/
theorem isName_sanitize (name : String) :
    IsName (sanitizePathComponent name) ↔
      sanitizePathComponent name ≠ "" ∧ sanitizePathComponent name ≠ "." ∧
        sanitizePathComponent name ≠ ".." := by
  have := sanitizePathComponent_no_slash name
  simp [IsName, this]

def dovecotHomeName : Name := ⟨dovecotHomeDirname, by decide⟩

/-- The directory `<store>/.dovecot-home`. -/
def homesDir (cwd : Path) (storePath : String) : Path :=
  baseDir cwd storePath ++ [dovecotHomeName]

theorem resolve_dovecotHomeDir (cwd : Path) (storePath username : String) :
    resolve cwd (dovecotHomeDir storePath username) =
      enter (homesDir cwd storePath) (sanitizePathComponent username) := by
  have hpieces : pieces (dovecotHomeDirname ++ "/" ++ sanitizePathComponent username) =
      [dovecotHomeName.1, sanitizePathComponent username] := by
    rw [pieces_append_slash, pieces_of_not_mem (sanitizePathComponent_no_slash username)]
    exact congrArg (· ++ [sanitizePathComponent username]) (pieces_name dovecotHomeName)
  have hassoc : dovecotHomeDir storePath username =
      rstripSlash storePath ++ "/" ++ (dovecotHomeDirname ++ "/" ++ sanitizePathComponent username) := by
    simp [dovecotHomeDir, String.append_assoc]
  rw [hassoc, resolve_child, hpieces]
  simp [homesDir]

/-- Only an ordinary folded name is entered as a child. -/
theorem enter_eq_child {dir : Path} {piece : String} {x : Name}
    (h : enter dir piece = dir ++ [x]) : piece = x.1 := by
  unfold enter at h
  split at h
  · rename_i hname
    have hx : (⟨piece, hname⟩ : Name) = x := by simpa using h
    exact congrArg Subtype.val hx
  · exfalso
    have hlen := congrArg List.length h
    split at hlen <;> simp at hlen

/-! ## The result -/

/-- A file or directory that an operation removed. -/
def Lost (d d' : Files) (q : Path) : Prop := d.node q ≠ none ∧ d'.node q = none

/-- The home of a user other than this one. -/
def OthersHome (db : Db) (cwd : Path) (userId : Id) (p : Path) : Prop :=
  ∃ id other store, db.users.get? id = some other ∧ id ≠ userId ∧
    db.stores.get? other.storeId = some store ∧
    resolve cwd (dovecotHomeDir store.path other.username) = p

/-- What is removed lies in one directory; it is a child of the store's `.dovecot-home`,
no other user has it as home, and no account keeps its maildir in it. -/
def HomeConfined (db : Db) (d : Files) (cwd : Path) (userId : Id) (user : User) : Prop :=
  match homeToRemove db d cwd userId user with
  | none => ∀ stuck, (removeDovecotHome db d cwd userId user stuck).1 = d
  | some home =>
      (∀ stuck q, Lost d (removeDovecotHome db d cwd userId user stuck).1 q →
        resolve cwd home <+: q) ∧
      (∃ store x, db.stores.get? user.storeId = some store ∧
        resolve cwd home = homesDir cwd store.path ++ [x]) ∧
      ¬ OthersHome db cwd userId (resolve cwd home) ∧
      ∀ id account, db.accounts.get? id = some account →
        ¬ resolve cwd home <+: resolve cwd account.maildirPath

/-- What the guard leaves unchecked. -/
structure HomeIsOwn (db : Db) (cwd : Path) (userId : Id) (user : User) (store : MailStore) :
    Prop where
  /-- The folded name is not empty, `.` or `..`. -/
  named : IsName (sanitizePathComponent user.username)
  /-- No user of another store row has a home that is the same directory. -/
  unshared : ∀ id other store', db.users.get? id = some other → id ≠ userId →
    other.storeId ≠ user.storeId → db.stores.get? other.storeId = some store' →
    resolve cwd (dovecotHomeDir store'.path other.username) ≠
      resolve cwd (dovecotHomeDir store.path user.username)
  /-- No maildir is kept in the home. -/
  noMaildir : ∀ id account, db.accounts.get? id = some account →
    ¬ resolve cwd (dovecotHomeDir store.path user.username) <+: resolve cwd account.maildirPath

theorem homeToRemove_eq_some {home : String} :
    homeToRemove db d cwd userId user = some home ↔
      ∃ store, db.stores.get? user.storeId = some store ∧
        home = dovecotHomeDir store.path user.username ∧
        homeCollisions db userId user.storeId store.path home = [] ∧ isdir d cwd home = true := by
  unfold homeToRemove
  cases db.stores.get? user.storeId with
  | none => simp
  | some store =>
      simp only [Option.some.injEq, exists_eq_left']
      constructor
      · intro h
        split at h
        · cases h
        · rename_i hguard
          split at h
          · cases h
          · rename_i hdir
            cases h
            exact ⟨rfl, not_not.mp hguard, by simpa using hdir⟩
      · rintro ⟨rfl, hguard, hdir⟩
        rw [if_neg (not_not.mpr hguard), if_neg (by simp [hdir])]

/-- Nothing outside the home is lost. -/
theorem removeDovecotHome_lost {home : String} {stuck : Path → Bool} {q : Path}
    (h : homeToRemove db d cwd userId user = some home)
    (hq : Lost d (removeDovecotHome db d cwd userId user stuck).1 q) : resolve cwd home <+: q := by
  simp only [removeDovecotHome, h] at hq
  rcases rmtree_cases d cwd home stuck q with hsame | ⟨hpre, -⟩
  · exact absurd (hsame.symm.trans hq.2) hq.1
  · exact hpre

/-- The guard does its work within the store: another user of it has another home. -/
theorem guard_separates {id : Id} {other : User}
    (hguard : homeCollisions db userId user.storeId store.path
      (dovecotHomeDir store.path user.username) = [])
    (hother : db.users.get? id = some other) (hid : id ≠ userId)
    (hstore : other.storeId = user.storeId) (hname : IsName (sanitizePathComponent user.username)) :
    resolve cwd (dovecotHomeDir store.path other.username) ≠
      resolve cwd (dovecotHomeDir store.path user.username) := by
  intro hsame
  rw [resolve_dovecotHomeDir, resolve_dovecotHomeDir] at hsame
  have hchild : enter (homesDir cwd store.path) (sanitizePathComponent user.username) =
      homesDir cwd store.path ++ [⟨_, hname⟩] := enter_name _ ⟨_, hname⟩
  have hfold : sanitizePathComponent other.username = sanitizePathComponent user.username :=
    enter_eq_child (hsame.trans hchild)
  have hmem : other.username ∈ homeCollisions db userId user.storeId store.path
      (dovecotHomeDir store.path user.username) := by
    apply List.mem_map.mpr
    refine ⟨(id, other), List.mem_filter.mpr ⟨Table.mem_rows.mpr hother, ?_⟩, rfl⟩
    simp [hid, hstore, dovecotHomeDir, hfold]
  rw [hguard] at hmem
  cases hmem

theorem HomeConfined.own (h : HomeConfined db d cwd userId user)
    (hstore : db.stores.get? user.storeId = some store)
    (hguard : homeCollisions db userId user.storeId store.path
      (dovecotHomeDir store.path user.username) = [])
    (hdir : isdir d cwd (dovecotHomeDir store.path user.username) = true) :
    HomeIsOwn db cwd userId user store := by
  have hsome := homeToRemove_eq_some.mpr ⟨store, hstore, rfl, hguard, hdir⟩
  rw [HomeConfined, hsome] at h
  obtain ⟨-, ⟨store', x, hstore', hchild⟩, hothers, hmaildir⟩ := h
  obtain rfl := Option.some.inj (hstore.symm.trans hstore')
  rw [resolve_dovecotHomeDir] at hchild
  refine ⟨enter_eq_child hchild ▸ x.2, ?_, hmaildir⟩
  intro id other store' hother hid _ hstore' hsame
  exact hothers ⟨id, other, store', hother, hid, hstore', hsame⟩

theorem HomeIsOwn.confined {home : String} (h : HomeIsOwn db cwd userId user store)
    (hstore : db.stores.get? user.storeId = some store)
    (hsome : homeToRemove db d cwd userId user = some home) :
    HomeConfined db d cwd userId user := by
  obtain ⟨store', hstore', rfl, hguard, hdir⟩ := homeToRemove_eq_some.mp hsome
  obtain rfl := Option.some.inj (hstore.symm.trans hstore')
  rw [HomeConfined, hsome]
  refine ⟨fun stuck q => removeDovecotHome_lost hsome, ⟨store, ⟨_, h.named⟩, hstore, ?_⟩, ?_,
    h.noMaildir⟩
  · rw [resolve_dovecotHomeDir]
    exact enter_name _ ⟨_, h.named⟩
  · rintro ⟨id, other, store', hother, hid, hstore', hsame⟩
    by_cases hrow : other.storeId = user.storeId
    · rw [hrow, hstore] at hstore'
      obtain rfl := Option.some.inj hstore'
      exact guard_separates hguard hother hid hrow h.named hsame
    · exact h.unshared id other store' hother hid hrow hstore' hsame

/-- The removal is confined exactly where it is given up, or the home is the user's own. -/
theorem removeDovecotHome_confined_iff :
    HomeConfined db d cwd userId user ↔
      ∀ store, db.stores.get? user.storeId = some store →
        homeCollisions db userId user.storeId store.path
          (dovecotHomeDir store.path user.username) = [] →
        isdir d cwd (dovecotHomeDir store.path user.username) = true →
        HomeIsOwn db cwd userId user store := by
  constructor
  · intro h store hstore hguard hdir
    exact h.own hstore hguard hdir
  · intro hown
    cases hsome : homeToRemove db d cwd userId user with
    | none =>
        rw [HomeConfined, hsome]
        intro stuck
        simp [removeDovecotHome, hsome]
    | some home =>
        obtain ⟨store, hstore, rfl, hguard, hdir⟩ := homeToRemove_eq_some.mp hsome
        exact (hown store hstore hguard hdir).confined hstore hsome

/-- A user called `..`. -/
def dotsUser : User := { username := "..", storeId := "s1" }

/-- The user shares the store with another. -/
def dotsDb : Db where
  stores := ⟨[("s1", { path := "/mail" })], List.nodup_singleton "s1"⟩
  users := ⟨[("u1", dotsUser), ("u2", { username := "bob", storeId := "s1" })], by decide⟩
  accounts := ⟨[("a1", { maildirPath := "/mail/a1", storeId := "s1" })], List.nodup_singleton "a1"⟩
  migrations := .empty

def dotsFiles : Files :=
  .build <| ["/mail", "/mail/a1", "/mail/.dovecot-home", "/mail/.dovecot-home/bob"].map
    fun s => (resolve [] s, .dir)

/-- A name that every way of making a user accepts: its home is the store itself, and the
deletion takes every mailbox with it. -/
theorem removeDovecotHome_unconfined :
    createUserRefuses ".." = false ∧ oidcUsername ".." = ".." ∧
      ¬ HomeConfined dotsDb dotsFiles [] "u1" dotsUser ∧
      Lost dotsFiles
        (removeDovecotHome dotsDb dotsFiles [] "u1" dotsUser fun _ => false).1
        (resolve [] "/mail/a1") := by
  refine ⟨by decide, by decide, ?_, by decide, by decide⟩
  intro h
  have hstore : dotsDb.stores.get? "s1" = some { path := "/mail" } := rfl
  have hown := h.own hstore (by decide) (by decide)
  exact absurd hown.named (by decide)

end MailFallback
