import MailFallback.TempUsers.Prefix

/-! # The temporary users of running restores

A restore logs in as a user that it has made, and deletes it in the end. The hourly clean-up takes
every such user that is more than an hour old for an orphan. -/

namespace MailFallback.TempUsers

open Relational Storage Posix Transition Config

/-! ## The system -/

/-- A run of `execute_restore_job`, from `create_temp_imap_user` on. -/
structure RestoreRun where
  userId : String
  username : String
  sourceId : String
  ended : Bool := false

structure RestoresState where
  db : ConfigDb
  files : Files
  runs : List RestoreRun := []

/-- `delete_temp_imap_user`; what a refused DELETE raises is suppressed. -/
def deleteTempImapUser (db : ConfigDb) (host : Host) (stuck : Path → Bool) (d : Files)
    (name : String) : Files × ConfigDb :=
  if createUserRefuses name = false then (d, db)
  else
    match (db.rows .users).find? fun row => decide (row "username" = .str name) with
    | none => (d, db)
    | some row => ((retire host stuck (d, some db) row).1,
        (retire host stuck (d, some db) row).2.getD db)

inductive RestoresEvent where
  /-- `create_temp_imap_user` for the source account. -/
  | begin (new : NewRow) (hex passwordHash sourceId : String)
  /-- The `finally` block. -/
  | finish (i : ℕ) (stuck : Path → Bool)
  | cleanup (now : IsoFormat.DateTime) (stuck : Path → Bool)
  | sweep (stuck : Path → Bool)

/-- Between its two steps a run may take any time; connecting again only reads. -/
def RestoresState.next (host : Host) (s : RestoresState) : RestoresEvent → Option RestoresState
  | .begin new hex passwordHash sourceId =>
      if new.id ∈ s.runs.map RestoreRun.userId then none
      else (createTempImapUser s.db new hex passwordHash [sourceId]).map fun db =>
        { s with db := db, runs := s.runs ++ [⟨new.id, tempUsername hex, sourceId, false⟩] }
  | .finish i stuck =>
      match s.runs[i]? with
      | none => none
      | some run =>
          if run.ended = true then none
          else
            let result := deleteTempImapUser s.db host stuck s.files run.username
            some ⟨result.2, result.1, s.runs.set i { run with ended := true }⟩
  | .cleanup now stuck =>
      let result := cleanupTempImapUsers s.db host now stuck s.files
      some { s with db := result.2, files := result.1 }
  | .sweep stuck => some { s with files := sweepOrphanedRestoreHomes s.db host stuck s.files }

/-- The user of the run is there and owns the source account. -/
structure RestoreRun.Served (run : RestoreRun) (db : ConfigDb) : Prop where
  user : ∃ row ∈ db.rows .users, row "id" = .str run.userId ∧ row "username" = .str run.username
  owner : ∃ link ∈ db.rows .accountOwners,
    link "account_id" = .str run.sourceId ∧ link "user_id" = .str run.userId

structure RestoreRun.Gone (run : RestoreRun) (db : ConfigDb) : Prop where
  user : ∀ row ∈ db.rows .users, row "id" ≠ .str run.userId
  owner : ∀ link ∈ db.rows .accountOwners, link "user_id" ≠ .str run.userId

structure UsersServed (s : RestoresState) : Prop where
  running : ∀ run ∈ s.runs, run.ended = false → run.Served s.db
  finished : ∀ run ∈ s.runs, run.ended = true → run.Gone s.db

/-- No clean-up comes when a run is more than an hour old. -/
def Brief (host : Host) (s : RestoresState) : RestoresEvent → Prop
  | .cleanup now _ => ∀ run ∈ s.runs, run.ended = false → ∀ row ∈ s.db.rows .users,
      row "id" = .str run.userId → expired host now row = false
  | _ => True

/-! ## What a deletion takes -/

section Deletion

variable {db db' : ConfigDb} {id : PyValue} {r : Row} {t : TableName} {host : Host}
  {stuck : Path → Bool}

/-- The tables whose rows the deletion of a user takes with it. -/
def linkTables : List TableName := [.accountOwners, .userAllowedStores, .userAllowedRepositories]

/-- The deletion of the user leaves the row. -/
def Spared (id : PyValue) (t : TableName) (r : Row) : Prop :=
  (t ∈ linkTables → ownedBy id r = false) ∧ (t = .users → r "id" ≠ id)

theorem mem_deleteUser (h : deleteUser db id = some db') :
    r ∈ db'.rows t ↔ r ∈ db.rows t ∧ Spared id t r := by
  obtain ⟨db₁, h₁, h⟩ := Option.bind_eq_some_iff.mp h
  obtain ⟨db₂, h₂, h⟩ := Option.bind_eq_some_iff.mp h
  obtain ⟨db₃, h₃, h⟩ := Option.bind_eq_some_iff.mp h
  have hrows : db'.rows = Function.update (Function.update (Function.update (Function.update db.rows
      .accountOwners ((db.rows .accountOwners).filter fun row => !ownedBy id row))
      .userAllowedStores ((db.rows .userAllowedStores).filter fun row => !ownedBy id row))
      .userAllowedRepositories ((db.rows .userAllowedRepositories).filter fun row => !ownedBy id row))
      .users ((db.rows .users).filter fun row => !decide (row "id" = id)) := by
    rw [rows_withRows h, rows_withRows h₃, rows_withRows h₂, rows_withRows h₁]
    rfl
  rw [hrows]
  cases t <;> simp [Spared, linkTables, Function.update]

theorem mem_foldl_retire {rows : List Row} {start : Files × Option ConfigDb}
    (hstart : start.2 = some db) (h : (rows.foldl (retire host stuck) start).2 = some db') :
    r ∈ db'.rows t ↔ r ∈ db.rows t ∧ ∀ row ∈ rows, Spared (row "id") t r := by
  induction rows generalizing db start with
  | nil =>
      obtain rfl := Option.some.inj (hstart.symm.trans h)
      simp
  | cons row rows ih =>
      rw [List.foldl_cons] at h
      have hretired : (retire host stuck start row).2 = deleteUser db (row "id") := by
        rw [retire, hstart]
      cases hdelete : deleteUser db (row "id") with
      | none =>
          rw [foldl_retire_none rows (hretired.trans hdelete)] at h
          cases h
      | some db₁ =>
          rw [ih (hretired.trans hdelete) h, mem_deleteUser hdelete, List.forall_mem_cons, and_assoc]

theorem mem_cleanup_of_mem {now : IsoFormat.DateTime} {d : Files} (hr : r ∈ db.rows t)
    (hspared : ∀ row ∈ db.rows .users, expired host now row = true → Spared (row "id") t r) :
    r ∈ (cleanupTempImapUsers db host now stuck d).2.rows t := by
  unfold cleanupTempImapUsers
  dsimp only
  cases hresult : (((db.rows .users).filter (expired host now)).foldl (retire host stuck)
    (d, some db)).2 with
  | none => exact hr
  | some db' =>
      refine (mem_foldl_retire rfl hresult).mpr ⟨hr, fun row hrow => ?_⟩
      obtain ⟨hmem, hexpired⟩ := List.mem_filter.mp hrow
      exact hspared row hmem hexpired

theorem mem_of_mem_cleanup {now : IsoFormat.DateTime} {d : Files}
    (hr : r ∈ (cleanupTempImapUsers db host now stuck d).2.rows t) : r ∈ db.rows t := by
  unfold cleanupTempImapUsers at hr
  dsimp only at hr
  cases hresult : (((db.rows .users).filter (expired host now)).foldl (retire host stuck)
    (d, some db)).2 with
  | none =>
      rw [hresult] at hr
      exact hr
  | some db' =>
      rw [hresult] at hr
      exact ((mem_foldl_retire rfl hresult).mp hr).1

/-! ## A deletion that the database accepts -/

/-- Only the link tables refer to the user. -/
def Unlinked (db : ConfigDb) (id : PyValue) : Prop :=
  ∀ t, t ∉ linkTables → ∀ r ∈ db.rows t, ∀ ref ∈ references t, ref.table = .users → r ref.column ≠ id

/-- Fewer rows in one table, when those that others refer to stay. -/
theorem exists_withRows_filter (name : TableName) {keep : Row → Bool}
    (h : ∀ t, ∀ r ∈ db.rows t, (t = name → keep r = true) → ∀ ref ∈ references t, ref.table = name →
      r ref.column = .none ∨ ∃ s ∈ db.rows name, keep s = true ∧ s ref.target = r ref.column) :
    ∃ db', withRows db name ((db.rows name).filter keep) = some db' := by
  have hsub : ∀ t, ∀ r ∈ Function.update db.rows name ((db.rows name).filter keep) t,
      r ∈ db.rows t ∧ (t = name → keep r = true) := by
    intro t r hr
    by_cases ht : t = name
    · subst ht
      rw [Function.update_self] at hr
      exact ⟨(List.mem_filter.mp hr).1, fun _ => (List.mem_filter.mp hr).2⟩
    · rw [Function.update_of_ne ht] at hr
      exact ⟨hr, fun hname => absurd hname ht⟩
  unfold withRows Database.replace?
  rw [dif_pos]
  · exact ⟨_, rfl⟩
  · refine ⟨fun cols hcols => (db.distinct name cols hcols).filter _,
      fun r hr => db.admitted name r (List.mem_filter.mp hr).1, fun t _ r hr ref href => ?_⟩
    obtain ⟨hmem, hkeep⟩ := hsub t r hr
    rw [Schema.refersTo_iff]
    by_cases htable : ref.table = name
    · rw [htable, Function.update_self]
      refine (h t r hmem hkeep ref href htable).imp_right ?_
      rintro ⟨s, hs, hskeep, htarget⟩
      exact ⟨s, List.mem_filter.mpr ⟨hs, hskeep⟩, htarget⟩
    · rw [Function.update_of_ne htable]
      exact Schema.refersTo_iff.mp (db.referenced t r hmem ref href)

theorem references_not_link (t : TableName) : ∀ ref ∈ references t, ref.table ∉ linkTables := by
  cases t <;> decide

theorem references_of_link {t : TableName} (ht : t ∈ linkTables) :
    ∀ ref ∈ references t, ref.table = .users → ref.column = "user_id" := by
  revert t
  decide

theorem exists_withRows_link (db : ConfigDb) {name : TableName} (hname : name ∈ linkTables) (keep : Row → Bool) :
    ∃ db', withRows db name ((db.rows name).filter keep) = some db' :=
  exists_withRows_filter name fun t _ _ _ ref href htable =>
    absurd (htable ▸ hname) (references_not_link t ref href)

theorem target_eq_id (t : TableName) : ∀ ref ∈ references t, ref.target = "id" := by
  cases t <;> decide

theorem exists_deleteUser (h : Unlinked db id) : ∃ db', deleteUser db id = some db' := by
  obtain ⟨db₁, h₁⟩ := exists_withRows_link db
    (by decide : TableName.accountOwners ∈ linkTables) fun row => !ownedBy id row
  obtain ⟨db₂, h₂⟩ := exists_withRows_link db₁
    (by decide : TableName.userAllowedStores ∈ linkTables) fun row => !ownedBy id row
  obtain ⟨db₃, h₃⟩ := exists_withRows_link db₂
    (by decide : TableName.userAllowedRepositories ∈ linkTables) fun row => !ownedBy id row
  have hmem : ∀ t r, r ∈ db₃.rows t → r ∈ db.rows t ∧ (t ∈ linkTables → ownedBy id r = false) := by
    intro t r hr
    have hrows : db₃.rows = Function.update (Function.update (Function.update db.rows
        .accountOwners ((db.rows .accountOwners).filter fun row => !ownedBy id row))
        .userAllowedStores ((db.rows .userAllowedStores).filter fun row => !ownedBy id row))
        .userAllowedRepositories
        ((db.rows .userAllowedRepositories).filter fun row => !ownedBy id row) := by
      rw [rows_withRows h₃, rows_withRows h₂, rows_withRows h₁]
      rfl
    rw [hrows] at hr
    cases t <;> simp_all [linkTables, Function.update]
  have h₄ : ∃ db', withRows db₃ .users ((db₃.rows .users).filter fun row =>
      !decide (row "id" = id)) = some db' := by
    refine exists_withRows_filter .users fun t r hr _ ref href htable => ?_
    obtain ⟨hold, hlink⟩ := hmem t r hr
    have hne : r ref.column ≠ id := by
      by_cases ht : t ∈ linkTables
      · rw [references_of_link ht ref href htable]
        exact of_decide_eq_false (hlink ht)
      · exact h t ht r hold ref href htable
    have hrefers := Schema.refersTo_iff.mp (db₃.referenced t r hr ref href)
    rw [htable] at hrefers
    refine hrefers.imp_right ?_
    rintro ⟨s, hs, htarget⟩
    refine ⟨s, hs, ?_, htarget⟩
    rw [← htarget, target_eq_id t ref href] at hne
    simpa using hne
  obtain ⟨db', h₄⟩ := h₄
  refine ⟨db', ?_⟩
  unfold deleteUser
  rw [h₁]
  change Option.bind (withRows db₁ .userAllowedStores _) _ = _
  rw [h₂]
  change Option.bind (withRows db₂ .userAllowedRepositories _) _ = _
  rw [h₃]
  exact h₄

end Deletion

/-! ## What a creation adds -/

section Creation

variable {db db' : ConfigDb} {new : NewRow} {hex hash sourceId : String} {r : Row} {t : TableName}

def ownerRow (sourceId userId : String) : Row :=
  rowOf [("account_id", .str sourceId), ("user_id", .str userId)]

theorem rows_createTemp (h : createTempImapUser db new hex hash [sourceId] = some db') :
    (∀ r ∈ db.rows .users, r "id" ≠ .str new.id) ∧ ∃ storeId,
      db'.rows = Function.update (Function.update db.rows .users (db.rows .users ++
        [userRow new (tempUsername hex) (.str hash) .none .user storeId]))
        .accountOwners (db.rows .accountOwners ++ [ownerRow sourceId new.id]) := by
  obtain ⟨store, -, h⟩ := Option.bind_eq_some_iff.mp h
  obtain ⟨db₁, huser, h⟩ := Option.bind_eq_some_iff.mp h
  rw [List.foldlM_cons] at h
  obtain ⟨db₂, howner, h⟩ := Option.bind_eq_some_iff.mp h
  obtain rfl := Option.some.inj h
  have hrows := rows_insertRow huser
  constructor
  · intro r hr hid
    have hkey : ["id"] ∈ schema.key .users :: schema.unique .users := by decide
    have hdistinct := db₁.distinct .users ["id"] hkey
    rw [hrows, Function.update_self, List.pairwise_append] at hdistinct
    have hsame := hdistinct.2.2 r hr _ (List.mem_singleton_self _)
    rw [same_singleton.mpr ⟨hid, hid ▸ by simp⟩] at hsame
    cases hsame
  · refine ⟨store "id", ?_⟩
    rw [rows_insertRow howner, hrows, Function.update_of_ne (by decide)]
    rfl

theorem mem_createTemp (h : createTempImapUser db new hex hash [sourceId] = some db')
    (hr : r ∈ db.rows t) : r ∈ db'.rows t := by
  obtain ⟨-, storeId, hrows⟩ := rows_createTemp h
  rw [hrows]
  cases t <;> simp [Function.update, hr]

/-- What is new belongs to the new user. -/
theorem mem_or_new (h : createTempImapUser db new hex hash [sourceId] = some db')
    (hr : r ∈ db'.rows t) : r ∈ db.rows t ∨
      t = .users ∧ r "id" = .str new.id ∧ r "username" = .str (tempUsername hex) ∨
      t = .accountOwners ∧ r "account_id" = .str sourceId ∧ r "user_id" = .str new.id := by
  obtain ⟨-, storeId, hrows⟩ := rows_createTemp h
  rw [hrows] at hr
  by_cases howners : t = .accountOwners
  · subst howners
    rw [Function.update_self, List.mem_append, List.mem_singleton] at hr
    rcases hr with hold | rfl
    · exact .inl hold
    · exact .inr (.inr ⟨rfl, rfl, rfl⟩)
  · rw [Function.update_of_ne howners] at hr
    by_cases husers : t = .users
    · subst husers
      rw [Function.update_self, List.mem_append, List.mem_singleton] at hr
      rcases hr with hold | rfl
      · exact .inl hold
      · exact .inr (.inl ⟨rfl, rfl, rfl⟩)
    · rw [Function.update_of_ne husers] at hr
      exact .inl hr

theorem served_createTemp (h : createTempImapUser db new hex hash [sourceId] = some db') :
    (⟨new.id, tempUsername hex, sourceId, false⟩ : RestoreRun).Served db' := by
  obtain ⟨-, storeId, hrows⟩ := rows_createTemp h
  constructor
  · refine ⟨userRow new (tempUsername hex) (.str hash) .none .user storeId, ?_, rfl, rfl⟩
    rw [hrows, Function.update_of_ne (by decide), Function.update_self]
    exact List.mem_append_right _ (List.mem_singleton_self _)
  · refine ⟨ownerRow sourceId new.id, ?_, rfl, rfl⟩
    rw [hrows, Function.update_self]
    exact List.mem_append_right _ (List.mem_singleton_self _)

theorem users_not_refer : ∀ ref ∈ references .users, ref.table ≠ .users := by decide

theorem unlinked_createTemp (h : createTempImapUser db new hex hash [sourceId] = some db') :
    Unlinked db' (.str new.id) := by
  obtain ⟨hfresh, -⟩ := rows_createTemp h
  intro t ht r hr ref href htable hcol
  rcases mem_or_new h hr with hold | ⟨rfl, -, -⟩ | ⟨rfl, -, -⟩
  · have hrefers := Schema.refersTo_iff.mp (db.referenced t r hold ref href)
    rw [hcol, htable, target_eq_id t ref href] at hrefers
    rcases hrefers with hnull | ⟨s, hs, hid⟩
    · exact absurd hnull (by simp [schema])
    · exact hfresh s hs hid
  · exact users_not_refer ref href htable
  · exact ht (by decide)

end Creation

/-! ## The invariant -/

/-- What holds between the steps: nothing else refers to the users of the runs, so that each can be
deleted. -/
structure RunsSound (s : RestoresState) : Prop extends UsersServed s where
  unlinked : ∀ run ∈ s.runs, run.ended = false → Unlinked s.db (.str run.userId)
  fresh : (s.runs.map RestoreRun.userId).Nodup
  named : ∀ run ∈ s.runs, createUserRefuses run.username = true

variable {host : Host} {s s' : RestoresState}

theorem createUserRefuses_temp (hex : String) : createUserRefuses (tempUsername hex) = true := by
  apply List.isPrefixOf_iff_prefix.mpr
  rw [tempUsername, String.toList_append]
  exact List.prefix_append _ _

theorem RestoreRun.Served.mono {run : RestoreRun} {db db' : ConfigDb} (h : run.Served db)
    (husers : ∀ r ∈ db.rows .users, r "id" = .str run.userId → r ∈ db'.rows .users)
    (howners : ∀ r ∈ db.rows .accountOwners, r "user_id" = .str run.userId →
      r ∈ db'.rows .accountOwners) : run.Served db' := by
  obtain ⟨row, hrow, hid, hname⟩ := h.user
  obtain ⟨link, hlink, haccount, huser⟩ := h.owner
  exact ⟨⟨row, husers row hrow hid, hid, hname⟩,
    ⟨link, howners link hlink huser, haccount, huser⟩⟩

theorem RestoreRun.Gone.mono {run : RestoreRun} {db db' : ConfigDb} (h : run.Gone db)
    (hrows : ∀ t, ∀ r ∈ db'.rows t, r ∈ db.rows t) : run.Gone db' :=
  ⟨fun row hrow => h.user row (hrows .users row hrow),
    fun link hlink => h.owner link (hrows .accountOwners link hlink)⟩

theorem Unlinked.mono {db db' : ConfigDb} {id : PyValue} (h : Unlinked db id)
    (hrows : ∀ t, t ∉ linkTables → t ≠ .users → ∀ r ∈ db'.rows t, r ∈ db.rows t) :
    Unlinked db' id := by
  intro t ht r hr ref href htable
  by_cases husers : t = .users
  · subst husers
    exact absurd htable (users_not_refer ref href)
  · exact h t ht r (hrows t ht husers r hr) ref href htable

theorem sound_begin {new : NewRow} {hex hash sourceId : String} (h : RunsSound s)
    (hnext : s.next host (.begin new hex hash sourceId) = some s') : RunsSound s' := by
  obtain ⟨hfresh, hnext⟩ := Option.ite_none_left_eq_some.mp hnext
  obtain ⟨db, hdb, rfl⟩ := Option.map_eq_some_iff.mp hnext
  have hne : ∀ run ∈ s.runs, run.userId ≠ new.id := fun run hrun heq =>
    hfresh (heq ▸ List.mem_map_of_mem hrun)
  constructor
  · constructor
    · intro run hrun hover
      rcases List.mem_append.mp hrun with hold | hnew
      · exact (h.running run hold hover).mono (fun r hr _ => mem_createTemp hdb hr)
          fun r hr _ => mem_createTemp hdb hr
      · rw [List.mem_singleton.mp hnew]
        exact served_createTemp hdb
    · intro run hrun hover
      rcases List.mem_append.mp hrun with hold | hnew
      · have hgone := h.finished run hold hover
        constructor
        · intro row hrow hid
          rcases mem_or_new hdb hrow with hmem | ⟨-, hnew, -⟩ | ⟨husers, -⟩
          · exact hgone.user row hmem hid
          · exact hne run hold (PyValue.str.inj (hid.symm.trans hnew))
          · cases husers
        · intro link hlink hid
          rcases mem_or_new hdb hlink with hmem | ⟨howners, -⟩ | ⟨-, -, hnew⟩
          · exact hgone.owner link hmem hid
          · cases howners
          · exact hne run hold (PyValue.str.inj (hid.symm.trans hnew))
      · rw [List.mem_singleton.mp hnew] at hover
        cases hover
  · intro run hrun hover
    rcases List.mem_append.mp hrun with hold | hnew
    · refine (h.unlinked run hold hover).mono fun t ht husers r hr => ?_
      rcases mem_or_new hdb hr with hmem | ⟨rfl, -, -⟩ | ⟨rfl, -, -⟩
      · exact hmem
      · exact absurd rfl husers
      · exact absurd (by decide) ht
    · rw [List.mem_singleton.mp hnew]
      exact unlinked_createTemp hdb
  · rw [List.map_append, List.map_singleton, List.nodup_append]
    refine ⟨h.fresh, List.nodup_singleton _, fun a ha b hb heq => ?_⟩
    have hnew : a = new.id := heq.trans (List.mem_singleton.mp hb)
    exact hfresh (hnew ▸ ha)
  · intro run hrun
    rcases List.mem_append.mp hrun with hold | hnew
    · exact h.named run hold
    · rw [List.mem_singleton.mp hnew]
      exact createUserRefuses_temp hex

theorem sound_cleanup {now : IsoFormat.DateTime} {stuck : Path → Bool} (h : RunsSound s)
    (hok : Brief host s (.cleanup now stuck)) (hnext : s.next host (.cleanup now stuck) = some s') :
    RunsSound s' := by
  obtain rfl := Option.some.inj hnext
  have hother : ∀ run ∈ s.runs, run.ended = false → ∀ row ∈ s.db.rows .users,
      expired host now row = true → row "id" ≠ .str run.userId := by
    intro run hrun hover row hrow hexpired hid
    rw [hok run hrun hover row hrow hid] at hexpired
    cases hexpired
  constructor
  · constructor
    · intro run hrun hover
      refine (h.running run hrun hover).mono (fun r hr hid => ?_) fun r hr hid => ?_
      · refine mem_cleanup_of_mem hr fun row hrow hexpired => ⟨fun ht => absurd ht (by decide), ?_⟩
        exact fun _ heq => hother run hrun hover row hrow hexpired (heq.symm.trans hid)
      · refine mem_cleanup_of_mem hr fun row hrow hexpired => ⟨fun _ => ?_, fun ht => by cases ht⟩
        exact decide_eq_false fun heq =>
          hother run hrun hover row hrow hexpired (heq.symm.trans hid)
    · exact fun run hrun hover => (h.finished run hrun hover).mono fun t r hr => mem_of_mem_cleanup hr
  · exact fun run hrun hover =>
      (h.unlinked run hrun hover).mono fun t _ _ r hr => mem_of_mem_cleanup hr
  · exact h.fresh
  · exact h.named

theorem sound_sweep {stuck : Path → Bool} (h : RunsSound s)
    (hnext : s.next host (.sweep stuck) = some s') : RunsSound s' := by
  obtain rfl := Option.some.inj hnext
  exact ⟨⟨h.running, h.finished⟩, h.unlinked, h.fresh, h.named⟩

/-- The other runs have other users. -/
theorem mem_set_run {i : ℕ} {run new run' : RestoreRun} {runs : List RestoreRun}
    (hfresh : (runs.map RestoreRun.userId).Nodup) (hrun : runs[i]? = some run)
    (hmem : run' ∈ runs.set i new) :
    run' = new ∨ run' ∈ runs ∧ run'.userId ≠ run.userId := by
  obtain ⟨j, hj⟩ := List.mem_iff_getElem?.mp hmem
  by_cases hij : i = j
  · subst hij
    obtain ⟨hlt, -⟩ := List.getElem?_eq_some_iff.mp hrun
    rw [List.getElem?_set_self hlt] at hj
    exact .inl (Option.some.inj hj).symm
  · rw [List.getElem?_set_ne hij] at hj
    refine .inr ⟨List.mem_of_getElem? hj, fun heq => hij ?_⟩
    have hid : (runs.map RestoreRun.userId)[i]? = some run.userId := by
      rw [List.getElem?_map, hrun]
      rfl
    have hid' : (runs.map RestoreRun.userId)[j]? = some run'.userId := by
      rw [List.getElem?_map, hj]
      rfl
    obtain ⟨hlt, -⟩ := List.getElem?_eq_some_iff.mp hid
    exact (List.getElem?_inj hlt hfresh).mp (by rw [hid, hid', heq])

/-- The deletion of the run's own user. -/
theorem delete_own (host : Host) (stuck : Path → Bool) {run : RestoreRun} (hserved : run.Served s.db)
    (hunlinked : Unlinked s.db (.str run.userId)) (hnamed : createUserRefuses run.username = true) :
    deleteUser s.db (.str run.userId) =
      some (deleteTempImapUser s.db host stuck s.files run.username).2 := by
  obtain ⟨row, hrow, hid, hname⟩ := hserved.user
  have hfind : (s.db.rows .users).find? (fun r => decide (r "username" = .str run.username)) =
      some row := by
    obtain ⟨found, hfound⟩ : ∃ found, (s.db.rows .users).find?
        (fun r => decide (r "username" = .str run.username)) = some found := by
      refine Option.isSome_iff_exists.mp (List.find?_isSome.mpr ⟨row, hrow, ?_⟩)
      exact decide_eq_true hname
    have hkey : ["username"] ∈ schema.key .users :: schema.unique .users := by decide
    have hsame : found = row := by
      refine Database.eq_of_same (List.mem_of_find?_eq_some hfound) hrow hkey ?_
      have hfoundName : found "username" = .str run.username := by
        simpa using List.find?_some hfound
      refine same_singleton.mpr ⟨hfoundName.trans hname.symm, ?_⟩
      rw [hfoundName]
      exact fun h => by cases h
    rw [hfound, hsame]
  obtain ⟨db', hdb'⟩ := exists_deleteUser hunlinked
  unfold deleteTempImapUser
  rw [if_neg (by rw [hnamed]; decide), hfind]
  dsimp only [retire]
  rw [hid, hdb']
  rfl

theorem sound_finish {i : ℕ} {stuck : Path → Bool} (h : RunsSound s)
    (hnext : s.next host (.finish i stuck) = some s') : RunsSound s' := by
  unfold RestoresState.next at hnext
  dsimp only at hnext
  split at hnext
  · cases hnext
  · rename_i run hrun
    obtain ⟨hover, hs'⟩ := Option.ite_none_left_eq_some.mp hnext
    have hmem := List.mem_of_getElem? hrun
    have hrunning : run.ended = false := by simpa using hover
    have hdelete := delete_own host stuck (h.running run hmem hrunning)
      (h.unlinked run hmem hrunning) (h.named run hmem)
    obtain rfl := Option.some.inj hs'
    have hsub : ∀ t, ∀ r ∈ (deleteTempImapUser s.db host stuck s.files run.username).2.rows t,
        r ∈ s.db.rows t := fun t r hr => ((mem_deleteUser hdelete).mp hr).1
    constructor
    · constructor
      · intro run' hrun' hover'
        rcases mem_set_run h.fresh hrun hrun' with rfl | ⟨hold, hne⟩
        · cases hover'
        · refine (h.running run' hold hover').mono (fun r hr hid => ?_) fun r hr hid => ?_
          · refine (mem_deleteUser hdelete).mpr ⟨hr, fun ht => absurd ht (by decide), fun _ heq => ?_⟩
            exact hne (PyValue.str.inj (hid.symm.trans heq))
          · refine (mem_deleteUser hdelete).mpr ⟨hr, fun _ => ?_, fun ht => by cases ht⟩
            exact decide_eq_false fun heq => hne (PyValue.str.inj (hid.symm.trans heq))
      · intro run' hrun' hover'
        rcases mem_set_run h.fresh hrun hrun' with rfl | ⟨hold, -⟩
        · constructor
          · intro row hrow
            exact ((mem_deleteUser hdelete).mp hrow).2.2 rfl
          · intro link hlink
            exact of_decide_eq_false (((mem_deleteUser hdelete).mp hlink).2.1 (by decide))
        · exact (h.finished run' hold hover').mono hsub
    · intro run' hrun' hover'
      rcases mem_set_run h.fresh hrun hrun' with rfl | ⟨hold, -⟩
      · cases hover'
      · exact (h.unlinked run' hold hover').mono fun t _ _ r hr => hsub t r hr
    · have hids : (s.runs.set i { run with ended := true }).map RestoreRun.userId =
          s.runs.map RestoreRun.userId := by
        have hid : (s.runs.map RestoreRun.userId)[i]? = some run.userId := by
          rw [List.getElem?_map, hrun]
          rfl
        obtain ⟨hlt, heq⟩ := List.getElem?_eq_some_iff.mp hid
        rw [List.map_set]
        exact heq ▸ List.set_getElem_self hlt
      rw [hids]
      exact h.fresh
    · intro run' hrun'
      rcases mem_set_run h.fresh hrun hrun' with rfl | ⟨hold, -⟩
      · exact h.named run hmem
      · exact h.named run' hold

theorem sound_step {e : RestoresEvent} (h : RunsSound s) (hok : Brief host s e)
    (hnext : s.next host e = some s') : RunsSound s' := by
  cases e with
  | begin new hex hash sourceId => exact sound_begin h hnext
  | finish i stuck => exact sound_finish h hnext
  | cleanup now stuck => exact sound_cleanup h hok hnext
  | sweep stuck => exact sound_sweep h hnext

/-- As long as no clean-up meets a run that is an hour old, every run keeps its user. -/
theorem usersServed_of_brief {db : ConfigDb} {files : Files}
    (h : Reaches (RestoresState.next host) (Brief host) ⟨db, files, []⟩ s) : UsersServed s := by
  have hstart : RunsSound ⟨db, files, []⟩ := by
    refine ⟨⟨?_, ?_⟩, ?_, List.nodup_nil, ?_⟩ <;> exact fun _ hrun => (List.not_mem_nil hrun).elim
  exact (h.invariant hstart fun _ _ _ hs hok hnext => sound_step hs hok hnext).toUsersServed

/-! ## A run of two hours -/

/-- A host on one day. -/
def dayHost : Host :=
  { sampleHost with hourOld := fun now createdAt => decide (createdAt.hour.val + 1 < now.hour.val) }

def later : IsoFormat.DateTime := { (sampleRow "t1").createdAt with hour := ⟨2, by decide⟩ }

def oneAccount : RestoresState := ⟨sampleDb "idle" false, restoreHomeFiles, []⟩

/-- A run that lasts for two hours loses its user. -/
theorem not_usersServed : ¬ ∀ (host : Host) (db : ConfigDb) (files : Files) (s : RestoresState),
    Reaches (RestoresState.next host) (fun _ _ => True) ⟨db, files, []⟩ s → UsersServed s := by
  intro h
  have hrun : (([.begin (sampleRow "t1") "x" "hash" "a1", .cleanup later fun _ => false] :
      List RestoresEvent).foldlM (guarded (fun _ _ => true) (RestoresState.next dayHost))
        oneAccount).any (fun s => s.runs.any fun run => !run.ended &&
          !(s.db.rows .users).any fun row => decide (row "id" = .str run.userId)) = true := by
    decide +kernel
  obtain ⟨s, hreach, hend⟩ := Reaches.of_any hrun fun _ _ _ => trivial
  obtain ⟨run, hmem, hgone⟩ := List.any_eq_true.mp hend
  rw [Bool.and_eq_true, Bool.not_eq_true', Bool.not_eq_true'] at hgone
  obtain ⟨row, hrow, hid, -⟩ := ((h dayHost _ _ s hreach).running run hmem hgone.1).user
  exact absurd (decide_eq_true hid) (List.any_eq_false.mp hgone.2 row hrow)

def noCleanup (_ : RestoresState) : RestoresEvent → Bool
  | .cleanup .. => false
  | _ => true

theorem brief_noCleanup (s : RestoresState) (e : RestoresEvent) (he : noCleanup s e = true) :
    Brief dayHost s e := by
  cases e with
  | cleanup => cases he
  | _ => trivial

theorem usersServed_sample : ∃ s, Reaches (RestoresState.next dayHost) (Brief dayHost) oneAccount s ∧
    s.runs.map RestoreRun.ended = [true, false] ∧ UsersServed s := by
  have hrun : (([.begin (sampleRow "t1") "x" "hash" "a1", .begin (sampleRow "t2") "y" "hash" "a1",
      .finish 0 fun _ => false] : List RestoresEvent).foldlM
        (guarded noCleanup (RestoresState.next dayHost)) oneAccount).any
        (fun s => decide (s.runs.map RestoreRun.ended = [true, false])) = true := by
    decide +kernel
  obtain ⟨s, hreach, hend⟩ := Reaches.of_any hrun brief_noCleanup
  exact ⟨s, hreach, of_decide_eq_true hend, usersServed_of_brief hreach⟩

end MailFallback.TempUsers
