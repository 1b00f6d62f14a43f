import MailFallback.Config.DefaultStore
import MailFallback.TempUsers.Semantics

/-! # What the reserved prefix protects

As long as no username that is given by hand or brought in by an import folds onto the prefix,
the clean-ups reach nothing but what `create_temp_imap_user` has made. -/

namespace MailFallback.TempUsers

open Relational Storage Posix Transition Config

variable {db db' : ConfigDb} {row r : Row} {host : Host} {s s' : UsersState} {cwd : Path}
  {stuck : Path → Bool} {d d' : Files} {live : List String} {storePath : String} {q : Path}
  {x : Externals} {key : String} {nonces : TableName → Config.Record → String → ℕ} {data : Export}

/-! ## Names -/

/-- The name folds onto one that the clean-ups take for a temporary user's. -/
def Reserved (name : String) : Prop := hasTempPrefix (sanitizePathComponent name) = true

instance : DecidablePred Reserved := fun _ => inferInstanceAs (Decidable (_ = true))

theorem sanitize_of_safe {name : String} (h : ∀ c ∈ name.toList, isPathSafe c = true) :
    sanitizePathComponent name = name := by
  apply String.toList_injective
  rw [sanitizePathComponent, String.toList_ofList]
  conv_rhs => rw [← List.map_id name.toList]
  exact List.map_congr_left fun c hc => if_pos (h c hc)

theorem isPathSafe_of_mem_sanitize {name : String} {c : Char}
    (h : c ∈ (sanitizePathComponent name).toList) : isPathSafe c = true := by
  rw [sanitizePathComponent, String.toList_ofList, List.mem_map] at h
  obtain ⟨c, -, rfl⟩ := h
  split
  · assumption
  · decide

/-- A literal prefix stays when the name is folded. -/
theorem Reserved.of_prefix {name : String} (h : createUserRefuses name = true) : Reserved name := by
  obtain ⟨rest, hrest⟩ := List.isPrefixOf_iff_prefix.mp h
  apply List.isPrefixOf_iff_prefix.mpr
  refine ⟨rest.map fun c => if isPathSafe c then c else '_', ?_⟩
  have hfound : tempUserPrefix.toList.map (fun c => if isPathSafe c then c else '_') =
      tempUserPrefix.toList := by decide
  rw [sanitizePathComponent, String.toList_ofList, ← hrest, List.map_append, hfound]

/-- The name of a first login has safe characters only and no prefix. -/
theorem oidcUsername_not_reserved (raw : String) : ¬Reserved (oidcUsername raw) := by
  have hsafe : ∀ c ∈ (oidcUsername raw).toList, isPathSafe c = true := by
    intro c hc
    unfold oidcUsername at hc
    dsimp only at hc
    split at hc
    · rw [String.toList_append, List.mem_append] at hc
      rcases hc with hu | hc
      · obtain rfl := List.mem_singleton.mp hu
        decide
      · rw [String.toList_ofList] at hc
        exact isPathSafe_of_mem_sanitize (List.mem_of_mem_take hc)
    · rw [String.toList_ofList] at hc
      exact isPathSafe_of_mem_sanitize (List.mem_of_mem_take hc)
  unfold Reserved
  rw [sanitize_of_safe hsafe, Bool.not_eq_true]
  unfold oidcUsername
  dsimp only
  split
  · rw [hasTempPrefix, createUserRefuses, String.toList_append]
    rfl
  · rename_i hplain
    simpa [hasTempPrefix] using hplain

/-! ## Rows -/

theorem rows_withRows {name : TableName} {rows : List Row} (h : withRows db name rows = some db') :
    db'.rows = Function.update db.rows name rows :=
  Database.rows_replace? h

theorem rows_insertRow {name : TableName} (h : insertRow db name row = some db') :
    db'.rows = Function.update db.rows name (db.rows name ++ [row]) := by
  unfold insertRow at h
  cases hinsert : db.insert? name row with
  | error v =>
      rw [hinsert] at h
      cases h
  | ok db₁ =>
      rw [hinsert] at h
      cases h
      exact (Database.insert?_eq_ok.mp hinsert).2

theorem mem_users_insertRow (h : insertRow db .users row = some db') (hr : r ∈ db'.rows .users) :
    r ∈ db.rows .users ∨ r = row := by
  rw [rows_insertRow h, Function.update_self, List.mem_append, List.mem_singleton] at hr
  exact hr

theorem user_eq_of_id (hrow : row ∈ db.rows .users) (hr : r ∈ db.rows .users)
    (h : row "id" = r "id") : row = r := by
  have hkey : ["id"] ∈ schema.key .users :: schema.unique .users := by decide
  exact Database.eq_of_same hrow hr hkey (same_singleton.mpr ⟨h, id_ne_none rfl hrow⟩)

/-! ## The invariant -/

/-- The users with the prefix are those of restores, and no other name folds onto it. -/
structure Guarded (db : ConfigDb) (minted : List String) : Prop where
  minted : ∀ row ∈ db.rows .users, isTempUser row = true → text (row "id") ∈ minted
  literal : ∀ row ∈ db.rows .users, Reserved (username row) → isTempUser row = true

variable {minted : List String}

/-- Users that were there, or whose names are free. -/
theorem Guarded.of_rows (h : Guarded db minted)
    (hrows : ∀ r ∈ db'.rows .users, r ∈ db.rows .users ∨ ¬Reserved (username r)) :
    Guarded db' minted := by
  constructor
  · intro r hr htemp
    rcases hrows r hr with hold | hfree
    · exact h.minted r hold htemp
    · exact absurd (Reserved.of_prefix htemp) hfree
  · intro r hr hreserved
    rcases hrows r hr with hold | hfree
    · exact h.literal r hold hreserved
    · exact absurd hreserved hfree

/-- Users that were there, with the names they had or with names that are free. -/
theorem Guarded.of_updated (h : Guarded db minted)
    (hold : ∀ r ∈ db'.rows .users, ∃ old ∈ db.rows .users, r "id" = old "id" ∧
      (r "username" = old "username" ∨ ¬Reserved (username r))) : Guarded db' minted := by
  constructor
  · intro r hr htemp
    obtain ⟨old, hmem, hid, hname | hfree⟩ := hold r hr
    · rw [hid]
      apply h.minted old hmem
      rwa [isTempUser, username, ← hname]
    · exact absurd (Reserved.of_prefix htemp) hfree
  · intro r hr hreserved
    obtain ⟨old, hmem, -, hname | hfree⟩ := hold r hr
    · rw [username, hname] at hreserved
      have htemp := h.literal old hmem hreserved
      rwa [isTempUser, username, hname]
    · exact absurd hreserved hfree

theorem Guarded.congr (h : Guarded db minted) (hrows : db'.rows .users = db.rows .users) :
    Guarded db' minted :=
  h.of_rows fun _ hr => .inl (hrows ▸ hr)

@[simp] theorem username_userRow (new : NewRow) (name : String) (hash subject : PyValue)
    (role : UserRole) (storeId : PyValue) :
    username (userRow new name hash subject role storeId) = name := rfl

@[simp] theorem id_userRow (new : NewRow) (name : String) (hash subject : PyValue)
    (role : UserRole) (storeId : PyValue) :
    userRow new name hash subject role storeId "id" = .str new.id := rfl

theorem Guarded.createUser {new : NewRow} {name hash storeId : String} {role : UserRole}
    (h : Guarded db minted) (hname : createUserRefuses name = false → ¬Reserved name)
    (hdb : createUser db new name hash role storeId = some db') : Guarded db' minted := by
  obtain ⟨hplain, hinsert⟩ := Option.ite_none_left_eq_some.mp hdb
  refine h.of_rows fun r hr => ?_
  rcases mem_users_insertRow hinsert hr with hold | rfl
  · exact .inl hold
  · exact .inr (hname (by simpa using hplain))

/-- The loop over the fields leaves the id alone and sets the name to one of its values. -/
theorem foldl_setUserField (fields : List (String × PyValue)) (row : Row) :
    fields.foldl setUserField row "id" = row "id" ∧
      (fields.foldl setUserField row "username" = row "username" ∨
        ∃ field ∈ fields, field.1 = "username" ∧
          fields.foldl setUserField row "username" = field.2) := by
  induction fields generalizing row with
  | nil => exact ⟨rfl, .inl rfl⟩
  | cons field fields ih =>
      rw [List.foldl_cons]
      obtain ⟨hid, hname⟩ := ih (setUserField row field)
      have hfield : setUserField row field "id" = row "id" ∧
          (setUserField row field "username" = row "username" ∨
            field.1 = "username" ∧ setUserField row field "username" = field.2) := by
        unfold setUserField
        split
        · rename_i hmem
          have hne : "id" ≠ field.1 := by
            rintro hid
            rw [← hid] at hmem
            exact absurd hmem (by decide)
          refine ⟨Function.update_of_ne hne .., ?_⟩
          by_cases hu : field.1 = "username"
          · exact .inr ⟨hu, by rw [← hu, Function.update_self]⟩
          · exact .inl (Function.update_of_ne (Ne.symm hu) ..)
        · exact ⟨rfl, .inl rfl⟩
      refine ⟨hid.trans hfield.1, ?_⟩
      rcases hname with hkept | ⟨f, hf, hfname, hval⟩
      · rcases hfield.2 with hold | ⟨hu, hval⟩
        · exact .inl (hkept.trans hold)
        · exact .inr ⟨field, List.mem_cons_self, hu, hkept.trans hval⟩
      · exact .inr ⟨f, List.mem_cons_of_mem _ hf, hfname, hval⟩

theorem Guarded.updateUser {id : String} {fields : List (String × PyValue)} (h : Guarded db minted)
    (hfields : ∀ field ∈ fields, field.1 = "username" → ¬Reserved (text field.2))
    (hdb : updateUser db id fields = some db') : Guarded db' minted := by
  unfold TempUsers.updateUser at hdb
  cases hfind : (db.rows .users).find? (hasId id) with
  | none =>
      rw [hfind] at hdb
      cases hdb
      exact h
  | some user =>
      rw [hfind] at hdb
      have hrows := rows_withRows hdb
      generalize hset : (if user "migrating" = .bool true then
        fields.filter fun field => field.1 ≠ "store_id" else fields) = set at hrows
      have hsub : ∀ field ∈ set, field ∈ fields := by
        intro field hfield
        rw [← hset] at hfield
        split at hfield
        · exact (List.mem_filter.mp hfield).1
        · exact hfield
      refine h.of_updated fun r hr => ?_
      rw [hrows, Function.update_self] at hr
      obtain ⟨old, hmem, rfl⟩ := List.mem_map.mp hr
      refine ⟨old, hmem, ?_⟩
      split
      · obtain ⟨hid, hname⟩ := foldl_setUserField set old
        refine ⟨hid, hname.imp (fun h => h) ?_⟩
        rintro ⟨field, hfield, hu, hval⟩
        rw [username, hval]
        exact hfields field (hsub field hfield) hu
      · exact ⟨rfl, .inl rfl⟩

theorem users_ensureDefaultStore {path : String} {new : NewRow} {committed : Bool}
    (h : ensureDefaultStore db path new = some (db', committed)) :
    db'.rows .users = db.rows .users := by
  have hother : TableName.users ≠ .mailStores := by decide
  unfold ensureDefaultStore at h
  cases hdefault : getDefaultStore db with
  | some store =>
      rw [hdefault] at h
      cases h
      rfl
  | none =>
      rw [hdefault] at h
      dsimp only at h
      split at h
      · obtain ⟨adopted, hadopted, h⟩ := Option.bind_eq_some_iff.mp h
        cases h
        have hstores : withRows db .mailStores _ = some db' := hadopted
        rw [rows_withRows hstores, Function.update_of_ne hother]
      · unfold addStore at h
        split at h
        · rename_i db₁ hinsert
          cases h
          rw [(Database.insert?_eq_ok.mp hinsert).2, Database.rowsWith,
            Function.update_of_ne hother]
        · cases h

theorem Guarded.oidcLogin {path sub raw : String} {newStore newUser : NewRow} {role : UserRole}
    {adminGroup : Bool} (h : Guarded db minted) :
    Guarded (oidcLogin db path newStore newUser sub raw role adminGroup) minted := by
  unfold TempUsers.oidcLogin
  split
  · rename_i user _
    split
    · -- only the role changes
      cases hdb : withRows db .users ((db.rows .users).map fun row =>
        if row "id" = user "id" then Function.update row "role" (roleValue role) else row) with
      | none => exact h
      | some db₁ =>
          refine h.of_updated fun r hr => ?_
          rw [Option.getD_some, rows_withRows hdb, Function.update_self] at hr
          obtain ⟨old, hmem, rfl⟩ := List.mem_map.mp hr
          refine ⟨old, hmem, ?_⟩
          split
          · exact ⟨rfl, .inl rfl⟩
          · exact ⟨rfl, .inl rfl⟩
    · exact h
  · cases hensure : ensureDefaultStore db path newStore with
    | none => exact h
    | some result =>
        obtain ⟨db₁, committed⟩ := result
        have h₁ : Guarded db₁ minted := h.congr (users_ensureDefaultStore hensure)
        dsimp only
        cases hstore : getDefaultStore db₁ with
        | none => exact h₁
        | some store =>
            dsimp only
            cases hinsert : insertRow db₁ .users (userRow newUser (oidcUsername raw) .none (.str sub)
              role (store "id")) with
            | none => exact h₁
            | some db₂ =>
                refine h₁.of_rows fun r hr => ?_
                rw [Option.getD_some] at hr
                rcases mem_users_insertRow hinsert hr with hold | rfl
                · exact .inl hold
                · rw [username_userRow]
                  exact .inr (oidcUsername_not_reserved raw)

/-! ## The import -/

/-- A user of the export whose name is reserved is there already, under its id or its name. -/
def BringsNoReserved (db : ConfigDb) (data : Export) : Prop :=
  ∀ record ∈ data.records .users, ∀ name, dictOf record "username" = some (.str name) →
    Reserved name → ∃ row ∈ db.rows .users,
      dictOf record "id" = some (row "id") ∨ row "username" = .str name

theorem rewriteRefs_users (remap : PyValue → Option PyValue) (record : Dict) {col : String}
    (hcol : col ≠ "store_id") : rewriteRefs remap .users record col = record col := by
  have hfk : fkCols .users = ["store_id"] := rfl
  rw [rewriteRefs, hfk, if_neg (by simpa using hcol)]

/-- The name of an imported row is the name of its record. -/
theorem username_toRow (remap : PyValue → Option PyValue) (record : Dict) :
    toRow .users (coerceTypes .users (rewriteRefs remap .users record)) "username" =
      (record "username").getD .none := by
  have htype : columnType .users "username" = some .string := by decide
  rw [toRow, coerceTypes, rewriteRefs_users remap record (by decide), htype]
  cases record "username" with
  | none => rfl
  | some v => cases v <;> rfl

theorem not_reserved_empty : ¬Reserved "" := by decide

/-- What the import keeps while it goes over the records. -/
def OnlyFree (db db' : ConfigDb) : Prop :=
  Database.Grows db db' ∧ ∀ r ∈ db'.rows .users, r ∈ db.rows .users ∨ ¬Reserved (username r)

theorem importRecord_grows (name : TableName) (st : ImportState) (record : Config.Record) :
    Database.Grows st.db (importRecord x key nonces name st record).db := by
  rcases importRecord_cases x key nonces name st record with hsame | ⟨db₁, hdb, hsettle⟩
  · rw [hsame]
    exact .refl
  · obtain ⟨-, -, -, values, -, hinsert⟩ := settle_inserted hsettle
    exact hdb ▸ Database.grows_insert? hinsert

theorem OnlyFree.importRecord {st : ImportState} {record : Config.Record} (h : OnlyFree db st.db)
    (hnew : ∀ name, dictOf record "username" = some (.str name) → Reserved name →
      ∃ row ∈ db.rows .users, dictOf record "id" = some (row "id") ∨ row "username" = .str name) :
    OnlyFree db (importRecord x key nonces .users st record).db := by
  refine ⟨h.1.trans (importRecord_grows _ _ _), ?_⟩
  rcases importRecord_cases x key nonces .users st record with hsame | ⟨db₁, hdb, hsettle⟩
  · rw [hsame]
    exact h.2
  · obtain ⟨hpk, hnatural, -, values, hvalues, hinsert⟩ := settle_inserted hsettle
    rw [encryptSecrets_plain rfl] at hvalues
    obtain rfl := Option.some.inj hvalues
    intro r hr
    rw [hdb, (Database.insert?_eq_ok.mp hinsert).2, Database.rowsWith, Function.update_self,
      List.mem_append, List.mem_singleton] at hr
    rcases hr with hold | rfl
    · exact h.2 r hold
    · right
      intro hreserved
      rw [username, username_toRow] at hreserved
      obtain ⟨name, hname⟩ : ∃ name, dictOf record "username" = some (.str name) := by
        cases hdict : dictOf record "username" with
        | none =>
            rw [hdict] at hreserved
            exact absurd hreserved not_reserved_empty
        | some v =>
            rw [hdict] at hreserved
            cases v with
            | str name => exact ⟨name, rfl⟩
            | _ => exact absurd hreserved not_reserved_empty
      rw [hname] at hreserved
      -- the user it names is found before anything is inserted
      obtain ⟨row, hrow, hid | huser⟩ := hnew name hname hreserved
      · have hmem := h.1.mem hrow
        have hdiffers := Database.first?_none hpk hmem
        have hsame : schema.same ["id"] (fun col =>
            (rewriteRefs st.remap .users (dictOf record) col).getD .none) row = true := by
          apply same_singleton.mpr
          rw [rewriteRefs_users _ _ (by decide), hid]
          exact ⟨rfl, id_ne_none rfl hmem⟩
        exact absurd (hsame.symm.trans hdiffers) (by decide)
      · have hmem := h.1.mem hrow
        have hdiffers := Database.first?_none hnatural hmem
        have hsame : schema.same ["username"] (fun col =>
            (rewriteRefs st.remap .users (dictOf record) col).getD .none) row = true := by
          apply same_singleton.mpr
          rw [rewriteRefs_users _ _ (by decide), hname, huser]
          exact ⟨rfl, nofun⟩
        exact absurd (hsame.symm.trans hdiffers) (by decide)

theorem OnlyFree.importTable (hnew : BringsNoReserved db data) (t : TableName) {st : ImportState}
    (h : OnlyFree db st.db) : OnlyFree db (importTable x key nonces data st t).db := by
  have hrecords : t = .users → ∀ record ∈ data.records t, ∀ name,
      dictOf record "username" = some (.str name) → Reserved name → ∃ row ∈ db.rows .users,
        dictOf record "id" = some (row "id") ∨ row "username" = .str name := by
    rintro rfl
    exact hnew
  unfold Config.importTable
  generalize data.records t = records at hrecords
  induction records generalizing st with
  | nil => exact h
  | cons record records ih =>
      rw [List.foldl_cons]
      refine ih ?_ fun ht r hr => hrecords ht r (List.mem_cons_of_mem _ hr)
      by_cases ht : t = .users
      · subst ht
        exact h.importRecord (hrecords rfl record List.mem_cons_self)
      · refine ⟨h.1.trans (importRecord_grows _ _ _), fun r hr => h.2 r ?_⟩
        rcases importRecord_cases x key nonces t st record with hsame | ⟨db₁, hdb, hsettle⟩
        · rwa [hsame] at hr
        · obtain ⟨-, -, -, values, -, hinsert⟩ := settle_inserted hsettle
          rwa [hdb, (Database.insert?_eq_ok.mp hinsert).2, Database.rowsWith,
            Function.update_of_ne (Ne.symm ht)] at hr

theorem Guarded.importExport {st : ImportState} (h : Guarded db minted)
    (hnew : BringsNoReserved db data) (hst : importExport x key nonces db data = some st) :
    Guarded st.db minted := by
  have hfree : OnlyFree db st.db := by
    unfold Config.importExport at hst
    split at hst
    · cases hst
    · obtain rfl := Option.some.inj hst
      have hstart : OnlyFree db (startImport db).db := ⟨.refl, fun r hr => .inl hr⟩
      generalize startImport db = st at hstart ⊢
      generalize exportTables = tables
      induction tables generalizing st with
      | nil => exact hstart
      | cons t tables ih =>
          rw [List.foldl_cons]
          exact ih _ (hstart.importTable hnew t)
  exact h.of_rows hfree.2

/-! ## Temporary users -/

theorem users_foldlM_owners {id : String} {accountIds : List String}
    (h : accountIds.foldlM (fun db accountId => insertRow db .accountOwners
      (rowOf [("account_id", .str accountId), ("user_id", .str id)])) db = some db') :
    db'.rows .users = db.rows .users := by
  induction accountIds generalizing db with
  | nil =>
      cases h
      rfl
  | cons accountId accountIds ih =>
      rw [List.foldlM_cons] at h
      obtain ⟨db₁, hinsert, hrest⟩ := Option.bind_eq_some_iff.mp h
      rw [ih hrest, rows_insertRow hinsert, Function.update_of_ne (by decide)]

theorem Guarded.createTemp {new : NewRow} {hex hash : String} {accountIds : List String}
    (h : Guarded db minted) (hdb : createTempImapUser db new hex hash accountIds = some db') :
    Guarded db' (new.id :: minted) := by
  obtain ⟨store, -, hdb⟩ := Option.bind_eq_some_iff.mp hdb
  obtain ⟨db₁, hinsert, hdb⟩ := Option.bind_eq_some_iff.mp hdb
  have h₁ : Guarded db₁ (new.id :: minted) := by
    constructor
    · intro r hr htemp
      rcases mem_users_insertRow hinsert hr with hold | rfl
      · exact List.mem_cons_of_mem _ (h.minted r hold htemp)
      · rw [id_userRow]
        exact List.mem_cons_self
    · intro r hr hreserved
      rcases mem_users_insertRow hinsert hr with hold | rfl
      · exact h.literal r hold hreserved
      · rw [isTempUser, username_userRow]
        apply List.isPrefixOf_iff_prefix.mpr
        rw [tempUsername, String.toList_append]
        exact List.prefix_append _ _
  exact h₁.congr (users_foldlM_owners hdb)

/-! ## The clean-up of the rows -/

theorem users_deleteUser {id : PyValue} (h : deleteUser db id = some db') :
    db'.rows .users = (db.rows .users).filter fun row => !decide (row "id" = id) := by
  obtain ⟨db₁, h₁, h⟩ := Option.bind_eq_some_iff.mp h
  obtain ⟨db₂, h₂, h⟩ := Option.bind_eq_some_iff.mp h
  obtain ⟨db₃, h₃, h⟩ := Option.bind_eq_some_iff.mp h
  have hsame : db₃.rows .users = db.rows .users := by
    rw [rows_withRows h₃, Function.update_of_ne (by decide), rows_withRows h₂,
      Function.update_of_ne (by decide), rows_withRows h₁, Function.update_of_ne (by decide)]
  rw [rows_withRows h, Function.update_self, hsame]

/-- A refused DELETE is the end. -/
theorem foldl_retire_none (rows : List Row) {start : Files × Option ConfigDb}
    (hstart : start.2 = none) : (rows.foldl (retire host stuck) start).2 = none := by
  induction rows generalizing start with
  | nil => exact hstart
  | cons row rows ih =>
      rw [List.foldl_cons]
      apply ih
      rw [retire, hstart]
      exact hstart

/-- What the loop has deleted so far are users of the list. -/
theorem foldl_retire {rows : List Row} {start : Files × Option ConfigDb}
    (hstart : start.2 = some db) (h : (rows.foldl (retire host stuck) start).2 = some db') :
    (∀ r ∈ db'.rows .users, r ∈ db.rows .users) ∧
      ∀ r ∈ db.rows .users, r ∈ db'.rows .users ∨ ∃ row ∈ rows, r "id" = row "id" := by
  induction rows generalizing db start with
  | nil =>
      have hdb : some db = some db' := hstart.symm.trans h
      cases hdb
      exact ⟨fun _ hr => hr, fun _ hr => .inl hr⟩
  | cons row rows ih =>
      rw [List.foldl_cons] at h
      have hretired : (retire host stuck start row).2 = deleteUser db (row "id") := by
        rw [retire, hstart]
      cases hdelete : deleteUser db (row "id") with
      | none =>
          rw [hdelete] at hretired
          rw [foldl_retire_none rows hretired] at h
          cases h
      | some db₁ =>
          rw [hdelete] at hretired
          obtain ⟨hsub, hleft⟩ := ih hretired h
          have husers := users_deleteUser hdelete
          constructor
          · intro r hr
            have hr₁ := hsub r hr
            rw [husers] at hr₁
            exact (List.mem_filter.mp hr₁).1
          · intro r hr
            by_cases hid : r "id" = row "id"
            · exact .inr ⟨row, List.mem_cons_self, hid⟩
            · have hr₁ : r ∈ db₁.rows .users := by
                rw [husers]
                exact List.mem_filter.mpr ⟨hr, by simpa using hid⟩
              rcases hleft r hr₁ with hkept | ⟨e, he, heid⟩
              · exact .inl hkept
              · exact .inr ⟨e, List.mem_cons_of_mem _ he, heid⟩

/-- The clean-up adds no user, and what it deletes is expired. -/
theorem cleanup_users (now : IsoFormat.DateTime) (stuck : Path → Bool) (d : Files) :
    (∀ r ∈ (cleanupTempImapUsers db host now stuck d).2.rows .users, r ∈ db.rows .users) ∧
      ∀ r ∈ db.rows .users, r ∈ (cleanupTempImapUsers db host now stuck d).2.rows .users ∨
        expired host now r = true := by
  unfold cleanupTempImapUsers
  dsimp only
  cases hresult : (((db.rows .users).filter (expired host now)).foldl (retire host stuck)
    (d, some db)).2 with
  | none => exact ⟨fun _ hr => hr, fun _ hr => .inl hr⟩
  | some db' =>
      obtain ⟨hsub, hleft⟩ := foldl_retire rfl hresult
      refine ⟨hsub, fun r hr => (hleft r hr).imp (fun h => h) ?_⟩
      rintro ⟨e, he, hid⟩
      obtain ⟨hmem, hexpired⟩ := List.mem_filter.mp he
      rwa [user_eq_of_id hr hmem hid]

theorem Guarded.cleanup {now : IsoFormat.DateTime} (h : Guarded db minted) :
    Guarded (cleanupTempImapUsers db host now stuck d).2 minted :=
  h.of_rows fun r hr => .inl ((cleanup_users now stuck d).1 r hr)

/-! ## The sweep of the homes -/

/-- An entry of a `.dovecot-home` that no temporary user goes by. -/
def SweptEntry (db : ConfigDb) (cwd : Path) (p : Path) : Prop :=
  ∃ store ∈ db.rows .mailStores, ∃ x : Name, hasTempPrefix x.1 = true ∧ x.1 ∉ liveHomes db ∧
    p = homesDir cwd (text (store "path")) ++ [x]

theorem mem_orphanedRestoreHomes {path : String}
    (h : path ∈ orphanedRestoreHomes cwd live d storePath) :
    ∃ x : Name, hasTempPrefix x.1 = true ∧ x.1 ∉ live ∧
      resolve cwd path = homesDir cwd storePath ++ [x] := by
  unfold orphanedRestoreHomes at h
  dsimp only at h
  split at h
  · cases h
  · split at h
    · cases h
    · obtain ⟨entry, -, hentry⟩ := List.mem_filterMap.mp h
      split at hentry
      · cases hentry
      · rename_i hswept
        rw [not_or, not_or, Bool.not_eq_false] at hswept
        obtain rfl := Option.some.inj hentry
        refine ⟨entry.1, hswept.2.1, hswept.2.2, ?_⟩
        have hpieces : pieces dovecotHomeDirname = [dovecotHomeName.1] := pieces_name dovecotHomeName
        rw [resolve_join_relative cwd (isAbsolute_name entry.1) (by simp), resolve_child, hpieces,
          pieces_name]
        simp [homesDir]

theorem foldl_rmtree_cases (paths : List String) (d : Files) (q : Path) :
    (paths.foldl (fun d path => rmtree d cwd path stuck) d).node q = d.node q ∨
      ∃ path ∈ paths, resolve cwd path <+: q := by
  induction paths generalizing d with
  | nil => exact .inl rfl
  | cons path paths ih =>
      rw [List.foldl_cons]
      rcases ih (rmtree d cwd path stuck) with hsame | ⟨p, hp, hpre⟩
      · rcases rmtree_cases d cwd path stuck q with hkept | ⟨hpre, -⟩
        · exact .inl (hsame.trans hkept)
        · exact .inr ⟨path, List.mem_cons_self, hpre⟩
      · exact .inr ⟨p, List.mem_cons_of_mem _ hp, hpre⟩

/-- What the sweep takes lies at or below a swept entry. -/
theorem sweep_lost (h : Lost d (sweepOrphanedRestoreHomes db host stuck d) q) :
    ∃ p, SweptEntry db host.cwd p ∧ p <+: q := by
  suffices ∀ (paths : List String) (d : Files), (∀ path ∈ paths,
      ∃ store ∈ db.rows .mailStores, path = text (store "path")) →
      (paths.foldl (fun d storePath =>
        (orphanedRestoreHomes host.cwd (liveHomes db) d storePath).foldl
          (fun d path => rmtree d host.cwd path stuck) d) d).node q = d.node q ∨
        ∃ p, SweptEntry db host.cwd p ∧ p <+: q by
    have hall : ∀ path ∈ (db.rows .mailStores).map fun row => text (row "path"),
        ∃ store ∈ db.rows .mailStores, path = text (store "path") := by
      intro path hpath
      obtain ⟨store, hstore, rfl⟩ := List.mem_map.mp hpath
      exact ⟨store, hstore, rfl⟩
    rcases this _ d hall with hsame | hswept
    · exact absurd (hsame.symm.trans h.2) h.1
    · exact hswept
  intro paths
  induction paths with
  | nil => exact fun d _ => .inl rfl
  | cons storePath paths ih =>
      intro d hall
      rw [List.foldl_cons]
      rcases ih _ fun path hpath => hall path (List.mem_cons_of_mem _ hpath) with hsame | hswept
      · rcases foldl_rmtree_cases (orphanedRestoreHomes host.cwd (liveHomes db) d storePath) d q with
          hkept | ⟨path, hpath, hpre⟩
        · exact .inl (hsame.trans hkept)
        · obtain ⟨store, hstore, rfl⟩ := hall storePath List.mem_cons_self
          obtain ⟨x, hfound, hlive, hresolve⟩ := mem_orphanedRestoreHomes hpath
          rw [hresolve] at hpre
          exact .inr ⟨_, ⟨store, hstore, x, hfound, hlive, rfl⟩, hpre⟩
      · exact .inr hswept

/-- No store is kept inside a directory that a sweep could take for a temporary user's home. -/
def StoresApart (db : ConfigDb) (cwd : Path) : Prop :=
  ∀ store ∈ db.rows .mailStores, ∀ other ∈ db.rows .mailStores, ∀ x : Name,
    hasTempPrefix x.1 = true →
      ¬ homesDir cwd (text (store "path")) ++ [x] <+: baseDir cwd (text (other "path"))

theorem not_hasTempPrefix_homeName : hasTempPrefix dovecotHomeName.1 = false := by decide

/-- Two paths with a name at the end, one of which begins with the other. -/
theorem concat_prefix_concat {p r : Path} {x y : Name} (h : p ++ [x] <+: r ++ [y]) :
    x = y ∧ p = r ∨ p ++ [x] <+: r := by
  rcases List.prefix_concat_iff.mp h with heq | hpre
  · obtain ⟨hp, hx⟩ := List.append_inj' heq rfl
    exact .inl ⟨List.singleton_inj.mp hx, hp⟩
  · exact .inr hpre

theorem enter_cases (dir : Path) (piece : String) :
    (∃ x : Name, x.1 = piece ∧ enter dir piece = dir ++ [x]) ∨ enter dir piece <+: dir := by
  unfold enter
  split
  · rename_i hname
    exact .inl ⟨⟨piece, hname⟩, rfl, rfl⟩
  · split
    · exact .inr (List.dropLast_prefix dir)
    · exact .inr List.prefix_rfl

/-- The home of a user lies at or below no swept entry. -/
theorem Guarded.home_apart {p : Path} {store : Row} (h : Guarded db minted)
    (hapart : StoresApart db cwd) (hstore : store ∈ db.rows .mailStores)
    (hrow : row ∈ db.rows .users) (hp : SweptEntry db cwd p) :
    ¬ p <+: resolve cwd (dovecotHomeDir (text (store "path")) (username row)) := by
  obtain ⟨swept, hswept, x, hfound, hlive, hp⟩ := hp
  have hhomes : ¬ homesDir cwd (text (swept "path")) ++ [x] <+: homesDir cwd (text (store "path")) := by
    intro hpre
    rcases concat_prefix_concat hpre with ⟨rfl, -⟩ | hpre
    · rw [not_hasTempPrefix_homeName] at hfound
      cases hfound
    · exact hapart swept hswept store hstore x hfound hpre
  rw [resolve_dovecotHomeDir, hp]
  intro hpre
  rcases enter_cases (homesDir cwd (text (store "path"))) (sanitizePathComponent (username row)) with
    ⟨y, hy, henter⟩ | habove
  · rw [henter] at hpre
    rcases concat_prefix_concat hpre with ⟨rfl, -⟩ | hpre
    · -- an entry under the folded name of a user is one that the sweep leaves
      have hreserved : Reserved (username row) := by
        unfold Reserved
        rw [← hy]
        exact hfound
      apply hlive
      rw [hy]
      exact List.mem_map_of_mem (List.mem_filter.mpr ⟨hrow, h.literal row hrow hreserved⟩)
    · exact hhomes hpre
  · exact hhomes (hpre.trans habove)

/-! ## Histories -/

/-- No name that is given by hand or imported folds onto the prefix, unless it is refused or its
user is there; and no store lies where the sweep removes. -/
def Careful (host : Host) (s : UsersState) : UserEvent → Prop
  | .create _ name _ _ _ => createUserRefuses name = false → ¬Reserved name
  | .update _ fields => ∀ field ∈ fields, field.1 = "username" → ¬Reserved (text field.2)
  | .importExport _ data => BringsNoReserved s.db data
  | .sweep _ => StoresApart s.db host.cwd
  | .oidc .. | .createTemp .. | .cleanup .. | .disk _ => True

theorem guarded_step {e : UserEvent} (h : Guarded s.db s.minted) (hcareful : Careful host s e)
    (hnext : s.next host e = some s') : Guarded s'.db s'.minted := by
  cases e with
  | create new name hash role storeId =>
      obtain ⟨db, hdb, rfl⟩ := Option.map_eq_some_iff.mp hnext
      exact h.createUser hcareful hdb
  | update id fields =>
      obtain ⟨db, hdb, rfl⟩ := Option.map_eq_some_iff.mp hnext
      exact h.updateUser hcareful hdb
  | oidc newStore newUser sub raw role adminGroup =>
      obtain rfl := Option.some.inj hnext
      exact h.oidcLogin
  | importExport nonces data =>
      obtain ⟨st, hst, rfl⟩ := Option.map_eq_some_iff.mp hnext
      exact h.importExport hcareful hst
  | createTemp new hex hash accountIds =>
      obtain ⟨db, hdb, rfl⟩ := Option.map_eq_some_iff.mp hnext
      exact h.createTemp hdb
  | cleanup now stuck =>
      obtain rfl := Option.some.inj hnext
      exact h.cleanup
  | sweep stuck =>
      obtain rfl := Option.some.inj hnext
      exact h
  | disk files =>
      obtain rfl := Option.some.inj hnext
      exact h

/-- Every user that a clean-up deletes was made by `create_temp_imap_user`. -/
def CleansOnlyMinted (host : Host) (s : UsersState) : Prop :=
  ∀ now stuck s', s.next host (.cleanup now stuck) = some s' →
    ∀ row ∈ s.db.rows .users, row ∉ s'.db.rows .users → text (row "id") ∈ s.minted

/-- No home that a sweep removes is the home of a user. -/
def SweepsNoHome (host : Host) (s : UsersState) : Prop :=
  ∀ stuck s', s.next host (.sweep stuck) = some s' →
    ∀ row ∈ s.db.rows .users, ∀ store ∈ s.db.rows .mailStores, row "store_id" = store "id" →
      ¬Lost s.files s'.files (resolve host.cwd (dovecotHomeDir (text (store "path")) (username row)))

/-- As long as nobody is given a name that folds onto the prefix. -/
theorem reserved_prefix_protects {s₀ : UsersState}
    (hstart : ∀ row ∈ s₀.db.rows .users, ¬Reserved (username row))
    (hrun : Reaches (UsersState.next host) (Careful host) s₀ s) :
    CleansOnlyMinted host s ∧ (StoresApart s.db host.cwd → SweepsNoHome host s) := by
  have hguarded₀ : Guarded s₀.db s₀.minted := by
    constructor
    · exact fun row hrow htemp => absurd (Reserved.of_prefix htemp) (hstart row hrow)
    · exact fun row hrow hreserved => absurd hreserved (hstart row hrow)
  have hguarded : Guarded s.db s.minted := hrun.invariant hguarded₀
    fun _ _ _ h hcareful hnext => guarded_step h hcareful hnext
  constructor
  · intro now stuck s' hnext row hrow hgone
    obtain rfl := Option.some.inj hnext
    rcases (cleanup_users now stuck s.files).2 row hrow with hkept | hexpired
    · exact absurd hkept hgone
    · exact hguarded.minted row hrow (Bool.and_eq_true_iff.mp hexpired).1
  · intro hapart stuck s' hnext row hrow store hstore _ hlost
    obtain rfl := Option.some.inj hnext
    obtain ⟨p, hp, hpre⟩ := sweep_lost hlost
    exact hguarded.home_apart hapart hstore hrow hp hpre

/-! ## A fresh install -/

def sampleHost : Host := ⟨[], sampleExternals, "new", "/data", fun _ _ => true⟩

def dataDir : Path := [⟨"data", by decide⟩]

def restoreHome : Path := dataDir ++ [dovecotHomeName, ⟨"_restore_x", by decide⟩]

def restoreHomeFiles : Files :=
  .build [(dataDir, .dir), (dataDir ++ [dovecotHomeName], .dir), (restoreHome, .dir)]

def freshUsers : UsersState := ⟨freshDb, restoreHomeFiles, []⟩

theorem freshUsers_names : ∀ row ∈ freshUsers.db.rows .users, ¬Reserved (username row) := by
  decide +kernel

def sampleNow : IsoFormat.DateTime := (sampleRow "s1").createdAt

def sampleCleanup : UserEvent := .cleanup sampleNow fun _ => false

def sampleSweep : UserEvent := .sweep fun _ => false

def storePaths (db : ConfigDb) : List String := (db.rows .mailStores).map fun row => text (row "path")

theorem storesApart_of_single (h : storePaths db = ["/data"]) : StoresApart db cwd := by
  have hpath : ∀ store ∈ db.rows .mailStores, text (store "path") = "/data" := by
    intro store hstore
    have hmem : text (store "path") ∈ storePaths db :=
      List.mem_map_of_mem (f := fun row : Row => text (row "path")) hstore
    rw [h] at hmem
    exact List.mem_singleton.mp hmem
  intro store hstore other hother x _ hpre
  rw [hpath store hstore, hpath other hother] at hpre
  have hlen := hpre.length_le
  simp [homesDir] at hlen

/-- A restore on a server with a user of its own. -/
def sampleEvents : List UserEvent :=
  [.create (sampleRow "u1") "bob" "hash" .user "s9", .createTemp (sampleRow "u2") "x" "hash" []]

def sampleCheck (_ : UsersState) : UserEvent → Bool
  | .create _ name _ _ _ => decide (name = "bob")
  | .createTemp .. => true
  | _ => false

theorem careful_sample (s : UsersState) (e : UserEvent) (he : sampleCheck s e = true) :
    Careful sampleHost s e := by
  cases e with
  | create new name hash role storeId =>
      obtain rfl := of_decide_eq_true he
      exact fun _ => by decide
  | createTemp => trivial
  | _ => cases he

/-- The clean-up takes the temporary user and leaves the others. -/
theorem sample_prefix_protects : ∃ s s', s.next sampleHost sampleCleanup = some s' ∧
    s.minted = ["u2"] ∧ (s'.db.rows .users).map username = ["alice", "bob"] ∧
    CleansOnlyMinted sampleHost s ∧ SweepsNoHome sampleHost s := by
  have hrun : (sampleEvents.foldlM (guarded sampleCheck (UsersState.next sampleHost))
      freshUsers).any (fun s =>
        decide (s.minted = ["u2"] ∧ storePaths s.db = ["/data"]) &&
        (s.next sampleHost sampleCleanup).any fun s' =>
          decide ((s'.db.rows .users).map username = ["alice", "bob"])) = true := by
    decide +kernel
  obtain ⟨s, hreach, hend⟩ := Reaches.of_any hrun careful_sample
  rw [Bool.and_eq_true, decide_eq_true_eq] at hend
  obtain ⟨⟨hminted, hstores⟩, hcleanup⟩ := hend
  obtain ⟨s', hs', hleft⟩ := (Option.any_eq_true ..).mp hcleanup
  obtain ⟨hcleans, hsweeps⟩ := reserved_prefix_protects freshUsers_names hreach
  exact ⟨s, s', hs', hminted, of_decide_eq_true hleft, hcleans,
    hsweeps (storesApart_of_single hstores)⟩

/-- A rename to the prefix, and a new user whose name folds onto it. -/
theorem not_prefix_protects :
    (¬ ∀ (host : Host) (s₀ s : UsersState), (∀ row ∈ s₀.db.rows .users, ¬Reserved (username row)) →
      Reaches (UsersState.next host) (fun _ _ => True) s₀ s → CleansOnlyMinted host s) ∧
    ¬ ∀ (host : Host) (s₀ s : UsersState), (∀ row ∈ s₀.db.rows .users, ¬Reserved (username row)) →
      Reaches (UsersState.next host) (fun _ _ => True) s₀ s → StoresApart s.db host.cwd →
        SweepsNoHome host s := by
  constructor
  · intro h
    have hrun : (([.create (sampleRow "u1") "bob" "hash" .user "s9",
        .update "u1" [("username", .str "_restore_bob")]] : List UserEvent).foldlM
        (guarded (fun _ _ => true) (UsersState.next sampleHost)) freshUsers).any (fun s =>
          decide (s.minted = []) && (s.db.rows .users).any fun row =>
            (s.next sampleHost sampleCleanup).any fun s' =>
              !(s'.db.rows .users).any fun r => decide (r "id" = row "id")) = true := by
      decide +kernel
    obtain ⟨s, hreach, hend⟩ := Reaches.of_any hrun fun _ _ _ => trivial
    rw [Bool.and_eq_true, decide_eq_true_eq] at hend
    obtain ⟨row, hrow, hcleanup⟩ := List.any_eq_true.mp hend.2
    obtain ⟨s', hs', hgone⟩ := (Option.any_eq_true ..).mp hcleanup
    have hnot : row ∉ s'.db.rows .users := by
      intro hmem
      rw [Bool.not_eq_true', List.any_eq_false] at hgone
      exact hgone row hmem (decide_eq_true rfl)
    have hminted := h sampleHost freshUsers s freshUsers_names hreach _ _ s' hs' row hrow hnot
    rw [hend.1] at hminted
    cases hminted
  · intro h
    have hrun : (([.create (sampleRow "u1") " restore_x" "hash" .user "s9"] : List UserEvent).foldlM
        (guarded (fun _ _ => true) (UsersState.next sampleHost)) freshUsers).any (fun s =>
          decide (storePaths s.db = ["/data"] ∧ s.files.node restoreHome = some .dir) &&
          (s.next sampleHost sampleSweep).any fun s' =>
            decide (s'.files.node restoreHome = none) && (s.db.rows .users).any fun row =>
              (s.db.rows .mailStores).any fun store => decide (row "store_id" = store "id" ∧
                resolve [] (dovecotHomeDir (text (store "path")) (username row)) = restoreHome)) =
        true := by
      decide +kernel
    obtain ⟨s, hreach, hend⟩ := Reaches.of_any hrun fun _ _ _ => trivial
    rw [Bool.and_eq_true, decide_eq_true_eq] at hend
    obtain ⟨⟨hstores, hthere⟩, hsweep⟩ := hend
    obtain ⟨s', hs', hswept⟩ := (Option.any_eq_true ..).mp hsweep
    rw [Bool.and_eq_true, decide_eq_true_eq] at hswept
    obtain ⟨row, hrow, hstore⟩ := List.any_eq_true.mp hswept.2
    obtain ⟨store, hmem, hhome⟩ := List.any_eq_true.mp hstore
    obtain ⟨hid, hhome⟩ := of_decide_eq_true hhome
    refine h sampleHost freshUsers s freshUsers_names hreach (storesApart_of_single hstores) _ s' hs'
      row hrow store hmem hid ?_
    show Lost s.files s'.files (resolve [] (dovecotHomeDir (text (store "path")) (username row)))
    rw [hhome]
    exact ⟨by rw [hthere]; simp, hswept.1⟩

end MailFallback.TempUsers
