import MailFallback.Store.Semantics

/-! # What the removal of orphaned directories can reach -/

namespace MailFallback

open Storage Posix

variable {db : Db} {d : Files} {cwd : Path} {storeId : Id} {stuck : Path → Bool}

/-- A path string the database relies on, other than as the swept store's own path. -/
inductive LivePath (db : Db) (storeId : Id) : String → Prop where
  | maildir {id account} : db.accounts.get? id = some account →
      LivePath db storeId account.maildirPath
  | otherStore {id store} : db.stores.get? id = some store → id ≠ storeId →
      LivePath db storeId store.path
  | migrationTarget {id accountId store} {migration : StoreMigration} :
      db.migrations.get? id = some migration → migration.status.incomplete = true →
      migration.accountId = some accountId →
      db.stores.get? migration.targetStoreId = some store →
      LivePath db storeId (deriveMaildirPath store.path accountId)

/-- A directory that an operation removed. -/
def Removed (d d' : Files) (q : Path) : Prop :=
  d.node q = some .dir ∧ d'.node q = none

/-- The names the sweep passes over. -/
def Kept (db : Db) (storeId : Id) (name : String) : Prop :=
  hidden name = true ∨ name ∈ accountIds db storeId

instance (db : Db) (storeId : Id) (name : String) : Decidable (Kept db storeId name) := by
  unfold Kept
  infer_instance

/-! ## The orphans -/

/-- An orphan is a directory of the store that is not passed over. -/
theorem mem_getOrphanedDirs {orphan : Orphan} :
    orphan ∈ getOrphanedDirs db d cwd storeId ↔
      ∃ store dir x, db.stores.get? storeId = some store ∧ find d cwd store.path = some dir ∧
        d.node (dir ++ [x]) = some .dir ∧ ¬ Kept db storeId x.1 ∧
        orphan = ⟨x.1, join store.path x.1, directFileBytes d (dir ++ [x])⟩ := by
  unfold getOrphanedDirs
  cases hstore : db.stores.get? storeId with
  | none => simp
  | some store =>
      cases hfind : find d cwd store.path with
      | none => simp [hfind]
      | some dir =>
          simp only [Option.some.injEq, exists_and_left, exists_eq_left', hfind]
          constructor
          · intro hmem
            split at hmem
            · obtain ⟨⟨x, n⟩, hx, hsome⟩ := List.mem_filterMap.mp hmem
              have hnode := Disk.mem_children.mp hx
              dsimp only at hsome
              split at hsome
              · cases hsome
              · rename_i hdir
                push Not at hdir
                split at hsome
                · rename_i hid
                  have hkept : ¬ Kept db storeId x.1 := fun h => h.elim hdir.2 hid
                  exact ⟨x, hdir.1 ▸ hnode, hkept, (Option.some.inj hsome).symm⟩
                · cases hsome
            · cases hmem
          · rintro ⟨x, hnode, hkept, rfl⟩
            have hparent : d.isDir dir = true := Disk.isDir_iff.mpr (Disk.node_parent hnode)
            rw [if_pos hparent]
            apply List.mem_filterMap.mpr
            refine ⟨(x, .dir), Disk.mem_children.mpr hnode, ?_⟩
            simp only [Kept, not_or] at hkept
            simp [hkept.1, hkept.2]

theorem resolve_orphan {store : MailStore} {dir : Path} (x : Name)
    (h : find d cwd store.path = some dir) (hdir : d.node dir = some .dir) :
    resolve cwd (join store.path x.1) = dir ++ [x] :=
  find_eq_some (find_join x h hdir)

/-! ## The sweep -/

/-- A sweep changes nothing but what stands at or below an orphan. -/
theorem sweep_cases (orphans : List Orphan) (d : Files) (cwd : Path) (stuck : Path → Bool)
    (q : Path) :
    (orphans.foldl (fun d orphan => rmtree d cwd orphan.path stuck) d).node q = d.node q ∨
      (∃ orphan ∈ orphans, resolve cwd orphan.path <+: q) ∧
        (orphans.foldl (fun d orphan => rmtree d cwd orphan.path stuck) d).node q = none := by
  induction orphans generalizing d with
  | nil => exact .inl rfl
  | cons orphan orphans ih =>
      rw [List.foldl_cons]
      rcases ih (rmtree d cwd orphan.path stuck) with hkeep | ⟨⟨o, ho, hpre⟩, hnone⟩
      · rcases rmtree_cases d cwd orphan.path stuck q with hsame | ⟨hpre, hnone⟩
        · exact .inl (hkeep.trans hsame)
        · exact .inr ⟨⟨orphan, List.mem_cons_self, hpre⟩, hkeep.trans hnone⟩
      · exact .inr ⟨⟨o, List.mem_cons_of_mem _ ho, hpre⟩, hnone⟩

/-- Everything outside one directory. -/
def outside (p : Path) (q : Path) : Bool := !decide (p <+: q)

theorem node_rmtree_outside {s : String} {p : Path} {x y : Name} (hs : find d cwd s = some p)
    (hdir : d.node p = some .dir) (hne : y ≠ x) (q : Path) :
    (rmtree d cwd (join s y.1) (outside (p ++ [x]))).node q = d.node q := by
  rcases rmtree_cases d cwd (join s y.1) (outside (p ++ [x])) q with hsame | ⟨hpre, -⟩
  · exact hsame
  rw [find_eq_some (find_join y hs hdir)] at hpre
  have hstuck : outside (p ++ [x]) q = true := by
    simp only [outside, Bool.not_eq_true', decide_eq_false_iff_not]
    intro hx
    have heq : p ++ [x] = p ++ [y] := by
      apply (List.prefix_of_prefix_length_le hx hpre (by simp)).eq_of_length
      simp
    exact hne (by simpa using heq.symm)
  obtain ⟨ps, hps⟩ := pieces_join y (find_ne_empty hs)
  by_cases hy : d.node (p ++ [y]) = some .dir
  · rw [rmtree_of_find _ (find_join y hs hdir) hy (rmdirRefuses_name y hps)]
    cases hq : d.node q with
    | none =>
        rcases Disk.node_eraseTree_cases d (p ++ [y]) q (outside (p ++ [x])) with h | h
        · rw [h, hq]
        · exact h.2
    | some n =>
        rw [← hq]
        exact Disk.node_eraseTree_of_held fun _ => ⟨q, by simp [hq], hstuck, List.prefix_rfl⟩
  · have hnot : d.isDir (p ++ [y]) = false := by
      simpa [← Disk.isDir_iff] using hy
    simp [rmtree, find_join y hs hdir, hnot]

/-- When everything outside one orphan is stuck, the sweep removes that orphan. -/
theorem sweep_removes {orphans : List Orphan} {s : String} {p : Path} {x : Name}
    (hs : find d cwd s = some p) (hnode : d.node (p ++ [x]) = some .dir)
    (hall : ∀ orphan ∈ orphans, ∃ y : Name, orphan.path = join s y.1)
    (hmem : ∃ orphan ∈ orphans, orphan.path = join s x.1) :
    (orphans.foldl (fun d orphan => rmtree d cwd orphan.path (outside (p ++ [x]))) d).node
      (p ++ [x]) = none := by
  induction orphans generalizing d with
  | nil => simp at hmem
  | cons orphan orphans ih =>
      rw [List.foldl_cons]
      have hdir := Disk.node_parent hnode
      obtain ⟨y, hy⟩ := hall orphan List.mem_cons_self
      by_cases hxy : y = x
      · subst hxy
        obtain ⟨ps, hps⟩ := pieces_join y (find_ne_empty hs)
        have hgone : (rmtree d cwd orphan.path (outside (p ++ [y]))).node (p ++ [y]) = none := by
          rw [hy, rmtree_of_find _ (find_join y hs hdir) hnode (rmdirRefuses_name y hps)]
          apply Disk.node_eraseTree_of_free (by simp) List.prefix_rfl
          rintro ⟨r, -, hr, hpre⟩
          simp [outside, hpre] at hr
        rcases sweep_cases orphans (rmtree d cwd orphan.path (outside (p ++ [y]))) cwd
          (outside (p ++ [y])) (p ++ [y]) with h | ⟨-, h⟩
        · rw [h, hgone]
        · exact h
      · have hsame := node_rmtree_outside hs hdir hxy
        rw [← hy] at hsame
        apply ih
        · rw [find_congr hsame]
          exact hs
        · rw [hsame]
          exact hnode
        · exact fun o ho => hall o (List.mem_cons_of_mem _ ho)
        · obtain ⟨o, ho, hpath⟩ := hmem
          rcases List.mem_cons.mp ho with rfl | ho
          · -- the orphan just passed has another name
            exact absurd (join_inj (find_ne_empty hs) (hy.symm.trans hpath)) hxy
          · exact ⟨o, ho, hpath⟩

/-! ## The result -/

/-- No directory that the sweep removes overlaps a live path, whatever it fails to remove. -/
def SweepSafe (db : Db) (d : Files) (cwd : Path) (storeId : Id) : Prop :=
  ∀ stuck q path, LivePath db storeId path →
    Removed d (deleteOrphanedDirs db d cwd storeId stuck).1 q →
    ¬ Overlap q (resolve cwd path)

/-- The directories of the store in which, or around which, there is live data are passed
over by their names. -/
structure LiveDataKept (db : Db) (d : Files) (cwd : Path) (storeId : Id) : Prop where
  /-- A live path at or above the store's directory: nothing in the store is an orphan. -/
  above : ∀ store dir x path, db.stores.get? storeId = some store →
    find d cwd store.path = some dir → d.node (dir ++ [x]) = some .dir →
    LivePath db storeId path → resolve cwd path <+: dir → Kept db storeId x.1
  /-- A live path inside the store leads through a directory that is passed over. -/
  below : ∀ store dir x path, db.stores.get? storeId = some store →
    find d cwd store.path = some dir → d.node (dir ++ [x]) = some .dir →
    LivePath db storeId path → dir ++ [x] <+: resolve cwd path → Kept db storeId x.1

theorem LiveDataKept.kept (h : LiveDataKept db d cwd storeId) {store : MailStore} {dir : Path}
    {x : Name} {path : String} (hstore : db.stores.get? storeId = some store)
    (hfind : find d cwd store.path = some dir) (hnode : d.node (dir ++ [x]) = some .dir)
    (hlive : LivePath db storeId path) (hover : Overlap (dir ++ [x]) (resolve cwd path)) :
    Kept db storeId x.1 := by
  rcases hover with hbelow | habove
  · exact h.below store dir x path hstore hfind hnode hlive hbelow
  · rcases List.prefix_concat_iff.mp habove with heq | hpre
    · exact h.below store dir x path hstore hfind hnode hlive (heq ▸ List.prefix_rfl)
    · exact h.above store dir x path hstore hfind hnode hlive hpre

/-- A directory of the store that is not passed over is removed in some sweep. -/
theorem SweepSafe.kept (h : SweepSafe db d cwd storeId) {store : MailStore} {dir : Path}
    {x : Name} {path : String} (hstore : db.stores.get? storeId = some store)
    (hfind : find d cwd store.path = some dir) (hnode : d.node (dir ++ [x]) = some .dir)
    (hlive : LivePath db storeId path) (hover : Overlap (dir ++ [x]) (resolve cwd path)) :
    Kept db storeId x.1 := by
  by_contra hkept
  have hmem : (⟨x.1, join store.path x.1, directFileBytes d (dir ++ [x])⟩ : Orphan) ∈
      getOrphanedDirs db d cwd storeId :=
    mem_getOrphanedDirs.mpr ⟨store, dir, x, hstore, hfind, hnode, hkept, rfl⟩
  have hall : ∀ orphan ∈ getOrphanedDirs db d cwd storeId,
      ∃ y : Name, orphan.path = join store.path y.1 := by
    intro orphan ho
    obtain ⟨store', dir', y, hstore', -, -, -, rfl⟩ := mem_getOrphanedDirs.mp ho
    obtain rfl := Option.some.inj (hstore.symm.trans hstore')
    exact ⟨y, rfl⟩
  have hgone := sweep_removes hfind hnode hall ⟨_, hmem, rfl⟩
  exact h (outside (dir ++ [x])) (dir ++ [x]) path hlive ⟨hnode, hgone⟩ hover

/-- The sweep spares all live data exactly where the names it passes over cover it. -/
theorem deleteOrphanedDirs_safe_iff :
    SweepSafe db d cwd storeId ↔ LiveDataKept db d cwd storeId := by
  constructor
  · intro hsafe
    refine ⟨?_, ?_⟩
    · intro store dir x path hstore hfind hnode hlive hpre
      exact hsafe.kept hstore hfind hnode hlive (.inr (hpre.trans (List.prefix_append _ _)))
    · intro store dir x path hstore hfind hnode hlive hpre
      exact hsafe.kept hstore hfind hnode hlive (.inl hpre)
  · intro hkeep stuck q path hlive hq hover
    rcases sweep_cases (getOrphanedDirs db d cwd storeId) d cwd stuck q with
      hsame | ⟨⟨orphan, ho, hpre⟩, -⟩
    · rw [Removed, deleteOrphanedDirs, hsame, hq.1] at hq
      exact absurd hq.2 (by simp)
    · obtain ⟨store, dir, x, hstore, hfind, hnode, hkept, rfl⟩ := mem_getOrphanedDirs.mp ho
      rw [resolve_orphan x hfind (Disk.node_parent hnode)] at hpre
      apply hkept
      refine hkeep.kept hstore hfind hnode hlive ?_
      -- the removed directory lies in the orphan, so both are related to the live path
      rcases hover with h | h
      · exact .inl (hpre.trans h)
      · exact List.prefix_or_prefix_of_prefix hpre h

/-- An account on its way from the first store to the second, its copy begun. -/
theorem nodup_twoStores : ["s1", "s2"].Nodup := by decide

def migratingDb : Db where
  stores := ⟨[("s1", { path := "/mail1" }), ("s2", { path := "/mail2" })], nodup_twoStores⟩
  users := .empty
  accounts := ⟨[("a1", { maildirPath := "/mail1/a1", storeId := "s1", migrating := true })],
    List.nodup_singleton "a1"⟩
  migrations := ⟨[("m1",
    { accountId := some "a1", sourceStoreId := "s1", targetStoreId := "s2", status := .copying })],
    List.nodup_singleton "m1"⟩

def migratingFiles : Files :=
  .build <| ["/mail1", "/mail1/a1", "/mail2", "/mail2/a1"].map fun s => (resolve [] s, .dir)

/-- The sweep of the target store deletes the copy under way: the account it belongs to is
still an account of the source store. -/
theorem deleteOrphanedDirs_unsafe : ¬ SweepSafe migratingDb migratingFiles [] "s2" := by
  intro h
  refine h (fun _ => false) (resolve [] "/mail2/a1") _
    (@LivePath.migrationTarget migratingDb "s2" "m1" "a1" _ _ rfl rfl rfl rfl) ?_ (.inl ?_)
  · exact ⟨by decide, by decide⟩
  · decide

end MailFallback
