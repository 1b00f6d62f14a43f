import MailFallback.Folders.Quarantine

/-! # Which folders a reconciliation takes away -/

namespace MailFallback

open Storage Posix

variable {env : String → Env} {d : Files} {cwd root q : Path} {maildirPath : String}
  {remoteFolders patterns : List String}

/-! ## The folders that vanished -/

theorem mem_syncedFolders {f : List Name} (h : f ∈ syncedFolders d root) :
    f ≠ [] ∧ d.node (root ++ f) = some .dir ∧ containerName ∉ f := by
  obtain ⟨⟨p, n⟩, hmem, hf⟩ := List.mem_filterMap.mp h
  dsimp only at hf
  split at hf
  · rename_i hcond
    obtain ⟨⟨f, rfl⟩, rfl, hne, hcontainer, -, -⟩ := hcond
    rw [List.drop_left] at hne hcontainer hf
    cases hf
    exact ⟨hne, (d.node_mem_entries (by simp [hne]) _).mpr hmem, hcontainer⟩
  · cases hf

/-- A synced folder lies below the directory that the maildir string leads to. -/
theorem mem_localSyncedFolders {s : String} (h : s ∈ localSyncedFolders d cwd maildirPath) :
    ∃ root f, Root d cwd maildirPath root ∧ f ∈ syncedFolders d root ∧ s = relName f := by
  unfold localSyncedFolders at h
  dsimp only at h
  split at h
  · cases h
  · rename_i root hfind
    split at h
    · rename_i hroot
      obtain ⟨f, hf, rfl⟩ := List.mem_map.mp h
      exact ⟨root, f, ⟨hfind, Disk.isDir_iff.mp hroot.1⟩, hf, rfl⟩
    · cases h

/-- A folder that was synced here and that the Source does not list any more. -/
def Vanished (d : Files) (cwd : Path) (maildirPath : String) (remoteFolders patterns : List String)
    (f : List Name) : Prop :=
  f ≠ [] ∧ relName f ∈ vanished (localSyncedFolders d cwd maildirPath) remoteFolders patterns

theorem Vanished.spec {f : List Name} (h : Vanished d cwd maildirPath remoteFolders patterns f) :
    ∃ root, Root d cwd maildirPath root ∧ d.node (root ++ f) = some .dir ∧
      ¬ [containerName] <+: f ∧ relName f ∉ remoteFolders := by
  have hmem := List.mem_filter.mp h.2
  obtain ⟨root, g, hroot, hg, hname⟩ := mem_localSyncedFolders hmem.1
  obtain ⟨hne, hnode, hcontainer⟩ := mem_syncedFolders hg
  obtain rfl := relName_inj h.1 hne hname
  have hremote := of_decide_eq_true hmem.2
  refine ⟨root, hroot, hnode, ?_, hremote.1⟩
  rintro ⟨t, rfl⟩
  simp at hcontainer

/-- The Source listed something, and not so little that the loss looks like an anomaly. -/
def Trusted (d : Files) (cwd : Path) (maildirPath : String)
    (remoteFolders patterns : List String) : Prop :=
  let locals := localSyncedFolders d cwd maildirPath
  remoteFolders ≠ [] ∧
    isAnomaly (vanished locals remoteFolders patterns).length locals.length = false

theorem foldersToQuarantine_cases (locals remoteFolders patterns : List String) :
    (foldersToQuarantine locals remoteFolders patterns = .ok [] ∧ remoteFolders = []) ∨
      (∃ e, foldersToQuarantine locals remoteFolders patterns = .error e ∧
        isAnomaly (vanished locals remoteFolders patterns).length locals.length = true) ∨
      ∃ missing, foldersToQuarantine locals remoteFolders patterns = .ok missing ∧
        remoteFolders ≠ [] ∧
        isAnomaly (vanished locals remoteFolders patterns).length locals.length = false ∧
        ∀ s, s ∈ missing ↔ s ∈ vanished locals remoteFolders patterns := by
  unfold foldersToQuarantine
  split
  · rename_i hnil
    exact .inl ⟨rfl, hnil⟩
  · rename_i hne
    right
    dsimp only
    rw [List.length_insertionSort]
    split
    · rename_i hanomaly
      exact .inl ⟨_, rfl, hanomaly⟩
    · rename_i hanomaly
      exact .inr ⟨_, rfl, hne, by simpa using hanomaly, fun s => List.mem_insertionSort _⟩

/-! ## The whole reconciliation -/

/-- What one folder of the list does to the files. -/
def quarantineFiles (env : String → Env) (cwd : Path) (maildirPath : String) (d : Files)
    (folder : String) : Files :=
  (quarantineFolder (env folder) d cwd maildirPath folder).1

theorem reconcile_files {missing : List String}
    (h : foldersToQuarantine (localSyncedFolders d cwd maildirPath) remoteFolders patterns =
      .ok missing) :
    (reconcileRemovedFolders env d cwd maildirPath remoteFolders patterns).files =
      missing.foldl (quarantineFiles env cwd maildirPath) d := by
  have hfold : ∀ step : Reconciled → String → Reconciled,
      (∀ r folder, (step r folder).files = quarantineFiles env cwd maildirPath r.files folder) →
      ∀ (l : List String) (r : Reconciled),
        (l.foldl step r).files = l.foldl (quarantineFiles env cwd maildirPath) r.files := by
    intro step hstep l
    induction l with
    | nil => exact fun _ => rfl
    | cons folder l ih =>
        intro r
        rw [List.foldl_cons, List.foldl_cons, ih, hstep]
  rw [reconcileRemovedFolders, h]
  refine hfold _ (fun r folder => ?_) missing { files := d }
  rw [quarantineFiles]
  split
  · rename_i hq
    rw [hq]
  · rename_i hq
    rw [hq]

theorem quarantineFiles_root {f : List Name} (hbase : baseDir cwd maildirPath = root)
    (hsource : resolve cwd (join (rstripSlash maildirPath) (relName f)) = root ++ f) (hf : f ≠ [])
    (hroot : d.node root = some .dir) :
    (quarantineFiles env cwd maildirPath d (relName f)).node root = some .dir := by
  have h := @quarantineFolder_cases (env (relName f)) d cwd root maildirPath (relName f)
  rw [hbase, hsource] at h
  rcases h hroot (concat_not_above root containerName) with h | ⟨h, -⟩
  · exact h.trans hroot
  · have hlen := h.length_le
    have := List.length_pos_iff.mpr hf
    simp only [List.length_append] at hlen
    omega

/-- Outside the container a path keeps what it holds, or loses it with one of the folders. -/
theorem foldl_quarantine_cases {missing : List String} (hbase : baseDir cwd maildirPath = root)
    (hsource : ∀ f, f ≠ [] → resolve cwd (join (rstripSlash maildirPath) (relName f)) = root ++ f)
    (hroot : d.node root = some .dir) (hmissing : ∀ s ∈ missing, ∃ f, f ≠ [] ∧ s = relName f)
    (hq : ¬ root ++ [containerName] <+: q) :
    (missing.foldl (quarantineFiles env cwd maildirPath) d).node q = d.node q ∨
      (∃ f, f ≠ [] ∧ relName f ∈ missing ∧ root ++ f <+: q) ∧
        (missing.foldl (quarantineFiles env cwd maildirPath) d).node q = none := by
  induction missing generalizing d with
  | nil => exact .inl rfl
  | cons s missing ih =>
      obtain ⟨f, hf, rfl⟩ := hmissing s List.mem_cons_self
      have hone : ∀ r, ¬ root ++ [containerName] <+: r →
          (quarantineFiles env cwd maildirPath d (relName f)).node r = d.node r ∨
            root ++ f <+: r ∧ (quarantineFiles env cwd maildirPath d (relName f)).node r = none := by
        intro r hr
        have h := @quarantineFolder_cases (env (relName f)) d cwd r maildirPath (relName f)
        rw [hbase, hsource f hf] at h
        exact h hroot hr
      have hroot' : (quarantineFiles env cwd maildirPath d (relName f)).node root = some .dir :=
        quarantineFiles_root hbase (hsource f hf) hf hroot
      rw [List.foldl_cons]
      rcases ih hroot' fun s hs => hmissing s (List.mem_cons_of_mem _ hs) with
        h | ⟨⟨g, hg, hmem, hpre⟩, hnone⟩
      · rw [h]
        rcases hone q hq with hkeep | ⟨hpre, hnone⟩
        · exact .inl hkeep
        · exact .inr ⟨⟨f, hf, List.mem_cons_self, hpre⟩, hnone⟩
      · exact .inr ⟨⟨g, hg, List.mem_cons_of_mem _ hmem, hpre⟩, hnone⟩

/-- Everything is refused but to one folder. -/
def onlyFor (f : String) (folder : String) : Env where
  when' := ⟨2026, 1, 1, 0, 0⟩
  refuses := fun _ => decide (folder ≠ f)
  timestamp := 0
  hostname := ""
  date := ""

theorem foldl_quarantine_moves {missing : List String} {f : List Name}
    (hroot : Root d cwd maildirPath root) (hmissing : ∀ s ∈ missing, ∃ f, f ≠ [] ∧ s = relName f)
    (hf : f ≠ []) (hmem : relName f ∈ missing) (hcf : ¬ [containerName] <+: f)
    (hnode : d.node (root ++ f) = some .dir)
    (hc : ∀ content, d.node (root ++ [containerName]) ≠ some (.file content))
    (hq : ¬ root ++ [containerName] <+: q) (hpre : root ++ f <+: q) :
    (missing.foldl (quarantineFiles (onlyFor (relName f)) cwd maildirPath) d).node q = none := by
  induction missing with
  | nil => cases hmem
  | cons s missing ih =>
      have htail : ∀ s ∈ missing, ∃ f, f ≠ [] ∧ s = relName f :=
        fun s hs => hmissing s (List.mem_cons_of_mem _ hs)
      rw [List.foldl_cons]
      by_cases hs : s = relName f
      · subst hs
        have hrefuse : ∀ p, (onlyFor (relName f) (relName f)).refuses p = false := by
          simp [onlyFor]
        have hgone : ∀ r, ¬ root ++ [containerName] <+: r → root ++ f <+: r →
            (quarantineFiles (onlyFor (relName f)) cwd maildirPath d (relName f)).node r = none :=
          fun r hr hpre => quarantineFolder_moves hroot hf hcf hnode hc hrefuse hr hpre
        have hroot' : (quarantineFiles (onlyFor (relName f)) cwd maildirPath d
            (relName f)).node root = some .dir :=
          quarantineFiles_root hroot.baseDir_eq (hroot.resolve_source hf) hf hroot.dir
        -- what is gone stays gone
        rcases foldl_quarantine_cases hroot.baseDir_eq (fun g hg => hroot.resolve_source hg) hroot'
          htail hq with h | ⟨-, h⟩
        · rw [h, hgone q hq hpre]
        · exact h
      · have hrefuse : ∀ p, (onlyFor (relName f) s).refuses p = true := by
          simp [onlyFor, hs]
        have hsame : quarantineFiles (onlyFor (relName f)) cwd maildirPath d s = d :=
          quarantineFolder_refused hrefuse
        rw [hsame]
        exact ih htail ((List.mem_cons.mp hmem).resolve_left fun h => hs h.symm)

/-! ## The result -/

/-- A folder stands at its place with the messages it had. -/
structure FolderKept (d d' : Files) (p : Path) : Prop where
  stands : d'.node p = some .dir
  messages : ∀ sub, sub = curName ∨ sub = newName → ∀ message content,
    d'.node (p ++ [sub, message]) = some (.file content) ↔
      d.node (p ++ [sub, message]) = some (.file content)

/-- A directory of the maildir, other than the container and what lies in it, that bears the
name of a folder the Source lists. -/
def UpstreamFolder (d : Files) (root : Path) (remoteFolders : List String) (g : List Name) : Prop :=
  g ≠ [] ∧ ¬ [containerName] <+: g ∧ relName g ∈ remoteFolders ∧ d.node (root ++ g) = some .dir

/-- Whatever the file system refuses, the folders that exist upstream are kept. -/
def UpstreamFoldersKept (d : Files) (cwd : Path) (maildirPath : String)
    (remoteFolders patterns : List String) : Prop :=
  ∀ env g, UpstreamFolder d (baseDir cwd maildirPath) remoteFolders g →
    FolderKept d (reconcileRemovedFolders env d cwd maildirPath remoteFolders patterns).files
      (baseDir cwd maildirPath ++ g)

/-- No folder that vanished holds one that exists upstream, or its messages. -/
structure NothingNested (d : Files) (root : Path) (remoteFolders : List String)
    (f : List Name) : Prop where
  /-- It is not above a folder that exists upstream. -/
  folder : ∀ g, UpstreamFolder d root remoteFolders g → ¬ f <+: g
  /-- It is not the `cur` or `new` of one, with messages in it. -/
  messages : ∀ g, UpstreamFolder d root remoteFolders g → ∀ sub, sub = curName ∨ sub = newName →
    f = g ++ [sub] → ∀ message content, d.node (root ++ f ++ [message]) ≠ some (.file content)

/-- A reconciliation that acts acts on folders that hold nothing from upstream. -/
def QuarantineHarmless (d : Files) (cwd : Path) (maildirPath : String)
    (remoteFolders patterns : List String) : Prop :=
  Trusted d cwd maildirPath remoteFolders patterns →
    (∀ content, d.node (baseDir cwd maildirPath ++ [containerName]) ≠ some (.file content)) →
    ∀ f, Vanished d cwd maildirPath remoteFolders patterns f →
      NothingNested d (baseDir cwd maildirPath) remoteFolders f

theorem not_under_container {g t : List Name} (hg : g ≠ []) (h : ¬ [containerName] <+: g) :
    ¬ root ++ [containerName] <+: root ++ g ++ t := by
  rw [List.append_assoc, List.prefix_append_right_inj]
  intro hpre
  cases g with
  | nil => exact hg rfl
  | cons x g =>
      obtain ⟨u, hu⟩ := hpre
      rw [List.singleton_append, List.cons_append, List.cons.injEq] at hu
      exact h (hu.1 ▸ List.prefix_append [containerName] g)

theorem mem_missing_vanished {missing : List String}
    (hmem : ∀ s, s ∈ missing ↔
      s ∈ vanished (localSyncedFolders d cwd maildirPath) remoteFolders patterns) :
    ∀ s ∈ missing, ∃ f, f ≠ [] ∧ s = relName f := by
  intro s hs
  obtain ⟨root, f, -, hf, rfl⟩ :=
    mem_localSyncedFolders (List.mem_filter.mp ((hmem s).mp hs)).1
  exact ⟨f, (mem_syncedFolders hf).1, rfl⟩

/-- A run in which only one folder is moved. -/
theorem reconcile_takes {f : List Name} (htrust : Trusted d cwd maildirPath remoteFolders patterns)
    (hc : ∀ content, d.node (baseDir cwd maildirPath ++ [containerName]) ≠ some (.file content))
    (hf : Vanished d cwd maildirPath remoteFolders patterns f)
    (hq : ¬ baseDir cwd maildirPath ++ [containerName] <+: q)
    (hpre : baseDir cwd maildirPath ++ f <+: q) :
    (reconcileRemovedFolders (onlyFor (relName f)) d cwd maildirPath remoteFolders
      patterns).files.node q = none := by
  obtain ⟨root, hroot, hnode, hcf, -⟩ := hf.spec
  rw [hroot.baseDir_eq] at hc hq hpre
  rcases foldersToQuarantine_cases (localSyncedFolders d cwd maildirPath) remoteFolders patterns with
    ⟨-, hnil⟩ | ⟨e, -, hanomaly⟩ | ⟨missing, hok, -, -, hmem⟩
  · exact absurd hnil htrust.1
  · rw [htrust.2] at hanomaly
    cases hanomaly
  · rw [reconcile_files hok]
    exact foldl_quarantine_moves hroot (mem_missing_vanished hmem) hf.1 ((hmem _).mpr hf.2) hcf
      hnode hc hq hpre

theorem foldl_quarantine_blocked {content : List UInt8} (missing : List String)
    (hc : d.node (baseDir cwd maildirPath ++ [containerName]) = some (.file content)) :
    missing.foldl (quarantineFiles env cwd maildirPath) d = d := by
  induction missing with
  | nil => rfl
  | cons s missing ih =>
      rw [List.foldl_cons, quarantineFiles, quarantineFolder_blocked hc]
      exact ih

/-- Outside the container a reconciliation keeps what a path holds, or moves it away with a
folder that vanished. -/
theorem reconcile_cases (env : String → Env)
    (hq : ¬ baseDir cwd maildirPath ++ [containerName] <+: q) :
    let d' := (reconcileRemovedFolders env d cwd maildirPath remoteFolders patterns).files
    d'.node q = d.node q ∨
      Trusted d cwd maildirPath remoteFolders patterns ∧
      (∀ content, d.node (baseDir cwd maildirPath ++ [containerName]) ≠ some (.file content)) ∧
      (∃ f, Vanished d cwd maildirPath remoteFolders patterns f ∧
        baseDir cwd maildirPath ++ f <+: q) ∧ d'.node q = none := by
  dsimp only
  rcases foldersToQuarantine_cases (localSyncedFolders d cwd maildirPath) remoteFolders patterns with
    ⟨hok, -⟩ | ⟨e, herror, -⟩ | ⟨missing, hok, hne, hanomaly, hmem⟩
  · rw [reconcile_files hok]
    exact .inl rfl
  · rw [reconcileRemovedFolders, herror]
    exact .inl rfl
  · rw [reconcile_files hok]
    have hmissing := mem_missing_vanished hmem
    by_cases hfile : ∃ content,
        d.node (baseDir cwd maildirPath ++ [containerName]) = some (.file content)
    · obtain ⟨content, hc⟩ := hfile
      rw [foldl_quarantine_blocked missing hc]
      exact .inl rfl
    · cases missing with
      | nil => exact .inl rfl
      | cons s missing =>
          obtain ⟨root, f, hroot, -, -⟩ := mem_localSyncedFolders
            (List.mem_filter.mp ((hmem s).mp List.mem_cons_self)).1
          rw [hroot.baseDir_eq] at hq hfile ⊢
          rcases foldl_quarantine_cases hroot.baseDir_eq (fun f hf => hroot.resolve_source hf)
            hroot.dir hmissing hq with h | ⟨⟨g, hg, hgmem, hpre⟩, hnone⟩
          · exact .inl h
          · exact .inr ⟨⟨hne, hanomaly⟩, fun content hc => hfile ⟨content, hc⟩,
              ⟨g, ⟨hg, (hmem _).mp hgmem⟩, hpre⟩, hnone⟩

theorem UpstreamFoldersKept.harmless (h : UpstreamFoldersKept d cwd maildirPath remoteFolders patterns) :
    QuarantineHarmless d cwd maildirPath remoteFolders patterns := by
  intro htrust hc f hf
  refine ⟨?_, ?_⟩
  · intro g hg hpre
    have hq : ¬ baseDir cwd maildirPath ++ [containerName] <+: baseDir cwd maildirPath ++ g ++ [] :=
      not_under_container hg.1 hg.2.1
    rw [List.append_nil] at hq
    have hgone := reconcile_takes htrust hc hf hq
      ((List.prefix_append_right_inj (baseDir cwd maildirPath)).mpr hpre)
    rw [(h _ g hg).stands] at hgone
    cases hgone
  · rintro g hg sub hsub rfl message content hfile
    have hplace : baseDir cwd maildirPath ++ (g ++ [sub]) ++ [message] =
        baseDir cwd maildirPath ++ g ++ [sub, message] := by simp
    rw [hplace] at hfile
    have hgone := reconcile_takes htrust hc hf (not_under_container hg.1 hg.2.1)
      (hplace ▸ List.prefix_append _ [message])
    have hkept := ((h (onlyFor (relName (g ++ [sub]))) g hg).messages sub hsub message content).mpr
      hfile
    rw [hgone] at hkept
    cases hkept

/-- A vanished folder that takes a message of an upstream folder away is nested badly. -/
theorem QuarantineHarmless.kept (h : QuarantineHarmless d cwd maildirPath remoteFolders patterns) :
    UpstreamFoldersKept d cwd maildirPath remoteFolders patterns := by
  intro env g hg
  refine ⟨?_, ?_⟩
  · have hq : ¬ baseDir cwd maildirPath ++ [containerName] <+: baseDir cwd maildirPath ++ g ++ [] :=
      not_under_container hg.1 hg.2.1
    rw [List.append_nil] at hq
    rcases reconcile_cases env hq with hsame | ⟨htrust, hc, ⟨f, hf, hpre⟩, -⟩
    · exact hsame.trans hg.2.2.2
    · exact absurd ((List.prefix_append_right_inj _).mp hpre) ((h htrust hc f hf).folder g hg)
  · intro sub hsub message content
    rcases reconcile_cases env (not_under_container hg.1 hg.2.1) with
      hsame | ⟨htrust, hc, ⟨f, hf, hpre⟩, hnone⟩
    · rw [hsame]
    · rw [hnone]
      refine ⟨nofun, fun hfile => ?_⟩
      exfalso
      have hharmless := h htrust hc f hf
      rw [List.append_assoc, List.prefix_append_right_inj,
        show g ++ [sub, message] = g ++ [sub] ++ [message] by simp] at hpre
      rcases List.prefix_concat_iff.mp hpre with rfl | hpre
      · -- the path of a message is not that of a folder
        obtain ⟨root, hroot, hnode, -⟩ := hf.spec
        rw [hroot.baseDir_eq, List.append_assoc] at hfile
        rw [List.append_assoc] at hnode
        exact absurd (hfile.symm.trans hnode) (by simp)
      · rcases List.prefix_concat_iff.mp hpre with rfl | hpre
        · exact hharmless.messages g hg sub hsub rfl message content (by simpa using hfile)
        · exact hharmless.folder g hg hpre

/-- The folders that exist upstream are kept exactly where none of them, and none of their
messages, lies in a folder that vanished. -/
theorem reconcileRemovedFolders_kept_iff :
    UpstreamFoldersKept d cwd maildirPath remoteFolders patterns ↔
      QuarantineHarmless d cwd maildirPath remoteFolders patterns :=
  ⟨UpstreamFoldersKept.harmless, QuarantineHarmless.kept⟩

/-- A maildir with the folders `A` and `A/B`, both synced, and a message in each. -/
def nestedFiles : Files :=
  .build <|
    (["/m", "/m/A", "/m/A/cur", "/m/A/B", "/m/A/B/cur"].map fun s => (resolve [] s, .dir)) ++
    ["/m/A/.mbsyncstate", "/m/A/cur/1", "/m/A/B/.mbsyncstate", "/m/A/B/cur/2"].map
      fun s => (resolve [] s, .file [])

/-- The Source still lists `A/B`, and loses it with `A`. -/
theorem reconcileRemovedFolders_takes_nested :
    ¬ UpstreamFoldersKept nestedFiles [] "/m" ["A/B"] [] := by
  intro h
  have hstands := (h (onlyFor "A") (resolve [] "A/B") ⟨by decide, by decide, by decide, by decide⟩).stands
  exact absurd hstands (by decide)

end MailFallback
