import MailFallback.Migration.Semantics

/-! # What the file operations of a migration do

Specifications of the pieces that create, copy and remove files. Each says what holds
whenever the piece is cut off, and what holds when it returns. -/

namespace MailFallback

open Storage Posix Effects Job

variable {s s' : Host} {d d' d₁ d₂ : Files} {p q source dest : Path}
  {C : Contract HostOp Host} {ε : Type}

/-! ## Single operations -/

theorem hostStep_error {o : HostOp} {e : Exc} (h : hostStep o s (.error e) = some s') : s' = s := by
  cases o <;> simp only [hostStep, Option.ite_none_right_eq_some, Option.some.injEq] at h <;>
    exact h.2.symm

theorem safe_op {o : HostOp} {Q : HostAns o → Host → Prop} {E : Exc → Host → Prop}
    (hc : C.crash s) (ha : C.allow o s)
    (hok : ∀ a s', hostStep o s (.ok a) = some s' → C.crash s' ∧ Q a s')
    (herr : o.fallible = true → ∀ e, E e s) : Safe hostStep C Q E (hostOp o) s := by
  apply Safe.op hc ha hok
  intro e s' h
  have hf : o.fallible = true := by
    cases o <;> simp only [hostStep, Option.ite_none_right_eq_some] at h <;> exact h.1.1
  rw [hostStep_error h]
  exact ⟨hc, herr hf e⟩

/-- A program that removes no tree. -/
def NoRmtree (o : HostOp) (_ : Host) : Prop := ∀ p, o ≠ .enterRmtree p

/-- Only the files differ. -/
def FilesOnly (s s' : Host) : Prop := s'.db = s.db ∧ s'.staged = s.staged

theorem FilesOnly.refl (s : Host) : FilesOnly s s := ⟨rfl, rfl⟩

theorem FilesOnly.trans {s₁ s₂ s₃ : Host} (h : FilesOnly s₁ s₂) (h' : FilesOnly s₂ s₃) :
    FilesOnly s₁ s₃ :=
  ⟨h'.1.trans h.1, h'.2.trans h.2⟩

theorem withFiles_eq_some {d : Option Files} (h : s.withFiles d = some s') :
    FilesOnly s s' ∧ d = some s'.files := by
  cases d with
  | none => cases h
  | some d =>
      cases h
      exact ⟨FilesOnly.refl s, rfl⟩

/-- An operation that only looks. -/
theorem safe_look {o : HostOp} {Q : HostAns o → Host → Prop} (hc : C.crash s) (ha : C.allow o s)
    (hok : ∀ a s', hostStep o s (.ok a) = some s' → s' = s ∧ Q a s) :
    Safe hostStep C (fun a s' => s' = s ∧ Q a s) (fun _ s' => s' = s) (hostOp o) s := by
  apply safe_op hc ha
  · intro a s' h
    obtain ⟨rfl, hq⟩ := hok a s' h
    exact ⟨hc, rfl, hq⟩
  · exact fun _ _ => rfl

theorem pathExists_spec (hc : C.crash s) (ha : C.allow (.pathExists p) s) :
    Safe hostStep C (fun b s' => s' = s ∧ b = s.files.has p) (fun _ s' => s' = s)
      (pathExists p) s := by
  apply safe_look hc ha
  intro b s' h
  obtain ⟨hb, hs⟩ := Option.ite_none_right_eq_some.mp h
  exact ⟨(Option.some.inj hs).symm, hb⟩

theorem isDirectory_spec (hc : C.crash s) (ha : C.allow (.isDirectory p) s) :
    Safe hostStep C (fun b s' => s' = s ∧ b = s.files.isDir p) (fun _ s' => s' = s)
      (isDirectory p) s := by
  apply safe_look hc ha
  intro b s' h
  obtain ⟨hb, hs⟩ := Option.ite_none_right_eq_some.mp h
  exact ⟨(Option.some.inj hs).symm, hb⟩

theorem mem_listing {x : Name} {b : Bool} :
    (x, b) ∈ listing d p ↔ ∃ n, d.node (p ++ [x]) = some n ∧ b = decide (n = .dir) := by
  simp only [listing, List.mem_map, Prod.mk.injEq, Prod.exists, Disk.mem_children]
  constructor
  · rintro ⟨y, n, hn, rfl, rfl⟩
    exact ⟨n, hn, rfl⟩
  · rintro ⟨n, hn, rfl⟩
    exact ⟨x, n, hn, rfl, rfl⟩

/-- A listing names each child of a directory, whatever the order. -/
structure Listed (d : Files) (p : Path) (entries : List (Name × Bool)) : Prop where
  dir : d.node p = some .dir
  perm : entries.Perm (listing d p)

theorem Listed.mem {entries : List (Name × Bool)} (h : Listed d p entries) {x : Name} {b : Bool} :
    (x, b) ∈ entries ↔ ∃ n, d.node (p ++ [x]) = some n ∧ b = decide (n = .dir) := by
  rw [h.perm.mem_iff, mem_listing]

theorem Listed.nodup {entries : List (Name × Bool)} (h : Listed d p entries) : entries.Nodup := by
  rw [h.perm.nodup_iff]
  apply List.Nodup.map_on ?_ (Disk.children_nodup d p)
  rintro ⟨x, n⟩ hn ⟨y, m⟩ hm heq
  obtain ⟨rfl, -⟩ := Prod.mk.inj heq
  rw [Disk.mem_children] at hn hm
  rw [hn] at hm
  cases hm
  rfl

theorem scandir_spec (hc : C.crash s) (ha : C.allow (.scandir p) s) :
    Safe hostStep C (fun entries s' => s' = s ∧ Listed s.files p entries) (fun _ s' => s' = s)
      (scandir p) s := by
  apply safe_look hc ha
  intro entries s' h
  obtain ⟨⟨hdir, hperm⟩, hs⟩ := Option.ite_none_right_eq_some.mp h
  exact ⟨(Option.some.inj hs).symm, Disk.isDir_iff.mp hdir, hperm⟩

theorem fileContent_eq_some {content : List UInt8} :
    fileContent d p = some content ↔ d.node p = some (.file content) := by
  unfold fileContent
  cases d.node p with
  | none => simp
  | some n => cases n <;> simp

theorem fileSize_spec (hc : C.crash s) (ha : C.allow (.fileSize p) s) :
    Safe hostStep C
      (fun _ s' => s' = s ∧ ∃ content, s.files.node p = some (.file content))
      (fun _ s' => s' = s) (fileSize p) s := by
  apply safe_look hc ha
  intro size s' h
  obtain ⟨hsize, hs⟩ := Option.ite_none_right_eq_some.mp h
  obtain ⟨content, hcontent, -⟩ := Option.map_eq_some_iff.mp hsize
  exact ⟨(Option.some.inj hs).symm, content, fileContent_eq_some.mp hcontent⟩

theorem readFile_spec (hc : C.crash s) (ha : C.allow (.readFile p) s) :
    Safe hostStep C (fun content s' => s' = s ∧ s.files.node p = some (.file content))
      (fun _ s' => s' = s) (readFile p) s := by
  apply safe_look hc ha
  intro content s' h
  obtain ⟨hcontent, hs⟩ := Option.ite_none_right_eq_some.mp h
  exact ⟨(Option.some.inj hs).symm, fileContent_eq_some.mp hcontent⟩

/-! ## Directories -/

/-- What existed is unchanged. -/
def Keeps (d d' : Files) : Prop := ∀ q n, d.node q = some n → d'.node q = some n

theorem Keeps.refl (d : Files) : Keeps d d := fun _ _ h => h

theorem Keeps.trans (h : Keeps d d₁) (h' : Keeps d₁ d₂) : Keeps d d₂ :=
  fun q n hn => h' q n (h q n hn)

/-- Directories that were missing on the way to `p` are there. -/
def Filled (p : Path) (d d' : Files) : Prop :=
  ∀ q, d'.node q = d.node q ∨ q <+: p ∧ d.node q = none ∧ d'.node q = some .dir

theorem Filled.refl (p : Path) (d : Files) : Filled p d d := fun _ => .inl rfl

theorem Filled.trans (h : Filled p d d₁) (h' : Filled p d₁ d₂) : Filled p d d₂ := by
  intro q
  rcases h' q with hsame | ⟨hq, hnone, hdir⟩
  · rw [hsame]
    exact h q
  · rcases h q with hsame | ⟨-, -, hdir'⟩
    · exact .inr ⟨hq, hsame ▸ hnone, hdir⟩
    · rw [hdir'] at hnone
      cases hnone

theorem Filled.mono (h : Filled p d d') (hp : p <+: q) : Filled q d d' := by
  intro r
  rcases h r with hsame | ⟨hr, hnone, hdir⟩
  · exact .inl hsame
  · exact .inr ⟨hr.trans hp, hnone, hdir⟩

theorem Filled.keeps (h : Filled p d d') : Keeps d d' := by
  intro q n hn
  rcases h q with hsame | ⟨-, hnone, -⟩
  · rw [hsame, hn]
  · rw [hn] at hnone
    cases hnone

/-- The contract of a piece that only fills in directories on the way to `p`. -/
def fillContract (p : Path) (s : Host) : Contract HostOp Host where
  crash := fun s' => FilesOnly s s' ∧ Filled p s.files s'.files
  allow := NoRmtree

theorem fill_refl (p : Path) (s : Host) : (fillContract p s).crash s :=
  ⟨FilesOnly.refl s, Filled.refl p s.files⟩

theorem mkdirOk_spec (p : Path) (s : Host) :
    Safe hostStep (fillContract p s) (fun _ s' => s'.files.node p = some .dir) (fun _ _ => True)
      (mkdirOk p) s := by
  apply Safe.handle
  apply safe_op
  · exact fill_refl p s
  · exact nofun
  · intro _ s' h
    obtain ⟨hfiles, hmk⟩ := withFiles_eq_some h
    refine ⟨⟨hfiles, fun q => ?_⟩, by simp [Disk.node_mkdir hmk]⟩
    rw [Disk.node_mkdir hmk]
    split
    · rename_i hq
      exact .inr ⟨hq ▸ List.prefix_rfl, hq ▸ Disk.mkdir_fresh hmk, rfl⟩
    · exact .inl rfl
  · intro _ e
    apply Safe.bind
    refine (isDirectory_spec (fill_refl p s) nofun).post ?_ (fun _ _ _ _ => trivial)
    rintro b s' - ⟨rfl, rfl⟩
    split
    · rename_i hdir
      exact ⟨fill_refl p s', Disk.isDir_iff.mp hdir⟩
    · exact ⟨fill_refl p s', trivial⟩

/-- Done in two parts, the second on what the first left. -/
theorem fillContract_trans (h : FilesOnly s s' ∧ Filled p s.files s'.files) (hp : q <+: p) (t : Host)
    (ht : (fillContract q s').crash t) : (fillContract p s).crash t :=
  ⟨h.1.trans ht.1, h.2.trans (ht.2.mono hp)⟩

theorem makedirsRev_spec (names : List Name) (s : Host) :
    Safe hostStep (fillContract names.reverse s)
      (fun _ s' => s'.files.node names.reverse = some .dir) (fun _ _ => True)
      (makedirsRev names) s := by
  induction names generalizing s with
  | nil => exact mkdirOk_spec [] s
  | cons x rest ih =>
      have hpre : rest.reverse <+: (x :: rest).reverse := by simp
      apply Safe.bind
      refine (pathExists_spec (fill_refl _ s) nofun).post ?_ (fun _ _ _ _ => trivial)
      rintro there s' - ⟨rfl, -⟩
      split
      · exact mkdirOk_spec _ s'
      · apply Safe.bind
        refine (ih s').mono (fillContract_trans (fill_refl _ s') hpre) (fun _ _ h => h) ?_
          (fun _ _ _ _ => trivial)
        rintro _ s₁ hs₁ -
        have hfill := fillContract_trans (fill_refl _ s') hpre s₁ hs₁
        exact (mkdirOk_spec _ s₁).mono (fillContract_trans hfill List.prefix_rfl) (fun _ _ h => h)
          (fun _ _ _ h => h) (fun _ _ _ _ => trivial)

theorem makedirs_spec (p : Path) (s : Host) :
    Safe hostStep (fillContract p s) (fun _ s' => s'.files.node p = some .dir) (fun _ _ => True)
      (makedirsRev p.reverse) s := by
  have h := makedirsRev_spec p.reverse s
  rwa [List.reverse_reverse] at h

/-! ## Copies -/

/-- The contract of a piece that touches one path only. -/
def oneContract (p : Path) (s : Host) : Contract HostOp Host where
  crash := fun s' => FilesOnly s s' ∧ ∀ q, q ≠ p → s'.files.node q = s.files.node q
  allow := NoRmtree

theorem one_refl (p : Path) (s : Host) : (oneContract p s).crash s :=
  ⟨FilesOnly.refl s, fun _ _ => rfl⟩

theorem one_write {content : List UInt8} (h : (oneContract p s).crash s')
    {t : Host} (ht : s'.withFiles (s'.files.write p content) = some t) :
    (oneContract p s).crash t ∧ t.files.node p = some (.file content) := by
  obtain ⟨hfiles, hw⟩ := withFiles_eq_some ht
  refine ⟨⟨h.1.trans hfiles, fun q hq => ?_⟩, by simp [Disk.node_write hw]⟩
  rw [Disk.node_write hw, if_neg hq]
  exact h.2 q hq

/-- A copy to a free path leaves the source's bytes there. -/
theorem copy2_spec (hdest : s.files.node dest = none) :
    Safe hostStep (oneContract dest s)
      (fun _ s' => ∃ content, s.files.node source = some (.file content) ∧
        s'.files.node dest = some (.file content))
      (fun _ _ => True) (copy2 source dest) s := by
  apply Safe.bind
  refine (readFile_spec (one_refl dest s) nofun).post ?_ (fun _ _ _ _ => trivial)
  rintro content s' - ⟨rfl, hread⟩
  apply Safe.bind
  refine safe_op (one_refl dest s') nofun ?_ (fun _ _ => trivial)
  intro _ s₁ h₁
  obtain ⟨hone₁, hempty⟩ := one_write (one_refl dest s') h₁
  refine ⟨hone₁, ?_⟩
  -- after each byte the destination holds the bytes written so far
  have hloop : Safe hostStep (oneContract dest s')
      (fun _ t => t.files.node dest = some (.file content)) (fun _ _ => True)
      (content.foldlM (fun _ byte => append dest byte) ()) s₁ := by
    apply Safe.foldlM (fun done _ t => t.files.node dest = some (.file done)) content hempty hone₁
    intro done byte rest _ t _ hc hnode
    refine safe_op hc nofun ?_ (fun _ _ => trivial)
    intro _ t' ht
    obtain ⟨content', hcontent', hwrite⟩ := Option.bind_eq_some_iff.mp ht
    rw [fileContent_eq_some, hnode] at hcontent'
    obtain rfl : done = content' := by simpa using hcontent'
    exact one_write hc hwrite
  apply Safe.bind
  refine hloop.post ?_ (fun _ _ _ _ => trivial)
  intro _ t hc hnode
  refine safe_op hc nofun ?_ (fun _ _ => trivial)
  rintro _ t' ⟨⟩
  exact ⟨hc, content, hread, hnode⟩

/-! ## Removals -/

/-- The contract of a piece that touches nothing outside `p`. -/
def insideContract (p : Path) (s : Host) : Contract HostOp Host where
  crash := fun s' => FilesOnly s s' ∧ ∀ q, ¬ p <+: q → s'.files.node q = s.files.node q
  allow := NoRmtree

theorem inside_refl (p : Path) (s : Host) : (insideContract p s).crash s :=
  ⟨FilesOnly.refl s, fun _ _ => rfl⟩

theorem inside_remove (h : (insideContract p s).crash s') (hq : p <+: q) {t : Host}
    (ht : s'.withFiles (s'.files.remove q) = some t) : (insideContract p s).crash t := by
  obtain ⟨hfiles, hrm⟩ := withFiles_eq_some ht
  refine ⟨h.1.trans hfiles, fun r hr => ?_⟩
  rw [Disk.node_remove hrm fun hqr => hr (hq.trans hqr)]
  exact h.2 r hr

/-- A recursive delete changes nothing outside its directory. -/
theorem rmtreeFrom_spec (n : ℕ) (hpq : p <+: q) (hs : (insideContract p s).crash s') :
    Safe hostStep (insideContract p s) (fun _ _ => True) (fun _ _ => True) (rmtreeFrom n q) s' := by
  induction n generalizing q s' with
  | zero => exact ⟨hs, trivial⟩
  | succ n ih =>
      have hunlink : ∀ x t, (insideContract p s).crash t → Safe hostStep (insideContract p s)
          (fun _ _ => True) (fun _ _ => True)
          ((unlink (q ++ [x])).handle fun _ => pure ()) t := by
        intro x t ht
        apply Safe.handle
        refine safe_op ht nofun ?_ (fun _ _ => ⟨ht, trivial⟩)
        intro _ t' h
        obtain ⟨-, h⟩ := Option.ite_none_left_eq_some.mp h
        exact ⟨inside_remove ht (hpq.trans (List.prefix_append q [x])) h, trivial⟩
      have hrmdir : ∀ t, (insideContract p s).crash t → Safe hostStep (insideContract p s)
          (fun _ _ => True) (fun _ _ => True) ((rmdir q).handle fun _ => pure ()) t := by
        intro t ht
        apply Safe.handle
        refine safe_op ht nofun ?_ (fun _ _ => ⟨ht, trivial⟩)
        intro _ t' h
        obtain ⟨-, h⟩ := Option.ite_none_right_eq_some.mp h
        exact ⟨inside_remove ht hpq h, trivial⟩
      have hrest : ∀ (entries : List (Name × Bool)) t, (insideContract p s).crash t →
          Safe hostStep (insideContract p s) (fun _ _ => True) (fun _ _ => True)
            (do
              entries.foldlM
                (fun _ entry =>
                  if entry.2 = true then rmtreeFrom n (q ++ [entry.1])
                  else (unlink (q ++ [entry.1])).handle fun _ => pure ())
                ()
              (rmdir q).handle fun _ => pure ()) t := by
        intro entries t ht
        have hloop : Safe hostStep (insideContract p s) (fun _ _ => True) (fun _ _ => True)
            (entries.foldlM
              (fun _ entry =>
                if entry.2 = true then rmtreeFrom n (q ++ [entry.1])
                else (unlink (q ++ [entry.1])).handle fun _ => pure ())
              ()) t := by
          apply Safe.foldlM (fun _ _ _ => True) entries trivial ht
          intro done entry rest _ t _ ht _
          split
          · exact ih (hpq.trans (List.prefix_append q [entry.1])) ht
          · exact hunlink entry.1 t ht
        apply Safe.bind
        refine hloop.post ?_ (fun _ _ _ _ => trivial)
        exact fun _ t ht _ => hrmdir t ht
      apply Safe.bind
      apply Safe.handle
      refine (scandir_spec hs nofun).post ?_ ?_
      · exact fun entries t ht _ => hrest entries t ht
      · exact fun _ t ht _ => ⟨ht, hrest [] t ht⟩

end MailFallback
