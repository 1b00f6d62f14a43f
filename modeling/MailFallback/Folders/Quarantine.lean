import MailFallback.Folders.Semantics

/-! # What one quarantine changes

Everything a quarantine adds lies in the container, so outside it a path either keeps
what it held or loses it to the move. -/

namespace MailFallback

open Storage Posix

variable {env : Env} {d d' : Files} {cwd root p q : Path} {maildirPath folder dest : String}

/-! ## Names -/

theorem isAbsolute_relName (x : Name) (rel : List Name) : isAbsolute (relName (x :: rel)) = false := by
  have h : ∀ (rest : List Name) (s : String), isAbsolute s = false → s ≠ "" →
      isAbsolute (rest.foldl (fun s y => s ++ "/" ++ y.1) s) = false := by
    intro rest
    induction rest with
    | nil => exact fun s hs _ => hs
    | cons y rest ih =>
        intro s hs hne
        apply ih
        · have hl : s.toList ≠ [] := by simpa using hne
          simp only [isAbsolute, String.toList_append] at hs ⊢
          cases hc : s.toList with
          | nil => exact absurd hc hl
          | cons c cs => simpa [hc] using hs
        · simp
  exact h rel x.1 (isAbsolute_name x) x.2.1

theorem pieces_relName (x : Name) (rel : List Name) :
    pieces (relName (x :: rel)) = texts (x :: rel) := by
  have h : ∀ (rest : List Name) (s : String),
      pieces (rest.foldl (fun s y => s ++ "/" ++ y.1) s) = pieces s ++ texts rest := by
    intro rest
    induction rest with
    | nil => simp
    | cons y rest ih =>
        intro s
        rw [List.foldl_cons, ih, pieces_append_slash, pieces_name]
        simp
  rw [relName, h rel x.1, pieces_name]
  rfl

theorem relName_inj {f g : List Name} (hf : f ≠ []) (hg : g ≠ []) (h : relName f = relName g) :
    f = g := by
  cases f with
  | nil => exact absurd rfl hf
  | cons x f =>
      cases g with
      | nil => exact absurd rfl hg
      | cons y g =>
          apply texts_injective
          rw [← pieces_relName, ← pieces_relName, h]

theorem slash_not_digit (n : ℕ) : '/' ∉ Nat.toDigits 10 n := by
  intro h
  exact absurd (Nat.isDigit_of_mem_toDigits (by decide) (by decide) h) (by decide)

theorem repr_inj {m n : ℕ} (h : m.repr = n.repr) : m = n := by
  have hdigits := congrArg String.toList h
  rw [Nat.toList_repr, Nat.toList_repr] at hdigits
  rw [← Nat.ofDigitChars_toDigits (b := 10) (n := m) (by decide) (by decide), hdigits,
    Nat.ofDigitChars_toDigits (by decide) (by decide)]

theorem zeroPad_no_slash (width n : ℕ) : '/' ∉ (zeroPad width n).toList := by
  simp [zeroPad, slash_not_digit]

theorem strftime_no_slash (w : Minute) : '/' ∉ w.strftime.toList := by
  simp [Minute.strftime, zeroPad_no_slash]

/-- A string that ends in a parenthesis and holds no slash is a name. -/
theorem isName_closed {s : String} (h : '/' ∉ s.toList) : IsName (s ++ ")") := by
  have hlast : ∀ t : String, (s ++ ")") = t → t.toList.getLast? = some ')' := by
    rintro t rfl
    simp
  refine ⟨?_, ?_, ?_, by simpa using h⟩
  · exact fun he => absurd (hlast _ he) (by decide)
  · exact fun he => absurd (hlast _ he) (by decide)
  · exact fun he => absurd (hlast _ he) (by decide)

theorem quarantineName_no_slash (folder : String) (when' : Minute) :
    '/' ∉ (quarantineName folder when').toList := by
  have hfold : ∀ c : Char, '/' ≠ if c = '/' ∨ c = ':' then '-' else c := by
    intro c
    split
    · decide
    · rename_i h
      exact fun he => h (.inl he.symm)
  simp only [quarantineName, String.toList_append, String.toList_ofList, List.mem_append,
    List.mem_map, not_or, not_exists, not_and]
  refine ⟨⟨⟨fun c _ he => hfold c he.symm, by decide⟩, strftime_no_slash when'⟩, by decide⟩

theorem isName_quarantineName (folder : String) (when' : Minute) :
    IsName (quarantineName folder when') := by
  apply isName_closed
  have h := quarantineName_no_slash folder when'
  simp only [quarantineName, String.toList_append, List.mem_append, not_or] at h ⊢
  exact h.1

/-- The name with the suffix that tells it from others of the same minute. -/
def suffixed (x : Name) (n : ℕ) : Name :=
  ⟨x.1 ++ " (" ++ n.repr ++ ")", by
    apply isName_closed
    have hx := x.2.2.2.2
    simp [hx, slash_not_digit]⟩

theorem suffixed_inj {x : Name} {m n : ℕ} (h : suffixed x m = suffixed x n) : m = n := by
  have hs := congrArg (fun y : Name => y.1.toList) h
  simp only [suffixed, String.toList_append, List.append_cancel_left_eq,
    List.append_cancel_right_eq] at hs
  exact repr_inj (String.toList_injective hs)

/-! ## The free destination -/

theorem resolve_container (cwd : Path) (maildirPath : String) :
    resolve cwd (containerPath maildirPath) = baseDir cwd maildirPath ++ [containerName] := by
  have hpieces : pieces removedContainer = texts [containerName] := pieces_name containerName
  rw [containerPath, resolve_child, hpieces, walk_texts]

theorem dest_assoc (maildirPath : String) (x : Name) :
    containerPath maildirPath ++ "/" ++ x.1 =
      rstripSlash maildirPath ++ "/" ++ (removedContainer ++ "/" ++ x.1) := by
  simp [containerPath, String.append_assoc]

theorem pieces_dest (x : Name) :
    pieces (removedContainer ++ "/" ++ x.1) = texts [containerName, x] := by
  rw [pieces_append_slash, pieces_name]
  exact congrArg (· ++ [x.1]) (pieces_name containerName)

theorem resolve_dest (cwd : Path) (maildirPath : String) (x : Name) :
    resolve cwd (containerPath maildirPath ++ "/" ++ x.1) =
      baseDir cwd maildirPath ++ [containerName, x] := by
  rw [dest_assoc, resolve_child, pieces_dest, walk_texts]

theorem exists_dest {x : Name}
    (h : Posix.exists d cwd (containerPath maildirPath ++ "/" ++ x.1) = true) :
    d.node (baseDir cwd maildirPath ++ [containerName, x]) ≠ none := by
  obtain ⟨p, hp, hhas⟩ := (Option.any_eq_true ..).mp h
  rw [← resolve_dest, find_eq_some hp]
  obtain ⟨n, hn⟩ := Disk.has_iff.mp hhas
  simp [hn]

/-- The directory that the maildir string leads to. -/
structure Root (d : Files) (cwd : Path) (maildirPath : String) (root : Path) : Prop where
  find : find d cwd (rstripSlash maildirPath) = some root
  dir : d.node root = some .dir

theorem Root.baseDir_eq (h : Root d cwd maildirPath root) : baseDir cwd maildirPath = root :=
  find_eq_some (find_slash h.find h.dir)

theorem Root.free_dest (h : Root d cwd maildirPath root) {x : Name}
    (hfree : Posix.exists d cwd (containerPath maildirPath ++ "/" ++ x.1) = false) :
    d.node (root ++ [containerName, x]) = none := by
  cases hn : d.node (root ++ [containerName, x]) with
  | none => rfl
  | some n =>
      have hfind : Posix.find d cwd (containerPath maildirPath ++ "/" ++ x.1) =
          some (root ++ [containerName, x]) := by
        rw [dest_assoc, find_append_slash, find_slash h.find h.dir, pieces_dest]
        exact walkOn_texts hn
      simp [Posix.exists, hfind, Disk.has, hn] at hfree

theorem nextFree_eq_some {taken : String → Bool} {s : String} {fuel n : ℕ}
    (h : nextFree taken dest fuel n = some s) :
    ∃ k : ℕ, s = dest ++ " (" ++ k.repr ++ ")" ∧ taken s = false := by
  induction fuel generalizing n with
  | zero => cases h
  | succ fuel ih =>
      rw [nextFree] at h
      split at h
      · exact ih h
      · rename_i hfree
        cases h
        exact ⟨n, rfl, by simpa using hfree⟩

theorem nextFree_eq_none {taken : String → Bool} {fuel n : ℕ}
    (h : nextFree taken dest fuel n = none) :
    ∀ i < fuel, taken (dest ++ " (" ++ (n + i).repr ++ ")") = true := by
  induction fuel generalizing n with
  | zero => simp
  | succ fuel ih =>
      rw [nextFree] at h
      split at h
      · rename_i htaken
        intro i hi
        cases i with
        | zero => exact htaken
        | succ i =>
            have := ih h i (by omega)
            rwa [show n + 1 + i = n + (i + 1) by omega] at this
      · cases h

theorem freeDest_eq_some {x : Name}
    (h : freeDest d cwd (containerPath maildirPath ++ "/" ++ x.1) = some dest) :
    ∃ y : Name, dest = containerPath maildirPath ++ "/" ++ y.1 ∧
      Posix.exists d cwd dest = false := by
  unfold freeDest at h
  dsimp only at h
  split at h
  · obtain ⟨k, rfl, hfree⟩ := nextFree_eq_some h
    exact ⟨suffixed x k, by simp [suffixed, String.append_assoc], hfree⟩
  · rename_i hfree
    cases h
    exact ⟨x, rfl, by simpa using hfree⟩

/-- There are more candidates than nodes, so one of them is free. -/
theorem freeDest_ne_none (d : Files) (cwd : Path) (maildirPath : String) (x : Name) :
    freeDest d cwd (containerPath maildirPath ++ "/" ++ x.1) ≠ none := by
  unfold freeDest
  dsimp only
  split
  · intro hnone
    let place : ℕ → Path := fun i => baseDir cwd maildirPath ++ [containerName, suffixed x (2 + i)]
    have htaken : ∀ i < d.nodes.entries.length + 1, place i ∈ d.nodes.entries.map Sigma.fst := by
      intro i hi
      have hex := nextFree_eq_none hnone i hi
      have hs : containerPath maildirPath ++ "/" ++ x.1 ++ " (" ++ (2 + i).repr ++ ")" =
          containerPath maildirPath ++ "/" ++ (suffixed x (2 + i)).1 := by
        simp [suffixed, String.append_assoc]
      rw [hs] at hex
      obtain ⟨n, hn⟩ := Option.ne_none_iff_exists'.mp (exists_dest hex)
      exact List.mem_map.mpr ⟨_, (d.node_mem_entries (by simp) n).mp hn, rfl⟩
    have hinj : ∀ i j, place i = place j → i = j := by
      intro i j hij
      have hx : suffixed x (2 + i) = suffixed x (2 + j) := by simpa [place] using hij
      have := suffixed_inj hx
      omega
    have hnodup : ((List.range (d.nodes.entries.length + 1)).map place).Nodup :=
      List.nodup_range.map hinj
    have hsub : (List.range (d.nodes.entries.length + 1)).map place ⊆
        d.nodes.entries.map Sigma.fst := by
      intro q hq
      obtain ⟨i, hi, rfl⟩ := List.mem_map.mp hq
      exact htaken i (List.mem_range.mp hi)
    have hlen := (List.subperm_of_subset hnodup hsub).length_le
    simp only [List.length_map, List.length_range] at hlen
    omega
  · simp

/-! ## Changes inside the container -/

/-- Nothing changes but at or below `c`. -/
def SameOutside (c : Path) (d d' : Files) : Prop :=
  ∀ q, ¬ c <+: q → d'.node q = d.node q

theorem SameOutside.refl (c : Path) (d : Files) : SameOutside c d d := fun _ _ => rfl

theorem SameOutside.trans {c : Path} {d₁ d₂ d₃ : Files} (h : SameOutside c d₁ d₂)
    (h' : SameOutside c d₂ d₃) : SameOutside c d₁ d₃ :=
  fun q hq => (h' q hq).trans (h q hq)

theorem SameOutside.mono {c c' : Path} {d d' : Files} (h : SameOutside c' d d') (hc : c <+: c') :
    SameOutside c d d' :=
  fun q hq => h q fun hc' => hq (hc.trans hc')

theorem makedirsStep_cases (env : Env) (s : Files × Bool) (p q : Path) :
    (makedirsStep env s p).1.node q = s.1.node q ∨
      q = p ∧ s.1.node q = none ∧ (makedirsStep env s p).1.node q = some .dir := by
  obtain ⟨d, ok⟩ := s
  rw [makedirsStep]
  split
  · exact .inl rfl
  · split
    · exact .inl rfl
    · split
      · rename_i d' hmk
        have hnode := Disk.node_mkdir hmk q
        split at hnode
        · rename_i hqp
          exact .inr ⟨hqp, hqp ▸ Disk.mkdir_fresh hmk, hnode⟩
        · exact .inl hnode
      · exact .inl rfl

/-- `makedirs` only fills in directories that are missing on the way. -/
theorem makedirs_cases (env : Env) (d : Files) (p q : Path) :
    (makedirs env d p).1.node q = d.node q ∨
      q <+: p ∧ d.node q = none ∧ (makedirs env d p).1.node q = some .dir := by
  have h : ∀ (l : List Path) (s : Files × Bool), (∀ r ∈ l, r <+: p) →
      (l.foldl (makedirsStep env) s).1.node q = s.1.node q ∨
        q <+: p ∧ s.1.node q = none ∧ (l.foldl (makedirsStep env) s).1.node q = some .dir := by
    intro l
    induction l with
    | nil => exact fun s _ => .inl rfl
    | cons r l ih =>
        intro s hl
        rw [List.foldl_cons]
        rcases ih (makedirsStep env s r) (fun r hr => hl r (List.mem_cons_of_mem _ hr)) with
          hrest | ⟨hqp, hnone, hdir⟩
        · rw [hrest]
          rcases makedirsStep_cases env s r q with hstep | ⟨rfl, hnone, hdir⟩
          · exact .inl hstep
          · exact .inr ⟨hl q List.mem_cons_self, hnone, hdir⟩
        · rcases makedirsStep_cases env s r q with hstep | ⟨-, -, hstep⟩
          · exact .inr ⟨hqp, hstep ▸ hnone, hdir⟩
          · rw [hstep] at hnone
            cases hnone
  exact h p.inits (d, true) fun r hr => (List.mem_inits r p).mp hr

theorem makedirs_keeps_dir (env : Env) (p : Path) (hq : d.node q = some .dir) :
    (makedirs env d p).1.node q = some .dir := by
  rcases makedirs_cases env d p q with h | ⟨-, h, -⟩
  · rw [h, hq]
  · rw [hq] at h
    cases h

theorem makedirsStep_ok {s : Files × Bool} (h : (makedirsStep env s p).2 = true) :
    (makedirsStep env s p).1.node p = some .dir ∧ s.2 = true := by
  obtain ⟨d, ok⟩ := s
  rw [makedirsStep] at h ⊢
  split
  · rename_i hc
    rw [if_pos hc] at h
    refine ⟨Disk.isDir_iff.mp (hc.resolve_left ?_), h⟩
    simpa using h
  · rename_i hc
    rw [if_neg hc] at h
    have hok : ok = true := by
      rw [not_or] at hc
      simpa using hc.1
    split
    · rename_i href
      simp [href] at h
    · rename_i href
      rw [if_neg href] at h
      split
      · rename_i d' hmk
        exact ⟨by simp [Disk.node_mkdir hmk], hok⟩
      · rename_i hmk
        simp [hmk] at h

/-- A `makedirs` that does not raise leaves a directory. -/
theorem makedirs_ok (h : (makedirs env d p).2 = true) :
    (makedirs env d p).1.node p = some .dir := by
  have hlast : p.inits = p.inits.dropLast ++ [p] := by
    cases p using List.reverseRecOn with
    | nil => rfl
    | append_singleton p x => simp [List.inits_append]
  unfold makedirs at h ⊢
  rw [hlast, List.foldl_append] at h ⊢
  exact (makedirsStep_ok h).1

theorem makedirsStep_dirs (env : Env) {l : List Path} (h : ∀ r ∈ l, d.isDir r = true) :
    l.foldl (makedirsStep env) (d, true) = (d, true) := by
  induction l with
  | nil => rfl
  | cons r l ih =>
      rw [List.foldl_cons, makedirsStep, if_pos (.inr (h r List.mem_cons_self))]
      exact ih fun r hr => h r (List.mem_cons_of_mem _ hr)

/-- Below an existing directory only the last step of `makedirs` does anything. -/
theorem makedirs_concat (env : Env) (x : Name) (hp : d.node p = some .dir) :
    makedirs env d (p ++ [x]) = makedirsStep env (d, true) (p ++ [x]) := by
  have hinits : (p ++ [x]).inits = p.inits ++ [p ++ [x]] := by simp [List.inits_append]
  have hdirs : ∀ r ∈ p.inits, d.isDir r = true := by
    intro r hr
    obtain ⟨t, ht⟩ := (List.mem_inits r p).mp hr
    apply Disk.isDir_iff.mpr
    by_cases hnil : t = []
    · rw [← hp, ← ht, hnil, List.append_nil]
    · exact Disk.node_ancestor (ht ▸ hp) hnil
  rw [makedirs, hinits, List.foldl_append, makedirsStep_dirs env hdirs]
  rfl

theorem makedirs_success {x : Name} (hrefuse : ∀ r, env.refuses r = false)
    (hp : d.node p = some .dir)
    (hx : d.node (p ++ [x]) = none ∨ d.node (p ++ [x]) = some .dir) :
    (makedirs env d (p ++ [x])).2 = true := by
  rw [makedirs_concat env x hp, makedirsStep]
  rcases hx with hnone | hdir
  · have hcan : d.CanPut (p ++ [x]) := ⟨p, x, rfl, hp, by simp [hnone]⟩
    have hmk : d.mkdir (p ++ [x]) = some (d.put (p ++ [x]) .dir hcan) := by
      simp [Disk.mkdir, hcan, Disk.has_eq_false_iff.mpr hnone]
    split
    · rfl
    · simp [hrefuse, hmk]
  · rw [if_pos (.inr (Disk.isDir_iff.mpr hdir))]

theorem makedirs_file {x : Name} {content : List UInt8}
    (hx : d.node (p ++ [x]) = some (.file content)) : makedirs env d (p ++ [x]) = (d, false) := by
  have hnot : d.isDir (p ++ [x]) = false := by simp [Disk.isDir, hx]
  have hmk : d.mkdir (p ++ [x]) = none := by simp [Disk.mkdir, Disk.has, hx]
  rw [makedirs_concat env x (Disk.node_parent hx), makedirsStep, if_neg (by simp [hnot]), hmk]
  simp

theorem makedirs_sameOutside {c : Path} (env : Env) (hc : ∃ n, d.node c = some n) (hp : c <+: p) :
    SameOutside c d (makedirs env d p).1 := by
  intro q hq
  rcases makedirs_cases env d p q with h | ⟨hqp, hnone, -⟩
  · exact h
  · -- a missing directory above `c` would leave nothing at `c`
    obtain ⟨t, rfl⟩ := (List.prefix_or_prefix_of_prefix hp hqp).resolve_left hq
    obtain ⟨n, hn⟩ := hc
    rw [Disk.node_none_of_ancestor hnone] at hn
    cases hn

theorem dropStep_sameOutside (env : Env) (c : Path) (s : Files × Bool)
    (leftover : Name × Node (List UInt8)) : SameOutside c s.1 (dropStep env c s leftover).1 := by
  obtain ⟨d, ok⟩ := s
  obtain ⟨leftover, n⟩ := leftover
  rw [dropStep]
  split
  · exact SameOutside.refl c d
  · split
    · exact SameOutside.refl c d
    · split
      · rename_i d' hrm
        intro q hq
        exact Disk.node_remove hrm fun hp => hq ((List.prefix_append c _).trans hp)
      · exact SameOutside.refl c d

theorem dropSyncState_sameOutside (env : Env) (d : Files) (c : Path) :
    SameOutside c d (dropSyncState env d c).1 := by
  have h : ∀ (l : List (Name × Node (List UInt8))) (s : Files × Bool),
      SameOutside c s.1 (l.foldl (dropStep env c) s).1 := by
    intro l
    induction l with
    | nil => exact fun s => SameOutside.refl c s.1
    | cons leftover l ih =>
        intro s
        exact (dropStep_sameOutside env c s leftover).trans (ih _)
  exact h (d.children c) (d, true)

theorem containerDirs_sameOutside {c : Path} (env : Env) (hc : d.node c = some .dir) :
    SameOutside c d (containerDirs env d c).1 := by
  have h : ∀ (subs : List Name) (s : Files × Bool), s.1.node c = some .dir →
      SameOutside c s.1 (subs.foldl
        (fun s sub => if s.2 then makedirs env s.1 (c ++ [sub]) else s) s).1 := by
    intro subs
    induction subs with
    | nil => exact fun s _ => SameOutside.refl c s.1
    | cons sub subs ih =>
        intro s hs
        rw [List.foldl_cons]
        split
        · exact (makedirs_sameOutside env ⟨_, hs⟩ (List.prefix_append c [sub])).trans
            (ih _ (makedirs_keeps_dir env _ hs))
        · exact ih _ hs
  exact h _ (d, true) hc

theorem writeContainerReadme_sameOutside {c : Path} (env : Env) (hc : d.node c = some .dir) :
    SameOutside c d (writeContainerReadme env d c) := by
  have h := containerDirs_sameOutside env hc
  unfold writeContainerReadme
  generalize containerDirs env d c = s at h ⊢
  obtain ⟨d₁, ok⟩ := s
  dsimp only at h ⊢
  split
  · exact h
  · split
    · split
      · exact h
      · refine h.trans ?_
        intro q hq
        cases hw : d₁.write _ (readmeText env).toUTF8.toList with
        | none => rfl
        | some d₂ =>
            rw [Option.getD_some, Disk.node_write hw, if_neg]
            rintro rfl
            exact hq (List.prefix_append c _)
    · exact h

/-! ## One quarantine -/

theorem shutilMove_eq_some {source dest : Path} (h : shutilMove env d source dest = some d') :
    d.CanMove source dest ∧ ∀ q, d'.node q =
      if dest <+: q then d.node (source ++ q.drop dest.length)
      else if source <+: q then none else d.node q := by
  unfold shutilMove at h
  split at h
  · cases h
  · unfold Disk.rename at h
    split at h
    · rename_i hcan
      cases h
      exact ⟨hcan, fun q => Disk.node_move d source dest hcan q⟩
    · cases h

theorem concat_not_above (c : Path) (x : Name) : ¬ c ++ [x] <+: c := by
  intro h
  have := h.length_le
  simp only [List.length_append, List.length_singleton] at this
  omega

/-- Outside the container a path keeps what it holds, or loses it with the folder. -/
theorem quarantineTo_cases {c source : Path} {x : Name} (hc : ∀ r, r <+: c → r ≠ c →
    d.node r ≠ none) (hq : ¬ c <+: q) :
    (quarantineTo env d c source (c ++ [x])).1.node q = d.node q ∨
      source <+: q ∧ (quarantineTo env d c source (c ++ [x])).1.node q = none := by
  have hmk : SameOutside c d (makedirs env d c).1 := by
    intro r hr
    rcases makedirs_cases env d c r with h | ⟨hrc, hnone, -⟩
    · exact h
    · exact absurd hnone (hc r hrc fun he => hr (he ▸ List.prefix_rfl))
  have hdir : (makedirs env d c).2 = true → (makedirs env d c).1.node c = some .dir := makedirs_ok
  unfold quarantineTo
  generalize makedirs env d c = s at hmk hdir ⊢
  obtain ⟨d₁, ok⟩ := s
  dsimp only at hmk hdir ⊢
  split
  · exact .inl (hmk q hq)
  rename_i hok
  have hc₁ : d₁.node c = some .dir := hdir (by simpa using hok)
  cases hmv : shutilMove env d₁ source (c ++ [x]) with
  | none => exact .inl (hmk q hq)
  | some d₂ =>
      dsimp only
      obtain ⟨hcan, hnode⟩ := shutilMove_eq_some hmv
      have hsource : ¬ source <+: c := fun h => hcan.2.2.2.2 (h.trans (List.prefix_append c _))
      have hc₂ : d₂.node c = some .dir := by
        rw [hnode, if_neg (concat_not_above c x), if_neg hsource, hc₁]
      have hmove : d₂.node q = d.node q ∨ source <+: q ∧ d₂.node q = none := by
        rw [hnode, if_neg (fun h => hq ((List.prefix_append c _).trans h)), ← hmk q hq]
        by_cases hpre : source <+: q
        · exact .inr ⟨hpre, if_pos hpre⟩
        · exact .inl (if_neg hpre)
      have hdrop := dropSyncState_sameOutside env d₂ (c ++ [x])
      have hc₃ : (dropSyncState env d₂ (c ++ [x])).1.node c = some .dir := by
        rw [hdrop c (concat_not_above c x), hc₂]
      generalize dropSyncState env d₂ (c ++ [x]) = s at hdrop hc₃ ⊢
      obtain ⟨d₃, ok'⟩ := s
      replace hdrop : SameOutside c d₂ d₃ := hdrop.mono (List.prefix_append c [x])
      dsimp only at hc₃ ⊢
      split
      · rw [hdrop q hq]
        exact hmove
      · rw [(hdrop.trans (writeContainerReadme_sameOutside env hc₃)) q hq]
        exact hmove

theorem quarantinePath_eq (maildirPath folder : String) (when' : Minute) :
    quarantinePath maildirPath folder when' =
      containerPath maildirPath ++ "/" ++
        (⟨quarantineName folder when', isName_quarantineName folder when'⟩ : Name).1 := rfl

theorem quarantineFolder_cases (hroot : d.node (baseDir cwd maildirPath) = some .dir)
    (hq : ¬ baseDir cwd maildirPath ++ [containerName] <+: q) :
    (quarantineFolder env d cwd maildirPath folder).1.node q = d.node q ∨
      resolve cwd (join (rstripSlash maildirPath) folder) <+: q ∧
        (quarantineFolder env d cwd maildirPath folder).1.node q = none := by
  unfold quarantineFolder
  dsimp only
  split
  · exact .inl rfl
  cases hfree : freeDest d cwd (quarantinePath maildirPath folder env.when') with
  | none => exact .inl rfl
  | some dest =>
      rw [quarantinePath_eq] at hfree
      obtain ⟨x, rfl, -⟩ := freeDest_eq_some hfree
      have hdest : baseDir cwd maildirPath ++ [containerName, x] =
          baseDir cwd maildirPath ++ [containerName] ++ [x] := by simp
      have habove : ∀ r, r <+: baseDir cwd maildirPath ++ [containerName] →
          r ≠ baseDir cwd maildirPath ++ [containerName] → d.node r ≠ none := by
        intro r hr hne hnone
        obtain ⟨t, ht⟩ := (List.prefix_concat_iff.mp hr).resolve_left hne
        rw [← ht, Disk.node_none_of_ancestor hnone] at hroot
        cases hroot
      dsimp only
      rw [resolve_container, resolve_dest, hdest]
      have h := @quarantineTo_cases env d q _
        (resolve cwd (join (rstripSlash maildirPath) folder)) x habove hq
      generalize quarantineTo env d _ _ _ = s at h ⊢
      obtain ⟨d', ok⟩ := s
      cases ok <;> exact h

theorem quarantineTo_moves {source : Path} {y x : Name} (hrefuse : ∀ r, env.refuses r = false)
    (hroot : d.node root = some .dir)
    (hc : d.node (root ++ [y]) = none ∨ d.node (root ++ [y]) = some .dir)
    (hx : d.node (root ++ [y] ++ [x]) = none) (hsource : d.node source ≠ none)
    (hne : source ≠ []) (hout : ¬ root ++ [y] <+: source) (hin : ¬ source <+: root ++ [y])
    (hq : ¬ root ++ [y] <+: q) (hpre : source <+: q) :
    (quarantineTo env d (root ++ [y]) source (root ++ [y] ++ [x])).1.node q = none := by
  set c := root ++ [y]
  have hmk := makedirs_success hrefuse hroot hc
  have hdir := makedirs_ok hmk
  have hsame : ∀ r, ¬ r <+: c → (makedirs env d c).1.node r = d.node r := by
    intro r hr
    exact (makedirs_cases env d c r).resolve_right fun h => hr h.1
  unfold quarantineTo
  generalize makedirs env d c = s at hmk hdir hsame ⊢
  obtain ⟨d₁, ok⟩ := s
  dsimp only at hmk hdir hsame ⊢
  rw [if_neg (by simp [hmk])]
  have hfree : d₁.node (c ++ [x]) = none := by rw [hsame _ (concat_not_above c x), hx]
  have hcan : d₁.CanMove source (c ++ [x]) := by
    refine ⟨⟨c, x, rfl, hdir, by simp [hfree]⟩, hfree, hne, by rwa [hsame _ hin], ?_⟩
    intro h
    rcases List.prefix_concat_iff.mp h with rfl | h
    · exact hout (List.prefix_append c [x])
    · exact hin h
  have hmv : shutilMove env d₁ source (c ++ [x]) = some (d₁.move source (c ++ [x]) hcan) := by
    simp [shutilMove, hrefuse, Disk.rename, hcan]
  rw [hmv]
  dsimp only
  have hgone : (d₁.move source (c ++ [x]) hcan).node q = none := by
    rw [Disk.node_move, if_neg (fun h => hq ((List.prefix_append c _).trans h)), if_pos hpre]
  have hcdir : (d₁.move source (c ++ [x]) hcan).node c = some .dir := by
    rw [Disk.node_move, if_neg (concat_not_above c x), if_neg hin, hdir]
  have hdrop := dropSyncState_sameOutside env (d₁.move source (c ++ [x]) hcan) (c ++ [x])
  have hcdrop := (hdrop c (concat_not_above c x)).trans hcdir
  generalize dropSyncState env _ (c ++ [x]) = s at hdrop hcdrop ⊢
  obtain ⟨d₃, ok'⟩ := s
  replace hdrop := hdrop.mono (List.prefix_append c [x])
  dsimp only at hdrop hcdrop ⊢
  split
  · rw [hdrop q hq, hgone]
  · rw [(hdrop.trans (writeContainerReadme_sameOutside env hcdrop)) q hq, hgone]

/-! ## One folder -/

theorem Root.resolve_source (h : Root d cwd maildirPath root) {f : List Name} (hf : f ≠ []) :
    resolve cwd (join (rstripSlash maildirPath) (relName f)) = root ++ f := by
  cases f with
  | nil => exact absurd rfl hf
  | cons x f =>
      rw [resolve_join_relative cwd (isAbsolute_relName x f) (find_ne_empty h.find),
        find_eq_some h.find, pieces_relName, walk_texts]

theorem Root.isdir_source (h : Root d cwd maildirPath root) {f : List Name} (hf : f ≠ [])
    (hnode : d.node (root ++ f) = some .dir) :
    isdir d cwd (join (rstripSlash maildirPath) (relName f)) = true := by
  cases f with
  | nil => exact absurd rfl hf
  | cons x f =>
      apply isdir_iff.mpr
      refine ⟨root ++ x :: f, ?_, hnode⟩
      rw [find_join_relative (isAbsolute_relName x f) h.find h.dir, pieces_relName]
      exact walkOn_texts hnode

/-- A folder away from the container is moved when nothing is refused. -/
theorem quarantineFolder_moves {f : List Name} (hroot : Root d cwd maildirPath root) (hf : f ≠ [])
    (hcf : ¬ [containerName] <+: f) (hnode : d.node (root ++ f) = some .dir)
    (hc : ∀ content, d.node (root ++ [containerName]) ≠ some (.file content))
    (hrefuse : ∀ p, env.refuses p = false) (hq : ¬ root ++ [containerName] <+: q)
    (hpre : root ++ f <+: q) :
    (quarantineFolder env d cwd maildirPath (relName f)).1.node q = none := by
  unfold quarantineFolder
  dsimp only
  rw [if_neg (by simp [hroot.isdir_source hf hnode])]
  cases hfree : freeDest d cwd (quarantinePath maildirPath (relName f) env.when') with
  | none =>
      rw [quarantinePath_eq] at hfree
      exact absurd hfree (freeDest_ne_none d cwd maildirPath _)
  | some dest =>
      rw [quarantinePath_eq] at hfree
      obtain ⟨x, rfl, hx⟩ := freeDest_eq_some hfree
      have hcdir : d.node (root ++ [containerName]) = none ∨
          d.node (root ++ [containerName]) = some .dir := by
        cases hn : d.node (root ++ [containerName]) with
        | none => exact .inl rfl
        | some n =>
            cases n with
            | dir => exact .inr rfl
            | file content => exact absurd hn (hc content)
      have hdest : d.node (root ++ [containerName] ++ [x]) = none := by
        simpa using hroot.free_dest hx
      have hsource : d.node (root ++ f) ≠ none := by simp [hnode]
      have h := quarantineTo_moves hrefuse hroot.dir hcdir hdest hsource (by simp [hf])
        (fun h => hcf ((List.prefix_append_right_inj root).mp h))
        (fun h => by
          have hle := (List.prefix_append_right_inj root).mp h
          rcases List.prefix_cons_iff.mp hle with hnil | ⟨t, rfl, ht⟩
          · exact hf hnil
          · exact hcf (List.prefix_append [containerName] t))
        hq hpre
      dsimp only
      rw [resolve_container, resolve_dest, hroot.resolve_source hf, hroot.baseDir_eq,
        show root ++ [containerName, x] = root ++ [containerName] ++ [x] by simp]
      generalize quarantineTo env d _ _ _ = s at h ⊢
      obtain ⟨d', ok⟩ := s
      cases ok <;> exact h

theorem makedirs_refused (hrefuse : ∀ r, env.refuses r = true) : (makedirs env d p).1 = d := by
  have h : ∀ (l : List Path) (s : Files × Bool), (l.foldl (makedirsStep env) s).1 = s.1 := by
    intro l
    induction l with
    | nil => exact fun _ => rfl
    | cons r l ih =>
        intro s
        rw [List.foldl_cons, ih]
        obtain ⟨d, ok⟩ := s
        simp only [makedirsStep, hrefuse, if_true]
        split <;> rfl
  exact h p.inits (d, true)

/-- Where everything is refused nothing changes. -/
theorem quarantineFolder_refused (hrefuse : ∀ r, env.refuses r = true) :
    (quarantineFolder env d cwd maildirPath folder).1 = d := by
  have hto : ∀ c source dest : Path, (quarantineTo env d c source dest).1 = d := by
    intro c source dest
    have h : (makedirs env d c).1 = d := makedirs_refused hrefuse
    unfold quarantineTo
    dsimp only
    split
    · exact h
    · simp [shutilMove, hrefuse, h]
  unfold quarantineFolder
  dsimp only
  split
  · rfl
  · cases freeDest d cwd (quarantinePath maildirPath folder env.when') with
    | none => rfl
    | some dest =>
        have h := hto (resolve cwd (containerPath maildirPath))
          (resolve cwd (join (rstripSlash maildirPath) folder)) (resolve cwd dest)
        dsimp only
        generalize quarantineTo env d _ _ _ = s at h ⊢
        obtain ⟨d', ok⟩ := s
        cases ok <;> exact h

/-- A file in the container's place stops every quarantine. -/
theorem quarantineFolder_blocked {content : List UInt8}
    (hc : d.node (baseDir cwd maildirPath ++ [containerName]) = some (.file content)) :
    (quarantineFolder env d cwd maildirPath folder).1 = d := by
  have hto : ∀ source dest : Path,
      quarantineTo env d (resolve cwd (containerPath maildirPath)) source dest = (d, false) := by
    intro source dest
    rw [quarantineTo, resolve_container, makedirs_file hc]
    rfl
  unfold quarantineFolder
  dsimp only
  split
  · rfl
  · cases freeDest d cwd (quarantinePath maildirPath folder env.when') with
    | none => rfl
    | some dest => simp only [hto]

end MailFallback
