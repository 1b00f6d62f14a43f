import MailFallback.Folders.Correctness

/-! # No mail is lost

A quarantine is a few steps on the disk, each of which takes every file to one place. The steps of
all quarantines of a reconciliation are put together. -/

namespace MailFallback

open Storage Posix

variable {env : String → Env} {d d' d₁ d₂ : Files} {cwd root p q : Path} {maildirPath : String}
  {remoteFolders patterns : List String} {sources : List Name → Prop}
  {place place₁ place₂ : Path → Option Path} {readme readme₁ readme₂ : Option Path}

/-! ## Files and their places -/

def IsSyncState (x : Name) : Prop := mbsyncstate.1.toList <+: x.1.toList

def IsReadmeName (x : Name) : Prop := ("." ++ readmeTag ++ ".").toList <:+: x.1.toList

/-- A file in a `cur` or `new`; a name that begins with a dot is not a message's. -/
def IsMessage (p : Path) : Prop :=
  ∃ dir sub x, p = dir ++ [sub, x] ∧ (sub = curName ∨ sub = newName) ∧ x.1.toList.head? ≠ some '.'

/-- A sync state at the top of a folder that was moved. -/
def IsMovedState (sources : List Name → Prop) (root : Path) (d' : Files) (p : Path) : Prop :=
  ∃ f x, sources f ∧ p = root ++ f ++ [x] ∧ IsSyncState x ∧ d'.node (root ++ f) = none

def HasReadme (d : Files) (c : Path) : Prop :=
  ∃ sub x, (sub = newName ∨ sub = curName) ∧ IsReadmeName x ∧ d.node (c ++ [sub, x]) ≠ none

/-- The explanatory message. -/
def IsReadme (env : String → Env) (c p : Path) (content : List UInt8) : Prop :=
  ∃ x, p = c ++ [newName, x] ∧ IsReadmeName x ∧
    ∃ folder, content = (readmeText (env folder)).toUTF8.toList

/-- Where every file of a disk went; `none` for one that was removed. -/
structure Conserved (env : String → Env) (sources : List Name → Prop) (root : Path)
    (place : Path → Option Path) (readme : Option Path) (d d' : Files) : Prop where
  kept : ∀ p content, d.node p = some (.file content) →
    (∃ q, place p = some q ∧ d'.node q = some (.file content)) ∨
      place p = none ∧ IsMovedState sources root d' p
  once : ∀ p p' q content content', d.node p = some (.file content) →
    d.node p' = some (.file content') → place p = some q → place p' = some q → p = p'
  origin : ∀ q content, d'.node q = some (.file content) →
    (∃ p, place p = some q ∧ d.node p = some (.file content)) ∨
      readme = some q ∧ d.node q = none ∧ IsReadme env (root ++ [containerName]) q content
  /-- What the container holds stays. -/
  inside : ∀ q n, root ++ [containerName] <+: q → d.node q = some n → d'.node q = some n
  /-- Elsewhere nothing is put. -/
  outside : ∀ q, ¬ root ++ [containerName] <+: q → d'.node q = d.node q ∨ d'.node q = none
  stays : ∀ p, root ++ [containerName] <+: p → d.node p ≠ none → place p = some p
  goes : ∀ p q, place p = some q → q = p ∨ root ++ [containerName] <+: q
  /-- The message is written where there is none yet. -/
  first : readme ≠ none →
    ¬ HasReadme d (root ++ [containerName]) ∧ HasReadme d' (root ++ [containerName])

namespace Conserved

theorem hasReadme (h : Conserved env sources root place readme d d')
    (hreadme : HasReadme d (root ++ [containerName])) :
    HasReadme d' (root ++ [containerName]) := by
  obtain ⟨sub, x, hsub, hx, hnode⟩ := hreadme
  obtain ⟨n, hn⟩ := Option.ne_none_iff_exists'.mp hnode
  refine ⟨sub, x, hsub, hx, ?_⟩
  rw [h.inside _ n (List.prefix_append _ _) hn]
  exact Option.some_ne_none n

/-- Steps that only make directories. -/
theorem of_dirs (hnode : ∀ q, d'.node q = d.node q ∨ d.node q = none ∧ d'.node q = some .dir)
    (hout : SameOutside (root ++ [containerName]) d d') :
    Conserved env sources root some none d d' where
  kept := by
    intro p content hp
    refine .inl ⟨p, rfl, ?_⟩
    rcases hnode p with h | ⟨h, -⟩
    · rw [h, hp]
    · rw [h] at hp
      cases hp
  once := by
    intro p p' q content content' _ _ hp hp'
    rw [Option.some.inj hp, Option.some.inj hp']
  origin := by
    intro q content hq
    refine .inl ⟨q, rfl, ?_⟩
    rcases hnode q with h | ⟨-, h⟩
    · rw [← h, hq]
    · rw [h] at hq
      cases hq
  inside := by
    intro q n _ hq
    rcases hnode q with h | ⟨h, -⟩
    · rw [h, hq]
    · rw [h] at hq
      cases hq
  outside := fun q hq => .inl (hout q hq)
  stays := fun _ _ _ => rfl
  goes := fun _ _ h => .inl (Option.some.inj h).symm
  first := fun h => absurd rfl h

theorem refl (d : Files) : Conserved env sources root some none d d :=
  of_dirs (fun _ => .inl rfl) (SameOutside.refl _ d)

/-- What goes to a place and from there to another one. -/
theorem trans (hsources : ∀ f, sources f → f ≠ [] ∧ ¬ [containerName] <+: f)
    (h : Conserved env sources root place₁ readme₁ d d₁)
    (h' : Conserved env sources root place₂ readme₂ d₁ d₂) :
    Conserved env sources root (fun p => (place₁ p).bind place₂) (readme₁.or readme₂) d d₂ where
  kept := by
    intro p content hp
    rcases h.kept p content hp with ⟨q, hplace, hq⟩ | ⟨hplace, f, x, hf, rfl, hx, hgone⟩
    · rcases h'.kept q content hq with ⟨r, hplace', hr⟩ | ⟨hplace', f, x, hf, rfl, hx, hgone⟩
      · exact .inl ⟨r, by rw [hplace, Option.bind_some, hplace'], hr⟩
      · -- a folder that is moved is not in the container, so it was there before
        have hout : ¬ root ++ [containerName] <+: root ++ f ++ [x] :=
          not_under_container (hsources f hf).1 (hsources f hf).2
        obtain rfl := (h.goes p _ hplace).resolve_right hout
        exact .inr ⟨by rw [hplace, Option.bind_some, hplace'], f, x, hf, rfl, hx, hgone⟩
    · refine .inr ⟨by rw [hplace]; rfl, f, x, hf, rfl, hx, ?_⟩
      have hout : ¬ root ++ [containerName] <+: root ++ f ++ [] :=
        not_under_container (hsources f hf).1 (hsources f hf).2
      rw [List.append_nil] at hout
      rcases h'.outside _ hout with hsame | hnone
      · rw [hsame, hgone]
      · exact hnone
  once := by
    intro p p' q content content' hp hp' hq hq'
    obtain ⟨r, hr, hrq⟩ := Option.bind_eq_some_iff.mp hq
    obtain ⟨r', hr', hrq'⟩ := Option.bind_eq_some_iff.mp hq'
    have hat : ∀ {p r content}, d.node p = some (.file content) → place₁ p = some r →
        d₁.node r = some (.file content) := by
      intro p r content hp hr
      rcases h.kept p content hp with ⟨r', hr', hnode⟩ | ⟨hnone, -⟩
      · rwa [Option.some.inj (hr.symm.trans hr')]
      · rw [hr] at hnone
        cases hnone
    have hsame := h'.once r r' q content content' (hat hp hr) (hat hp' hr') hrq hrq'
    exact h.once p p' r content content' hp hp' hr (hsame ▸ hr')
  origin := by
    intro q content hq
    rcases h'.origin q content hq with ⟨r, hr, hnode⟩ | ⟨hreadme, hfree, htext⟩
    · rcases h.origin r content hnode with ⟨p, hp, hfile⟩ | ⟨hreadme, hfree, htext⟩
      · exact .inl ⟨p, by rw [hp, Option.bind_some, hr], hfile⟩
      · right
        have hin : root ++ [containerName] <+: r := by
          obtain ⟨x, rfl, -⟩ := htext
          exact List.prefix_append _ _
        have hstays := h'.stays r hin (by rw [hnode]; exact Option.some_ne_none _)
        obtain rfl := Option.some.inj (hr.symm.trans hstays)
        exact ⟨by rw [hreadme]; rfl, hfree, htext⟩
    · right
      have hin : root ++ [containerName] <+: q := by
        obtain ⟨x, rfl, -⟩ := htext
        exact List.prefix_append _ _
      have hnone : readme₁ = none := by
        by_contra hne
        have hsecond := (h'.first (by rw [hreadme]; exact Option.some_ne_none q)).1
        exact hsecond (h.first hne).2
      refine ⟨by rw [hnone, hreadme]; rfl, ?_, htext⟩
      cases hn : d.node q with
      | none => rfl
      | some n =>
          rw [h.inside q n hin hn] at hfree
          cases hfree
  inside := fun q n hin hq => h'.inside q n hin (h.inside q n hin hq)
  outside := by
    intro q hq
    rcases h'.outside q hq with hsame | hnone
    · rw [hsame]
      exact h.outside q hq
    · exact .inr hnone
  stays := by
    intro p hin hp
    obtain ⟨n, hn⟩ := Option.ne_none_iff_exists'.mp hp
    have hp' : d₁.node p ≠ none := by
      rw [h.inside p n hin hn]
      exact Option.some_ne_none n
    rw [h.stays p hin hp, Option.bind_some, h'.stays p hin hp']
  goes := by
    intro p q hq
    obtain ⟨r, hr, hrq⟩ := Option.bind_eq_some_iff.mp hq
    rcases h'.goes r q hrq with rfl | hin
    · exact h.goes p q hr
    · exact .inr hin
  first := by
    intro hne
    by_cases hnone : readme₁ = none
    · rw [hnone, Option.none_or] at hne
      obtain ⟨hno, hyes⟩ := h'.first hne
      exact ⟨fun hr => hno (h.hasReadme hr), hyes⟩
    · obtain ⟨hno, hyes⟩ := h.first hnone
      exact ⟨hno, h'.hasReadme hyes⟩

end Conserved

/-! ## The move -/

/-- Only sync states at the top of the folder are removed. -/
def DropsState (dest : Path) (d d' : Files) : Prop :=
  ∀ q, d'.node q = d.node q ∨ ∃ x content, IsSyncState x ∧ q = dest ++ [x] ∧
    d.node q = some (.file content) ∧ d'.node q = none

theorem dropStep_drops (env : Env) (dest : Path) (s : Files × Bool)
    (leftover : Name × Node (List UInt8)) :
    DropsState dest s.1 (dropStep env dest s leftover).1 := by
  obtain ⟨d, ok⟩ := s
  obtain ⟨x, n⟩ := leftover
  intro q
  rw [dropStep]
  split
  · exact .inl rfl
  rename_i hstate
  split
  · exact .inl rfl
  rename_i hplain
  split
  · rename_i d' hrm
    have hsync : IsSyncState x := by
      rw [not_or] at hstate
      exact List.isPrefixOf_iff_prefix.mp (Bool.not_eq_false _ ▸ hstate.2)
    have hfile : ∃ content, d.node (dest ++ [x]) = some (.file content) := by
      cases hn : d.node (dest ++ [x]) with
      | none => simp [Disk.remove, Disk.has, hn] at hrm
      | some n =>
          cases n with
          | dir => exact absurd (Disk.isDir_iff.mpr hn) fun h => hplain (.inr h)
          | file content => exact ⟨content, rfl⟩
    obtain ⟨content, hcontent⟩ := hfile
    by_cases hq : dest ++ [x] <+: q
    · by_cases heq : q = dest ++ [x]
      · subst heq
        exact .inr ⟨x, content, hsync, rfl, hcontent, Disk.node_remove_below hrm hq⟩
      · rw [Disk.node_remove_below hrm hq, Disk.node_below_file hcontent hq heq]
        exact .inl rfl
    · exact .inl (Disk.node_remove hrm hq)
  · exact .inl rfl

theorem dropSyncState_drops (env : Env) (d : Files) (dest : Path) :
    DropsState dest d (dropSyncState env d dest).1 := by
  have hfold : ∀ (l : List (Name × Node (List UInt8))) (s : Files × Bool),
      DropsState dest s.1 (l.foldl (dropStep env dest) s).1 := by
    intro l
    induction l with
    | nil => exact fun _ _ => .inl rfl
    | cons leftover l ih =>
        intro s q
        rw [List.foldl_cons]
        rcases ih (dropStep env dest s leftover) q with hsame | ⟨x, content, hx, rfl, hfile, hgone⟩
        · rw [hsame]
          exact dropStep_drops env dest s leftover q
        · rcases dropStep_drops env dest s leftover (dest ++ [x]) with
            hsame | ⟨-, -, -, -, -, hnone⟩
          · exact .inr ⟨x, content, hx, rfl, hsame ▸ hfile, hgone⟩
          · rw [hnone] at hfile
            cases hfile
  exact hfold (d.children dest) (d, true)

/-- Where a move and what is dropped behind it leave a path. -/
def movedPlace (source dest : Path) (d' : Files) (p : Path) : Option Path :=
  let q := Disk.moved source dest p
  if d'.has q = true then some q else none

theorem movedPlace_eq_some {source dest : Path} :
    movedPlace source dest d' p = some q ↔ Disk.moved source dest p = q ∧ d'.node q ≠ none := by
  rw [movedPlace]
  split
  · rename_i hhas
    obtain ⟨n, hn⟩ := Disk.has_iff.mp hhas
    rw [Option.some.injEq]
    constructor
    · rintro rfl
      rw [hn]
      exact ⟨rfl, Option.some_ne_none n⟩
    · exact fun h => h.1
  · rename_i hhas
    refine iff_of_false (fun h => by cases h) ?_
    rintro ⟨rfl, hne⟩
    exact hne (Disk.has_eq_false_iff.mp (Bool.eq_false_iff.mpr hhas))

/-- A folder goes to a free name of the container and loses its sync state. -/
theorem Conserved.of_move {f : List Name} {x : Name} (hf : f ≠ [])
    (hcf : ¬ [containerName] <+: f) (hsource : sources f)
    (hcan : d.CanMove (root ++ f) (root ++ [containerName, x]))
    (hmove : ∀ q, d₁.node q = if root ++ [containerName, x] <+: q then
      d.node (root ++ f ++ q.drop (root ++ [containerName, x]).length)
      else if root ++ f <+: q then none else d.node q)
    (hdrop : DropsState (root ++ [containerName, x]) d₁ d') :
    Conserved env sources root (movedPlace (root ++ f) (root ++ [containerName, x]) d') none d d' := by
  set source := root ++ f
  set dest := root ++ [containerName, x]
  have hdest : root ++ [containerName] <+: dest := by
    simp [dest, List.prefix_append_right_inj]
  have hfree : ∀ q, d.node q ≠ none → ¬ dest <+: q := fun q hq hpre => hq (hcan.free_below hpre)
  have hsourceOut : ¬ root ++ [containerName] <+: source := by
    have hout : ¬ root ++ [containerName] <+: root ++ f ++ [] := not_under_container hf hcf
    rwa [List.append_nil] at hout
  -- nothing in the container lies in the folder
  have hin : ∀ q, root ++ [containerName] <+: q → ¬ source <+: q := by
    intro q hq hpre
    rcases List.prefix_or_prefix_of_prefix hq hpre with h | h
    · exact hsourceOut h
    · rcases List.prefix_concat_iff.mp h with h | h
      · exact hsourceOut (h ▸ List.prefix_rfl)
      · have hlen := h.length_le
        have := List.length_pos_iff.mpr hf
        simp only [source, List.length_append] at hlen
        omega
  have hmoved : ∀ p, d.node p ≠ none → d₁.node (Disk.moved source dest p) = d.node p := by
    intro p hp
    rw [hmove, Disk.moved]
    split
    · rename_i hpre
      obtain ⟨t, rfl⟩ := hpre
      rw [if_pos (List.prefix_append _ _), List.drop_left, List.drop_left]
    · rename_i hpre
      rw [if_neg (hfree p hp)]
  have hgone : d'.node source = none := by
    have hnone : d₁.node source = none := by
      rw [hmove, if_neg fun h => hsourceOut (hdest.trans h), if_pos List.prefix_rfl]
    rcases hdrop source with h | ⟨_, _, _, _, _, h⟩
    · rw [h, hnone]
    · exact h
  have hstays : ∀ q n, root ++ [containerName] <+: q → d.node q = some n → d'.node q = some n := by
    intro q n hq hn
    have hne : d.node q ≠ none := by
      rw [hn]
      exact Option.some_ne_none n
    have hq₁ : d₁.node q = some n := by rw [hmove, if_neg (hfree q hne), if_neg (hin q hq), hn]
    rcases hdrop q with h | ⟨y, -, -, rfl, -, -⟩
    · rw [h, hq₁]
    · exact absurd (List.prefix_append _ _) (hfree _ hne)
  have hfile : ∀ {p content}, d.node p = some (.file content) → d.node p ≠ none := by
    intro p content hp
    rw [hp]
    exact Option.some_ne_none _
  refine ⟨?_, ?_, ?_, hstays, ?_, ?_, ?_, fun h => absurd rfl h⟩
  · -- a file is at its place, or was a sync state
    intro p content hp
    have hplace := (hmoved p (hfile hp)).trans hp
    rcases hdrop (Disk.moved source dest p) with h | ⟨y, -, hy, heq, -, hnone⟩
    · rw [hplace] at h
      exact .inl ⟨_, movedPlace_eq_some.mpr ⟨rfl, by rw [h]; exact Option.some_ne_none _⟩, h⟩
    · right
      refine ⟨?_, f, y, hsource, ?_, hy, hgone⟩
      · rw [movedPlace, if_neg (by simp [Disk.has, hnone])]
      · rw [Disk.moved] at heq
        split at heq
        · rename_i hpre
          obtain ⟨t, rfl⟩ := hpre
          rw [List.drop_left, List.append_cancel_left_eq] at heq
          rw [heq]
        · exact absurd (heq ▸ List.prefix_append _ _) (hfree p (hfile hp))
  · intro p p' q content content' hp hp' hq hq'
    have hsame := (movedPlace_eq_some.mp hq).1.trans (movedPlace_eq_some.mp hq').1.symm
    exact Disk.moved_inj hcan (hfile hp) (hfile hp') hsame
  · -- a file came from the folder or was there
    intro q content hq
    have hne : d'.node q ≠ none := by
      rw [hq]
      exact Option.some_ne_none _
    have hq₁ : d₁.node q = some (.file content) := by
      rcases hdrop q with h | ⟨_, _, _, _, _, h⟩
      · rw [← h, hq]
      · exact absurd h hne
    left
    rw [hmove] at hq₁
    split at hq₁
    · rename_i hpre
      obtain ⟨t, rfl⟩ := hpre
      rw [List.drop_left] at hq₁
      refine ⟨source ++ t, movedPlace_eq_some.mpr ⟨?_, hne⟩, hq₁⟩
      rw [Disk.moved, if_pos (List.prefix_append _ _), List.drop_left]
    · split at hq₁
      · cases hq₁
      · rename_i hpre
        exact ⟨q, movedPlace_eq_some.mpr ⟨if_neg hpre, hne⟩, hq₁⟩
  · intro q hq
    have hq₁ : d₁.node q = d.node q ∨ d₁.node q = none := by
      rw [hmove, if_neg fun h => hq (hdest.trans h)]
      split
      · exact .inr rfl
      · exact .inl rfl
    rcases hdrop q with h | ⟨_, _, _, _, _, h⟩
    · rw [h]
      exact hq₁
    · exact .inr h
  · intro p hp hne
    obtain ⟨n, hn⟩ := Option.ne_none_iff_exists'.mp hne
    refine movedPlace_eq_some.mpr ⟨if_neg (hin p hp), ?_⟩
    rw [hstays p n hp hn]
    exact Option.some_ne_none n
  · intro p q hq
    have hmovedq := (movedPlace_eq_some.mp hq).1
    rw [Disk.moved] at hmovedq
    split at hmovedq
    · exact .inr (hmovedq ▸ hdest.trans (List.prefix_append _ _))
    · exact .inl hmovedq.symm

/-! ## The explanatory message -/

theorem containerDirs_cases (env : Env) (d : Files) (c q : Path) :
    (containerDirs env d c).1.node q = d.node q ∨
      d.node q = none ∧ (containerDirs env d c).1.node q = some .dir := by
  have hfold : ∀ (subs : List Name) (s : Files × Bool),
      (subs.foldl (fun s sub => if s.2 then makedirs env s.1 (c ++ [sub]) else s)
        s).1.node q = s.1.node q ∨ s.1.node q = none ∧
      (subs.foldl (fun s sub => if s.2 then makedirs env s.1 (c ++ [sub]) else s)
        s).1.node q = some .dir := by
    intro subs
    induction subs with
    | nil => exact fun _ => .inl rfl
    | cons sub subs ih =>
        intro s
        rw [List.foldl_cons]
        split
        · rcases ih (makedirs env s.1 (c ++ [sub])) with hsame | ⟨hnone, hdir⟩
          · rw [hsame]
            rcases makedirs_cases env s.1 (c ++ [sub]) q with h | ⟨-, h⟩
            · exact .inl h
            · exact .inr h
          · rcases makedirs_cases env s.1 (c ++ [sub]) q with h | ⟨-, -, h⟩
            · exact .inr ⟨h ▸ hnone, hdir⟩
            · rw [h] at hnone
              cases hnone
        · exact ih s
  exact hfold _ (d, true)

/-- A file that is new in the container. -/
theorem Conserved.of_write (folder : String) {x : Name} {content : List UInt8} (hx : IsReadmeName x) (hcontent : content = (readmeText (env folder)).toUTF8.toList)
    (hno : ¬ HasReadme d (root ++ [containerName]))
    (hnode : ∀ q, d'.node q = if q = root ++ [containerName] ++ [newName, x] then
      some (.file content) else d.node q) :
    Conserved env sources root some (some (root ++ [containerName] ++ [newName, x])) d d' := by
  have hfree : d.node (root ++ [containerName] ++ [newName, x]) = none := by
    by_contra hne
    exact hno ⟨newName, x, .inl rfl, hx, hne⟩
  have hsame : ∀ q n, d.node q = some n → d'.node q = some n := by
    intro q n hq
    rw [hnode, if_neg]
    · exact hq
    · rintro rfl
      rw [hfree] at hq
      cases hq
  refine ⟨fun p b hp => .inl ⟨p, rfl, hsame p _ hp⟩, ?_, ?_, fun q n _ hq => hsame q n hq, ?_,
    fun _ _ _ => rfl, fun _ _ h => .inl (Option.some.inj h).symm, fun _ => ⟨hno, ?_⟩⟩
  · intro p p' q b b' _ _ hp hp'
    rw [Option.some.inj hp, Option.some.inj hp']
  · intro q b hq
    rw [hnode] at hq
    split at hq
    · rename_i heq
      obtain rfl := Node.file.inj (Option.some.inj hq)
      exact .inr ⟨congrArg some heq.symm, heq ▸ hfree, x, heq, hx, folder, hcontent⟩
    · exact .inl ⟨q, rfl, hq⟩
  · intro q hq
    rw [hnode, if_neg]
    · exact .inl rfl
    · rintro rfl
      exact hq (List.prefix_append _ _)
  · refine ⟨newName, x, .inl rfl, hx, ?_⟩
    rw [hnode, if_pos rfl]
    exact Option.some_ne_none _

theorem writeContainerReadme_conserved (env : String → Env)
    (hsources : ∀ f, sources f → f ≠ [] ∧ ¬ [containerName] <+: f) (folder : String) (hc : d.node (root ++ [containerName]) = some .dir) :
    ∃ readme, Conserved env sources root some readme d
      (writeContainerReadme (env folder) d (root ++ [containerName])) := by
  have hdirs : Conserved env sources root some none d
      (containerDirs (env folder) d (root ++ [containerName])).1 :=
    .of_dirs (containerDirs_cases (env folder) d _) (containerDirs_sameOutside (env folder) hc)
  unfold writeContainerReadme
  generalize containerDirs (env folder) d (root ++ [containerName]) = s at hdirs ⊢
  obtain ⟨d₁, ok⟩ := s
  dsimp only at hdirs ⊢
  split
  · exact ⟨none, hdirs⟩
  rename_i hnew
  split
  · rename_i hname
    split
    · exact ⟨none, hdirs⟩
    · cases hw : d₁.write (root ++ [containerName] ++ [newName,
          ⟨(env folder).timestamp.repr ++ "." ++ readmeTag ++ "." ++ (env folder).hostname ++ ":2,",
            hname⟩]) (readmeText (env folder)).toUTF8.toList with
      | none => exact ⟨none, hdirs⟩
      | some d₂ =>
          refine ⟨_, hdirs.trans hsources (.of_write folder ?_ rfl ?_ fun q =>
            Disk.node_write hw q)⟩
          · refine ⟨(env folder).timestamp.repr.toList, ((env folder).hostname ++ ":2,").toList, ?_⟩
            simp [String.toList_append]
          · rintro ⟨sub, x, hsub, hx, hnode⟩
            obtain ⟨n, hn⟩ := Option.ne_none_iff_exists'.mp hnode
            refine hnew (.inr (List.any_eq_true.mpr ⟨(x, n), ?_, decide_eq_true hx⟩))
            rw [List.mem_append, Disk.mem_children, Disk.mem_children, List.append_assoc _ [newName],
              List.append_assoc _ [curName]]
            rcases hsub with rfl | rfl
            · exact .inl hn
            · exact .inr hn
  · exact ⟨none, hdirs⟩

/-! ## One quarantine, and all of them -/

theorem quarantineTo_conserved (env : String → Env)
    (hsources : ∀ f, sources f → f ≠ [] ∧ ¬ [containerName] <+: f) (folder : String) {f : List Name} (hf : sources f) (x : Name)
    (hroot : d.node root = some .dir) :
    ∃ place readme, Conserved env sources root place readme d (quarantineTo (env folder) d
      (root ++ [containerName]) (root ++ f) (root ++ [containerName, x])).1 := by
  have habove : ∀ r, r <+: root ++ [containerName] → r ≠ root ++ [containerName] →
      d.node r ≠ none := by
    intro r hr hne hnone
    obtain ⟨t, ht⟩ := (List.prefix_concat_iff.mp hr).resolve_left hne
    rw [← ht, Disk.node_none_of_ancestor hnone] at hroot
    cases hroot
  have hcases := makedirs_cases (env folder) d (root ++ [containerName])
  have hsame : SameOutside (root ++ [containerName]) d
      (makedirs (env folder) d (root ++ [containerName])).1 := by
    intro r hr
    rcases hcases r with h | ⟨hrc, hnone, -⟩
    · exact h
    · exact absurd hnone (habove r hrc fun he => hr (he ▸ List.prefix_rfl))
  have hdir : (makedirs (env folder) d (root ++ [containerName])).2 = true →
      (makedirs (env folder) d (root ++ [containerName])).1.node (root ++ [containerName]) =
        some .dir := makedirs_ok
  have hmake : Conserved env sources root some none d
      (makedirs (env folder) d (root ++ [containerName])).1 :=
    .of_dirs (fun q => (hcases q).imp_right fun h => h.2) hsame
  unfold quarantineTo
  generalize makedirs (env folder) d (root ++ [containerName]) = s at hmake hdir ⊢
  obtain ⟨d₁, ok⟩ := s
  dsimp only at hmake hdir ⊢
  split
  · exact ⟨some, none, hmake⟩
  rename_i hok
  cases hmv : shutilMove (env folder) d₁ (root ++ f) (root ++ [containerName, x]) with
  | none => exact ⟨some, none, hmake⟩
  | some d₂ =>
      dsimp only
      obtain ⟨hcan, hmove⟩ := shutilMove_eq_some hmv
      have hdrop := dropSyncState_drops (env folder) d₂ (root ++ [containerName, x])
      generalize dropSyncState (env folder) d₂ (root ++ [containerName, x]) = s at hdrop ⊢
      obtain ⟨d₃, ok'⟩ := s
      dsimp only at hdrop ⊢
      have hmoved : Conserved env sources root _ none d₁ d₃ :=
        .of_move (hsources f hf).1 (hsources f hf).2 hf hcan hmove hdrop
      have hc : d₃.node (root ++ [containerName]) = some .dir :=
        hmoved.inside _ _ List.prefix_rfl (hdir (by simpa using hok))
      split
      · exact ⟨_, _, hmake.trans hsources hmoved⟩
      · obtain ⟨readme, hreadme⟩ := writeContainerReadme_conserved env hsources folder hc
        exact ⟨_, _, (hmake.trans hsources hmoved).trans hsources hreadme⟩

theorem quarantineFiles_conserved (env : String → Env)
    (hsources : ∀ f, sources f → f ≠ [] ∧ ¬ [containerName] <+: f)
    (hbase : baseDir cwd maildirPath = root)
    (hresolve : ∀ f, f ≠ [] → resolve cwd (join (rstripSlash maildirPath) (relName f)) = root ++ f)
    (hroot : d.node root = some .dir) {f : List Name} (hf : sources f) :
    ∃ place readme, Conserved env sources root place readme d
      (quarantineFiles env cwd maildirPath d (relName f)) := by
  unfold quarantineFiles quarantineFolder
  dsimp only
  split
  · exact ⟨some, none, .refl d⟩
  cases hfree : freeDest d cwd (quarantinePath maildirPath (relName f) (env (relName f)).when') with
  | none => exact ⟨some, none, .refl d⟩
  | some dest =>
      rw [quarantinePath_eq] at hfree
      obtain ⟨x, rfl, -⟩ := freeDest_eq_some hfree
      have h := quarantineTo_conserved env hsources (relName f) hf x hroot
      dsimp only
      rw [resolve_container, resolve_dest, hbase, hresolve f (hsources f hf).1]
      generalize quarantineTo (env (relName f)) d _ _ _ = s at h ⊢
      obtain ⟨d', ok⟩ := s
      cases ok <;> exact h

theorem foldl_quarantine_conserved {missing : List String}
    (hsources : ∀ f, sources f → f ≠ [] ∧ ¬ [containerName] <+: f)
    (hbase : baseDir cwd maildirPath = root)
    (hresolve : ∀ f, f ≠ [] → resolve cwd (join (rstripSlash maildirPath) (relName f)) = root ++ f)
    (hroot : d.node root = some .dir) (hmissing : ∀ s ∈ missing, ∃ f, sources f ∧ s = relName f) :
    ∃ place readme, Conserved env sources root place readme d
      (missing.foldl (quarantineFiles env cwd maildirPath) d) := by
  induction missing generalizing d with
  | nil => exact ⟨some, none, .refl d⟩
  | cons s missing ih =>
      obtain ⟨f, hf, rfl⟩ := hmissing s List.mem_cons_self
      obtain ⟨place, readme, hone⟩ :=
        quarantineFiles_conserved env hsources hbase hresolve hroot hf
      have hne := (hsources f hf).1
      have hroot' : (quarantineFiles env cwd maildirPath d (relName f)).node root = some .dir :=
        quarantineFiles_root hbase (hresolve f hne) hne hroot
      obtain ⟨place', readme', hrest⟩ := ih hroot' fun s hs => hmissing s (List.mem_cons_of_mem _ hs)
      rw [List.foldl_cons]
      exact ⟨_, _, hone.trans hsources hrest⟩

/-- Whatever the file system refuses, a reconciliation loses nothing but sync states. -/
theorem reconcile_conserved (env : String → Env) (d : Files) (cwd : Path) (maildirPath : String)
    (remoteFolders patterns : List String) :
    ∃ place readme, Conserved env (Vanished d cwd maildirPath remoteFolders patterns)
      (baseDir cwd maildirPath) place readme d
      (reconcileRemovedFolders env d cwd maildirPath remoteFolders patterns).files := by
  rcases foldersToQuarantine_cases (localSyncedFolders d cwd maildirPath) remoteFolders patterns with
    ⟨hok, -⟩ | ⟨e, herror, -⟩ | ⟨missing, hok, -, -, hmem⟩
  · rw [reconcile_files hok]
    exact ⟨some, none, .refl d⟩
  · rw [reconcileRemovedFolders, herror]
    exact ⟨some, none, .refl d⟩
  · rw [reconcile_files hok]
    cases missing with
    | nil => exact ⟨some, none, .refl d⟩
    | cons s missing =>
        obtain ⟨root, -, hroot, -, -⟩ := mem_localSyncedFolders
          (List.mem_filter.mp ((hmem s).mp List.mem_cons_self)).1
        rw [hroot.baseDir_eq]
        refine foldl_quarantine_conserved (fun f hf => ?_) hroot.baseDir_eq
          (fun f hf => hroot.resolve_source hf) hroot.dir fun s hs => ?_
        · obtain ⟨-, -, -, hcontainer, -⟩ := hf.spec
          exact ⟨hf.1, hcontainer⟩
        · obtain ⟨f, hf, rfl⟩ := mem_missing_vanished hmem s hs
          exact ⟨f, ⟨hf, (hmem _).mp hs⟩, rfl⟩

/-! ## The mail -/

theorem Conserved.untouched (h : Conserved env sources root place readme d d') {n : Node (List UInt8)}
    (hq : d.node q = some n) : d'.node q = some n ∨ d'.node q = none := by
  by_cases hin : root ++ [containerName] <+: q
  · exact .inl (h.inside q n hin hq)
  · rw [← hq]
    exact h.outside q hin

/-- A message is no sync state. -/
theorem Conserved.message {content : List UInt8}
    (h : Conserved env sources root place readme d d') (hp : IsMessage p)
    (hfile : d.node p = some (.file content)) :
    ∃ q, place p = some q ∧ d'.node q = some (.file content) := by
  refine (h.kept p content hfile).resolve_right ?_
  rintro ⟨-, f, x, -, rfl, hx, -⟩
  obtain ⟨dir, sub, y, heq, -, hdot⟩ := hp
  have hxy : x = y := by
    have hlast := congrArg List.getLast? heq
    simpa using hlast
  subst hxy
  obtain ⟨t, ht⟩ := hx
  exact hdot (by rw [← ht]; rfl)

/-- Every message is at one place with its bytes, and the search for a free name ends. -/
structure MailConserved (env : String → Env) (d : Files) (cwd : Path) (maildirPath : String)
    (remoteFolders patterns : List String) (d' : Files) : Prop where
  places : ∃ place readme, Conserved env (Vanished d cwd maildirPath remoteFolders patterns)
    (baseDir cwd maildirPath) place readme d d' ∧
      ∀ p content, IsMessage p → d.node p = some (.file content) →
        ∃ q, place p = some q ∧ d'.node q = some (.file content)
  /-- No file is overwritten. -/
  untouched : ∀ q content, d.node q = some (.file content) →
    d'.node q = some (.file content) ∨ d'.node q = none
  ends : ∀ d₁ folder when', freeDest d₁ cwd (quarantinePath maildirPath folder when') ≠ none

theorem reconcileRemovedFolders_mailConserved (env : String → Env) (d : Files) (cwd : Path)
    (maildirPath : String) (remoteFolders patterns : List String) :
    MailConserved env d cwd maildirPath remoteFolders patterns
      (reconcileRemovedFolders env d cwd maildirPath remoteFolders patterns).files := by
  obtain ⟨place, readme, h⟩ := reconcile_conserved env d cwd maildirPath remoteFolders patterns
  refine ⟨⟨place, readme, h, fun p content => h.message⟩, fun q content hq => h.untouched hq, ?_⟩
  intro d₁ folder when'
  rw [quarantinePath_eq]
  exact freeDest_ne_none d₁ cwd maildirPath _

end MailFallback
