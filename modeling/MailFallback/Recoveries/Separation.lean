import MailFallback.Recoveries.Steps

/-! # Recoveries do not share files

The roots in use are those of the rows and of the deletions under way. -/

namespace MailFallback.Recoveries

open Storage Posix Transition

variable {host : Host} {s s' : World} {e : Event} {id id' : Id} {row : Row} {d : Deletion}
  {o o' : Origin}

/-- The directory of a recovery. -/
def Origin.path (host : Host) (o : Origin) : Path := resolve host.cwd o.root

/-- The root belongs to the recovery: its row is there, or somebody is deleting it. -/
inductive World.Holds (s : World) (id : Id) (o : Origin) : Prop where
  | row (row : Row) (h : s.rows.get? id = some row) (ho : row.origin = o)
  | deletion (d : Deletion) (h : d ∈ s.deletions) (hid : d.id = id) (ho : d.origin = o)

/-! ## The conditions -/

/-- Roots of one account are made in different seconds, and no store lies in another's root. -/
def Spaced (host : Host) (o o' : Origin) : Prop :=
  (o.accountId = o'.accountId → timestamp o.madeAt ≠ timestamp o'.madeAt) ∧
    ¬ o.path host <+: baseDir host.cwd o'.storePath ∧
    ¬ o'.path host <+: baseDir host.cwd o.storePath

/-- No live maildir lies in the root or around it. -/
def Clear (host : Host) (o : Origin) : Prop :=
  '/' ∉ o.accountId.toList ∧ ∀ a place, host.accounts.get? a = some place →
    ¬ Overlap (o.path host) (resolve host.cwd place.maildirPath)

/-- No directory that leads to the maildir is called as the roots of the account are. -/
def Plain (r : Restore) (restored : Option Walk) : Prop :=
  ∀ dirs, restored = some dirs →
    (∀ q ∈ pieces (PyString.lstrip r.maildirPath '/'),
      PyString.startsWith q (r.accountId ++ "-") = false) ∧
    ∀ dir ∈ dirs, ∀ x ∈ dir.1, PyString.startsWith x.1 (r.accountId ++ "-") = false

/-- The recursive delete meets no error. -/
def Removable (host : Host) (s : World) (d : Deletion) (stuck : List Path) : Prop :=
  stuck = [] ∧ ∀ q, d.origin.path host <+: q → s.files.node q ≠ none →
    isdir s.files host.cwd d.origin.root = true

/-- Where a new root lies, and where the maildir lies below it. -/
def Placed (host : Host) (s : World) : Event → Prop
  | .insert i _ madeAt => ∀ start place, s.starting[i]? = some start →
      host.accounts.get? start.mount.accountId = some place →
      Clear host ⟨place.storePath, start.mount.accountId, madeAt⟩ ∧
      ∀ id o, s.Holds id o → Spaced host ⟨place.storePath, start.mount.accountId, madeAt⟩ o
  | .finish k restored => ∀ r, s.restoring[k]? = some r → Plain r restored
  | _ => True

def Orderly (host : Host) (s : World) : Event → Prop
  | .remove i stuck => ∀ d, s.deletions[i]? = some d → Removable host s d stuck
  | e => Placed host s e

/-! ## What a removal may change -/

/-- The tree of the recovery goes and nothing else does. -/
structure RemovesOnly (host : Host) (s s' : World) (d : Deletion) : Prop where
  own : ∀ row, s.rows.get? d.id = some row → row.origin = d.origin
  gone : ∀ q, d.origin.path host <+: q → s'.files.node q = none
  kept : ∀ q, ¬ d.origin.path host <+: q → s'.files.node q = s.files.node q
  others : ∀ id row, s.rows.get? id = some row → id ≠ d.id →
    ∀ q, row.origin.path host <+: q → s'.files.node q = s.files.node q
  maildirs : ∀ a place, host.accounts.get? a = some place →
    ∀ q, resolve host.cwd place.maildirPath <+: q → s'.files.node q = s.files.node q

structure Apart (host : Host) (s : World) : Prop where
  roots : ∀ id id' row row', s.rows.get? id = some row → s.rows.get? id' = some row' → id ≠ id' →
    ¬ Overlap (row.origin.path host) (row'.origin.path host)
  removal : ∀ i stuck d s', Orderly host s (.remove i stuck) → s.deletions[i]? = some d →
    World.next host s (.remove i stuck) = some s' → RemovesOnly host s s' d
  frame : ∀ e s', World.next host s e = some s' → (∀ i stuck, e ≠ .remove i stuck) →
    (∀ files, e ≠ .disk files) → s'.files = s.files

/-! ## Distance of two roots -/

theorem Spaced.symm (h : Spaced host o o') : Spaced host o' o :=
  ⟨fun hid htime => h.1 hid.symm htime.symm, h.2.2, h.2.1⟩

theorem Origin.path_eq (host : Host) (h : '/' ∉ o.accountId.toList) : o.path host =
    baseDir host.cwd o.storePath ++
      [offsite, ⟨wrapperName o.accountId o.madeAt, isName_wrapperName h o.madeAt⟩] :=
  resolve_buildRestoreRoot host.cwd o.storePath h o.madeAt

theorem Spaced.not_overlap (hspaced : Spaced host o o') (h : Clear host o) (h' : Clear host o') :
    ¬ Overlap (o.path host) (o'.path host) := by
  intro hover
  obtain ⟨htime, hbelow, habove⟩ := hspaced
  rw [o.path_eq host h.1] at hover hbelow
  rw [o'.path_eq host h'.1] at hover habove
  have hne : ∀ (o : Origin) (h : '/' ∉ o.accountId.toList),
      (⟨wrapperName o.accountId o.madeAt, isName_wrapperName h o.madeAt⟩ : Name) ≠ offsite :=
    fun o h heq => wrapperName_ne_offsite o.accountId o.madeAt (congrArg Subtype.val heq)
  rcases overlap_below (hne o h.1) (hne o' h'.1) hover with
    ⟨-, hname⟩ | hpre | hpre
  · obtain ⟨hid, hstamp⟩ := wrapperName_inj (congrArg Subtype.val hname)
    exact htime hid hstamp
  · exact hbelow hpre
  · exact habove hpre

/-! ## The invariant -/

structure Sound (host : Host) (s : World) : Prop where
  used : ∀ id o, s.Holds id o → id ∈ s.used
  clear : ∀ id o, s.Holds id o → Clear host o
  one : ∀ id o o', s.Holds id o → s.Holds id o' → o = o'
  spaced : ∀ id id' o o', s.Holds id o → s.Holds id' o' → id ≠ id' → Spaced host o o'
  row : ∀ id row, s.rows.get? id = some row →
    row.accountId = row.origin.accountId ∧ Below row.accountId row.origin.root row.restorePath
  restore : ∀ r ∈ s.restoring, r.id ∈ s.used ∧ ∀ row, s.rows.get? r.id = some row →
    r.restoreRoot = row.origin.root ∧ r.accountId = row.accountId
  found : ∀ d ∈ s.deletions, ∀ a p, d.phase = .found a p →
    a = d.origin.accountId ∧ Below a d.origin.root p

theorem Clear.isRoot (h : Clear host o) : IsRoot o.accountId o.root :=
  isRoot_buildRestoreRoot o.storePath h.1 o.madeAt

theorem Row.ended_same (row : Row) (maildirRoot : Option String) (now : Time) :
    (row.ended maildirRoot now).origin = row.origin ∧
      (row.ended maildirRoot now).accountId = row.accountId := by
  cases maildirRoot <;> exact ⟨rfl, rfl⟩

theorem RowStep.same_root {row' : Row} (h : RowStep host s e id row row') :
    row'.origin = row.origin ∧ row'.accountId = row.accountId := by
  cases h with
  | ended k restored r he hr hid => exact Row.ended_same ..
  | same | touched | marked => exact ⟨rfl, rfl⟩

/-- A root in use was in use before, or it was just made. -/
theorem Step.holds (h : Step host s e s') (ho : s'.Holds id o) :
    s.Holds id o ∨ ∃ row, Inserted host s e id row ∧ row.origin = o := by
  cases ho with
  | row row hrow ho =>
      rcases h.rowStep hrow with ⟨old, hold, hstep⟩ | hnew
      · exact .inl (.row old hold (hstep.same_root.1.symm.trans ho))
      · exact .inr ⟨row, hnew, ho⟩
  | deletion d hd hid ho =>
      left
      cases h.deletionStep hd with
      | old d hd => exact .deletion d hd hid ho
      | started k row byTick hrow _ => exact .row row (hid ▸ hrow) ho
      | found d row hold _ => exact .deletion d hold hid ho
      | removed d hold => exact .deletion d hold hid ho

theorem Step.used_subset (h : Step host s e s') (hid : id ∈ s.used) : id ∈ s'.used := by
  cases h with
  | inserted => exact List.mem_cons_of_mem _ hid
  | passed | written | asked | finished | touched | requested | read | abandoned | removed
  | dropped | began | ended | spared | expired => exact hid

/-- What the conditions say of a new root. -/
theorem Inserted.placed (h : Inserted host s e id row) (hok : Placed host s e) :
    Clear host row.origin ∧ ∀ id o, s.Holds id o → Spaced host row.origin o := by
  obtain ⟨i, start, place, rfl, hstart, hplace, horigin⟩ := h.event
  rw [horigin]
  exact hok start place hstart hplace

theorem Step.inserted_used (h : Step host s e s') (hnew : Inserted host s e id row) :
    id ∈ s'.used := by
  obtain ⟨i, start, place, rfl, -, -, -⟩ := hnew.event
  cases h with
  | inserted => exact List.mem_cons_self
  | asked starting he => rcases he with ⟨mount, he⟩ | ⟨mount, he⟩ <;> cases he
  | touched k he => rcases he with he | ⟨mount, he⟩ <;> cases he

theorem Step.sound_held (h : Step host s e s') (hs : Sound host s) (hok : Placed host s e) :
    (∀ id o, s'.Holds id o → id ∈ s'.used) ∧ (∀ id o, s'.Holds id o → Clear host o) ∧
      (∀ id o o', s'.Holds id o → s'.Holds id o' → o = o') ∧
      ∀ id id' o o', s'.Holds id o → s'.Holds id' o' → id ≠ id' → Spaced host o o' := by
  have hfresh : ∀ {id row o}, Inserted host s e id row → ¬ s.Holds id o := fun hnew ho =>
    hnew.fresh (hs.used _ _ ho)
  have honce : ∀ {id id' row row'}, Inserted host s e id row → Inserted host s e id' row' →
      id = id' ∧ row.origin = row'.origin := by
    intro id id' row row' hnew hnew'
    obtain ⟨i, start, place, he, hstart, hplace, horigin⟩ := hnew.event
    obtain ⟨i', start', place', he', hstart', hplace', horigin'⟩ := hnew'.event
    obtain ⟨rfl, rfl, hmade⟩ := Event.insert.inj (he.symm.trans he')
    obtain rfl := Option.some.inj (hstart.symm.trans hstart')
    obtain rfl := Option.some.inj (hplace.symm.trans hplace')
    exact ⟨rfl, by rw [horigin, horigin', hmade]⟩
  refine ⟨fun id o ho => ?_, fun id o ho => ?_, fun id o o' ho ho' => ?_,
    fun id id' o o' ho ho' hne => ?_⟩
  · rcases h.holds ho with hold | ⟨row, hnew, -⟩
    · exact h.used_subset (hs.used id o hold)
    · exact h.inserted_used hnew
  · rcases h.holds ho with hold | ⟨row, hnew, rfl⟩
    · exact hs.clear id o hold
    · exact (hnew.placed hok).1
  · rcases h.holds ho with hold | ⟨row, hnew, rfl⟩ <;>
      rcases h.holds ho' with hold' | ⟨row', hnew', rfl⟩
    · exact hs.one id o o' hold hold'
    · exact absurd hold (hfresh hnew')
    · exact absurd hold' (hfresh hnew)
    · exact (honce hnew hnew').2
  · rcases h.holds ho with hold | ⟨row, hnew, rfl⟩ <;>
      rcases h.holds ho' with hold' | ⟨row', hnew', rfl⟩
    · exact hs.spaced id id' o o' hold hold' hne
    · exact ((hnew'.placed hok).2 id o hold).symm
    · exact (hnew.placed hok).2 id' o' hold'
    · exact absurd (honce hnew hnew').1 hne

/-- The recorded path stays at or below the root. -/
theorem Step.sound_row (h : Step host s e s') (hs : Sound host s) (hok : Placed host s e)
    (hrow : s'.rows.get? id = some row) :
    row.accountId = row.origin.accountId ∧ Below row.accountId row.origin.root row.restorePath := by
  rcases h.rowStep hrow with ⟨old, hold, hstep⟩ | hnew
  · obtain ⟨hid, hbelow⟩ := hs.row id old hold
    cases hstep with
    | same | touched | marked => exact ⟨hid, hbelow⟩
    | ended k restored r he hr hrid =>
        subst he hrid
        obtain ⟨horigin, haccount⟩ := Row.ended_same old (s.maildirRoot host r restored) s.clock
        rw [horigin, haccount]
        refine ⟨hid, ?_⟩
        cases hfound : s.maildirRoot host r restored with
        | none => exact hbelow
        | some path =>
            have hroot := (hs.clear _ _ (.row old hold rfl)).isRoot
            obtain ⟨hr₁, hr₂⟩ := (hs.restore r (List.mem_of_getElem? hr)).2 old hold
            obtain ⟨dirs, hdirs, hpath⟩ := Option.bind_eq_some_iff.mp hfound
            obtain ⟨hmaildir, hwalk⟩ := hok r hr dirs hdirs
            rw [hr₂] at hmaildir hwalk
            rw [hr₁] at hpath
            rw [← hid] at hroot
            exact resolveMaildirInsideRestore_below hroot hmaildir hwalk hpath
  · rw [hnew.account, hnew.path]
    exact ⟨rfl, .inl rfl⟩

theorem Step.sound_restore (h : Step host s e s') (hs : Sound host s) :
    ∀ r ∈ s'.restoring, r.id ∈ s'.used ∧ ∀ row, s'.rows.get? r.id = some row →
      r.restoreRoot = row.origin.root ∧ r.accountId = row.accountId := by
  have hold : ∀ r ∈ s.restoring, r.id ∈ s'.used ∧ ∀ row, s'.rows.get? r.id = some row →
      r.restoreRoot = row.origin.root ∧ r.accountId = row.accountId := by
    intro r hr
    obtain ⟨hused, hrows⟩ := hs.restore r hr
    refine ⟨h.used_subset hused, fun row hrow => ?_⟩
    rcases h.rowStep hrow with ⟨old, hold, hstep⟩ | hnew
    · rw [hstep.same_root.1, hstep.same_root.2]
      exact hrows old hold
    · exact absurd hused hnew.fresh
  intro r hr
  cases h with
  | inserted i k madeAt start place hstart hplace hmade hfresh =>
      rcases List.mem_append.mp hr with hr | hr
      · exact hold r hr
      · obtain rfl := List.mem_singleton.mp hr
        refine ⟨List.mem_cons_self, fun row hrow => ?_⟩
        rw [Table.get?_set, if_pos rfl] at hrow
        obtain rfl := Option.some.inj hrow
        exact ⟨rfl, rfl⟩
  | finished => exact hold r (List.mem_of_mem_eraseIdx hr)
  | passed | written | asked | touched | requested | read | abandoned | removed | dropped | began
  | ended | spared | expired => exact hold r hr

theorem Step.sound_found (h : Step host s e s') (hs : Sound host s) :
    ∀ d ∈ s'.deletions, ∀ a p, d.phase = .found a p →
      a = d.origin.accountId ∧ Below a d.origin.root p := by
  intro d hd a p hphase
  cases h.deletionStep hd with
  | old d hd => exact hs.found d hd a p hphase
  | started | removed => cases hphase
  | found d row hold hrow =>
      obtain ⟨rfl, rfl⟩ := DeletePhase.found.inj hphase
      have horigin := hs.one d.id _ _ (.deletion d hold rfl rfl) (.row row hrow rfl)
      rw [horigin]
      exact hs.row d.id row hrow

theorem sound_step (hs : Sound host s) (hok : Placed host s e)
    (hnext : World.next host s e = some s') : Sound host s' := by
  have h := step_of_next hnext
  obtain ⟨hused, hclear, hone, hspaced⟩ := h.sound_held hs hok
  exact ⟨hused, hclear, hone, hspaced, fun _ _ hrow => h.sound_row hs hok hrow,
    h.sound_restore hs, h.sound_found hs⟩

theorem sound_start (host : Host) (clock : Time) (files : Disk Name String) :
    Sound host { clock := clock, files := files } := by
  have hnone : ∀ id o, ¬ World.Holds { clock := clock, files := files } id o := by
    rintro id o (⟨row, hrow, -⟩ | ⟨d, hd, -, -⟩)
    · cases hrow
    · cases hd
  exact ⟨fun id o ho => absurd ho (hnone id o), fun id o ho => absurd ho (hnone id o),
    fun id o _ ho => absurd ho (hnone id o), fun id _ o _ ho => absurd ho (hnone id o),
    (fun _ _ h => by cases h), (fun _ h => by cases h), (fun _ h => by cases h)⟩

/-! ## The removal -/

theorem Orderly.placed (h : Orderly host s e) : Placed host s e := by
  cases e with
  | remove => trivial
  | _ => exact h

/-- A recursive delete reaches nothing but the tree. -/
theorem Sound.removal_cases (hs : Sound host s) {i : ℕ} {stuck : List Path}
    (hd : s.deletions[i]? = some d) (hnext : World.next host s (.remove i stuck) = some s') :
    s'.files = rmtree s.files host.cwd d.origin.root (stuck.contains ·) := by
  cases step_of_next hnext with
  | removed i stuck d' accountId restorePath hd' hphase =>
      obtain rfl := Option.some.inj (hd.symm.trans hd')
      obtain ⟨rfl, hbelow⟩ := hs.found d (List.mem_of_getElem? hd) _ _ hphase
      have hclear := hs.clear _ _ (.deletion d (List.mem_of_getElem? hd) rfl rfl)
      dsimp only
      rw [deleteTarget_eq hclear.isRoot hbelow]
  | asked starting he => rcases he with ⟨mount, he⟩ | ⟨mount, he⟩ <;> cases he
  | touched k he => rcases he with he | ⟨mount, he⟩ <;> cases he

/-- A place that does not overlap the tree keeps its files. -/
theorem Sound.outside (hs : Sound host s) {i : ℕ} {stuck : List Path}
    (hd : s.deletions[i]? = some d) (hnext : World.next host s (.remove i stuck) = some s')
    {p q : Path} (hp : ¬ Overlap (d.origin.path host) p) (hq : p <+: q) :
    s'.files.node q = s.files.node q := by
  rw [hs.removal_cases hd hnext]
  rcases rmtree_cases s.files host.cwd d.origin.root (stuck.contains ·) q with hsame | ⟨hpre, -⟩
  · exact hsame
  · exact absurd ((List.prefix_or_prefix_of_prefix hpre hq).imp id id) hp

theorem Sound.others (hs : Sound host s) {i : ℕ} {stuck : List Path}
    (hd : s.deletions[i]? = some d) (hnext : World.next host s (.remove i stuck) = some s')
    (hrow : s.rows.get? id = some row) (hne : id ≠ d.id) {q : Path}
    (hq : row.origin.path host <+: q) : s'.files.node q = s.files.node q := by
  have hholds : s.Holds d.id d.origin := .deletion d (List.mem_of_getElem? hd) rfl rfl
  have hother := World.Holds.row row hrow rfl
  exact hs.outside hd hnext ((hs.spaced d.id id _ _ hholds hother (Ne.symm hne)).not_overlap
    (hs.clear _ _ hholds) (hs.clear _ _ hother)) hq

/-- The recursive delete of a root that can be removed takes the tree and nothing else. -/
theorem rmtree_root {files : Disk Name String} (hclear : Clear host o)
    (hfound : ∀ q, o.path host <+: q → files.node q ≠ none →
      isdir files host.cwd o.root = true) (q : Path) :
    (rmtree files host.cwd o.root fun _ => false).node q =
      if o.path host <+: q then none else files.node q := by
  have hpieces : ∃ ps, pieces o.root = ps ++ [wrapperName o.accountId o.madeAt] := by
    have hname := pieces_name ⟨_, isName_wrapperName hclear.1 o.madeAt⟩
    exact ⟨_, by rw [Origin.root, buildRestoreRoot, pieces_append_slash, hname]⟩
  obtain ⟨ps, hps⟩ := hpieces
  have hlast : rmdirRefuses o.root = false :=
    rmdirRefuses_name ⟨_, isName_wrapperName hclear.1 o.madeAt⟩ hps
  cases hdir : isdir files host.cwd o.root with
  | true =>
      obtain ⟨p, hfind, hnode⟩ := isdir_iff.mp hdir
      have hp : o.path host = p := find_eq_some hfind
      have hne : p ≠ [] := by
        rw [← hp, Origin.path_eq host hclear.1]
        simp
      rw [rmtree_of_find _ hfind hnode hlast, hp]
      by_cases hq : q = []
      · have hout : ¬ p <+: q := by
          rw [hq, List.prefix_nil]
          exact hne
        rw [if_neg hout]
        exact Disk.node_eraseTree_of_outside _ _ hout
      · exact Disk.node_removeTree files p hq
  | false =>
      have hnone : ∀ q, o.path host <+: q → files.node q = none := by
        intro q hq
        by_contra hnode
        rw [hfound q hq hnode] at hdir
        cases hdir
      rcases rmtree_cases files host.cwd o.root (fun _ => false) q with hsame | ⟨hpre, hgone⟩
      · rw [hsame]
        split
        · rename_i hpre
          exact hnone q hpre
        · rfl
      · have hpre : o.path host <+: q := hpre
        rw [hgone, if_pos hpre]

theorem Sound.removesOnly (hs : Sound host s) {i : ℕ} {stuck : List Path}
    (hok : Orderly host s (.remove i stuck)) (hd : s.deletions[i]? = some d)
    (hnext : World.next host s (.remove i stuck) = some s') : RemovesOnly host s s' d := by
  have hholds : s.Holds d.id d.origin := .deletion d (List.mem_of_getElem? hd) rfl rfl
  have hclear := hs.clear _ _ hholds
  obtain ⟨hstuck, hfound⟩ := hok d hd
  have hown : ∀ row, s.rows.get? d.id = some row → row.origin = d.origin := fun row hrow =>
    hs.one d.id _ _ (.row row hrow rfl) hholds
  have hfiles : ∀ q, s'.files.node q =
      if d.origin.path host <+: q then none else s.files.node q := by
    intro q
    subst hstuck
    have hfalse : (fun p : Path => ([] : List Path).contains p) = fun _ => false := by
      funext p
      simp
    rw [hs.removal_cases hd hnext, hfalse]
    exact rmtree_root hclear hfound q
  exact ⟨hown, fun q hq => by rw [hfiles, if_pos hq], fun q hq => by rw [hfiles, if_neg hq],
    fun id row hrow hne q hq => hs.others hd hnext hrow hne hq,
    fun a place hplace q hq => hs.outside hd hnext (hclear.2 a place hplace) hq⟩

theorem Step.files_kept (h : Step host s e s') (hremove : ∀ i stuck, e ≠ .remove i stuck)
    (hdisk : ∀ files, e ≠ .disk files) : s'.files = s.files := by
  cases h with
  | written files => exact absurd rfl (hdisk files)
  | removed i stuck => exact absurd rfl (hremove i stuck)
  | passed | asked | inserted | finished | touched | requested | read | abandoned | dropped | began
  | ended | spared | expired => rfl

theorem Sound.apart (hs : Sound host s) : Apart host s where
  roots id id' row row' hrow hrow' hne := by
    have h := World.Holds.row row hrow rfl
    have h' := World.Holds.row row' hrow' rfl
    exact (hs.spaced id id' _ _ h h' hne).not_overlap (hs.clear _ _ h) (hs.clear _ _ h')
  removal _ _ _ _ hok hd hnext := hs.removesOnly hok hd hnext
  frame _ _ hnext := (step_of_next hnext).files_kept

/-- Every run of creations, restores, deletions and clean-ups that keeps the conditions. -/
theorem recoveries_apart (host : Host) (clock : Time) (files : Disk Name String)
    (h : Reaches (World.next host) (Orderly host) { clock := clock, files := files } s) :
    Apart host s := by
  have hsound : Sound host s :=
    h.invariant (sound_start host clock files) fun _ _ _ hs hok hnext =>
      sound_step hs hok.placed hnext
  exact hsound.apart

/-! ## A run -/

def World.held (s : World) : List Origin :=
  s.rows.rows.map (fun r => r.2.origin) ++ s.deletions.map fun d => d.origin

theorem World.mem_held (ho : s.Holds id o) : o ∈ s.held := by
  cases ho with
  | row row hrow ho =>
      exact List.mem_append_left _ (List.mem_map.mpr ⟨(id, row), Table.mem_rows.mpr hrow, ho⟩)
  | deletion d hd hid ho => exact List.mem_append_right _ (List.mem_map.mpr ⟨d, hd, ho⟩)

instance (host : Host) (o o' : Origin) : Decidable (Spaced host o o') := by
  unfold Spaced
  infer_instance

/-- The conditions as a check. -/
def orderly (host : Host) (s : World) : Event → Bool
  | .insert i _ madeAt =>
      (s.starting[i]?).all fun start => (host.accounts.get? start.mount.accountId).all fun place =>
        let o : Origin := ⟨place.storePath, start.mount.accountId, madeAt⟩
        !o.accountId.toList.contains '/' &&
          host.accounts.rows.all (fun a =>
            decide (¬ Overlap (o.path host) (resolve host.cwd a.2.maildirPath))) &&
          s.held.all fun o' => decide (Spaced host o o')
  | .finish k restored =>
      (s.restoring[k]?).all fun r => restored.all fun dirs =>
        (pieces (PyString.lstrip r.maildirPath '/')).all
            (fun q => !PyString.startsWith q (r.accountId ++ "-")) &&
          dirs.all fun dir => dir.1.all fun x => !PyString.startsWith x.1 (r.accountId ++ "-")
  | .remove i stuck => stuck.isEmpty &&
      (s.deletions[i]?).all fun d => isdir s.files host.cwd d.origin.root
  | _ => true

theorem orderly_of_check (s : World) (e : Event) (h : orderly host s e = true) :
    Orderly host s e := by
  cases e with
  | insert i id madeAt =>
      intro start place hstart hplace
      simp only [orderly, hstart, hplace, Option.all_some, Bool.and_eq_true, List.all_eq_true,
        decide_eq_true_eq, Bool.not_eq_true', List.contains_eq_mem, decide_eq_false_iff_not] at h
      obtain ⟨⟨hslash, hmaildirs⟩, hheld⟩ := h
      exact ⟨⟨hslash, fun a place' hplace' => hmaildirs (a, place') (Table.mem_rows.mpr hplace')⟩,
        fun id o ho => hheld o (World.mem_held ho)⟩
  | finish k restored =>
      rintro r hr dirs rfl
      simpa only [orderly, hr, Option.all_some, Bool.and_eq_true, List.all_eq_true,
        Bool.not_eq_true'] using h
  | remove i stuck =>
      intro d hd
      simp only [orderly, hd, Option.all_some, Bool.and_eq_true, List.isEmpty_iff] at h
      exact ⟨h.1, fun _ _ _ => h.2⟩
  | _ => trivial

def sampleHost : Host where
  accounts := Table.empty.set "a1" { storePath := "/m", maildirPath := "/m/a1" }

def sampleStart : World := { clock := 1767225600000000, files := .empty }

/-- Two recoveries of one account whose roots are made at the given times. -/
def twoRecoveries (madeAt : Time) : List Event :=
  [.create { accountId := "a1", snapshotId := "s1" }, .create { accountId := "a1", snapshotId := "s2" },
    .pass 1000000, .insert 0 "r1" 1767225600000000, .insert 0 "r2" madeAt]

/-- The second root is that of the first when both are made in one second. -/
theorem not_recoveries_apart : ¬ ∀ (host : Host) (clock : Time) (files : Disk Name String) (s : World),
    Reaches (World.next host) (fun _ _ => True) { clock := clock, files := files } s →
      Apart host s := by
  intro h
  have hrun : ((twoRecoveries 1767225600000001).foldlM
      (guarded (fun _ _ => true) (World.next sampleHost)) sampleStart).any (fun s =>
        (s.rows.get? "r1").any fun row => (s.rows.get? "r2").any fun row' =>
          decide (Overlap (row.origin.path sampleHost) (row'.origin.path sampleHost))) = true := by
    decide +kernel
  obtain ⟨s, hreach, hend⟩ := Reaches.of_any hrun fun _ _ _ => trivial
  obtain ⟨row, hrow, hrest⟩ := (Option.any_eq_true ..).mp hend
  obtain ⟨row', hrow', hoverlap⟩ := (Option.any_eq_true ..).mp hrest
  exact (h sampleHost 1767225600000000 .empty s hreach).roots "r1" "r2" row row' hrow hrow'
    (by decide) (of_decide_eq_true hoverlap)

/-- The disk behind two restores, by the path strings. -/
def restoredFiles : Disk Name String :=
  .build [(resolve [] "/m", .dir), (resolve [] "/m/.offsite-restore", .dir),
    (resolve [] "/m/.offsite-restore/a1-20260101000000", .dir),
    (resolve [] "/m/.offsite-restore/a1-20260101000001", .dir),
    (resolve [] "/m/.offsite-restore/a1-20260101000001/mail", .file "two")]

/-- Both restores end, and the first recovery is deleted. -/
def firstDeleted : List Event :=
  twoRecoveries 1767225601000000 ++ [.disk restoredFiles, .finish 0 (some []), .finish 0 none,
    .delete "r1" none, .read 0, .remove 0 [], .drop 0]

/-- Made in two seconds, one of them can be deleted without the other. -/
theorem twoRecoveries_apart : ∃ s : World, (s.rows.get? "r1").isNone = true ∧
    s.files.node (resolve [] "/m/.offsite-restore/a1-20260101000000") = none ∧
    s.files.node (resolve [] "/m/.offsite-restore/a1-20260101000001/mail") = some (.file "two") ∧
    Apart sampleHost s := by
  have hrun : (firstDeleted.foldlM
      (guarded (orderly sampleHost) (World.next sampleHost)) sampleStart).any (fun s =>
        (s.rows.get? "r1").isNone &&
        decide (s.files.node (resolve [] "/m/.offsite-restore/a1-20260101000000") = none) &&
        decide (s.files.node (resolve [] "/m/.offsite-restore/a1-20260101000001/mail") =
          some (.file "two"))) = true := by
    decide +kernel
  obtain ⟨s, hreach, hend⟩ := Reaches.of_any hrun orderly_of_check
  simp only [Bool.and_eq_true, decide_eq_true_eq] at hend
  obtain ⟨⟨hrow, hgone⟩, hkept⟩ := hend
  exact ⟨s, hrow, hgone, hkept, recoveries_apart sampleHost 1767225600000000 .empty hreach⟩

end MailFallback.Recoveries
