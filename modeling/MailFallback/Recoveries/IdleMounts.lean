import MailFallback.Recoveries.Separation

/-! # The idle clean-up and a restore under way

What the tick removes was restored and then left alone for its `ttl_minutes`, unless a tick finds
a mount past its cutoff too early. -/

namespace MailFallback.Recoveries

open Storage Posix Transition

variable {host : Host} {s s' : World} {e : Event} {id : Id} {row row' : Row} {d : Deletion}

/-! ## The conditions -/

/-- What the tick looks at next, with the row as its session has it. -/
def World.Seen (s : World) (t : Tick) (id : Id) (seen : Row) : Prop :=
  s.tick = some t ∧ ∃ loaded rest, t.rest = (id, loaded) :: rest ∧
    (if t.expired = true then s.rows.get? id else some loaded) = some seen

/-- The restore has ended more than `ttl_minutes` before. -/
def Row.LongEnded (row : Row) (now : Time) : Prop :=
  ∃ m f, row.ttlMinutes = some m ∧ row.finishedAt = some f ∧ f + m * 60000000 < now

/-- No deletion of the recovery is under way, and the tick has not read its row as idle. -/
def Untouched (s : World) (id : Id) : Prop :=
  (∀ d ∈ s.deletions, d.id ≠ id) ∧ ∀ t, s.tick = some t → t.expired = false →
    ∀ r ∈ t.rest, r.1 = id → r.2.idle t.now = false

/-- Somebody asks for a deletion. -/
def Event.isRequest : Event → Bool
  | .delete _ _ => true
  | _ => false

def Unhurried (host : Host) (s : World) (e : Event) : Prop :=
  e.isRequest = false ∧ Placed host s e ∧
    match e with
    | .next => ∀ t id seen row, s.Seen t id seen → seen.idle t.now = true →
        s.rows.get? id = some row → row.LongEnded t.now
    | .touch id | .ensure _ (some id) => Untouched s id
    | _ => True

/-! ## What the clean-up may remove -/

/-- An ephemeral mount whose restore has ended and which nobody has used since, both more than
`ttl_minutes` ago. -/
structure Row.Unused (row : Row) (now : Time) : Prop where
  kind : row.kind = .ephemeral
  ended : row.LongEnded now
  idle : row.idle now = true

structure MountsKept (host : Host) (s : World) : Prop where
  removals : ∀ r ∈ s.removals, r.row.Unused r.time
  kept : ∀ id ∈ s.used, (∃ row, s.rows.get? id = some row) ∨ ∃ r ∈ s.removals, r.id = id
  files : ∀ i stuck s', World.next host s (.remove i stuck) = some s' →
    ∃ d, s.deletions[i]? = some d ∧ (∃ r ∈ s'.removals, r.id = d.id) ∧
      ∀ id row, s.rows.get? id = some row → id ≠ d.id →
        ∀ q, row.origin.path host <+: q → s'.files.node q = s.files.node q
  frame : ∀ e s', World.next host s e = some s' → (∀ i stuck, e ≠ .remove i stuck) →
    (∀ files, e ≠ .disk files) → s'.files = s.files

/-! ## The invariant -/

/-- What the tick has of a row, and the row. -/
structure Tick.Current (t : Tick) (s : World) (r : Id × Row) : Prop where
  used : r.1 ∈ s.used
  kind : r.2.kind = .ephemeral
  same : ∀ row, s.rows.get? r.1 = some row → row.kind = r.2.kind ∧
    row.ttlMinutes = r.2.ttlMinutes ∧
      (t.expired = false → r.2.idle t.now = true → row.lastAccessedAt = r.2.lastAccessedAt)

structure Idle (host : Host) (s : World) : Prop where
  sound : Sound host s
  deletion : ∀ d ∈ s.deletions, ∀ row, s.rows.get? d.id = some row → row.Unused s.clock
  tick : ∀ t, s.tick = some t → t.now ≤ s.clock ∧ ∀ r ∈ t.rest, t.Current s r
  working : ∀ r ∈ s.restoring, ∀ row, s.rows.get? r.id = some row → row.finishedAt = none
  workers : (s.restoring.map Restore.id).Nodup
  removals : ∀ r ∈ s.removals, r.row.Unused r.time
  kept : ∀ id ∈ s.used, (∃ row, s.rows.get? id = some row) ∨ ∃ r ∈ s.removals, r.id = id

theorem Row.Unused.mono {now now' : Time} (h : row.Unused now) (hle : now ≤ now') :
    row.Unused now' := by
  obtain ⟨m, f, hm, hf, hlt⟩ := h.ended
  refine ⟨h.kind, ⟨m, f, hm, hf, hlt.trans_le hle⟩, ?_⟩
  have hidle := h.idle
  simp only [Row.idle, hm, Option.any_some, decide_eq_true_eq] at hidle ⊢
  exact hidle.trans_le hle

theorem Row.idle_congr {now : Time} (hm : row.ttlMinutes = row'.ttlMinutes)
    (hla : row.lastAccessedAt = row'.lastAccessedAt) : row.idle now = row'.idle now := by
  unfold Row.idle
  rw [hm, hla]

theorem Step.clock_le (h : Step host s e s') : s.clock ≤ s'.clock := by
  cases h with
  | passed span => exact le_add_of_nonneg_right (Int.natCast_nonneg span)
  | written | asked | inserted | finished | touched | requested | read | abandoned | removed
  | dropped | began | ended | spared | expired => exact le_refl _

theorem Row.ended_mount (row : Row) (maildirRoot : Option String) (now : Time) :
    (row.ended maildirRoot now).kind = row.kind ∧
      (row.ended maildirRoot now).ttlMinutes = row.ttlMinutes ∧
      (row.ended maildirRoot now).lastAccessedAt = row.lastAccessedAt := by
  cases maildirRoot <;> exact ⟨rfl, rfl, rfl⟩

theorem Unhurried.untouched (hok : Unhurried host s e)
    (he : e = .touch id ∨ ∃ mount, e = .ensure mount (some id)) : Untouched s id := by
  obtain ⟨-, -, hok⟩ := hok
  rcases he with rfl | ⟨mount, rfl⟩ <;> exact hok

/-- The row of a deletion under way stays unused. -/
theorem Idle.deletion_kept (hi : Idle host s) (h : Step host s e s') (hok : Unhurried host s e)
    (hd : d ∈ s.deletions) (hrow : s'.rows.get? d.id = some row') : row'.Unused s'.clock := by
  rcases h.rowStep hrow with ⟨row, hold, hstep⟩ | hnew
  · have hunused := (hi.deletion d hd row hold).mono h.clock_le
    cases hstep with
    | same => exact hunused
    | marked => exact ⟨hunused.kind, hunused.ended, hunused.idle⟩
    | touched he => exact absurd rfl ((hok.untouched he).1 d hd)
    | ended k restored r he hr hid =>
        obtain ⟨m, f, -, hf, -⟩ := hunused.ended
        rw [hi.working r (List.mem_of_getElem? hr) row (hid ▸ hold)] at hf
        cases hf
  · exact absurd (hi.sound.used _ _ (.deletion d hd rfl rfl)) hnew.fresh

theorem Idle.deletion_step (hi : Idle host s) (h : Step host s e s') (hok : Unhurried host s e) :
    ∀ d ∈ s'.deletions, ∀ row, s'.rows.get? d.id = some row → row.Unused s'.clock := by
  intro d hd row' hrow'
  have hkept : ∀ d ∈ s.deletions, ∀ row', s'.rows.get? d.id = some row' → row'.Unused s'.clock :=
    fun d hd row' hrow' => hi.deletion_kept h hok hd hrow'
  cases h with
  | requested => cases hok.1
  | read i d₀ row hd₀ =>
      rcases List.mem_or_eq_of_mem_set hd with hd | rfl
      · exact hkept d hd row' hrow'
      · exact hkept d₀ (List.mem_of_getElem? hd₀) row' hrow'
  | removed i stuck d₀ accountId restorePath hd₀ =>
      rcases List.mem_or_eq_of_mem_set hd with hd | rfl
      · exact hkept d hd row' hrow'
      · exact hkept d₀ (List.mem_of_getElem? hd₀) row' hrow'
  | abandoned | dropped => exact hkept d (List.mem_of_mem_eraseIdx hd) row' hrow'
  | passed | written | asked | inserted | finished | touched | began | ended | spared =>
      exact hkept d hd row' hrow'
  | expired t htick k loaded seen rest hrest hfree hseen hidle row hrow =>
      rcases List.mem_append.mp hd with hd | hd
      · exact hkept d hd row' hrow'
      obtain rfl := List.mem_singleton.mp hd
      obtain ⟨hnow, hcurrent⟩ := hi.tick t htick
      have hmember : (k, loaded) ∈ t.rest := hrest ▸ List.mem_cons_self
      obtain ⟨-, hkind, hsame⟩ := hcurrent _ hmember
      obtain ⟨hkinds, hminutes, htouched⟩ := hsame row hrow
      have hended := hok.2.2 t k seen row ⟨htick, loaded, rest, hrest, hseen⟩ hidle hrow
      have hrowIdle : row.idle t.now = true := by
        cases hexpired : t.expired with
        | true =>
            rw [if_pos hexpired, hrow] at hseen
            rwa [Option.some.inj hseen]
        | false =>
            rw [hexpired] at hseen
            obtain rfl := Option.some.inj hseen
            rw [Row.idle_congr hminutes (htouched hexpired hidle)]
            exact hidle
      have hunused : row.Unused s.clock :=
        Row.Unused.mono ⟨hkinds.trans hkind, hended, hrowIdle⟩ hnow
      obtain ⟨old, hold, ⟨-, rfl⟩ | rfl⟩ := get?_modify_some hrow'
      · obtain rfl := Option.some.inj (hrow.symm.trans hold)
        exact ⟨hunused.kind, hunused.ended, hunused.idle⟩
      · obtain rfl := Option.some.inj (hrow.symm.trans hold)
        exact hunused

theorem Idle.current_kept (hi : Idle host s) (h : Step host s e s') (hok : Unhurried host s e)
    {t : Tick} (htick : s.tick = some t) {r : Id × Row} (hr : r ∈ t.rest) : t.Current s' r := by
  obtain ⟨-, hcurrent⟩ := hi.tick t htick
  obtain ⟨hused, hkind, hsame⟩ := hcurrent r hr
  refine ⟨h.used_subset hused, hkind, fun row' hrow' => ?_⟩
  rcases h.rowStep hrow' with ⟨row, hold, hstep⟩ | hnew
  · obtain ⟨hkinds, hminutes, htouched⟩ := hsame row hold
    cases hstep with
    | same | marked => exact ⟨hkinds, hminutes, htouched⟩
    | touched he =>
        refine ⟨hkinds, hminutes, fun hexpired hidle => ?_⟩
        rw [(hok.untouched he).2 t htick hexpired r hr rfl] at hidle
        cases hidle
    | ended k restored w he hw hid =>
        obtain ⟨hk, hm, hla⟩ := Row.ended_mount row (s.maildirRoot host w restored) s.clock
        rw [hk, hm, hla]
        exact ⟨hkinds, hminutes, htouched⟩
  · exact absurd hused hnew.fresh

theorem Idle.tick_step (hi : Idle host s) (h : Step host s e s') (hok : Unhurried host s e) :
    ∀ t, s'.tick = some t → t.now ≤ s'.clock ∧ ∀ r ∈ t.rest, t.Current s' r := by
  intro t' htick'
  have hkept : ∀ t, s.tick = some t → t.now ≤ s'.clock ∧ ∀ r ∈ t.rest, t.Current s' r :=
    fun t htick => ⟨(hi.tick t htick).1.trans h.clock_le, fun r hr => hi.current_kept h hok htick hr⟩
  cases h with
  | began found htick hfound =>
      obtain rfl := Option.some.inj htick'
      refine ⟨le_refl _, fun r hr => ?_⟩
      obtain ⟨hmem, hkind⟩ := List.mem_filter.mp (hfound.mem_iff.mp hr)
      rw [Bool.and_eq_true, decide_eq_true_eq] at hkind
      have hrow : s.rows.get? r.1 = some r.2 := Table.mem_rows.mp hmem
      refine ⟨hi.sound.used _ _ (.row r.2 hrow rfl), hkind.1, fun row hsame => ?_⟩
      obtain rfl := Option.some.inj (hrow.symm.trans hsame)
      exact ⟨rfl, rfl, fun _ _ => rfl⟩
  | ended => cases htick'
  | spared t htick r rest hrest =>
      obtain rfl := Option.some.inj htick'
      obtain ⟨hnow, hcurrent⟩ := hkept t htick
      refine ⟨hnow, fun r' hr' => ?_⟩
      obtain ⟨hused, hkind, hsame⟩ := hcurrent r' (hrest ▸ List.mem_cons_of_mem _ hr')
      exact ⟨hused, hkind, hsame⟩
  | expired t htick k loaded seen rest hrest =>
      obtain rfl := Option.some.inj htick'
      obtain ⟨hnow, hcurrent⟩ := hkept t htick
      refine ⟨hnow, fun r' hr' => ?_⟩
      obtain ⟨hused, hkind, hsame⟩ := hcurrent r' (hrest ▸ List.mem_cons_of_mem _ hr')
      exact ⟨hused, hkind, fun row hrow =>
        ⟨(hsame row hrow).1, (hsame row hrow).2.1, fun hexpired => by cases hexpired⟩⟩
  | abandoned i d hd =>
      dsimp only at htick'
      split at htick'
      · cases htick'
      · exact hkept t' htick'
  | passed | written | asked | inserted | finished | touched | requested | read | removed
  | dropped => exact hkept t' htick'

/-! ## The restores under way -/

theorem RowStep.unfinished (h : RowStep host s e id row row') (hrow : row.finishedAt = none)
    (he : ∀ k restored r, e = .finish k restored → s.restoring[k]? = some r → r.id ≠ id) :
    row'.finishedAt = none := by
  cases h with
  | same | touched | marked => exact hrow
  | ended k restored r hfinish hr hid => exact absurd hid (he k restored r hfinish hr)

/-- The other restores are those of other rows. -/
theorem Idle.other_restore (hi : Idle host s) {k : ℕ} {r r' : Restore}
    (hr : s.restoring[k]? = some r) (hr' : r' ∈ s.restoring.eraseIdx k) : r.id ≠ r'.id := by
  obtain ⟨i, hik, hi'⟩ := List.mem_eraseIdx_iff_getElem?.mp hr'
  intro hid
  have hk := List.getElem?_map (f := Restore.id) (l := s.restoring) (i := k)
  have hj := List.getElem?_map (f := Restore.id) (l := s.restoring) (i := i)
  rw [hr, Option.map_some] at hk
  rw [hi', Option.map_some, ← hid] at hj
  have hlt : i < (s.restoring.map Restore.id).length := (List.getElem?_eq_some_iff.mp hj).1
  exact hik ((List.getElem?_inj hlt hi.workers).mp (hj.trans hk.symm))

theorem Idle.working_step (hi : Idle host s) (h : Step host s e s') :
    ∀ r ∈ s'.restoring, ∀ row, s'.rows.get? r.id = some row → row.finishedAt = none := by
  intro r hr row' hrow'
  have hkept : r ∈ s.restoring → (∀ k restored w, e = .finish k restored →
      s.restoring[k]? = some w → w.id ≠ r.id) → row'.finishedAt = none := by
    intro hr he
    rcases h.rowStep hrow' with ⟨row, hold, hstep⟩ | hnew
    · exact hstep.unfinished (hi.working r hr row hold) he
    · exact hnew.unfinished
  cases h with
  | inserted i k madeAt start place hstart hplace hmade hfresh =>
      rcases List.mem_append.mp hr with hr | hr
      · exact hkept hr fun _ _ _ he => by cases he
      · obtain rfl := List.mem_singleton.mp hr
        rw [Table.get?_set, if_pos rfl] at hrow'
        obtain rfl := Option.some.inj hrow'
        rfl
  | finished k restored w hw =>
      refine hkept (List.mem_of_mem_eraseIdx hr) fun k' restored' w' he hw' => ?_
      obtain ⟨rfl, rfl⟩ := Event.finish.inj he
      exact hi.other_restore hw' hr
  | asked starting he =>
      refine hkept hr fun k restored w hfinish => ?_
      rcases he with ⟨mount, he⟩ | ⟨mount, he⟩ <;> rw [hfinish] at he <;> cases he
  | touched k he =>
      refine hkept hr fun k restored w hfinish => ?_
      rcases he with he | ⟨mount, he⟩ <;> rw [hfinish] at he <;> cases he
  | passed | written | requested | read | abandoned | removed | dropped | began | ended | spared
  | expired => exact hkept hr fun _ _ _ he => by cases he

theorem Idle.workers_step (hi : Idle host s) (h : Step host s e s') :
    (s'.restoring.map Restore.id).Nodup := by
  cases h with
  | inserted i k madeAt start place hstart hplace hmade hfresh =>
      rw [List.map_append, List.nodup_append_comm]
      refine List.nodup_cons.mpr ⟨fun hmem => ?_, hi.workers⟩
      obtain ⟨r, hr, hid⟩ := List.mem_map.mp hmem
      have hused := (hi.sound.restore r hr).1
      rw [hid] at hused
      exact hfresh hused
  | finished k restored w hw => exact hi.workers.sublist ((List.eraseIdx_sublist _ _).map _)
  | passed | written | asked | touched | requested | read | abandoned | removed | dropped | began
  | ended | spared | expired => exact hi.workers

/-! ## The removals -/

theorem Idle.logged_unused (hi : Idle host s) (hd : d ∈ s.deletions) :
    ∀ r ∈ s.logged d.id, r.row.Unused r.time := by
  intro r hr
  rcases List.mem_append.mp hr with hr | hr
  · obtain ⟨row, hrow, rfl⟩ := List.mem_map.mp hr
    exact hi.deletion d hd row (Option.mem_toList.mp hrow)
  · exact hi.removals r hr

theorem Idle.removals_step (hi : Idle host s) (h : Step host s e s') :
    ∀ r ∈ s'.removals, r.row.Unused r.time := by
  cases h with
  | removed i stuck d accountId restorePath hd => exact hi.logged_unused (List.mem_of_getElem? hd)
  | dropped i d hd => exact hi.logged_unused (List.mem_of_getElem? hd)
  | passed | written | asked | inserted | finished | touched | requested | read | abandoned | began
  | ended | spared | expired => exact hi.removals

theorem World.logged_of_row (hrow : s.rows.get? id = some row) : ∃ r ∈ s.logged id, r.id = id := by
  refine ⟨⟨id, row, s.clock⟩, List.mem_append_left _ ?_, rfl⟩
  rw [hrow]
  exact List.mem_singleton_self _

theorem Step.removals_subset (h : Step host s e s') {r : Removal} (hr : r ∈ s.removals) :
    r ∈ s'.removals := by
  cases h with
  | removed | dropped => exact List.mem_append_right _ hr
  | passed | written | asked | inserted | finished | touched | requested | read | abandoned | began
  | ended | spared | expired => exact hr

theorem Idle.kept_step (hi : Idle host s) (h : Step host s e s') :
    ∀ id ∈ s'.used, (∃ row, s'.rows.get? id = some row) ∨ ∃ r ∈ s'.removals, r.id = id := by
  intro id hid
  have hkept : id ∈ s.used →
      (∃ row, s'.rows.get? id = some row) ∨ ∃ r ∈ s'.removals, r.id = id := by
    intro hid
    rcases hi.kept id hid with ⟨row, hrow⟩ | ⟨r, hr, hrid⟩
    · rcases h.row_kept hrow with hrow' | ⟨i, d, rfl, hd, rfl, -⟩
      · exact .inl hrow'
      · cases h with
        | dropped i d' hd' =>
            obtain rfl := Option.some.inj (hd.symm.trans hd')
            exact .inr (World.logged_of_row hrow)
        | asked starting he => rcases he with ⟨mount, he⟩ | ⟨mount, he⟩ <;> cases he
        | touched k he => rcases he with he | ⟨mount, he⟩ <;> cases he
    · exact .inr ⟨r, h.removals_subset hr, hrid⟩
  cases h with
  | inserted i k madeAt start place hstart hplace hmade hfresh =>
      rcases List.mem_cons.mp hid with rfl | hid
      · left
        rw [Table.get?_set, if_pos rfl]
        exact ⟨_, rfl⟩
      · exact hkept hid
  | passed | written | asked | finished | touched | requested | read | abandoned | removed
  | dropped | began | ended | spared | expired => exact hkept hid

/-! ## Every run -/

theorem idle_step (hi : Idle host s) (hok : Unhurried host s e)
    (hnext : World.next host s e = some s') : Idle host s' := by
  have h := step_of_next hnext
  exact ⟨sound_step hi.sound hok.2.1 hnext, hi.deletion_step h hok, hi.tick_step h hok,
    hi.working_step h, hi.workers_step h, hi.removals_step h, hi.kept_step h⟩

theorem idle_start (host : Host) (clock : Time) (files : Disk Name String) :
    Idle host { clock := clock, files := files } :=
  ⟨sound_start host clock files, (fun _ h => by cases h), (fun _ h => by cases h),
    (fun _ h => by cases h), List.nodup_nil, (fun _ h => by cases h), (fun _ h => by cases h)⟩

theorem Idle.mountsKept (hi : Idle host s) : MountsKept host s where
  removals := hi.removals
  kept := hi.kept
  files i stuck s' hnext := by
    cases hd : s.deletions[i]? with
    | none => simp [World.next, World.removeTree, hd] at hnext
    | some d =>
        refine ⟨d, rfl, ?_, fun id row hrow hne q hq => hi.sound.others hd hnext hrow hne hq⟩
        have hused := hi.sound.used _ _ (.deletion d (List.mem_of_getElem? hd) rfl rfl)
        have h := step_of_next hnext
        rcases hi.kept d.id hused with ⟨row, hrow⟩ | ⟨r, hr, hrid⟩
        · cases h with
          | removed i stuck d' accountId restorePath hd' =>
              obtain rfl := Option.some.inj (hd.symm.trans hd')
              exact World.logged_of_row hrow
          | asked starting he => rcases he with ⟨mount, he⟩ | ⟨mount, he⟩ <;> cases he
          | touched k he => rcases he with he | ⟨mount, he⟩ <;> cases he
        · exact ⟨r, h.removals_subset hr, hrid⟩
  frame _ _ hnext := (step_of_next hnext).files_kept

/-- In every run that keeps the conditions the tick removes nothing but unused mounts. -/
theorem mounts_kept (host : Host) (clock : Time) (files : Disk Name String)
    (h : Reaches (World.next host) (Unhurried host) { clock := clock, files := files } s) :
    MountsKept host s := by
  have hidle : Idle host s :=
    h.invariant (idle_start host clock files) fun _ _ _ hi hok hnext => idle_step hi hok hnext
  exact hidle.mountsKept

/-! ## A run -/

instance (row : Row) (now : Time) : Decidable (row.LongEnded now) :=
  match hm : row.ttlMinutes, hf : row.finishedAt with
  | some m, some f =>
      decidable_of_iff (f + m * 60000000 < now) <| by
        constructor
        · exact fun h => ⟨m, f, hm, hf, h⟩
        · rintro ⟨m', f', hm', hf', h⟩
          rw [hm] at hm'
          rw [hf] at hf'
          obtain rfl := Option.some.inj hm'
          obtain rfl := Option.some.inj hf'
          exact h
  | none, _ => isFalse fun ⟨_, _, h, _⟩ => by rw [hm] at h; cases h
  | _, none => isFalse fun ⟨_, _, _, h, _⟩ => by rw [hf] at h; cases h

/-- The conditions as a check; it takes no touches. -/
def unhurried (host : Host) (s : World) : Event → Bool
  | .delete _ _ | .touch _ | .ensure _ (some _) => false
  | .next => s.tick.all fun t => t.rest.all fun r =>
      (s.rows.get? r.1).all fun row => decide (row.LongEnded t.now)
  | e => orderly host s e

theorem unhurried_of_check (s : World) (e : Event) (h : unhurried host s e = true) :
    Unhurried host s e := by
  cases e with
  | delete | touch => cases h
  | ensure mount existing =>
      cases existing with
      | some id => cases h
      | none => exact ⟨rfl, trivial, trivial⟩
  | next =>
      refine ⟨rfl, trivial, ?_⟩
      rintro t id seen row ⟨htick, loaded, rest, hrest, -⟩ - hrow
      simp only [unhurried, htick, Option.all_some, hrest, List.all_cons, hrow,
        Bool.and_eq_true, decide_eq_true_eq] at h
      exact h.1
  | insert i id madeAt =>
      exact ⟨rfl, (orderly_of_check s (.insert i id madeAt) h).placed, trivial⟩
  | finish k restored => exact ⟨rfl, (orderly_of_check s (.finish k restored) h).placed, trivial⟩
  | pass | disk | create | read | remove | drop | tick => exact ⟨rfl, trivial, trivial⟩

def ephemeral : Mount := { accountId := "a1", snapshotId := "s1", kind := .ephemeral }

/-- A mount is made, thirty-one minutes go by, and the tick removes it. -/
def removedByTick (work : List Event) : List (World → Event) :=
  (Event.ensure ephemeral none :: .insert 0 "r1" 1767225600000000 :: work).map (fun e _ => e) ++
    [fun _ => .pass 1860000000, fun s => .tick s.candidates, fun _ => .next, fun _ => .read 0, fun _ => .remove 0 [],
      fun _ => .drop 0]

/-- Restic takes longer than the `ttl_minutes` of the mount. -/
theorem not_mounts_kept : ¬ ∀ (host : Host) (clock : Time) (files : Disk Name String) (s : World),
    Reaches (World.next host) (fun _ e => e.isRequest = false) { clock := clock, files := files } s →
      MountsKept host s := by
  intro h
  have hrun : (follow (fun _ e => !e.isRequest) (World.next sampleHost)
      (removedByTick []) sampleStart).any (fun s =>
        s.removals.any fun r => r.row.finishedAt.isNone) = true := by
    decide +kernel
  obtain ⟨s, hreach, hend⟩ := Reaches.of_script hrun fun _ e he => by simpa using he
  obtain ⟨r, hr, hnone⟩ := List.any_eq_true.mp hend
  obtain ⟨m, f, -, hf, -⟩ := ((h sampleHost 1767225600000000 .empty s hreach).removals r hr).ended
  rw [hf] at hnone
  cases hnone

/-- The restore ended at once, and the mount goes thirty-one minutes later. -/
theorem removedByTick_kept : ∃ s : World, s.removals.length = 2 ∧
    (s.rows.get? "r1").isNone = true ∧ MountsKept sampleHost s := by
  have hrun : (follow (unhurried sampleHost) (World.next sampleHost)
      (removedByTick [.disk restoredFiles, .finish 0 (some [])]) sampleStart).any (fun s =>
        decide (s.removals.length = 2) && (s.rows.get? "r1").isNone) = true := by
    decide +kernel
  obtain ⟨s, hreach, hend⟩ := Reaches.of_script hrun unhurried_of_check
  obtain ⟨hlength, hgone⟩ := Bool.and_eq_true_iff.mp hend
  exact ⟨s, of_decide_eq_true hlength, hgone,
    mounts_kept sampleHost 1767225600000000 .empty hreach⟩

end MailFallback.Recoveries
