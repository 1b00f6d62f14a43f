import MailFallback.Recoveries.Semantics

/-! # What one step can do

The world behind a step, by cases, and the rows and deletions in it. -/

namespace MailFallback.Recoveries

open Storage Posix

variable {host : Host} {s s' : World} {e : Event} {id : Id} {row row' : Row} {d d' : Deletion}

namespace World

/-- The worker has found that maildir, or the restore failed. -/
def maildirRoot (host : Host) (s : World) (r : Restore) (restored : Option Walk) : Option String :=
  restored.bind fun dirs =>
    resolveMaildirInsideRestore (isdir s.files host.cwd)
      (dirs.map fun d => (walked r.restoreRoot d.1, d.2)) r.restoreRoot r.maildirPath r.repoPrefix

/-- The deletion of a row has begun. -/
def marked (s : World) (id : Id) (byTick : Bool) (row : Row) : World :=
  { s with
    rows := s.rows.modify id fun row => { row with status := .deleting }
    deletions := s.deletions ++ [{ id := id, byTick := byTick, origin := row.origin }] }

end World

inductive Step (host : Host) (s : World) : Event → World → Prop where
  | passed (span : ℕ) : Step host s (.pass span) { s with clock := s.clock + span }
  | written (files : Disk Name String) : Step host s (.disk files) { s with files := files }
  | asked {e : Event} (starting : List Start)
      (he : (∃ mount, e = .create mount) ∨ ∃ mount, e = .ensure mount none) :
      Step host s e { s with starting := starting }
  | inserted (i : ℕ) (id : Id) (madeAt : Time) (start : Start) (place : Place)
      (hstart : s.starting[i]? = some start)
      (hplace : host.accounts.get? start.mount.accountId = some place) (hmade : madeAt ≤ s.clock)
      (hfresh : id ∉ s.used) :
      Step host s (.insert i id madeAt)
        { s with
          rows := s.rows.set id
            (s.newRow start.mount ⟨place.storePath, start.mount.accountId, madeAt⟩)
          used := id :: s.used
          starting := s.starting.eraseIdx i
          restoring := s.restoring ++
            [⟨id, start.mount.accountId,
              Origin.root ⟨place.storePath, start.mount.accountId, madeAt⟩, place.maildirPath,
              start.mount.sourcePrefix⟩] }
  | finished (k : ℕ) (restored : Option Walk) (r : Restore) (hr : s.restoring[k]? = some r) :
      Step host s (.finish k restored)
        { s with
          restoring := s.restoring.eraseIdx k
          rows := s.rows.modify r.id fun row => row.ended (s.maildirRoot host r restored) s.clock }
  | touched {e : Event} (id : Id) (he : e = .touch id ∨ ∃ mount, e = .ensure mount (some id)) :
      Step host s e (s.touchMount id)
  | requested (id : Id) (accountId : Option Id) (row : Row) (hrow : s.rows.get? id = some row) :
      Step host s (.delete id accountId) (s.marked id false row)
  | read (i : ℕ) (d : Deletion) (row : Row) (hd : s.deletions[i]? = some d)
      (hphase : d.phase = .marked) (hrow : s.rows.get? d.id = some row) :
      Step host s (.read i)
        { s with
          deletions := s.deletions.set i { d with phase := .found row.accountId row.restorePath } }
  | abandoned (i : ℕ) (d : Deletion) (hd : s.deletions[i]? = some d) :
      Step host s (.read i)
        { s with
          deletions := s.deletions.eraseIdx i
          tick := if d.byTick = true then none else s.tick }
  | removed (i : ℕ) (stuck : List Path) (d : Deletion) (accountId : Id) (restorePath : String)
      (hd : s.deletions[i]? = some d) (hphase : d.phase = .found accountId restorePath) :
      Step host s (.remove i stuck)
        { s with
          files := rmtree s.files host.cwd (deleteTarget accountId restorePath) (stuck.contains ·)
          deletions := s.deletions.set i { d with phase := .removed }
          removals := s.logged d.id }
  | dropped (i : ℕ) (d : Deletion) (hd : s.deletions[i]? = some d) (hphase : d.phase = .removed) :
      Step host s (.drop i)
        { s with
          rows := s.rows.filter fun id _ => decide (id ≠ d.id)
          deletions := s.deletions.eraseIdx i
          removals := s.logged d.id }
  | began (found : List (Id × Row)) (htick : s.tick = none) (hfound : found.Perm s.candidates) :
      Step host s (.tick found) { s with tick := some { now := s.clock, rest := found } }
  | ended (t : Tick) (htick : s.tick = some t) : Step host s .next { s with tick := none }
  | spared (t : Tick) (htick : s.tick = some t) (r : Id × Row) (rest : List (Id × Row))
      (hrest : t.rest = r :: rest) :
      Step host s .next { s with tick := some { t with rest := rest } }
  | expired (t : Tick) (htick : s.tick = some t) (id : Id) (loaded seen : Row)
      (rest : List (Id × Row)) (hrest : t.rest = (id, loaded) :: rest)
      (hfree : s.deletions.any (·.byTick) = false)
      (hseen : (if t.expired = true then s.rows.get? id else some loaded) = some seen)
      (hidle : seen.idle t.now = true) (row : Row) (hrow : s.rows.get? id = some row) :
      Step host s .next
        { s.marked id true row with tick := some { t with rest := rest, expired := true } }

namespace World

theorem createRecovery_step {mount : Mount}
    (he : (∃ mount, e = .create mount) ∨ ∃ mount, e = .ensure mount none)
    (h : s.createRecovery host mount = some s') : Step host s e s' := by
  obtain ⟨place, -, h⟩ := Option.bind_eq_some_iff.mp h
  obtain ⟨-, h⟩ := Option.ite_none_right_eq_some.mp h
  obtain rfl := Option.some.inj h
  exact .asked _ he

theorem ensureMounted_step {mount : Mount} {existing : Option Id}
    (h : s.ensureMounted host mount existing = some s') :
    Step host s (.ensure mount existing) s' := by
  cases existing with
  | none =>
      obtain ⟨-, h⟩ := Option.ite_none_left_eq_some.mp h
      exact createRecovery_step (.inr ⟨mount, rfl⟩) h
  | some id =>
      obtain ⟨-, h⟩ := Option.ite_none_right_eq_some.mp h
      obtain rfl := Option.some.inj h
      exact .touched id (.inr ⟨mount, rfl⟩)

theorem insertRow_step {i : ℕ} {madeAt : Time} (h : s.insertRow host i id madeAt = some s') :
    Step host s (.insert i id madeAt) s' := by
  obtain ⟨start, hstart, h⟩ := Option.bind_eq_some_iff.mp h
  obtain ⟨place, hplace, h⟩ := Option.bind_eq_some_iff.mp h
  obtain ⟨⟨-, hmade, hfresh⟩, h⟩ := Option.ite_none_right_eq_some.mp h
  obtain rfl := Option.some.inj h
  exact .inserted i id madeAt start place hstart hplace hmade hfresh

theorem deleteRecovery_eq {accountId : Option Id} {byTick : Bool}
    (h : s.deleteRecovery id accountId byTick = some s') :
    ∃ row, s.rows.get? id = some row ∧ s' = s.marked id byTick row := by
  obtain ⟨row, hrow, h⟩ := Option.bind_eq_some_iff.mp h
  obtain ⟨-, h⟩ := Option.ite_none_right_eq_some.mp h
  exact ⟨row, hrow, (Option.some.inj h).symm⟩

theorem readPath_step {i : ℕ} (h : s.readPath i = some s') : Step host s (.read i) s' := by
  obtain ⟨d, hd, h⟩ := Option.bind_eq_some_iff.mp h
  obtain ⟨hphase, h⟩ := Option.ite_none_right_eq_some.mp h
  split at h
  · rename_i row hrow
    obtain rfl := Option.some.inj h
    exact .read i d row hd hphase hrow
  · obtain rfl := Option.some.inj h
    exact .abandoned i d hd

theorem removeTree_step {i : ℕ} {stuck : List Path} (h : s.removeTree host i stuck = some s') :
    Step host s (.remove i stuck) s' := by
  obtain ⟨d, hd, h⟩ := Option.bind_eq_some_iff.mp h
  split at h
  · rename_i accountId restorePath hphase
    obtain rfl := Option.some.inj h
    exact .removed i stuck d accountId restorePath hd hphase
  · cases h

theorem dropRow_step {i : ℕ} (h : s.dropRow i = some s') : Step host s (.drop i) s' := by
  obtain ⟨d, hd, h⟩ := Option.bind_eq_some_iff.mp h
  obtain ⟨hphase, h⟩ := Option.ite_none_right_eq_some.mp h
  obtain rfl := Option.some.inj h
  exact .dropped i d hd hphase

theorem nextCandidate_step {t : Tick} (htick : s.tick = some t)
    (hfree : s.deletions.any (·.byTick) = false) (h : s.nextCandidate t = some s') :
    Step host s .next s' := by
  unfold nextCandidate at h
  split at h
  · obtain rfl := Option.some.inj h
    exact .ended t htick
  · rename_i id loaded rest hrest
    split at h
    · obtain rfl := Option.some.inj h
      exact .ended t htick
    · rename_i seen hseen
      split at h
      · rename_i hidle
        split at h
        · rename_i s'' hdelete
          obtain ⟨row, hrow, rfl⟩ := deleteRecovery_eq hdelete
          obtain rfl := Option.some.inj h
          exact .expired t htick id loaded seen rest hrest hfree hseen hidle row hrow
        · obtain rfl := Option.some.inj h
          exact .spared t htick _ rest hrest
      · obtain rfl := Option.some.inj h
        exact .spared t htick _ rest hrest

end World

/-- What the source does is one of these steps. -/
theorem step_of_next (h : World.next host s e = some s') : Step host s e s' := by
  cases e with
  | pass span =>
      obtain rfl := Option.some.inj h
      exact .passed span
  | disk files =>
      obtain rfl := Option.some.inj h
      exact .written files
  | create mount => exact World.createRecovery_step (.inl ⟨mount, rfl⟩) h
  | ensure mount existing => exact World.ensureMounted_step h
  | insert i id madeAt => exact World.insertRow_step h
  | finish k restored =>
      obtain ⟨r, hr, h⟩ := Option.bind_eq_some_iff.mp h
      obtain rfl := Option.some.inj h
      exact .finished k restored r hr
  | touch id =>
      obtain rfl := Option.some.inj h
      exact .touched id (.inl rfl)
  | delete id accountId =>
      obtain ⟨row, hrow, rfl⟩ := World.deleteRecovery_eq h
      exact .requested id accountId row hrow
  | read i => exact World.readPath_step h
  | remove i stuck => exact World.removeTree_step h
  | drop i => exact World.dropRow_step h
  | tick found =>
      obtain ⟨⟨htick, hfound⟩, h⟩ := Option.ite_none_right_eq_some.mp h
      obtain rfl := Option.some.inj h
      exact .began found (Option.isNone_iff_eq_none.mp htick) hfound
  | next =>
      obtain ⟨t, htick, h⟩ := Option.bind_eq_some_iff.mp h
      split at h
      · cases h
      · rename_i hfree
        exact World.nextCandidate_step htick (Bool.eq_false_iff.mpr hfree) h

/-! ## The rows -/

/-- A step that leaves the row there. -/
inductive RowStep (host : Host) (s : World) (e : Event) (id : Id) (row : Row) : Row → Prop where
  | same : RowStep host s e id row row
  | touched (h : e = .touch id ∨ ∃ mount, e = .ensure mount (some id)) :
      RowStep host s e id row { row with lastAccessedAt := s.clock }
  | marked (h : e = .next ∨ ∃ accountId, e = .delete id accountId) :
      RowStep host s e id row { row with status := .deleting }
  | ended (k : ℕ) (restored : Option Walk) (r : Restore) (h : e = .finish k restored)
      (hr : s.restoring[k]? = some r) (hid : r.id = id) :
      RowStep host s e id row (row.ended (s.maildirRoot host r restored) s.clock)

/-- A row that was inserted. -/
structure Inserted (host : Host) (s : World) (e : Event) (id : Id) (row : Row) : Prop where
  event : ∃ i start place, e = .insert i id row.origin.madeAt ∧ s.starting[i]? = some start ∧
    host.accounts.get? start.mount.accountId = some place ∧
    row.origin = ⟨place.storePath, start.mount.accountId, row.origin.madeAt⟩
  fresh : id ∉ s.used
  account : row.accountId = row.origin.accountId
  path : row.restorePath = row.origin.root
  unfinished : row.finishedAt = none

theorem get?_modify_some {rows : Table Id Row} {k : Id} {f : Row → Row}
    (h : (rows.modify k f).get? id = some row') :
    ∃ row, rows.get? id = some row ∧ (id = k ∧ row' = f row ∨ row' = row) := by
  rw [Table.get?_modify] at h
  split at h
  · rename_i hk
    obtain ⟨row, hrow, rfl⟩ := Option.map_eq_some_iff.mp h
    exact ⟨row, hrow, .inl ⟨hk, rfl⟩⟩
  · exact ⟨row', h, .inr rfl⟩

/-- A row behind a step is the row before it, or it was inserted. -/
theorem Step.rowStep (h : Step host s e s') (hrow : s'.rows.get? id = some row') :
    (∃ row, s.rows.get? id = some row ∧ RowStep host s e id row row') ∨
      Inserted host s e id row' := by
  have hsame : s.rows.get? id = some row' →
      (∃ row, s.rows.get? id = some row ∧ RowStep host s e id row row') ∨
        Inserted host s e id row' := fun hrow => .inl ⟨row', hrow, .same⟩
  cases h with
  | inserted i k madeAt start place hstart hplace hmade hfresh =>
      rw [Table.get?_set] at hrow
      split at hrow
      · rename_i hk
        subst hk
        obtain rfl := Option.some.inj hrow
        exact .inr ⟨⟨i, start, place, rfl, hstart, hplace, rfl⟩, hfresh, rfl, rfl, rfl⟩
      · exact hsame hrow
  | finished k restored r hr =>
      obtain ⟨row, hold, ⟨rfl, rfl⟩ | rfl⟩ := get?_modify_some hrow
      · exact .inl ⟨row, hold, .ended k restored r rfl hr rfl⟩
      · exact hsame hold
  | touched k he =>
      obtain ⟨row, hold, ⟨rfl, rfl⟩ | rfl⟩ := get?_modify_some hrow
      · exact .inl ⟨row, hold, .touched he⟩
      · exact hsame hold
  | requested k accountId =>
      obtain ⟨row, hold, ⟨rfl, rfl⟩ | rfl⟩ := get?_modify_some hrow
      · exact .inl ⟨row, hold, .marked (.inr ⟨accountId, rfl⟩)⟩
      · exact hsame hold
  | dropped i d hd hphase =>
      rw [Table.get?_filter] at hrow
      obtain ⟨hold, -⟩ := Option.filter_eq_some_iff.mp hrow
      exact hsame hold
  | expired =>
      obtain ⟨row, hold, ⟨rfl, rfl⟩ | rfl⟩ := get?_modify_some hrow
      · exact .inl ⟨row, hold, .marked (.inl rfl)⟩
      · exact hsame hold
  | passed | written | asked | read | abandoned | removed | began | ended | spared =>
      exact hsame hrow

/-- A row goes only when it is dropped. -/
theorem Step.row_kept (h : Step host s e s') (hrow : s.rows.get? id = some row) :
    (∃ row', s'.rows.get? id = some row') ∨
      ∃ i d, e = .drop i ∧ s.deletions[i]? = some d ∧ d.id = id ∧ d.phase = .removed := by
  have hmodify : ∀ (k : Id) (f : Row → Row), ∃ row', (s.rows.modify k f).get? id = some row' := by
    intro k f
    rw [Table.get?_modify]
    split
    · exact ⟨f row, by rw [hrow]; rfl⟩
    · exact ⟨row, hrow⟩
  cases h with
  | inserted i k madeAt start place hstart hplace hmade hfresh =>
      left
      rw [Table.get?_set]
      split
      · exact ⟨_, rfl⟩
      · exact ⟨row, hrow⟩
  | finished | touched | requested | expired => exact .inl (hmodify _ _)
  | dropped i d hd hphase =>
      by_cases hid : d.id = id
      · exact .inr ⟨i, d, rfl, hd, hid, hphase⟩
      · left
        rw [Table.get?_filter, hrow]
        exact ⟨row, by simp [Option.filter, Ne.symm hid]⟩
  | passed | written | asked | read | abandoned | removed | began | ended | spared =>
      exact .inl ⟨row, hrow⟩

/-! ## The deletions -/

inductive DeletionStep (s : World) (e : Event) : Deletion → Prop where
  | old (d : Deletion) (h : d ∈ s.deletions) : DeletionStep s e d
  | started (id : Id) (row : Row) (byTick : Bool) (hrow : s.rows.get? id = some row)
      (h : if byTick = true then e = .next else ∃ accountId, e = .delete id accountId) :
      DeletionStep s e { id := id, byTick := byTick, origin := row.origin }
  | found (d : Deletion) (row : Row) (h : d ∈ s.deletions) (hrow : s.rows.get? d.id = some row) :
      DeletionStep s e { d with phase := .found row.accountId row.restorePath }
  | removed (d : Deletion) (h : d ∈ s.deletions) : DeletionStep s e { d with phase := .removed }

theorem Step.deletionStep (h : Step host s e s') (hd : d ∈ s'.deletions) : DeletionStep s e d := by
  cases h with
  | requested id accountId row hrow =>
      rcases List.mem_append.mp hd with hd | hd
      · exact .old d hd
      · obtain rfl := List.mem_singleton.mp hd
        exact .started id row false hrow ⟨accountId, rfl⟩
  | expired t htick id loaded seen rest hrest hfree hseen hidle row hrow =>
      rcases List.mem_append.mp hd with hd | hd
      · exact .old d hd
      · obtain rfl := List.mem_singleton.mp hd
        exact .started id row true hrow rfl
  | read i d₀ row hd₀ hphase hrow =>
      rcases List.mem_or_eq_of_mem_set hd with hd | rfl
      · exact .old d hd
      · exact .found d₀ row (List.mem_of_getElem? hd₀) hrow
  | removed i stuck d₀ accountId restorePath hd₀ hphase =>
      rcases List.mem_or_eq_of_mem_set hd with hd | rfl
      · exact .old d hd
      · exact .removed d₀ (List.mem_of_getElem? hd₀)
  | abandoned | dropped => exact .old d (List.mem_of_mem_eraseIdx hd)
  | passed | written | asked | inserted | finished | touched | began | ended | spared =>
      exact .old d hd

end MailFallback.Recoveries
