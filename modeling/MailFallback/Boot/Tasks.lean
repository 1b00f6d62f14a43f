import MailFallback.Boot.Semantics
import MailFallback.Library.Transition

/-! # Background tasks

A reindex and a forced resync walk over the users in a thread of their own. A lock is held from
the check for an open task to the commit of the new one; what a task has done so far is kept in
memory. -/

namespace MailFallback.Tasks

open Storage Transition

inductive Work where
  | ftsReindex | forceResync
  deriving DecidableEq, Repr

def Work.taskType : Work → String
  | .ftsReindex => "fts_reindex"
  | .forceResync => "force_resync"

structure Details where
  errors : List String
  usersProcessed : Option ℕ := none
  deriving DecidableEq, Repr

structure TaskRow extends BackgroundTask where
  progressCurrent : ℕ := 0
  progressTotal : ℕ := 0
  details : Option Details := none
  startedAt : Option Time := none
  completedAt : Option Time := none
  deriving DecidableEq, Repr

/-- An entry of `_task_progress`. -/
structure Live where
  total : ℕ
  current : ℕ := 0
  userStatuses : List (String × String) := []
  currentUser : String := ""
  deriving DecidableEq, Repr

/-- Where a user is: before its first call to Dovecot, in it, in the second. -/
inductive Stage where
  | between | called | indexing
  deriving DecidableEq, Repr

inductive Phase where
  | begun | running | loop (stage : Stage) | handling (exc : String)
  /-- Out of the function, or out of its handler with another exception. -/
  | ended | broken
  deriving DecidableEq, Repr

/-- An answer of Dovecot: the error, if there is one. -/
abbrev Answer := Option String

structure Thread where
  taskId : Id
  work : Work
  phase : Phase := .begun
  users : List String := []
  rest : List String := []
  reports : List (String × Answer) := []
  deriving DecidableEq, Repr

/-- The list that becomes `details["errors"]`. -/
def Thread.errors (t : Thread) : List String :=
  t.reports.filterMap fun report => report.2.map fun error => report.1 ++ ": " ++ error

def userStatus (report : String × Answer) : String × String :=
  (report.1, if report.2 = none then "ok" else "error")

structure Board where
  rows : Table Id TaskRow
  live : Id → Option Live := fun _ => none
  /-- The type whose check has found nothing; its thread holds the lock. -/
  starting : Option (Work × Option Id) := none
  threads : List Thread := []

/-! ## The functions -/

/-- The query of `start_task`. -/
def busy (rows : Table Id TaskRow) (taskType : String) : Bool :=
  rows.rows.any fun row => decide (row.2.taskType = taskType) && row.2.status.isOpen

def Board.advance (b : Board) (i : ℕ) (t : Thread) (change : TaskRow → TaskRow)
    (live : Option Live) : Board :=
  { b with
    rows := b.rows.modify t.taskId change
    live := Function.update b.live t.taskId live
    threads := b.threads.set i t }

inductive Move where
  | run (now : Time)
  | list (users : List String)
  | visit
  | answer (error : Answer)
  | finish (now : Time)
  /-- An exception, from anywhere under the `try`. -/
  | raise (exc : String)
  /-- The handler, and how it fails itself. -/
  | record (now : Time)
  | breakDown
  deriving DecidableEq, Repr

/-- The end of an iteration; every fifth commits. -/
def Board.report (b : Board) (i : ℕ) (t : Thread) (user : String) (error : Answer) : Board :=
  let reports := t.reports ++ [(user, error)]
  b.advance i { t with reports := reports, rest := t.rest.tail, phase := .loop .between }
    (fun row =>
      if reports.length % 5 = 0 then { row with progressCurrent := reports.length } else row)
    ((b.live t.taskId).map fun live =>
      { live with
        userStatuses := live.userStatuses ++ [userStatus (user, error)]
        current := reports.length })

/-- `run_fts_reindex` and `run_force_resync`. -/
def Board.move (b : Board) (i : ℕ) (t : Thread) : Move → Option Board
  | .run now =>
      if t.phase = .begun then
        some (if (b.rows.get? t.taskId).isSome = true then
          b.advance i { t with phase := .running }
            (fun row => { row with status := .running, startedAt := some now }) none
        else b.advance i { t with phase := .ended } id none)
      else none
  | .list users =>
      if t.phase = .running then
        some (b.advance i { t with phase := .loop .between, users := users, rest := users }
          (fun row => { row with progressTotal := users.length }) (some { total := users.length }))
      else none
  | .visit =>
      if t.phase = .loop .between ∧ t.rest ≠ [] then
        some (b.advance i { t with phase := .loop .called } id
          ((b.live t.taskId).map fun live => { live with currentUser := t.rest.headD "" }))
      else none
  | .answer error =>
      match t.rest.head? with
      | none => none
      | some user =>
          if t.phase = .loop .called then
            some (if t.work = .ftsReindex ∧ error = none then
              b.advance i { t with phase := .loop .indexing } id (b.live t.taskId)
            else b.report i t user error)
          else if t.phase = .loop .indexing then some (b.report i t user error)
          else none
  | .finish now =>
      if t.phase = .loop .between ∧ t.rest = [] then
        some (b.advance i { t with phase := .ended } (fun row => { row with
          status := if t.errors = [] then .completed else .failed
          progressCurrent := t.reports.length
          completedAt := some now
          details := some ⟨t.errors, some t.users.length⟩ }) none)
      else none
  | .raise exc =>
      match t.phase with
      | .begun | .running | .loop _ =>
          some (b.advance i { t with phase := .handling exc } id (b.live t.taskId))
      | _ => none
  | .record now =>
      match t.phase with
      | .handling exc => some (b.advance i { t with phase := .ended } (fun row => { row with
          status := .failed
          progressCurrent := t.reports.length
          completedAt := some now
          details := some ⟨[exc], none⟩ }) none)
      | _ => none
  | .breakDown =>
      match t.phase with
      | .handling _ => some (b.advance i { t with phase := .broken } id none)
      | _ => none

inductive TaskEvent where
  /-- `submit_fts_reindex` and `submit_force_resync`, up to the check of `start_task`. -/
  | request (work : Work) (requestedBy : Option Id)
  /-- The new row is committed, the lock released and the thread started. -/
  | insert (taskId : Id) (now : Time)
  | insertFails
  | move (i : ℕ) (m : Move)
  deriving DecidableEq, Repr

def Board.next (b : Board) : TaskEvent → Option Board
  | .request work requestedBy =>
      if b.starting.isSome = true then none
      else if busy b.rows work.taskType = true then some b
      else some { b with starting := some (work, requestedBy) }
  | .insert taskId now =>
      match b.starting with
      | none => none
      | some (work, requestedBy) =>
          if h : b.rows.get? taskId = none then
            if taskId ∈ b.threads.map Thread.taskId then none
            else some { b with
              rows := b.rows.add taskId { newTask work.taskType requestedBy now with } h
              starting := none
              threads := b.threads ++ [{ taskId := taskId, work := work }] }
          else none
  | .insertFails => if b.starting.isSome = true then some { b with starting := none } else none
  | .move i m =>
      match b.threads[i]? with
      | none => none
      | some t => b.move i t m

/-- What `get_latest_task` shows of the progress. -/
def shownProgress (row : TaskRow) (live : Option Live) : ℕ × ℕ :=
  match live with
  | none => (row.progressCurrent, row.progressTotal)
  | some live => (live.current, live.total)

/-! ## What a thread and its row have in common -/

/-- The entry in memory is about the users reported so far. -/
def Live.Tells (live : Live) (t : Thread) : Prop :=
  live.total = t.users.length ∧ live.current = t.reports.length ∧
    live.userStatuses = t.reports.map userStatus

/-- What a thread that is through has left: all users in their order and what went wrong with
each, or the exception it was stopped by. -/
def Through (t : Thread) (row : TaskRow) : Prop :=
  (t.reports.map Prod.fst = t.users ∧ row.details = some ⟨t.errors, some t.users.length⟩ ∧
    row.status = (if t.errors = [] then .completed else .failed) ∧
    row.progressCurrent = row.progressTotal) ∨
  (∃ exc, row.details = some ⟨[exc], none⟩) ∧ row.status = .failed

/-- By phase: the status of the row, and the entry in memory. -/
def Phase.Fits (t : Thread) (row : TaskRow) (live : Option Live) : Phase → Prop
  | .begun => row.status = .pending ∧ live = none ∧ t.users = []
  | .running => row.status = .running ∧ live = none ∧ t.users = []
  | .loop _ => row.status = .running ∧ ∃ entry, live = some entry ∧ entry.Tells t
  | .handling _ => row.status.isOpen = true ∧ ∀ entry, live = some entry → entry.Tells t
  | .ended => live = none ∧ Through t row
  | .broken => live = none ∧ row.status.isOpen = true

structure Fits (row : Option TaskRow) (live : Option Live) (t : Thread) : Prop where
  split : t.reports.map Prod.fst ++ t.rest = t.users
  row : ∃ r, row = some r ∧ r.taskType = t.work.taskType ∧ r.progressCurrent ≤ t.reports.length ∧
    r.progressTotal = t.users.length ∧ t.phase.Fits t r live

structure Sound (b : Board) : Prop where
  fits : ∀ t ∈ b.threads, Fits (b.rows.get? t.taskId) (b.live t.taskId) t
  ids : (b.threads.map Thread.taskId).Nodup
  served : ∀ id row, b.rows.get? id = some row → row.status.isOpen = true →
    id ∈ b.threads.map Thread.taskId
  single : ∀ i j r r', b.rows.get? i = some r → b.rows.get? j = some r' →
    r.status.isOpen = true → r'.status.isOpen = true → r.taskType = r'.taskType → i = j
  locked : ∀ work requestedBy, b.starting = some (work, requestedBy) → ∀ id row,
    b.rows.get? id = some row → row.status.isOpen = true → row.taskType ≠ work.taskType
  entries : ∀ id entry, b.live id = some entry → id ∈ b.threads.map Thread.taskId

section Runs

variable {b b' : Board} {e : TaskEvent} {i : ℕ} {t t' : Thread} {row : TaskRow}

theorem mem_set_advance {u : Thread} (hids : (b.threads.map Thread.taskId).Nodup)
    (ht : b.threads[i]? = some t) (hu : u ∈ b.threads.set i t') :
    u = t' ∨ u ∈ b.threads ∧ u.taskId ≠ t.taskId := by
  obtain ⟨j, hj⟩ := List.mem_iff_getElem?.mp hu
  rw [List.getElem?_set] at hj
  split at hj
  · left
    split at hj
    · exact (Option.some.inj hj).symm
    · cases hj
  · rename_i hij
    refine .inr ⟨List.mem_of_getElem? hj, fun hsame => hij ?_⟩
    have hlength : i < (b.threads.map Thread.taskId).length := by
      rw [List.length_map]
      exact (List.getElem?_eq_some_iff.mp ht).1
    exact (List.getElem?_inj hlength hids).mp (by simp [ht, hj, hsame])

theorem map_taskId_set (ht : b.threads[i]? = some t) (hid : t'.taskId = t.taskId) :
    (b.threads.set i t').map Thread.taskId = b.threads.map Thread.taskId := by
  refine List.ext_getElem? fun j => ?_
  rw [List.map_set, List.getElem?_set]
  split
  · rename_i hij
    have hlength : i < (b.threads.map Thread.taskId).length := by
      rw [List.length_map]
      exact (List.getElem?_eq_some_iff.mp ht).1
    rw [if_pos hlength, ← hij, List.getElem?_map, ht, hid]
    rfl
  · rfl

/-- One thread goes on: its row stays closed if it is, and keeps its type. -/
theorem Sound.advance (h : Sound b) (ht : b.threads[i]? = some t) (hid : t'.taskId = t.taskId)
    (hrow : b.rows.get? t.taskId = some row) {change : TaskRow → TaskRow} {live : Option Live}
    (htype : (change row).taskType = row.taskType)
    (hopen : (change row).status.isOpen = true → row.status.isOpen = true)
    (hfits : Fits (some (change row)) live t') : Sound (b.advance i t' change live) := by
  have hmem := List.mem_of_getElem? ht
  have hget : ∀ id r, (b.rows.modify t'.taskId change).get? id = some r →
      ∃ r₀, b.rows.get? id = some r₀ ∧ r.taskType = r₀.taskType ∧
        (r.status.isOpen = true → r₀.status.isOpen = true) := by
    intro id r hr
    rw [Table.get?_modify] at hr
    by_cases hsame : id = t'.taskId
    · rw [if_pos hsame, hsame, hid, hrow] at hr
      obtain rfl := Option.some.inj hr
      exact ⟨row, by rw [hsame, hid, hrow], htype, hopen⟩
    · rw [if_neg hsame] at hr
      exact ⟨r, hr, rfl, fun h => h⟩
  have hsame : (b.advance i t' change live).threads.map Thread.taskId =
      b.threads.map Thread.taskId := map_taskId_set ht hid
  refine ⟨?_, ?_, ?_, ?_, ?_, ?_⟩
  · intro u hu
    obtain rfl | ⟨hold, hne⟩ := mem_set_advance h.ids ht hu
    · simp only [Board.advance, Table.get?_modify_self, Function.update_self, hid, hrow,
        Option.map_some]
      exact hfits
    · simp only [Board.advance, Table.get?_modify_of_ne _ _ (hid ▸ hne),
        Function.update_of_ne (hid ▸ hne)]
      exact h.fits u hold
  · exact hsame ▸ h.ids
  · intro id r hr hropen
    obtain ⟨r₀, hr₀, _, hopen₀⟩ := hget id r hr
    exact hsame ▸ h.served id r₀ hr₀ (hopen₀ hropen)
  · intro j k r r' hr hr' hro hro' htypes
    obtain ⟨r₀, hr₀, htype₀, hopen₀⟩ := hget j r hr
    obtain ⟨r₁, hr₁, htype₁, hopen₁⟩ := hget k r' hr'
    exact h.single j k r₀ r₁ hr₀ hr₁ (hopen₀ hro) (hopen₁ hro') (htype₀ ▸ htype₁ ▸ htypes)
  · intro work requestedBy hstarting id r hr hropen
    obtain ⟨r₀, hr₀, htype₀, hopen₀⟩ := hget id r hr
    exact htype₀ ▸ h.locked work requestedBy hstarting id r₀ hr₀ (hopen₀ hropen)
  · intro id entry hentry
    rw [hsame]
    simp only [Board.advance] at hentry
    by_cases hown : id = t'.taskId
    · exact hown ▸ hid ▸ List.mem_map_of_mem hmem
    · rw [Function.update_of_ne hown] at hentry
      exact h.entries id entry hentry

theorem Sound.report (h : Sound b) (ht : b.threads[i]? = some t) {user : String}
    {rest : List String} (hrest : t.rest = user :: rest) {stage : Stage} (hphase : t.phase = .loop stage)
    (error : Answer) : Sound (b.report i t user error) := by
  obtain ⟨hsplit, r, hrow, htype, hcurrent, htotal, hfits⟩ := h.fits t (List.mem_of_getElem? ht)
  rw [hphase] at hfits
  obtain ⟨hstatus, entry, hlive, hentryTotal, _, hstatuses⟩ := hfits
  unfold Board.report
  refine h.advance ht ?_ hrow ?_ ?_ ⟨?_, _, rfl, ?_, ?_, ?_, ?_, ?_⟩
  · rfl
  · split <;> rfl
  · exact fun _ => by rw [hstatus]; rfl
  · rw [← hsplit, hrest]
    simp
  · split <;> exact htype
  · rw [List.length_append]
    split
    · exact le_rfl
    · exact hcurrent.trans (Nat.le_add_right ..)
  · split <;> exact htotal
  · split <;> exact hstatus
  · rw [hlive]
    exact ⟨_, rfl, hentryTotal, rfl, by simp [hstatuses]⟩

theorem Sound.move (h : Sound b) (ht : b.threads[i]? = some t) {m : Move}
    (hnext : b.move i t m = some b') : Sound b' := by
  obtain ⟨hsplit, r, hrow, htype, hcurrent, htotal, hfits⟩ := h.fits t (List.mem_of_getElem? ht)
  cases m with
  | run now =>
      obtain ⟨hphase, hnext⟩ := Option.ite_none_right_eq_some.mp hnext
      rw [hphase] at hfits
      obtain ⟨hstatus, hlive, husers⟩ := hfits
      rw [if_pos (by rw [hrow]; rfl)] at hnext
      obtain rfl := Option.some.inj hnext
      refine h.advance ht ?_ hrow ?_ ?_ ⟨hsplit, _, rfl, ?_, hcurrent, htotal, rfl, rfl, husers⟩
      · rfl
      · rfl
      · exact fun _ => by rw [hstatus]; rfl
      · exact htype
  | list users =>
      obtain ⟨hphase, hnext⟩ := Option.ite_none_right_eq_some.mp hnext
      rw [hphase] at hfits
      obtain ⟨hstatus, hlive, husers⟩ := hfits
      rw [husers, List.append_eq_nil_iff, List.map_eq_nil_iff] at hsplit
      obtain rfl := Option.some.inj hnext
      refine h.advance ht ?_ hrow ?_ ?_ ⟨?_, _, rfl, ?_, hcurrent, rfl, hstatus, _, rfl, ?_⟩
      · rfl
      · rfl
      · exact id
      · simp [hsplit.1]
      · exact htype
      · simp [Live.Tells, hsplit.1]
  | visit =>
      obtain ⟨⟨hphase, _⟩, hnext⟩ := Option.ite_none_right_eq_some.mp hnext
      rw [hphase] at hfits
      obtain ⟨hstatus, entry, hlive, htold⟩ := hfits
      obtain rfl := Option.some.inj hnext
      refine h.advance ht ?_ hrow ?_ ?_ ⟨hsplit, _, rfl, htype, hcurrent, htotal, hstatus, ?_⟩
      · rfl
      · rfl
      · exact id
      · rw [hlive]
        exact ⟨_, rfl, htold⟩
  | answer error =>
      simp only [Board.move] at hnext
      cases hhead : t.rest.head? with
      | none =>
          rw [hhead] at hnext
          cases hnext
      | some user =>
          rw [hhead] at hnext
          dsimp only at hnext
          obtain ⟨rest, hrest⟩ := List.head?_eq_some_iff.mp hhead
          by_cases hcalled : t.phase = .loop .called
          · rw [if_pos hcalled] at hnext
            obtain rfl := Option.some.inj hnext
            split
            · rw [hcalled] at hfits
              refine h.advance ht ?_ hrow ?_ ?_ ⟨hsplit, _, rfl, htype, hcurrent, htotal, hfits⟩
              · rfl
              · rfl
              · exact id
            · exact h.report ht hrest hcalled error
          · rw [if_neg hcalled] at hnext
            obtain ⟨hphase, hnext⟩ := Option.ite_none_right_eq_some.mp hnext
            obtain rfl := Option.some.inj hnext
            exact h.report ht hrest hphase error
  | finish now =>
      obtain ⟨⟨hphase, hrest⟩, hnext⟩ := Option.ite_none_right_eq_some.mp hnext
      rw [hphase] at hfits
      obtain ⟨hstatus, _⟩ := hfits
      obtain rfl := Option.some.inj hnext
      have hall : t.reports.map Prod.fst = t.users := by rw [← hsplit, hrest, List.append_nil]
      have hlength : t.reports.length = t.users.length := by rw [← hall, List.length_map]
      refine h.advance ht ?_ hrow ?_ ?_ ⟨hsplit, _, rfl, htype, le_rfl, htotal, rfl, .inl
        ⟨hall, rfl, rfl, hlength.trans htotal.symm⟩⟩
      · rfl
      · rfl
      · exact fun _ => by rw [hstatus]; rfl
  | raise exc =>
      have hraised : ∀ b'', some (b.advance i { t with phase := .handling exc } id
          (b.live t.taskId)) = some b'' → r.status.isOpen = true →
          (∀ entry, b.live t.taskId = some entry → entry.Tells t) → Sound b'' := by
        rintro _ ⟨rfl⟩ hopen htold
        refine h.advance ht ?_ hrow ?_ ?_ ⟨hsplit, _, rfl, htype, hcurrent, htotal, hopen, htold⟩
        · rfl
        · rfl
        · exact fun h => h
      simp only [Board.move] at hnext
      cases hphase : t.phase with
      | begun =>
          rw [hphase] at hnext hfits
          exact hraised b' hnext (by rw [hfits.1]; rfl) (by simp [hfits.2.1])
      | running =>
          rw [hphase] at hnext hfits
          exact hraised b' hnext (by rw [hfits.1]; rfl) (by simp [hfits.2.1])
      | loop stage =>
          rw [hphase] at hnext hfits
          obtain ⟨hstatus, entry, hlive, htold⟩ := hfits
          refine hraised b' hnext (by rw [hstatus]; rfl) ?_
          intro entry' hentry'
          obtain rfl := Option.some.inj (hlive.symm.trans hentry')
          exact htold
      | handling exc' =>
          rw [hphase] at hnext
          cases hnext
      | ended =>
          rw [hphase] at hnext
          cases hnext
      | broken =>
          rw [hphase] at hnext
          cases hnext
  | record now =>
      simp only [Board.move] at hnext
      split at hnext
      · rename_i exc hphase
        rw [hphase] at hfits
        obtain rfl := Option.some.inj hnext
        refine h.advance ht ?_ hrow ?_ ?_ ⟨hsplit, _, rfl, htype, le_rfl, htotal, rfl, .inr
          ⟨⟨exc, rfl⟩, rfl⟩⟩
        · rfl
        · rfl
        · exact fun _ => hfits.1
      · cases hnext
  | breakDown =>
      simp only [Board.move] at hnext
      split at hnext
      · rename_i exc hphase
        rw [hphase] at hfits
        obtain rfl := Option.some.inj hnext
        refine h.advance ht ?_ hrow ?_ ?_ ⟨hsplit, _, rfl, htype, hcurrent, htotal, rfl, hfits.1⟩
        · rfl
        · rfl
        · exact id
      · cases hnext

theorem busy_eq_false {rows : Table Id TaskRow} {taskType : String} (h : busy rows taskType = false)
    {id : Id} (hrow : rows.get? id = some row) (hopen : row.status.isOpen = true) :
    row.taskType ≠ taskType := by
  rintro rfl
  have hnone := List.any_eq_false.mp h (id, row) (Table.mem_rows.mpr hrow)
  simp [hopen] at hnone

theorem Sound.insert (h : Sound b) {taskId : Id} {now : Time}
    (hnext : b.next (.insert taskId now) = some b') : Sound b' := by
  simp only [Board.next] at hnext
  cases hstarting : b.starting with
  | none =>
      rw [hstarting] at hnext
      cases hnext
  | some start =>
      obtain ⟨work, requestedBy⟩ := start
      rw [hstarting] at hnext
      obtain ⟨hfree, hnext⟩ := Option.dite_none_right_eq_some.mp hnext
      obtain ⟨hunused, hnext⟩ := Option.ite_none_left_eq_some.mp hnext
      obtain rfl := Option.some.inj hnext
      have hlive : b.live taskId = none := by
        by_contra hsome
        obtain ⟨entry, hentry⟩ := Option.ne_none_iff_exists'.mp hsome
        exact hunused (h.entries taskId entry hentry)
      have hold : ∀ {id r}, id ≠ taskId → ((b.rows.add taskId
          { newTask work.taskType requestedBy now with } hfree).get? id = some r ↔
            b.rows.get? id = some r) := fun hne => by rw [Table.get?_add, if_neg hne]
      have hnew : ∀ {r}, (b.rows.add taskId
          { newTask work.taskType requestedBy now with } hfree).get? taskId = some r →
            r.taskType = work.taskType := by
        intro r hr
        rw [Table.get?_add, if_pos rfl] at hr
        obtain rfl := Option.some.inj hr
        rfl
      refine ⟨?_, ?_, ?_, ?_, nofun, ?_⟩
      · intro t ht
        obtain ht | ht := List.mem_append.mp ht
        · have hne : t.taskId ≠ taskId := fun heq => hunused (heq ▸ List.mem_map_of_mem ht)
          simp only [Table.get?_add, if_neg hne]
          exact h.fits t ht
        · obtain rfl := List.mem_singleton.mp ht
          simp only [Table.get?_add, if_true, hlive]
          exact ⟨rfl, _, rfl, rfl, le_rfl, rfl, rfl, rfl, rfl⟩
      · rw [List.map_append, List.nodup_append]
        refine ⟨h.ids, List.nodup_singleton _, ?_⟩
        intro id hid id' hid' heq
        obtain rfl := List.mem_singleton.mp hid'
        exact hunused (heq ▸ hid)
      · intro id r hr hopen
        rw [List.map_append, List.mem_append]
        by_cases hid : id = taskId
        · exact .inr (by simp [hid])
        · exact .inl (h.served id r ((hold hid).mp hr) hopen)
      · intro i j r r' hr hr' hopen hopen' htypes
        by_cases hi : i = taskId
        · by_cases hj : j = taskId
          · rw [hi, hj]
          · rw [hi] at hr
            exact absurd (htypes ▸ hnew hr)
              (h.locked work requestedBy hstarting j r' ((hold hj).mp hr') hopen')
        · by_cases hj : j = taskId
          · rw [hj] at hr'
            exact absurd (htypes.symm ▸ hnew hr')
              (h.locked work requestedBy hstarting i r ((hold hi).mp hr) hopen)
          · exact h.single i j r r' ((hold hi).mp hr) ((hold hj).mp hr') hopen hopen' htypes
      · intro id entry hentry
        rw [List.map_append, List.mem_append]
        exact .inl (h.entries id entry hentry)

theorem Sound.next (h : Sound b) (hnext : b.next e = some b') : Sound b' := by
  cases e with
  | request work requestedBy =>
      obtain ⟨_, hnext⟩ := Option.ite_none_left_eq_some.mp hnext
      by_cases hbusy : busy b.rows work.taskType = true
      · rw [if_pos hbusy] at hnext
        obtain rfl := Option.some.inj hnext
        exact h
      · rw [if_neg hbusy] at hnext
        obtain rfl := Option.some.inj hnext
        refine ⟨h.fits, h.ids, h.served, h.single, ?_, h.entries⟩
        rintro work' requestedBy' hstarting id row hrow hopen
        cases hstarting
        exact busy_eq_false (Bool.eq_false_iff.mpr hbusy) hrow hopen
  | insert taskId now => exact h.insert hnext
  | insertFails =>
      obtain ⟨_, hnext⟩ := Option.ite_none_right_eq_some.mp hnext
      obtain rfl := Option.some.inj hnext
      exact ⟨h.fits, h.ids, h.served, h.single, nofun, h.entries⟩
  | move i m =>
      simp only [Board.next] at hnext
      cases ht : b.threads[i]? with
      | none =>
          rw [ht] at hnext
          cases hnext
      | some t =>
          rw [ht] at hnext
          exact h.move ht hnext

theorem Through.closed (h : Through t row) : row.status.isOpen = false := by
  obtain ⟨_, _, hstatus, _⟩ | ⟨_, hstatus⟩ := h
  · rw [hstatus]
    split <;> rfl
  · rw [hstatus]
    rfl

theorem Phase.Fits.tells {phase : Phase} {live : Option Live} (h : phase.Fits t row live)
    {entry : Live} (hlive : live = some entry) : entry.Tells t := by
  subst hlive
  cases phase with
  | begun => exact absurd h.2.1 nofun
  | running => exact absurd h.2.1 nofun
  | loop stage =>
      obtain ⟨_, entry', hsame, htold⟩ := h
      exact Option.some.inj hsame ▸ htold
  | handling exc => exact h.2 entry rfl
  | ended => exact absurd h.1 nofun
  | broken => exact absurd h.1 nofun

/-- No task is open when the server starts. -/
def Board.Idle (b : Board) : Prop :=
  (∀ id row, b.rows.get? id = some row → row.status.isOpen = false) ∧ b.live = (fun _ => none) ∧
    b.starting = none ∧ b.threads = []

theorem Board.Idle.sound (h : b.Idle) : Sound b := by
  obtain ⟨hclosed, hlive, hstarting, hthreads⟩ := h
  refine ⟨by simp [hthreads], by simp [hthreads], ?_, ?_, by simp [hstarting], by simp [hlive]⟩
  · intro id row hrow hopen
    exact absurd hopen (by simp [hclosed id row hrow])
  · intro i j r r' hr _ hopen
    exact absurd hopen (by simp [hclosed i r hr])

end Runs

/-! ## A reindex of two users -/

def idleBoard : Board := { rows := .empty }

/-- The second user fails in the second call. -/
def reindexEvents : List TaskEvent :=
  [.request .ftsReindex none, .insert "t1" 0, .request .ftsReindex none, .move 0 (.run 1),
    .move 0 (.list ["ann", "bob"]), .move 0 .visit, .move 0 (.answer none), .move 0 (.answer none),
    .move 0 .visit, .move 0 (.answer none), .move 0 (.answer (some "timeout")),
    .move 0 (.finish 2)]

def failedWithTimeout (b : Board) : Bool :=
  (b.rows.get? "t1").any fun row => decide (row.status = .failed ∧
    row.details = some ⟨["bob: timeout"], some 2⟩) && b.threads.all fun t => t.phase = .ended

end MailFallback.Tasks
