import MailFallback.Sync.Stages

/-! # The database session of a sync worker

What the pending assignments of a worker make of the rows, and which replies the committed
rows allow. -/

namespace MailFallback

open Storage Effects

/-- The rows as a commit would leave them. -/
def pending (jobId : Id) (staged : List (Id × Write)) (db : Db) : Db :=
  staged.foldl (fun db p => p.2.apply jobId p.1 db) db

def jobAfter (staged : List (Id × Write)) (job : SyncJob) : SyncJob :=
  staged.foldl (fun job p => p.2.job job) job

def accountAfter (staged : List (Id × Write)) (account : Account) : Account :=
  staged.foldl (fun account p => p.2.account account) account

/-- How many jobs of the account were requested later. -/
def newerJobs (db : Db) (job : SyncJob) : ℕ :=
  (db.syncJobs.rows.filter fun row =>
    decide (row.2.accountId = job.accountId) && decide (job.requestedAt < row.2.requestedAt)).length

/-- `cleanup_old_jobs`; of jobs requested in the same microsecond none is taken for older. -/
def cleanupOldJobs (keep : ℕ) (accountId : Id) (db : Db) : Db :=
  { db with syncJobs := db.syncJobs.filter fun _ job =>
      decide (job.accountId ≠ accountId) || decide (newerJobs db job < keep) }

/-- The committed rows after an operation of the session; `none` when they do not allow the
reply. -/
def session (jobId : Id) (l : Local) (db : Db) :
    (o : SyncOp) → Except SyncExc (SyncAns o) → Option Db
  | .view, .ok (read : Db) => if read = pending jobId l.staged db then some db else none
  | .commit, .ok _ => some (pending jobId l.staged db)
  | .reloadAccount accountId, .ok (account : Account) =>
      if (pending jobId l.staged db).accounts.get? accountId = some account then some db else none
  | .refreshJob, .ok (job : SyncJob) =>
      if (pending jobId l.staged db).syncJobs.get? jobId = some job then some db else none
  | .refreshJob, .error _ =>
      if ((pending jobId l.staged db).syncJobs.get? jobId).isNone then some db else none
  | .cleanupOldJobs accountId, .ok _ => some (cleanupOldJobs 150 accountId db)
  | _, _ => some db

/-- The replies of a provider and a machine on which nothing fails. -/
def ordinary (jobId : Id) (l : Local) (db : Db) : (o : SyncOp) → Except SyncExc (SyncAns o)
  | .view => .ok (pending jobId l.staged db)
  | .reloadAccount accountId =>
      match (pending jobId l.staged db).accounts.get? accountId with
      | some account => .ok account
      | none => .error .rowDeleted
  | .refreshJob =>
      match (pending jobId l.staged db).syncJobs.get? jobId with
      | some job => .ok job
      | none => .error .rowDeleted
  | .now | .jitter => .ok (0 : ℤ)
  | .validateHost _ | .takeSignal | .takeDeadline => .ok none
  | .decryptCredentials credentials => .ok (credentials, none)
  | .refreshOauthToken credentials => .ok (.token "token" credentials)
  | .countUpstreamMessages => .ok none
  | .gentleExtraConfig _ | .generateMbsyncrc _ => .ok ""
  | .inboxExcluded _ | .tokenFileExists => .ok true
  | .makeLogDir | .takeBudgetStop => .ok false
  | .stopRequested => .ok (false, false)
  | .readUntilDeadline => .ok ([], false)
  | .wait | .waitBriefly => .ok (some 0)
  | .reconcileRemovedFolders => .ok ([], [])
  | .stage .. | .commit | .writeTokenFile _ | .writeConfig _ | .makeMaildir _ | .startSampler
  | .openLog | .spawn _ | .register | .stopSyncJob | .markDeadline | .kill | .stopSampler
  | .unregister | .closeLog | .parseOutput _ | .cleanupOldJobs _ | .discardMarkers
  | .unlinkConfig | .unlinkToken => .ok ()

/-! ## The rows after a commit -/

variable {jobId accountId : Id} {staged : List (Id × Write)} {db db' : Db} {l : Local}

theorem jobAfter_nil : jobAfter [] = id := rfl

theorem jobAfter_cons (p : Id × Write) :
    jobAfter (p :: staged) = jobAfter staged ∘ p.2.job := rfl

theorem accountAfter_nil : accountAfter [] = id := rfl

theorem accountAfter_cons (p : Id × Write) :
    accountAfter (p :: staged) = accountAfter staged ∘ p.2.account := rfl

theorem pending_job (k : Id) :
    (pending jobId staged db).syncJobs.get? k =
      if k = jobId then (db.syncJobs.get? k).map (jobAfter staged) else db.syncJobs.get? k := by
  unfold pending
  induction staged generalizing db with
  | nil => simp [jobAfter_nil]
  | cons p staged ih =>
      rw [List.foldl_cons, ih]
      split
      · rename_i h
        subst h
        simp [Write.apply, jobAfter_cons]
      · rename_i h
        simp [Write.apply, Table.get?_modify_of_ne _ _ h]

theorem pending_account (h : ∀ p ∈ staged, p.1 = accountId) (k : Id) :
    (pending jobId staged db).accounts.get? k =
      if k = accountId then (db.accounts.get? k).map (accountAfter staged)
      else db.accounts.get? k := by
  unfold pending
  induction staged generalizing db with
  | nil => simp [accountAfter_nil]
  | cons p staged ih =>
      obtain ⟨hp, hrest⟩ := List.forall_mem_cons.mp h
      rw [List.foldl_cons, ih hrest]
      split
      · rename_i hk
        subst hk
        simp [Write.apply, accountAfter_cons, hp]
      · rename_i hk
        simp [Write.apply, hp, Table.get?_modify_of_ne _ _ hk]

@[simp] theorem jobAfter_accountId (job : SyncJob) :
    (jobAfter staged job).accountId = job.accountId := by
  unfold jobAfter
  induction staged generalizing job with
  | nil => rfl
  | cons p staged ih =>
      rw [List.foldl_cons, ih]
      exact p.2.job_accountId job

@[simp] theorem jobAfter_requestedAt (job : SyncJob) :
    (jobAfter staged job).requestedAt = job.requestedAt := by
  unfold jobAfter
  induction staged generalizing job with
  | nil => rfl
  | cons p staged ih =>
      rw [List.foldl_cons, ih]
      exact p.2.job_requestedAt job

/-- A status in which `execute_sync_job` ends a job. -/
def JobStatus.ended : JobStatus → Bool
  | .completed | .failed => true
  | _ => false

theorem job_status_ended {w : Write} (job : SyncJob) (h : w.closes = true) :
    (w.job job).status.ended = true := by
  rcases w.job_status_of_closes job h with h | h <;> rw [h] <;> rfl

theorem job_status_same {w : Write} (job : SyncJob) (h : w.closes = false)
    (hstart : w.isStart = false) : (w.job job).status = job.status := by
  cases w <;> simp_all [Write.closes, Write.isStart, Write.job]

/-- Without a start among them, the pending assignments end the job or leave its status. -/
theorem jobAfter_status (job : SyncJob) (hstart : ∀ p ∈ staged, p.2.isStart = false) :
    (staged.any (fun p => p.2.closes) = true ∨ job.status.ended = true →
      (jobAfter staged job).status.ended = true) ∧
    (staged.any (fun p => p.2.closes) = false → (jobAfter staged job).status = job.status) := by
  unfold jobAfter
  induction staged generalizing job with
  | nil => simp
  | cons p staged ih =>
      obtain ⟨hp, hrest⟩ := List.forall_mem_cons.mp hstart
      rw [List.foldl_cons]
      obtain ⟨hended, hsame⟩ := ih (p.2.job job) hrest
      cases hcloses : p.2.closes with
      | true =>
          refine ⟨fun _ => hended (.inr (job_status_ended job hcloses)), fun h => ?_⟩
          simp [hcloses] at h
      | false =>
          have hstatus := job_status_same job hcloses hp
          rw [hstatus] at hended hsame
          simpa [hcloses] using And.intro hended hsame

def Write.isBlocked : Write → Bool
  | .blocked .. => true
  | _ => false

theorem account_syncState {w : Write} (account : Account) (hstart : w.isStart = false) :
    (w.closes = true → w.isBlocked = false → (w.account account).syncState ≠ .syncing) ∧
    (account.syncState ≠ .syncing → (w.account account).syncState ≠ .syncing) := by
  cases w with
  | start now => cases hstart
  | tokenRefreshFailed terminal now => cases terminal <;> exact ⟨nofun, nofun⟩
  | blocked log now => exact ⟨nofun, fun h => h⟩
  | credentials value => exact ⟨nofun, fun h => h⟩
  | totals messages folders => exact ⟨nofun, fun h => h⟩
  | result code output logPath now => exact ⟨nofun, fun h => h⟩
  | signal name => exact ⟨nofun, fun h => h⟩
  | hostBlocked error now => exact ⟨nofun, nofun⟩
  | completed now => exact ⟨nofun, nofun⟩
  | paused kind resumeAt => exact ⟨nofun, nofun⟩
  | capped message output => exact ⟨nofun, nofun⟩
  | stopped output => exact ⟨nofun, nofun⟩
  | errored output => exact ⟨nofun, nofun⟩
  | timedOut now => exact ⟨nofun, nofun⟩
  | crashed text now => exact ⟨nofun, nofun⟩

/-- After the start, whatever ends the job also ends the syncing of its account. -/
theorem accountAfter_syncState (account : Account)
    (hstart : ∀ p ∈ staged, p.2.isStart = false ∧ p.2.isBlocked = false)
    (h : staged.any (fun p => p.2.closes) = true ∨ account.syncState ≠ .syncing) :
    (accountAfter staged account).syncState ≠ .syncing := by
  unfold accountAfter
  induction staged generalizing account with
  | nil => simpa using h
  | cons p staged ih =>
      obtain ⟨⟨hp, hblocked⟩, hrest⟩ := List.forall_mem_cons.mp hstart
      rw [List.foldl_cons]
      obtain ⟨hcloses, hkeeps⟩ := account_syncState account hp
      apply ih _ hrest
      cases hc : p.2.closes with
      | true => exact .inr (hcloses hc hblocked)
      | false =>
          rw [List.any_cons, hc, Bool.false_or] at h
          exact h.imp_right hkeeps

/-! ## What a stage may hold -/

theorem permits_start {stage : Stage} {w : Write} (h : stage.permits w = true)
    (hstart : w.isStart = true) : stage = .checked := by
  cases w with
  | start now => cases stage <;> first | rfl | cases h
  | _ => cases hstart

theorem permits_blocked {stage : Stage} {w : Write} (h : stage.permits w = true)
    (hblocked : w.isBlocked = true) : stage = .refused := by
  cases w with
  | blocked log now => cases stage <;> first | rfl | cases h
  | _ => cases hblocked

theorem Local.Tidy.no_start (h : l.Tidy) (hstage : l.stage ≠ .checked) :
    ∀ p ∈ l.staged, p.2.isStart = false := by
  intro p hp
  by_contra hstart
  exact hstage (permits_start (h.1 p hp).2 (by simpa using hstart))

theorem Local.Tidy.no_blocked (h : l.Tidy) (hstage : l.stage ≠ .refused) :
    ∀ p ∈ l.staged, p.2.isBlocked = false := by
  intro p hp
  by_contra hblocked
  exact hstage (permits_blocked (h.1 p hp).2 (by simpa using hblocked))

/-- In the set-up only neutral assignments are pending, and inside the `try` none. -/
theorem Local.Tidy.no_closes (h : l.Tidy)
    (hstage : l.stage = .setup ∨ l.stage = .trying ∨ l.stage = .collected ∨ l.stage = .fresh ∨
      l.stage = .leaving) :
    ∀ p ∈ l.staged, p.2.neutral = true := by
  intro p hp
  have hpermits := (h.1 p hp).2
  rcases hstage with h | h | h | h | h <;> rw [h] at hpermits <;>
    cases hw : p.2 <;> rw [hw] at hpermits <;> first | rfl | cases hpermits

theorem any_closes_of_neutral (h : ∀ p ∈ staged, p.2.neutral = true) :
    staged.any (fun p => p.2.closes) = false := by
  rw [List.any_eq_false]
  intro p hp
  rw [p.2.closes_of_neutral (h p hp)]
  exact Bool.false_ne_true

/-- The one assignment before the start. -/
theorem Local.Tidy.checked (h : l.Tidy) (hstage : l.stage = .checked) :
    l.staged = [] ∨ ∃ a w, l.account = some a ∧ l.staged = [(a, w)] ∧
      ((∃ now, w = .start now) ∨ ∃ error now, w = .hostBlocked error now) := by
  match hstaged : l.staged with
  | [] => exact .inl rfl
  | [(a, w)] =>
      right
      obtain ⟨haccount, hpermits⟩ := h.1 (a, w) (by simp [hstaged])
      refine ⟨a, w, haccount, rfl, ?_⟩
      rw [hstage] at hpermits
      cases w <;> first | exact .inl ⟨_, rfl⟩ | exact .inr ⟨_, _, rfl⟩ | cases hpermits
  | p :: q :: rest =>
      have hlength := h.2 hstage
      rw [hstaged] at hlength
      simp at hlength

theorem Local.Tidy.staged_account (h : l.Tidy) (haccount : l.account = some accountId) :
    ∀ p ∈ l.staged, p.1 = accountId := by
  intro p hp
  exact (Option.some.inj (haccount.symm.trans (h.1 p hp).1)).symm

end MailFallback
