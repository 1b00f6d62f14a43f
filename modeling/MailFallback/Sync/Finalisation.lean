import MailFallback.Progress.Semantics
import MailFallback.Sync.Session
import Mathlib.Tactic.Linarith

/-! # The end of a sync run

What `execute_sync_job` commits once its processes have ended, from every state of the rows and
of the markers that other threads have set. -/

namespace MailFallback

open Storage Effects SyncTask

/-- Behind the runs and the clean-up after them. -/
def afterRuns (account : Account) (accountId jobId : Id) (code : Option ℤ) (output : String)
    (logToDisk : Bool) : SyncTask Unit := do
  let budgetStopped ← takeBudgetStop
  let job ← refreshJob
  if job.status = .running then
    finalise account accountId code output (if logToDisk = true then some s!"{jobId}.log" else none)
      budgetStopped
  else pure ()

theorem runSampled_eq (account : Account) (accountId jobId : Id) (count : ℕ) :
    runSampled account accountId jobId count = (do
      let logToDisk ← makeLogDir
      startSampler
      let (code, output) ←
        (runAndRetry account accountId count logToDisk).ensure (endRuns logToDisk)
      afterRuns account accountId jobId code output logToDisk) := rfl

/-- With the clauses that surround it. -/
def ending (settings : SyncSettings) (account : Account) (accountId jobId : Id) (code : Option ℤ)
    (output : String) (logToDisk tokenWritten : Bool) : SyncTask Unit :=
  ((afterRuns account accountId jobId code output logToDisk).handle (jobFailed accountId)).ensure
    (cleanUp settings true tokenWritten)

/-- `_killed_signals[job_id]` -/
inductive StopSignal where
  | sigterm | sigkill
  deriving DecidableEq, Repr

def StopSignal.name : StopSignal → String
  | .sigterm => "SIGTERM"
  | .sigkill => "SIGKILL"

/-- The session and the markers of the job; the clock readings and what the commits made of the
rows of the job and its account are history. -/
structure Ending where
  db : Db
  staged : List (Id × Write) := []
  budgetStop : Bool
  killed : Option StopSignal
  /-- `_deadline_stops[job_id]`, as it is printed -/
  deadline : Option String
  clock : Time
  readings : List Time := []
  committed : List (SyncJob × Account) := []

namespace Ending

section Step

variable (word : Char → Bool) (jobId accountId : Id)

/-- The exception that comes out of the parser. -/
def parseFailure (output : String) : Option SyncExc :=
  match Progress.parseMbsyncLines word (PyString.splitlines output) none with
  | .ok _ => none
  | .error text => some (.error text)

/-- The rows of the job and its account, as a commit would leave them. -/
def rows (s : Ending) : Option (SyncJob × Account) :=
  ((pending jobId s.staged s.db).syncJobs.get? jobId).bind fun job =>
    ((pending jobId s.staged s.db).accounts.get? accountId).map fun account => (job, account)

def commit (s : Ending) : Ending :=
  { s with
    db := pending jobId s.staged s.db
    staged := []
    committed := s.committed ++ (s.rows jobId accountId).toList }

def step : Machine SyncOp SyncAns SyncExc Ending
  | .view, s, .ok (read : Db) => if read = pending jobId s.staged s.db then some s else none
  | .stage id w, s, .ok _ => some { s with staged := s.staged ++ [(id, w)] }
  | .commit, s, .ok _ => some (s.commit jobId accountId)
  | .refreshJob, s, .ok (job : SyncJob) =>
      if (pending jobId s.staged s.db).syncJobs.get? jobId = some job then some s else none
  | .refreshJob, s, .error _ =>
      if ((pending jobId s.staged s.db).syncJobs.get? jobId).isNone then some s else none
  | .now, s, .ok (time : Time) =>
      if s.clock ≤ time then some { s with clock := time, readings := s.readings ++ [time] }
      else none
  | .jitter, s, .ok (jitter : Time) =>
      if 0 ≤ jitter ∧ jitter ≤ 1800 * second then some s else none
  | .takeBudgetStop, s, .ok (stopped : Bool) =>
      if stopped = s.budgetStop then some { s with budgetStop := false } else none
  | .takeSignal, s, .ok (signal : Option String) =>
      if signal = s.killed.map StopSignal.name then some { s with killed := none } else none
  | .takeDeadline, s, .ok (cap : Option String) =>
      if cap = s.deadline then some { s with deadline := none } else none
  | .parseOutput output, s, .ok _ => if parseFailure word output = none then some s else none
  | .parseOutput output, s, .error e =>
      if parseFailure word output = some e then some s else none
  | .cleanupOldJobs id, s, .ok _ => some { s with db := cleanupOldJobs 150 id s.db }
  | .cleanupOldJobs _, s, .error _ => some s
  | .discardMarkers, s, .ok _ => some { s with budgetStop := false, deadline := none }
  | .unlinkConfig, s, .ok _ | .tokenFileExists, s, .ok _ | .unlinkToken, s, .ok _ => some s
  | _, _, _ => none

end Step

end Ending

/-! ## What is committed -/

def NotPaused (account : Account) : Prop :=
  account.pauseReason = none ∧ account.syncPausedUntil = none

/-- The endings of a job, and what they make of its account. The first reading of the clock is
for `completed_at`, the second one for what follows. -/
inductive SyncOutcome (readings : List Time) (job : SyncJob) (account : Account) : Prop where
  | completed (hstatus : job.status = .completed) (hkind : job.failureKind = none)
      (hstate : account.syncState = .idle) (herror : account.lastError = none)
      (hpause : NotPaused account)
  | paused (kind : String) (now resumeAt : Time) (hstatus : job.status = .failed)
      (hkind : job.failureKind = some kind)
      (hmem : kind ∈ ["budget_paused", "throttled", "transient"])
      (hstate : account.syncState = .idle) (herror : account.lastError = none)
      (hreason : account.pauseReason = some (pauseReasonOf kind))
      (huntil : account.syncPausedUntil = some resumeAt) (hnow : readings[1]? = some now)
      (hlater : now < resumeAt)
  | failed (message log : String) (hstatus : job.status = .failed)
      (hkind : job.failureKind = some "error") (hstate : account.syncState = .error)
      (herror : account.lastError = some message) (hlog : job.log = some log)
      (hmessage : message = log ∨
        (∃ cap : String, message = s!"Sync exceeded the {cap}s runtime cap") ∧ message.toList <:+ log.toList)
      (hpause : NotPaused account)
  | stopped (log : String) (hstatus : job.status = .failed) (hkind : job.failureKind = none)
      (hsignal : given job.signal = true) (hstate : account.syncState = .error)
      (hlog : job.log = some log) (herror : account.lastError = some log)
      (hpause : NotPaused account)

/-- A running job at the end of its run. -/
structure Finalisation where
  jobId : Id
  accountId : Id
  db : Db
  job : SyncJob
  account : Account
  budgetStop : Bool
  killed : Option StopSignal
  deadline : Option String
  clock : Time
  job_row : db.syncJobs.get? jobId = some job
  account_row : db.accounts.get? accountId = some account
  running : job.status = .running
  /-- Only what closes a job assigns the kind. -/
  unclosed : job.failureKind = none

def Finalisation.state (f : Finalisation) : Ending where
  db := f.db
  budgetStop := f.budgetStop
  killed := f.killed
  deadline := f.deadline
  clock := f.clock

/-- Every commit leaves one of the outcomes; the marker of the budget beats the rest, only a clean
exit ends the initial sync, and the markers are gone. -/
structure Consistent (f : Finalisation) (code : Option ℤ) (s : Ending) : Prop where
  written : s.committed ≠ []
  outcome : ∀ r ∈ s.committed, SyncOutcome s.readings r.1 r.2
  budget : f.budgetStop = true → ∀ r ∈ s.committed, r.1.failureKind = some "budget_paused"
  initial : ∀ r ∈ s.committed,
    r.2.initialSyncCompletedAt ≠ f.account.initialSyncCompletedAt →
      code = some 0 ∧ f.budgetStop = false
  markers : s.budgetStop = false ∧ s.deadline = none

/-! ## Along the program -/

section Along

variable {word : Char → Bool} {jobId accountId : Id} {α β : Type} {s : Ending}
  {Q : β → Ending → Prop} {E : SyncExc → Ending → Prop}

/-- The program leads to `Q`, and its exceptions to `E`. -/
abbrev Leads (word : Char → Bool) (jobId accountId : Id) (Q : α → Ending → Prop)
    (E : SyncExc → Ending → Prop) (p : SyncTask α) (s : Ending) : Prop :=
  Safe (Ending.step word jobId accountId) .free Q E p s

theorem Leads.op {o : SyncOp} {k : SyncAns o → SyncTask β}
    (hok : ∀ a t, Ending.step word jobId accountId o s (.ok a) = some t →
      Leads word jobId accountId Q E (k a) t)
    (herror : ∀ e t, Ending.step word jobId accountId o s (.error e) = some t → E e t) :
    Leads word jobId accountId Q E (SyncTask.op o >>= k) s := by
  refine ⟨trivial, trivial, fun r t h => ?_⟩
  cases r with
  | ok a => exact hok a t h
  | error e => exact ⟨trivial, herror e t h⟩

theorem Leads.now {k : Time → SyncTask β}
    (h : ∀ time, s.clock ≤ time →
      Leads word jobId accountId Q E (k time)
        { s with clock := time, readings := s.readings ++ [time] }) :
    Leads word jobId accountId Q E (SyncTask.now >>= k) s := by
  refine .op (fun time t ht => ?_) fun e t ht => by cases ht
  obtain ⟨hle, ⟨⟩⟩ := Option.ite_none_right_eq_some.mp ht
  exact h time hle

theorem Leads.stage {id : Id} {w : Write} {k : Unit → SyncTask β}
    (h : Leads word jobId accountId Q E (k ()) { s with staged := s.staged ++ [(id, w)] }) :
    Leads word jobId accountId Q E (SyncTask.stage id w >>= k) s := by
  refine .op (fun a t ht => ?_) fun e t ht => by cases ht
  obtain rfl := Option.some.inj ht
  exact h

theorem Leads.commit {k : Unit → SyncTask β}
    (h : Leads word jobId accountId Q E (k ()) (s.commit jobId accountId)) :
    Leads word jobId accountId Q E (SyncTask.commit >>= k) s := by
  refine .op (fun a t ht => ?_) fun e t ht => by cases ht
  obtain rfl := Option.some.inj ht
  exact h

theorem Leads.jitter {k : Time → SyncTask β}
    (h : ∀ jitter, 0 ≤ jitter → Leads word jobId accountId Q E (k jitter) s) :
    Leads word jobId accountId Q E (SyncTask.jitter >>= k) s := by
  refine .op (fun jitter t ht => ?_) fun e t ht => by cases ht
  obtain ⟨hjitter, ⟨⟩⟩ := Option.ite_none_right_eq_some.mp ht
  exact h jitter hjitter.1

theorem Leads.view {k : Db → SyncTask β}
    (h : ∀ db, Leads word jobId accountId Q E (k db) s) :
    Leads word jobId accountId Q E (SyncTask.view >>= k) s := by
  refine .op (fun db t ht => ?_) fun e t ht => by cases ht
  obtain ⟨-, ⟨⟩⟩ := Option.ite_none_right_eq_some.mp ht
  exact h db

theorem Leads.refreshJob {k : SyncJob → SyncTask β}
    {job : SyncJob} (hjob : (pending jobId s.staged s.db).syncJobs.get? jobId = some job)
    (h : Leads word jobId accountId Q E (k job) s) :
    Leads word jobId accountId Q E (SyncTask.refreshJob >>= k) s := by
  refine .op (fun job' t ht => ?_) fun e t ht => ?_
  · obtain ⟨hjob', ⟨⟩⟩ := Option.ite_none_right_eq_some.mp ht
    obtain rfl := Option.some.inj (hjob.symm.trans hjob')
    exact h
  · obtain ⟨hnone, -⟩ := Option.ite_none_right_eq_some.mp ht
    rw [hjob] at hnone
    cases hnone

theorem Leads.takeBudgetStop {k : Bool → SyncTask β}
    (h : Leads word jobId accountId Q E (k s.budgetStop) { s with budgetStop := false }) :
    Leads word jobId accountId Q E (SyncTask.takeBudgetStop >>= k) s := by
  refine .op (fun stopped t ht => ?_) fun e t ht => by cases ht
  obtain ⟨rfl, ⟨⟩⟩ := Option.ite_none_right_eq_some.mp ht
  exact h

theorem Leads.takeSignal {k : Option String → SyncTask β}
    (h : Leads word jobId accountId Q E (k (s.killed.map StopSignal.name))
      { s with killed := none }) :
    Leads word jobId accountId Q E (SyncTask.takeSignal >>= k) s := by
  refine .op (fun signal t ht => ?_) fun e t ht => by cases ht
  obtain ⟨rfl, ⟨⟩⟩ := Option.ite_none_right_eq_some.mp ht
  exact h

theorem Leads.takeDeadline {k : Option String → SyncTask β}
    (h : Leads word jobId accountId Q E (k s.deadline) { s with deadline := none }) :
    Leads word jobId accountId Q E (SyncTask.takeDeadline >>= k) s := by
  refine .op (fun cap t ht => ?_) fun e t ht => by cases ht
  obtain ⟨rfl, ⟨⟩⟩ := Option.ite_none_right_eq_some.mp ht
  exact h

theorem Leads.parseOutput {output : String} {k : Unit → SyncTask β}
    (hok : Ending.parseFailure word output = none → Leads word jobId accountId Q E (k ()) s)
    (herror : ∀ e, Ending.parseFailure word output = some e → E e s) :
    Leads word jobId accountId Q E (SyncTask.parseOutput output >>= k) s := by
  refine .op (fun _ t ht => ?_) fun e t ht => ?_
  · obtain ⟨hparsed, ⟨⟩⟩ := Option.ite_none_right_eq_some.mp ht
    exact hok hparsed
  · obtain ⟨hfailed, ⟨⟩⟩ := Option.ite_none_right_eq_some.mp ht
    exact herror e hfailed

theorem Leads.discardMarkers {k : Unit → SyncTask β}
    (h : Leads word jobId accountId Q E (k ()) { s with budgetStop := false, deadline := none }) :
    Leads word jobId accountId Q E (SyncTask.discardMarkers >>= k) s := by
  refine .op (fun _ t ht => ?_) fun e t ht => by cases ht
  obtain rfl := Option.some.inj ht
  exact h

/-- The last operation of a program. -/
theorem Leads.last {o : SyncOp} {Q : SyncAns o → Ending → Prop}
    (h : Leads word jobId accountId Q E (SyncTask.op o >>= Prog.ret) s) :
    Leads word jobId accountId Q E (SyncTask.op o) s := by
  refine ⟨trivial, trivial, fun r t ht => ?_⟩
  have hrest := h.2.2 r t ht
  cases r with
  | ok a => exact hrest
  | error e => exact hrest

/-- The state behind the `finally` clause. -/
def Ending.closed (jobId accountId : Id) (s : Ending) : Ending :=
  ({ s with budgetStop := false, deadline := none } : Ending).commit jobId accountId

theorem dropToken_leads {Q : Unit → Ending → Prop} {tokenWritten : Bool}
    (h : Q () (s.commit jobId accountId)) :
    Leads word jobId accountId Q E (dropToken tokenWritten) s := by
  have hcommit : Leads word jobId accountId Q E SyncTask.commit s :=
    .last (.commit ⟨trivial, h⟩)
  unfold dropToken
  split
  · refine .op (fun there t ht => ?_) fun e t ht => by cases ht
    obtain rfl := Option.some.inj ht
    dsimp only
    split
    · refine .op (fun _ t ht => ?_) fun e t ht => by cases ht
      obtain rfl := Option.some.inj ht
      exact hcommit
    · exact hcommit
  · exact hcommit

theorem cleanUp_leads {Q : Unit → Ending → Prop} {settings : SyncSettings}
    {configWritten tokenWritten : Bool} (h : Q () (s.closed jobId accountId)) :
    Leads word jobId accountId Q E (cleanUp settings configWritten tokenWritten) s := by
  unfold cleanUp
  refine .discardMarkers ?_
  split
  · refine .op (fun _ t ht => ?_) fun e t ht => by cases ht
    obtain rfl := Option.some.inj ht
    exact dropToken_leads h
  · exact dropToken_leads h

end Along

/-! ## The rows -/

variable {word : Char → Bool} {f : Finalisation} {code : Option ℤ} {output : String} {s t : Ending}

theorem jobAfter_append (staged : List (Id × Write)) (id : Id) (w : Write) (job : SyncJob) :
    jobAfter (staged ++ [(id, w)]) job = w.job (jobAfter staged job) := by
  simp [jobAfter]

theorem accountAfter_append (staged : List (Id × Write)) (id : Id) (w : Write) (account : Account) :
    accountAfter (staged ++ [(id, w)]) account = w.account (accountAfter staged account) := by
  simp [accountAfter]

/-- The job is open, nothing is committed, and the rows of the job and the account as they would
be committed are these. -/
structure Finalising (f : Finalisation) (s : Ending) (job : SyncJob) (account : Account) :
    Prop where
  db : s.db = f.db
  committed : s.committed = []
  staged : ∀ p ∈ s.staged, p.1 = f.accountId
  job : jobAfter s.staged f.job = job
  account : accountAfter s.staged f.account = account

variable {job : SyncJob} {account : Account}

theorem Finalising.stage (h : Finalising f s job account) (w : Write) :
    Finalising f { s with staged := s.staged ++ [(f.accountId, w)] } (w.job job)
      (w.account account) := by
  refine ⟨h.db, h.committed, ?_, ?_, ?_⟩
  · intro p hp
    rcases List.mem_append.mp hp with hp | hp
    · exact h.staged p hp
    · obtain rfl := List.mem_singleton.mp hp
      rfl
  · rw [jobAfter_append, h.job]
  · rw [accountAfter_append, h.account]

theorem Finalising.rows (h : Finalising f s job account) :
    s.rows f.jobId f.accountId = some (job, account) := by
  have hjob : (pending f.jobId s.staged s.db).syncJobs.get? f.jobId = some job := by
    rw [pending_job, if_pos rfl, h.db, f.job_row, Option.map_some, h.job]
  have haccount : (pending f.jobId s.staged s.db).accounts.get? f.accountId = some account := by
    rw [pending_account h.staged, if_pos rfl, h.db, f.account_row, Option.map_some, h.account]
  rw [Ending.rows, hjob, haccount]
  rfl

/-- Commits that all leave the same. -/
theorem consistent_of_same {r : SyncJob × Account} (hne : s.committed ≠ [])
    (hsame : ∀ r' ∈ s.committed, r' = r) (houtcome : SyncOutcome s.readings r.1 r.2)
    (hbudget : f.budgetStop = true → r.1.failureKind = some "budget_paused")
    (hinitial : r.2.initialSyncCompletedAt ≠ f.account.initialSyncCompletedAt →
      code = some 0 ∧ f.budgetStop = false)
    (hmarkers : s.budgetStop = false ∧ s.deadline = none) : Consistent f code s := by
  refine ⟨hne, ?_, ?_, ?_, hmarkers⟩
  · intro r' hr'
    rw [hsame r' hr']
    exact houtcome
  · intro hstop r' hr'
    rw [hsame r' hr']
    exact hbudget hstop
  · intro r' hr'
    rw [hsame r' hr']
    exact hinitial

/-- What the last commit leaves. -/
theorem Finalising.closed_iff (h : Finalising f s job account) :
    Consistent f code (s.closed f.jobId f.accountId) ↔
      SyncOutcome s.readings job account ∧
        (f.budgetStop = true → job.failureKind = some "budget_paused") ∧
        (account.initialSyncCompletedAt ≠ f.account.initialSyncCompletedAt →
          code = some 0 ∧ f.budgetStop = false) := by
  have hcommitted : (s.closed f.jobId f.accountId).committed = [(job, account)] := by
    change s.committed ++ (s.rows f.jobId f.accountId).toList = [(job, account)]
    rw [h.rows, h.committed]
    rfl
  constructor
  · intro hconsistent
    have hmem : (job, account) ∈ (s.closed f.jobId f.accountId).committed := by
      rw [hcommitted]
      exact List.mem_singleton_self _
    exact ⟨hconsistent.outcome _ hmem, fun hbudget => hconsistent.budget hbudget _ hmem,
      hconsistent.initial _ hmem⟩
  · rintro ⟨houtcome, hbudget, hinitial⟩
    refine consistent_of_same (r := (job, account)) ?_ ?_ houtcome hbudget hinitial ⟨rfl, rfl⟩
    · rw [hcommitted]
      exact List.cons_ne_nil _ _
    · rw [hcommitted]
      exact List.forall_mem_singleton.mpr rfl

theorem appendLog_suffix (log : Option String) (line : String) :
    line.toList <:+ (appendLog log line).toList := by
  unfold appendLog
  split
  · rw [String.toList_append]
    exact List.suffix_append _ _
  · exact List.suffix_refl _

theorem backoff_pos {base cap : Time} (hbase : 0 < base) (hcap : 0 < cap) (attempt : ℕ) :
    0 < backoff base cap attempt :=
  lt_min (mul_pos hbase (pow_pos (by decide) _)) hcap

theorem lt_nextThrottleResume {now jitter : Time} (hjitter : 0 ≤ jitter) (attempt : ℕ) :
    now < nextThrottleResume now attempt jitter := by
  have hpos : 0 < backoff (4 * 3600 * second) (24 * 3600 * second) attempt :=
    backoff_pos (by decide) (by decide) attempt
  unfold nextThrottleResume
  linarith

theorem lt_nextTransientResume {now jitter : Time} (hjitter : 0 ≤ jitter) (attempt : ℕ) :
    now < nextTransientResume now attempt jitter := by
  have hpos : 0 < backoff (2 * 60 * second) (30 * 60 * second) attempt :=
    backoff_pos (by decide) (by decide) attempt
  unfold nextTransientResume
  linarith

theorem lt_nextBudgetResume {now jitter : Time} (hjitter : 0 ≤ jitter) :
    now < nextBudgetResume now jitter := by
  have hmidnight : now < (now / day + 1) * day := Int.lt_ediv_add_one_mul_self now (by decide)
  unfold nextBudgetResume
  linarith

/-! ## The ladder -/

/-- The job as it is closed: with the output of its run, and the signal if there was one. -/
structure Reported (output : String) (signal : Option String) (job : SyncJob) : Prop where
  kind : job.failureKind = none
  log : job.log = some output
  signal : given signal = true → given job.signal = true

/-- A pause for a while from the second reading of the clock on. -/
theorem pauseFor_leads {kind : String} {resume : Time → ℕ → Time → Time} {first : Time}
    {E : SyncExc → Ending → Prop} (h : Finalising f s job f.account)
    (hreadings : s.readings = [first]) (hkind : kind ∈ ["throttled", "transient"])
    (hresume : ∀ now attempt jitter, 0 ≤ jitter → now < resume now attempt jitter)
    (hbudget : f.budgetStop = false) :
    Leads word f.jobId f.accountId
      (fun _ t => Consistent f code (t.closed f.jobId f.accountId)) E
      (pauseFor f.accountId kind resume) s := by
  unfold pauseFor
  refine .now fun time _ => .now fun today _ => .view fun db => .jitter fun jitter hjitter => ?_
  refine .last (.stage ⟨trivial, ?_⟩)
  have hstaged := h.stage (.paused kind (resume time (attemptToday db f.accountId kind today) jitter))
  have hmem : kind ∈ ["budget_paused", "throttled", "transient"] := List.mem_cons_of_mem _ hkind
  refine Finalising.closed_iff (s := { s with
    clock := today
    readings := s.readings ++ [time] ++ [today]
    staged := s.staged ++ [(f.accountId,
      .paused kind (resume time (attemptToday db f.accountId kind today) jitter))] })
    ⟨hstaged.db, hstaged.committed, hstaged.staged, hstaged.job, hstaged.account⟩ |>.mpr ?_
  refine ⟨.paused kind time _ rfl rfl hmem rfl rfl rfl rfl ?_ (hresume _ _ _ hjitter), ?_,
    fun hne => absurd rfl hne⟩
  · rw [hreadings]
    rfl
  · intro hstop
    rw [hbudget] at hstop
    cases hstop

/-- A closing assignment and nothing else. -/
theorem stage_leads {w : Write} {E : SyncExc → Ending → Prop} (h : Finalising f s job f.account)
    (houtcome : SyncOutcome s.readings (w.job job) (w.account f.account))
    (hbudget : f.budgetStop = true → (w.job job).failureKind = some "budget_paused")
    (hinitial : (w.account f.account).initialSyncCompletedAt = f.account.initialSyncCompletedAt) :
    Leads word f.jobId f.accountId
      (fun _ t => Consistent f code (t.closed f.jobId f.accountId)) E
      (SyncTask.stage f.accountId w) s := by
  refine .last (.stage ⟨trivial, ?_⟩)
  exact (h.stage w).closed_iff.mpr ⟨houtcome, hbudget, fun hne => absurd hinitial hne⟩

/-- A commit has made these of the rows, and nothing is pending; the row of the job may be gone
since. -/
structure CommittedRows (f : Finalisation) (s : Ending) (job : SyncJob) (account : Account) : Prop where
  committed : s.committed = [(job, account)]
  staged : s.staged = []
  job : ∀ j, s.db.syncJobs.get? f.jobId = some j → j = job
  account : ∀ a, s.db.accounts.get? f.accountId = some a → a = account

theorem Finalising.settled (h : Finalising f s job account) :
    CommittedRows f (s.commit f.jobId f.accountId) job account := by
  have hrows : s.rows f.jobId f.accountId = some (job, account) := h.rows
  obtain ⟨j, hj, hmap⟩ := Option.bind_eq_some_iff.mp hrows
  obtain ⟨a, ha, heq⟩ := Option.map_eq_some_iff.mp hmap
  obtain ⟨rfl, rfl⟩ := Prod.mk.inj heq
  refine ⟨?_, rfl, fun j' hj' => ?_, fun a' ha' => ?_⟩
  · change s.committed ++ (s.rows f.jobId f.accountId).toList = [(j, a)]
    rw [hrows, h.committed]
    rfl
  · exact Option.some.inj (hj'.symm.trans hj)
  · exact Option.some.inj (ha'.symm.trans ha)

theorem CommittedRows.cleanup (h : CommittedRows f s job account) (id : Id) :
    CommittedRows f { s with db := cleanupOldJobs 150 id s.db } job account := by
  refine ⟨h.committed, h.staged, fun j hj => h.job j ?_, h.account⟩
  have hfilter := (Table.get?_filter _ _ _).symm.trans hj
  exact (Option.filter_eq_some_iff.mp hfilter).1

theorem CommittedRows.closed (h : CommittedRows f s job account) (houtcome : SyncOutcome s.readings job account)
    (hbudget : f.budgetStop = true → job.failureKind = some "budget_paused")
    (hinitial : account.initialSyncCompletedAt ≠ f.account.initialSyncCompletedAt →
      code = some 0 ∧ f.budgetStop = false) :
    Consistent f code (s.closed f.jobId f.accountId) := by
  have hcommitted : (s.closed f.jobId f.accountId).committed =
      (job, account) :: (s.rows f.jobId f.accountId).toList := by
    change s.committed ++ (s.rows f.jobId f.accountId).toList = _
    rw [h.committed]
    rfl
  refine consistent_of_same (r := (job, account)) ?_ ?_ houtcome hbudget hinitial ⟨rfl, rfl⟩
  · rw [hcommitted]
    exact List.cons_ne_nil _ _
  · rw [hcommitted]
    refine List.forall_mem_cons.mpr ⟨rfl, fun r hr => ?_⟩
    have hrows : s.rows f.jobId f.accountId = some r := Option.mem_toList.mp hr
    obtain ⟨j, hj, hmap⟩ := Option.bind_eq_some_iff.mp hrows
    obtain ⟨a, ha, rfl⟩ := Option.map_eq_some_iff.mp hmap
    rw [h.staged] at hj ha
    rw [h.job j hj, h.account a ha]

/-- The end of a clean run, with the commit before the bookkeeping. -/
theorem completed_leads {E : SyncExc → Ending → Prop} (h : Finalising f s job f.account)
    (hkind : job.failureKind = none) (hbudget : f.budgetStop = false) :
    Leads word f.jobId f.accountId
      (fun _ t => Consistent f (some 0) (t.closed f.jobId f.accountId)) E (do
        let time ← SyncTask.now
        SyncTask.stage f.accountId (.completed time)
        SyncTask.commit
        (SyncTask.cleanupOldJobs f.accountId).handle fun _ => pure ()) s := by
  refine .now fun time _ => .stage (.commit ?_)
  have hstaged : Finalising f { s with
      clock := time
      readings := s.readings ++ [time]
      staged := s.staged ++ [(f.accountId, .completed time)] }
      ((Write.completed time).job job) ((Write.completed time).account f.account) :=
    (⟨h.db, h.committed, h.staged, h.job, h.account⟩ : Finalising f { s with
      clock := time, readings := s.readings ++ [time] } job f.account).stage _
  have houtcome : SyncOutcome (s.readings ++ [time]) ((Write.completed time).job job)
      ((Write.completed time).account f.account) :=
    .completed rfl hkind rfl rfl ⟨rfl, rfl⟩
  have hstop : f.budgetStop = true → ((Write.completed time).job job).failureKind =
      some "budget_paused" := by
    intro hstop
    rw [hbudget] at hstop
    cases hstop
  have hclosed : ∀ t, CommittedRows f t ((Write.completed time).job job)
      ((Write.completed time).account f.account) → t.readings = s.readings ++ [time] →
      Consistent f (some 0) (t.closed f.jobId f.accountId) := by
    intro t ht hreadings
    exact ht.closed (hreadings ▸ houtcome) hstop fun _ => ⟨rfl, hbudget⟩
  refine ⟨trivial, trivial, fun r t ht => ?_⟩
  cases r with
  | ok a =>
      obtain rfl := Option.some.inj ht
      exact ⟨trivial, hclosed _ (hstaged.settled.cleanup _) rfl⟩
  | error e =>
      obtain rfl := Option.some.inj ht
      exact ⟨trivial, hclosed _ hstaged.settled rfl⟩

/-- The ladder, unless an exception comes out of the parser. -/
theorem conclude_leads {signal : Option String} {first : Time} (account : Account)
    (h : Finalising f s job f.account) (hreadings : s.readings = [first])
    (hended : Reported output signal job) :
    Leads word f.jobId f.accountId
      (fun _ t => Ending.parseFailure word output = none ∧
        Consistent f code (t.closed f.jobId f.accountId))
      (fun e t => Ending.parseFailure word output = some e ∧ Finalising f t job f.account)
      (conclude account f.accountId code output f.budgetStop signal) s := by
  have htaken : Finalising f { s with deadline := none } job f.account :=
    ⟨h.db, h.committed, h.staged, h.job, h.account⟩
  unfold conclude
  refine .takeDeadline (.parseOutput (fun hparsed => ?_) fun e hfailed => ⟨hfailed, htaken⟩)
  suffices hrest : Leads word f.jobId f.accountId
      (fun _ t => Consistent f code (t.closed f.jobId f.accountId))
      (fun e t => Ending.parseFailure word output = some e ∧ Finalising f t job f.account)
      _ { s with deadline := none } from
    Safe.post hrest (fun _ _ _ hc => ⟨hparsed, hc⟩) fun _ _ _ he => he
  split_ifs with hclean hbudget hsignal
  · obtain ⟨rfl, hbudget⟩ := hclean
    exact completed_leads htaken hended.kind hbudget
  · refine .now fun time _ => .jitter fun jitter hjitter => ?_
    have hmem : "budget_paused" ∈ ["budget_paused", "throttled", "transient"] :=
      List.mem_cons_self
    have hlater : (s.readings ++ [time])[1]? = some time := by
      rw [hreadings]
      rfl
    refine stage_leads ⟨h.db, h.committed, h.staged, h.job, h.account⟩
      (.paused _ time _ rfl rfl hmem rfl rfl rfl rfl hlater (lt_nextBudgetResume hjitter))
      (fun _ => rfl) rfl
  · split
    · rename_i cap hcap
      exact stage_leads htaken (.failed _ _ rfl rfl rfl rfl rfl
        (.inr ⟨⟨cap, rfl⟩, appendLog_suffix _ _⟩) ⟨rfl, rfl⟩) (fun hstop => absurd hstop hbudget) rfl
    · exact stage_leads htaken (.stopped output rfl hended.kind (hended.signal hsignal) rfl
        hended.log rfl ⟨rfl, rfl⟩) (fun hstop => absurd hstop hbudget) rfl
  · have hstop : f.budgetStop = false := Bool.eq_false_iff.mpr hbudget
    generalize classifyFailure (logTail output) account.provider = kind
    split
    · exact pauseFor_leads htaken hreadings (List.mem_cons_self)
        (fun _ _ _ hjitter => lt_nextThrottleResume hjitter _) hstop
    · exact pauseFor_leads htaken hreadings (List.mem_cons_of_mem _ List.mem_cons_self)
        (fun _ _ _ hjitter => lt_nextTransientResume hjitter _) hstop
    · exact stage_leads htaken (.failed output output rfl rfl rfl rfl hended.log (.inl rfl)
        ⟨rfl, rfl⟩) (fun hstop' => absurd hstop' hbudget) rfl

/-- The assignments before the ladder. -/
theorem finalise_leads {logPath : Option String} (account : Account)
    (h : Finalising f s f.job f.account) (hreadings : s.readings = []) :
    Leads word f.jobId f.accountId
      (fun _ t => Ending.parseFailure word output = none ∧
        Consistent f code (t.closed f.jobId f.accountId))
      (fun e t => Ending.parseFailure word output = some e ∧
        ∃ job, Finalising f t job f.account)
      (finalise account f.accountId code output logPath f.budgetStop) s := by
  unfold finalise
  refine .now fun time _ => .stage (.takeSignal ?_)
  have hresult : Finalising f { s with
      clock := time
      readings := s.readings ++ [time]
      staged := s.staged ++ [(f.accountId, .result code output logPath time)]
      killed := none } ((Write.result code output logPath time).job f.job) f.account :=
    ⟨h.db, h.committed, (h.stage (.result code output logPath time)).staged,
      (h.stage (.result code output logPath time)).job,
      (h.stage (.result code output logPath time)).account⟩
  have hfirst : s.readings ++ [time] = [time] := by
    rw [hreadings]
    rfl
  dsimp only
  cases s.killed with
  | none =>
      have hended : Reported output none ((Write.result code output logPath time).job f.job) :=
        ⟨f.unclosed, rfl, (fun hnone => by cases hnone)⟩
      exact Safe.post (conclude_leads account hresult hfirst hended) (fun _ _ _ hq => hq)
        fun _ _ _ he => ⟨he.1, _, he.2⟩
  | some signal =>
      refine .stage ?_
      have hended : Reported output (some signal.name)
          ((Write.signal signal.name).job ((Write.result code output logPath time).job f.job)) :=
        ⟨f.unclosed, rfl, fun hgiven => hgiven⟩
      exact Safe.post (conclude_leads account (hresult.stage (.signal signal.name)) hfirst hended)
        (fun _ _ _ hq => hq) fun _ _ _ he => ⟨he.1, _, he.2⟩

/-- The `except` clause keeps the columns of the pause. -/
theorem jobFailed_leads {E : SyncExc → Ending → Prop} {e : SyncExc}
    (h : Finalising f s job f.account) (hparse : Ending.parseFailure word output = some e) :
    Leads word f.jobId f.accountId
      (fun _ t => Consistent f code (t.closed f.jobId f.accountId) ↔
        f.budgetStop = false ∧ NotPaused f.account) E (jobFailed f.accountId e) s := by
  unfold jobFailed
  refine .now fun time _ => ?_
  have hread : Finalising f { s with clock := time, readings := s.readings ++ [time] } job
      f.account := ⟨h.db, h.committed, h.staged, h.job, h.account⟩
  unfold Ending.parseFailure at hparse
  split at hparse
  · cases hparse
  · rename_i text _
    obtain rfl := Option.some.inj hparse
    refine .last (.stage ⟨trivial, ?_⟩)
    refine (hread.stage (.crashed text time)).closed_iff.trans ?_
    constructor
    · rintro ⟨houtcome, hbudget, -⟩
      have hpause : NotPaused f.account := by
        cases houtcome with
        | completed hstatus => cases hstatus
        | paused kind now resumeAt hstatus hkind hmem =>
            obtain rfl := Option.some.inj hkind
            simp at hmem
        | failed message log hstatus hkind hstate herror hlog hmessage hpause => exact hpause
        | stopped log hstatus hkind => cases hkind
      refine ⟨Bool.eq_false_iff.mpr fun hstop => ?_, hpause⟩
      have hkind : "error" = "budget_paused" := Option.some.inj (hbudget hstop)
      exact absurd hkind (by decide)
    · rintro ⟨hbudget, hpause⟩
      refine ⟨.failed text text rfl rfl rfl rfl rfl (.inl rfl) hpause, fun hstop => ?_,
        fun hne => absurd rfl hne⟩
      rw [hbudget] at hstop
      cases hstop

theorem ending_leads (settings : SyncSettings) (account : Account) (logToDisk tokenWritten : Bool) :
    Leads word f.jobId f.accountId
      (fun _ t => Consistent f code t ↔ Ending.parseFailure word output = none ∨
        f.budgetStop = false ∧ NotPaused f.account)
      (fun _ _ => False)
      (ending settings account f.accountId f.jobId code output logToDisk tokenWritten) f.state := by
  have hstart : Finalising f { f.state with budgetStop := false } f.job f.account :=
    ⟨rfl, rfl, (fun _ hp => by cases hp), rfl, rfl⟩
  refine Safe.ensure (Safe.handle ?_)
  unfold afterRuns
  refine Leads.takeBudgetStop (Leads.refreshJob f.job_row ?_)
  rw [if_pos f.running]
  refine Safe.post (finalise_leads account hstart rfl) ?_ ?_
  · rintro _ t - ⟨hparsed, hconsistent⟩
    exact cleanUp_leads ⟨fun _ => .inl hparsed, fun _ => hconsistent⟩
  · rintro e t - ⟨hparse, job, hfinalising⟩
    have hfailed : Leads word f.jobId f.accountId
        (fun _ u => Consistent f code (u.closed f.jobId f.accountId) ↔
          f.budgetStop = false ∧ NotPaused f.account) (fun _ _ => False)
        (jobFailed f.accountId e) t := jobFailed_leads hfinalising hparse
    refine Safe.post hfailed ?_ fun _ _ _ he => he.elim
    intro _ u _ hiff
    refine cleanUp_leads (hiff.trans ⟨.inr, fun hor => hor.resolve_left fun hnone => ?_⟩)
    rw [hnone] at hparse
    cases hparse

/-- Some reply is allowed in every state. -/
def Ending.Answered (word : Char → Bool) (jobId accountId : Id) (o : SyncOp) : Prop :=
  ∀ s, ∃ r t, Ending.step word jobId accountId o s r = some t

section Answered

variable {jobId accountId : Id}

theorem now_answered : Ending.Answered word jobId accountId .now :=
  fun s => ⟨.ok s.clock, _, if_pos (le_refl s.clock)⟩

theorem jitter_answered : Ending.Answered word jobId accountId .jitter := by
  intro s
  have hhalf : (0 : Time) ≤ 0 ∧ (0 : Time) ≤ 1800 * second := by decide
  refine ⟨.ok (0 : Time), s, ?_⟩
  change (if (0 : Time) ≤ 0 ∧ (0 : Time) ≤ 1800 * second then some s else none) = some s
  exact if_pos hhalf

theorem view_answered : Ending.Answered word jobId accountId .view :=
  fun s => ⟨.ok (pending jobId s.staged s.db), _, if_pos rfl⟩

theorem stage_answered (id : Id) (w : Write) : Ending.Answered word jobId accountId (.stage id w) :=
  fun _ => ⟨.ok (), _, rfl⟩

theorem commit_answered : Ending.Answered word jobId accountId .commit :=
  fun _ => ⟨.ok (), _, rfl⟩

theorem refreshJob_answered : Ending.Answered word jobId accountId .refreshJob := by
  intro s
  cases hrow : (pending jobId s.staged s.db).syncJobs.get? jobId with
  | none => exact ⟨.error .rowDeleted, s, if_pos (Option.isNone_iff_eq_none.mpr hrow)⟩
  | some job => exact ⟨.ok job, s, if_pos hrow⟩

theorem parseOutput_answered (output : String) :
    Ending.Answered word jobId accountId (.parseOutput output) := by
  intro s
  cases hparse : Ending.parseFailure word output with
  | none => exact ⟨.ok (), s, if_pos hparse⟩
  | some e => exact ⟨.error e, s, if_pos hparse⟩

theorem dropToken_only (tokenWritten : Bool) :
    (dropToken tokenWritten).Only (Ending.Answered word jobId accountId) := by
  have hcommit : SyncTask.commit.Only (Ending.Answered word jobId accountId) :=
    Prog.Only.op commit_answered
  unfold dropToken
  split
  · refine Prog.Only.bind (Prog.Only.op fun s => ⟨.ok false, s, rfl⟩) fun there => ?_
    dsimp only
    split
    · exact Prog.Only.bind (Prog.Only.op fun s => ⟨.ok (), s, rfl⟩) fun _ => hcommit
    · exact hcommit
  · exact hcommit

theorem cleanUp_only (settings : SyncSettings) (configWritten tokenWritten : Bool) :
    (cleanUp settings configWritten tokenWritten).Only (Ending.Answered word jobId accountId) := by
  refine Prog.Only.bind (Prog.Only.op fun _ => ⟨.ok (), _, rfl⟩) fun _ => ?_
  split
  · exact Prog.Only.bind (Prog.Only.op fun s => ⟨.ok (), s, rfl⟩) fun _ =>
      dropToken_only tokenWritten
  · exact dropToken_only tokenWritten

theorem jobFailed_only (id : Id) (e : SyncExc) :
    (jobFailed id e).Only (Ending.Answered word jobId accountId) := by
  refine Prog.Only.bind (Prog.Only.op now_answered) fun time => ?_
  split <;> exact Prog.Only.op (stage_answered _ _)

theorem pauseFor_only (id : Id) (kind : String) (resume : Time → ℕ → Time → Time) :
    (pauseFor id kind resume).Only (Ending.Answered word jobId accountId) :=
  Prog.Only.bind (Prog.Only.op now_answered) fun _ =>
    Prog.Only.bind (Prog.Only.op now_answered) fun _ =>
      Prog.Only.bind (Prog.Only.op view_answered) fun _ =>
        Prog.Only.bind (Prog.Only.op jitter_answered) fun _ => Prog.Only.op (stage_answered _ _)

theorem conclude_only (account : Account) (id : Id) (code : Option ℤ) (output : String)
    (budgetStopped : Bool) (signal : Option String) :
    (conclude account id code output budgetStopped signal).Only
      (Ending.Answered word jobId accountId) := by
  refine Prog.Only.bind (Prog.Only.op fun s => ⟨.ok s.deadline, _, if_pos rfl⟩) fun cap => ?_
  refine Prog.Only.bind (Prog.Only.op (parseOutput_answered output)) fun _ => ?_
  split_ifs
  · refine Prog.Only.bind (Prog.Only.op now_answered) fun _ => ?_
    refine Prog.Only.bind (Prog.Only.op (stage_answered _ _)) fun _ => ?_
    refine Prog.Only.bind (Prog.Only.op commit_answered) fun _ => ?_
    exact Prog.Only.handle (Prog.Only.op fun _ => ⟨.ok (), _, rfl⟩) fun _ => trivial
  · refine Prog.Only.bind (Prog.Only.op now_answered) fun _ => ?_
    exact Prog.Only.bind (Prog.Only.op jitter_answered) fun _ => Prog.Only.op (stage_answered _ _)
  · split <;> exact Prog.Only.op (stage_answered _ _)
  · split
    · exact pauseFor_only _ _ _
    · exact pauseFor_only _ _ _
    · exact Prog.Only.op (stage_answered _ _)

theorem finalise_only (account : Account) (id : Id) (code : Option ℤ) (output : String)
    (logPath : Option String) (budgetStopped : Bool) :
    (finalise account id code output logPath budgetStopped).Only
      (Ending.Answered word jobId accountId) := by
  refine Prog.Only.bind (Prog.Only.op now_answered) fun _ => ?_
  refine Prog.Only.bind (Prog.Only.op (stage_answered _ _)) fun _ => ?_
  refine Prog.Only.bind
    (Prog.Only.op fun s => ⟨.ok (s.killed.map StopSignal.name), _, if_pos rfl⟩) fun signal => ?_
  dsimp only
  split
  · exact Prog.Only.bind (Prog.Only.op (stage_answered _ _)) fun _ => conclude_only _ _ _ _ _ _
  · exact conclude_only _ _ _ _ _ _

/-- From every state the ending can run to its end. -/
theorem ending_ends (settings : SyncSettings) (account : Account) (id : Id) (code : Option ℤ)
    (output : String) (logToDisk tokenWritten : Bool) (s : Ending) :
    ∃ tr p t, Run (Ending.step word jobId accountId)
      (ending settings account id jobId code output logToDisk tokenWritten) s tr p t ∧
        p.finished = true := by
  have hafter : (afterRuns account id jobId code output logToDisk).Only
      (Ending.Answered word jobId accountId) := by
    refine Prog.Only.bind (Prog.Only.op fun s => ⟨.ok s.budgetStop, _, if_pos rfl⟩) fun _ => ?_
    refine Prog.Only.bind (Prog.Only.op refreshJob_answered) fun job => ?_
    split
    · exact finalise_only _ _ _ _ _ _
    · trivial
  have hending : (ending settings account id jobId code output logToDisk tokenWritten).Only
      (Ending.Answered word jobId accountId) := by
    have hcleanUp : (cleanUp settings true tokenWritten).Only
        (Ending.Answered word jobId accountId) := cleanUp_only settings true tokenWritten
    refine Prog.Only.bind (Prog.Only.handle (Prog.Only.handle hafter fun _ => jobFailed_only _ _)
      fun e => ?_) fun _ => Prog.Only.bind hcleanUp fun _ => trivial
    exact Prog.Only.bind hcleanUp fun _ => trivial
  exact hending.exists_run fun o s ho => ho s

end Answered

/-! ## A run of each kind -/

def finishedAccount : Account := { maildirPath := "/mail/a1", storeId := "s1" }

def finishedJob : SyncJob := { accountId := "a1", requestedAt := 0, status := .running }

/-- A run that has ended; the sampler may have found the budget spent. -/
def finishedRun (budgetStop : Bool) : Finalisation where
  jobId := "j1"
  accountId := "a1"
  db :=
    { accounts := ⟨[("a1", finishedAccount)], List.nodup_singleton _⟩
      syncJobs := ⟨[("j1", finishedJob)], by decide⟩ }
  job := finishedJob
  account := finishedAccount
  budgetStop := budgetStop
  killed := none
  deadline := none
  clock := 0
  job_row := rfl
  account_row := rfl
  running := rfl
  unclosed := rfl

/-- The server says good-bye, and behind a form feed something that looks like a connection. -/
def farewell (port : List Char) : String :=
  String.ofList ("IMAP error: unexpected BYE response: ".toList ++
    '\x0c' :: Progress.connectingLine port)

theorem farewell_toList (port : List Char) : (farewell port).toList =
    "IMAP error: unexpected BYE response: ".toList ++ '\x0c' :: Progress.connectingLine port :=
  String.toList_ofList

theorem parseFailure_farewell (word : Char → Bool) :
    Ending.parseFailure word (farewell (List.replicate 4301 '1')) ≠ none := by
  have hdigits : ∀ c ∈ List.replicate 4301 '1', c = '1' := fun _ => List.eq_of_mem_replicate
  have hlong : 4300 < (List.replicate 4301 '1').length := by
    rw [List.length_replicate]
    decide
  generalize List.replicate 4301 '1' = port at hdigits hlong
  have hbreaks : ∀ c ∈ Progress.connectingLine port, PyString.isLineBreak c = false :=
    Progress.connectingLine_unbroken fun c hc => hdigits c hc ▸ rfl
  have hfirst : ∀ c ∈ "IMAP error: unexpected BYE response: ".toList,
      PyString.isLineBreak c = false := PyString.none_of_all (by decide)
  have hrest : PyString.linesAfter [] (Progress.connectingLine port) =
      [Progress.connectingLine port] :=
    PyString.linesAfter_of_no_break hbreaks (.inr (List.cons_ne_nil _ _))
  have hmem : Progress.connectingLine port ∈ PyString.linesAfter [] (farewell port).toList := by
    have hbreak : PyString.isLineBreak '\x0c' = true := by decide +kernel
    have hfeed : '\x0c' ≠ '\r' := by decide
    rw [farewell_toList, PyString.linesAfter_append_break hfirst hbreak hfeed, hrest]
    exact List.mem_cons_of_mem _ (List.mem_singleton_self _)
  obtain ⟨e, he⟩ : ∃ e, Progress.parseMbsyncLines word (PyString.splitlines (farewell port)) none =
      .error e :=
    Progress.parseMbsyncLines_fails (fun c hc => hdigits c hc ▸ rfl) hlong
      (List.mem_map_of_mem hmem)
  intro hnone
  rw [Ending.parseFailure, he] at hnone
  cases hnone

end MailFallback
