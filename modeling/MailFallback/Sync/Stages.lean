import MailFallback.Sync.Semantics

/-! # How far a sync worker has come

The operations a worker has performed put it at a stage, and at each stage the worker keeps
to certain writes and operations. What holds of all workers together is proved from this
discipline alone, without looking at the program again. -/

namespace MailFallback

open Storage Effects SyncTask

inductive Stage where
  /-- Nothing has been read. -/
  | fresh
  /-- The rows that were read forbid the sync. -/
  | refused
  /-- The rows that were read allow the sync. -/
  | checked
  /-- The job has been committed as running. -/
  | setup
  /-- The provider has not given a token. -/
  | signedOut
  /-- Inside the `try`: here mbsync is started. -/
  | trying
  /-- The last process has been waited for. -/
  | collected
  /-- The job was still running when it was read again. -/
  | finishing
  /-- An operation inside the `try` has raised. -/
  | failing
  /-- There is nothing more to write. -/
  | leaving
  deriving DecidableEq, Repr

/-- The writes of a stage. -/
def Stage.permits : Stage → Write → Bool
  | .refused, .blocked .. => true
  | .checked, .hostBlocked .. | .checked, .start _ => true
  | .setup, .credentials _ | .setup, .totals .. => true
  | .signedOut, .credentials _ | .signedOut, .tokenRefreshFailed .. => true
  | .finishing, .result .. | .finishing, .signal _ | .finishing, .completed _
  | .finishing, .paused .. | .finishing, .capped .. | .finishing, .stopped _
  | .finishing, .errored _ | .finishing, .timedOut _ | .finishing, .crashed .. => true
  | .failing, .timedOut _ | .failing, .crashed .. => true
  | _, _ => false

/-- An exception inside the `try`. -/
def Stage.raised : Stage → Stage
  | .trying | .collected => .failing
  | stage => stage

/-- The part of `execute_sync_job` that an exception of the operation comes out of. -/
inductive Part where
  | setup | body | cleanUp
  deriving DecidableEq, Repr

/-- No part for the two operations whose failure is swallowed. -/
def SyncOp.part : SyncOp → Option Part
  | .reloadAccount _ | .decryptCredentials _ | .refreshOauthToken _ | .writeTokenFile _
  | .gentleExtraConfig _ | .generateMbsyncrc _ => some .setup
  | .countUpstreamMessages | .cleanupOldJobs _ => none
  | .unlinkConfig | .unlinkToken => some .cleanUp
  | _ => some .body

/-- What a worker has met with, and what it has committed. -/
structure Record where
  /-- `running` has been committed. -/
  started : Bool := false
  /-- A terminal status has been committed. -/
  closed : Bool := false
  setupRaised : Bool := false
  bodyRaised : Bool := false
  cleanUpRaised : Bool := false
  /-- Of the process that was waited for last. -/
  exitCode : Option ℤ := none
  budgetStopped : Bool := false
  deriving DecidableEq

def Record.raise (r : Record) : Option Part → Record
  | none => r
  | some .setup => { r with setupRaised := true }
  | some .body => { r with bodyRaised := true }
  | some .cleanUp => { r with cleanUpRaised := true }

/-- What a worker knows and holds by itself: its stage, the account of its job, the
assignments it has not committed, and whether it has a process that it has not waited for. -/
structure Local where
  stage : Stage := .fresh
  account : Option Id := none
  staged : List (Id × Write) := []
  child : Bool := false
  record : Record := {}

/-- The rows as read at the beginning. -/
def Local.read (l : Local) (jobId : Id) (db : Db) : Local :=
  match db.syncJobs.get? jobId with
  | none => { l with stage := .refused }
  | some job =>
      match db.accounts.get? job.accountId with
      | none => { l with stage := .refused, account := some job.accountId }
      | some account =>
          { l with stage := if (refusal db account).isSome then .refused else .checked,
                   account := some job.accountId }

def Write.isStart : Write → Bool
  | .start _ => true
  | _ => false

/-- The stage after a commit. -/
def Local.committed (l : Local) : Stage :=
  if l.stage = .checked then
    if l.staged.any (fun p => p.2.isStart) then .setup else .leaving
  else l.stage

/-- The commit of these assignments. -/
def Record.commit (r : Record) (staged : List (Id × Write)) : Record :=
  { r with started := r.started || staged.any (fun p => p.2.isStart),
           closed := r.closed || staged.any (fun p => p.2.closes) }

def Refreshed.given : Refreshed → Bool
  | .token accessToken _ => decide (accessToken ≠ "")
  | .rejected _ => false

def Local.next (jobId : Id) (l : Local) :
    (o : SyncOp) → Except SyncExc (SyncAns o) → Local
  | .view, .ok (db : Db) => if l.stage = .fresh then l.read jobId db else l
  | .stage accountId w, .ok _ => { l with staged := l.staged ++ [(accountId, w)] }
  | .commit, .ok _ =>
      { l with staged := [], stage := l.committed, record := l.record.commit l.staged }
  | .refreshOauthToken _, .ok (r : Refreshed) =>
      if l.stage = .setup ∧ r.given = false then { l with stage := .signedOut } else l
  | .writeConfig _, .ok _ => { l with stage := .trying }
  | .writeConfig _, .error _ =>
      { l with stage := .failing, record := l.record.raise (some .body) }
  | .spawn _, .ok _ => { l with child := true }
  | .wait, .ok (code : Option ℤ) =>
      { l with child := l.child && code.isNone, record := { l.record with exitCode := code } }
  | .waitBriefly, .ok (code : Option ℤ) => { l with record := { l.record with exitCode := code } }
  | .kill, .ok _ => { l with child := false }
  | .stopSampler, .ok _ => { l with stage := if l.stage = .trying then .collected else l.stage }
  | .takeBudgetStop, .ok (stopped : Bool) =>
      { l with record := { l.record with budgetStopped := stopped } }
  | .refreshJob, .ok (job : SyncJob) =>
      { l with stage := if job.status = .running then .finishing else .leaving }
  | _, .ok _ => l
  | o, .error _ => { l with stage := l.stage.raised, record := l.record.raise o.part }

/-- Only some operations raise. -/
def localStep (jobId : Id) : Machine SyncOp SyncAns SyncExc Local
  | o, l, .ok a => some (l.next jobId o (.ok a))
  | o, l, .error e => if o.fallible = true then some (l.next jobId o (.error e)) else none

/-! ## The discipline -/

/-- Every pending assignment is one of the stage, to the account of the job; before the start
there is only one. -/
def Local.Tidy (l : Local) : Prop :=
  (∀ p ∈ l.staged, l.account = some p.1 ∧ l.stage.permits p.2 = true) ∧
    (l.stage = .checked → l.staged.length ≤ 1)

/-- The operations that are tied to a stage. -/
def Local.allows (l : Local) : SyncOp → Prop
  | .stage accountId w =>
      l.account = some accountId ∧ l.stage.permits w = true ∧ (l.stage = .checked → l.staged = [])
  | .refreshOauthToken _ => l.stage = .setup ∧ l.staged = []
  | .writeConfig _ => l.stage = .setup ∧ l.staged = [] ∧ l.child = false
  | .spawn accountId => l.stage = .trying ∧ l.child = false ∧ l.account = some accountId
  | .stopSampler => l.stage = .trying ∧ l.child = false ∨ l.stage = .failing
  | .refreshJob => l.stage = .collected
  | .cleanupOldJobs accountId =>
      l.stage = .finishing ∧ l.staged = [] ∧ l.account = some accountId ∧ l.record.closed = true
  | _ => True

def discipline : Contract SyncOp Local where
  crash := Local.Tidy
  allow := fun o l => l.allows o

/-- The operations whose success changes nothing in what the worker holds. -/
def SyncOp.quiet : SyncOp → Bool
  | .view | .stage .. | .commit | .refreshOauthToken _ | .writeConfig _ | .spawn _ | .wait
  | .waitBriefly | .kill | .stopSampler | .takeBudgetStop | .refreshJob
  | .cleanupOldJobs _ => false
  | _ => true

variable {jobId accountId : Id} {l l' : Local} {o : SyncOp} {α β : Type}
  {E : SyncExc → Local → Prop} {R : β → Local → Prop}

theorem next_quiet (h : o.quiet = true) (a : SyncAns o) : l.next jobId o (.ok a) = l := by
  cases o <;> first | rfl | cases h

/-- An exception that leaves the stage or fails the `try`. -/
def Local.raise (l : Local) (part : Option Part) : Local :=
  { l with stage := l.stage.raised, record := l.record.raise part }

theorem next_error (h : ∀ content, o ≠ .writeConfig content) (e : SyncExc) :
    l.next jobId o (.error e) = l.raise o.part := by
  cases o <;> first | rfl | exact absurd rfl (h _)

theorem allows_quiet (h : o.quiet = true) : l.allows o := by
  cases o <;> cases h <;> trivial

/-- Inside the `try` nothing is pending before the ending. -/
theorem Local.Tidy.raise (part : Option Part) (h : l.Tidy) : (l.raise part).Tidy := by
  unfold Local.raise
  refine ⟨fun p hp => ?_, fun hchecked => h.2 ?_⟩
  · obtain ⟨haccount, hpermits⟩ := h.1 p hp
    refine ⟨haccount, ?_⟩
    cases hstage : l.stage <;> rw [hstage] at hpermits <;> first | exact hpermits | cases hpermits
  · cases hstage : l.stage <;> rw [hstage] at hchecked <;> first | rfl | cases hchecked

theorem tidy_of_nil (h : l.staged = []) : l.Tidy := by
  unfold Local.Tidy
  rw [h]
  exact ⟨nofun, fun _ => Nat.zero_le 1⟩

theorem local_op {Q : SyncAns o → Local → Prop} (hl : l.Tidy) (ha : l.allows o)
    (hok : ∀ a, (l.next jobId o (.ok a)).Tidy ∧ Q a (l.next jobId o (.ok a)))
    (herr : o.fallible = true → ∀ e,
      (l.next jobId o (.error e)).Tidy ∧ E e (l.next jobId o (.error e))) :
    Safe (localStep jobId) discipline Q E (SyncTask.op o) l := by
  apply Safe.op hl ha
  · rintro a l' ⟨⟩
    exact hok a
  · intro e l' h
    obtain ⟨hfallible, hl'⟩ := Option.ite_none_right_eq_some.mp h
    obtain rfl := Option.some.inj hl'
    exact herr hfallible e

/-- A quiet operation and the rest of the program. -/
theorem quiet_bind {f : SyncAns o → SyncTask β} (ho : o.quiet = true) (hl : l.Tidy)
    (hf : ∀ a, Safe (localStep jobId) discipline R E (f a) l)
    (herr : o.fallible = true → ∀ e, E e (l.raise o.part)) :
    Safe (localStep jobId) discipline R E (Prog.bind (SyncTask.op o) f) l := by
  apply Safe.bind
  apply local_op hl (allows_quiet ho)
  · intro a
    rw [next_quiet ho]
    exact ⟨hl, hf a⟩
  · intro hfallible e
    rw [next_error (by rintro content rfl; cases ho)]
    exact ⟨hl.raise _, herr hfallible e⟩

/-- A worker with nothing pending. -/
def resting (stage : Stage) (accountId : Id) (child : Bool) (record : Record) : Local :=
  { stage := stage, account := some accountId, child := child, record := record }

theorem resting_tidy {stage : Stage} {child : Bool} {record : Record} :
    (resting stage accountId child record).Tidy := tidy_of_nil rfl

theorem stage_spec {w : Write} (hl : l.Tidy) (haccount : l.account = some accountId)
    (hpermits : l.stage.permits w = true) (hchecked : l.stage = .checked → l.staged = []) :
    Safe (localStep jobId) discipline
      (fun _ l' => l' = { l with staged := l.staged ++ [(accountId, w)] }) E
      (stage accountId w) l := by
  apply local_op (o := .stage accountId w) hl ⟨haccount, hpermits, hchecked⟩
  · intro done
    refine ⟨⟨fun p hp => ?_, fun h => ?_⟩, rfl⟩
    · rcases List.mem_append.mp hp with hp | hp
      · exact hl.1 p hp
      · rw [List.mem_singleton] at hp
        subst hp
        exact ⟨haccount, hpermits⟩
    · have hstaged : (l.next jobId (.stage accountId w) (.ok done)).staged =
          l.staged ++ [(accountId, w)] := rfl
      rw [hstaged, hchecked h]
      exact Nat.le_refl 1
  · exact nofun

theorem commit_spec' (hl : l.Tidy) :
    Safe (localStep jobId) discipline
      (fun _ l' => l' = { l with staged := [], stage := l.committed,
                                 record := l.record.commit l.staged }) E commit l :=
  local_op hl trivial (fun _ => ⟨tidy_of_nil rfl, rfl⟩) nofun

/-- The stage in which the commit of a single assignment ends. -/
def Stage.after (stage : Stage) (w : Write) : Stage :=
  if stage = .checked then if w.isStart then .setup else .leaving else stage

variable {record record' : Record}

/-- Assigning and committing at once, before the rest of the program. -/
theorem save_bind (stage stage' : Stage) {child : Bool} {w : Write} {p : SyncTask β}
    (hpermits : stage.permits w = true) (hend : stage.after w = stage')
    (hrecord : record.commit [(accountId, w)] = record')
    (hp : Safe (localStep jobId) discipline R E p (resting stage' accountId child record')) :
    Safe (localStep jobId) discipline R E
      (do
        SyncTask.stage accountId w
        commit
        p) (resting stage accountId child record) := by
  apply Safe.bind
  refine (stage_spec resting_tidy rfl hpermits fun _ => rfl).post ?_ (fun _ _ _ h => h)
  rintro _ l' hl' rfl
  apply Safe.bind
  refine (commit_spec' hl').post ?_ (fun _ _ _ h => h)
  rintro _ l'' - rfl
  rw [← hend, ← hrecord] at hp
  simpa [resting, Local.committed, Stage.after] using hp

theorem save_spec (stage stage' : Stage) {child : Bool} {w : Write}
    (hpermits : stage.permits w = true) (hend : stage.after w = stage')
    (hrecord : record.commit [(accountId, w)] = record') :
    Safe (localStep jobId) discipline
      (fun _ l' => l' = resting stage' accountId child record') E
      (do
        SyncTask.stage accountId w
        commit) (resting stage accountId child record) := by
  apply Safe.bind
  refine (stage_spec resting_tidy rfl hpermits fun _ => rfl).post ?_ (fun _ _ _ h => h)
  rintro _ l' hl' rfl
  refine (commit_spec' hl').post ?_ (fun _ _ _ h => h)
  rintro _ l'' - rfl
  rw [← hend, ← hrecord]
  simp [resting, Local.committed, Stage.after]

theorem closeWith_spec (stage stage' : Stage) (record' : Record) {child : Bool}
    {w : Time → Write}
    (hpermits : ∀ time, stage.permits (w time) = true)
    (hend : ∀ time, stage.after (w time) = stage')
    (hrecord : ∀ time, record.commit [(accountId, w time)] = record') :
    Safe (localStep jobId) discipline
      (fun _ l' => l' = resting stage' accountId child record') E
      (closeWith accountId w) (resting stage accountId child record) := by
  apply quiet_bind rfl resting_tidy ?_ nofun
  exact fun time => save_spec stage stage' (hpermits time) (hend time) (hrecord time)

end MailFallback
