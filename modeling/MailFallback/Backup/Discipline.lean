import MailFallback.Backup.Semantics

/-! # How far a backup worker has come

A worker adds its row once, and commits one outcome for it. -/

namespace MailFallback

open Storage Effects BackupTask

inductive BackupPhase where
  /-- Nothing has been read. -/
  | fresh
  /-- The account of the policy does not exist. -/
  | missing
  /-- The job has not been committed. -/
  | opening
  /-- The job has been committed as running. -/
  | running
  /-- There is nothing more to write. -/
  | ended
  deriving DecidableEq, Repr

def BackupPhase.permits : BackupPhase → BackupWrite → Bool
  | .missing, .accountNotFound | .opening, .start .. => true
  | .running, .success .. | .running, .bytes .. | .running, .snapshots ..
  | .running, .failure .. => true
  | _, _ => false

def BackupWrite.isStart : BackupWrite → Bool
  | .start .. => true
  | _ => false

def BackupWrite.isSuccess : BackupWrite → Bool
  | .success .. => true
  | _ => false

/-- The status in which the write ends a job. -/
def BackupWrite.outcome : BackupWrite → Option JobStatus
  | .success .. => some .completed
  | .failure .. => some .failed
  | _ => none

/-- The last of the assignments that end the job. -/
def lastOutcome (staged : List Pending) : Option Pending :=
  (staged.filter fun p => p.write.outcome.isSome).getLast?

/-- The session of a worker: what it has assigned, and `last_status` as it was loaded, unless
a commit has expired it. -/
structure BackupLocal where
  phase : BackupPhase := .fresh
  staged : List Pending := []
  seen : Option BackupStatus := none

/-- The rows as read at the beginning. -/
def BackupLocal.read (l : BackupLocal) (policyId : Id) (db : BackupDb) : BackupLocal :=
  match db.policies.get? policyId with
  | none => { l with phase := .ended }
  | some backup =>
      { l with phase := if (db.accounts.get? backup.accountId).isSome then .opening else .missing,
               seen := some backup.lastStatus }

/-- An assignment; it is an update of `last_status` unless that value was loaded. -/
def BackupLocal.assign (l : BackupLocal) (w : BackupWrite) : BackupLocal :=
  { l with
    staged := l.staged ++ [⟨w, w.status.isSome && decide (l.seen ≠ w.status)⟩]
    seen := w.status.or l.seen }

/-- The phase after a commit. -/
def BackupLocal.committed (l : BackupLocal) : BackupPhase :=
  if l.phase = .opening ∧ (l.staged.any fun p => p.write.isStart) = true then .running
  else if l.phase = .running ∧ (lastOutcome l.staged).isSome then .ended
  else l.phase

def BackupLocal.next (policyId : Id) (l : BackupLocal) :
    (o : BackupOp) → Except BackupExc (BackupAns o) → BackupLocal
  | .view, .ok (db : BackupDb) => l.read policyId db
  | .stage w, .ok _ => l.assign w
  | .commit, .ok _ => { l with phase := l.committed, staged := [], seen := none }
  | .commit, .error _ => { l with staged := [], seen := none }
  | .loadPolicy, .ok (p : BackupPolicy) => { l with seen := l.seen.or (some p.lastStatus) }
  | .recordSnapshot _, .ok (committed : Bool) =>
      { l with seen := if committed = true then none else l.seen }
  | .pruneSnapshot _, .ok _ => { l with seen := none }
  | _, _ => l

def backupStep (policyId : Id) : Machine BackupOp BackupAns BackupExc BackupLocal
  | o, l, .ok a => some (l.next policyId o (.ok a))
  | o, l, .error e => if o.fallible = true then some (l.next policyId o (.error e)) else none

/-- Everything staged belongs to the phase, the start stands alone, and a success comes before
anything else. -/
def BackupLocal.Tidy (l : BackupLocal) : Prop :=
  (∀ p ∈ l.staged, l.phase.permits p.write = true) ∧
    (l.phase = .opening → l.staged.length ≤ 1) ∧
    ∀ p ∈ l.staged.tail, p.write.isSuccess = false

def BackupLocal.allows (l : BackupLocal) : BackupOp → Prop
  | .view => l.phase = .fresh
  | .stage w => l.phase.permits w = true ∧
      (l.phase = .opening ∨ w.isSuccess = true → l.staged = [])
  | .recordSnapshot _ | .pruneSnapshot _ => l.staged = []
  | _ => True

def backupDiscipline : Contract BackupOp BackupLocal where
  crash := BackupLocal.Tidy
  allow := fun o l => l.allows o

/-! ## Single operations -/

variable {policyId accountId : Id} {l l' : BackupLocal} {o : BackupOp} {α β : Type}
  {E : BackupExc → BackupLocal → Prop} {R : β → BackupLocal → Prop}

theorem backupStep_eq {r : Except BackupExc (BackupAns o)}
    (h : backupStep policyId o l r = some l') : l' = l.next policyId o r := by
  cases r with
  | ok a => exact (Option.some.inj h).symm
  | error e => exact (Option.some.inj (Option.ite_none_right_eq_some.mp h).2).symm

/-- The worker holds what it held, but for what it has loaded. -/
def SamePlace (l l' : BackupLocal) : Prop := l'.phase = l.phase ∧ l'.staged = l.staged

theorem SamePlace.tidy (h : SamePlace l l') (hl : l.Tidy) : l'.Tidy := by
  unfold BackupLocal.Tidy
  rw [h.1, h.2]
  exact hl

theorem SamePlace.trans {l'' : BackupLocal} (h : SamePlace l l') (h' : SamePlace l' l'') :
    SamePlace l l'' := ⟨h'.1.trans h.1, h'.2.trans h.2⟩

/-- The operations that change neither the phase nor what is staged. -/
def BackupOp.quiet : BackupOp → Bool
  | .view | .stage _ | .commit => false
  | _ => true

theorem next_samePlace {r : Except BackupExc (BackupAns o)} (h : o.quiet = true) :
    SamePlace l (l.next policyId o r) := by
  cases r <;> cases o <;> first | exact ⟨rfl, rfl⟩ | cases h

theorem stage_op {w : BackupWrite} (hl : l.Tidy) (hw : l.phase.permits w = true)
    (hfirst : l.phase = .opening ∨ w.isSuccess = true → l.staged = []) :
    Safe (backupStep policyId) backupDiscipline (fun _ l' => l' = l.assign w) E (stage w) l := by
  refine Safe.op hl (show l.allows (.stage w) from ⟨hw, hfirst⟩) ?_ ?_
  · rintro a l' ⟨⟩
    refine ⟨⟨fun p hp => ?_, fun hopening => ?_, fun p hp => ?_⟩, rfl⟩
    · rcases List.mem_append.mp hp with hp | hp
      · exact hl.1 p hp
      · rw [List.mem_singleton] at hp
        subst hp
        exact hw
    · simp [BackupLocal.next, BackupLocal.assign, hfirst (.inl hopening)]
    · cases hstaged : l.staged with
      | nil =>
          simp [BackupLocal.next, BackupLocal.assign, hstaged] at hp
      | cons q rest =>
          simp only [BackupLocal.next, BackupLocal.assign, hstaged, List.cons_append,
            List.tail_cons] at hp
          rcases List.mem_append.mp hp with hp | hp
          · exact hl.2.2 p (by rw [hstaged]; exact hp)
          · rw [List.mem_singleton] at hp
            subst hp
            by_contra hsuccess
            rw [hfirst (.inr (by simpa using hsuccess))] at hstaged
            cases hstaged
  · exact nofun

theorem tidy_nil (h : l.staged = []) : l.Tidy := by
  unfold BackupLocal.Tidy
  rw [h]
  exact ⟨nofun, fun _ => Nat.zero_le 1, nofun⟩

theorem commit_op (hl : l.Tidy) :
    Safe (backupStep policyId) backupDiscipline
      (fun _ l' => l'.phase = l.committed ∧ l'.staged = [])
      (fun _ l' => l'.phase = l.phase ∧ l'.staged = []) commit l := by
  apply Safe.op hl trivial
  · rintro a l' ⟨⟩
    exact ⟨tidy_nil rfl, rfl, rfl⟩
  · rintro e l' ⟨⟩
    exact ⟨tidy_nil rfl, rfl, rfl⟩

/-- The job is running and nothing is staged. -/
def Steady (l : BackupLocal) : Prop := l.phase = .running ∧ l.staged = []

theorem Steady.tidy (h : Steady l) : l.Tidy := tidy_nil h.2

theorem quiet_op (ho : o.quiet = true) (hl : Steady l) :
    Safe (backupStep policyId) backupDiscipline (fun _ => Steady) (fun _ => Steady) (op o) l := by
  have hallow : l.allows o := by
    cases o <;> first | trivial | exact hl.2
  have hsteady : ∀ r, Steady (l.next policyId o r) := by
    intro r
    have hsame : SamePlace l (l.next policyId o r) := next_samePlace ho
    exact ⟨hsame.1.trans hl.1, hsame.2.trans hl.2⟩
  apply Safe.op hl.tidy hallow
  · rintro a l' ⟨⟩
    exact ⟨(hsteady _).tidy, hsteady _⟩
  · intro e l' h
    rw [backupStep_eq h]
    exact ⟨(hsteady _).tidy, hsteady _⟩

/-- A quiet operation inside the `try` and the rest of the program. -/
theorem backup_bind {f : BackupAns o → BackupTask β} (ho : o.quiet = true) (hl : Steady l)
    (hf : ∀ a l', Steady l' → Safe (backupStep policyId) backupDiscipline R (fun _ => Steady) (f a) l') :
    Safe (backupStep policyId) backupDiscipline R (fun _ => Steady) (Prog.bind (op o) f) l := by
  apply Safe.bind
  exact (quiet_op ho hl).post (fun a l' _ => hf a l') fun _ _ _ h => h

/-! ## The program -/

theorem backupPhase_spec (hl : Steady l) :
    Safe (backupStep policyId) backupDiscipline (fun _ => Steady) (fun _ => Steady)
      backupPhase l := by
  refine backup_bind rfl hl fun _ l₁ h₁ => backup_bind rfl h₁ fun _ l₂ h₂ =>
    backup_bind rfl h₂ fun ready l₃ h₃ => ?_
  split
  · refine backup_bind rfl h₃ fun _ l₄ h₄ => backup_bind rfl h₄ fun _ l₅ h₅ =>
      backup_bind rfl h₅ fun _ l₆ h₆ => backup_bind rfl h₆ fun summary l₇ h₇ =>
        backup_bind rfl h₇ fun _ l₈ h₈ => ⟨h₈.tidy, h₈⟩
  · exact ⟨h₃.tidy, h₃⟩

/-- An operation whose failure is swallowed. -/
theorem swallowed (ho : o.quiet = true) (hl : Steady l) {a : BackupAns o} :
    Safe (backupStep policyId) backupDiscipline (fun _ => Steady) (fun _ => Steady)
      ((op o).handle fun _ => pure a) l := by
  apply Safe.handle
  exact (quiet_op ho hl).post (fun _ _ _ h => h) fun _ _ hc h => ⟨hc, h⟩

theorem recordPhase_spec (hl : Steady l) (summary : Summary) :
    Safe (backupStep policyId) backupDiscipline (fun _ => Steady) (fun _ => Steady)
      (recordPhase summary) l := by
  unfold recordPhase
  split
  · refine backup_bind rfl hl fun _ l₁ h₁ => ?_
    apply Safe.bind
    exact (swallowed rfl h₁).post (fun _ _ hc h => ⟨hc, h⟩) fun _ _ _ h => h
  · exact ⟨hl.tidy, hl⟩

theorem retentionPhase_spec (hl : Steady l) :
    Safe (backupStep policyId) backupDiscipline (fun _ => Steady) (fun _ => Steady)
      retentionPhase l := by
  refine backup_bind rfl hl fun _ l₁ h₁ => backup_bind rfl h₁ fun _ l₂ h₂ =>
    backup_bind rfl h₂ fun removed l₃ h₃ => ?_
  refine Safe.foldlM (fun _ _ => Steady) removed h₃ h₃.tidy ?_
  intro done snapshotId rest _ l₄ _ _ h₄
  exact swallowed rfl h₄

/-- The job is running, and assignments of its ending may be staged. -/
def Busy (l : BackupLocal) : Prop := l.phase = .running ∧ l.Tidy

theorem Steady.busy (h : Steady l) : Busy l := ⟨h.1, h.tidy⟩

theorem busy_op (ho : o.quiet = true) (ha : l.allows o) (hl : Busy l) :
    Safe (backupStep policyId) backupDiscipline (fun _ => Busy) (fun _ => Busy) (op o) l := by
  have hbusy : ∀ r, Busy (l.next policyId o r) := by
    intro r
    have hsame : SamePlace l (l.next policyId o r) := next_samePlace ho
    exact ⟨hsame.1.trans hl.1, hsame.tidy hl.2⟩
  apply Safe.op hl.2 ha
  · rintro a l' ⟨⟩
    exact ⟨(hbusy _).2, hbusy _⟩
  · intro e l' h
    rw [backupStep_eq h]
    exact ⟨(hbusy _).2, hbusy _⟩

theorem busy_stage {w : BackupWrite} (hl : Busy l)
    (hw : BackupPhase.running.permits w = true) (hfirst : w.isSuccess = true → l.staged = []) :
    Safe (backupStep policyId) backupDiscipline (fun _ => Busy) E (stage w) l := by
  refine (stage_op hl.2 (by rw [hl.1]; exact hw) ?_).post ?_ fun _ _ _ h => h
  · rw [hl.1]
    exact fun h => hfirst (h.resolve_left nofun)
  · rintro _ l' hc rfl
    exact ⟨hl.1, hc⟩

/-- The assignments of a success are staged, or some of them. -/
theorem recordSuccess_spec (hl : Steady l) (summary : Summary) :
    Safe (backupStep policyId) backupDiscipline (fun _ => Busy) (fun _ => Busy)
      (recordSuccess summary) l := by
  refine Safe.bind ((quiet_op (o := .now) rfl hl).post ?_ fun _ _ _ h => h.busy)
  intro time l₁ _ h₁
  refine Safe.bind ((busy_stage h₁.busy rfl fun _ => h₁.2).post ?_ fun _ _ _ h => h)
  intro _ l₂ _ h₂
  refine Safe.bind ((busy_op (o := .byteCounts) rfl trivial h₂).post ?_ fun _ _ _ h => h)
  rintro ⟨processed, added⟩ l₃ _ h₃
  refine Safe.bind ((busy_stage (w := .bytes processed added) h₃ rfl nofun).post ?_ fun _ _ _ h => h)
  intro _ l₄ _ h₄
  apply Safe.handle
  refine Safe.bind ((busy_op (o := .listSnapshots) rfl trivial h₄).post ?_ fun _ _ hc h => ⟨hc, h⟩)
  rintro ⟨count, latest⟩ l₅ _ h₅
  exact busy_stage h₅ rfl nofun

theorem runPhases_spec (hl : Steady l) :
    Safe (backupStep policyId) backupDiscipline (fun _ => Busy) (fun _ => Busy) runPhases l := by
  refine Safe.bind ((backupPhase_spec hl).post ?_ fun _ _ _ h => h.busy)
  intro summary l₁ _ h₁
  refine Safe.bind ((recordPhase_spec h₁ summary).post ?_ fun _ _ _ h => h.busy)
  intro _ l₂ _ h₂
  refine Safe.bind ((retentionPhase_spec h₂).post ?_ fun _ _ _ h => h.busy)
  intro _ l₃ _ h₃
  exact recordSuccess_spec h₃ summary

theorem backupFailed_spec (hl : Busy l) (text : String) :
    Safe (backupStep policyId) backupDiscipline (fun _ _ => True) (fun _ _ => True)
      (backupFailed text) l := by
  refine Safe.bind ((busy_op (o := .refreshJob) rfl trivial hl).post ?_ fun _ _ _ _ => trivial)
  intro job l₁ _ h₁
  refine Safe.bind ((busy_op (o := .now) rfl trivial h₁).post ?_ fun _ _ _ _ => trivial)
  intro time l₂ _ h₂
  apply Safe.bind
  refine (busy_stage (w := .failure text time _) h₂ rfl nofun).post ?_ fun _ _ _ h => h
  intro _ l₃ _ h₃
  apply Safe.handle
  exact (commit_op h₃.2).post (fun _ _ _ _ => trivial) fun _ _ hc _ => ⟨hc, trivial⟩

/-- The clean-up assigns nothing. -/
theorem backupCleanUp_spec (hl : l.Tidy) (accountId : Id) :
    Safe (backupStep policyId) backupDiscipline (fun _ _ => True) (fun _ _ => True)
      (backupCleanUp accountId) l := by
  refine Safe.bind (Safe.op hl trivial ?_ nofun)
  rintro _ _ ⟨⟩
  refine ⟨hl, Safe.bind ((commit_op hl).post ?_ fun _ _ _ _ => trivial)⟩
  intro _ l₁ hc₁ _
  apply Safe.handle
  refine Safe.op hc₁ (show l₁.allows (.cleanupOldJobs accountId) from trivial) ?_ ?_
  · rintro _ _ ⟨⟩
    exact ⟨hc₁, trivial⟩
  · rintro _ _ ⟨⟩
    exact ⟨hc₁, hc₁, trivial⟩

/-- Once the job is committed as running. -/
theorem opened_spec (hl : Steady l) (accountId : Id) :
    Safe (backupStep policyId) backupDiscipline (fun _ _ => True) (fun _ _ => True)
      (do
        let _ ← refreshJob
        tick
        (runPhases.handle backupFailed).ensure (backupCleanUp accountId)) l := by
  refine Safe.bind ((quiet_op rfl hl).post ?_ fun _ _ _ _ => trivial)
  intro job l₁ _ h₁
  refine Safe.bind ((quiet_op rfl h₁).post ?_ fun _ _ _ _ => trivial)
  intro _ l₂ _ h₂
  apply Safe.ensure
  apply Safe.handle
  refine (runPhases_spec h₂).post ?_ ?_
  · intro _ l₃ hc₃ _
    exact backupCleanUp_spec hc₃ accountId
  · intro text l₃ _ h₃
    refine (backupFailed_spec h₃ text).post ?_ ?_
    · intro _ l₄ hc₄ _
      exact backupCleanUp_spec hc₄ accountId
    · intro _ l₄ hc₄ _
      exact backupCleanUp_spec hc₄ accountId

theorem missing_spec (hl : l.phase = .missing) (hstaged : l.staged = []) :
    Safe (backupStep policyId) backupDiscipline (fun _ _ => True) (fun _ _ => True)
      (do
        stage .accountNotFound
        commit) l := by
  apply Safe.bind
  refine (stage_op (tidy_nil hstaged) (by rw [hl]; rfl) fun _ => hstaged).post ?_ fun _ _ _ h => h
  rintro _ l₁ hc₁ rfl
  exact (commit_op hc₁).post (fun _ _ _ _ => trivial) fun _ _ _ _ => trivial

theorem opening_spec (hl : l.phase = .opening) (hstaged : l.staged = []) (accountId : Id) :
    Safe (backupStep policyId) backupDiscipline (fun _ _ => True) (fun _ _ => True)
      (do
        let time ← now
        stage (.start accountId time)
        commit
        let _ ← refreshJob
        tick
        (runPhases.handle backupFailed).ensure (backupCleanUp accountId)) l := by
  apply Safe.bind
  refine Safe.op (tidy_nil hstaged) (show l.allows .now from trivial) ?_ nofun
  rintro time _ ⟨⟩
  refine ⟨tidy_nil hstaged, ?_⟩
  apply Safe.bind
  refine (stage_op (tidy_nil hstaged) ?_ fun _ => hstaged).post ?_ fun _ _ _ h => h
  · rw [hl]
    rfl
  rintro _ l₁ hc₁ rfl
  apply Safe.bind
  refine (commit_op hc₁).post ?_ fun _ _ _ _ => trivial
  rintro _ l₂ _ ⟨hphase, hempty⟩
  refine opened_spec ⟨hphase.trans ?_, hempty⟩ accountId
  simp [BackupLocal.committed, BackupLocal.assign, hl, BackupWrite.isStart]

/-- The worker keeps to its discipline from the beginning. -/
theorem executeBackup_disciplined (policyId : Id) :
    Safe (backupStep policyId) backupDiscipline (fun _ _ => True) (fun _ _ => True)
      (executeBackup policyId) {} := by
  refine Safe.bind (Safe.op (tidy_nil rfl) rfl ?_ nofun)
  rintro db _ ⟨⟩
  have htidy : ((({} : BackupLocal).next policyId .view (.ok db))).Tidy := by
    apply tidy_nil
    change (({} : BackupLocal).read policyId db).staged = []
    unfold BackupLocal.read
    split <;> rfl
  refine ⟨htidy, ?_⟩
  change Safe _ _ _ _ _ (({} : BackupLocal).read policyId db)
  cases hpolicy : db.policies.get? policyId with
  | none => exact ⟨htidy, trivial⟩
  | some backup =>
      dsimp only
      cases haccount : db.accounts.get? backup.accountId with
      | none =>
          refine missing_spec ?_ ?_
          · simp [BackupLocal.read, hpolicy, haccount]
          · simp [BackupLocal.read, hpolicy]
      | some account =>
          refine opening_spec ?_ ?_ backup.accountId
          · simp [BackupLocal.read, hpolicy, haccount]
          · simp [BackupLocal.read, hpolicy]

end MailFallback
