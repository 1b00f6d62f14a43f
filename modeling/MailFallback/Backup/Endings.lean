import MailFallback.Backup.System
import Mathlib.Data.List.Induction

/-! # The endings of backup jobs

What is committed for a job is final, a completed job has no failure kind, and a policy shows
the end of the job that finished last: in every run in which nobody writes over an ending that
somebody else has committed. -/

namespace MailFallback

open Storage Effects Transition

variable {w : BackupWorld} {db db' : BackupDb} {policyId jobId : Id} {staged : List Pending}
  {last last' : Id → Option Id}

/-- The last status of a policy that goes with the status of a finished job. -/
def BackupStatus.shows : BackupStatus → JobStatus → Bool
  | .completed, .completed | .failed, .failed => true
  | _, _ => false

/-- What is final stays. -/
def Final (db db' : BackupDb) : Prop :=
  ∀ j job job', db.backupJobs.get? j = some job → job.status.isOpen = false →
    db'.backupJobs.get? j = some job' → job'.status = job.status

/-- A completed job has not failed in any way. -/
def CompletedClean (db : BackupDb) : Prop :=
  ∀ j job, db.backupJobs.get? j = some job → job.status = .completed → job.failureKind = none

/-- A policy is shown as running while one of its jobs is, and otherwise with the status of the
job that finished last. -/
def LastAgrees (db : BackupDb) (last : Id → Option Id) : Prop :=
  ∀ p policy, db.policies.get? p = some policy →
    (policy.lastStatus = .running →
      ∃ j job, db.backupJobs.get? j = some job ∧ job.policyId = p ∧ job.status.isOpen = true) ∧
    (policy.lastStatus ≠ .running →
      last p = none ∧ policy.lastStatus = .idle ∨
      ∃ j, last p = some j ∧ ∀ job, db.backupJobs.get? j = some job →
        policy.lastStatus.shows job.status = true)

/-- The ending that a worker is about to commit: the policy's row is not left out of the update
because the session has loaded it with that status; a success meets its job still running; and
after its job has been closed by the watchdog, the job of the policy that finished last has
failed as well. -/
def BackupLocal.Fits (l : BackupLocal) (policyId jobId : Id) (w : BackupWorld) : Prop :=
  ∀ p, lastOutcome l.staged = some p → p.emits = true ∧
    ∀ job, w.db.backupJobs.get? jobId = some job → job.status = .running ∨
      p.write.outcome = some .failed ∧ ∃ k, w.lastFinished policyId = some k ∧
        ∀ job', w.db.backupJobs.get? k = some job' → job'.status = .failed

/-- The steps that write over nothing: a worker commits an ending that fits and cleans up no
running job, and what the watchdog closes is still running, for a policy without a newer
success. -/
def Considerate (w : BackupWorld) : BackupEvent → Prop
  | .work j _ => ∀ wk, w.workers j = some wk → match wk.prog with
      | .perform .commit _ => wk.l.Fits wk.policyId j w
      | .perform (.cleanupOldJobs accountId) _ => ∀ k job, w.db.backupJobs.get? k = some job →
          job.status.isOpen = true → (cleanupOldBackupJobs 150 accountId w.db).backupJobs.get? k = some job
      | _ => True
  | .reap => ∀ row ∈ w.scanned, ∀ job, w.db.backupJobs.get? row.1 = some job →
      job.status = .running ∧ ∀ policy, w.db.policies.get? job.policyId = some policy →
        policy.lastStatus = .running ∨ policy.lastStatus = .failed
  | _ => True

/-! ## What is staged inside the `try` -/

def pendingJob (staged : List Pending) (job : BackupJob) : BackupJob :=
  staged.foldl (fun job p => p.write.job job) job

def pendingPolicy (staged : List Pending) (policy : BackupPolicy) : BackupPolicy :=
  staged.foldl (fun policy p => p.policy policy) policy

theorem lastOutcome_append (p : Pending) : lastOutcome (staged ++ [p]) =
    if p.write.outcome.isSome then some p else lastOutcome staged := by
  unfold lastOutcome
  rw [List.filter_append]
  by_cases hp : p.write.outcome.isSome = true
  · simp [hp]
  · simp [hp]

theorem job_status (w : BackupWrite) (job : BackupJob) :
    (w.job job).status = w.outcome.getD job.status := by
  cases w <;> simp [BackupWrite.job, BackupWrite.outcome]
  split <;> rfl

@[simp] theorem job_policyId (w : BackupWrite) (job : BackupJob) :
    (w.job job).policyId = job.policyId := by
  cases w <;> simp [BackupWrite.job]
  split <;> rfl

@[simp] theorem pendingJob_policyId (job : BackupJob) :
    (pendingJob staged job).policyId = job.policyId := by
  unfold pendingJob
  induction staged generalizing job with
  | nil => rfl
  | cons p staged ih =>
      rw [List.foldl_cons, ih]
      exact job_policyId p.write job

theorem pendingJob_append (p : Pending) (job : BackupJob) :
    pendingJob (staged ++ [p]) job = p.write.job (pendingJob staged job) := by
  simp [pendingJob]

/-- The last assignment that ends the job decides. -/
theorem pendingJob_status (job : BackupJob) :
    (pendingJob staged job).status =
      ((lastOutcome staged).bind (·.write.outcome)).getD job.status := by
  induction staged using List.reverseRecOn with
  | nil => rfl
  | append_singleton staged p ih =>
      rw [pendingJob_append, job_status, ih, lastOutcome_append]
      cases hp : p.write.outcome with
      | none => simp
      | some status => simp [hp]

@[simp] theorem pending_accountId (p : Pending) (policy : BackupPolicy) :
    (p.policy policy).accountId = policy.accountId := by
  have hpolicy : (p.write.policy policy).accountId = policy.accountId := by
    cases p.write <;> simp [BackupWrite.policy]
    split <;> rfl
  unfold Pending.policy
  dsimp only
  split <;> exact hpolicy

@[simp] theorem pendingPolicy_accountId (policy : BackupPolicy) :
    (pendingPolicy staged policy).accountId = policy.accountId := by
  unfold pendingPolicy
  induction staged generalizing policy with
  | nil => rfl
  | cons p staged ih =>
      rw [List.foldl_cons, ih]
      exact pending_accountId p policy

theorem policy_lastStatus (p : Pending) (policy : BackupPolicy) :
    (p.policy policy).lastStatus =
      if p.emits = true then p.write.status.getD policy.lastStatus else policy.lastStatus := by
  have hpolicy : (p.write.policy policy).lastStatus = policy.lastStatus := by
    cases p.write <;> simp [BackupWrite.policy]
    split <;> rfl
  unfold Pending.policy
  dsimp only
  split <;> simp [hpolicy]

/-- Inside the `try` the assignments to `last_status` are those that end the job. -/
theorem status_of_permits {w : BackupWrite} (h : BackupPhase.running.permits w = true) :
    w.status = w.outcome.map fun
      | .completed => .completed
      | _ => .failed := by
  cases w <;> first | rfl | cases h

theorem pendingPolicy_append (p : Pending) (policy : BackupPolicy) :
    pendingPolicy (staged ++ [p]) policy = p.policy (pendingPolicy staged policy) := by
  simp [pendingPolicy]

theorem pendingPolicy_status (hpermits : ∀ p ∈ staged, BackupPhase.running.permits p.write = true)
    (hemits : ∀ p, lastOutcome staged = some p → p.emits = true) (policy : BackupPolicy) :
    (pendingPolicy staged policy).lastStatus =
      ((lastOutcome staged).bind (·.write.status)).getD policy.lastStatus := by
  induction staged using List.reverseRecOn with
  | nil => rfl
  | append_singleton staged p ih =>
      have hp := status_of_permits (hpermits p (by simp))
      rw [pendingPolicy_append, policy_lastStatus]
      rw [lastOutcome_append] at hemits ⊢
      cases houtcome : p.write.outcome with
      | none =>
          rw [houtcome] at hemits hp
          rw [hp, ih (fun q hq => hpermits q (by simp [hq])) (by simpa using hemits)]
          simp
      | some status =>
          rw [houtcome] at hemits hp
          rw [hemits p (by simp), hp]
          simp [hp]

theorem job_failureKind {w : BackupWrite} (h : w.outcome ≠ some .failed) (job : BackupJob) :
    (w.job job).failureKind = job.failureKind := by
  cases w <;> first | rfl | exact absurd rfl h

/-- A success is the only ending that is staged with it. -/
theorem no_failure_staged (htail : ∀ p ∈ staged.tail, p.write.isSuccess = false) {p : Pending}
    (hlast : lastOutcome staged = some p) (hcompleted : p.write.outcome = some .completed) :
    ∀ q ∈ staged, q.write.outcome ≠ some .failed := by
  have hsuccess : p.write.isSuccess = true := by
    cases hw : p.write <;> rw [hw] at hcompleted <;> first | rfl | cases hcompleted
  cases staged with
  | nil => exact nofun
  | cons q rest =>
      have hnone : (rest.filter fun p => p.write.outcome.isSome) = [] := by
        by_contra hsome
        have hp : p ∈ rest.filter fun p => p.write.outcome.isSome := by
          unfold lastOutcome at hlast
          rw [List.filter_cons] at hlast
          split at hlast
          · rw [List.getLast?_cons_of_ne_nil hsome] at hlast
            exact List.mem_of_getLast? hlast
          · exact List.mem_of_getLast? hlast
        rw [htail p (List.mem_of_mem_filter hp)] at hsuccess
        cases hsuccess
      have hq : q = p := by
        unfold lastOutcome at hlast
        rw [List.filter_cons, hnone] at hlast
        split at hlast
        · exact Option.some.inj hlast
        · cases hlast
      intro q' hq' hfailed
      rcases List.mem_cons.mp hq' with rfl | hmem
      · rw [hq, hcompleted] at hfailed
        cases hfailed
      · have hmem' : q' ∈ rest.filter fun p => p.write.outcome.isSome :=
          List.mem_filter.mpr ⟨hmem, by simp [hfailed]⟩
        rw [hnone] at hmem'
        cases hmem'

theorem pendingJob_failureKind (h : ∀ q ∈ staged, q.write.outcome ≠ some .failed)
    (job : BackupJob) : (pendingJob staged job).failureKind = job.failureKind := by
  unfold pendingJob
  induction staged generalizing job with
  | nil => rfl
  | cons q staged ih =>
      obtain ⟨hq, hrest⟩ := List.forall_mem_cons.mp h
      rw [List.foldl_cons, ih hrest]
      exact job_failureKind hq job

/-! ## What a commit makes of the rows -/

theorem pendingBackup_same : (pendingBackup policyId jobId staged db).toDb = db.toDb := by
  unfold pendingBackup
  induction staged generalizing db with
  | nil => rfl
  | cons p staged ih =>
      rw [List.foldl_cons, ih]
      rfl

theorem pendingBackup_policy (p : Id) : (pendingBackup policyId jobId staged db).policies.get? p =
    if p = policyId then (db.policies.get? p).map (pendingPolicy staged)
    else db.policies.get? p := by
  unfold pendingBackup
  induction staged generalizing db with
  | nil =>
      have hid : pendingPolicy [] = id := rfl
      simp [hid]
  | cons q staged ih =>
      rw [List.foldl_cons, ih]
      by_cases hp : p = policyId
      · subst hp
        simp only [if_true, Pending.apply, Table.get?_modify_self, Option.map_map]
        rfl
      · simp only [if_neg hp, Pending.apply, Table.get?_modify_of_ne _ _ hp]

/-- Without a start among the assignments only the row of the job changes. -/
theorem pendingBackup_job (h : ∀ p ∈ staged, p.write.isStart = false) (j : Id) :
    (pendingBackup policyId jobId staged db).backupJobs.get? j =
      if j = jobId then (db.backupJobs.get? j).map (pendingJob staged)
      else db.backupJobs.get? j := by
  unfold pendingBackup
  induction staged generalizing db with
  | nil =>
      have hid : pendingJob [] = id := rfl
      simp [hid]
  | cons q staged ih =>
      obtain ⟨hq, hrest⟩ := List.forall_mem_cons.mp h
      have happly : (q.apply policyId jobId db).backupJobs =
          db.backupJobs.modify jobId q.write.job := by
        unfold Pending.apply
        cases hw : q.write with
        | start a now =>
            rw [hw] at hq
            cases hq
        | _ => rfl
      rw [List.foldl_cons, ih hrest, happly]
      by_cases hj : j = jobId
      · subst hj
        simp only [if_true, Table.get?_modify_self, Option.map_map]
        rfl
      · simp only [if_neg hj, Table.get?_modify_of_ne _ _ hj]

theorem not_start_of_permits {w : BackupWrite} (h : BackupPhase.running.permits w = true) :
    w.isStart = false := by
  cases w <;> first | rfl | cases h

/-! ## Policies and endings -/

/-- A job of the policy ends, or its ending is written again, and the policy shows it. -/
theorem LastAgrees.ended (h : LastAgrees db last) {p j k : Id}
    (hpolicies : ∀ q, q ≠ p → db'.policies.get? q = db.policies.get? q)
    (hrows : ∀ i, i ≠ j → db'.backupJobs.get? i = db.backupJobs.get? i)
    (hjob : ∀ job, db.backupJobs.get? j = some job → job.policyId = p)
    (hlast : ∀ q, q ≠ p → last' q = last q) (hother : ∀ q, q ≠ p → last q ≠ some j)
    (hp : last' p = some k)
    (hshows : ∀ policy, db'.policies.get? p = some policy → policy.lastStatus ≠ .running ∧
      ∀ job, db'.backupJobs.get? k = some job → policy.lastStatus.shows job.status = true) :
    LastAgrees db' last' := by
  intro q policy hq
  by_cases hqp : q = p
  · subst hqp
    obtain ⟨hnot, hshown⟩ := hshows policy hq
    exact ⟨fun hrunning => absurd hrunning hnot, fun _ => .inr ⟨k, hp, hshown⟩⟩
  · rw [hpolicies q hqp] at hq
    obtain ⟨hrunning, hnot⟩ := h q policy hq
    refine ⟨fun hr => ?_, fun hn => ?_⟩
    · obtain ⟨i, job, hi, hiq, hopen⟩ := hrunning hr
      refine ⟨i, job, ?_, hiq, hopen⟩
      rw [hrows i]
      · exact hi
      · rintro rfl
        exact hqp (hiq.symm.trans (hjob job hi))
    · rcases hnot hn with ⟨hnone, hidle⟩ | ⟨i, hi, hshown⟩
      · exact .inl ⟨(hlast q hqp).trans hnone, hidle⟩
      · refine .inr ⟨i, (hlast q hqp).trans hi, fun job hjob' => ?_⟩
        rw [hrows i] at hjob'
        · exact hshown job hjob'
        · rintro rfl
          exact hother q hqp hi

/-- No ending is committed. -/
theorem LastAgrees.steady (h : LastAgrees db last)
    (hpolicies : ∀ q policy', db'.policies.get? q = some policy' →
      ∃ policy, db.policies.get? q = some policy ∧ policy'.lastStatus = policy.lastStatus)
    (hopen : ∀ i job, db.backupJobs.get? i = some job → job.status.isOpen = true →
      ∃ job', db'.backupJobs.get? i = some job' ∧ job'.policyId = job.policyId ∧
        job'.status = job.status)
    (hrows : ∀ q i, last q = some i → ∀ job', db'.backupJobs.get? i = some job' →
      ∃ job, db.backupJobs.get? i = some job ∧ job'.status = job.status) :
    LastAgrees db' last := by
  intro q policy' hq
  obtain ⟨policy, hpolicy, hsame⟩ := hpolicies q policy' hq
  obtain ⟨hrunning, hnot⟩ := h q policy hpolicy
  rw [hsame]
  refine ⟨fun hr => ?_, fun hn => ?_⟩
  · obtain ⟨i, job, hi, hiq, ho⟩ := hrunning hr
    obtain ⟨job', hi', hid, hstatus⟩ := hopen i job hi ho
    exact ⟨i, job', hi', hid.trans hiq, by rw [hstatus]; exact ho⟩
  · rcases hnot hn with hidle | ⟨i, hi, hshown⟩
    · exact .inl hidle
    · refine .inr ⟨i, hi, fun job' hjob' => ?_⟩
      obtain ⟨job, hjob, hstatus⟩ := hrows q i hi job' hjob'
      rw [hstatus]
      exact hshown job hjob

end MailFallback
