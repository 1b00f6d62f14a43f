import MailFallback.Backup.Endings

/-! # What a considerate step keeps

The rows of the jobs, the sessions of their workers and the policies, as long as no ending is
written over another one. -/

namespace MailFallback

open Storage Effects

variable {w w' : BackupWorld} {db db' : BackupDb} {policyId jobId accountId : Id}
  {l l' : BackupLocal} {last : Id → Option Id}

/-- The job has been committed, if its row is not gone again. -/
def BackupWorld.Taken (j : Id) (w : BackupWorld) : Prop :=
  j ∈ w.used ∧ ∀ wk, w.workers j = some wk → wk.l.phase = .running ∨ wk.l.phase = .ended

structure BackupWorld.Orderly (w : BackupWorld) : Prop where
  disciplined : ∀ j wk, w.workers j = some wk → j ∈ w.used ∧
    Safe (backupStep wk.policyId) backupDiscipline (fun _ _ => True) (fun _ _ => True) wk.prog wk.l
  present : ∀ j wk, w.workers j = some wk → wk.l.phase ≠ .missing
  rows : ∀ j job, w.db.backupJobs.get? j = some job → w.Taken j
  own : ∀ j wk, w.workers j = some wk → wk.l.phase = .running →
    ∀ job, w.db.backupJobs.get? j = some job →
      job.policyId = wk.policyId ∧ job.status ≠ .completed
  hosted : ∀ p policy, w.db.policies.get? p = some policy →
    (w.db.accounts.get? policy.accountId).isSome
  clean : ∀ j job, w.db.backupJobs.get? j = some job → job.status = .failed ∨
    (job.status = .running ∨ job.status = .completed) ∧ job.failureKind = none
  loaded : ∀ row ∈ w.scanned, w.Taken row.1 ∧
    ∀ job, w.db.backupJobs.get? row.1 = some job → job.policyId = row.2.policyId
  distinct : (w.scanned.map Prod.fst).Nodup
  history : ∀ p j, w.lastFinished p = some j → w.Taken j ∧
    ∀ job, w.db.backupJobs.get? j = some job → job.policyId = p
  agrees : LastAgrees w.db w.lastFinished

/-- A step from an orderly state to another one: what was committed stays so, and what was final
has not changed. -/
structure BackupWorld.Follows (w w' : BackupWorld) : Prop where
  orderly : w'.Orderly
  taken : ∀ j, w.Taken j → w'.Taken j
  final : ∀ j, w.Taken j → ∀ job', w'.db.backupJobs.get? j = some job' →
    ∃ job, w.db.backupJobs.get? j = some job ∧
      (job.status.isOpen = false → job'.status = job.status)

/-- A worker never gets back before the commit of its row. -/
theorem next_taken {o : BackupOp} {r : Except BackupExc (BackupAns o)} (hallow : l.allows o)
    (hstep : backupStep policyId o l r = some l') (h : l.phase = .running ∨ l.phase = .ended) :
    l'.phase = .running ∨ l'.phase = .ended := by
  rw [backupStep_eq hstep]
  by_cases hquiet : o.quiet = true
  · rw [(next_samePlace hquiet).1]
    exact h
  · cases o with
    | view =>
        rcases h with h | h <;> cases h.symm.trans hallow
    | stage w =>
        cases r with
        | ok a => exact h
        | error e => cases hstep
    | commit =>
        cases r with
        | error e => exact h
        | ok a =>
            change l.committed = _ ∨ l.committed = _
            unfold BackupLocal.committed
            split
            · exact .inl rfl
            · split
              · exact .inr rfl
              · exact h
    | _ => exact absurd rfl hquiet

/-- What a step of a worker is. -/
theorem backup_work_cases {reply : (o : BackupOp) → Except BackupExc (BackupAns o)}
    (h : w.work jobId reply = some w') :
    (∃ wk, w.workers jobId = some wk ∧
      w' = { w with workers := Function.update w.workers jobId none }) ∨
    ∃ o k policyId l l' db w'', w.workers jobId = some ⟨policyId, .perform o k, l⟩ ∧
      backupStep policyId o l (reply o) = some l' ∧
      backupSession policyId jobId l w.db o (reply o) = some db ∧
      w.perform jobId o (reply o) = some w'' ∧
      w' = { w'' with
        db := db
        workers := Function.update w.workers jobId (some ⟨policyId, k (reply o), l'⟩)
        lastFinished := BackupWorld.finish policyId jobId w.db.backupJobs db.backupJobs
          w.lastFinished } := by
  unfold BackupWorld.work at h
  split at h
  · cases h
  · rename_i policyId o k l hworker
    obtain ⟨l', hl, h⟩ := Option.bind_eq_some_iff.mp h
    obtain ⟨db, hdb, h⟩ := Option.bind_eq_some_iff.mp h
    obtain ⟨w'', hw, h⟩ := Option.bind_eq_some_iff.mp h
    obtain rfl := Option.some.inj h
    exact .inr ⟨o, k, policyId, l, l', db, w'', hworker, hl, hdb, hw, rfl⟩
  · rename_i wk hprog hworker
    exact .inl ⟨wk, hworker, (Option.some.inj h).symm⟩

/-- Everything but the heartbeats and the processes. -/
theorem perform_rows {o : BackupOp} {r : Except BackupExc (BackupAns o)}
    (h : w.perform jobId o r = some w') :
    w'.used = w.used ∧ w'.scanned = w.scanned ∧ w'.clock = w.clock := by
  cases r with
  | error e => cases o <;> exact (Option.some.inj h) ▸ ⟨rfl, rfl, rfl⟩
  | ok a =>
      cases o with
      | now => exact (Option.some.inj (Option.ite_none_right_eq_some.mp h).2) ▸ ⟨rfl, rfl, rfl⟩
      | _ => exact (Option.some.inj h) ▸ ⟨rfl, rfl, rfl⟩

/-- The only operations of a session that change rows. -/
theorem backupSession_same {o : BackupOp} {r : Except BackupExc (BackupAns o)}
    (hcommit : o ≠ .commit) (hcleanup : ∀ a, o ≠ .cleanupOldJobs a)
    (h : backupSession policyId jobId l db o r = some db') : db' = db := by
  cases r with
  | error e =>
      cases o with
      | commit => exact absurd rfl hcommit
      | refreshJob => exact (Option.some.inj (Option.ite_none_right_eq_some.mp h).2).symm
      | _ => exact (Option.some.inj h).symm
  | ok a =>
      cases o with
      | commit => exact absurd rfl hcommit
      | cleanupOldJobs accountId => exact absurd rfl (hcleanup accountId)
      | view => exact (Option.some.inj (Option.ite_none_right_eq_some.mp h).2).symm
      | refreshJob => exact (Option.some.inj (Option.ite_none_right_eq_some.mp h).2).symm
      | loadPolicy => exact (Option.some.inj (Option.ite_none_right_eq_some.mp h).2).symm
      | _ => exact (Option.some.inj h).symm

theorem finish_same (policyId jobId : Id) (jobs : Table Id BackupJob) (last : Id → Option Id) :
    BackupWorld.finish policyId jobId jobs jobs last = last := by
  unfold BackupWorld.finish
  cases jobs.get? jobId with
  | none => rfl
  | some job => cases hopen : job.status.isOpen <;> simp [hopen]

/-! ## Steps of a worker -/

/-- What an operation of a worker makes of the rows: no other job is written, and a row is
added only by the commit that opens the job. -/
structure Touches (policyId jobId : Id) (l l' : BackupLocal) (db db' : BackupDb) : Prop where
  same : db'.toDb = db.toDb
  policies : ∀ p policy', db'.policies.get? p = some policy' →
    ∃ policy, db.policies.get? p = some policy ∧ policy'.accountId = policy.accountId
  other : ∀ j, j ≠ jobId → ∀ job', db'.backupJobs.get? j = some job' →
    db.backupJobs.get? j = some job'
  self : ∀ job', db'.backupJobs.get? jobId = some job' →
    (∃ job, db.backupJobs.get? jobId = some job ∧ job'.policyId = job.policyId) ∨
      l.phase = .opening ∧ l'.phase = .running ∧ job'.policyId = policyId
  own : l'.phase = .running → ∀ job', db'.backupJobs.get? jobId = some job' →
    job'.policyId = policyId ∧ job'.status ≠ .completed
  clean : ∀ job', db'.backupJobs.get? jobId = some job' → job'.status = .failed ∨
    (job'.status = .running ∨ job'.status = .completed) ∧ job'.failureKind = none
  final : ∀ job job', db.backupJobs.get? jobId = some job →
    db'.backupJobs.get? jobId = some job' → job.status.isOpen = false → job'.status = job.status

theorem BackupWorld.Orderly.move {o : BackupOp} {k : Except BackupExc (BackupAns o) → BackupTask Unit}
    {r : Except BackupExc (BackupAns o)} {procs : List Id} {progress : Id → Option Time}
    (h : w.Orderly) (hwk : w.workers jobId = some ⟨policyId, .perform o k, l⟩)
    (hstep : backupStep policyId o l r = some l') (hpresent : l'.phase ≠ .missing)
    (htouches : Touches policyId jobId l l' w.db db)
    (hlast : ∀ p j, last p = some j → w.lastFinished p = some j ∨
      j = jobId ∧ l.phase = .running ∧ p = policyId)
    (hagrees : LastAgrees db last) :
    w.Follows { w with
      db := db
      procs := procs
      progress := progress
      workers := Function.update w.workers jobId (some ⟨policyId, k r, l'⟩)
      lastFinished := last } := by
  obtain ⟨hmem, hsafe⟩ := h.disciplined jobId _ hwk
  have htaken : ∀ j, w.Taken j → j ∈ w.used ∧ ∀ wk,
      (Function.update w.workers jobId (some ⟨policyId, k r, l'⟩)) j = some wk →
        wk.l.phase = .running ∨ wk.l.phase = .ended := by
    rintro j ⟨hj, hphase⟩
    refine ⟨hj, fun wk hwk' => ?_⟩
    by_cases hjj : j = jobId
    · subst hjj
      rw [Function.update_self] at hwk'
      obtain rfl := Option.some.inj hwk'
      exact next_taken hsafe.2.1 hstep (hphase _ hwk)
    · rw [Function.update_of_ne hjj] at hwk'
      exact hphase wk hwk'
  have hrow : ∀ j, w.Taken j → ∀ job', db.backupJobs.get? j = some job' →
      ∃ job, w.db.backupJobs.get? j = some job ∧ job'.policyId = job.policyId := by
    intro j hj job' hjob'
    by_cases hjj : j = jobId
    · subst hjj
      rcases htouches.self job' hjob' with hold | ⟨hopening, -, -⟩
      · exact hold
      · rcases hj.2 _ hwk with hp | hp <;> cases hp.symm.trans hopening
    · exact ⟨job', htouches.other j hjj job' hjob', rfl⟩
  refine ⟨?_, htaken, fun j hj job' hjob' => ?_⟩
  swap
  · by_cases hjj : j = jobId
    · subst hjj
      obtain ⟨job, hjob, -⟩ := hrow j hj job' hjob'
      exact ⟨job, hjob, htouches.final job job' hjob hjob'⟩
    · exact ⟨job', htouches.other j hjj job' hjob', fun _ => rfl⟩
  constructor
  · intro j wk hwk'
    dsimp only at hwk'
    by_cases hjj : j = jobId
    · subst hjj
      rw [Function.update_self] at hwk'
      obtain rfl := Option.some.inj hwk'
      exact ⟨hmem, hsafe.2.2 _ _ hstep⟩
    · rw [Function.update_of_ne hjj] at hwk'
      exact h.disciplined j wk hwk'
  · intro j wk hwk'
    dsimp only at hwk'
    by_cases hjj : j = jobId
    · subst hjj
      rw [Function.update_self] at hwk'
      obtain rfl := Option.some.inj hwk'
      exact hpresent
    · rw [Function.update_of_ne hjj] at hwk'
      exact h.present j wk hwk'
  · intro j job' hjob'
    by_cases hjj : j = jobId
    · subst hjj
      rcases htouches.self job' hjob' with ⟨job, hjob, -⟩ | ⟨-, hrunning, -⟩
      · exact htaken j (h.rows j job hjob)
      · refine ⟨hmem, fun wk hwk' => ?_⟩
        dsimp only at hwk'
        rw [Function.update_self] at hwk'
        obtain rfl := Option.some.inj hwk'
        exact .inl hrunning
    · exact htaken j (h.rows j job' (htouches.other j hjj job' hjob'))
  · intro j wk hwk' hrunning job' hjob'
    dsimp only at hwk'
    by_cases hjj : j = jobId
    · subst hjj
      rw [Function.update_self] at hwk'
      obtain rfl := Option.some.inj hwk'
      exact htouches.own hrunning job' hjob'
    · rw [Function.update_of_ne hjj] at hwk'
      exact h.own j wk hwk' hrunning job' (htouches.other j hjj job' hjob')
  · intro p policy' hp
    obtain ⟨policy, hpolicy, hsame⟩ := htouches.policies p policy' hp
    dsimp only
    rw [htouches.same, hsame]
    exact h.hosted p policy hpolicy
  · intro j job' hjob'
    by_cases hjj : j = jobId
    · subst hjj
      exact htouches.clean job' hjob'
    · exact h.clean j job' (htouches.other j hjj job' hjob')
  · intro row hrow'
    obtain ⟨htaken', hid⟩ := h.loaded row hrow'
    refine ⟨htaken _ htaken', fun job' hjob' => ?_⟩
    obtain ⟨job, hjob, hsame⟩ := hrow _ htaken' job' hjob'
    exact hsame.trans (hid job hjob)
  · exact h.distinct
  · intro p j hj
    rcases hlast p j hj with hold | ⟨rfl, hrunning, rfl⟩
    · obtain ⟨htaken', hid⟩ := h.history p j hold
      refine ⟨htaken j htaken', fun job' hjob' => ?_⟩
      obtain ⟨job, hjob, hsame⟩ := hrow j htaken' job' hjob'
      exact hsame.trans (hid job hjob)
    · have htaken' : w.Taken j := by
        refine ⟨hmem, fun wk hwk' => ?_⟩
        rw [hwk] at hwk'
        obtain rfl := Option.some.inj hwk'
        exact .inl hrunning
      refine ⟨htaken j htaken', fun job' hjob' => ?_⟩
      obtain ⟨job, hjob, hsame⟩ := hrow j htaken' job' hjob'
      exact hsame.trans (h.own j _ hwk hrunning job hjob).1
  · exact hagrees

/-- Nothing is written. -/
theorem BackupWorld.Orderly.touches_same (h : w.Orderly) {prog : BackupTask Unit}
    (hwk : w.workers jobId = some ⟨policyId, prog, l⟩)
    (hphase : l'.phase = .running → l.phase = .running) : Touches policyId jobId l l' w.db w.db where
  same := rfl
  policies := fun _ policy' hp => ⟨policy', hp, rfl⟩
  other := fun _ _ _ hj => hj
  self := fun job' hj => .inl ⟨job', hj, rfl⟩
  own := fun hrunning => h.own jobId _ hwk (hphase hrunning)
  clean := fun job' hj => h.clean jobId job' hj
  final := fun _ _ hj hj' _ => congrArg _ (Option.some.inj (hj'.symm.trans hj))

theorem idle_staged (htidy : l.Tidy) (hphase : l.phase = .fresh ∨ l.phase = .ended) :
    l.staged = [] := by
  apply List.eq_nil_iff_forall_not_mem.mpr
  intro p hp
  have hpermits := htidy.1 p hp
  rcases hphase with h | h <;> rw [h] at hpermits <;> cases hpermits

theorem opening_staged (htidy : l.Tidy) (hphase : l.phase = .opening) : l.staged = [] ∨
    ∃ accountId now emits, l.staged = [⟨.start accountId now, emits⟩] := by
  match hstaged : l.staged with
  | [] => exact .inl rfl
  | [⟨write, emits⟩] =>
      have hpermits := htidy.1 ⟨write, emits⟩ (by simp [hstaged])
      rw [hphase] at hpermits
      cases write <;> first | exact .inr ⟨_, _, _, rfl⟩ | cases hpermits
  | p :: q :: rest =>
      have hlength := htidy.2.1 hphase
      rw [hstaged] at hlength
      simp at hlength

/-- The row of a job that is being opened is not there. -/
theorem BackupWorld.Orderly.unopened (h : w.Orderly) {prog : BackupTask Unit}
    (hwk : w.workers jobId = some ⟨policyId, prog, l⟩) (hphase : l.phase = .opening) :
    w.db.backupJobs.get? jobId = none := by
  cases hjob : w.db.backupJobs.get? jobId with
  | none => rfl
  | some job =>
      rcases (h.rows jobId job hjob).2 _ hwk with hp | hp <;> cases hp.symm.trans hphase

theorem addBackupJob_get? {jobs : Table Id BackupJob} {job : BackupJob}
    (hnone : jobs.get? jobId = none) (j : Id) :
    (addBackupJob jobId job jobs).get? j = if j = jobId then some job else jobs.get? j := by
  rw [addBackupJob, dif_pos hnone, Table.get?_add]

/-- The commit that opens the job. -/
theorem BackupWorld.Orderly.open_commit (h : w.Orderly)
    {k : Except BackupExc (BackupAns .commit) → BackupTask Unit}
    (hwk : w.workers jobId = some ⟨policyId, .perform .commit k, l⟩) (hphase : l.phase = .opening)
    {now : Time} {emits : Bool} (hstaged : l.staged = [⟨.start accountId now, emits⟩])
    (hdb : db = pendingBackup policyId jobId l.staged w.db) (hrunning : l'.phase = .running) :
    Touches policyId jobId l l' w.db db ∧ LastAgrees db w.lastFinished := by
  have hnone := h.unopened hwk hphase
  subst hdb
  have hjob : ∀ j, (pendingBackup policyId jobId l.staged w.db).backupJobs.get? j =
      if j = jobId then some (newBackupJob policyId accountId now) else w.db.backupJobs.get? j := by
    intro j
    rw [hstaged]
    exact addBackupJob_get? hnone j
  have hpolicy := @pendingBackup_policy w.db policyId jobId l.staged
  refine ⟨⟨pendingBackup_same, fun p policy' hp => ?_, fun j hj job' hjob' => ?_,
    fun job' hjob' => ?_, fun _ job' hjob' => ?_, fun job' hjob' => ?_, fun _ _ hold => ?_⟩,
    fun p policy' hp => ?_⟩
  · rw [hpolicy] at hp
    split at hp
    · obtain ⟨policy, hpol, rfl⟩ := Option.map_eq_some_iff.mp hp
      exact ⟨policy, hpol, pendingPolicy_accountId policy⟩
    · exact ⟨policy', hp, rfl⟩
  · rw [hjob, if_neg hj] at hjob'
    exact hjob'
  · rw [hjob, if_pos rfl] at hjob'
    obtain rfl := Option.some.inj hjob'
    exact .inr ⟨hphase, hrunning, rfl⟩
  · rw [hjob, if_pos rfl] at hjob'
    obtain rfl := Option.some.inj hjob'
    exact ⟨rfl, (by rintro ⟨⟩)⟩
  · rw [hjob, if_pos rfl] at hjob'
    obtain rfl := Option.some.inj hjob'
    exact .inr ⟨.inl rfl, rfl⟩
  · rw [hnone] at hold
    cases hold
  · -- the policy shows the new job, or still what it showed before
    have hstatus : ∃ policy, w.db.policies.get? p = some policy ∧
        (policy'.lastStatus = policy.lastStatus ∨ p = policyId ∧ policy'.lastStatus = .running) := by
      rw [hpolicy] at hp
      split at hp
      · rename_i hpp
        obtain ⟨policy, hpol, rfl⟩ := Option.map_eq_some_iff.mp hp
        refine ⟨policy, hpol, ?_⟩
        have hlast : (pendingPolicy l.staged policy).lastStatus =
            if emits = true then .running else policy.lastStatus := by
          rw [hstaged]
          exact policy_lastStatus _ _
        rw [hlast]
        split
        · exact .inr ⟨hpp, rfl⟩
        · exact .inl rfl
      · exact ⟨policy', hp, .inl rfl⟩
    have hother : ∀ j job, w.db.backupJobs.get? j = some job →
        (pendingBackup policyId jobId l.staged w.db).backupJobs.get? j = some job := by
      intro j job hj
      rw [hjob, if_neg]
      · exact hj
      · rintro rfl
        rw [hnone] at hj
        cases hj
    obtain ⟨policy, hpol, hsame | ⟨rfl, hnew⟩⟩ := hstatus
    · obtain ⟨hr, hn⟩ := h.agrees p policy hpol
      rw [hsame]
      refine ⟨fun hrun => ?_, fun hnot => ?_⟩
      · obtain ⟨j, job, hj, hjp, hopen⟩ := hr hrun
        exact ⟨j, job, hother j job hj, hjp, hopen⟩
      · rcases hn hnot with hidle | ⟨j, hj, hshown⟩
        · exact .inl hidle
        · refine .inr ⟨j, hj, fun job' hjob' => ?_⟩
          rw [hjob, if_neg] at hjob'
          · exact hshown job' hjob'
          · rintro rfl
            rcases (h.history p j hj).1.2 _ hwk with hp' | hp' <;> cases hp'.symm.trans hphase
    · refine ⟨fun _ => ⟨jobId, newBackupJob p accountId now, ?_, rfl, rfl⟩, fun hnot => ?_⟩
      · rw [hjob, if_pos rfl]
      · exact absurd hnew hnot

theorem finish_cases (policyId jobId : Id) (before after : Table Id BackupJob)
    (last : Id → Option Id) (p j : Id)
    (h : BackupWorld.finish policyId jobId before after last p = some j) :
    last p = some j ∨ j = jobId ∧ p = policyId := by
  unfold BackupWorld.finish at h
  split at h
  · by_cases hp : p = policyId
    · subst hp
      rw [Function.update_self] at h
      exact .inr ⟨(Option.some.inj h).symm, rfl⟩
    · rw [Function.update_of_ne hp] at h
      exact .inl h
  · exact .inl h

/-- The job ends. -/
theorem finish_of_ended {before after : Table Id BackupJob} {job job' : BackupJob}
    (hjob : before.get? jobId = some job) (hjob' : after.get? jobId = some job')
    (hopen : job.status.isOpen = true) (hclosed : job'.status.isOpen = false) :
    BackupWorld.finish policyId jobId before after last =
      Function.update last policyId (some jobId) := by
  unfold BackupWorld.finish
  simp [hjob, hjob', hopen, hclosed]

/-- The job had ended before, or has not ended. -/
theorem finish_of_steady {before after : Table Id BackupJob} {job job' : BackupJob}
    (hjob : before.get? jobId = some job) (hjob' : after.get? jobId = some job')
    (h : job.status.isOpen = false ∨ job'.status.isOpen = true) :
    BackupWorld.finish policyId jobId before after last = last := by
  unfold BackupWorld.finish
  rcases h with h | h <;> simp [hjob, hjob', h]

theorem outcome_cases {w : BackupWrite} {status : JobStatus} (h : w.outcome = some status) :
    (status = .completed ∧ w.status = some .completed) ∨
      (status = .failed ∧ w.status = some .failed) := by
  cases w <;> simp_all [BackupWrite.outcome, BackupWrite.status]

/-- The assignments of a running job that end it are among its updates. -/
theorem present_of_outcome {p : Pending} (hlast : lastOutcome staged = some p)
    (hcommit : committable jobId staged db = true) : ∃ job, db.backupJobs.get? jobId = some job := by
  have hmem : p ∈ staged.filter fun p => p.write.outcome.isSome := List.mem_of_getLast? hlast
  obtain ⟨hp, houtcome⟩ := List.mem_filter.mp hmem
  have hupdates : p.write.updatesJob = true := by
    cases hw : p.write <;> rw [hw] at houtcome <;> first | rfl | cases houtcome
  rcases Bool.or_eq_true_iff.mp hcommit with hall | hsome
  · have hnot := List.all_eq_true.mp hall p hp
    rw [hupdates] at hnot
    cases hnot
  · exact Option.isSome_iff_exists.mp hsome

/-- What the commit of a running job makes of the rows. -/
theorem BackupWorld.Orderly.run_touches (h : w.Orderly)
    {k : Except BackupExc (BackupAns .commit) → BackupTask Unit}
    (hwk : w.workers jobId = some ⟨policyId, .perform .commit k, l⟩) (htidy : l.Tidy)
    (hphase : l.phase = .running) (hfits : l.Fits policyId jobId w)
    (hdb : db = pendingBackup policyId jobId l.staged w.db)
    (hcommitted : l'.phase = l.committed) : Touches policyId jobId l l' w.db db := by
  have hpermits : ∀ p ∈ l.staged, BackupPhase.running.permits p.write = true :=
    fun p hp => hphase ▸ htidy.1 p hp
  subst hdb
  have hjob := @pendingBackup_job w.db policyId jobId l.staged
    fun p hp => not_start_of_permits (hpermits p hp)
  refine ⟨pendingBackup_same, fun p policy' hp => ?_, fun j hj job' hjob' => ?_,
    fun job' hjob' => ?_, fun hrunning job' hjob' => ?_, fun job' hjob' => ?_,
    fun job job' hold hjob' hclosed => ?_⟩
  · rw [pendingBackup_policy] at hp
    split at hp
    · obtain ⟨policy, hpol, rfl⟩ := Option.map_eq_some_iff.mp hp
      exact ⟨policy, hpol, pendingPolicy_accountId policy⟩
    · exact ⟨policy', hp, rfl⟩
  · rw [hjob, if_neg hj] at hjob'
    exact hjob'
  · rw [hjob, if_pos rfl] at hjob'
    obtain ⟨job, hold, rfl⟩ := Option.map_eq_some_iff.mp hjob'
    exact .inl ⟨job, hold, pendingJob_policyId job⟩
  · rw [hjob, if_pos rfl] at hjob'
    obtain ⟨job, hold, rfl⟩ := Option.map_eq_some_iff.mp hjob'
    obtain ⟨hid, hnot⟩ := h.own jobId _ hwk hphase job hold
    refine ⟨(pendingJob_policyId job).trans hid, ?_⟩
    have hnone : lastOutcome l.staged = none := by
      rw [hcommitted, BackupLocal.committed, hphase, if_neg (fun h => by cases h.1)] at hrunning
      by_contra hsome
      rw [if_pos ⟨rfl, Option.isSome_iff_ne_none.mpr hsome⟩] at hrunning
      cases hrunning
    rw [pendingJob_status, hnone]
    exact hnot
  · rw [hjob, if_pos rfl] at hjob'
    obtain ⟨job, hold, rfl⟩ := Option.map_eq_some_iff.mp hjob'
    rw [pendingJob_status]
    cases hlast : lastOutcome l.staged with
    | none =>
        have hkeep : ∀ q ∈ l.staged, q.write.outcome ≠ some .failed := by
          intro q hq hfailed
          have hmem : q ∈ l.staged.filter fun p => p.write.outcome.isSome :=
            List.mem_filter.mpr ⟨hq, by simp [hfailed]⟩
          rw [List.getLast?_eq_none_iff.mp hlast] at hmem
          cases hmem
        rw [pendingJob_failureKind hkeep]
        exact h.clean jobId job hold
    | some p =>
        have hsome : p.write.outcome.isSome = true :=
          (List.mem_filter.mp (List.mem_of_getLast? hlast)).2
        obtain ⟨status, houtcome⟩ := Option.isSome_iff_exists.mp hsome
        rcases outcome_cases houtcome with ⟨rfl, -⟩ | ⟨rfl, -⟩
        · -- a success is committed for a job that is still running
          have hkeep := no_failure_staged htidy.2.2 hlast houtcome
          rw [pendingJob_failureKind hkeep]
          refine .inr ⟨.inr (by simp [houtcome]), ?_⟩
          rcases (hfits p hlast).2 job hold with hrunning | ⟨hfailed, -⟩
          · rcases h.clean jobId job hold with hf | ⟨-, hnone⟩
            · rw [hrunning] at hf
              cases hf
            · exact hnone
          · rw [houtcome] at hfailed
            cases hfailed
        · exact .inl (by simp [houtcome])
  · rw [hjob, if_pos rfl, hold, Option.map_some] at hjob'
    obtain rfl := Option.some.inj hjob'
    rw [pendingJob_status]
    cases hlast : lastOutcome l.staged with
    | none => rfl
    | some p =>
        rcases (hfits p hlast).2 job hold with hrunning | ⟨hfailed, -⟩
        · rw [hrunning] at hclosed
          cases hclosed
        · rw [Option.bind_some, hfailed]
          rcases h.clean jobId job hold with hf | ⟨hr | hc, -⟩
          · exact hf.symm
          · rw [hr] at hclosed
            cases hclosed
          · exact absurd hc (h.own jobId _ hwk hphase job hold).2

/-- The policy shows what the commit of a running job has ended it with. -/
theorem BackupWorld.Orderly.run_agrees (h : w.Orderly)
    {k : Except BackupExc (BackupAns .commit) → BackupTask Unit}
    (hwk : w.workers jobId = some ⟨policyId, .perform .commit k, l⟩) (htidy : l.Tidy)
    (hphase : l.phase = .running) (hfits : l.Fits policyId jobId w)
    (hcommit : committable jobId l.staged w.db = true)
    (hdb : db = pendingBackup policyId jobId l.staged w.db) :
    LastAgrees db (BackupWorld.finish policyId jobId w.db.backupJobs db.backupJobs w.lastFinished) := by
  have hpermits : ∀ p ∈ l.staged, BackupPhase.running.permits p.write = true :=
    fun p hp => hphase ▸ htidy.1 p hp
  subst hdb
  have hjob := @pendingBackup_job w.db policyId jobId l.staged
    fun p hp => not_start_of_permits (hpermits p hp)
  have hpolicy := @pendingBackup_policy w.db policyId jobId l.staged
  cases hlast : lastOutcome l.staged with
  | none =>
      have hstatus : ∀ job, (pendingJob l.staged job).status = job.status := by
        intro job
        rw [pendingJob_status, hlast]
        rfl
      have hfinish : BackupWorld.finish policyId jobId w.db.backupJobs
          (pendingBackup policyId jobId l.staged w.db).backupJobs w.lastFinished =
            w.lastFinished := by
        cases hold : w.db.backupJobs.get? jobId with
        | none => simp [BackupWorld.finish, hold]
        | some job =>
            refine finish_of_steady hold ((hjob jobId).trans (by rw [if_pos rfl, hold]; rfl)) ?_
            rw [hstatus]
            cases job.status.isOpen <;> simp
      rw [hfinish]
      refine h.agrees.steady (fun q policy' hq => ?_) (fun i job hi hopen => ?_)
        fun q i hi job' hjob' => ?_
      · rw [hpolicy] at hq
        split at hq
        · obtain ⟨policy, hpol, rfl⟩ := Option.map_eq_some_iff.mp hq
          refine ⟨policy, hpol, ?_⟩
          rw [pendingPolicy_status hpermits (by rw [hlast]; rintro _ ⟨⟩), hlast]
          rfl
        · exact ⟨policy', hq, rfl⟩
      · rw [hjob]
        split
        · exact ⟨_, by rw [hi]; rfl, pendingJob_policyId job, hstatus job⟩
        · exact ⟨job, hi, rfl, rfl⟩
      · rw [hjob] at hjob'
        split at hjob'
        · obtain ⟨job, hold, rfl⟩ := Option.map_eq_some_iff.mp hjob'
          exact ⟨job, hold, hstatus job⟩
        · exact ⟨job', hjob', rfl⟩
  | some p =>
      have hsome : p.write.outcome.isSome = true :=
        (List.mem_filter.mp (List.mem_of_getLast? hlast)).2
      obtain ⟨status, houtcome⟩ := Option.isSome_iff_exists.mp hsome
      obtain ⟨hemits, hfit⟩ := hfits p hlast
      obtain ⟨job, hold⟩ := present_of_outcome hlast hcommit
      have hnew : (pendingBackup policyId jobId l.staged w.db).backupJobs.get? jobId =
          some (pendingJob l.staged job) := by
        rw [hjob, if_pos rfl, hold]
        rfl
      have hstatus : (pendingJob l.staged job).status = status := by
        rw [pendingJob_status, hlast, Option.bind_some, houtcome]
        rfl
      have hshown : ∀ policy, (pendingBackup policyId jobId l.staged w.db).policies.get? policyId =
          some policy → policy.lastStatus ≠ .running ∧ policy.lastStatus.shows status = true := by
        intro policy' hp
        rw [hpolicy, if_pos rfl] at hp
        obtain ⟨policy, -, rfl⟩ := Option.map_eq_some_iff.mp hp
        rw [pendingPolicy_status hpermits (by rw [hlast]; rintro q ⟨⟩; exact hemits), hlast,
          Option.bind_some]
        rcases outcome_cases houtcome with ⟨rfl, hw⟩ | ⟨rfl, hw⟩
        · rw [hw]
          exact ⟨(by rintro ⟨⟩), rfl⟩
        · rw [hw]
          exact ⟨(by rintro ⟨⟩), rfl⟩
      have hid := (h.own jobId _ hwk hphase job hold).1
      have hother : ∀ q, q ≠ policyId → w.lastFinished q ≠ some jobId := by
        intro q hq hlast'
        exact hq (((h.history q jobId hlast').2 job hold).symm.trans hid)
      have hclosed : status.isOpen = false := by
        rcases outcome_cases houtcome with ⟨rfl, -⟩ | ⟨rfl, -⟩ <;> rfl
      have hends : ∀ {last' : Id → Option Id} {i : Id}, (∀ q, q ≠ policyId → last' q = w.lastFinished q) →
          last' policyId = some i →
          (∀ job', (pendingBackup policyId jobId l.staged w.db).backupJobs.get? i = some job' →
            job'.status = status) →
          LastAgrees (pendingBackup policyId jobId l.staged w.db) last' := by
        intro last' i hlast' hi hrow
        refine h.agrees.ended (fun q hq => by rw [hpolicy, if_neg hq])
          (fun i hi => by rw [hjob, if_neg hi]) (fun job' hjob' => ?_) hlast' hother hi ?_
        · rw [hold] at hjob'
          obtain rfl := Option.some.inj hjob'
          exact hid
        · intro policy hp
          refine ⟨(hshown policy hp).1, fun job' hjob' => ?_⟩
          rw [hrow job' hjob']
          exact (hshown policy hp).2
      rcases hfit job hold with hrunning | ⟨hfailed, i, hi, hifailed⟩
      · rw [finish_of_ended hold hnew (by rw [hrunning]; rfl) (by rw [hstatus]; exact hclosed)]
        refine hends (fun q hq => Function.update_of_ne hq _ _) (Function.update_self ..) ?_
        intro job' hjob'
        rw [hnew] at hjob'
        obtain rfl := Option.some.inj hjob'
        exact hstatus
      · obtain rfl : status = .failed := Option.some.inj (houtcome.symm.trans hfailed)
        by_cases hrunning : job.status = .running
        · rw [finish_of_ended hold hnew (by rw [hrunning]; rfl) (by rw [hstatus]; exact hclosed)]
          refine hends (fun q hq => Function.update_of_ne hq _ _) (Function.update_self ..) ?_
          intro job' hjob'
          rw [hnew] at hjob'
          obtain rfl := Option.some.inj hjob'
          exact hstatus
        · have hshut : job.status.isOpen = false := by
            rcases h.clean jobId job hold with hf | ⟨hr | hc, -⟩
            · rw [hf]
              rfl
            · exact absurd hr hrunning
            · rw [hc]
              rfl
          rw [finish_of_steady hold hnew (.inl hshut)]
          refine hends (fun _ _ => rfl) hi fun job' hjob' => ?_
          by_cases hii : i = jobId
          · subst hii
            rw [hnew] at hjob'
            obtain rfl := Option.some.inj hjob'
            exact hstatus
          · rw [hjob, if_neg hii] at hjob'
            exact hifailed job' hjob'

theorem cleanupOldBackupJobs_get? (keep : ℕ) (j : Id) :
    (cleanupOldBackupJobs keep accountId db).backupJobs.get? j =
      (db.backupJobs.get? j).filter fun job =>
        decide (job.accountId ≠ accountId) || decide (newerBackups db job < keep) :=
  Table.get?_filter ..

/-- A clean-up only takes rows away. -/
theorem cleanup_sub {keep : ℕ} {j : Id} {job : BackupJob}
    (hj : (cleanupOldBackupJobs keep accountId db).backupJobs.get? j = some job) :
    db.backupJobs.get? j = some job := by
  rw [cleanupOldBackupJobs_get?] at hj
  exact (Option.filter_eq_some_iff.mp hj).1

section Operations

variable {o : BackupOp} {k : Except BackupExc (BackupAns o) → BackupTask Unit}
  {r : Except BackupExc (BackupAns o)} {procs : List Id} {progress : Id → Option Time}

/-- The world after an operation of the worker. -/
def BackupWorld.after (w : BackupWorld) (policyId jobId : Id) (prog : BackupTask Unit)
    (l' : BackupLocal) (db : BackupDb) (procs : List Id) (progress : Id → Option Time) :
    BackupWorld :=
  { w with
    db := db
    procs := procs
    progress := progress
    workers := Function.update w.workers jobId (some ⟨policyId, prog, l'⟩)
    lastFinished :=
      BackupWorld.finish policyId jobId w.db.backupJobs db.backupJobs w.lastFinished }

theorem BackupWorld.Orderly.quietly (h : w.Orderly)
    (hwk : w.workers jobId = some ⟨policyId, .perform o k, l⟩)
    (hstep : backupStep policyId o l r = some l') (hdb : db = w.db) (hpresent : l'.phase ≠ .missing)
    (hphase : l'.phase = .running → l.phase = .running) :
    w.Follows (w.after policyId jobId (k r) l' db procs progress) := by
  subst hdb
  unfold BackupWorld.after
  rw [finish_same]
  exact h.move hwk hstep hpresent (h.touches_same hwk hphase) (fun _ _ hj => .inl hj) h.agrees

/-- An operation after which the worker is where it was. -/
theorem BackupWorld.Orderly.stay (h : w.Orderly)
    (hwk : w.workers jobId = some ⟨policyId, .perform o k, l⟩)
    (hstep : backupStep policyId o l r = some l') (hdb : db = w.db) (hphase : l'.phase = l.phase) :
    w.Follows (w.after policyId jobId (k r) l' db procs progress) := by
  refine h.quietly hwk hstep hdb ?_ ?_
  · rw [hphase]
    exact h.present jobId _ hwk
  · rw [hphase]
    exact fun hrunning => hrunning

end Operations

variable {procs : List Id} {progress : Id → Option Time}

theorem BackupWorld.Orderly.commit (h : w.Orderly)
    {k : Except BackupExc (BackupAns .commit) → BackupTask Unit}
    {r : Except BackupExc (BackupAns .commit)}
    (hwk : w.workers jobId = some ⟨policyId, .perform .commit k, l⟩) (htidy : l.Tidy)
    (hfits : l.Fits policyId jobId w) (hstep : backupStep policyId .commit l r = some l')
    (hdb : backupSession policyId jobId l w.db .commit r = some db) :
    w.Follows (w.after policyId jobId (k r) l' db procs progress) := by
  have hl' := backupStep_eq hstep
  cases r with
  | error e =>
      obtain ⟨-, hdb⟩ := Option.ite_none_left_eq_some.mp hdb
      exact h.stay hwk hstep (Option.some.inj hdb).symm (by rw [hl']; rfl)
  | ok done =>
      obtain ⟨hcommittable, hdb⟩ := Option.ite_none_right_eq_some.mp hdb
      have hdb := (Option.some.inj hdb).symm
      have hcommitted : l'.phase = l.committed := by
        rw [hl']
        rfl
      have hnothing : l.staged = [] →
          w.Follows (w.after policyId jobId (k (.ok done)) l' db procs progress) := by
        intro hnil
        refine h.stay hwk hstep (by rw [hdb, hnil]; rfl) ?_
        rw [hcommitted, BackupLocal.committed, hnil]
        simp [lastOutcome]
      cases hphase : l.phase with
      | missing => exact absurd hphase (h.present jobId _ hwk)
      | fresh => exact hnothing (idle_staged htidy (.inl hphase))
      | ended => exact hnothing (idle_staged htidy (.inr hphase))
      | opening =>
          rcases opening_staged htidy hphase with hnil | ⟨a, now, emits, hstaged⟩
          · exact hnothing hnil
          · have hrunning : l'.phase = .running := by
              rw [hcommitted, BackupLocal.committed, if_pos]
              exact ⟨hphase, by rw [hstaged]; rfl⟩
            obtain ⟨htouches, hagrees⟩ := h.open_commit hwk hphase hstaged hdb hrunning
            have hfinish : BackupWorld.finish policyId jobId w.db.backupJobs db.backupJobs
                w.lastFinished = w.lastFinished := by
              simp [BackupWorld.finish, h.unopened hwk hphase]
            unfold BackupWorld.after
            rw [hfinish]
            exact h.move hwk hstep (by rw [hrunning]; rintro ⟨⟩) htouches
              (fun _ _ hj => .inl hj) hagrees
      | running =>
          refine h.move hwk hstep ?_ (h.run_touches hwk htidy hphase hfits hdb hcommitted)
            (fun p j hj => ?_) (h.run_agrees hwk htidy hphase hfits hcommittable hdb)
          · rw [hcommitted, BackupLocal.committed, hphase, if_neg (fun h => by cases h.1)]
            split <;> rintro ⟨⟩
          · rcases finish_cases _ _ _ _ _ p j hj with hj | ⟨hj, hp⟩
            · exact .inl hj
            · exact .inr ⟨hj, hphase, hp⟩

theorem BackupWorld.Orderly.cleanup (h : w.Orderly)
    {k : Except BackupExc (BackupAns (.cleanupOldJobs accountId)) → BackupTask Unit}
    {r : Except BackupExc (BackupAns (.cleanupOldJobs accountId))}
    (hwk : w.workers jobId = some ⟨policyId, .perform (.cleanupOldJobs accountId) k, l⟩)
    (hkeeps : ∀ i job, w.db.backupJobs.get? i = some job → job.status.isOpen = true →
      (cleanupOldBackupJobs 150 accountId w.db).backupJobs.get? i = some job)
    (hstep : backupStep policyId (.cleanupOldJobs accountId) l r = some l')
    (hdb : backupSession policyId jobId l w.db (.cleanupOldJobs accountId) r = some db) :
    w.Follows (w.after policyId jobId (k r) l' db procs progress) := by
  have hphase : l'.phase = l.phase := by
    rw [backupStep_eq hstep]
    exact (next_samePlace rfl).1
  cases r with
  | error e => exact h.stay hwk hstep (Option.some.inj hdb).symm hphase
  | ok done =>
      obtain rfl := Option.some.inj hdb
      have hfinish : BackupWorld.finish policyId jobId w.db.backupJobs
          (cleanupOldBackupJobs 150 accountId w.db).backupJobs w.lastFinished =
            w.lastFinished := by
        cases hjob' : (cleanupOldBackupJobs 150 accountId w.db).backupJobs.get? jobId with
        | none => simp [BackupWorld.finish, hjob']
        | some job =>
            refine finish_of_steady (cleanup_sub hjob') hjob' ?_
            cases job.status.isOpen <;> simp
      unfold BackupWorld.after
      rw [hfinish]
      refine h.move hwk hstep (by rw [hphase]; exact h.present jobId _ hwk) ?_
        (fun _ _ hj => .inl hj) ?_
      · exact ⟨rfl, fun _ policy' hp => ⟨policy', hp, rfl⟩, fun _ _ _ hj => cleanup_sub hj,
          fun job' hj => .inl ⟨job', cleanup_sub hj, rfl⟩,
          fun hrunning job' hj => h.own jobId _ hwk (hphase ▸ hrunning) job' (cleanup_sub hj),
          fun job' hj => h.clean jobId job' (cleanup_sub hj), fun job job' hj hj' _ =>
            congrArg _ (Option.some.inj ((cleanup_sub hj').symm.trans hj))⟩
      · exact h.agrees.steady (fun _ policy' hp => ⟨policy', hp, rfl⟩)
          (fun i job hi hopen => ⟨job, hkeeps i job hi hopen, rfl, rfl⟩)
          fun _ i _ job' hj => ⟨job', cleanup_sub hj, rfl⟩

theorem BackupWorld.Orderly.view (h : w.Orderly)
    {k : Except BackupExc (BackupAns .view) → BackupTask Unit}
    {r : Except BackupExc (BackupAns .view)}
    (hwk : w.workers jobId = some ⟨policyId, .perform .view k, l⟩)
    (hstep : backupStep policyId .view l r = some l')
    (hdb : backupSession policyId jobId l w.db .view r = some db) :
    w.Follows (w.after policyId jobId (k r) l' db procs progress) := by
  cases r with
  | error e => cases hstep
  | ok read =>
      have hl' := backupStep_eq hstep
      obtain ⟨hread, hdb⟩ := Option.ite_none_right_eq_some.mp hdb
      have hphase : l'.phase = .ended ∨ l'.phase = .opening := by
        rw [hl']
        change (l.read policyId read).phase = _ ∨ (l.read policyId read).phase = _
        rw [hread]
        unfold BackupLocal.read
        cases hpolicy : w.db.policies.get? policyId with
        | none => exact .inl rfl
        | some policy => exact .inr (if_pos (h.hosted policyId policy hpolicy))
      refine h.quietly hwk hstep (Option.some.inj hdb).symm ?_ ?_
      · rcases hphase with hp | hp <;> rw [hp] <;> exact nofun
      · rcases hphase with hp | hp <;> rw [hp] <;> exact nofun

/-- The worker has left. -/
theorem BackupWorld.Orderly.leave (h : w.Orderly) (jobId : Id) :
    w.Follows { w with workers := Function.update w.workers jobId none } := by
  have hworkers : ∀ j wk', Function.update w.workers jobId none j = some wk' →
      w.workers j = some wk' := by
    intro j wk' hwk'
    by_cases hjj : j = jobId
    · simp [hjj] at hwk'
    · rw [Function.update_of_ne hjj] at hwk'
      exact hwk'
  have htaken : ∀ j, w.Taken j →
      BackupWorld.Taken j { w with workers := Function.update w.workers jobId none } :=
    fun j hj => ⟨hj.1, fun wk' hwk' => hj.2 wk' (hworkers j wk' hwk')⟩
  refine ⟨?_, htaken, fun j _ job' hj => ⟨job', hj, fun _ => rfl⟩⟩
  exact ⟨fun j wk' hwk' => h.disciplined j wk' (hworkers j wk' hwk'),
    fun j wk' hwk' => h.present j wk' (hworkers j wk' hwk'),
    fun j job hjob => htaken j (h.rows j job hjob),
    fun j wk' hwk' => h.own j wk' (hworkers j wk' hwk'), h.hosted, h.clean,
    fun row hrow => ⟨htaken _ (h.loaded row hrow).1, (h.loaded row hrow).2⟩, h.distinct,
    fun p j hj => ⟨htaken j (h.history p j hj).1, (h.history p j hj).2⟩, h.agrees⟩

theorem BackupWorld.Orderly.work (h : w.Orderly)
    {reply : (o : BackupOp) → Except BackupExc (BackupAns o)}
    (hok : Considerate w (.work jobId reply)) (hwork : w.work jobId reply = some w') :
    w.Follows w' := by
  rcases backup_work_cases hwork with ⟨wk, hwk, rfl⟩ |
    ⟨o, k, policyId, l, l', db, w'', hwk, hstep, hdb, hw, rfl⟩
  · exact h.leave jobId
  · obtain ⟨hmem, hsafe⟩ := h.disciplined jobId _ hwk
    obtain ⟨hused, hscanned, hclock⟩ := perform_rows hw
    have hok := hok _ hwk
    have hafter : ({ w'' with
        db := db
        workers := Function.update w.workers jobId (some ⟨policyId, k (reply o), l'⟩)
        lastFinished := BackupWorld.finish policyId jobId w.db.backupJobs db.backupJobs
          w.lastFinished } : BackupWorld) =
        w.after policyId jobId (k (reply o)) l' db w''.procs w''.progress := by
      simp only [BackupWorld.after, hused, hscanned, hclock]
    rw [hafter]
    cases o with
    | view => exact h.view hwk hstep hdb
    | commit => exact h.commit hwk hsafe.1 hok hstep hdb
    | cleanupOldJobs a => exact h.cleanup hwk hok hstep hdb
    | stage write =>
        refine h.stay hwk hstep (backupSession_same (by exact nofun) (by exact nofun) hdb) ?_
        rw [backupStep_eq hstep]
        cases reply (.stage write) <;> rfl
    | _ =>
        refine h.stay hwk hstep (backupSession_same (by exact nofun) (by exact nofun) hdb) ?_
        rw [backupStep_eq hstep]
        exact (next_samePlace rfl).1

end MailFallback
