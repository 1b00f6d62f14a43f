import MailFallback.Boot.Semantics
import MailFallback.Sync.Recovery

/-! # Dead work after a boot

Which rows of the last process still make a new job impossible after the recovery. -/

namespace MailFallback

open Storage

variable {db₀ db : ServerDb} {α : Type}

/-- Without the rows that were open in the database of the dead process. -/
def bury (isOpen : α → Bool) (t₀ t : Table Id α) : Table Id α :=
  t.filter fun id _ => !(t₀.get? id).any isOpen

def withoutDead (db₀ db : ServerDb) : ServerDb :=
  { db with
    syncJobs := bury (·.status.isOpen) db₀.syncJobs db.syncJobs
    backupJobs := bury (·.status.isOpen) db₀.backupJobs db.backupJobs
    restoreJobs := bury (·.status.isOpen) db₀.restoreJobs db.restoreJobs
    tasks := bury (·.status.isOpen) db₀.tasks db.tasks }

/-- Whatever is refused would be refused without the dead rows as well. -/
def NoDeadWorkBlocks (db₀ db : ServerDb) : Prop :=
  (∀ request jobId now, createRestoreJob request jobId now db = .refused →
    createRestoreJob request jobId now (withoutDead db₀ db) = .refused) ∧
  (∀ taskType requestedBy taskId now, startTask taskType requestedBy taskId now db = .refused →
    startTask taskType requestedBy taskId now (withoutDead db₀ db) = .refused) ∧
  (∀ accountId jobId now, createSync accountId jobId now db = .refused →
    createSync accountId jobId now (withoutDead db₀ db) = .refused) ∧
  ∀ policyId jobId now, createBackup policyId jobId now db = .refused →
    createBackup policyId jobId now (withoutDead db₀ db) = .refused

/-! ## Burying -/

theorem bury_get? {isOpen : α → Bool} {t₀ t : Table Id α} {id : Id} {a : α}
    (h : (bury isOpen t₀ t).get? id = some a) :
    t.get? id = some a ∧ ∀ a₀, t₀.get? id = some a₀ → isOpen a₀ = false := by
  rw [bury, Table.get?_filter, Option.filter_eq_some_iff] at h
  refine ⟨h.1, fun a₀ ha₀ => ?_⟩
  have hkept := h.2
  rw [ha₀, Option.any_some] at hkept
  simpa using hkept

/-! ## What the recovery leaves -/

theorem releaseAccount_kept (now : Time) (account : Account) :
    (releaseAccount now account).suspended = account.suspended ∧
      (releaseAccount now account).migrating = account.migrating ∧
      (releaseAccount now account).credentials = account.credentials := by
  unfold releaseAccount redriveOrKeepPause
  split <;> split <;> exact ⟨rfl, rfl, rfl⟩

theorem recovered_restorable (now : Time) (db : Db) (s t : Id) :
    restorable (recovered now db) s t = restorable db s t := by
  have hany : ∀ (a : Id) (f : Account → Bool), (∀ account, f (releaseAccount now account) = f account) →
      ((recovered now db).accounts.get? a).any f = (db.accounts.get? a).any f := by
    intro a f hf
    rw [recovered_account]
    cases db.accounts.get? a with
    | none => rfl
    | some account =>
        rw [Option.map_some, Option.any_some, Option.any_some]
        split
        · exact hf account
        · rfl
  unfold restorable
  rw [hany s, hany t]
  · intro account
    obtain ⟨hsuspended, hmigrating, hcredentials⟩ := releaseAccount_kept now account
    rw [hsuspended, hmigrating, hcredentials]
  · intro account
    obtain ⟨hsuspended, hmigrating, -⟩ := releaseAccount_kept now account
    rw [hsuspended, hmigrating]

theorem closeAll_toDb (failureKind marker : String) (now : Time) (rows : List (Id × BackupJob))
    (db : BackupDb) : (closeAll failureKind marker now rows db).toDb = db.toDb := by
  unfold closeAll
  induction rows generalizing db with
  | nil => rfl
  | cons row rows ih =>
      rw [List.foldl_cons, ih]
      rfl

theorem submitFtsReindex_cases (taskId : Id) (now : Time) (db : ServerDb) :
    submitFtsReindex taskId now db = db ∨
      taskBusy db "fts_reindex" = false ∧ ∃ h : db.tasks.get? taskId = none,
        submitFtsReindex taskId now db =
          { db with tasks := db.tasks.add taskId (newTask "fts_reindex" none now) h } := by
  unfold submitFtsReindex startTask
  by_cases hbusy : taskBusy db "fts_reindex" = true
  · rw [if_pos hbusy]
    exact .inl rfl
  · rw [if_neg hbusy]
    by_cases h : db.tasks.get? taskId = none
    · rw [dif_pos h]
      exact .inr ⟨by simpa using hbusy, h, rfl⟩
    · rw [dif_neg h]
      exact .inl rfl

/-- The restore jobs and the tasks stay as they were; only a reindex may be added. -/
theorem lifespanRecovery_kept (ftsChanged : Bool) (taskId : Id) (now : Time) (db₀ : ServerDb) :
    (lifespanRecovery ftsChanged taskId now db₀).toDb = recovered now db₀.toDb ∧
      (lifespanRecovery ftsChanged taskId now db₀).restoreJobs = db₀.restoreJobs ∧
      ((lifespanRecovery ftsChanged taskId now db₀).tasks = db₀.tasks ∨
        taskBusy db₀ "fts_reindex" = false ∧ ∃ h : db₀.tasks.get? taskId = none,
          (lifespanRecovery ftsChanged taskId now db₀).tasks =
            db₀.tasks.add taskId (newTask "fts_reindex" none now) h) := by
  have htoDb : (recoverZombieJobs now db₀).toDb = recovered now db₀.toDb := closeAll_toDb ..
  unfold lifespanRecovery
  cases ftsChanged with
  | false => exact ⟨htoDb, rfl, .inl rfl⟩
  | true =>
      dsimp only
      rw [if_pos rfl]
      rcases submitFtsReindex_cases taskId now (recoverZombieJobs now db₀) with hsame | ⟨hbusy, h, hnew⟩
      · rw [hsame]
        exact ⟨htoDb, rfl, .inl rfl⟩
      · rw [hnew]
        exact ⟨htoDb, rfl, .inr ⟨hbusy, h, rfl⟩⟩

/-! ## The busy checks -/

theorem restoreBusy_iff {s t : Id} : restoreBusy db s t = true ↔
    ∃ j job, db.restoreJobs.get? j = some job ∧ job.sourceAccountId = s ∧ job.targetAccountId = t ∧
      job.status.isOpen = true := by
  simp [restoreBusy, List.any_eq_true, Table.mem_rows, and_assoc]

theorem taskBusy_iff {taskType : String} : taskBusy db taskType = true ↔
    ∃ id task, db.tasks.get? id = some task ∧ task.taskType = taskType ∧
      task.status.isOpen = true := by
  simp [taskBusy, List.any_eq_true, Table.mem_rows]

theorem createRestoreJob_refused_iff {request : RestoreRequest} {jobId : Id} {now : Time} :
    createRestoreJob request jobId now db = .refused ↔
      restorable db.toDb request.sourceAccountId request.targetAccountId = false ∨
        restoreBusy db request.sourceAccountId request.targetAccountId = true := by
  unfold createRestoreJob
  split
  · simp_all
  · split
    · simp_all
    · split
      · simp_all
      · split <;> simp_all

theorem startTask_refused_iff {taskType : String} {requestedBy : Option Id} {taskId : Id}
    {now : Time} : startTask taskType requestedBy taskId now db = .refused ↔
      taskBusy db taskType = true := by
  unfold startTask
  split
  · simp_all
  · split <;> simp_all

theorem createBackup_refused_iff {policyId jobId : Id} {now : Time} :
    createBackup policyId jobId now db = .refused ↔
      ∀ policy, db.policies.get? policyId = some policy →
        db.accounts.get? policy.accountId = none := by
  unfold createBackup
  split
  · simp_all
  · split <;> simp_all

theorem createSync_refused_iff {accountId jobId : Id} {now : Time} :
    createSync accountId jobId now db = .refused ↔ hasOpenJob db.toDb accountId = true := by
  unfold createSync
  split
  · simp_all
  · split <;> simp_all

/-- After the recovery no dead row blocks new work if and only if the dead process had no open
background task, and no open restore job between accounts that can take part in one. -/
theorem noDeadWorkBlocks_iff (ftsChanged : Bool) (taskId : Id) (now : Time) (db₀ : ServerDb) :
    NoDeadWorkBlocks db₀ (lifespanRecovery ftsChanged taskId now db₀) ↔
      (∀ j job, db₀.restoreJobs.get? j = some job → job.status.isOpen = true →
        restorable db₀.toDb job.sourceAccountId job.targetAccountId = false) ∧
      ∀ id task, db₀.tasks.get? id = some task → task.status.isOpen = false := by
  obtain ⟨htoDb, hrestores, htasks⟩ := lifespanRecovery_kept ftsChanged taskId now db₀
  generalize lifespanRecovery ftsChanged taskId now db₀ = db at htoDb hrestores htasks
  have hrestorable : ∀ s t, restorable db.toDb s t = restorable db₀.toDb s t := by
    intro s t
    rw [htoDb]
    exact recovered_restorable now db₀.toDb s t
  have hold : ∀ id task, db₀.tasks.get? id = some task → db.tasks.get? id = some task := by
    intro id task htask
    rcases htasks with hsame | ⟨-, h, hnew⟩
    · rw [hsame]
      exact htask
    · rw [hnew, Table.get?_add, if_neg]
      · exact htask
      · rintro rfl
        rw [h] at htask
        cases htask
  constructor
  · rintro ⟨hrestore, htask, -, -⟩
    refine ⟨fun j job hj hopen => ?_, fun id task hid => ?_⟩
    · by_contra hcan
      have hrefused := hrestore ⟨job.sourceAccountId, job.targetAccountId, "full", "", "original",
        true, none, none⟩ "" 0 (createRestoreJob_refused_iff.mpr (.inr (restoreBusy_iff.mpr
          ⟨j, job, by rw [hrestores]; exact hj, rfl, rfl, hopen⟩)))
      rcases createRestoreJob_refused_iff.mp hrefused with hcannot | hbusy
      · exact hcan ((hrestorable _ _).symm.trans hcannot)
      · -- the dead row is gone, and all other open rows were dead as well
        obtain ⟨k, other, hk, -, -, hopen'⟩ := restoreBusy_iff.mp hbusy
        obtain ⟨hk, hclosed⟩ := bury_get? hk
        rw [hrestores] at hk
        rw [hclosed other hk] at hopen'
        cases hopen'
    · by_contra hopen
      have hrefused := htask task.taskType none "" 0 (startTask_refused_iff.mpr
        (taskBusy_iff.mpr ⟨id, task, hold id task hid, rfl, by simpa using hopen⟩))
      obtain ⟨k, other, hk, htype, hopen'⟩ := taskBusy_iff.mp (startTask_refused_iff.mp hrefused)
      obtain ⟨hk, hclosed⟩ := bury_get? hk
      rcases htasks with hsame | ⟨hidle, h, hnew⟩
      · rw [hsame] at hk
        rw [hclosed other hk] at hopen'
        cases hopen'
      · -- the reindex of this process was not refused, so the dead task is of another type
        rw [hnew, Table.get?_add] at hk
        split at hk
        · obtain rfl := Option.some.inj hk
          have hbusy : taskBusy db₀ "fts_reindex" = true :=
            taskBusy_iff.mpr ⟨id, task, hid, htype.symm, by simpa using hopen⟩
          rw [hidle] at hbusy
          cases hbusy
        · rw [hclosed other hk] at hopen'
          cases hopen'
  · rintro ⟨hrestore, htask⟩
    refine ⟨fun request jobId now' hrefused => ?_, fun taskType requestedBy id now' hrefused => ?_,
      fun accountId jobId now' hrefused => ?_, fun policyId jobId now' hrefused => ?_⟩
    · rw [createRestoreJob_refused_iff] at hrefused ⊢
      left
      rcases hrefused with hcannot | hbusy
      · exact hcannot
      · obtain ⟨j, job, hj, hsource, htarget, hopen⟩ := restoreBusy_iff.mp hbusy
        rw [hrestores] at hj
        have hcannot := (hrestorable _ _).trans (hrestore j job hj hopen)
        rw [hsource, htarget] at hcannot
        exact hcannot
    · rw [startTask_refused_iff] at hrefused ⊢
      obtain ⟨k, other, hk, htype, hopen⟩ := taskBusy_iff.mp hrefused
      refine taskBusy_iff.mpr ⟨k, other, ?_, htype, hopen⟩
      change (bury _ db₀.tasks db.tasks).get? k = some other
      rw [bury, Table.get?_filter, hk, Option.filter_some, if_pos]
      cases hdead : db₀.tasks.get? k with
      | none => rfl
      | some task =>
          rw [Option.any_some, htask k task hdead]
          rfl
    · rw [createSync_refused_iff, htoDb, recovered_no_open] at hrefused
      cases hrefused
    · rw [createBackup_refused_iff] at hrefused ⊢
      exact hrefused

/-- Two accounts, and the restore from one to the other that was running when the process died. -/
def brokenOff : ServerDb where
  accounts := (Table.empty.add "src" { maildirPath := "src", storeId := "s1" } rfl).add "dst"
    { maildirPath := "dst", storeId := "s1", credentials := some "token" } rfl
  restoreJobs := Table.empty.add "r1"
    { sourceAccountId := "src", targetAccountId := "dst", status := .running, restoreMode := .full,
      requestedBy := "admin", requestedAt := 5 } rfl

/-- The restore that was cut off keeps every later one from starting. -/
theorem not_noDeadWorkBlocks_of_brokenOff :
    ¬ ∀ ftsChanged taskId now db₀,
      NoDeadWorkBlocks db₀ (lifespanRecovery ftsChanged taskId now db₀) := by
  intro h
  have hblocked := (h false "t1" 9 brokenOff).1
    ⟨"src", "dst", "full", "admin", "original", true, none, none⟩ "r2" 10
    (createRestoreJob_refused_iff.mpr (by decide))
  rw [createRestoreJob_refused_iff] at hblocked
  revert hblocked
  decide

end MailFallback
