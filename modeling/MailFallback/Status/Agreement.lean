import MailFallback.Status.Semantics
import MailFallback.Sync.Conclusion

/-! # The mailbox and the history tell the same story

The status of a mailbox reads the columns of its account, the history reads the job; a sync
run writes both in its one closing assignment. -/

namespace MailFallback.Status

open Storage Effects

variable {fire : FireTimes} {account : Account} {job : SyncJob} {now : Time} {live : Bool}

/-! ## The tones of a mailbox -/

section Tones

variable (hmigrating : account.migrating = false) (hsuspended : account.suspended = false)

include hmigrating hsuspended

theorem tone_of_signed_out (h : signedIn account = false) :
    (resolveMailboxStatus fire account (some job) now live false).tone = .attention := by
  simp [resolveMailboxStatus, hmigrating, hsuspended, h, make]

variable (hsigned : signedIn account = true)

include hsigned

theorem tone_of_error (hstate : account.syncState = .error) (hpause : pauseReason account = none)
    (hstopped : stoppedJob account (some job) = false) :
    (resolveMailboxStatus fire account (some job) now live false).tone = .error := by
  simp [resolveMailboxStatus, hmigrating, hsuspended, hsigned, hstate, hpause, hstopped, make]

variable (hfresh : longUnsynced fire account (some job) now = false)

include hfresh

theorem tone_of_stopped (hstate : account.syncState = .error)
    (hstopped : stoppedJob account (some job) = true) :
    (resolveMailboxStatus fire account (some job) now live false).tone = .muted := by
  simp [resolveMailboxStatus, hmigrating, hsuspended, hsigned, hstate, hstopped, hfresh, make]

theorem tone_of_paused (hstate : account.syncState = .idle) {reason : String}
    (hpause : pauseReason account = some reason) :
    (resolveMailboxStatus fire account (some job) now live false).tone = .active := by
  simp [resolveMailboxStatus, hmigrating, hsuspended, hsigned, hstate, hpause, hfresh, make]

theorem tone_of_current (hstate : account.syncState = .idle) (hpause : pauseReason account = none)
    (hdone : account.initialSyncCompletedAt.isSome = true) :
    (resolveMailboxStatus fire account (some job) now live false).tone = .ok := by
  simp [resolveMailboxStatus, hmigrating, hsuspended, hsigned, hstate, hpause, hfresh, hdone, make]

end Tones

/-! ## The closing assignments -/

theorem signedIn_of_idle (hauth : account.isAuthenticated = true)
    (hstate : account.syncState = .idle) : signedIn account = true := by
  simp [signedIn, tokenRefresh, hauth, hstate]

theorem signedIn_of_error (hauth : account.isAuthenticated = true)
    (hstate : account.syncState = .error) (h : account.lastError ≠ some tokenRefreshFailedText) :
    signedIn account = true := by
  simp [signedIn, tokenRefresh, hauth, hstate, h]

variable (live) in
/-- Both read the same tone off what a closing assignment leaves, red for a real failure. -/
theorem tones_of_closing {w : Write} {j : SyncJob} {a : Account} (hfits : w.Fits j a)
    (hkind : j.failureKind = none) (hauth : a.isAuthenticated = true)
    (hmigrating : (w.account a).migrating = false) (hsuspended : (w.account a).suspended = false)
    (hfresh : longUnsynced fire (w.account a) (some (w.job j)) now = false) :
    (resolveMailboxStatus fire (w.account a) (some (w.job j)) now live false).tone =
      (resolveJobOutcome (w.job j)).tone ∧
    ((resolveJobOutcome (w.job j)).tone = .error ↔ w.isFailure = true) := by
  cases w with
  | tokenRefreshFailed terminal time =>
      obtain ⟨hoauth, hsignal⟩ := hfits
      have hsigned : signedIn (Write.account (.tokenRefreshFailed terminal time) a) = false := by
        cases terminal <;> simp [signedIn, tokenRefresh, Write.account, hoauth]
      have hjob : (resolveJobOutcome (Write.job (.tokenRefreshFailed terminal time) j)).tone =
          .attention := by
        simp [resolveJobOutcome, Write.job, hkind, hsignal, blockedLogs, tokenRefreshFailedText]
      rw [tone_of_signed_out hmigrating hsuspended hsigned, hjob]
      exact ⟨rfl, (by rintro ⟨⟩), (by rintro ⟨⟩)⟩
  | completed time =>
      have hsigned : signedIn (Write.account (.completed time) a) = true :=
        signedIn_of_idle hauth rfl
      have hdone : (Write.account (.completed time) a).initialSyncCompletedAt.isSome = true := by
        simp [Write.account]
      rw [tone_of_current hmigrating hsuspended hsigned hfresh rfl rfl hdone]
      exact ⟨rfl, (by rintro ⟨⟩), (by rintro ⟨⟩)⟩
  | paused kind resumeAt =>
      have hsigned : signedIn (Write.account (.paused kind resumeAt) a) = true :=
        signedIn_of_idle hauth rfl
      have hpause : pauseReason (Write.account (.paused kind resumeAt) a) =
          some (pauseReasonOf kind) := by
        rcases hfits with rfl | rfl | rfl <;> rfl
      have hjob : (resolveJobOutcome (Write.job (.paused kind resumeAt) j)).tone = .active := by
        rcases hfits with rfl | rfl | rfl <;> rfl
      rw [tone_of_paused hmigrating hsuspended hsigned hfresh rfl hpause, hjob]
      exact ⟨rfl, (by rintro ⟨⟩), (by rintro ⟨⟩)⟩
  | capped message output =>
      have hsigned : signedIn (Write.account (.capped message output) a) = true :=
        signedIn_of_error hauth rfl fun h => hfits (Option.some.inj h)
      have hstopped : stoppedJob (Write.account (.capped message output) a)
          (some (Write.job (.capped message output) j)) = false := by
        simp [stoppedJob, Write.job]
      rw [tone_of_error hmigrating hsuspended hsigned rfl rfl hstopped]
      exact ⟨rfl, fun _ => rfl, fun _ => rfl⟩
  | stopped output =>
      obtain ⟨hsignal, hlog, houtput⟩ := hfits
      have hsigned : signedIn (Write.account (.stopped output) a) = true :=
        signedIn_of_error hauth rfl fun h => houtput (Option.some.inj h)
      have hstopped : stoppedJob (Write.account (.stopped output) a)
          (some (Write.job (.stopped output) j)) = true := by
        simp [stoppedJob, Write.job, Write.account, hsignal, hkind, hlog]
      have hjob : (resolveJobOutcome (Write.job (.stopped output) j)).tone = .muted := by
        simp [resolveJobOutcome, Write.job, hkind, hsignal]
      rw [tone_of_stopped hmigrating hsuspended hsigned hfresh rfl hstopped, hjob]
      exact ⟨rfl, (by rintro ⟨⟩), (by rintro ⟨⟩)⟩
  | errored output =>
      have hsigned : signedIn (Write.account (.errored output) a) = true :=
        signedIn_of_error hauth rfl fun h => hfits.2 (Option.some.inj h)
      have hstopped : stoppedJob (Write.account (.errored output) a)
          (some (Write.job (.errored output) j)) = false := by
        simp [stoppedJob, Write.job]
      rw [tone_of_error hmigrating hsuspended hsigned rfl rfl hstopped]
      exact ⟨rfl, fun _ => rfl, fun _ => rfl⟩
  | _ => exact hfits.elim

/-! ## Whole runs -/

/-- The story of a run along the straight line: the job and the account it leaves are read
alike, unless the mailbox is about something else by then. -/
theorem status_and_history_agree (fire : FireTimes) (settings : SyncSettings) (jobId accountId : Id)
    (db : Db) (requestedAt : Time)
    (hjob : db.syncJobs.get? jobId = some (newJob accountId requestedAt)) {log : SyncLog}
    {p' : SyncTask Unit} {s' : Attempt}
    (hrun : Run (attemptStep jobId) (executeSyncJob settings jobId) { db := db } log p' s')
    (hfinished : p'.finished = true) (hstarted : ∃ now, .start now ∈ writes log)
    (hstraight : ¬ s'.l.record.Astray) (hproduced : ∀ w ∈ writes log, w.excluded = false)
    (job : SyncJob) (hlast : s'.db.syncJobs.get? jobId = some job) (account : Account)
    (haccount : s'.db.accounts.get? accountId = some account) (now : Time) (live : Bool)
    (hmigrating : account.migrating = false) (hsuspended : account.suspended = false)
    (hfresh : longUnsynced fire account (some job) now = false) :
    (resolveMailboxStatus fire account (some job) now live false).tone =
      (resolveJobOutcome job).tone ∧
    ((resolveJobOutcome job).tone = .error ↔ ∃ w ∈ writes log, w.isFailure = true) := by
  obtain ⟨w, j, a, hfits, hkind, hauth, hw, honly, hjobs, haccounts⟩ :=
    straight_line_told settings hjob hrun hfinished hstarted hstraight hproduced
  obtain rfl := hjobs job hlast
  obtain rfl := haccounts account haccount
  obtain ⟨hsame, herror⟩ := tones_of_closing live hfits hkind hauth hmigrating hsuspended hfresh
  refine ⟨hsame, herror.trans ⟨fun h => ⟨w, hw, h⟩, fun h => ?_⟩⟩
  obtain ⟨w', hw', hfailure⟩ := h
  have hcloses : w'.closes = true := by cases w' <;> first | rfl | cases hfailure
  rw [← honly w' hw' hcloses]
  exact hfailure

/-- A first sync on which nothing fails. -/
theorem sample_run : ∃ log p' s' job account,
    Run (attemptStep "j1") (executeSyncJob {} "j1") { db := firstSync none } log p' s' ∧
      p'.finished = true ∧ (∃ now, .start now ∈ writes log) ∧ ¬ s'.l.record.Astray ∧
      (∀ w ∈ writes log, w.excluded = false) ∧ s'.db.syncJobs.get? "j1" = some job ∧
      s'.db.accounts.get? "a1" = some account ∧ account.migrating = false ∧
      account.suspended = false ∧ longUnsynced (fun _ _ _ => none) account (some job) 0 = false ∧
      resolveJobOutcome job = ⟨.ok, "synced", "stamp-ok", "check-circle", false⟩ := by
  have hend : (exec (attemptStep "j1").logged (fun o s => ordinary "j1" s.1.l s.1.db o) 60
      (executeSyncJob {} "j1") ({ db := firstSync none }, [])).any (fun x =>
        x.1.finished && decide (.start 0 ∈ writes x.2.2) &&
          decide (x.2.1.l.record.setupRaised = false ∧ x.2.1.l.record.bodyRaised = false ∧
            x.2.1.l.record.cleanUpRaised = false) &&
          ((writes x.2.2).all fun w => !w.excluded) &&
          (x.2.1.db.syncJobs.get? "j1").any fun job =>
            (x.2.1.db.accounts.get? "a1").any fun account =>
              decide (account.migrating = false ∧ account.suspended = false) &&
                !longUnsynced (fun _ _ _ => none) account (some job) 0 &&
                decide (resolveJobOutcome job =
                  ⟨.ok, "synced", "stamp-ok", "check-circle", false⟩)) = true := by
    decide
  obtain ⟨log, p', s', hrun, h⟩ := exec_any hend
  obtain ⟨hrun, hlog⟩ := hrun.of_logged
  rw [List.nil_append] at hlog
  simp only [hlog, Bool.and_eq_true, decide_eq_true_eq, Option.any_eq_true, List.all_eq_true,
    Bool.not_eq_true'] at h
  obtain ⟨⟨⟨⟨hfinished, hstart⟩, hsetup, hbody, hcleanUp⟩, hproduced⟩, job, hjob, account, haccount,
    ⟨⟨hmigrating, hsuspended⟩, hfresh⟩, houtcome⟩ := h
  refine ⟨log, p', s'.1, job, account, hrun, hfinished, ⟨0, hstart⟩, ?_, hproduced, hjob, haccount,
    hmigrating, hsuspended, hfresh, houtcome⟩
  simp [Record.Astray, hsetup, hbody, hcleanUp]

/-- After a first sync the mailbox and the history are both fine. -/
theorem sample_status_and_history_agree : ∃ job account,
    (resolveMailboxStatus (fun _ _ _ => none) account (some job) 0 false false).tone = .ok ∧
      (resolveJobOutcome job).tone = .ok := by
  obtain ⟨log, p', s', job, account, hrun, hfinished, hstarted, hstraight, hproduced, hjob,
    haccount, hmigrating, hsuspended, hfresh, houtcome⟩ := sample_run
  have hagree := status_and_history_agree (fun _ _ _ => none) {} "j1" "a1" (firstSync none) 0 rfl
    hrun hfinished hstarted hstraight hproduced job hjob account haccount 0 false hmigrating
    hsuspended hfresh
  have htone : (resolveJobOutcome job).tone = .ok := by rw [houtcome]
  exact ⟨job, account, hagree.1.trans htone, htone⟩

/-- The migration of an owner shows on the mailbox, and not in the history. -/
theorem owner_migration_overrides : ¬ ∀ (fire : FireTimes) (settings : SyncSettings)
    (jobId accountId : Id) (db : Db) (requestedAt : Time),
    db.syncJobs.get? jobId = some (newJob accountId requestedAt) → ∀ (log : SyncLog)
      (p' : SyncTask Unit) (s' : Attempt),
    Run (attemptStep jobId) (executeSyncJob settings jobId) { db := db } log p' s' →
    p'.finished = true → (∃ now, .start now ∈ writes log) → ¬ s'.l.record.Astray →
    (∀ w ∈ writes log, w.excluded = false) →
    ∀ job, s'.db.syncJobs.get? jobId = some job →
    ∀ account, s'.db.accounts.get? accountId = some account →
    ∀ (now : Time) (live ownerMigrating : Bool), account.migrating = false →
    account.suspended = false → longUnsynced fire account (some job) now = false →
    (resolveMailboxStatus fire account (some job) now live ownerMigrating).tone =
      (resolveJobOutcome job).tone ∧
    ((resolveJobOutcome job).tone = .error ↔ ∃ w ∈ writes log, w.isFailure = true) := by
  intro h
  obtain ⟨log, p', s', job, account, hrun, hfinished, hstarted, hstraight, hproduced, hjob,
    haccount, hmigrating, hsuspended, hfresh, houtcome⟩ := sample_run
  have hsame := (h (fun _ _ _ => none) {} "j1" "a1" (firstSync none) 0 rfl log p' s' hrun hfinished
    hstarted hstraight hproduced job hjob account haccount 0 false true hmigrating hsuspended
    hfresh).1
  rw [houtcome] at hsame
  simp [resolveMailboxStatus, make] at hsame

end MailFallback.Status
