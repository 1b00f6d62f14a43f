import MailFallback.Sync.Actors
import MailFallback.Sync.Session

/-! # Open jobs and syncing accounts

The invariant of the rows alone: an account has one open job at most, which is its newest,
and an account that is syncing has a running one. -/

namespace MailFallback

open Storage

/-- Every job stems from one that was there, related to it. -/
def Evolves (R : SyncJob → SyncJob → Prop) (db db' : Db) : Prop :=
  ∀ jobId job', db'.syncJobs.get? jobId = some job' →
    ∃ job, db.syncJobs.get? jobId = some job ∧ R job job'

def SameAccount (job job' : SyncJob) : Prop := job'.accountId = job.accountId

/-- Nothing is opened, and the rest of what orders jobs stays. -/
def NotOpened (job job' : SyncJob) : Prop :=
  job'.accountId = job.accountId ∧ job'.requestedAt = job.requestedAt ∧
    (job'.status.isOpen = true → job.status.isOpen = true)

/-- An open job is the only one of its account, and the newest. -/
def OneOpen (db : Db) : Prop :=
  ∀ j j' job job', db.syncJobs.get? j = some job → db.syncJobs.get? j' = some job' →
    job.status.isOpen = true → job'.accountId = job.accountId → j' ≠ j →
      job'.status.isOpen = false ∧ job'.requestedAt ≤ job.requestedAt

def SyncingRuns (db : Db) : Prop :=
  ∀ a account, db.accounts.get? a = some account → account.syncState = .syncing →
    ∃ j job, db.syncJobs.get? j = some job ∧ job.accountId = a ∧ job.status = .running

variable {R : SyncJob → SyncJob → Prop} {db db' : Db} {jobId accountId : Id} {l : Local}
  {staged : List (Id × Write)}

theorem hasOpenJob_iff : hasOpenJob db accountId = true ↔
    ∃ j job, db.syncJobs.get? j = some job ∧ job.accountId = accountId ∧
      job.status.isOpen = true := by
  simp only [hasOpenJob, List.any_eq_true, Prod.exists, Bool.and_eq_true, decide_eq_true_eq,
    Table.mem_rows]

theorem isOpen_iff {status : JobStatus} :
    status.isOpen = true ↔ status = .pending ∨ status = .running := by
  cases status <;> decide

theorem isOpen_of_ended {status : JobStatus} (h : status.ended = true) : status.isOpen = false := by
  cases status <;> first | rfl | cases h

theorem OneOpen.evolves (h : OneOpen db) (hfrom : Evolves NotOpened db db') : OneOpen db' := by
  intro j j' job₁ job₁' hj hj' hopen hsame hne
  obtain ⟨job, hjob, ha, hr, ho⟩ := hfrom j job₁ hj
  obtain ⟨job', hjob', ha', hr', ho'⟩ := hfrom j' job₁' hj'
  have haccount : job'.accountId = job.accountId := by rw [← ha, ← ha', hsame]
  obtain ⟨hclosed, hnewest⟩ := h j j' job job' hjob hjob' (ho hopen) haccount hne
  refine ⟨?_, by rw [hr, hr']; exact hnewest⟩
  by_contra hopen'
  rw [ho' (by simpa using hopen')] at hclosed
  cases hclosed

theorem Evolves.of_eq (hR : ∀ job, R job job) (h : db'.syncJobs = db.syncJobs) :
    Evolves R db db' := by
  intro j job hj
  rw [h] at hj
  exact ⟨job, hj, hR job⟩

theorem notOpened_refl (job : SyncJob) : NotOpened job job := ⟨rfl, rfl, fun h => h⟩

/-! ## Accounts -/

/-- A change of accounts that sets none to syncing. -/
theorem SyncingRuns.accounts (h : SyncingRuns db) (hjobs : db'.syncJobs = db.syncJobs)
    (haccounts : ∀ a account', db'.accounts.get? a = some account' →
      account'.syncState = .syncing →
        ∃ account, db.accounts.get? a = some account ∧ account.syncState = .syncing) :
    SyncingRuns db' := by
  intro a account' ha hsyncing
  obtain ⟨account, haccount, hsyncing⟩ := haccounts a account' ha hsyncing
  rw [hjobs]
  exact h a account haccount hsyncing

theorem SyncingRuns.setAccount (h : SyncingRuns db) {f : Account → Account}
    (hf : ∀ account, (f account).syncState = .syncing → account.syncState = .syncing) :
    SyncingRuns (setAccount accountId f db) := by
  refine h.accounts rfl fun a account' ha hsyncing => ?_
  simp only [MailFallback.setAccount, Table.get?_modify] at ha
  split at ha
  · obtain ⟨account, haccount, rfl⟩ := Option.map_eq_some_iff.mp ha
    exact ⟨account, haccount, hf account hsyncing⟩
  · exact ⟨account', ha, hsyncing⟩

/-! ## Inserting -/

theorem insertJob_get? {now : Time} (h : insertJob accountId jobId now db = some db') (j : Id) :
    db'.syncJobs.get? j =
      if j = jobId then some (newJob accountId now) else db.syncJobs.get? j := by
  unfold insertJob at h
  split at h
  · rename_i hnone
    obtain rfl := Option.some.inj h
    exact Table.get?_add _ _ _ _ hnone
  · cases h

theorem insertJob_accounts {now : Time} (h : insertJob accountId jobId now db = some db') :
    db'.accounts = db.accounts := by
  unfold insertJob at h
  split at h
  · obtain rfl := Option.some.inj h
    rfl
  · cases h

theorem insertJob_fresh {now : Time} (h : insertJob accountId jobId now db = some db') :
    db.syncJobs.get? jobId = none := by
  unfold insertJob at h
  split at h
  · assumption
  · cases h

theorem OneOpen.insert {now : Time} (h : OneOpen db)
    (hpast : ∀ j job, db.syncJobs.get? j = some job → job.requestedAt ≤ now)
    (hnone : hasOpenJob db accountId = false)
    (hinsert : insertJob accountId jobId now db = some db') : OneOpen db' := by
  have hclosed : ∀ j job, db.syncJobs.get? j = some job → job.accountId = accountId →
      job.status.isOpen = false := by
    intro j job hj ha
    by_contra hopen
    rw [hasOpenJob_iff.mpr ⟨j, job, hj, ha, by simpa using hopen⟩] at hnone
    cases hnone
  intro j j' job job' hj hj' hopen hsame hne
  rw [insertJob_get? hinsert] at hj hj'
  split at hj
  · obtain rfl := Option.some.inj hj
    split at hj'
    · rename_i h₁ h₂
      exact absurd (h₂.trans h₁.symm) hne
    · exact ⟨hclosed j' job' hj' hsame, hpast j' job' hj'⟩
  · split at hj'
    · obtain rfl := Option.some.inj hj'
      rw [hclosed j job hj hsame.symm] at hopen
      cases hopen
    · exact h j j' job job' hj hj' hopen hsame hne

theorem SyncingRuns.insert {now : Time} (h : SyncingRuns db)
    (hinsert : insertJob accountId jobId now db = some db') : SyncingRuns db' := by
  intro a account ha hsyncing
  rw [insertJob_accounts hinsert] at ha
  obtain ⟨j, job, hj, hja, hrunning⟩ := h a account ha hsyncing
  refine ⟨j, job, ?_, hja, hrunning⟩
  rw [insertJob_get? hinsert, if_neg]
  · exact hj
  · rintro rfl
    rw [insertJob_fresh hinsert] at hj
    cases hj

/-! ## Closing -/

theorem closeJobs_get? (closing : Id → SyncJob → Bool) (marker : String) (now : Time) (j : Id) :
    (closeJobs closing marker now db).syncJobs.get? j =
      (db.syncJobs.get? j).map fun job =>
        if closing j job = true then interrupt marker now job else job :=
  Table.get?_map ..

theorem closeJobs_evolves (closing : Id → SyncJob → Bool) (marker : String) (now : Time) :
    Evolves NotOpened db (closeJobs closing marker now db) := by
  intro j job' hj
  rw [closeJobs_get?] at hj
  obtain ⟨job, hjob, rfl⟩ := Option.map_eq_some_iff.mp hj
  refine ⟨job, hjob, ?_⟩
  split
  · exact ⟨rfl, rfl, nofun⟩
  · exact notOpened_refl job

theorem releaseAccount_syncState (now : Time) (account : Account) :
    (releaseAccount now account).syncState ≠ .syncing := by
  unfold releaseAccount redriveOrKeepPause
  by_cases hsyncing : account.syncState = .syncing
  · rw [if_pos hsyncing]
    split <;> exact nofun
  · rw [if_neg hsyncing]
    split <;> exact hsyncing

/-- The account of a job that is closed is not left syncing. -/
theorem closeJobs_syncing {closing : Id → SyncJob → Bool} {marker : String} {now : Time}
    {a : Id} {account' : Account}
    (ha : (closeJobs closing marker now db).accounts.get? a = some account')
    (hsyncing : account'.syncState = .syncing) :
    db.accounts.get? a = some account' ∧
      ∀ j job, db.syncJobs.get? j = some job → job.accountId = a → closing j job = false := by
  simp only [closeJobs, Table.get?_map, Option.map_eq_some_iff] at ha
  obtain ⟨account, haccount, rfl⟩ := ha
  split at hsyncing
  · exact absurd hsyncing (releaseAccount_syncState now account)
  · rename_i hnone
    rw [if_neg hnone]
    refine ⟨haccount, fun j job hj hja => ?_⟩
    by_contra hclosing
    refine hnone (List.any_eq_true.mpr ⟨(j, job), Table.mem_rows.mpr hj, ?_⟩)
    simpa [hja] using hclosing

theorem SyncingRuns.closeJobs (h : SyncingRuns db) (closing : Id → SyncJob → Bool)
    (marker : String) (now : Time) : SyncingRuns (closeJobs closing marker now db) := by
  intro a account' ha hsyncing
  obtain ⟨haccount, hkept⟩ := closeJobs_syncing ha hsyncing
  obtain ⟨j, job, hj, hja, hrunning⟩ := h a account' haccount hsyncing
  refine ⟨j, job, ?_, hja, hrunning⟩
  rw [closeJobs_get?, hj, Option.map_some, hkept j job hj hja]
  rfl

/-! ## The clean-up of old jobs -/

theorem cleanupOldJobs_get? (keep : ℕ) (j : Id) :
    (cleanupOldJobs keep accountId db).syncJobs.get? j =
      (db.syncJobs.get? j).filter fun job =>
        decide (job.accountId ≠ accountId) || decide (newerJobs db job < keep) :=
  Table.get?_filter ..

theorem cleanupOldJobs_evolves (hR : ∀ job, R job job) (keep : ℕ) :
    Evolves R db (cleanupOldJobs keep accountId db) := by
  intro j job hj
  rw [cleanupOldJobs_get?] at hj
  exact ⟨job, (Option.filter_eq_some_iff.mp hj).1, hR job⟩

/-- An open job is not among the old ones. -/
theorem cleanupOldJobs_open {job : SyncJob} (h : OneOpen db) {keep : ℕ} (hkeep : 0 < keep) {j : Id}
    (hj : db.syncJobs.get? j = some job) (hopen : job.status.isOpen = true) :
    (cleanupOldJobs keep accountId db).syncJobs.get? j = some job := by
  have hnewest : newerJobs db job = 0 := by
    unfold newerJobs
    rw [List.length_eq_zero_iff, List.filter_eq_nil_iff]
    rintro ⟨j', job'⟩ hmem hnewer
    simp only [Bool.and_eq_true, decide_eq_true_eq] at hnewer
    have hj' := Table.mem_rows.mp hmem
    by_cases hne : j' = j
    · subst hne
      obtain rfl := Option.some.inj (hj.symm.trans hj')
      exact Int.lt_irrefl _ hnewer.2
    · exact Int.not_lt.mpr (h j j' job job' hj hj' hopen hnewer.1 hne).2 hnewer.2
  rw [cleanupOldJobs_get?, hj]
  simp [hnewest, hkeep]

theorem SyncingRuns.cleanupOldJobs (h : SyncingRuns db) (hone : OneOpen db) {keep : ℕ}
    (hkeep : 0 < keep) : SyncingRuns (cleanupOldJobs keep accountId db) := by
  intro a account ha hsyncing
  obtain ⟨j, job, hj, hja, hrunning⟩ := h a account ha hsyncing
  exact ⟨j, job, cleanupOldJobs_open hone hkeep hj (by rw [hrunning]; rfl), hja, hrunning⟩

/-! ## Commits -/

theorem pending_evolves_account : Evolves SameAccount db (pending jobId staged db) := by
  intro j job' hj
  rw [pending_job] at hj
  split at hj
  · obtain ⟨job, hjob, rfl⟩ := Option.map_eq_some_iff.mp hj
    exact ⟨job, hjob, jobAfter_accountId job⟩
  · exact ⟨job', hj, rfl⟩

/-- The row of a worker before a commit: what has not started is pending, and what is refused
does not run. -/
def RowReady (jobId : Id) (l : Local) (db : Db) : Prop :=
  (l.stage = .fresh ∨ l.stage = .checked →
    ∃ job, db.syncJobs.get? jobId = some job ∧ job.status = .pending) ∧
  (l.stage = .refused → ∀ job, db.syncJobs.get? jobId = some job → job.status ≠ .running) ∧
  ∀ a, l.account = some a → ∀ job, db.syncJobs.get? jobId = some job → job.accountId = a

theorem pending_evolves (htidy : l.Tidy) (hrow : RowReady jobId l db) :
    Evolves NotOpened db (pending jobId l.staged db) := by
  intro j job' hj
  rw [pending_job] at hj
  split at hj
  · rename_i hj'
    subst hj'
    obtain ⟨job, hjob, rfl⟩ := Option.map_eq_some_iff.mp hj
    refine ⟨job, hjob, jobAfter_accountId job, jobAfter_requestedAt job, fun hopen => ?_⟩
    by_cases hchecked : l.stage = .checked
    · obtain ⟨job', hjob', hpending⟩ := hrow.1 (.inr hchecked)
      obtain rfl := Option.some.inj (hjob.symm.trans hjob')
      rw [hpending]
      rfl
    · by_contra hclosed
      have hstatus := jobAfter_status job (htidy.no_start hchecked)
      cases hany : l.staged.any (fun p => p.2.closes) with
      | true => simp [isOpen_of_ended (hstatus.1 (.inl hany))] at hopen
      | false => exact hclosed (by rw [← hstatus.2 hany]; exact hopen)
  · exact ⟨job', hj, notOpened_refl job'⟩

/-- The blocks before the start leave the account alone. -/
theorem accountAfter_blocked (account : Account)
    (h : ∀ p ∈ staged, p.2.isBlocked = true) : accountAfter staged account = account := by
  unfold accountAfter
  induction staged generalizing account with
  | nil => rfl
  | cons p staged ih =>
      obtain ⟨hp, hrest⟩ := List.forall_mem_cons.mp h
      have hsame : p.2.account account = account := by
        cases hw : p.2 <;> rw [hw] at hp <;> first | rfl | cases hp
      rw [List.foldl_cons, hsame]
      exact ih account hrest

theorem SyncingRuns.pending (h : SyncingRuns db) (htidy : l.Tidy)
    (hrow : RowReady jobId l db) : SyncingRuns (pending jobId l.staged db) := by
  match hstaged : l.staged with
  | [] => exact h
  | p :: rest =>
      have hmem : p ∈ l.staged := by
        rw [hstaged]
        exact List.mem_cons_self
      have haccount := (htidy.1 p hmem).1
      rw [← hstaged]
      -- a running job of another account, or of another worker, is not touched
      have hother : ∀ a account, db.accounts.get? a = some account → account.syncState = .syncing →
          (a = p.1 → ∀ job, db.syncJobs.get? jobId = some job → job.status ≠ .running) →
          ∃ j job, (MailFallback.pending jobId l.staged db).syncJobs.get? j = some job ∧
            job.accountId = a ∧ job.status = .running := by
        intro a account ha hsyncing hidle
        obtain ⟨j, job, hj, hja, hrunning⟩ := h a account ha hsyncing
        have hne : j ≠ jobId := by
          rintro rfl
          have ha' : a = p.1 := by rw [← hja]; exact hrow.2.2 _ haccount job hj
          exact hidle ha' job hj hrunning
        refine ⟨j, job, ?_, hja, hrunning⟩
        rw [pending_job, if_neg hne]
        exact hj
      intro a account' ha hsyncing
      rw [pending_account (htidy.staged_account haccount)] at ha
      by_cases hap : a = p.1
      · rw [if_pos hap] at ha
        obtain ⟨account, haccount', rfl⟩ := Option.map_eq_some_iff.mp ha
        by_cases hrefused : l.stage = .refused
        · have hblocked : ∀ q ∈ l.staged, q.2.isBlocked = true := by
            intro q hq
            have hpermits := (htidy.1 q hq).2
            rw [hrefused] at hpermits
            cases hw : q.2 <;> rw [hw] at hpermits <;> first | rfl | cases hpermits
          rw [accountAfter_blocked account hblocked] at hsyncing
          exact hother a account haccount' hsyncing fun _ => hrow.2.1 hrefused
        · by_cases hchecked : l.stage = .checked
          · obtain ⟨job, hj, hpending⟩ := hrow.1 (.inr hchecked)
            rcases htidy.checked hchecked with hnil | ⟨b, w, hb, hone, ⟨now, rfl⟩ | ⟨error, now, rfl⟩⟩
            · rw [hnil] at hstaged
              cases hstaged
            · refine ⟨jobId, jobAfter l.staged job, ?_, ?_, ?_⟩
              · rw [pending_job, if_pos rfl, hj]
                rfl
              · rw [jobAfter_accountId, hap]
                exact hrow.2.2 _ haccount job hj
              · rw [hone]
                rfl
            · rw [hone] at hsyncing
              cases hsyncing
          · have hquiet : ∀ q ∈ l.staged, q.2.isStart = false ∧ q.2.isBlocked = false :=
              fun q hq => ⟨htidy.no_start hchecked q hq, htidy.no_blocked hrefused q hq⟩
            have hnone : l.staged.any (fun q => q.2.closes) = false := by
              by_contra hany
              exact accountAfter_syncState account hquiet (.inl (by simpa using hany)) hsyncing
            have hbefore : account.syncState = .syncing := by
              by_contra hne
              exact accountAfter_syncState account hquiet (.inr hne) hsyncing
            obtain ⟨j, job, hj, hja, hrunning⟩ := h a account haccount' hbefore
            by_cases hjj : j = jobId
            · refine ⟨j, jobAfter l.staged job, ?_, ?_, ?_⟩
              · rw [pending_job, if_pos hjj, hj]
                rfl
              · rw [jobAfter_accountId]
                exact hja
              · rw [(jobAfter_status job (htidy.no_start hchecked)).2 hnone]
                exact hrunning
            · refine ⟨j, job, ?_, hja, hrunning⟩
              rw [pending_job, if_neg hjj]
              exact hj
      · rw [if_neg hap] at ha
        exact hother a account' ha hsyncing fun h => absurd h hap

end MailFallback
