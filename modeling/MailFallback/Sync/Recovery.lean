import MailFallback.Sync.Sound

/-! # Triggers and recovery

At most one open job per account, and what the sweep at boot makes of the rows that a crash
has left. -/

namespace MailFallback

open Storage Effects Transition

variable {settings : SyncSettings} {w₀ w : World} {db : Db}

/-! ## Triggers -/

def AtMostOneOpen (db : Db) : Prop :=
  ∀ j j' job job', db.syncJobs.get? j = some job → db.syncJobs.get? j' = some job' →
    job.status.isOpen = true → job'.status.isOpen = true → job'.accountId = job.accountId → j' = j

theorem OneOpen.atMostOne (h : OneOpen db) : AtMostOneOpen db := by
  intro j j' job job' hj hj' hopen hopen' hsame
  by_contra hne
  rw [(h j j' job job' hj hj' hopen hsame hne).1] at hopen'
  cases hopen'

/-- As long as no job is inserted for an account with an open one. -/
theorem atMostOneOpen_of_careful (h₀ : w₀.New)
    (h : Reaches (World.next · settings ·) Careful w₀ w) : AtMostOneOpen w.db :=
  (sound_of_reaches h₀ h).oneOpen.atMostOne

/-- The part of the condition that can be evaluated. -/
def carefulCheck (w : World) : SyncEvent → Bool
  | .insert accountId _ => !hasOpenJob w.db accountId
  | .sweep => false
  | _ => true

theorem carefulCheck_careful (w : World) (e : SyncEvent) (h : carefulCheck w e = true) :
    Careful w e := by
  cases e with
  | insert accountId jobId =>
      have hnone : hasOpenJob w.db accountId = false := by simpa [carefulCheck] using h
      exact hnone
  | sweep => cases h
  | _ => trivial

/-- One account that has never been synced. -/
def oneAccount : World where
  db := { accounts := ⟨[("a1", { maildirPath := "/mail/a1", storeId := "s1" })],
    List.nodup_singleton "a1"⟩ }

theorem oneAccount_new : oneAccount.New := by
  refine ⟨rfl, fun _ => rfl, rfl, rfl, fun a account ha => ?_⟩
  have hmem := Table.mem_rows.mpr ha
  simp only [oneAccount, List.mem_singleton, Prod.mk.injEq] at hmem
  rw [hmem.2]
  rintro ⟨⟩

theorem atMostOneOpen_after_trigger : ∃ w : World, hasOpenJob w.db "a1" = true ∧ AtMostOneOpen w.db := by
  have hrun : ([.ask "a1", .insert "a1" "j1"].foldlM
      (guarded carefulCheck (World.next · {} ·)) oneAccount).any
        (fun w : World => hasOpenJob w.db "a1") = true := by
    decide
  obtain ⟨w, hreach, hopen⟩ := Reaches.of_any hrun carefulCheck_careful
  exact ⟨w, hopen, atMostOneOpen_of_careful oneAccount_new hreach⟩

/-- Two callers that have both found no open job insert one each. -/
theorem not_atMostOneOpen_of_two_callers : ¬ ∀ (settings : SyncSettings) (w₀ w : World),
    w₀.New → Reaches (World.next · settings ·) (fun _ _ => True) w₀ w → AtMostOneOpen w.db := by
  intro h
  have hrun : ([.ask "a1", .ask "a1", .insert "a1" "j1", .insert "a1" "j2"].foldlM
      (guarded (fun _ _ => true) (World.next · {} ·)) oneAccount).any
        (fun w : World => decide (w.db.syncJobs.get? "j1" = some (newJob "a1" 0)) &&
          decide (w.db.syncJobs.get? "j2" = some (newJob "a1" 0))) = true := by
    decide
  obtain ⟨w, hreach, hjobs⟩ := Reaches.of_any hrun fun _ _ _ => trivial
  rw [Bool.and_eq_true, decide_eq_true_eq, decide_eq_true_eq] at hjobs
  have hsame := h {} oneAccount w oneAccount_new hreach "j1" "j2" _ _ hjobs.1 hjobs.2 rfl rfl rfl
  exact absurd hsame (by decide)

/-! ## The sweep at boot -/

theorem isZombie_boot (j : Id) (job : SyncJob) :
    isZombie [] j job = true ↔ job.status.isOpen = true := by
  rw [isOpen_iff]
  simp [isZombie]

/-- The sweep on a fresh process. -/
def recovered (now : Time) (db : Db) : Db := (recoverZombieSyncJobs [] now db).1

theorem recovered_closed (now : Time) (j : Id) (job : SyncJob)
    (hj : (recovered now db).syncJobs.get? j = some job) : job.status.isOpen = false := by
  unfold recovered recoverZombieSyncJobs at hj
  rw [closeJobs_get?] at hj
  obtain ⟨job₀, -, rfl⟩ := Option.map_eq_some_iff.mp hj
  split
  · rfl
  · rename_i hz
    by_contra hopen
    exact hz ((isZombie_boot j job₀).mpr (by simpa using hopen))

theorem recovered_not_syncing (h : SyncingRuns db) (now : Time) (a : Id) (account : Account)
    (ha : (recovered now db).accounts.get? a = some account) : account.syncState ≠ .syncing := by
  intro hsyncing
  obtain ⟨haccount, hkept⟩ := closeJobs_syncing ha hsyncing
  obtain ⟨j, job, hj, hja, hrunning⟩ := h a account haccount hsyncing
  have hzombie := (isZombie_boot j job).mpr (isOpen_iff.mpr (.inr hrunning))
  rw [hkept j job hj hja] at hzombie
  cases hzombie

theorem recovered_no_open (now : Time) (a : Id) : hasOpenJob (recovered now db) a = false := by
  by_contra hopen
  obtain ⟨j, job, hj, -, ho⟩ := hasOpenJob_iff.mp (by simpa using hopen)
  rw [recovered_closed now j job hj] at ho
  cases ho

theorem recovered_creates (now : Time) (a j : Id) (time : Time)
    (hj : (recovered now db).syncJobs.get? j = none) :
    (createSyncJob a j time (recovered now db)).isSome = true := by
  unfold createSyncJob insertJob
  rw [recovered_no_open, if_neg Bool.false_ne_true, dif_pos hj]
  rfl

/-- Without headroom, or after the initial sync, the release leaves the pause. -/
theorem releaseAccount_pause (now : Time) (account : Account)
    (h : account.initialSyncCompletedAt ≠ none ∨ budgetHeadroomToday account now = false) :
    (releaseAccount now account).syncPausedUntil = account.syncPausedUntil ∧
      (releaseAccount now account).pauseReason = account.pauseReason := by
  have hkeep : ∀ a : Account, a.initialSyncCompletedAt = account.initialSyncCompletedAt →
      budgetHeadroomToday a now = budgetHeadroomToday account now →
      redriveOrKeepPause now a = a := by
    intro a hinitial hbudget
    unfold redriveOrKeepPause
    rw [hinitial, hbudget, if_neg]
    rintro ⟨hnone, hheadroom⟩
    rcases h with h | h
    · exact h hnone
    · rw [hheadroom] at h
      cases h
  unfold releaseAccount
  split
  · rw [hkeep]
    · exact ⟨rfl, rfl⟩
    · rfl
    · rfl
  · rw [hkeep account rfl rfl]
    exact ⟨rfl, rfl⟩

theorem recovered_account (now : Time) (a : Id) :
    (recovered now db).accounts.get? a = (db.accounts.get? a).map fun account =>
      if (db.syncJobs.rows.any fun row =>
          isZombie [] row.1 row.2 && decide (row.2.accountId = a)) = true then
        releaseAccount now account
      else account :=
  Table.get?_map ..

theorem recovered_pause (now : Time) (a : Id) (account : Account)
    (ha : db.accounts.get? a = some account)
    (h : account.initialSyncCompletedAt ≠ none ∨ budgetHeadroomToday account now = false) :
    ∃ account', (recovered now db).accounts.get? a = some account' ∧
      account'.syncPausedUntil = account.syncPausedUntil ∧
      account'.pauseReason = account.pauseReason := by
  rw [recovered_account, ha, Option.map_some]
  refine ⟨_, rfl, ?_⟩
  split
  · exact releaseAccount_pause now account h
  · exact ⟨rfl, rfl⟩

/-- A database without an open job is not changed. -/
theorem recoverZombieSyncJobs_idle (now : Time)
    (h : ∀ j job, db.syncJobs.get? j = some job → job.status.isOpen = false) :
    recoverZombieSyncJobs [] now db = (db, 0) := by
  have hnone : ∀ j job, db.syncJobs.get? j = some job → isZombie [] j job = false := by
    intro j job hj
    by_contra hz
    have hopen := (isZombie_boot j job).mp (by simpa using hz)
    rw [h j job hj] at hopen
    cases hopen
  have hany : ∀ a : Id, (db.syncJobs.rows.any fun row =>
      isZombie [] row.1 row.2 && decide (row.2.accountId = a)) = false := by
    intro a
    rw [List.any_eq_false]
    rintro ⟨j, job⟩ hrow
    rw [hnone j job (Table.mem_rows.mp hrow)]
    exact Bool.false_ne_true
  have hcount : (db.syncJobs.rows.filter fun row => isZombie [] row.1 row.2) = [] := by
    rw [List.filter_eq_nil_iff]
    rintro ⟨j, job⟩ hrow
    rw [hnone j job (Table.mem_rows.mp hrow)]
    exact Bool.false_ne_true
  unfold recoverZombieSyncJobs
  rw [hcount]
  simp only [closeJobs, hany, Bool.false_eq_true, if_false, List.length_nil, Prod.mk.injEq,
    and_true]
  have hjobs : (db.syncJobs.map fun jobId job =>
      if isZombie [] jobId job = true then interrupt recoveredMarker now job else job) =
        db.syncJobs := by
    apply Table.map_eq_self
    intro j job hj
    rw [hnone j job hj]
    rfl
  have haccounts : (db.accounts.map fun _ account => account) = db.accounts :=
    Table.map_eq_self fun _ _ _ => rfl
  rw [hjobs, haccounts]

/-- After the sweep of a fresh process nothing is open and nothing is syncing, every account
can be synced again, pauses that are not re-driven are kept, and a second sweep finds
nothing. -/
theorem recovery_complete (h₀ : w₀.New) (h : Reaches (World.next · settings ·) Careful w₀ w)
    (now : Time) :
    (∀ j job, (recovered now w.db).syncJobs.get? j = some job →
      job.status ≠ .pending ∧ job.status ≠ .running) ∧
    (∀ a account, (recovered now w.db).accounts.get? a = some account →
      account.syncState ≠ .syncing) ∧
    (∀ a j time, (recovered now w.db).syncJobs.get? j = none →
      (createSyncJob a j time (recovered now w.db)).isSome = true) ∧
    (∀ a account, w.db.accounts.get? a = some account →
      account.initialSyncCompletedAt ≠ none ∨ budgetHeadroomToday account now = false →
        ∃ account', (recovered now w.db).accounts.get? a = some account' ∧
          account'.syncPausedUntil = account.syncPausedUntil ∧
          account'.pauseReason = account.pauseReason) ∧
    ∀ now', recoverZombieSyncJobs [] now' (recovered now w.db) = (recovered now w.db, 0) := by
  have hsound := sound_of_reaches h₀ h
  refine ⟨fun j job hj => ?_, recovered_not_syncing hsound.syncingRuns now,
    fun a j time hj => recovered_creates now a j time hj,
    fun a account ha hkeep => recovered_pause now a account ha hkeep,
    fun now' => recoverZombieSyncJobs_idle now' (recovered_closed now)⟩
  have hclosed := recovered_closed now j job hj
  constructor
  · intro hpending
    rw [hpending] at hclosed
    cases hclosed
  · intro hrunning
    rw [hrunning] at hclosed
    cases hclosed

/-- Killed while it is being synced for the first time, the account can be synced again. -/
theorem recovery_after_kill : ∃ w : World,
    (w.db.syncJobs.get? "j1").map (·.status) = some .running ∧ w.procs = [] ∧
      ∀ now j, (recovered now w.db).syncJobs.get? j = none →
        (createSyncJob "a1" j now (recovered now w.db)).isSome = true := by
  have hrun : ([.ask "a1", .insert "a1" "j1", .start "j1",
      .work "j1" fun o => ordinary "j1" {} { oneAccount.db with
        syncJobs := ⟨[("j1", newJob "a1" 0)], by decide⟩ } o,
      .work "j1" fun o => ordinary "j1" {} {} o, .work "j1" fun o => ordinary "j1" {} {} o,
      .work "j1" fun o => ordinary "j1" {} {} o, .work "j1" fun o => ordinary "j1" {} {} o,
      .crash].foldlM (guarded carefulCheck (World.next · {} ·)) oneAccount).any
        (fun w : World => decide ((w.db.syncJobs.get? "j1").map (·.status) = some .running) &&
          decide (w.procs = [])) = true := by
    decide
  obtain ⟨w, hreach, hend⟩ := Reaches.of_any hrun carefulCheck_careful
  rw [Bool.and_eq_true, decide_eq_true_eq, decide_eq_true_eq] at hend
  refine ⟨w, hend.1, hend.2, fun now j hj => ?_⟩
  exact (recovery_complete oneAccount_new hreach now).2.2.1 "a1" j now hj

end MailFallback
