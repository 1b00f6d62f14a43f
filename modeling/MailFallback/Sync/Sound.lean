import MailFallback.Sync.Invariants

/-! # The rows while triggers and sweeps behave

When jobs are inserted only for accounts without an open job, and the sweep at boot runs
before the executor has accepted any, an account never has two open jobs, and one that is
syncing has a running job. -/

namespace MailFallback

open Storage Effects Transition

variable {settings : SyncSettings} {w w' : World} {jobId accountId : Id} {l l' : Local}

/-- The executor has accepted nothing, and nothing of it is left. -/
def World.Idle (w : World) : Prop := w.queue = [] ∧ ∀ j, w.workers j = none

/-- `create_sync_job` is not interleaved, and the sweep keeps to its contract. -/
def Careful (w : World) : SyncEvent → Prop
  | .insert accountId _ => hasOpenJob w.db accountId = false
  | .sweep => w.Idle
  | _ => True

structure World.Sound (w : World) : Prop extends w.Kept where
  queuedPending : ∀ j ∈ w.queue, ∃ job, w.db.syncJobs.get? j = some job ∧ job.status = .pending
  ready : ∀ j wk, w.workers j = some wk → RowReady j wk.l w.db
  past : ∀ j job, w.db.syncJobs.get? j = some job → job.requestedAt ≤ w.clock
  oneOpen : OneOpen w.db
  syncingRuns : SyncingRuns w.db

/-- The rows that wait for a worker, or that a worker has refused. -/
def KeepsRow (db db' : Db) (j : Id) : Prop :=
  (∀ job, db.syncJobs.get? j = some job → job.status = .pending →
    db'.syncJobs.get? j = some job) ∧
  ∀ job', db'.syncJobs.get? j = some job' →
    ∃ job, db.syncJobs.get? j = some job ∧ job'.accountId = job.accountId ∧
      (job'.status = .running → job.status = .running)

theorem KeepsRow.of_eq {db db' : Db} {j : Id}
    (h : db'.syncJobs.get? j = db.syncJobs.get? j) : KeepsRow db db' j := by
  refine ⟨fun job hj _ => by rw [h]; exact hj, fun job' hj => ?_⟩
  rw [h] at hj
  exact ⟨job', hj, rfl, fun h => h⟩

theorem RowReady.keeps {db db' : Db} (h : RowReady jobId l db) (hrow : KeepsRow db db' jobId) :
    RowReady jobId l db' := by
  refine ⟨fun hstage => ?_, fun hstage job' hj hrunning => ?_, fun a ha job' hj => ?_⟩
  · obtain ⟨job, hj, hpending⟩ := h.1 hstage
    exact ⟨job, hrow.1 job hj hpending, hpending⟩
  · obtain ⟨job, hj', -, hback⟩ := hrow.2 job' hj
    exact h.2.1 hstage job hj' (hback hrunning)
  · obtain ⟨job, hj', hsame, -⟩ := hrow.2 job' hj
    exact hsame.trans (h.2.2 a ha job hj')

/-- The rows change and no worker does. -/
theorem World.Sound.rows_of (h : w.Sound) (hused : w'.used = w.used) (hqueue : w'.queue = w.queue)
    (hworkers : w'.workers = w.workers) (hclock : w.clock ≤ w'.clock)
    (hrows : Evolves NotOpened w.db w'.db) (hkeeps : ∀ j, (j ∈ w.queue ∨ w.workers j ≠ none) →
      KeepsRow w.db w'.db j) (hsyncing : SyncingRuns w'.db) : w'.Sound := by
  have hkept : w'.Kept := h.toKept.rows_of hused hqueue hworkers fun j job' hj => by
    obtain ⟨job, hjob, hsame, -⟩ := hrows j job' hj
    exact ⟨job, hjob, hsame⟩
  refine ⟨hkept, ?_, ?_, ?_, h.oneOpen.evolves hrows, hsyncing⟩
  · rw [hqueue]
    intro j hj
    obtain ⟨job, hjob, hpending⟩ := h.queuedPending j hj
    exact ⟨job, (hkeeps j (.inl hj)).1 job hjob hpending, hpending⟩
  · rw [hworkers]
    intro j wk hwk
    exact (h.ready j wk hwk).keeps (hkeeps j (.inr (by rw [hwk]; exact nofun)))
  · intro j job' hj
    obtain ⟨job, hjob, -, hr, -⟩ := hrows j job' hj
    rw [hr]
    exact Int.le_trans (h.past j job hjob) hclock

theorem World.Sound.same (h : w.Sound) (hused : w'.used = w.used) (hqueue : w'.queue = w.queue)
    (hworkers : w'.workers = w.workers) (hclock : w.clock ≤ w'.clock) (hdb : w'.db = w.db) :
    w'.Sound := by
  refine h.rows_of hused hqueue hworkers hclock ?_ (fun j _ => ?_) ?_
  · rw [hdb]
    exact .of_eq notOpened_refl rfl
  · rw [hdb]
    exact .of_eq rfl
  · rw [hdb]
    exact h.syncingRuns

theorem World.Sound.setAccount (h : w.Sound) {f : Account → Account}
    (hf : ∀ account, (f account).syncState = .syncing → account.syncState = .syncing)
    (hused : w'.used = w.used) (hqueue : w'.queue = w.queue) (hworkers : w'.workers = w.workers)
    (hclock : w'.clock = w.clock) (hdb : w'.db = setAccount accountId f w.db) : w'.Sound := by
  refine h.rows_of hused hqueue hworkers (Int.le_of_eq hclock.symm) ?_ (fun j _ => ?_) ?_
  · rw [hdb]
    exact .of_eq notOpened_refl rfl
  · rw [hdb]
    exact .of_eq rfl
  · rw [hdb]
    exact h.syncingRuns.setAccount hf

theorem afterReauth_syncing (account : Account)
    (h : (afterReauth account).syncState = .syncing) : account.syncState = .syncing := by
  unfold afterReauth at h
  split at h
  · cases h
  · exact h

/-! ## The steps of a worker -/

theorem session_keepsRow {o : SyncOp} {r : Except SyncExc (SyncAns o)} {db db' : Db} {j : Id}
    (hone : OneOpen db) (hj : j ≠ jobId) (h : session jobId l db o r = some db') :
    KeepsRow db db' j := by
  by_cases hcommit : o = .commit
  · subst hcommit
    cases r with
    | error e =>
        rw [session_error h]
        exact .of_eq rfl
    | ok done =>
        obtain rfl := Option.some.inj h
        exact .of_eq (by rw [pending_job, if_neg hj])
  · by_cases hcleanup : ∀ a, o ≠ .cleanupOldJobs a
    · rw [session_same hcommit hcleanup h]
      exact .of_eq rfl
    · push Not at hcleanup
      obtain ⟨a, rfl⟩ := hcleanup
      cases r with
      | error e =>
          rw [session_error h]
          exact .of_eq rfl
      | ok done =>
          obtain rfl := Option.some.inj h
          refine ⟨fun job hjob hpending => ?_, fun job' hj' => ?_⟩
          · exact cleanupOldJobs_open hone (by omega) hjob (by rw [hpending]; rfl)
          · rw [cleanupOldJobs_get?] at hj'
            exact ⟨job', (Option.filter_eq_some_iff.mp hj').1, rfl, fun h => h⟩

/-- The rows after an operation of a worker whose own row is ready. -/
theorem session_rows {o : SyncOp} {r : Except SyncExc (SyncAns o)} {db db' : Db}
    (htidy : l.Tidy) (hready : RowReady jobId l db) (hone : OneOpen db) (hsyncing : SyncingRuns db)
    (h : session jobId l db o r = some db') : Evolves NotOpened db db' ∧ SyncingRuns db' := by
  by_cases hcommit : o = .commit
  · subst hcommit
    cases r with
    | error e =>
        rw [session_error h]
        exact ⟨.of_eq notOpened_refl rfl, hsyncing⟩
    | ok done =>
        obtain rfl := Option.some.inj h
        exact ⟨pending_evolves htidy hready, hsyncing.pending htidy hready⟩
  · by_cases hcleanup : ∀ a, o ≠ .cleanupOldJobs a
    · rw [session_same hcommit hcleanup h]
      exact ⟨.of_eq notOpened_refl rfl, hsyncing⟩
    · push Not at hcleanup
      obtain ⟨a, rfl⟩ := hcleanup
      cases r with
      | error e =>
          rw [session_error h]
          exact ⟨.of_eq notOpened_refl rfl, hsyncing⟩
      | ok done =>
          obtain rfl := Option.some.inj h
          exact ⟨cleanupOldJobs_evolves notOpened_refl 150,
            hsyncing.cleanupOldJobs hone (by omega)⟩

/-- The stages in which the row has not been committed as running. -/
def Stage.waits : Stage → Bool
  | .fresh | .refused | .checked => true
  | _ => false

/-- A worker comes to a waiting stage by the first read only. -/
theorem next_waits {o : SyncOp} {r : Except SyncExc (SyncAns o)} (hview : o ≠ .view)
    (hl : localStep jobId o l r = some l') (h : l'.stage.waits = true) :
    l'.stage = l.stage ∧ (o = .commit → l.stage ≠ .checked) := by
  obtain rfl := localStep_eq hl
  cases r with
  | error e =>
      by_cases hwrite : ∀ content, o ≠ .writeConfig content
      · rw [next_error hwrite] at h ⊢
        refine ⟨?_, fun hcommit => ?_⟩
        · unfold Local.raise at h ⊢
          cases hstage : l.stage <;> rw [hstage] at h <;> first | rfl | cases h
        · subst hcommit
          cases hl
      · push Not at hwrite
        obtain ⟨content, rfl⟩ := hwrite
        cases h
  | ok a =>
      cases o with
      | view => exact absurd rfl hview
      | commit =>
          change l.committed.waits = true at h
          change l.committed = l.stage ∧ _
          by_cases hchecked : l.stage = .checked
          · rw [Local.committed, if_pos hchecked] at h
            split at h <;> cases h
          · exact ⟨if_neg hchecked, fun _ => hchecked⟩
      | refreshOauthToken credentials =>
          refine ⟨?_, (by rintro ⟨⟩)⟩
          simp only [Local.next] at h ⊢
          split at h
          · cases h
          · rename_i hn
            rw [if_neg hn]
      | writeConfig content => cases h
      | stopSampler =>
          refine ⟨?_, (by rintro ⟨⟩)⟩
          simp only [Local.next] at h ⊢
          split at h
          · cases h
          · rename_i hn
            rw [if_neg hn]
      | refreshJob =>
          simp only [Local.next] at h
          split at h <;> cases h
      | _ => exact ⟨rfl, (by rintro ⟨⟩)⟩

/-- The row of a worker is ready again after its operation. -/
theorem next_ready {o : SyncOp} {r : Except SyncExc (SyncAns o)} {db db' : Db}
    (htidy : l.Tidy) (hready : RowReady jobId l db) (hone : OneOpen db)
    (hl : localStep jobId o l r = some l') (hdb : session jobId l db o r = some db') :
    RowReady jobId l' db' := by
  have haccount : ∀ a, l'.account = some a → ∀ job, db'.syncJobs.get? jobId = some job →
      job.accountId = a := by
    intro a ha job' hj
    obtain ⟨job, hjob, hsame⟩ := session_evolves hdb jobId job' hj
    exact hsame.trans (next_account htidy hl hdb hready.2.2 a ha job hjob)
  by_cases hview : o = .view
  · subst hview
    obtain rfl : db' = db := session_same (o := .view) (by rintro ⟨⟩) (by rintro _ ⟨⟩) hdb
    cases r with
    | error e => cases hl
    | ok read =>
        obtain rfl := localStep_eq hl
        by_cases hfresh : l.stage = .fresh
        · obtain ⟨job, hjob, hpending⟩ := hready.1 (.inl hfresh)
          refine ⟨fun _ => ⟨job, hjob, hpending⟩, fun _ job' hj => ?_, haccount⟩
          obtain rfl := Option.some.inj (hjob.symm.trans hj)
          rw [hpending]
          rintro ⟨⟩
        · simp only [Local.next, if_neg hfresh]
          exact hready
  · refine ⟨fun hstage => ?_, fun hstage job' hj hrunning => ?_, haccount⟩
    · have hwaits : l'.stage.waits = true := by
        rcases hstage with h | h <;> rw [h] <;> rfl
      obtain ⟨hsame, hcommit⟩ := next_waits hview hl hwaits
      rw [hsame] at hstage
      obtain ⟨job, hjob, hpending⟩ := hready.1 hstage
      refine ⟨job, ?_, hpending⟩
      by_cases hc : o = .commit
      · subst hc
        have hfresh : l.stage = .fresh := hstage.resolve_right (hcommit rfl)
        have hnil : l.staged = [] := by
          apply List.eq_nil_iff_forall_not_mem.mpr
          intro p hp
          have hpermits := (htidy.1 p hp).2
          rw [hfresh] at hpermits
          cases hpermits
        cases r with
        | error e => cases hl
        | ok done =>
            obtain rfl := Option.some.inj hdb
            rw [pending_of_nil hnil]
            exact hjob
      · by_cases hcleanup : ∀ a, o ≠ .cleanupOldJobs a
        · rw [session_same hc hcleanup hdb]
          exact hjob
        · push Not at hcleanup
          obtain ⟨a, rfl⟩ := hcleanup
          cases r with
          | error e =>
              rw [session_error hdb]
              exact hjob
          | ok done =>
              obtain rfl := Option.some.inj hdb
              exact cleanupOldJobs_open hone (by omega) hjob (by rw [hpending]; rfl)
    · have hwaits : l'.stage.waits = true := by rw [hstage]; rfl
      obtain ⟨hsame, -⟩ := next_waits hview hl hwaits
      rw [hsame] at hstage
      by_cases hc : o = .commit
      · subst hc
        cases r with
        | error e => cases hl
        | ok done =>
            obtain rfl := Option.some.inj hdb
            rw [pending_job, if_pos rfl] at hj
            obtain ⟨job, hjob, rfl⟩ := Option.map_eq_some_iff.mp hj
            have hstatus := jobAfter_status job
              (htidy.no_start (by rw [hstage]; rintro ⟨⟩))
            cases hany : l.staged.any (fun p => p.2.closes) with
            | true =>
                have hended := hstatus.1 (.inl hany)
                rw [hrunning] at hended
                cases hended
            | false => exact hready.2.1 hstage job hjob (by rw [← hstatus.2 hany]; exact hrunning)
      · have hback : db.syncJobs.get? jobId = some job' := by
          by_cases hcleanup : ∀ a, o ≠ .cleanupOldJobs a
          · rw [session_same hc hcleanup hdb] at hj
            exact hj
          · push Not at hcleanup
            obtain ⟨a, rfl⟩ := hcleanup
            cases r with
            | error e =>
                rw [session_error hdb] at hj
                exact hj
            | ok done =>
                obtain rfl := Option.some.inj hdb
                rw [cleanupOldJobs_get?] at hj
                exact (Option.filter_eq_some_iff.mp hj).1
        exact hready.2.1 hstage job' hback hrunning

theorem World.Sound.work (h : w.Sound) {reply : (o : SyncOp) → Except SyncExc (SyncAns o)}
    (hwork : w.work jobId reply = some w') : w'.Sound := by
  have hkept := h.toKept.work hwork
  rcases work_cases hwork with ⟨wk, hwk, -, rfl⟩ | ⟨o, k, l, l', db, w'', hwk, hl, hdb, hw, rfl⟩
  · refine ⟨hkept, h.queuedPending, fun j wk' hwk' => ?_, h.past, h.oneOpen, h.syncingRuns⟩
    dsimp only at hwk'
    by_cases hjj : j = jobId
    · simp [hjj] at hwk'
    · rw [Function.update_of_ne hjj] at hwk'
      exact h.ready j wk' hwk'
  · obtain ⟨-, hclock, -, -, hqueue, -⟩ := perform_sameRows hw
    obtain ⟨-, hsafe⟩ := h.disciplined jobId _ hwk
    have hready := h.ready jobId _ hwk
    obtain ⟨hrows, hsyncing⟩ := session_rows hsafe.1 hready h.oneOpen h.syncingRuns hdb
    refine ⟨hkept, fun j hj => ?_, fun j wk' hwk' => ?_, fun j job' hj => ?_,
      h.oneOpen.evolves hrows, hsyncing⟩
    · rw [hqueue] at hj
      have hjj : j ≠ jobId := by
        rintro rfl
        have hnone := (h.queued j hj).1
        rw [hwk] at hnone
        cases hnone
      obtain ⟨job, hjob, hpending⟩ := h.queuedPending j hj
      exact ⟨job, (session_keepsRow h.oneOpen hjj hdb).1 job hjob hpending, hpending⟩
    · dsimp only at hwk'
      by_cases hjj : j = jobId
      · subst hjj
        rw [Function.update_self] at hwk'
        obtain rfl := Option.some.inj hwk'
        exact next_ready hsafe.1 hready h.oneOpen hl hdb
      · rw [Function.update_of_ne hjj] at hwk'
        exact (h.ready j wk' hwk').keeps (session_keepsRow h.oneOpen hjj hdb)
    · obtain ⟨job, hjob, -, hr, -⟩ := hrows j job' hj
      rw [hr, hclock]
      exact h.past j job hjob

/-! ## The other steps -/

theorem World.Sound.insert (h : w.Sound) {db : Db} (hunused : jobId ∉ w.used)
    (hnone : hasOpenJob w.db accountId = false)
    (hinsert : insertJob accountId jobId w.clock w.db = some db) :
    World.Sound { w with
      db := db
      used := jobId :: w.used
      asking := w.asking.erase accountId
      queue := jobId :: w.queue } := by
  have hother : ∀ j, j ≠ jobId → db.syncJobs.get? j = w.db.syncJobs.get? j := by
    intro j hj
    rw [insertJob_get? hinsert, if_neg hj]
  have hnew : ∀ j ∈ w.queue, j ≠ jobId := by
    rintro j hj rfl
    exact hunused (h.queued j hj).2
  refine ⟨h.toKept.insert hunused hinsert, fun j hj => ?_, fun j wk hwk => ?_,
    fun j job hj => ?_, h.oneOpen.insert h.past hnone hinsert, h.syncingRuns.insert hinsert⟩
  · rcases List.mem_cons.mp hj with rfl | hj
    · refine ⟨newJob accountId w.clock, ?_, rfl⟩
      rw [insertJob_get? hinsert, if_pos rfl]
    · obtain ⟨job, hjob, hpending⟩ := h.queuedPending j hj
      exact ⟨job, by rw [hother j (hnew j hj)]; exact hjob, hpending⟩
  · have hj : j ≠ jobId := by
      rintro rfl
      exact hunused (h.disciplined j wk hwk).1
    exact (h.ready j wk hwk).keeps (.of_eq (hother j hj))
  · by_cases hjj : j = jobId
    · rw [insertJob_get? hinsert, if_pos hjj] at hj
      obtain rfl := Option.some.inj hj
      exact Int.le_refl _
    · rw [hother j hjj] at hj
      exact h.past j job hj

theorem World.Sound.start (h : w.Sound) (hj : jobId ∈ w.queue) :
    World.Sound { w with
      queue := w.queue.erase jobId
      workers := Function.update w.workers jobId (some ⟨executeSyncJob settings jobId, {}⟩) } := by
  refine ⟨h.toKept.start hj, fun j hmem => h.queuedPending j (List.mem_of_mem_erase hmem),
    fun j wk hwk => ?_, h.past, h.oneOpen, h.syncingRuns⟩
  dsimp only at hwk
  by_cases hjj : j = jobId
  · subst hjj
    rw [Function.update_self] at hwk
    obtain rfl := Option.some.inj hwk
    exact ⟨fun _ => h.queuedPending j hj, nofun, nofun⟩
  · rw [Function.update_of_ne hjj] at hwk
    exact h.ready j wk hwk

/-- The watchdog closes running jobs only, which wait for no worker. -/
theorem World.Sound.closeRunning (h : w.Sound) {closing : Id → SyncJob → Bool} {marker : String}
    (hclosing : ∀ j job, closing j job = true → job.status = .running)
    (hused : w'.used = w.used) (hqueue : w'.queue = w.queue) (hworkers : w'.workers = w.workers)
    (hclock : w'.clock = w.clock) (hdb : w'.db = closeJobs closing marker w.clock w.db) :
    w'.Sound := by
  refine h.rows_of hused hqueue hworkers (Int.le_of_eq hclock.symm) ?_ (fun j _ => ⟨?_, ?_⟩) ?_
  · rw [hdb]
    exact closeJobs_evolves closing marker w.clock
  · intro job hj hpending
    rw [hdb, closeJobs_get?, hj, Option.map_some, if_neg]
    intro hc
    rw [hclosing j job hc] at hpending
    cases hpending
  · intro job' hj
    rw [hdb, closeJobs_get?] at hj
    obtain ⟨job, hjob, rfl⟩ := Option.map_eq_some_iff.mp hj
    refine ⟨job, hjob, ?_, fun hrunning => ?_⟩
    · split <;> rfl
    · split at hrunning
      · cases hrunning
      · exact hrunning
  · rw [hdb]
    exact h.syncingRuns.closeJobs closing marker w.clock

theorem World.Sound.sweep (h : w.Sound) (hidle : w.Idle) :
    World.Sound { w with db := (recoverZombieSyncJobs w.handles w.clock w.db).1 } := by
  refine h.rows_of rfl rfl rfl (Int.le_refl _) (closeJobs_evolves _ _ _) (fun j hj => ?_)
    (h.syncingRuns.closeJobs _ _ _)
  rcases hj with hj | hj
  · rw [hidle.1] at hj
    cases hj
  · exact absurd (hidle.2 j) hj

theorem World.Sound.next (h : w.Sound) {e : SyncEvent} (hok : Careful w e)
    (hnext : w.next settings e = some w') : w'.Sound := by
  cases e with
  | pass time =>
      obtain rfl := Option.some.inj hnext
      exact h.same rfl rfl rfl (Int.le_add_of_nonneg_right (Int.natCast_nonneg time)) rfl
  | ask accountId =>
      obtain ⟨-, hnext⟩ := Option.ite_none_left_eq_some.mp hnext
      obtain rfl := Option.some.inj hnext
      exact h.same rfl rfl rfl (Int.le_refl _) rfl
  | insert accountId jobId =>
      obtain ⟨⟨-, hunused⟩, hnext⟩ := Option.ite_none_right_eq_some.mp hnext
      obtain ⟨db, hinsert, rfl⟩ := Option.map_eq_some_iff.mp hnext
      exact h.insert hunused hok hinsert
  | overridePause accountId =>
      obtain rfl := Option.some.inj hnext
      exact h.setAccount (f := liftPause) (fun _ hs => hs) rfl rfl rfl rfl rfl
  | expirePause accountId =>
      obtain ⟨-, hnext⟩ := Option.ite_none_right_eq_some.mp hnext
      obtain rfl := Option.some.inj hnext
      exact h.setAccount (f := liftPause) (fun _ hs => hs) rfl rfl rfl rfl rfl
  | reauth accountId =>
      obtain rfl := Option.some.inj hnext
      exact h.setAccount afterReauth_syncing rfl rfl rfl rfl rfl
  | start jobId =>
      obtain ⟨hj, hnext⟩ := Option.ite_none_right_eq_some.mp hnext
      obtain rfl := Option.some.inj hnext
      exact h.start hj
  | work jobId reply => exact h.work hnext
  | tick jobId bytes =>
      obtain ⟨hclock, hused, -, hqueue, hworkers, hdb⟩ := tick_rows hnext
      rcases hdb with hdb | ⟨a, hdb⟩
      · exact h.same hused hqueue hworkers (Int.le_of_eq hclock.symm) hdb
      · exact h.setAccount (f := bookTraffic bytes w.clock) (fun _ hs => hs) hused hqueue hworkers hclock hdb
  | exit jobId =>
      obtain rfl := Option.some.inj hnext
      exact h.same rfl rfl rfl (Int.le_refl _) rfl
  | stop jobId =>
      obtain rfl := Option.some.inj hnext
      obtain ⟨hdb, hclock, hused, -, hqueue, hworkers⟩ := stopSyncJob_sameRows w jobId
      exact h.same hused hqueue hworkers (Int.le_of_eq hclock.symm) hdb
  | watchdog =>
      obtain rfl := Option.some.inj hnext
      obtain ⟨-, hclock, hused, -, hqueue, hworkers⟩ := stopAll_sameRows
        (w.db.syncJobs.rows.filter fun row => w.stalled settings row.1 row.2) w
      refine h.closeRunning (fun j job hj => ?_) hused hqueue hworkers hclock rfl
      simp only [World.stalled, Bool.and_eq_true, decide_eq_true_eq] at hj
      exact hj.1.1.1
  | sweep =>
      obtain rfl := Option.some.inj hnext
      exact h.sweep hok
  | crash =>
      obtain rfl := Option.some.inj hnext
      refine ⟨h.toKept.next (show w.next settings .crash = some _ from rfl), nofun, ?_, h.past, h.oneOpen,
        h.syncingRuns⟩
      intro j wk hwk
      cases hwk

/-- A container before its first job. -/
structure World.New (w : World) : Prop where
  queue : w.queue = []
  workers : ∀ j, w.workers j = none
  procs : w.procs = []
  jobs : w.db.syncJobs = .empty
  idle : ∀ a account, w.db.accounts.get? a = some account → account.syncState ≠ .syncing

theorem World.New.kept (h : w.New) : w.Kept := by
  refine ⟨?_, ?_, ?_, ?_, ?_⟩
  · rw [h.queue]
    exact nofun
  · rw [h.queue]
    exact List.nodup_nil
  · intro j job hj
    rw [h.jobs, Table.get?_empty] at hj
    cases hj
  · intro j wk hwk
    rw [h.workers j] at hwk
    cases hwk
  · intro j wk hwk
    rw [h.workers j] at hwk
    cases hwk

theorem World.New.sound (h : w.New) : w.Sound := by
  refine ⟨h.kept, ?_, ?_, ?_, ?_, ?_⟩
  · rw [h.queue]
    exact nofun
  · intro j wk hwk
    rw [h.workers j] at hwk
    cases hwk
  · intro j job hj
    rw [h.jobs, Table.get?_empty] at hj
    cases hj
  · intro j j' job job' hj
    rw [h.jobs, Table.get?_empty] at hj
    cases hj
  · intro a account ha hsyncing
    exact absurd hsyncing (h.idle a account ha)

theorem sound_of_reaches {w₀ : World} (h₀ : w₀.New)
    (h : Reaches (World.next · settings ·) Careful w₀ w) : w.Sound :=
  h.invariant h₀.sound fun _ _ _ hs hok hnext => hs.next hok hnext

theorem kept_of_reaches {w₀ : World} {ok : World → SyncEvent → Prop} (h₀ : w₀.New)
    (h : Reaches (World.next · settings ·) ok w₀ w) : w.Kept :=
  h.invariant h₀.kept fun _ _ _ hs _ hnext => hs.next hnext

end MailFallback
