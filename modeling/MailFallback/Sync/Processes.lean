import MailFallback.Sync.Recovery

/-! # The mbsync processes

A job starts a process only while it is committed as running, and an account has one process
at most, as long as no actor closes a job whose worker is still before its last process. -/

namespace MailFallback

open Storage Effects Transition

variable {settings : SyncSettings} {w w' w₀ : World} {jobId accountId : Id} {l l' : Local}

/-- The worker may still start a process for a job that was committed as running. -/
def Stage.mayStart : Stage → Bool
  | .setup | .trying => true
  | _ => false

/-- The watchdog closes no job whose worker may still start a process, and a worker is not
thrown out of its `try` while its process is alive. -/
def Undisturbed (settings : SyncSettings) (w : World) : SyncEvent → Prop
  | .watchdog => ∀ j wk, w.workers j = some wk → wk.l.stage.mayStart = true →
      ∀ job, w.db.syncJobs.get? j = some job → w.stalled settings j job = false
  | .work j reply => ∀ o k l, w.workers j = some ⟨.perform o k, l⟩ →
      (∃ e, reply o = .error e) → w.alive j = false
  | e => Careful w e

/-- The next operation of the worker is the start of a process. -/
def Worker.spawning (wk : Worker) : Bool :=
  match wk.prog with
  | .perform (.spawn _) _ => true
  | _ => false

/-- Processes are started for running jobs only, and an account has one at most. -/
def World.ProcessesInOrder (w : World) : Prop :=
  (∀ j wk, w.workers j = some wk → wk.spawning = true →
    ∃ job, w.db.syncJobs.get? j = some job ∧ job.status = .running) ∧
  ∀ a, (w.procs.filter fun p => decide (p.accountId = a)).length ≤ 1

/-- The worker that a process belongs to waits for it. -/
def Manned (workers : Id → Option Worker) (p : Process) : Prop :=
  ∃ wk, workers p.jobId = some wk ∧ wk.l.stage = .trying ∧ wk.l.child = true ∧
    wk.l.account = some p.accountId

structure World.Orderly (w : World) : Prop extends w.Sound where
  runs : ∀ j wk, w.workers j = some wk → wk.l.stage.mayStart = true →
    ∃ job, w.db.syncJobs.get? j = some job ∧ job.status = .running
  manned : ∀ p ∈ w.procs, Manned w.workers p
  oneEach : (w.procs.map (·.jobId)).Nodup

theorem Undisturbed.careful {e : SyncEvent} (h : Undisturbed settings w e) : Careful w e := by
  cases e with
  | watchdog => trivial
  | work j reply => trivial
  | _ => exact h

/-! ## Processes -/

/-- The processes of `w'` are among those of `w`, but for their registration. -/
def FewerProcs (w w' : World) : Prop :=
  (∀ p' ∈ w'.procs, ∃ p ∈ w.procs, p'.jobId = p.jobId ∧ p'.accountId = p.accountId) ∧
    ((w.procs.map (·.jobId)).Nodup → (w'.procs.map (·.jobId)).Nodup)

theorem FewerProcs.of_eq (h : w'.procs = w.procs) : FewerProcs w w' := by
  unfold FewerProcs
  rw [h]
  exact ⟨fun p hp => ⟨p, hp, rfl, rfl⟩, fun h => h⟩

theorem FewerProcs.of_filter {keep : Process → Bool} (h : w'.procs = w.procs.filter keep) :
    FewerProcs w w' := by
  unfold FewerProcs
  rw [h]
  exact ⟨fun p hp => ⟨p, List.mem_of_mem_filter hp, rfl, rfl⟩,
    fun hnodup => hnodup.sublist (List.filter_sublist.map _)⟩

theorem FewerProcs.trans {w'' : World} (h : FewerProcs w w') (h' : FewerProcs w' w'') :
    FewerProcs w w'' := by
  refine ⟨fun p'' hp'' => ?_, fun hnodup => h'.2 (h.2 hnodup)⟩
  obtain ⟨p', hp', hj', ha'⟩ := h'.1 p'' hp''
  obtain ⟨p, hp, hj, ha⟩ := h.1 p' hp'
  exact ⟨p, hp, hj'.trans hj, ha'.trans ha⟩

theorem setProcesses_fewer (w : World) (registered : Bool) :
    FewerProcs w (w.setProcesses jobId registered) := by
  have hjob : ∀ p : Process, (if p.jobId = jobId then { p with registered := registered }
      else p).jobId = p.jobId := by
    intro p
    split <;> rfl
  refine ⟨fun p' hp' => ?_, fun hnodup => ?_⟩
  · obtain ⟨p, hp, rfl⟩ := List.mem_map.mp hp'
    refine ⟨p, hp, hjob p, ?_⟩
    split <;> rfl
  · have hmap : ((w.setProcesses jobId registered).procs.map (·.jobId)) =
        w.procs.map (·.jobId) := by
      simp only [World.setProcesses, List.map_map]
      exact List.map_congr_left fun p _ => hjob p
    rw [hmap]
    exact hnodup

theorem stopSyncJob_fewer (w : World) (jobId : Id) : FewerProcs w (w.stopSyncJob jobId) := by
  unfold World.stopSyncJob
  split
  · exact .of_filter rfl
  · exact .of_eq rfl

theorem stopAll_fewer (rows : List (Id × SyncJob)) (w : World) :
    FewerProcs w (rows.foldl (fun w' row => w'.stopSyncJob row.1) w) := by
  induction rows generalizing w with
  | nil => exact .of_eq rfl
  | cons row rows ih => exact (stopSyncJob_fewer w row.1).trans (ih _)

/-- Only a start adds a process. -/
theorem perform_fewer {o : SyncOp} {r : Except SyncExc (SyncAns o)}
    (hspawn : ∀ a, o ≠ .spawn a) (h : w.perform jobId l o r = some w') : FewerProcs w w' := by
  cases r with
  | error e => cases o <;> exact (Option.some.inj h) ▸ .of_eq rfl
  | ok a =>
      cases o with
      | spawn accountId => exact absurd rfl (hspawn accountId)
      | now => exact (Option.some.inj (Option.ite_none_right_eq_some.mp h).2) ▸ .of_eq rfl
      | stopRequested => exact (Option.some.inj (Option.ite_none_right_eq_some.mp h).2) ▸ .of_eq rfl
      | wait => exact (Option.some.inj (Option.ite_none_right_eq_some.mp h).2) ▸ .of_eq rfl
      | takeBudgetStop =>
          exact (Option.some.inj (Option.ite_none_right_eq_some.mp h).2) ▸ .of_eq rfl
      | takeSignal => exact (Option.some.inj (Option.ite_none_right_eq_some.mp h).2) ▸ .of_eq rfl
      | takeDeadline => exact (Option.some.inj (Option.ite_none_right_eq_some.mp h).2) ▸ .of_eq rfl
      | stopSyncJob => exact (Option.some.inj h) ▸ stopSyncJob_fewer w jobId
      | kill => exact (Option.some.inj h) ▸ .of_filter rfl
      | register => exact (Option.some.inj h) ▸ (setProcesses_fewer w true).trans (.of_eq rfl)
      | unregister => exact (Option.some.inj h) ▸ (setProcesses_fewer w false).trans (.of_eq rfl)
      | _ => exact (Option.some.inj h) ▸ .of_eq rfl

/-- A worker that waits for a process keeps waiting, until the process is dead. -/
theorem next_manned {o : SyncOp} {r : Except SyncExc (SyncAns o)}
    (hallow : l.allows o) (htrying : l.stage = .trying) (hchild : l.child = true)
    (halive : w.alive jobId = true) (hok : (∃ e, r = .error e) → w.alive jobId = false)
    (hl : localStep jobId o l r = some l') (hw : w.perform jobId l o r = some w') :
    l'.stage = .trying ∧ l'.account = l.account ∧
      (l'.child = true ∨ ∀ p ∈ w'.procs, p.jobId ≠ jobId) := by
  obtain rfl := localStep_eq hl
  cases r with
  | error e =>
      rw [hok ⟨e, rfl⟩] at halive
      cases halive
  | ok a =>
      cases o with
      | view =>
          have hsame : l.next jobId .view (.ok a) = l := by
            apply if_neg
            rw [htrying]
            rintro ⟨⟩
          rw [hsame]
          exact ⟨htrying, rfl, .inl hchild⟩
      | commit =>
          refine ⟨?_, rfl, .inl hchild⟩
          change l.committed = .trying
          rw [Local.committed, if_neg (by rw [htrying]; rintro ⟨⟩)]
          exact htrying
      | refreshOauthToken credentials => cases htrying.symm.trans hallow.1
      | writeConfig content => cases htrying.symm.trans hallow.1
      | spawn accountId => cases hchild.symm.trans hallow.2.1
      | wait =>
          obtain ⟨hcode, -⟩ := Option.ite_none_right_eq_some.mp hw
          refine ⟨htrying, rfl, .inl ?_⟩
          simp only [Local.next, hchild, hcode, halive, Bool.and_self]
      | kill =>
          obtain rfl := Option.some.inj hw
          refine ⟨htrying, rfl, .inr fun p hp => ?_⟩
          simpa using (List.mem_filter.mp hp).2
      | stopSampler =>
          rcases hallow with ⟨-, h⟩ | h
          · cases hchild.symm.trans h
          · cases htrying.symm.trans h
      | refreshJob => cases htrying.symm.trans hallow
      | cleanupOldJobs accountId => cases htrying.symm.trans hallow.1
      | _ => exact ⟨htrying, rfl, .inl hchild⟩

/-! ## The rows of the workers that may start a process -/

theorem next_mayStart {o : SyncOp} {r : Except SyncExc (SyncAns o)} {db db' : Db}
    (htidy : l.Tidy) (hallow : l.allows o) (hready : RowReady jobId l db)
    (hruns : l.stage.mayStart = true → ∃ job, db.syncJobs.get? jobId = some job ∧
      job.status = .running)
    (hl : localStep jobId o l r = some l') (hdb : session jobId l db o r = some db')
    (hstage : l'.stage.mayStart = true) :
    ∃ job, db'.syncJobs.get? jobId = some job ∧ job.status = .running := by
  obtain rfl := localStep_eq hl
  by_cases hcommit : o = .commit
  · subst hcommit
    cases r with
    | error e => cases hl
    | ok done =>
        obtain rfl := Option.some.inj hdb
        change l.committed.mayStart = true at hstage
        rw [pending_job, if_pos rfl]
        by_cases hchecked : l.stage = .checked
        · obtain ⟨job, hjob, -⟩ := hready.1 (.inr hchecked)
          refine ⟨jobAfter l.staged job, by rw [hjob]; rfl, ?_⟩
          rcases htidy.checked hchecked with hnil | ⟨a, w, -, hstaged, ⟨now, rfl⟩ | ⟨error, now, rfl⟩⟩
          · simp [Local.committed, hchecked, hnil, Stage.mayStart] at hstage
          · rw [hstaged]
            rfl
          · simp [Local.committed, hchecked, hstaged, Write.isStart, Stage.mayStart] at hstage
        · rw [Local.committed, if_neg hchecked] at hstage
          obtain ⟨job, hjob, hrunning⟩ := hruns hstage
          refine ⟨jobAfter l.staged job, by rw [hjob]; rfl, ?_⟩
          have hneutral := htidy.no_closes (by
            cases hs : l.stage <;> rw [hs] at hstage <;> simp_all [Stage.mayStart])
          rw [(jobAfter_status job (htidy.no_start hchecked)).2 (any_closes_of_neutral hneutral)]
          exact hrunning
  · have hbefore : l.stage.mayStart = true ∧ ∀ a, o ≠ .cleanupOldJobs a := by
      cases r with
      | error e =>
          by_cases hwrite : ∀ content, o ≠ .writeConfig content
          · rw [next_error hwrite] at hstage
            refine ⟨?_, ?_⟩
            · unfold Local.raise at hstage
              cases hs : l.stage <;> rw [hs] at hstage <;> first | rfl | cases hstage
            · rintro a rfl
              unfold Local.raise at hstage
              rw [hallow.1] at hstage
              cases hstage
          · push Not at hwrite
            obtain ⟨content, rfl⟩ := hwrite
            cases hstage
      | ok a =>
          cases o with
          | commit => exact absurd rfl hcommit
          | view =>
              simp only [Local.next] at hstage
              split at hstage
              · rename_i hfresh
                exfalso
                unfold Local.read at hstage
                split at hstage
                · cases hstage
                · split at hstage
                  · cases hstage
                  · dsimp only at hstage
                    split at hstage <;> cases hstage
              · exact ⟨hstage, by rintro _ ⟨⟩⟩
          | refreshOauthToken credentials =>
              simp only [Local.next] at hstage
              split at hstage
              · cases hstage
              · exact ⟨hstage, by rintro _ ⟨⟩⟩
          | writeConfig content => exact ⟨by rw [hallow.1]; rfl, by rintro _ ⟨⟩⟩
          | stopSampler =>
              simp only [Local.next] at hstage
              split at hstage
              · cases hstage
              · exact ⟨hstage, by rintro _ ⟨⟩⟩
          | refreshJob =>
              simp only [Local.next] at hstage
              split at hstage <;> cases hstage
          | cleanupOldJobs accountId =>
              change l.stage.mayStart = true at hstage
              rw [hallow.1] at hstage
              cases hstage
          | _ => exact ⟨hstage, by rintro _ ⟨⟩⟩
    rw [session_same hcommit hbefore.2 hdb]
    exact hruns hbefore.1

/-! ## Steps -/

/-- The rows of running jobs stay, and no worker changes. -/
theorem World.Orderly.rows_of (h : w.Orderly) (hsound : w'.Sound) (hworkers : w'.workers = w.workers)
    (hrows : ∀ j wk, w.workers j = some wk → wk.l.stage.mayStart = true →
      ∀ job, w.db.syncJobs.get? j = some job → job.status = .running →
        w'.db.syncJobs.get? j = some job)
    (hprocs : FewerProcs w w') : w'.Orderly := by
  refine ⟨hsound, ?_, ?_, hprocs.2 h.oneEach⟩
  · rw [hworkers]
    intro j wk hwk hstage
    obtain ⟨job, hjob, hrunning⟩ := h.runs j wk hwk hstage
    exact ⟨job, hrows j wk hwk hstage job hjob hrunning, hrunning⟩
  · rw [hworkers]
    intro p' hp'
    obtain ⟨p, hp, hj, ha⟩ := hprocs.1 p' hp'
    obtain ⟨wk, hwk, hrest⟩ := h.manned p hp
    exact ⟨wk, by rw [hj]; exact hwk, by rw [ha]; exact hrest⟩

theorem World.Orderly.same (h : w.Orderly) (hsound : w'.Sound) (hworkers : w'.workers = w.workers)
    (hjobs : w'.db.syncJobs = w.db.syncJobs) (hprocs : FewerProcs w w') : w'.Orderly :=
  h.rows_of hsound hworkers (fun _ _ _ _ _ hj _ => by rw [hjobs]; exact hj) hprocs

/-- Two processes of a list without repeated jobs belong to different jobs. -/
theorem two_jobs {procs : List Process} (hnodup : (procs.map (·.jobId)).Nodup)
    (htwo : 1 < procs.length) : ∃ p q, p ∈ procs ∧ q ∈ procs ∧ p.jobId ≠ q.jobId := by
  match procs with
  | [] => simp at htwo
  | [p] => simp at htwo
  | p :: q :: rest =>
      rw [List.map_cons, List.map_cons, List.nodup_cons] at hnodup
      refine ⟨p, q, by simp, by simp, fun hsame => hnodup.1 ?_⟩
      rw [hsame]
      exact List.mem_cons_self ..

theorem alive_iff : w.alive jobId = true ↔ ∃ p ∈ w.procs, p.jobId = jobId := by
  simp [World.alive]

theorem World.Orderly.work (h : w.Orderly) {reply : (o : SyncOp) → Except SyncExc (SyncAns o)}
    (hok : Undisturbed settings w (.work jobId reply)) (hwork : w.work jobId reply = some w') :
    w'.Orderly := by
  have hsound := h.toSound.work hwork
  rcases work_cases hwork with ⟨wk, hwk, hfinished, rfl⟩ |
    ⟨o, k, l, l', db, w'', hwk, hl, hdb, hw, rfl⟩
  · refine ⟨hsound, fun j wk' hwk' => ?_, fun p hp => ?_, h.oneEach⟩
    · dsimp only at hwk'
      by_cases hjj : j = jobId
      · simp [hjj] at hwk'
      · rw [Function.update_of_ne hjj] at hwk'
        exact h.runs j wk' hwk'
    · obtain ⟨wk', hwk', htrying, hrest⟩ := h.manned p hp
      by_cases hjj : p.jobId = jobId
      · rw [hjj, hwk] at hwk'
        obtain rfl := Option.some.inj hwk'
        exact absurd htrying (((h.disciplined jobId _ hwk).2.finished hfinished).1)
      · exact ⟨wk', (Function.update_of_ne hjj _ _).trans hwk', htrying, hrest⟩
  · obtain ⟨-, hsafe⟩ := h.disciplined jobId _ hwk
    have hdead : (∃ e, reply o = .error e) → w.alive jobId = false := hok o k l hwk
    have hrow := h.ready jobId _ hwk
    -- the processes of other workers are left alone, and the own one is still waited for
    have hprocs : (∀ p ∈ w''.procs,
        Manned (Function.update w.workers jobId (some ⟨k (reply o), l'⟩)) p) ∧
          (w''.procs.map (·.jobId)).Nodup := by
      have hold : ∀ p ∈ w.procs, p.jobId ≠ jobId →
          Manned (Function.update w.workers jobId (some ⟨k (reply o), l'⟩)) p := by
        intro p hp hjj
        obtain ⟨wk', hwk', hrest⟩ := h.manned p hp
        exact ⟨wk', (Function.update_of_ne hjj _ _).trans hwk', hrest⟩
      by_cases hspawn : ∀ a, o ≠ .spawn a
      · have hfewer := perform_fewer hspawn hw
        refine ⟨fun p' hp' => ?_, hfewer.2 h.oneEach⟩
        obtain ⟨p, hp, hj, ha⟩ := hfewer.1 p' hp'
        by_cases hjj : p.jobId = jobId
        · obtain ⟨wk', hwk', htrying, hchild, haccount⟩ := h.manned p hp
          rw [hjj, hwk] at hwk'
          obtain rfl := Option.some.inj hwk'
          obtain ⟨htrying', haccount', hend⟩ := next_manned hsafe.2.1 htrying hchild
            (alive_iff.mpr ⟨p, hp, hjj⟩) hdead hl hw
          rcases hend with hchild' | hgone
          · refine ⟨⟨k (reply o), l'⟩, ?_, htrying', hchild', ?_⟩
            · rw [hj, hjj, Function.update_self]
            · rw [ha, haccount']
              exact haccount
          · exact absurd (hj.trans hjj) (hgone p' hp')
        · have hmanned := hold p hp hjj
          unfold Manned at hmanned ⊢
          rw [hj, ha]
          exact hmanned
      · push Not at hspawn
        obtain ⟨a, rfl⟩ := hspawn
        obtain ⟨htrying, hchild, haccount⟩ := hsafe.2.1
        have hnone : ∀ p ∈ w.procs, p.jobId ≠ jobId := by
          rintro p hp rfl
          obtain ⟨wk', hwk', -, hchild', -⟩ := h.manned p hp
          rw [hwk] at hwk'
          obtain rfl := Option.some.inj hwk'
          cases hchild.symm.trans hchild'
        have hl' := localStep_eq hl
        cases hr : reply (.spawn a) with
        | error e =>
            rw [hr] at hw
            obtain rfl := Option.some.inj hw
            rw [← hr]
            exact ⟨fun p hp => hold p hp (hnone p hp), h.oneEach⟩
        | ok done =>
            rw [hr] at hw hl'
            obtain rfl := Option.some.inj hw
            rw [← hr]
            constructor
            · intro p hp
              rcases List.mem_cons.mp hp with rfl | hp
              · refine ⟨⟨k (reply (.spawn a)), l'⟩, Function.update_self .., ?_⟩
                rw [hl']
                exact ⟨htrying, rfl, haccount⟩
              · exact hold p hp (hnone p hp)
            · rw [List.map_cons, List.nodup_cons]
              refine ⟨fun hmem => ?_, h.oneEach⟩
              obtain ⟨p, hp, hjj⟩ := List.mem_map.mp hmem
              exact hnone p hp hjj
    refine ⟨hsound, fun j wk' hwk' hstage => ?_, hprocs.1, hprocs.2⟩
    · dsimp only at hwk'
      by_cases hjj : j = jobId
      · subst hjj
        rw [Function.update_self] at hwk'
        obtain rfl := Option.some.inj hwk'
        exact next_mayStart hsafe.1 hsafe.2.1 hrow (h.runs j _ hwk) hl hdb hstage
      · rw [Function.update_of_ne hjj] at hwk'
        obtain ⟨job, hjob, hrunning⟩ := h.runs j wk' hwk' hstage
        refine ⟨job, ?_, hrunning⟩
        by_cases hcommit : o = .commit
        · subst hcommit
          cases hr : reply .commit with
          | error e =>
              rw [hr] at hdb
              rw [session_error hdb]
              exact hjob
          | ok done =>
              rw [hr] at hdb
              obtain rfl := Option.some.inj hdb
              rw [pending_job, if_neg hjj]
              exact hjob
        · by_cases hcleanup : ∀ a, o ≠ .cleanupOldJobs a
          · rw [session_same hcommit hcleanup hdb]
            exact hjob
          · push Not at hcleanup
            obtain ⟨a, rfl⟩ := hcleanup
            cases hr : reply (.cleanupOldJobs a) with
            | error e =>
                rw [hr] at hdb
                rw [session_error hdb]
                exact hjob
            | ok done =>
                rw [hr] at hdb
                obtain rfl := Option.some.inj hdb
                exact cleanupOldJobs_open h.oneOpen (by omega) hjob (by rw [hrunning]; rfl)

theorem World.Orderly.next (h : w.Orderly) {e : SyncEvent} (hok : Undisturbed settings w e)
    (hnext : w.next settings e = some w') : w'.Orderly := by
  have hsound := h.toSound.next hok.careful hnext
  cases e with
  | pass time =>
      obtain rfl := Option.some.inj hnext
      exact h.same hsound rfl rfl (.of_eq rfl)
  | ask accountId =>
      obtain ⟨-, hnext⟩ := Option.ite_none_left_eq_some.mp hnext
      obtain rfl := Option.some.inj hnext
      exact h.same hsound rfl rfl (.of_eq rfl)
  | insert accountId jobId =>
      obtain ⟨-, hnext⟩ := Option.ite_none_right_eq_some.mp hnext
      obtain ⟨db, hinsert, rfl⟩ := Option.map_eq_some_iff.mp hnext
      refine h.rows_of hsound rfl (fun j wk hwk hstage job hjob hrunning => ?_) (.of_eq rfl)
      dsimp only
      rw [insertJob_get? hinsert, if_neg]
      · exact hjob
      · rintro rfl
        rw [insertJob_fresh hinsert] at hjob
        cases hjob
  | overridePause accountId =>
      obtain rfl := Option.some.inj hnext
      exact h.same hsound rfl rfl (.of_eq rfl)
  | expirePause accountId =>
      obtain ⟨-, hnext⟩ := Option.ite_none_right_eq_some.mp hnext
      obtain rfl := Option.some.inj hnext
      exact h.same hsound rfl rfl (.of_eq rfl)
  | reauth accountId =>
      obtain rfl := Option.some.inj hnext
      exact h.same hsound rfl rfl (.of_eq rfl)
  | start jobId =>
      obtain ⟨hj, hnext⟩ := Option.ite_none_right_eq_some.mp hnext
      obtain rfl := Option.some.inj hnext
      refine ⟨hsound, fun j wk hwk hstage => ?_, fun p hp => ?_, h.oneEach⟩
      · dsimp only at hwk
        by_cases hjj : j = jobId
        · subst hjj
          rw [Function.update_self] at hwk
          obtain rfl := Option.some.inj hwk
          cases hstage
        · rw [Function.update_of_ne hjj] at hwk
          exact h.runs j wk hwk hstage
      · obtain ⟨wk, hwk, hrest⟩ := h.manned p hp
        have hjj : p.jobId ≠ jobId := by
          intro hjj
          rw [hjj, (h.queued jobId hj).1] at hwk
          cases hwk
        exact ⟨wk, (Function.update_of_ne hjj _ _).trans hwk, hrest⟩
  | work jobId reply => exact h.work hok hnext
  | tick jobId bytes =>
      obtain ⟨-, -, -, -, hworkers, hdb⟩ := tick_rows hnext
      refine h.same hsound hworkers ?_ ?_
      · rcases hdb with hdb | ⟨a, hdb⟩
        · rw [hdb]
        · rw [hdb]
          rfl
      · obtain ⟨sampler, -, rfl⟩ := Option.map_eq_some_iff.mp hnext
        dsimp only
        split
        · exact .of_eq rfl
        · split
          · exact .trans (.of_eq rfl) (stopSyncJob_fewer _ jobId)
          · exact .of_eq rfl
  | exit jobId =>
      obtain rfl := Option.some.inj hnext
      exact h.same hsound rfl rfl (.of_filter rfl)
  | stop jobId =>
      obtain rfl := Option.some.inj hnext
      obtain ⟨hdb, -, -, -, -, hworkers⟩ := stopSyncJob_sameRows w jobId
      exact h.same hsound hworkers (by rw [hdb]) (stopSyncJob_fewer w jobId)
  | watchdog =>
      obtain rfl := Option.some.inj hnext
      have hstop := stopAll_sameRows
        (w.db.syncJobs.rows.filter fun row => w.stalled settings row.1 row.2) w
      refine h.rows_of hsound hstop.2.2.2.2.2 (fun j wk hwk hstage job hjob _ => ?_)
        ((stopAll_fewer _ w).trans (.of_eq rfl))
      change (closeJobs (w.stalled settings) reapedMarker w.clock w.db).syncJobs.get? j = some job
      rw [closeJobs_get?, hjob, Option.map_some, hok j wk hwk hstage job hjob]
      rfl
  | sweep =>
      obtain rfl := Option.some.inj hnext
      refine h.rows_of hsound rfl (fun j wk hwk => ?_) (.of_eq rfl)
      rw [hok.2 j] at hwk
      cases hwk
  | crash =>
      obtain rfl := Option.some.inj hnext
      refine ⟨hsound, ?_, nofun, List.nodup_nil⟩
      intro j wk hwk
      cases hwk

theorem World.New.orderly (h : w.New) : w.Orderly := by
  refine ⟨h.sound, ?_, ?_, ?_⟩
  · intro j wk hwk
    rw [h.workers j] at hwk
    cases hwk
  · rw [h.procs]
    exact nofun
  · rw [h.procs]
    exact List.nodup_nil

theorem World.Orderly.inOrder (h : w.Orderly) : w.ProcessesInOrder := by
  constructor
  · intro j wk hwk hspawning
    refine h.runs j wk hwk ?_
    have hsafe := (h.disciplined j wk hwk).2
    unfold Worker.spawning at hspawning
    split at hspawning
    · rename_i a k hprog
      rw [hprog] at hsafe
      rw [hsafe.2.1.1]
      rfl
    · cases hspawning
  · intro a
    by_contra htwo
    -- two processes of one account would belong to two running jobs
    obtain ⟨p, q, hp, hq, hne⟩ : ∃ p q, p ∈ w.procs.filter (fun p => decide (p.accountId = a)) ∧
        q ∈ w.procs.filter (fun p => decide (p.accountId = a)) ∧ p.jobId ≠ q.jobId := by
      exact two_jobs (h.oneEach.sublist (List.filter_sublist.map _)) (by omega)
    have hjob : ∀ p ∈ w.procs.filter (fun p => decide (p.accountId = a)),
        ∃ job, w.db.syncJobs.get? p.jobId = some job ∧ job.accountId = a ∧
          job.status.isOpen = true := by
      intro p hp
      obtain ⟨wk, hwk, htrying, -, haccount⟩ := h.manned p (List.mem_of_mem_filter hp)
      obtain ⟨job, hjob, hrunning⟩ := h.runs p.jobId wk hwk (by rw [htrying]; rfl)
      refine ⟨job, hjob, ?_, by rw [hrunning]; rfl⟩
      rw [h.account p.jobId wk hwk _ haccount job hjob]
      simpa using (List.mem_filter.mp hp).2
    obtain ⟨job, hpjob, hja, hopen⟩ := hjob p hp
    obtain ⟨job', hqjob, hja', hopen'⟩ := hjob q hq
    have hclosed := (h.oneOpen p.jobId q.jobId job job' hpjob hqjob hopen
      (hja'.trans hja.symm) hne.symm).1
    rw [hopen'] at hclosed
    cases hclosed

theorem processesInOrder_of_undisturbed (h₀ : w₀.New)
    (h : Reaches (World.next · settings ·) (Undisturbed settings) w₀ w) : w.ProcessesInOrder :=
  (h.invariant h₀.orderly fun _ _ _ hs hok hnext => hs.next hok hnext).inOrder

/-! ## Runs -/

/-- The next operation of a worker, when the provider and the machine work. -/
def World.ordinarily (jobId : Id) (w : World) : SyncEvent :=
  .work jobId fun
    | .now => .ok w.clock
    | .wait => if w.alive jobId = true then .ok none else .ok (some (0 : ℤ))
    | .takeSignal => if jobId ∈ w.killed then .ok (some "SIGKILL") else .ok none
    | .takeDeadline => if jobId ∈ w.deadlines then .ok (some "21600") else .ok none
    | o => ordinary jobId ((w.workers jobId).elim {} (·.l)) w.db o

/-- The part of the condition that can be evaluated. -/
def undisturbedCheck (w : World) : SyncEvent → Bool
  | .watchdog => false
  | .work j reply => match w.workers j with
      | some ⟨.perform o _, _⟩ => (reply o).isOk
      | _ => true
  | e => carefulCheck w e

theorem undisturbedCheck_undisturbed (settings : SyncSettings) (w : World) (e : SyncEvent)
    (h : undisturbedCheck w e = true) : Undisturbed settings w e := by
  have hcareful := carefulCheck_careful w e
  cases e with
  | watchdog => cases h
  | work j reply =>
      rintro o k l hwk ⟨e, he⟩
      simp [undisturbedCheck, hwk, he, Except.isOk, Except.toBool] at h
  | _ => exact hcareful h

/-- A worker that runs alone starts its process for the running job. -/
theorem processesInOrder_of_one_worker : ∃ w : World,
    w.procs = [{ jobId := "j1", accountId := "a1" }] ∧ w.ProcessesInOrder := by
  have hrun : (follow undisturbedCheck (World.next · {} ·)
      ([fun _ => .ask "a1", fun _ => .insert "a1" "j1", fun _ => .start "j1"] ++
        List.replicate 17 (World.ordinarily "j1")) oneAccount).any
        (fun w : World => decide (w.procs = [{ jobId := "j1", accountId := "a1" }])) = true := by
    decide
  obtain ⟨w, hreach, hprocs⟩ := Reaches.of_script hrun (undisturbedCheck_undisturbed {})
  exact ⟨w, of_decide_eq_true hprocs, processesInOrder_of_undisturbed oneAccount_new hreach⟩

/-- While the worker counts the messages of the provider the watchdog closes its job, and the
process is started nevertheless. -/
theorem not_processesInOrder_of_slow_setup : ¬ ∀ (settings : SyncSettings) (w₀ w : World),
    w₀.New → Reaches (World.next · settings ·) (fun _ _ => True) w₀ w → w.ProcessesInOrder := by
  intro h
  have hrun : (follow (fun _ _ => true) (World.next · {} ·)
      ([fun _ => .ask "a1", fun _ => .insert "a1" "j1", fun _ => .start "j1"] ++
        List.replicate 7 (World.ordinarily "j1") ++ [fun _ => .pass 900000000, fun _ => .watchdog] ++
        List.replicate 9 (World.ordinarily "j1")) oneAccount).any
        (fun w : World => (w.workers "j1").any Worker.spawning &&
          (w.db.syncJobs.get? "j1").all fun job => decide (job.status = .failed)) = true := by
    decide
  obtain ⟨w, hreach, hend⟩ := Reaches.of_script hrun fun _ _ _ => trivial
  rw [Bool.and_eq_true] at hend
  obtain ⟨wk, hwk, hspawning⟩ := (Option.any_eq_true ..).mp hend.1
  obtain ⟨job, hjob, hrunning⟩ := (h {} oneAccount w oneAccount_new hreach).1 "j1" wk hwk hspawning
  have hfailed := hend.2
  rw [hjob, Option.all_some, decide_eq_true_eq, hrunning] at hfailed
  cases hfailed

end MailFallback
