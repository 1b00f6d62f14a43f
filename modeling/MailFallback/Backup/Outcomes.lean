import MailFallback.Backup.Invariants

/-! # The outcomes of backup jobs

The steps of the watchdog, and what holds of every run of considerate steps. -/

namespace MailFallback

open Storage Effects Transition

variable {settings : BackupSettings} {w w' w₀ : BackupWorld} {jobId : Id}

/-! ## Steps of the watchdog -/

/-- The heartbeats, the processes and the clock do not matter. -/
theorem BackupWorld.Orderly.congr (h : w.Orderly) (hdb : w'.db = w.db) (hused : w'.used = w.used)
    (hworkers : w'.workers = w.workers) (hscanned : w'.scanned = w.scanned ∨ w'.scanned = [])
    (hlast : w'.lastFinished = w.lastFinished) : w.Follows w' := by
  obtain ⟨db, clock, used, workers, progress, procs, scanned, lastFinished⟩ := w'
  subst hdb hused hworkers hlast
  refine ⟨?_, fun _ hj => hj, fun j _ job' hj => ⟨job', hj, fun _ => rfl⟩⟩
  refine ⟨h.disciplined, h.present, h.rows, h.own, h.hosted, h.clean, ?_, ?_, h.history, h.agrees⟩
  · rcases hscanned with rfl | rfl
    · exact h.loaded
    · intro row hrow
      cases hrow
  · rcases hscanned with rfl | rfl
    · exact h.distinct
    · exact List.nodup_nil

theorem closeJob_get? (db : BackupDb) (jobId : Id) (failureKind marker : String) (now : Time)
    (loaded : BackupJob) (j : Id) :
    (closeJob failureKind marker now jobId loaded db).backupJobs.get? j =
      if j = jobId then (db.backupJobs.get? j).map (closedJob failureKind marker now loaded)
      else db.backupJobs.get? j := by
  rw [closeJob, Table.get?_modify]

theorem closeJob_policy (db : BackupDb) (jobId : Id) (failureKind marker : String) (now : Time)
    (loaded : BackupJob) (p : Id) :
    (closeJob failureKind marker now jobId loaded db).policies.get? p =
      if p = loaded.policyId then (db.policies.get? p).map (healedPolicy marker)
      else db.policies.get? p := by
  rw [closeJob, Table.get?_modify]

theorem BackupWorld.Follows.refl (h : w.Orderly) : w.Follows w :=
  ⟨h, fun _ hj => hj, fun _ _ job' hj => ⟨job', hj, fun _ => rfl⟩⟩

theorem BackupWorld.Follows.trans {w'' : BackupWorld} (h : w.Follows w') (h' : w'.Follows w'') :
    w.Follows w'' := by
  refine ⟨h'.orderly, fun j hj => h'.taken j (h.taken j hj), fun j hj job'' hjob'' => ?_⟩
  obtain ⟨job', hjob', hsame'⟩ := h'.final j (h.taken j hj) job'' hjob''
  obtain ⟨job, hjob, hsame⟩ := h.final j hj job' hjob'
  refine ⟨job, hjob, fun hclosed => ?_⟩
  have hsame := hsame hclosed
  rw [hsame' (by rw [hsame]; exact hclosed), hsame]

/-- What the watchdog may close. -/
def BackupWorld.Reapable (row : Id × BackupJob) (w : BackupWorld) : Prop :=
  w.Taken row.1 ∧ ∃ job, w.db.backupJobs.get? row.1 = some job ∧ job.status = .running ∧
    job.policyId = row.2.policyId ∧ ∀ policy, w.db.policies.get? row.2.policyId = some policy →
      policy.lastStatus = .running ∨ policy.lastStatus = .failed

theorem BackupWorld.Orderly.reapRow (h : w.Orderly) (hscanned : w.scanned = [])
    {row : Id × BackupJob} (hreap : w.Reapable row) : w.Follows (w.reapRow row) := by
  obtain ⟨htaken, job, hjob, hrunning, hid, hpolicy⟩ := hreap
  have hjobs := closeJob_get? w.db row.1 "stalled" backupReapedMarker w.clock row.2
  have hpolicies := closeJob_policy w.db row.1 "stalled" backupReapedMarker w.clock row.2
  have hclosed : (closeJob "stalled" backupReapedMarker w.clock row.1 row.2 w.db).backupJobs.get?
      row.1 = some (closedJob "stalled" backupReapedMarker w.clock row.2 job) := by
    rw [hjobs, if_pos rfl, hjob]
    rfl
  have hold : ∀ j job', (closeJob "stalled" backupReapedMarker w.clock row.1 row.2
      w.db).backupJobs.get? j = some job' → ∃ job₀, w.db.backupJobs.get? j = some job₀ ∧
        job'.policyId = job₀.policyId ∧ (job' = job₀ ∨ job'.status = .failed) := by
    intro j job' hj
    rw [hjobs] at hj
    split at hj
    · obtain ⟨job₀, hjob₀, rfl⟩ := Option.map_eq_some_iff.mp hj
      exact ⟨job₀, hjob₀, rfl, .inr rfl⟩
    · exact ⟨job', hj, rfl, .inl rfl⟩
  have hlast : (w.reapRow row).lastFinished =
      Function.update w.lastFinished row.2.policyId (some row.1) :=
    finish_of_ended hjob hclosed (by rw [hrunning]; rfl) rfl
  refine ⟨?_, fun _ hj => hj, fun j _ job' hj => ?_⟩
  swap
  · have hj := (hjobs j).symm.trans hj
    split at hj
    · rename_i hjj
      rw [hjj, hjob] at hj
      refine ⟨job, hjj ▸ hjob, fun hshut => ?_⟩
      rw [hrunning] at hshut
      cases hshut
    · exact ⟨job', hj, fun _ => rfl⟩
  constructor
  · exact h.disciplined
  · exact h.present
  · intro j job' hj
    obtain ⟨job₀, hjob₀, -⟩ := hold j job' hj
    exact h.rows j job₀ hjob₀
  · intro j wk hwk hphase job' hj
    obtain ⟨job₀, hjob₀, hsame, hstatus⟩ := hold j job' hj
    obtain ⟨howner, hnot⟩ := h.own j wk hwk hphase job₀ hjob₀
    refine ⟨hsame.trans howner, ?_⟩
    rcases hstatus with rfl | hfailed
    · exact hnot
    · rw [hfailed]
      rintro ⟨⟩
  · intro p policy' hp
    have hp := (hpolicies p).symm.trans hp
    change (w.db.accounts.get? policy'.accountId).isSome
    split at hp
    · obtain ⟨policy, hpol, rfl⟩ := Option.map_eq_some_iff.mp hp
      have haccount : (healedPolicy backupReapedMarker policy).accountId = policy.accountId := by
        unfold healedPolicy
        split <;> rfl
      rw [haccount]
      exact h.hosted p policy hpol
    · exact h.hosted p policy' hp
  · intro j job' hj
    obtain ⟨job₀, hjob₀, -, rfl | hfailed⟩ := hold j job' hj
    · exact h.clean j job' hjob₀
    · exact .inl hfailed
  · change ∀ row' ∈ w.scanned, _
    rw [hscanned]
    intro row' hrow'
    cases hrow'
  · change (w.scanned.map Prod.fst).Nodup
    rw [hscanned]
    exact List.nodup_nil
  · intro p j hj
    rw [hlast] at hj
    by_cases hp : p = row.2.policyId
    · subst hp
      rw [Function.update_self] at hj
      obtain rfl := Option.some.inj hj
      refine ⟨htaken, fun job' hj' => ?_⟩
      obtain ⟨job₀, hjob₀, hsame, -⟩ := hold row.1 job' hj'
      rw [hjob] at hjob₀
      obtain rfl := Option.some.inj hjob₀
      exact hsame.trans hid
    · rw [Function.update_of_ne hp] at hj
      refine ⟨(h.history p j hj).1, fun job' hj' => ?_⟩
      obtain ⟨job₀, hjob₀, hsame, -⟩ := hold j job' hj'
      exact hsame.trans ((h.history p j hj).2 job₀ hjob₀)
  · rw [hlast]
    refine h.agrees.ended (p := row.2.policyId) (j := row.1) (k := row.1)
      (fun q hq => (hpolicies q).trans (if_neg hq)) (fun i hi => (hjobs i).trans (if_neg hi))
      (fun job' hj => ?_) (fun q hq => Function.update_of_ne hq _ _) (fun q hq hlast' => ?_)
      (Function.update_self ..) (fun policy' hp => ?_)
    · rw [hjob] at hj
      obtain rfl := Option.some.inj hj
      exact hid
    · exact hq (((h.history q row.1 hlast').2 job hjob).symm.trans hid)
    · change (closeJob _ _ _ _ _ _).policies.get? _ = _ at hp
      rw [hpolicies, if_pos rfl] at hp
      obtain ⟨policy, hpol, rfl⟩ := Option.map_eq_some_iff.mp hp
      have hfailed : (healedPolicy backupReapedMarker policy).lastStatus = .failed := by
        unfold healedPolicy
        rcases hpolicy policy hpol with hr | hf
        · rw [if_pos hr]
        · rw [if_neg (by rw [hf]; rintro ⟨⟩)]
          exact hf
      refine ⟨by rw [hfailed]; rintro ⟨⟩, fun job' hj => ?_⟩
      change (closeJob _ _ _ _ _ _).backupJobs.get? _ = _ at hj
      rw [hclosed] at hj
      obtain rfl := Option.some.inj hj
      rw [hfailed]
      rfl

/-- The other rows can be closed as well. -/
theorem reapable_of_ne {row row' : Id × BackupJob} (hne : row'.1 ≠ row.1)
    (h : w.Reapable row') : (w.reapRow row).Reapable row' := by
  obtain ⟨htaken, job, hjob, hrunning, hid, hpolicy⟩ := h
  refine ⟨htaken, job, ?_, hrunning, hid, fun policy' hp => ?_⟩
  · exact (closeJob_get? ..).trans (by rw [if_neg hne]; exact hjob)
  · have hp := (closeJob_policy ..).symm.trans hp
    split at hp
    · obtain ⟨policy, hpol, rfl⟩ := Option.map_eq_some_iff.mp hp
      unfold healedPolicy
      split
      · exact .inr rfl
      · exact hpolicy policy hpol
    · exact hpolicy policy' hp

theorem BackupWorld.Orderly.reapRows (h : w.Orderly) (hscanned : w.scanned = [])
    {rows : List (Id × BackupJob)} (hnodup : (rows.map Prod.fst).Nodup)
    (hreap : ∀ row ∈ rows, w.Reapable row) : w.Follows (rows.foldl BackupWorld.reapRow w) := by
  induction rows generalizing w with
  | nil => exact .refl h
  | cons row rows ih =>
      rw [List.map_cons, List.nodup_cons] at hnodup
      have hfirst := h.reapRow hscanned (hreap row List.mem_cons_self)
      refine hfirst.trans (ih hfirst.orderly hscanned hnodup.2 ?_)
      intro row' hrow'
      refine reapable_of_ne ?_ (hreap row' (List.mem_cons_of_mem _ hrow'))
      intro hsame
      exact hnodup.1 (hsame ▸ List.mem_map_of_mem (f := Prod.fst) hrow')

theorem reapRows_same (rows : List (Id × BackupJob)) (w : BackupWorld) :
    (rows.foldl BackupWorld.reapRow w).used = w.used ∧
      (rows.foldl BackupWorld.reapRow w).workers = w.workers ∧
      (rows.foldl BackupWorld.reapRow w).scanned = w.scanned := by
  induction rows generalizing w with
  | nil => exact ⟨rfl, rfl, rfl⟩
  | cons row rows ih => exact ih (w.reapRow row)

theorem BackupWorld.Orderly.reap (h : w.Orderly) (hok : Considerate w .reap) :
    w.Follows w.reap := by
  unfold BackupWorld.reap
  have hcleared : w.Follows { w with scanned := [] } := h.congr rfl rfl rfl (.inr rfl) rfl
  split
  · rename_i hall
    refine hcleared.trans (hcleared.orderly.reapRows rfl h.distinct fun row hrow => ?_)
    obtain ⟨htaken, hid⟩ := h.loaded row hrow
    obtain ⟨job, hjob⟩ := Option.isSome_iff_exists.mp (List.all_eq_true.mp hall row hrow)
    obtain ⟨hrunning, hpolicy⟩ := hok row hrow job hjob
    refine ⟨htaken, job, hjob, hrunning, hid job hjob, ?_⟩
    rw [← hid job hjob]
    exact hpolicy
  · obtain ⟨hused, hworkers, hscanned⟩ := reapRows_same w.scanned { w with scanned := [] }
    exact h.congr rfl hused hworkers (.inr hscanned) rfl

theorem BackupWorld.Orderly.scan (h : w.Orderly) (settings : BackupSettings) :
    w.Follows { w with
      scanned := w.db.backupJobs.rows.filter fun row => w.stalled settings row.1 row.2 } := by
  refine ⟨?_, fun _ hj => hj, fun j _ job' hj => ⟨job', hj, fun _ => rfl⟩⟩
  refine ⟨h.disciplined, h.present, h.rows, h.own, h.hosted, h.clean, fun row hrow => ?_, ?_,
    h.history, h.agrees⟩
  · have hrow' := Table.mem_rows.mp (List.mem_of_mem_filter hrow)
    refine ⟨h.rows row.1 row.2 hrow', fun job hjob => ?_⟩
    rw [hrow'] at hjob
    obtain rfl := Option.some.inj hjob
    rfl
  · exact w.db.backupJobs.nodup.sublist (List.filter_sublist.map _)

theorem BackupWorld.Orderly.submit (h : w.Orderly) (hunused : jobId ∉ w.used) (policyId : Id) :
    w.Follows { w with
      used := jobId :: w.used
      workers := Function.update w.workers jobId
        (some ⟨policyId, executeBackup policyId, {}⟩) } := by
  have htaken : ∀ j, w.Taken j → BackupWorld.Taken j { w with
      used := jobId :: w.used
      workers := Function.update w.workers jobId
        (some ⟨policyId, executeBackup policyId, {}⟩) } := by
    rintro j ⟨hj, hphase⟩
    have hjj : j ≠ jobId := by
      rintro rfl
      exact hunused hj
    refine ⟨List.mem_cons_of_mem _ hj, fun wk hwk => hphase wk ?_⟩
    exact (Function.update_of_ne hjj _ _).symm.trans hwk
  have hworkers : ∀ j wk, Function.update w.workers jobId
      (some ⟨policyId, executeBackup policyId, {}⟩) j = some wk →
        w.workers j = some wk ∨ j = jobId ∧ wk = ⟨policyId, executeBackup policyId, {}⟩ := by
    intro j wk hwk
    by_cases hjj : j = jobId
    · subst hjj
      rw [Function.update_self] at hwk
      exact .inr ⟨rfl, (Option.some.inj hwk).symm⟩
    · rw [Function.update_of_ne hjj] at hwk
      exact .inl hwk
  refine ⟨?_, htaken, fun j _ job' hj => ⟨job', hj, fun _ => rfl⟩⟩
  constructor
  · intro j wk hwk
    rcases hworkers j wk hwk with hold | ⟨rfl, rfl⟩
    · exact ⟨List.mem_cons_of_mem _ (h.disciplined j wk hold).1, (h.disciplined j wk hold).2⟩
    · exact ⟨List.mem_cons_self, executeBackup_disciplined policyId⟩
  · intro j wk hwk
    rcases hworkers j wk hwk with hold | ⟨rfl, rfl⟩
    · exact h.present j wk hold
    · exact nofun
  · exact fun j job hj => htaken j (h.rows j job hj)
  · intro j wk hwk hphase
    rcases hworkers j wk hwk with hold | ⟨rfl, rfl⟩
    · exact h.own j wk hold hphase
    · cases hphase
  · exact h.hosted
  · exact h.clean
  · exact fun row hrow => ⟨htaken _ (h.loaded row hrow).1, (h.loaded row hrow).2⟩
  · exact h.distinct
  · exact fun p j hj => ⟨htaken j (h.history p j hj).1, (h.history p j hj).2⟩
  · exact h.agrees

theorem BackupWorld.Orderly.next (h : w.Orderly) {e : BackupEvent} (hok : Considerate w e)
    (hnext : w.next settings e = some w') : w.Follows w' := by
  cases e with
  | pass time =>
      obtain rfl := Option.some.inj hnext
      exact h.congr rfl rfl rfl (.inl rfl) rfl
  | submit policyId jobId =>
      obtain ⟨hunused, hnext⟩ := Option.ite_none_left_eq_some.mp hnext
      obtain rfl := Option.some.inj hnext
      exact h.submit hunused policyId
  | work jobId reply => exact h.work hok hnext
  | heartbeat jobId =>
      obtain ⟨-, hnext⟩ := Option.ite_none_right_eq_some.mp hnext
      obtain rfl := Option.some.inj hnext
      exact h.congr rfl rfl rfl (.inl rfl) rfl
  | scan =>
      obtain rfl := Option.some.inj hnext
      exact h.scan settings
  | reap =>
      obtain rfl := Option.some.inj hnext
      exact h.reap hok

/-! ## Runs -/

/-- No job yet, and every policy has its account. -/
structure BackupWorld.New (w : BackupWorld) : Prop where
  jobs : w.db.backupJobs = .empty
  workers : ∀ j, w.workers j = none
  scanned : w.scanned = []
  lastFinished : ∀ p, w.lastFinished p = none
  policies : ∀ p policy, w.db.policies.get? p = some policy →
    policy.lastStatus = .idle ∧ (w.db.accounts.get? policy.accountId).isSome

theorem BackupWorld.New.orderly (h : w.New) : w.Orderly := by
  have hworkers : ∀ j wk, w.workers j ≠ some wk := by
    intro j wk
    rw [h.workers j]
    exact nofun
  have hjobs : ∀ j job, w.db.backupJobs.get? j ≠ some job := by
    intro j job
    rw [h.jobs, Table.get?_empty]
    exact nofun
  refine ⟨fun j wk hwk => absurd hwk (hworkers j wk), fun j wk hwk => absurd hwk (hworkers j wk),
    fun j job hj => absurd hj (hjobs j job), fun j wk hwk => absurd hwk (hworkers j wk),
    fun p policy hp => (h.policies p policy hp).2, fun j job hj => absurd hj (hjobs j job),
    fun row hrow => ?_, ?_, fun p j hj => ?_, fun p policy hp => ?_⟩
  · rw [h.scanned] at hrow
    cases hrow
  · rw [h.scanned]
    exact List.nodup_nil
  · rw [h.lastFinished] at hj
    cases hj
  · have hidle := (h.policies p policy hp).1
    refine ⟨fun hrunning => ?_, fun _ => .inl ⟨h.lastFinished p, hidle⟩⟩
    rw [hidle] at hrunning
    cases hrunning

theorem follows_of_reaches (h : w.Orderly)
    (hreach : Reaches (BackupWorld.next · settings ·) Considerate w w') : w.Follows w' :=
  hreach.invariant (.refl h) fun _ _ _ hs hok hnext => hs.trans (hs.orderly.next hok hnext)

/-- In every run that writes over nothing: what is terminal is final, a completed job is clean,
and the policies agree with the jobs that finished last. -/
theorem outcomes_final_of_considerate (h₀ : w₀.New)
    (h : Reaches (BackupWorld.next · settings ·) Considerate w₀ w)
    (h' : Reaches (BackupWorld.next · settings ·) Considerate w w') :
    Final w.db w'.db ∧ CompletedClean w'.db ∧ LastAgrees w'.db w'.lastFinished := by
  have horderly := (follows_of_reaches h₀.orderly h).orderly
  have hfollows := follows_of_reaches horderly h'
  refine ⟨fun j job job' hj hclosed hj' => ?_, fun j job hj hcompleted => ?_,
    hfollows.orderly.agrees⟩
  · obtain ⟨job₀, hjob₀, hsame⟩ := hfollows.final j (horderly.rows j job hj) job' hj'
    obtain rfl := Option.some.inj (hj.symm.trans hjob₀)
    exact hsame hclosed
  · rcases hfollows.orderly.clean j job hj with hfailed | ⟨-, hnone⟩
    · rw [hcompleted] at hfailed
      cases hfailed
    · exact hnone

/-- The next operation of a worker for which everything works. -/
def BackupWorld.ordinarily (jobId : Id) (w : BackupWorld) : BackupEvent :=
  .work jobId fun
    | .view => .ok w.db
    | .now => .ok w.clock
    | .refreshJob =>
        match w.db.backupJobs.get? jobId with
        | some job => .ok job
        | none => .error "Could not refresh instance"
    | .loadPolicy =>
        match (w.workers jobId).bind fun wk => w.db.policies.get? wk.policyId with
        | some policy => .ok policy
        | none => .ok { accountId := "" }
    | .initRepo | .recordSnapshot _ => .ok true
    | .waitRestic => .ok { snapshotId := some "snapshot" }
    | .applyRetention => .ok []
    | .byteCounts => .ok ((0 : ℤ), (0 : ℤ))
    | .listSnapshots => .ok ((1 : ℕ), none)
    | .stage _ | .commit | .tick | .startRestic | .pruneSnapshot _ | .dropProgress
    | .cleanupOldJobs _ => .ok ()

/-- One account with a policy that has never run. -/
def onePolicy : BackupWorld where
  db := { accounts := ⟨[("a1", { maildirPath := "/mail/a1", storeId := "s1" })], by decide⟩
          policies := ⟨[("p1", { accountId := "a1" })], by decide⟩ }

theorem onePolicy_new : onePolicy.New := by
  refine ⟨rfl, fun _ => rfl, rfl, fun _ => rfl, fun p policy hp => ?_⟩
  have hmem := Table.mem_rows.mpr hp
  simp only [onePolicy, List.mem_singleton, Prod.mk.injEq] at hmem
  rw [hmem.2]
  exact ⟨rfl, rfl⟩

/-- The part of the condition that can be evaluated. -/
def considerateCheck (w : BackupWorld) : BackupEvent → Bool
  | .work j _ => (w.workers j).all fun wk => match wk.prog with
      | .perform .commit _ => (lastOutcome wk.l.staged).all fun p => p.emits &&
          (w.db.backupJobs.get? j).all fun job => decide (job.status = .running)
      | .perform (.cleanupOldJobs accountId) _ => w.db.backupJobs.rows.all fun row =>
          decide ((cleanupOldBackupJobs 150 accountId w.db).backupJobs.get? row.1 = some row.2)
      | _ => true
  | .reap => false
  | _ => true

theorem considerateCheck_considerate (w : BackupWorld) (e : BackupEvent)
    (h : considerateCheck w e = true) : Considerate w e := by
  cases e with
  | reap => cases h
  | work j reply =>
      rintro ⟨policyId, prog, l⟩ hwk
      simp only [considerateCheck, hwk, Option.all_some] at h
      dsimp only
      split
      · intro p hp
        rw [hp, Option.all_some, Bool.and_eq_true] at h
        refine ⟨h.1, fun job hjob => .inl ?_⟩
        have hrunning := h.2
        rw [hjob] at hrunning
        exact of_decide_eq_true hrunning
      · intro i job hi _
        exact of_decide_eq_true (List.all_eq_true.mp h (i, job) (Table.mem_rows.mpr hi))
      · trivial
  | _ => trivial

theorem outcomes_final_after_one_run : ∃ w : BackupWorld,
    (w.db.backupJobs.get? "j1").map (·.status) = some .completed ∧
      CompletedClean w.db ∧ LastAgrees w.db w.lastFinished := by
  have hrun : (follow considerateCheck (BackupWorld.next · {} ·)
      ([fun _ => .submit "p1" "j1"] ++ List.replicate 27 (BackupWorld.ordinarily "j1"))
      onePolicy).any (fun w : BackupWorld =>
        decide ((w.db.backupJobs.get? "j1").map (·.status) = some .completed)) = true := by
    decide
  obtain ⟨w, hreach, hcompleted⟩ := Reaches.of_script hrun considerateCheck_considerate
  exact ⟨w, of_decide_eq_true hcompleted,
    (outcomes_final_of_considerate onePolicy_new hreach .refl).2⟩

/-- The retention is silent for so long that the watchdog closes the job, and the success is
written over its verdict. -/
theorem not_outcomes_final_of_slow_retention :
    ¬ ∀ (settings : BackupSettings) (w₀ w w' : BackupWorld), w₀.New →
      Reaches (BackupWorld.next · settings ·) (fun _ _ => True) w₀ w →
        Reaches (BackupWorld.next · settings ·) (fun _ _ => True) w w' →
          Final w.db w'.db ∧ CompletedClean w'.db ∧ LastAgrees w'.db w'.lastFinished := by
  intro h
  have hrun : (follow (fun _ _ => true) (BackupWorld.next · {} ·)
      ([fun _ => .submit "p1" "j1"] ++ List.replicate 18 (BackupWorld.ordinarily "j1") ++
        [fun _ => .pass 1800000000, fun _ => .scan, fun _ => .reap]) onePolicy).any
      (fun w : BackupWorld =>
        (follow (fun _ _ => true) (BackupWorld.next · {} ·)
          (List.replicate 9 (BackupWorld.ordinarily "j1")) w).any fun w' : BackupWorld =>
            (w.db.backupJobs.get? "j1").any (fun job => decide (job.status = .failed)) &&
              (w'.db.backupJobs.get? "j1").any fun job =>
                decide (job.status = .completed ∧ job.failureKind = some "stalled")) = true := by
    decide
  obtain ⟨w, hreach, hrest⟩ := Reaches.of_script hrun fun _ _ _ => trivial
  obtain ⟨w', hreach', hend⟩ := Reaches.of_script hrest fun _ _ _ => trivial
  obtain ⟨hfailed, hcompleted⟩ := Bool.and_eq_true_iff.mp hend
  obtain ⟨job, hjob, hfailed⟩ := (Option.any_eq_true ..).mp hfailed
  obtain ⟨job', hjob', hcompleted⟩ := (Option.any_eq_true ..).mp hcompleted
  rw [decide_eq_true_eq] at hfailed hcompleted
  have hsame := (h {} onePolicy w w' onePolicy_new hreach hreach').1 "j1" job job' hjob
    (by rw [hfailed]; rfl) hjob'
  rw [hfailed, hcompleted.1] at hsame
  cases hsame

end MailFallback
