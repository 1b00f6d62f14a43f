import MailFallback.Sync.Processes

/-! # Jobs that another actor has closed

The watchdog and the sweep close jobs whose workers may be alive. The outcome that they commit
stays, as long as the worker gets to the point where it reads its row again. -/

namespace MailFallback

open Storage Effects Transition

variable {settings : SyncSettings} {w w' w₀ w₁ w₂ w₃ : World} {db db' db'' : Db} {jobId : Id}
  {l l' : Local} {staged : List (Id × Write)}

def SyncJob.outcome (job : SyncJob) : JobStatus × Option String × Option String :=
  (job.status, job.failureKind, job.log)

def Account.outcome (account : Account) :
    SyncState × Option String × Option Time × Option String :=
  (account.syncState, account.lastError, account.syncPausedUntil, account.pauseReason)

/-- The outcome of the job and the state of every account are left as they are. -/
def LeavesOutcome (jobId : Id) (db db' : Db) : Prop :=
  (db'.syncJobs.get? jobId).map SyncJob.outcome = (db.syncJobs.get? jobId).map SyncJob.outcome ∧
    ∀ a, (db'.accounts.get? a).map Account.outcome = (db.accounts.get? a).map Account.outcome

/-- The step of another actor by which an open job is closed. -/
def ClosedBy (settings : SyncSettings) (jobId : Id) (w : World) (e : SyncEvent) (w' : World) :
    Prop :=
  (e = .watchdog ∨ e = .sweep) ∧ w.next settings e = some w' ∧
    ∃ job job', w.db.syncJobs.get? jobId = some job ∧ job.status.isOpen = true ∧
      w'.db.syncJobs.get? jobId = some job' ∧ job'.status.isOpen = false

/-- The worker has started its job and has yet to read the row again, or it has nothing more
to write. -/
def Stage.yields : Stage → Bool
  | .setup | .trying | .collected | .leaving => true
  | _ => false

/-- No worker is going to take the job, and the one that has it yields. -/
def World.Yielding (jobId : Id) (w : World) : Prop :=
  jobId ∉ w.queue ∧ ∀ wk, w.workers jobId = some wk → wk.l.stage.yields = true

/-- A reply that does not lead to one of the exits which write without reading the row: a
token is given, the configuration is written and nothing raises inside the `try`. -/
def Local.smooth (l : Local) : (o : SyncOp) → Except SyncExc (SyncAns o) → Bool
  | .refreshOauthToken _, .ok (r : Refreshed) => r.given
  | .writeConfig _, .error _ => false
  | _, .error _ => decide (l.stage ≠ .trying ∧ l.stage ≠ .collected)
  | _, .ok _ => true

def Smooth (jobId : Id) (w : World) : SyncEvent → Prop
  | .work j reply => j = jobId → ∀ o k l, w.workers j = some ⟨.perform o k, l⟩ →
      l.smooth o (reply o) = true
  | _ => True

structure World.Shut (jobId : Id) (w : World) : Prop extends w.Kept where
  taken : jobId ∈ w.used
  yielding : w.Yielding jobId
  shut : ∀ job, w.db.syncJobs.get? jobId = some job → job.status.isOpen = false

/-! ## The outcome -/

theorem LeavesOutcome.of_eq (h : db' = db) : LeavesOutcome jobId db db' := by
  rw [h]
  exact ⟨rfl, fun _ => rfl⟩

theorem LeavesOutcome.trans (h : LeavesOutcome jobId db db') (h' : LeavesOutcome jobId db' db'') :
    LeavesOutcome jobId db db'' :=
  ⟨h'.1.trans h.1, fun a => (h'.2 a).trans (h.2 a)⟩

/-- A closed job is left closed. -/
theorem LeavesOutcome.shut (h : LeavesOutcome jobId db db')
    (hshut : ∀ job, db.syncJobs.get? jobId = some job → job.status.isOpen = false) :
    ∀ job, db'.syncJobs.get? jobId = some job → job.status.isOpen = false := by
  intro job' hjob'
  have hsame := h.1
  rw [hjob', Option.map_some, eq_comm, Option.map_eq_some_iff] at hsame
  obtain ⟨job, hjob, houtcome⟩ := hsame
  have hstatus : job.status = job'.status := congrArg Prod.fst houtcome
  rw [← hstatus]
  exact hshut job hjob

theorem account_outcome_of_neutral {w : Write} (h : w.neutral = true) (account : Account) :
    (w.account account).outcome = account.outcome := by
  cases w <;> first | rfl | cases h

theorem apply_leaves {w : Write} (h : w.neutral = true) (accountId : Id) :
    LeavesOutcome jobId db (w.apply jobId accountId db) := by
  constructor
  · rw [Write.apply, Table.get?_modify_self, Option.map_map]
    congr 1
    funext job
    exact congrArg SyncJob.outcome (w.job_of_neutral job h)
  · intro a
    by_cases ha : a = accountId
    · subst ha
      rw [Write.apply, Table.get?_modify_self, Option.map_map]
      congr 1
      funext account
      exact account_outcome_of_neutral h account
    · rw [Write.apply, Table.get?_modify_of_ne _ _ ha]

theorem pending_leaves (h : ∀ p ∈ staged, p.2.neutral = true) :
    LeavesOutcome jobId db (pending jobId staged db) := by
  unfold pending
  induction staged generalizing db with
  | nil => exact .of_eq rfl
  | cons p staged ih =>
      obtain ⟨hp, hrest⟩ := List.forall_mem_cons.mp h
      exact (apply_leaves hp p.1).trans (ih hrest)

theorem yields_neutral (htidy : l.Tidy) (hyields : l.stage.yields = true) :
    ∀ p ∈ l.staged, p.2.neutral = true := by
  apply htidy.no_closes
  cases hs : l.stage <;> rw [hs] at hyields <;> simp_all [Stage.yields]

/-- A worker that yields writes nothing of the outcome. -/
theorem session_leaves {o : SyncOp} {r : Except SyncExc (SyncAns o)} (htidy : l.Tidy)
    (hallow : l.allows o) (hyields : l.stage.yields = true)
    (h : session jobId l db o r = some db') : LeavesOutcome jobId db db' := by
  by_cases hcommit : o = .commit
  · subst hcommit
    cases r with
    | error e => exact .of_eq (session_error h)
    | ok done =>
        obtain rfl := Option.some.inj h
        exact pending_leaves (yields_neutral htidy hyields)
  · refine .of_eq (session_same hcommit ?_ h)
    rintro a rfl
    rw [hallow.1] at hyields
    cases hyields

/-- And it goes on yielding: when it reads its row it finds it closed. -/
theorem next_yields {o : SyncOp} {r : Except SyncExc (SyncAns o)} (htidy : l.Tidy)
    (hallow : l.allows o) (hyields : l.stage.yields = true) (hsmooth : l.smooth o r = true)
    (hshut : ∀ job, db.syncJobs.get? jobId = some job → job.status.isOpen = false)
    (hl : localStep jobId o l r = some l') (hdb : session jobId l db o r = some db') :
    l'.stage.yields = true := by
  obtain rfl := localStep_eq hl
  cases r with
  | error e =>
      by_cases hwrite : ∀ content, o ≠ .writeConfig content
      · rw [next_error hwrite]
        have houtside : l.stage ≠ .trying ∧ l.stage ≠ .collected := by
          cases o <;> first | exact of_decide_eq_true hsmooth | exact absurd rfl (hwrite _)
        unfold Local.raise
        cases hs : l.stage <;> rw [hs] at hyields houtside <;> simp_all [Stage.raised]
      · push Not at hwrite
        obtain ⟨content, rfl⟩ := hwrite
        cases hsmooth
  | ok a =>
      cases o with
      | view =>
          simp only [Local.next]
          rw [if_neg]
          · exact hyields
          · intro hfresh
            rw [hfresh] at hyields
            cases hyields
      | commit =>
          change l.committed.yields = true
          rw [Local.committed, if_neg]
          · exact hyields
          · intro hchecked
            rw [hchecked] at hyields
            cases hyields
      | refreshOauthToken credentials =>
          have hgiven : Refreshed.given a = true := hsmooth
          simp only [Local.next]
          rw [if_neg]
          · exact hyields
          · rw [hgiven]
            exact fun h => by cases h.2
      | writeConfig content => rfl
      | stopSampler =>
          simp only [Local.next]
          split
          · rfl
          · exact hyields
      | refreshJob =>
          obtain ⟨hread, -⟩ := Option.ite_none_right_eq_some.mp hdb
          have hopen := (pending_leaves (yields_neutral htidy hyields)).shut hshut a hread
          simp only [Local.next]
          rw [if_neg]
          · rfl
          · intro hrunning
            rw [hrunning] at hopen
            cases hopen
      | _ => exact hyields

/-! ## Steps -/

/-- The worker of another job leaves a closed row closed. -/
theorem session_shut {o : SyncOp} {r : Except SyncExc (SyncAns o)} {j : Id} (hj : jobId ≠ j)
    (hshut : ∀ job, db.syncJobs.get? jobId = some job → job.status.isOpen = false)
    (h : session j l db o r = some db') :
    ∀ job, db'.syncJobs.get? jobId = some job → job.status.isOpen = false := by
  by_cases hcommit : o = .commit
  · subst hcommit
    cases r with
    | error e =>
        rw [session_error h]
        exact hshut
    | ok done =>
        obtain rfl := Option.some.inj h
        rw [pending_job, if_neg hj]
        exact hshut
  · by_cases hcleanup : ∀ a, o ≠ .cleanupOldJobs a
    · rw [session_same hcommit hcleanup h]
      exact hshut
    · push Not at hcleanup
      obtain ⟨a, rfl⟩ := hcleanup
      cases r with
      | error e =>
          rw [session_error h]
          exact hshut
      | ok done =>
          obtain rfl := Option.some.inj h
          intro job hjob
          rw [cleanupOldJobs_get?] at hjob
          exact hshut job (Option.filter_eq_some_iff.mp hjob).1

/-- No worker is added, and the rows of closed jobs stay closed. -/
theorem World.Shut.rows_of (h : w.Shut jobId) (hkept : w'.Kept) (htaken : jobId ∈ w'.used)
    (hqueue : jobId ∉ w'.queue) (hworkers : ∀ wk, w'.workers jobId = some wk →
      w.workers jobId = some wk) (hrows : Evolves NotOpened w.db w'.db) : w'.Shut jobId := by
  refine ⟨hkept, htaken, ⟨hqueue, fun wk hwk => h.yielding.2 wk (hworkers wk hwk)⟩, ?_⟩
  intro job' hjob'
  obtain ⟨job, hjob, -, -, hback⟩ := hrows jobId job' hjob'
  by_contra hopen
  have hclosed := h.shut job hjob
  rw [hback (by simpa using hopen)] at hclosed
  cases hclosed

theorem World.Shut.work (h : w.Shut jobId) {j : Id}
    {reply : (o : SyncOp) → Except SyncExc (SyncAns o)}
    (hok : Smooth jobId w (.work j reply)) (hwork : w.work j reply = some w') :
    w'.Shut jobId := by
  have hkept := h.toKept.work hwork
  rcases work_cases hwork with ⟨wk, hwk, -, rfl⟩ | ⟨o, k, l, l', db, w'', hwk, hl, hdb, hw, rfl⟩
  · refine h.rows_of hkept h.taken h.yielding.1 (fun wk' hwk' => ?_) (.of_eq notOpened_refl rfl)
    by_cases hjj : jobId = j
    · simp [hjj] at hwk'
    · exact (Function.update_of_ne hjj _ _).symm.trans hwk'
  · obtain ⟨-, -, hused, -, hqueue, -⟩ := perform_sameRows hw
    obtain ⟨-, hsafe⟩ := h.disciplined j _ hwk
    have htaken : jobId ∈ w''.used := by
      rw [hused]
      exact h.taken
    have hunqueued : jobId ∉ w''.queue := by
      rw [hqueue]
      exact h.yielding.1
    by_cases hjj : jobId = j
    · subst hjj
      have hyields := h.yielding.2 _ hwk
      refine ⟨hkept, htaken, ⟨hunqueued, fun wk' hwk' => ?_⟩, ?_⟩
      · dsimp only at hwk'
        rw [Function.update_self] at hwk'
        obtain rfl := Option.some.inj hwk'
        exact next_yields hsafe.1 hsafe.2.1 hyields (hok rfl o k l hwk) h.shut hl hdb
      · exact (session_leaves hsafe.1 hsafe.2.1 hyields hdb).shut h.shut
    · refine ⟨hkept, htaken, ⟨hunqueued, fun wk' hwk' => ?_⟩, session_shut hjj h.shut hdb⟩
      exact h.yielding.2 wk' ((Function.update_of_ne hjj _ _).symm.trans hwk')

theorem World.Shut.next (h : w.Shut jobId) {e : SyncEvent} (hok : Smooth jobId w e)
    (hnext : w.next settings e = some w') : w'.Shut jobId := by
  have hkept := h.toKept.next hnext
  cases e with
  | pass time =>
      obtain rfl := Option.some.inj hnext
      exact h.rows_of hkept h.taken h.yielding.1 (fun _ hwk => hwk) (.of_eq notOpened_refl rfl)
  | ask accountId =>
      obtain ⟨-, hnext⟩ := Option.ite_none_left_eq_some.mp hnext
      obtain rfl := Option.some.inj hnext
      exact h.rows_of hkept h.taken h.yielding.1 (fun _ hwk => hwk) (.of_eq notOpened_refl rfl)
  | insert accountId j =>
      obtain ⟨⟨-, hunused⟩, hnext⟩ := Option.ite_none_right_eq_some.mp hnext
      obtain ⟨db, hinsert, rfl⟩ := Option.map_eq_some_iff.mp hnext
      have hjj : jobId ≠ j := by
        rintro rfl
        exact hunused h.taken
      refine ⟨hkept, List.mem_cons_of_mem _ h.taken, ⟨?_, h.yielding.2⟩, fun job hjob => ?_⟩
      · exact List.not_mem_cons_of_ne_of_not_mem hjj h.yielding.1
      · rw [insertJob_get? hinsert, if_neg hjj] at hjob
        exact h.shut job hjob
  | overridePause accountId =>
      obtain rfl := Option.some.inj hnext
      exact h.rows_of hkept h.taken h.yielding.1 (fun _ hwk => hwk) (.of_eq notOpened_refl rfl)
  | expirePause accountId =>
      obtain ⟨-, hnext⟩ := Option.ite_none_right_eq_some.mp hnext
      obtain rfl := Option.some.inj hnext
      exact h.rows_of hkept h.taken h.yielding.1 (fun _ hwk => hwk) (.of_eq notOpened_refl rfl)
  | reauth accountId =>
      obtain rfl := Option.some.inj hnext
      exact h.rows_of hkept h.taken h.yielding.1 (fun _ hwk => hwk) (.of_eq notOpened_refl rfl)
  | start j =>
      obtain ⟨hj, hnext⟩ := Option.ite_none_right_eq_some.mp hnext
      obtain rfl := Option.some.inj hnext
      have hjj : jobId ≠ j := by
        rintro rfl
        exact h.yielding.1 hj
      refine h.rows_of hkept h.taken (fun hmem => h.yielding.1 (List.mem_of_mem_erase hmem))
        (fun wk hwk => ?_) (.of_eq notOpened_refl rfl)
      exact (Function.update_of_ne hjj _ _).symm.trans hwk
  | work j reply => exact h.work hok hnext
  | tick j bytes =>
      obtain ⟨-, hused, -, hqueue, hworkers, hdb⟩ := tick_rows hnext
      refine h.rows_of hkept (by rw [hused]; exact h.taken) (by rw [hqueue]; exact h.yielding.1)
        (by rw [hworkers]; exact fun _ hwk => hwk) ?_
      rcases hdb with hdb | ⟨a, hdb⟩
      · exact .of_eq notOpened_refl (by rw [hdb])
      · exact .of_eq notOpened_refl (by rw [hdb]; rfl)
  | exit j =>
      obtain rfl := Option.some.inj hnext
      exact h.rows_of hkept h.taken h.yielding.1 (fun _ hwk => hwk) (.of_eq notOpened_refl rfl)
  | stop j =>
      obtain rfl := Option.some.inj hnext
      obtain ⟨hdb, -, hused, -, hqueue, hworkers⟩ := stopSyncJob_sameRows w j
      exact h.rows_of hkept (by rw [hused]; exact h.taken) (by rw [hqueue]; exact h.yielding.1)
        (by rw [hworkers]; exact fun _ hwk => hwk) (.of_eq notOpened_refl (by rw [hdb]))
  | watchdog =>
      obtain rfl := Option.some.inj hnext
      obtain ⟨-, -, hused, -, hqueue, hworkers⟩ := stopAll_sameRows
        (w.db.syncJobs.rows.filter fun row => w.stalled settings row.1 row.2) w
      refine h.rows_of hkept ?_ ?_ ?_ (closeJobs_evolves _ _ _)
      · exact hused ▸ h.taken
      · exact hqueue ▸ h.yielding.1
      · exact hworkers ▸ fun _ hwk => hwk
  | sweep =>
      obtain rfl := Option.some.inj hnext
      exact h.rows_of hkept h.taken h.yielding.1 (fun _ hwk => hwk) (closeJobs_evolves _ _ _)
  | crash =>
      obtain rfl := Option.some.inj hnext
      refine h.rows_of hkept h.taken List.not_mem_nil (fun wk hwk => ?_)
        (.of_eq notOpened_refl rfl)
      cases hwk

/-! ## Runs -/

theorem World.Kept.shut_of_closed (h : w.Kept) {e : SyncEvent}
    (hclosed : ClosedBy settings jobId w e w') (hyielding : w.Yielding jobId) : w'.Shut jobId := by
  obtain ⟨hactor, hnext, job, job', hjob, -, hjob', hshut⟩ := hclosed
  have hsame : w'.used = w.used ∧ w'.queue = w.queue ∧ w'.workers = w.workers := by
    rcases hactor with rfl | rfl
    · obtain rfl := Option.some.inj hnext
      obtain ⟨-, -, hused, -, hqueue, hworkers⟩ := stopAll_sameRows
        (w.db.syncJobs.rows.filter fun row => w.stalled settings row.1 row.2) w
      exact ⟨hused, hqueue, hworkers⟩
    · obtain rfl := Option.some.inj hnext
      exact ⟨rfl, rfl, rfl⟩
  obtain ⟨hused, hqueue, hworkers⟩ := hsame
  refine ⟨h.next hnext, ?_, ?_, fun job'' hjob'' => ?_⟩
  · rw [hused]
    exact h.rows jobId job hjob
  · unfold World.Yielding
    rw [hqueue, hworkers]
    exact hyielding
  · rw [hjob'] at hjob''
    obtain rfl := Option.some.inj hjob''
    exact hshut

/-- After a job was closed by another actor no step of its worker changes the outcome, as long
as the worker was yielding then and keeps meeting smooth replies. -/
theorem closedJob_left_of_yielding (h₀ : w₀.New)
    (h : Reaches (World.next · settings ·) (fun _ _ => True) w₀ w) {e : SyncEvent}
    (hclosed : ClosedBy settings jobId w e w₁) (hyielding : w.Yielding jobId)
    (h' : Reaches (World.next · settings ·) (Smooth jobId) w₁ w₂)
    {reply : (o : SyncOp) → Except SyncExc (SyncAns o)}
    (hwork : w₂.next settings (.work jobId reply) = some w₃) :
    LeavesOutcome jobId w₂.db w₃.db := by
  have hshut : w₂.Shut jobId := h'.invariant ((kept_of_reaches h₀ h).shut_of_closed hclosed hyielding)
    fun _ _ _ hs hok hnext => hs.next hok hnext
  rcases work_cases hwork with ⟨wk, hwk, -, rfl⟩ | ⟨o, k, l, l', db, w'', hwk, hl, hdb, hw, rfl⟩
  · exact .of_eq rfl
  · obtain ⟨-, hsafe⟩ := hshut.disciplined jobId _ hwk
    exact session_leaves hsafe.1 hsafe.2.1 (hshut.yielding.2 _ hwk) hdb

def closedByCheck (jobId : Id) (w w' : World) : Bool :=
  ((w.db.syncJobs.get? jobId).any fun job => job.status.isOpen) &&
    (w'.db.syncJobs.get? jobId).any fun job => !job.status.isOpen

theorem closedBy_of_check (hnext : w.next settings .watchdog = some w')
    (h : closedByCheck jobId w w' = true) : ClosedBy settings jobId w .watchdog w' := by
  obtain ⟨hopen, hshut⟩ := Bool.and_eq_true_iff.mp h
  obtain ⟨job, hjob, hopen⟩ := (Option.any_eq_true ..).mp hopen
  obtain ⟨job', hjob', hshut⟩ := (Option.any_eq_true ..).mp hshut
  exact ⟨.inl rfl, hnext, job, job', hjob, hopen, hjob', by simpa using hshut⟩

/-- The worker counts the messages of the provider for so long that its job is closed. -/
def slowSetup : List (World → SyncEvent) :=
  [fun _ => .ask "a1", fun _ => .insert "a1" "j1", fun _ => .start "j1"] ++
    List.replicate 7 (World.ordinarily "j1") ++ [fun _ => .pass 900000000]

/-- A worker that finds its job closed changes nothing. -/
theorem closedJob_left_after_slow_setup : ∃ w w₁ w₂ w₃ : World,
    ClosedBy {} "j1" w .watchdog w₁ ∧
      w₂.next {} (w₂.ordinarily "j1") = some w₃ ∧ LeavesOutcome "j1" w₂.db w₃.db := by
  have hrun : (follow (fun _ _ => true) (World.next · {} ·) slowSetup oneAccount).any
      (fun w : World => (w.next {} .watchdog).any fun w₁ : World =>
        closedByCheck "j1" w w₁ && decide ("j1" ∉ w.queue) &&
          (w.workers "j1").all (·.l.stage.yields) &&
          (w₁.next {} (w₁.ordinarily "j1")).isSome) = true := by
    decide
  obtain ⟨w, hreach, hend⟩ := Reaches.of_script hrun fun _ _ _ => trivial
  obtain ⟨w₁, hnext, hend⟩ := (Option.any_eq_true ..).mp hend
  simp only [Bool.and_eq_true, decide_eq_true_eq] at hend
  obtain ⟨⟨⟨hclosed, hqueue⟩, hyields⟩, hsome⟩ := hend
  obtain ⟨w₃, hw₃⟩ := Option.isSome_iff_exists.mp hsome
  have hyielding : w.Yielding "j1" := by
    refine ⟨hqueue, fun wk hwk => ?_⟩
    rw [hwk] at hyields
    exact hyields
  exact ⟨w, w₁, w₁, w₃, closedBy_of_check hnext hclosed, hw₃,
    closedJob_left_of_yielding oneAccount_new hreach (closedBy_of_check hnext hclosed) hyielding
      .refl hw₃⟩

/-- The disk is full when the configuration is to be written. -/
def fullDisk (jobId : Id) (w : World) : SyncEvent :=
  match w.ordinarily jobId with
  | .work j reply => .work j fun
      | .writeConfig _ => .error (.error "No space left on device")
      | o => reply o
  | e => e

/-- The exception exit of a worker whose job has been closed overwrites the log. -/
theorem not_closedJob_left_of_full_disk :
    ¬ ∀ (settings : SyncSettings) (jobId : Id) (w₀ w w₁ w₂ w₃ : World) (e : SyncEvent)
      (reply : (o : SyncOp) → Except SyncExc (SyncAns o)),
      w₀.New → Reaches (World.next · settings ·) (fun _ _ => True) w₀ w →
        ClosedBy settings jobId w e w₁ →
          Reaches (World.next · settings ·) (fun _ _ => True) w₁ w₂ →
            w₂.next settings (.work jobId reply) = some w₃ →
              LeavesOutcome jobId w₂.db w₃.db := by
  intro h
  have hrun : (follow (fun _ _ => true) (World.next · {} ·) slowSetup oneAccount).any
      (fun w : World => (w.next {} .watchdog).any fun w₁ : World =>
        closedByCheck "j1" w w₁ &&
          (follow (fun _ _ => true) (World.next · {} ·) (List.replicate 8 (fullDisk "j1")) w₁).any
            fun w₂ : World => (w₂.next {} (.work "j1" fun o => ordinary "j1" {} {} o)).any
              fun w₃ : World => decide ((w₃.db.syncJobs.get? "j1").map SyncJob.outcome ≠
                (w₂.db.syncJobs.get? "j1").map SyncJob.outcome)) = true := by
    decide
  obtain ⟨w, hreach, hend⟩ := Reaches.of_script hrun fun _ _ _ => trivial
  obtain ⟨w₁, hnext, hend⟩ := (Option.any_eq_true ..).mp hend
  obtain ⟨hclosed, hend⟩ := Bool.and_eq_true_iff.mp hend
  obtain ⟨w₂, hreach₂, hend⟩ := Reaches.of_script hend fun _ _ _ => trivial
  obtain ⟨w₃, hwork, hend⟩ := (Option.any_eq_true ..).mp hend
  exact of_decide_eq_true hend (h {} "j1" oneAccount w w₁ w₂ w₃ .watchdog _ oneAccount_new hreach
    (closedBy_of_check hnext hclosed) hreach₂ hwork).1

end MailFallback
