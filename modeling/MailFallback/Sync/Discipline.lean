import MailFallback.Sync.Stages

/-! # Every worker keeps to the discipline

One lemma for each piece of `execute_sync_job`, from its first read to its clean-up. At the
end the record tells whether a terminal status was committed. -/

namespace MailFallback

open Storage Effects SyncTask

variable {jobId accountId : Id} {l l' : Local} {α β : Type}
  {E : SyncExc → Local → Prop} {R : β → Local → Prop}

/-! ## The set-up -/

/-- Between the commit of `running` and the `try`. -/
def settingUp (accountId : Id) : Local := resting .setup accountId false { started := true }

/-- An exception that nothing catches. -/
def SetupRaised (l : Local) : Prop :=
  l.stage = .setup ∧ l.record = { started := true, setupRaised := true }

/-- Without a token the job has been closed. -/
def Authenticated {α : Type} (accountId : Id) (r : Option α) (l : Local) : Prop :=
  r = none ∧ l.stage = .signedOut ∧ l.record = { started := true, closed := true } ∨
    r ≠ none ∧ l = settingUp accountId

theorem setup_bind {o : SyncOp} {f : SyncAns o → SyncTask β} (ho : o.quiet = true)
    (hpart : o.part = some .setup)
    (hf : ∀ a, Safe (localStep jobId) discipline R (fun _ => SetupRaised) (f a)
      (settingUp accountId)) :
    Safe (localStep jobId) discipline R (fun _ => SetupRaised)
      (Prog.bind (SyncTask.op o) f) (settingUp accountId) := by
  refine quiet_bind ho resting_tidy hf fun _ _ => ?_
  rw [hpart]
  exact ⟨rfl, rfl⟩

theorem oauthToken_spec (credentials : String) :
    Safe (localStep jobId) discipline (Authenticated accountId) (fun _ => SetupRaised)
      (oauthToken accountId credentials) (settingUp accountId) := by
  have hclose : ∀ terminal : Bool, Safe (localStep jobId) discipline
      (Authenticated accountId) (fun _ => SetupRaised)
      (do
        closeWith accountId (.tokenRefreshFailed terminal)
        pure (none : Option String))
      (resting .signedOut accountId false { started := true }) := by
    intro terminal
    apply Safe.bind
    refine (closeWith_spec .signedOut .signedOut { started := true, closed := true }
      (w := .tokenRefreshFailed terminal) (fun _ => rfl) (fun _ => rfl) (fun _ => rfl)).post ?_ (fun _ _ _ h => h)
    rintro _ l hl rfl
    exact ⟨hl, .inl ⟨rfl, rfl, rfl⟩⟩
  apply Safe.bind
  apply local_op (o := .refreshOauthToken credentials) (l := settingUp accountId) resting_tidy
    ⟨rfl, rfl⟩
  · intro refreshed
    cases refreshed with
    | rejected terminal => exact ⟨resting_tidy, hclose terminal⟩
    | token accessToken stored =>
        by_cases hempty : accessToken = ""
        · have hnext : (settingUp accountId).next jobId (.refreshOauthToken credentials)
              (.ok (.token accessToken stored)) =
              resting .signedOut accountId false { started := true } := by
            simp [Local.next, settingUp, resting, Refreshed.given, hempty]
          rw [hnext]
          refine ⟨resting_tidy, save_bind .signedOut .signedOut rfl rfl rfl ?_⟩
          rw [if_pos hempty]
          exact hclose false
        · have hnext : (settingUp accountId).next jobId (.refreshOauthToken credentials)
              (.ok (.token accessToken stored)) = settingUp accountId := by
            simp [Local.next, settingUp, resting, Refreshed.given, hempty]
          rw [hnext]
          refine ⟨resting_tidy, save_bind .setup .setup rfl rfl rfl ?_⟩
          rw [if_neg hempty]
          exact ⟨resting_tidy, .inr ⟨(by rintro ⟨⟩), rfl⟩⟩
  · exact fun _ _ => ⟨resting_tidy, rfl, rfl⟩

theorem authenticate_spec (account : Account) :
    Safe (localStep jobId) discipline (Authenticated accountId) (fun _ => SetupRaised)
      (authenticate accountId account) (settingUp accountId) := by
  have hrest : ∀ credentials : String, Safe (localStep jobId) discipline
      (Authenticated accountId) (fun _ => SetupRaised)
      (authenticateWith accountId account credentials) (settingUp accountId) := by
    intro credentials
    unfold authenticateWith
    split
    · apply Safe.bind
      refine (oauthToken_spec credentials).post ?_ (fun _ _ _ h => h)
      rintro token l hl htoken
      cases token with
      | none =>
          rcases htoken with ⟨-, hstage, hrecord⟩ | ⟨h, -⟩
          · exact ⟨hl, .inl ⟨rfl, hstage, hrecord⟩⟩
          · exact absurd rfl h
      | some token =>
          rcases htoken with ⟨h, -⟩ | ⟨-, rfl⟩
          · cases h
          · exact setup_bind rfl rfl fun _ => ⟨hl, .inr ⟨(by rintro ⟨⟩), rfl⟩⟩
    · exact ⟨resting_tidy, .inr ⟨(by rintro ⟨⟩), rfl⟩⟩
  unfold authenticate
  split
  · refine setup_bind rfl rfl fun decrypted => ?_
    obtain ⟨credentials, upgraded⟩ := decrypted
    cases upgraded with
    | none => exact hrest credentials
    | some stored => exact save_bind .setup .setup rfl rfl rfl (hrest credentials)
  · exact ⟨resting_tidy, .inr ⟨(by rintro ⟨⟩), rfl⟩⟩

theorem statusPass_spec :
    Safe (localStep jobId) discipline (fun _ l' => l' = settingUp accountId) E
      (statusPass accountId) (settingUp accountId) := by
  apply Safe.handle
  apply quiet_bind rfl resting_tidy
  · intro counts
    cases counts with
    | none => exact ⟨resting_tidy, rfl⟩
    | some counts => exact save_spec .setup .setup rfl rfl rfl
  · exact fun _ _ => ⟨resting_tidy, rfl⟩

theorem prepareConfig_spec :
    Safe (localStep jobId) discipline (fun _ l' => l' = settingUp accountId)
      (fun _ => SetupRaised) (prepareConfig accountId) (settingUp accountId) := by
  refine setup_bind rfl rfl fun account => ?_
  split
  · apply Safe.bind
    refine statusPass_spec.post ?_ (fun _ _ _ h => h)
    rintro _ l' hl' rfl
    refine setup_bind rfl rfl fun account => ?_
    refine setup_bind rfl rfl fun extra => ?_
    exact setup_bind rfl rfl fun content => ⟨resting_tidy, rfl⟩
  · exact setup_bind rfl rfl fun content => ⟨resting_tidy, rfl⟩

/-! ## The runs of mbsync -/

/-- Inside the `try`, with the exit code of the last process. -/
def running (accountId : Id) (child : Bool) (code : Option ℤ) : Local :=
  resting .trying accountId child { started := true, exitCode := code }

/-- Where an exception leaves the runs. -/
def Failing (accountId : Id) (l : Local) : Prop :=
  ∃ child code, l = resting .failing accountId child
    { started := true, bodyRaised := true, exitCode := code }

/-- An invocation has ended with that code. -/
def Exited {α : Type} (accountId : Id) (r : Option ℤ × α) (l : Local) : Prop :=
  l = running accountId false r.1

theorem trying_bind {o : SyncOp} {child : Bool} {code : Option ℤ} {f : SyncAns o → SyncTask β}
    (ho : o.quiet = true) (hpart : o.part = some .body)
    (hf : ∀ a, Safe (localStep jobId) discipline R (fun _ => Failing accountId) (f a)
      (running accountId child code)) :
    Safe (localStep jobId) discipline R (fun _ => Failing accountId)
      (Prog.bind (SyncTask.op o) f) (running accountId child code) := by
  refine quiet_bind ho resting_tidy hf fun _ _ => ?_
  rw [hpart]
  exact ⟨child, code, rfl⟩

theorem awaitProcess_spec {code : Option ℤ} :
    Safe (localStep jobId) discipline (fun code' l' => l' = running accountId false code')
      (fun _ => Failing accountId) awaitProcess (running accountId true code) := by
  apply Safe.bind
  apply local_op (o := .wait) resting_tidy trivial
  · intro code
    cases code with
    | some code => exact ⟨resting_tidy, resting_tidy, rfl⟩
    | none =>
        refine ⟨resting_tidy, ?_⟩
        apply Safe.bind
        apply local_op (o := .kill) resting_tidy trivial
        · intro _
          refine ⟨resting_tidy, ?_⟩
          apply local_op (o := .waitBriefly) resting_tidy trivial
          · exact fun _ => ⟨resting_tidy, rfl⟩
          · exact nofun
        · exact nofun
  · exact nofun

theorem readAndAwait_spec {code : Option ℤ} :
    Safe (localStep jobId) discipline (Exited accountId) (fun _ => Failing accountId)
      readAndAwait (running accountId true code) := by
  refine trying_bind rfl rfl fun read => ?_
  obtain ⟨lines, expired⟩ := read
  have hwait : Safe (localStep jobId) discipline (Exited accountId)
      (fun _ => Failing accountId)
      (do
        let code ← awaitProcess
        pure (code, lines)) (running accountId true code) := by
    apply Safe.bind
    refine awaitProcess_spec.post ?_ (fun _ _ _ h => h)
    exact fun _ _ hl h => ⟨hl, h⟩
  cases expired with
  | true => exact trying_bind rfl rfl fun _ => trying_bind rfl rfl fun _ => hwait
  | false => exact hwait

theorem invoke_spec {code : Option ℤ} :
    Safe (localStep jobId) discipline (Exited accountId) (fun _ => Failing accountId)
      (invoke accountId) (running accountId false code) := by
  apply Safe.bind
  apply local_op (o := .spawn accountId) resting_tidy ⟨rfl, rfl, rfl⟩
  · intro _
    refine ⟨resting_tidy, trying_bind rfl rfl fun _ => trying_bind rfl rfl fun stops => ?_⟩
    split
    · exact trying_bind rfl rfl fun _ => readAndAwait_spec
    · exact readAndAwait_spec
  · exact fun _ _ => ⟨resting_tidy, false, code, rfl⟩

theorem runRest_spec (total left : ℕ) (code : Option ℤ) (log : List String) :
    Safe (localStep jobId) discipline (Exited accountId) (fun _ => Failing accountId)
      (runRest accountId total left code log) (running accountId false code) := by
  induction left generalizing code log with
  | zero => exact ⟨resting_tidy, rfl⟩
  | succ left ih =>
      refine trying_bind rfl rfl fun stops => ?_
      split
      · exact ⟨resting_tidy, rfl⟩
      · apply Safe.bind
        refine invoke_spec.post ?_ (fun _ _ _ h => h)
        rintro ⟨code', lines⟩ l hl rfl
        dsimp only
        split
        · exact ih _ _
        · exact ⟨hl, rfl⟩

theorem runInvocations_spec {code : Option ℤ} (count : ℕ) (hcount : 0 < count)
    (log : List String) :
    Safe (localStep jobId) discipline (Exited accountId) (fun _ => Failing accountId)
      (runInvocations accountId count log) (running accountId false code) := by
  cases count with
  | zero => cases hcount
  | succ count =>
      apply Safe.bind
      refine invoke_spec.post ?_ (fun _ _ _ h => h)
      rintro ⟨code, lines⟩ l hl rfl
      dsimp only
      split
      · exact runRest_spec _ _ _ _
      · exact ⟨hl, rfl⟩

theorem runTwice_spec {code : Option ℤ} (account : Account) (count : ℕ) (hcount : 0 < count) :
    Safe (localStep jobId) discipline (Exited accountId) (fun _ => Failing accountId)
      (runTwice account accountId count) (running accountId false code) := by
  apply Safe.bind
  refine (runInvocations_spec count hcount _).post ?_ (fun _ _ _ h => h)
  rintro ⟨code, log⟩ l hl rfl
  refine trying_bind rfl rfl fun stops => ?_
  split
  · refine trying_bind rfl rfl fun reconciled => trying_bind rfl rfl fun stops => ?_
    split
    · apply Safe.bind
      refine (runInvocations_spec count hcount _).post ?_ (fun _ _ _ h => h)
      exact fun _ _ hl h => ⟨hl, h⟩
    · exact ⟨hl, rfl⟩
  · exact ⟨hl, rfl⟩

theorem runAndRetry_spec (account : Account) (count : ℕ) (hcount : 0 < count)
    (logToDisk : Bool) :
    Safe (localStep jobId) discipline (Exited accountId) (fun _ => Failing accountId)
      (runAndRetry account accountId count logToDisk) (running accountId false none) := by
  cases logToDisk with
  | true => exact trying_bind rfl rfl fun _ => runTwice_spec account count hcount
  | false => exact runTwice_spec account count hcount

/-- The clean-up after the runs, whether they ended or raised. -/
theorem endRuns_spec (stage stage' : Stage) {child : Bool} {record : Record} (logToDisk : Bool)
    (hallow : (resting stage accountId child record).allows .stopSampler)
    (hstage : (if stage = .trying then .collected else stage) = stage')
    (hE : ∀ e, E e ((resting stage' accountId child record).raise (some .body))) :
    Safe (localStep jobId) discipline (fun _ l' => l' = resting stage' accountId child record)
      E (endRuns logToDisk) (resting stage accountId child record) := by
  apply Safe.bind
  apply local_op (o := .stopSampler) resting_tidy hallow
  · intro joined
    have hnext : (resting stage accountId child record).next jobId .stopSampler (.ok joined) =
        resting stage' accountId child record := by
      rw [← hstage]
      rfl
    rw [hnext]
    refine ⟨resting_tidy, quiet_bind rfl resting_tidy (fun _ => ?_) nofun⟩
    cases logToDisk with
    | false => exact ⟨resting_tidy, rfl⟩
    | true =>
        apply local_op (o := .closeLog) resting_tidy trivial
        · exact fun _ => ⟨resting_tidy, rfl⟩
        · exact fun _ e => ⟨resting_tidy.raise _, hE e⟩
  · exact nofun

/-! ## The ending -/

/-- The record of a run that was closed as completed in its body. -/
def Record.completed (r : Record) : Prop :=
  r.bodyRaised = false ∧ r.exitCode = some 0 ∧ r.budgetStopped = false

/-- Neither the set-up nor the clean-up has raised. -/
def Record.calm (r : Record) : Prop :=
  r.setupRaised = false ∧ r.cleanUpRaised = false

/-- Only the writes of the ending are pending. -/
def Finishing (accountId : Id) (record : Record) (l : Local) : Prop :=
  l.Tidy ∧ l.stage = .finishing ∧ l.account = some accountId ∧ l.record = record

/-- Where an exception leaves the `try`. -/
def Raised (accountId : Id) (l : Local) : Prop :=
  l.Tidy ∧ (l.stage = .failing ∨ l.stage = .finishing) ∧ l.account = some accountId ∧
    l.record.calm ∧ l.record.bodyRaised = true ∧ l.record.closed = false

/-- Before the clean-up the job has been completed, or its ending is pending. -/
def Ended (l : Local) : Prop :=
  l.stage ≠ .trying ∧ (l.stage = .leaving ∨ l.record.calm ∧
    (l.record.closed = true ∧ l.record.completed ∨
      l.record.closed = false ∧ ¬l.record.completed ∧
        l.staged.any (fun p => p.2.closes) = true))

variable {record : Record}

theorem finishing_stage {w : Write} (hl : Finishing accountId record l)
    (hpermits : Stage.finishing.permits w = true) :
    Safe (localStep jobId) discipline
      (fun _ l' => Finishing accountId record l' ∧ l'.staged = l.staged ++ [(accountId, w)]) E
      (stage accountId w) l := by
  obtain ⟨htidy, hstage, haccount, hrecord⟩ := hl
  have hpermits' : l.stage.permits w = true := by
    rw [hstage]
    exact hpermits
  have hchecked : l.stage = .checked → l.staged = [] := by
    rw [hstage]
    exact nofun
  refine (stage_spec htidy haccount hpermits' hchecked).post ?_ (fun _ _ _ h => h)
  rintro _ l' hl' rfl
  exact ⟨⟨hl', hstage, haccount, hrecord⟩, rfl⟩

theorem finishing_bind {o : SyncOp} {f : SyncAns o → SyncTask β} (ho : o.quiet = true)
    (hfallible : o.fallible = false) (hl : Finishing accountId record l)
    (hf : ∀ a, Safe (localStep jobId) discipline R E (f a) l) :
    Safe (localStep jobId) discipline R E (Prog.bind (SyncTask.op o) f) l := by
  apply quiet_bind ho hl.1 hf
  intro h
  rw [hfallible] at h
  cases h

/-- The last assignment of an ending that is not completed. -/
theorem ending_stage {w : Write} (hl : Finishing accountId record l)
    (hpermits : Stage.finishing.permits w = true) (hcloses : w.closes = true)
    (hcalm : record.calm) (hclosed : record.closed = false) (hcompleted : ¬record.completed) :
    Safe (localStep jobId) discipline (fun _ => Ended) E (stage accountId w) l := by
  refine (finishing_stage hl hpermits).post ?_ (fun _ _ _ h => h)
  rintro _ l' - ⟨⟨-, hstage, -, rfl⟩, hstaged⟩
  refine ⟨by rw [hstage]; exact nofun, .inr ⟨hcalm, .inr ⟨hclosed, hcompleted, ?_⟩⟩⟩
  simp [hstaged, hcloses]

theorem pauseFor_spec (kind : String) (resume : Time → ℕ → Time → Time)
    (hl : Finishing accountId record l) (hcalm : record.calm)
    (hclosed : record.closed = false) (hcompleted : ¬record.completed) :
    Safe (localStep jobId) discipline (fun _ => Ended) E
      (pauseFor accountId kind resume) l := by
  refine finishing_bind rfl rfl hl fun time => finishing_bind rfl rfl hl fun today => ?_
  apply Safe.bind
  apply local_op (o := .view) hl.1 trivial
  · intro db
    have hsame : l.next jobId .view (.ok db) = l := by
      apply if_neg
      rw [hl.2.1]
      exact nofun
    rw [hsame]
    exact ⟨hl.1, finishing_bind rfl rfl hl fun jitter =>
      ending_stage hl rfl rfl hcalm hclosed hcompleted⟩
  · exact nofun

theorem complete_spec (time : Time) (hl : Finishing accountId record l) (hcalm : record.calm)
    (hcompleted : record.completed) :
    Safe (localStep jobId) discipline (fun _ => Ended) E
      (do
        stage accountId (.completed time)
        commit
        (SyncTask.cleanupOldJobs accountId).handle fun _ => pure ()) l := by
  apply Safe.bind
  refine (finishing_stage hl rfl).post ?_ (fun _ _ _ h => h)
  rintro _ l' - ⟨⟨htidy, hstage, haccount, rfl⟩, hstaged⟩
  apply Safe.bind
  refine (commit_spec' htidy).post ?_ (fun _ _ _ h => h)
  rintro _ l'' hl'' rfl
  have hcommitted : l'.committed = .finishing := by
    simp [Local.committed, hstage]
  have hend : (l'.record.commit l'.staged).closed = true := by
    simp [Record.commit, hstaged, Write.closes]
  have hended : ∀ l : Local, l.stage = .finishing → l.record = l'.record.commit l'.staged →
      Ended l := by
    intro l hfinishing hrecord
    unfold Ended
    rw [hrecord, hfinishing]
    exact ⟨(by rintro ⟨⟩), .inr ⟨hcalm, .inl ⟨hend, hcompleted⟩⟩⟩
  apply Safe.handle
  apply local_op (o := .cleanupOldJobs accountId) hl'' ⟨hcommitted, rfl, haccount, hend⟩
  · exact fun _ => ⟨hl'', hended _ hcommitted rfl⟩
  · exact fun _ e => ⟨hl''.raise _, hl''.raise _,
      hended _ (congrArg Stage.raised hcommitted) rfl⟩

theorem conclude_spec (account : Account) (code : Option ℤ) (output : String)
    (budgetStopped : Bool) (signal : Option String)
    (hl : Finishing accountId
      { started := true, exitCode := code, budgetStopped := budgetStopped } l) :
    Safe (localStep jobId) discipline (fun _ => Ended) (fun _ => Raised accountId)
      (conclude account accountId code output budgetStopped signal) l := by
  refine finishing_bind rfl rfl hl fun cap => ?_
  refine quiet_bind rfl hl.1 (fun _ => ?_) ?_
  · split
    · rename_i h
      exact finishing_bind rfl rfl hl fun time =>
        complete_spec time hl ⟨rfl, rfl⟩ ⟨rfl, h.1, h.2⟩
    · rename_i h
      have hcompleted : ¬Record.completed
          { started := true, exitCode := code, budgetStopped := budgetStopped } :=
        fun hc => h ⟨hc.2.1, hc.2.2⟩
      split
      · exact finishing_bind rfl rfl hl fun time => finishing_bind rfl rfl hl fun jitter =>
          ending_stage hl rfl rfl ⟨rfl, rfl⟩ rfl hcompleted
      split
      · split
        · exact ending_stage hl rfl rfl ⟨rfl, rfl⟩ rfl hcompleted
        · exact ending_stage hl rfl rfl ⟨rfl, rfl⟩ rfl hcompleted
      split
      · exact pauseFor_spec _ _ hl ⟨rfl, rfl⟩ rfl hcompleted
      · exact pauseFor_spec _ _ hl ⟨rfl, rfl⟩ rfl hcompleted
      · exact ending_stage hl rfl rfl ⟨rfl, rfl⟩ rfl hcompleted
  · rintro - e
    obtain ⟨htidy, hstage, haccount, hrecord⟩ := hl
    refine ⟨htidy.raise _, .inr ?_, haccount, ?_⟩
    · exact congrArg Stage.raised hstage
    · unfold Local.raise
      rw [hrecord]
      exact ⟨⟨rfl, rfl⟩, rfl, rfl⟩

theorem finalise_spec (account : Account) (code : Option ℤ) (output : String)
    (logPath : Option String) (budgetStopped : Bool)
    (hl : Finishing accountId
      { started := true, exitCode := code, budgetStopped := budgetStopped } l) :
    Safe (localStep jobId) discipline (fun _ => Ended) (fun _ => Raised accountId)
      (finalise account accountId code output logPath budgetStopped) l := by
  refine finishing_bind rfl rfl hl fun time => ?_
  apply Safe.bind
  refine (finishing_stage hl rfl).post ?_ (fun _ _ _ h => h)
  rintro _ l _ ⟨hl, -⟩
  refine finishing_bind rfl rfl hl fun signal => ?_
  cases signal with
  | none => exact conclude_spec _ _ _ _ _ hl
  | some name =>
      apply Safe.bind
      refine (finishing_stage hl rfl).post ?_ (fun _ _ _ h => h)
      exact fun _ l' _ hl' => conclude_spec _ _ _ _ _ hl'.1

theorem runSampled_spec (account : Account) (count : ℕ) (hcount : 0 < count) :
    Safe (localStep jobId) discipline (fun _ => Ended) (fun _ => Raised accountId)
      (runSampled account accountId jobId count) (running accountId false none) := by
  have hraised : ∀ l, Failing accountId l → Raised accountId l := by
    rintro l ⟨child, code, rfl⟩
    exact ⟨resting_tidy, .inl rfl, rfl, ⟨rfl, rfl⟩, rfl, rfl⟩
  have hfail : ∀ (p : SyncTask Unit) (l : Local),
      Safe (localStep jobId) discipline (fun _ => Ended) (fun _ => Failing accountId) p l →
      Safe (localStep jobId) discipline (fun _ => Ended) (fun _ => Raised accountId) p l :=
    fun p l h => h.post (fun _ _ _ h => h) (fun _ l _ h => hraised l h)
  refine quiet_bind rfl resting_tidy (fun logToDisk => ?_)
    (fun _ _ => hraised _ ⟨false, none, rfl⟩)
  refine quiet_bind rfl resting_tidy (fun _ => ?_) (fun _ _ => hraised _ ⟨false, none, rfl⟩)
  apply Safe.bind
  have hensure : Safe (localStep jobId) discipline
      (fun r l' => l' = resting .collected accountId false { started := true, exitCode := r.1 })
      (fun _ => Failing accountId)
      ((runAndRetry account accountId count logToDisk).ensure (endRuns logToDisk))
      (running accountId false none) := by
    apply Safe.ensure
    refine (runAndRetry_spec account count hcount logToDisk).post ?_ ?_
    · rintro ⟨code, output⟩ l hl rfl
      exact endRuns_spec .trying .collected logToDisk (.inl ⟨rfl, rfl⟩) rfl
        fun _ => ⟨false, code, rfl⟩
    · rintro _ l hl ⟨child, code, rfl⟩
      refine (endRuns_spec .failing .failing logToDisk (.inr rfl) rfl
        fun _ => ⟨child, code, rfl⟩).post ?_ (fun _ _ _ h => h)
      exact fun _ _ _ h => ⟨child, code, h⟩
  refine hensure.post ?_ (fun _ l _ h => hraised l h)
  rintro ⟨code, output⟩ l hl rfl
  apply Safe.bind
  apply local_op (o := .takeBudgetStop) hl trivial
  · intro budgetStopped
    refine ⟨resting_tidy, ?_⟩
    apply Safe.bind
    apply local_op (o := .refreshJob) resting_tidy rfl
    · intro job
      refine ⟨resting_tidy, ?_⟩
      by_cases hrunning : job.status = .running
      · rw [if_pos hrunning]
        refine finalise_spec account _ _ _ _ ⟨resting_tidy, ?_, rfl, rfl⟩
        exact if_pos hrunning
      · rw [if_neg hrunning]
        have hleaving : (if job.status = .running then Stage.finishing else .leaving) = .leaving :=
          if_neg hrunning
        refine ⟨resting_tidy, fun htrying => ?_, .inl hleaving⟩
        cases hleaving.symm.trans htrying
    · exact fun _ e => ⟨resting_tidy, resting_tidy, .inl rfl, rfl, ⟨rfl, rfl⟩, rfl, rfl⟩
  · exact nofun

theorem runJob_spec (account : Account) :
    Safe (localStep jobId) discipline (fun _ => Ended) (fun _ => Raised accountId)
      (runJob account accountId jobId) (running accountId false none) := by
  have hraised : Raised accountId ((running accountId false none).raise (some .body)) :=
    ⟨resting_tidy, .inl rfl, rfl, ⟨rfl, rfl⟩, rfl, rfl⟩
  refine quiet_bind rfl resting_tidy (fun _ => ?_) (fun _ _ => hraised)
  split
  · refine quiet_bind rfl resting_tidy (fun excluded => ?_) (fun _ _ => hraised)
    apply runSampled_spec
    split
    · exact Nat.one_pos
    · exact Nat.two_pos
  · exact runSampled_spec account 1 Nat.one_pos

/-- What the record says of a worker that has left: what it started it has closed if and only
if neither the set-up nor, before the end, the clean-up has raised. -/
def Record.fine (r : Record) : Prop :=
  r.setupRaised = false ∧ (r.cleanUpRaised = false ∨ r.completed)

/-- A worker that finds its job closed by another writes nothing more. -/
def Left (l : Local) : Prop :=
  l.stage ≠ .trying ∧
    (l.record.started = true → l.stage = .leaving ∨ (l.record.closed = true ↔ l.record.fine))

/-- The `except` clauses leave an ending to commit. -/
theorem jobFailed_spec (e : SyncExc) (hl : Raised accountId l) :
    Safe (localStep jobId) discipline (fun _ => Ended) E (jobFailed accountId e) l := by
  obtain ⟨htidy, hstage, haccount, hcalm, hbody, hclosed⟩ := hl
  have hend : ∀ w : Write, w.closes = true → Stage.failing.permits w = true →
      Stage.finishing.permits w = true →
      Safe (localStep jobId) discipline (fun _ => Ended) E (stage accountId w) l := by
    intro w hcloses hfailing hfinishing
    have hpermits : l.stage.permits w = true := by
      rcases hstage with h | h
      · rw [h]
        exact hfailing
      · rw [h]
        exact hfinishing
    have hchecked : l.stage = .checked → l.staged = [] := by
      rcases hstage with h | h
      · rw [h]
        exact nofun
      · rw [h]
        exact nofun
    refine (stage_spec htidy haccount hpermits hchecked).post ?_ (fun _ _ _ h => h)
    rintro _ l' - rfl
    refine ⟨fun htrying => ?_, .inr ⟨hcalm, .inr ⟨hclosed, ?_, ?_⟩⟩⟩
    · rcases hstage with h | h <;> cases h.symm.trans htrying
    · intro h
      cases hbody.symm.trans h.1
    · simp [hcloses]
  apply quiet_bind rfl htidy ?_ nofun
  intro time
  cases e with
  | timeoutExpired => exact hend _ rfl rfl rfl
  | error text => exact hend _ rfl rfl rfl
  | rowDeleted => exact hend _ rfl rfl rfl

theorem raised_ne_trying (stage : Stage) : stage.raised ≠ .trying := by
  cases stage <;> exact nofun

theorem Ended.raise (hl : Ended l) : Left (l.raise (some .cleanUp)) := by
  refine ⟨raised_ne_trying l.stage, fun _ => ?_⟩
  rcases hl.2 with hleaving | ⟨hcalm, h | ⟨hclosed, hcompleted, -⟩⟩
  · exact .inl (congrArg Stage.raised hleaving)
  · exact .inr ⟨fun _ => ⟨hcalm.1, .inr h.2⟩, fun _ => h.1⟩
  · refine .inr ⟨fun h => ?_, ?_⟩
    · rw [show (l.raise (some .cleanUp)).record.closed = l.record.closed from rfl, hclosed] at h
      cases h
    · rintro ⟨-, h | h⟩
      · cases h
      · exact absurd h hcompleted

theorem commit_left (hl : Ended l) (htidy : l.Tidy) :
    Safe (localStep jobId) discipline (fun _ => Left) E commit l := by
  refine (commit_spec' htidy).post ?_ (fun _ _ _ h => h)
  rintro _ l' - rfl
  have hstage : l.committed ≠ .trying := by
    unfold Local.committed
    split
    · split <;> exact nofun
    · exact hl.1
  refine ⟨hstage, fun _ => ?_⟩
  rcases hl.2 with hleaving | ⟨hcalm, h | ⟨-, -, hstaged⟩⟩
  · left
    simp [Local.committed, hleaving]
  · refine .inr ⟨fun _ => ⟨hcalm.1, .inl hcalm.2⟩, fun _ => ?_⟩
    simp [Record.commit, h.1]
  · refine .inr ⟨fun _ => ⟨hcalm.1, .inl hcalm.2⟩, fun _ => ?_⟩
    simp [Record.commit, hstaged]

theorem dropToken_spec (tokenWritten : Bool) (hl : Ended l) (htidy : l.Tidy) :
    Safe (localStep jobId) discipline (fun _ => Left) (fun _ => Left)
      (dropToken tokenWritten) l := by
  cases tokenWritten with
  | false => exact commit_left hl htidy
  | true =>
      refine quiet_bind rfl htidy (fun there => ?_) nofun
      cases there with
      | false => exact commit_left hl htidy
      | true => exact quiet_bind rfl htidy (fun _ => commit_left hl htidy) fun _ _ => hl.raise

theorem cleanUp_spec (settings : SyncSettings) (configWritten tokenWritten : Bool)
    (hl : Ended l) (htidy : l.Tidy) :
    Safe (localStep jobId) discipline (fun _ => Left) (fun _ => Left)
      (cleanUp settings configWritten tokenWritten) l := by
  refine quiet_bind rfl htidy (fun _ => ?_) nofun
  split
  · exact quiet_bind rfl htidy (fun _ => dropToken_spec tokenWritten hl htidy)
      fun _ _ => hl.raise
  · exact dropToken_spec tokenWritten hl htidy

theorem runGuarded_spec (settings : SyncSettings) (account : Account) (content : String)
    (tokenWritten : Bool) :
    Safe (localStep jobId) discipline (fun _ => Left) (fun _ => Left)
      (runGuarded settings account accountId jobId content tokenWritten)
      (settingUp accountId) := by
  apply Safe.bind
  have hwrite : Safe (localStep jobId) discipline
      (fun failure l' => failure = none ∧ l' = running accountId false none ∨
        ∃ e, failure = some e ∧ Raised accountId l') (fun _ _ => False)
      ((do
        writeConfig content
        pure none).handle fun e => pure (some e)) (settingUp accountId) := by
    apply Safe.handle
    apply Safe.bind
    apply local_op (o := .writeConfig content) (l := settingUp accountId) resting_tidy
      ⟨rfl, rfl, rfl⟩
    · exact fun _ => ⟨resting_tidy, resting_tidy, .inl ⟨rfl, rfl⟩⟩
    · intro _ e
      have hraised : Raised accountId
          ((settingUp accountId).next jobId (.writeConfig content) (.error e)) :=
        ⟨resting_tidy, .inl rfl, rfl, ⟨rfl, rfl⟩, rfl, rfl⟩
      exact ⟨hraised.1, hraised.1, .inr ⟨e, rfl, hraised⟩⟩
  refine hwrite.post ?_ (fun _ _ _ h => h.elim)
  rintro _ l hl (⟨rfl, rfl⟩ | ⟨e, rfl, hraised⟩)
  · have hbody : Safe (localStep jobId) discipline (fun _ => Ended) (fun _ _ => False)
        ((runJob account accountId jobId).handle (jobFailed accountId))
        (running accountId false none) := by
      apply Safe.handle
      refine (runJob_spec account).post (fun _ _ _ h => h) ?_
      exact fun e l _ hraised => jobFailed_spec e hraised
    apply Safe.ensure
    refine hbody.post ?_ (fun _ _ _ h => h.elim)
    exact fun _ l htidy hl => cleanUp_spec settings true tokenWritten hl htidy
  · have hbody : Safe (localStep jobId) discipline (fun _ => Ended) (fun _ _ => False)
        (jobFailed accountId e) l := jobFailed_spec e hraised
    apply Safe.ensure
    refine hbody.post ?_ (fun _ _ _ h => h.elim)
    exact fun _ l htidy hl => cleanUp_spec settings false tokenWritten hl htidy

theorem SetupRaised.left (h : SetupRaised l) : Left l := by
  obtain ⟨hstage, hrecord⟩ := h
  refine ⟨by rw [hstage]; exact nofun, fun _ => .inr ?_⟩
  rw [hrecord]
  simp [Record.fine]

theorem runStarted_spec (settings : SyncSettings) :
    Safe (localStep jobId) discipline (fun _ => Left) (fun _ => Left)
      (runStarted settings accountId jobId) (settingUp accountId) := by
  refine quiet_bind rfl resting_tidy (fun account => ?_) (fun _ _ => SetupRaised.left ⟨rfl, rfl⟩)
  apply Safe.bind
  refine (authenticate_spec account).post ?_ (fun _ _ _ h => h.left)
  rintro authenticated l hl hauthenticated
  cases authenticated with
  | none =>
      rcases hauthenticated with ⟨-, hstage, hrecord⟩ | ⟨h, -⟩
      · refine ⟨hl, by rw [hstage]; exact nofun, fun _ => .inr ?_⟩
        rw [hrecord]
        simp [Record.fine]
      · exact absurd rfl h
  | some tokenWritten =>
      rcases hauthenticated with ⟨h, -⟩ | ⟨-, rfl⟩
      · cases h
      · apply Safe.bind
        refine prepareConfig_spec.post ?_ (fun _ _ _ h => h.left)
        rintro ⟨account, content⟩ l hl rfl
        exact runGuarded_spec settings account content tokenWritten

/-- Every worker keeps to the discipline, and its record tells how it has left. -/
theorem executeSyncJob_disciplined (settings : SyncSettings) (jobId : Id) :
    Safe (localStep jobId) discipline (fun _ => Left) (fun _ => Left)
      (executeSyncJob settings jobId) {} := by
  have hclose : ∀ accountId log, Safe (localStep jobId) discipline (fun _ => Left)
      (fun _ => Left) (closeWith accountId (.blocked log)) (resting .refused accountId false {}) := by
    intro accountId log
    refine (closeWith_spec .refused .refused { closed := true } (w := .blocked log)
      (fun _ => rfl) (fun _ => rfl) (fun _ => rfl)).post ?_ (fun _ _ _ h => h)
    rintro _ l - rfl
    exact ⟨(by rintro ⟨⟩), (by rintro ⟨⟩)⟩
  apply Safe.bind
  apply local_op (o := .view) (l := {}) (tidy_of_nil rfl) trivial
  · intro db
    simp only [Local.next, if_true, Local.read]
    cases hjob : db.syncJobs.get? jobId with
    | none => exact ⟨tidy_of_nil rfl, tidy_of_nil rfl, (by rintro ⟨⟩), (by rintro ⟨⟩)⟩
    | some job =>
        dsimp only
        cases haccount : db.accounts.get? job.accountId with
        | none => exact ⟨tidy_of_nil rfl, hclose _ _⟩
        | some account =>
            dsimp only
            cases hrefusal : refusal db account with
            | some reason => exact ⟨tidy_of_nil rfl, hclose _ reason⟩
            | none =>
                refine ⟨tidy_of_nil rfl, ?_⟩
                refine quiet_bind (o := .validateHost account.imapHost)
                  (l := resting .checked job.accountId false {}) rfl resting_tidy
                  (fun refused => ?_) (by rintro ⟨⟩)
                cases refused with
                | some error =>
                    refine (closeWith_spec .checked .leaving { closed := true }
                      (w := .hostBlocked error) (fun _ => rfl) (fun _ => rfl) (fun _ => rfl)).post ?_ (fun _ _ _ h => h)
                    rintro _ l - rfl
                    exact ⟨(by rintro ⟨⟩), (by rintro ⟨⟩)⟩
                | none =>
                    apply Safe.bind
                    refine (closeWith_spec .checked .setup { started := true } (w := .start)
                      (fun _ => rfl) (fun _ => rfl) (fun _ => rfl)).post ?_ (fun _ _ _ h => h)
                    rintro _ l hl rfl
                    exact runStarted_spec settings
  · rintro ⟨⟩

end MailFallback
