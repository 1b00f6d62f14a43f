import MailFallback.Sync.StraightLine

/-! # What a sync run tells in the end

Along the straight line the job and its account become what one closing assignment makes of
them. -/

namespace MailFallback

open Storage Effects SyncTask

variable {jobId accountId : Id} {auth : AuthType} {α β : Type} {s s' : Attempt × SyncLog}

/-- The run is on, and nothing is told of its end. -/
structure Begun (jobId accountId : Id) (auth : AuthType) (s : Attempt × SyncLog) : Prop where
  job : ∃ j, (rows jobId s).syncJobs.get? jobId = some j ∧ j.status = .running ∧
    j.failureKind = none ∧ given j.signal = false
  account : ∃ a, (rows jobId s).accounts.get? accountId = some a ∧ a.isAuthenticated = true ∧
    a.authType = auth
  silent : ∀ w ∈ writes s.2, w.closes = false

/-- The processes have ended, with this output and perhaps by a signal. -/
structure Collected (jobId accountId : Id) (output : String) (signalled : Bool)
    (s : Attempt × SyncLog) : Prop where
  job : ∃ j, (rows jobId s).syncJobs.get? jobId = some j ∧ j.failureKind = none ∧
    j.log = some output ∧ given j.signal = signalled
  account : ∃ a, (rows jobId s).accounts.get? accountId = some a ∧ a.isAuthenticated = true
  silent : ∀ w ∈ writes s.2, w.closes = false

/-- The only closing assignment, and the rows, unless they are gone. -/
structure Told (jobId accountId : Id) (w : Write) (j : SyncJob) (a : Account)
    (s : Attempt × SyncLog) : Prop where
  fits : w.Fits j a
  kind : j.failureKind = none
  authenticated : a.isAuthenticated = true
  written : w ∈ writes s.2
  only : ∀ w' ∈ writes s.2, w'.closes = true → w' = w
  job : ∀ job, (rows jobId s).syncJobs.get? jobId = some job → job = w.job j
  account : ∀ account, (rows jobId s).accounts.get? accountId = some account →
    account = w.account a

def Concluded (jobId accountId : Id) (s : Attempt × SyncLog) : Prop :=
  ∃ w j a, Told jobId accountId w j a s

theorem Begun.congr (h : Begun jobId accountId auth s) (hrows : rows jobId s' = rows jobId s)
    (hwrites : writes s'.2 = writes s.2) : Begun jobId accountId auth s' := by
  constructor
  · rw [hrows]
    exact h.job
  · rw [hrows]
    exact h.account
  · rw [hwrites]
    exact h.silent

theorem Begun.frame (h : Begun jobId accountId auth s) (hframe : Frame s s') :
    Begun jobId accountId auth s' :=
  h.congr hframe.rows hframe.writes

theorem Collected.frame {output : String} {signalled : Bool}
    (h : Collected jobId accountId output signalled s) (hframe : Frame s s') :
    Collected jobId accountId output signalled s' := by
  constructor
  · rw [hframe.rows]
    exact h.job
  · rw [hframe.rows]
    exact h.account
  · rw [hframe.writes]
    exact h.silent

theorem Concluded.congr (h : Concluded jobId accountId s) (hrows : rows jobId s' = rows jobId s)
    (hwrites : writes s'.2 = writes s.2) : Concluded jobId accountId s' := by
  obtain ⟨w, j, a, h⟩ := h
  refine ⟨w, j, a, h.fits, h.kind, h.authenticated, ?_, ?_, ?_, ?_⟩
  · rw [hwrites]
    exact h.written
  · rw [hwrites]
    exact h.only
  · rw [hrows]
    exact h.job
  · rw [hrows]
    exact h.account

theorem Concluded.frame (h : Concluded jobId accountId s) (hframe : Frame s s') :
    Concluded jobId accountId s' :=
  h.congr hframe.rows hframe.writes

/-! ## What an assignment does to the rows -/

theorem apply_job (w : Write) (db : Db) :
    (w.apply jobId accountId db).syncJobs.get? jobId = (db.syncJobs.get? jobId).map w.job := by
  simp [Write.apply]

theorem apply_account (w : Write) (db : Db) :
    (w.apply jobId accountId db).accounts.get? accountId =
      (db.accounts.get? accountId).map w.account := by
  simp [Write.apply]

/-- The closing assignment. -/
theorem concluded_of_apply {w : Write} {j : SyncJob} {a : Account} (hfits : w.Fits j a)
    (hjob : (rows jobId s).syncJobs.get? jobId = some j) (hkind : j.failureKind = none)
    (haccount : (rows jobId s).accounts.get? accountId = some a)
    (hauthenticated : a.isAuthenticated = true) (hopen : ∀ w ∈ writes s.2, w.closes = false)
    (hrows : rows jobId s' = w.apply jobId accountId (rows jobId s))
    (hwrites : writes s'.2 = writes s.2 ++ [w]) : Concluded jobId accountId s' := by
  refine ⟨w, j, a, hfits, hkind, hauthenticated, ?_, ?_, ?_, ?_⟩
  · rw [hwrites]
    exact List.mem_append_right _ (List.mem_singleton_self w)
  · intro w' hw' hcloses
    rw [hwrites, List.mem_append, List.mem_singleton] at hw'
    cases hw' with
    | inl h =>
        rw [hopen w' h] at hcloses
        cases hcloses
    | inr h => exact h
  · intro job hfound
    rw [hrows, apply_job, hjob] at hfound
    exact (Option.some.inj hfound).symm
  · intro account hfound
    rw [hrows, apply_account, haccount] at hfound
    exact (Option.some.inj hfound).symm

/-- Credentials and totals say nothing of the end. -/
theorem begun_stage {w : Write} (h : Begun jobId accountId auth s) (hneutral : w.neutral = true) :
    Straight jobId (fun _ s' => Begun jobId accountId auth s') (SyncTask.stage accountId w) s := by
  refine .stage fun hexcluded s' hrows hwrites => ?_
  obtain ⟨j, hjob, hj⟩ := h.job
  obtain ⟨a, haccount, ha⟩ := h.account
  constructor
  · refine ⟨j, ?_, hj⟩
    rw [hrows, apply_job, hjob, Option.map_some, Write.job_of_neutral _ _ hneutral]
  · refine ⟨w.account a, ?_, ?_⟩
    · rw [hrows, apply_account, haccount, Option.map_some]
    · cases w with
      | credentials value =>
          have hvalue : value ≠ "" := of_decide_eq_false hexcluded
          exact ⟨by simp [Write.account, Account.isAuthenticated, given, hvalue], ha.2⟩
      | totals messages folders => exact ha
      | _ => cases hneutral
  · intro w' hw'
    rw [hwrites, List.mem_append, List.mem_singleton] at hw'
    cases hw' with
    | inl hw' => exact h.silent w' hw'
    | inr hw' =>
        rw [hw']
        exact w.closes_of_neutral hneutral

theorem begun_commit (h : Begun jobId accountId auth s) :
    Straight jobId (fun _ s' => Begun jobId accountId auth s') SyncTask.commit s :=
  .commit fun _ hrows _ hwrites => h.congr hrows hwrites

/-! ## The ending of a run -/

/-- Any of the endings after the output was collected. -/
theorem collected_stage {w : Write} {output : String} {signalled : Bool}
    (h : Collected jobId accountId output signalled s)
    (hfits : ∀ j a, j.log = some output → given j.signal = signalled → w.Fits j a) :
    Straight jobId (fun _ s' => Concluded jobId accountId s') (SyncTask.stage accountId w) s := by
  refine .stage fun _ s' hrows hwrites => ?_
  obtain ⟨j, hjob, hkind, hlog, hsignal⟩ := h.job
  obtain ⟨a, haccount, ha⟩ := h.account
  exact concluded_of_apply (hfits j a hlog hsignal) hjob hkind haccount ha h.silent hrows hwrites

theorem pauseFor_concluded {output kind : String} {signalled : Bool}
    (resume : Time → ℕ → Time → Time) (h : Collected jobId accountId output signalled s)
    (hkind : kind = "throttled" ∨ kind = "transient") :
    Straight jobId (fun _ s' => Concluded jobId accountId s') (pauseFor accountId kind resume) s := by
  refine .bind (.still rfl rfl fun time s₁ h₁ _ => ?_)
  refine .bind (.still rfl rfl fun today s₂ h₂ _ => ?_)
  refine .bind (.still rfl rfl fun db s₃ h₃ _ => ?_)
  refine .bind (.still rfl rfl fun jitter s₄ h₄ _ => ?_)
  have hlast := (((h.frame h₁).frame h₂).frame h₃).frame h₄
  exact collected_stage hlast fun j a _ _ => .inr hkind

/-- The old jobs are removed; this one may be among them. -/
theorem cleanup_concluded (h : Concluded jobId accountId s) (hstaged : s.1.l.staged = []) :
    Straight jobId (fun _ s' => Concluded jobId accountId s')
      ((SyncTask.cleanupOldJobs accountId).handle fun _ => pure ()) s := by
  refine ⟨trivial, trivial, fun r s' hstep => ?_⟩
  obtain ⟨hattempt, hlog⟩ := Machine.logged_eq hstep
  obtain ⟨hlocal, hsession⟩ := attemptStep_eq hattempt
  have hstaged' : s'.1.l.staged = [] := by
    rw [localStep_eq hlocal, ← hstaged]
    cases r <;> rfl
  have hwrites : writes s'.2 = writes s.2 := by
    rw [hlog, writes_append]
    exact List.append_nil _
  cases r with
  | error e =>
      refine ⟨trivial, .inr (h.congr ?_ hwrites)⟩
      rw [rows, rows, hstaged, hstaged', Option.some.inj hsession]
  | ok a =>
      have hdb : s'.1.db = cleanupOldJobs 150 accountId s.1.db := (Option.some.inj hsession).symm
      have hrows : rows jobId s' = cleanupOldJobs 150 accountId (rows jobId s) := by
        rw [rows, rows, hstaged, hstaged', hdb]
        rfl
      obtain ⟨w, j, a, h⟩ := h
      refine ⟨trivial, .inr ⟨w, j, a, h.fits, h.kind, h.authenticated, ?_, ?_, ?_, ?_⟩⟩
      · rw [hwrites]
        exact h.written
      · rw [hwrites]
        exact h.only
      · intro job hjob
        rw [hrows] at hjob
        simp only [cleanupOldJobs, Table.get?_filter, Option.filter_eq_some_iff] at hjob
        exact h.job job hjob.1
      · rw [hrows]
        exact h.account

theorem capMessage_ne (cap : String) :
    "Sync exceeded the " ++ cap ++ "s runtime cap" ≠ tokenRefreshFailedText := by
  intro h
  have hhead := congrArg (fun s : String => s.toList.head?) h
  simp [tokenRefreshFailedText] at hhead

theorem conclude_concluded (account : Account) (code : Option ℤ) (output : String)
    (budgetStopped : Bool) (signal : Option String)
    (houtput : output ≠ tokenRefreshFailedText)
    (h : Collected jobId accountId output (given signal) s) :
    Straight jobId (fun _ s' => Concluded jobId accountId s')
      (conclude account accountId code output budgetStopped signal) s := by
  refine .bind (.still rfl rfl fun cap s₁ h₁ _ => ?_)
  refine .bind (.still rfl rfl fun parsed s₂ h₂ _ => ?_)
  have h := (h.frame h₁).frame h₂
  split
  · refine .bind (.still rfl rfl fun time s₃ h₃ _ => ?_)
    refine .bind ((collected_stage (h.frame h₃)
      fun j a _ _ => show Write.Fits j a (.completed time) from trivial).mono ?_)
    intro _ s₄ h₄
    refine .bind (.commit fun s₅ hrows hstaged hwrites => ?_)
    exact cleanup_concluded (h₄.congr hrows hwrites) hstaged
  · split
    · refine .bind (.still rfl rfl fun time s₃ h₃ _ => ?_)
      refine .bind (.still rfl rfl fun jitter s₄ h₄ _ => ?_)
      exact collected_stage ((h.frame h₃).frame h₄) fun _ _ _ _ => .inl rfl
    · split
      · rename_i hsignal
        cases cap with
        | some cap => exact collected_stage h fun _ _ _ _ => capMessage_ne cap
        | none =>
            refine collected_stage h fun j _ hlog hgiven => ⟨?_, hlog, houtput⟩
            rw [hgiven, hsignal]
      · split
        · exact pauseFor_concluded _ h (.inl rfl)
        · exact pauseFor_concluded _ h (.inr rfl)
        · exact collected_stage h fun _ _ hlog _ => ⟨hlog, houtput⟩

theorem finalise_concluded (account : Account) (code : Option ℤ) (output : String)
    (logPath : Option String) (budgetStopped : Bool) (h : Begun jobId accountId auth s) :
    Straight jobId (fun _ s' => Concluded jobId accountId s')
      (finalise account accountId code output logPath budgetStopped) s := by
  refine .bind (.still rfl rfl fun time s₁ h₁ _ => ?_)
  have h := h.frame h₁
  refine .bind (.stage fun hexcluded s₂ hrows hwrites => ?_)
  have houtput : output ≠ tokenRefreshFailedText := of_decide_eq_false hexcluded
  obtain ⟨j, hjob, -, hkind, hsignal⟩ := h.job
  obtain ⟨a, haccount, ha, -⟩ := h.account
  have hopen : ∀ w ∈ writes s₂.2, w.closes = false := by
    intro w hw
    rw [hwrites, List.mem_append, List.mem_singleton] at hw
    cases hw with
    | inl hw => exact h.silent w hw
    | inr hw =>
        rw [hw]
        rfl
  have hjob' : (rows jobId s₂).syncJobs.get? jobId =
      some (Write.job (.result code output logPath time) j) := by
    rw [hrows, apply_job, hjob]
    rfl
  have haccount' : (rows jobId s₂).accounts.get? accountId = some a := by
    rw [hrows, apply_account, haccount]
    rfl
  refine .bind (.still rfl rfl fun signal s₃ h₃ _ => ?_)
  cases signal with
  | none =>
      refine conclude_concluded account code output budgetStopped none houtput ⟨?_, ?_, ?_⟩
      · rw [h₃.rows]
        exact ⟨_, hjob', hkind, rfl, hsignal⟩
      · rw [h₃.rows]
        exact ⟨a, haccount', ha⟩
      · rw [h₃.writes]
        exact hopen
  | some name =>
      refine .bind (.stage fun _ s₄ hrows' hwrites' => ?_)
      refine conclude_concluded account code output budgetStopped (some name) houtput ⟨?_, ?_, ?_⟩
      · refine ⟨Write.job (.signal name) (Write.job (.result code output logPath time) j), ?_,
          hkind, rfl, rfl⟩
        rw [hrows', apply_job, h₃.rows, hjob']
        rfl
      · refine ⟨a, ?_, ha⟩
        rw [hrows', apply_account, h₃.rows, haccount']
        rfl
      · intro w hw
        rw [hwrites', h₃.writes, List.mem_append, List.mem_singleton] at hw
        cases hw with
        | inl hw => exact hopen w hw
        | inr hw =>
            rw [hw]
            rfl

theorem runSampled_concluded (account : Account) (count : ℕ) (h : Begun jobId accountId auth s) :
    Straight jobId (fun _ s' => Concluded jobId accountId s')
      (runSampled account accountId jobId count) s := by
  refine .bind (.still rfl rfl fun logToDisk s₁ h₁ _ => ?_)
  refine .bind (.still rfl rfl fun _ s₂ h₂ _ => ?_)
  have h := (h.frame h₁).frame h₂
  refine .bind (.calm (.ensure (calm_runAndRetry account count logToDisk)
    (calm_endRuns logToDisk)) fun result s₃ h₃ => ?_)
  obtain ⟨code, output⟩ := result
  have h := h.frame h₃
  refine .bind (.still rfl rfl fun budgetStopped s₄ h₄ _ => ?_)
  have h := h.frame h₄
  refine .bind (.still rfl rfl fun (job : SyncJob) s₅ h₅ hsession => ?_)
  obtain ⟨j, hjob, hrunning, -⟩ := h.job
  have hread : job = j := by
    simp only [session] at hsession
    split at hsession
    · rename_i hfound
      exact Option.some.inj (hfound.symm.trans hjob)
    · cases hsession
  have hstatus : job.status = .running := by rw [hread, hrunning]
  rw [if_pos hstatus]
  exact finalise_concluded account code output _ budgetStopped (h.frame h₅)

theorem runJob_concluded (account : Account) (h : Begun jobId accountId auth s) :
    Straight jobId (fun _ s' => Concluded jobId accountId s')
      (runJob account accountId jobId) s := by
  refine .bind (.still rfl rfl fun _ s₁ h₁ _ => ?_)
  split
  · refine .bind (.still rfl rfl fun excluded s₂ h₂ _ => ?_)
    exact runSampled_concluded account _ ((h.frame h₁).frame h₂)
  · exact runSampled_concluded account 1 (h.frame h₁)

/-! ## The whole run -/

/-- The rows tell of the end, and are committed. -/
def Settled (jobId accountId : Id) (s : Attempt × SyncLog) : Prop :=
  Concluded jobId accountId s ∧ s.1.l.staged = []

theorem dropToken_settled (tokenWritten : Bool) (h : Concluded jobId accountId s) :
    Straight jobId (fun _ s' => Settled jobId accountId s') (dropToken tokenWritten) s := by
  have hcommit : ∀ {s : Attempt × SyncLog}, Concluded jobId accountId s →
      Straight jobId (fun _ s' => Settled jobId accountId s') SyncTask.commit s :=
    fun h => .commit fun _ hrows hstaged hwrites => ⟨h.congr hrows hwrites, hstaged⟩
  cases tokenWritten with
  | false => exact hcommit h
  | true =>
      refine .bind (.still rfl rfl fun there s₁ h₁ _ => ?_)
      split
      · exact .bind (.still rfl rfl fun _ s₂ h₂ _ => hcommit ((h.frame h₁).frame h₂))
      · exact hcommit (h.frame h₁)

theorem cleanUp_settled (settings : SyncSettings) (configWritten tokenWritten : Bool)
    (h : Concluded jobId accountId s) :
    Straight jobId (fun _ s' => Settled jobId accountId s')
      (cleanUp settings configWritten tokenWritten) s := by
  refine .bind (.still rfl rfl fun _ s₁ h₁ _ => ?_)
  split
  · exact .bind (.still rfl rfl fun _ s₂ h₂ _ =>
      dropToken_settled tokenWritten ((h.frame h₁).frame h₂))
  · exact dropToken_settled tokenWritten (h.frame h₁)

theorem runGuarded_settled (settings : SyncSettings) (account : Account) (content : String)
    (tokenWritten : Bool) (h : Begun jobId accountId auth s) :
    Straight jobId (fun _ s' => Settled jobId accountId s')
      (runGuarded settings account accountId jobId content tokenWritten) s := by
  have hwritten : Straight jobId (fun failure s' => failure = none ∧ Begun jobId accountId auth s')
      ((do
        SyncTask.writeConfig content
        pure (none : Option SyncExc)).handle fun e => pure (some e)) s :=
    .handle (.bind (.still rfl rfl fun _ s₁ h₁ _ => .pure ⟨rfl, h.frame h₁⟩))
  refine .bind (hwritten.mono ?_)
  intro failure s₁ h₁
  rw [h₁.1]
  refine .ensure (.handle ?_)
  exact (runJob_concluded account h₁.2).mono fun _ s₂ h₂ =>
    cleanUp_settled settings true tokenWritten h₂

/-- The job has been closed, or the set-up goes on. -/
def Underway (jobId accountId : Id) (auth : AuthType) {α : Type} (a : Option α)
    (s : Attempt × SyncLog) : Prop :=
  match a with
  | none => Settled jobId accountId s
  | some _ => Begun jobId accountId auth s

theorem refuse_settled {terminal : Bool} (h : Begun jobId accountId .oauth2 s) :
    Straight jobId (fun _ s' => Settled jobId accountId s')
      (closeWith accountId (.tokenRefreshFailed terminal)) s := by
  refine .closeWith fun time _ s' hrows hstaged hwrites => ⟨?_, hstaged⟩
  obtain ⟨j, hjob, -, hkind, hsignal⟩ := h.job
  obtain ⟨a, haccount, ha, hauth⟩ := h.account
  have hfits : Write.Fits j a (.tokenRefreshFailed terminal time) := ⟨hauth, hsignal⟩
  exact concluded_of_apply hfits hjob hkind haccount ha h.silent hrows hwrites

/-- An assignment that says nothing of the end, and its commit. -/
theorem begun_save {w : Write} {p : SyncTask β} {Q : β → Attempt × SyncLog → Prop}
    (h : Begun jobId accountId auth s) (hneutral : w.neutral = true)
    (hp : ∀ s', Begun jobId accountId auth s' → Straight jobId Q p s') :
    Straight jobId Q (Prog.bind (SyncTask.stage accountId w) fun _ =>
      Prog.bind SyncTask.commit fun _ => p) s := by
  refine .bind ((begun_stage h hneutral).mono fun _ s₁ h₁ => ?_)
  exact .bind ((begun_commit h₁).mono fun _ s₂ h₂ => hp s₂ h₂)

theorem oauthToken_underway (credentials : String) (h : Begun jobId accountId .oauth2 s) :
    Straight jobId (fun token s' => Underway jobId accountId .oauth2 token s')
      (oauthToken accountId credentials) s := by
  refine .bind (.still rfl rfl fun (refreshed : Refreshed) s₁ h₁ _ => ?_)
  have h := h.frame h₁
  cases refreshed with
  | rejected terminal =>
      exact .bind ((refuse_settled h).mono fun _ s₂ h₂ => .pure h₂)
  | token accessToken stored =>
      refine begun_save h rfl fun s₂ h₂ => ?_
      split
      · exact .bind ((refuse_settled h₂).mono fun _ s₃ h₃ => .pure h₃)
      · exact .pure h₂

theorem authenticate_underway (account : Account) (hauth : account.authType = auth)
    (h : Begun jobId accountId auth s) :
    Straight jobId (fun written s' => Underway jobId accountId auth written s')
      (authenticate accountId account) s := by
  unfold authenticate
  split
  · refine .bind (.still rfl rfl fun (decrypted : String × Option String) s₁ h₁ _ => ?_)
    obtain ⟨credentials, upgraded⟩ := decrypted
    have hrest : ∀ s', Begun jobId accountId auth s' →
        Straight jobId (fun written s' => Underway jobId accountId auth written s')
          (authenticateWith accountId account credentials) s' := by
      intro s' h'
      unfold authenticateWith
      split
      · rename_i hoauth
        rw [hauth] at hoauth
        rw [hoauth] at h' ⊢
        refine .bind ((oauthToken_underway credentials h').mono fun token s₂ h₂ => ?_)
        cases token with
        | none => exact .pure h₂
        | some token =>
            exact .bind (.still rfl rfl fun _ s₃ h₃ _ => .pure (Begun.frame h₂ h₃))
      · exact .pure h'
    have h := h.frame h₁
    cases upgraded with
    | some stored => exact begun_save h rfl hrest
    | none => exact hrest s₁ h
  · exact .pure h

/-- The totals are assigned, or the failure to have them is swallowed. -/
theorem statusPass_begun (h : Begun jobId accountId auth s) :
    Straight jobId (fun _ s' => Begun jobId accountId auth s') (statusPass accountId) s := by
  refine ⟨trivial, trivial, fun r s' hstep => ?_⟩
  have h := h.frame (frame_of_still rfl hstep)
  cases r with
  | error e => exact Straight.pure h
  | ok counts =>
      change Option (ℕ × ℕ) at counts
      cases counts with
      | none => exact Straight.pure h
      | some counts =>
          obtain ⟨messages, folders⟩ := counts
          change Straight jobId _ (Prog.handle
            (Prog.bind (SyncTask.stage accountId (.totals messages folders)) fun _ => commit) _) s'
          exact .handle (.bind ((begun_stage h rfl).mono fun _ s₂ h₂ => begun_commit h₂))

theorem prepareConfig_begun (h : Begun jobId accountId auth s) :
    Straight jobId (fun _ s' => Begun jobId accountId auth s') (prepareConfig accountId) s := by
  refine .bind (.still rfl rfl fun account s₁ h₁ _ => ?_)
  split
  · refine .bind ((statusPass_begun (h.frame h₁)).mono fun _ s₂ h₂ => ?_)
    refine .bind (.still rfl rfl fun account s₃ h₃ _ => ?_)
    refine .bind (.still rfl rfl fun extra s₄ h₄ _ => ?_)
    exact .bind (.still rfl rfl fun content s₅ h₅ _ =>
      .pure (((h₂.frame h₃).frame h₄).frame h₅))
  · exact .bind (.still rfl rfl fun content s₂ h₂ _ => .pure ((h.frame h₁).frame h₂))

theorem runStarted_settled (settings : SyncSettings) (h : Begun jobId accountId auth s) :
    Straight jobId (fun _ s' => Settled jobId accountId s') (runStarted settings accountId jobId)
      s := by
  refine .bind (.still rfl rfl fun (account : Account) s₁ h₁ hsession => ?_)
  obtain ⟨a, haccount, -, hauth⟩ := h.account
  have hread : account = a := by
    simp only [session] at hsession
    split at hsession
    · rename_i hfound
      exact Option.some.inj (hfound.symm.trans haccount)
    · cases hsession
  have hauth : account.authType = auth := by rw [hread, hauth]
  refine .bind ((authenticate_underway account hauth (h.frame h₁)).mono fun written s₂ h₂ => ?_)
  cases written with
  | none => exact .pure h₂
  | some tokenWritten =>
      refine .bind ((prepareConfig_begun h₂).mono fun prepared s₃ h₃ => ?_)
      exact runGuarded_settled settings prepared.1 prepared.2 tokenWritten h₃

/-- The run was not started. -/
def Declined (s : Attempt × SyncLog) : Prop := ∀ w ∈ writes s.2, w.isStart = false

/-- A refusal that says nothing of a start. -/
theorem closeWith_declined {w : Time → Write} (h : writes s.2 = [])
    (hw : ∀ time, (w time).isStart = false) :
    Straight jobId (fun _ s' => Declined s' ∨ Settled jobId accountId s') (closeWith accountId w)
      s := by
  refine .closeWith fun time _ s' _ _ hwrites => .inl fun w' hw' => ?_
  rw [hwrites, h, List.nil_append, List.mem_singleton] at hw'
  rw [hw']
  exact hw time

/-- What the checks before the start let through is authenticated. -/
theorem isAuthenticated_of_refusal {db : Db} {account : Account} (h : refusal db account = none) :
    account.isAuthenticated = true := by
  unfold refusal at h
  split at h
  · cases h
  · split at h
    · cases h
    · rename_i hauthenticated
      simpa using hauthenticated

theorem executeSyncJob_settled (settings : SyncSettings) {db : Db} {requestedAt : Time}
    (hjob : db.syncJobs.get? jobId = some (newJob accountId requestedAt)) :
    Straight jobId (fun _ s' => Declined s' ∨ Settled jobId accountId s')
      (executeSyncJob settings jobId) ({ db := db }, []) := by
  refine .bind (.still rfl rfl fun (read : Db) s₁ h₁ hsession => ?_)
  have hread : read = db := by
    simp only [session] at hsession
    split at hsession
    · rename_i hpending
      exact hpending
    · cases hsession
  have hwrites : writes s₁.2 = [] := h₁.writes
  rw [hread, hjob]
  dsimp only [newJob]
  cases haccount : db.accounts.get? accountId with
  | none => exact closeWith_declined hwrites fun _ => rfl
  | some account =>
      dsimp only
      cases hrefusal : refusal db account with
      | some reason => exact closeWith_declined hwrites fun _ => rfl
      | none =>
          refine .bind (.still rfl rfl fun (refused : Option String) s₂ h₂ _ => ?_)
          cases refused with
          | some error => exact closeWith_declined (h₂.writes.trans hwrites) fun _ => rfl
          | none =>
              have hrows : rows jobId s₂ = db := (h₂.rows.trans h₁.rows).trans rfl
              refine .bind (.closeWith fun time _ s₃ hrows₃ _ hwrites₃ => ?_)
              have hbegun : Begun jobId accountId account.authType s₃ := by
                constructor
                · refine ⟨Write.job (.start time) (newJob accountId requestedAt), ?_, rfl, rfl, rfl⟩
                  rw [hrows₃, apply_job, hrows, hjob, Option.map_some]
                · refine ⟨Write.account (.start time) account, ?_, ?_, rfl⟩
                  · rw [hrows₃, apply_account, hrows, haccount, Option.map_some]
                  · exact isAuthenticated_of_refusal hrefusal
                · intro w hw
                  rw [hwrites₃, h₂.writes, hwrites, List.nil_append, List.mem_singleton] at hw
                  rw [hw]
                  rfl
              exact (runStarted_settled settings hbegun).mono fun _ _ h => .inr h

/-- A run along the straight line that was started ends with its one closing assignment. -/
theorem straight_line_told (settings : SyncSettings) {db : Db} {requestedAt : Time}
    (hjob : db.syncJobs.get? jobId = some (newJob accountId requestedAt)) {log : SyncLog}
    {p' : SyncTask Unit} {s' : Attempt}
    (hrun : Run (attemptStep jobId) (executeSyncJob settings jobId) { db := db } log p' s')
    (hfinished : p'.finished = true) (hstarted : ∃ now, .start now ∈ writes log)
    (hstraight : ¬ s'.l.record.Astray) (hproduced : ∀ w ∈ writes log, w.excluded = false) :
    ∃ w j a, w.Fits j a ∧ j.failureKind = none ∧ a.isAuthenticated = true ∧ w ∈ writes log ∧
      (∀ w' ∈ writes log, w'.closes = true → w' = w) ∧
      (∀ job, s'.db.syncJobs.get? jobId = some job → job = w.job j) ∧
      ∀ account, s'.db.accounts.get? accountId = some account → account = w.account a := by
  have hend : Safe (attemptStep jobId).logged .free
      (fun _ s => Astray s ∨ Declined s ∨ Settled jobId accountId s)
      (fun _ s => Astray s ∨ Declined s ∨ Settled jobId accountId s) p' (s', [] ++ log) :=
    Safe.run (Safe.post (executeSyncJob_settled settings hjob) (fun _ _ _ h => h)
      fun _ _ _ h => .inl h) (hrun.logged [])
  rw [List.nil_append] at hend
  rcases hend.finished hfinished with (hraised | ⟨w, hw, hexcluded⟩) | hdeclined | hsettled
  · exact absurd hraised hstraight
  · rw [hproduced w hw] at hexcluded
    cases hexcluded
  · obtain ⟨now, hstart⟩ := hstarted
    cases hdeclined _ hstart
  · obtain ⟨⟨w, j, a, htold⟩, hstaged⟩ := hsettled
    have hrows : rows jobId (s', log) = s'.db := by
      rw [rows, hstaged]
      rfl
    have hjobs := htold.job
    have haccounts := htold.account
    rw [hrows] at hjobs haccounts
    exact ⟨w, j, a, htold.fits, htold.kind, htold.authenticated, htold.written, htold.only, hjobs,
      haccounts⟩

end MailFallback
