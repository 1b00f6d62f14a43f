import MailFallback.Sync.Session
import MailFallback.Sync.Discipline

/-! # How one attempt to sync ends

A worker alone with the database: no other actor writes while it runs, and every operation
may raise wherever the source lets it raise. -/

namespace MailFallback

open Storage Effects

structure Attempt where
  db : Db
  l : Local := {}

def attemptStep (jobId : Id) : Machine SyncOp SyncAns SyncExc Attempt := fun o s r =>
  (localStep jobId o s.l r).bind fun l => (session jobId s.l s.db o r).map fun db => ⟨db, l⟩

/-- The job has ended, and its account is not left syncing. -/
def Terminal (jobId accountId : Id) (db : Db) : Prop :=
  (∀ job, db.syncJobs.get? jobId = some job → job.status = .completed ∨ job.status = .failed) ∧
    ∀ account, db.accounts.get? accountId = some account → account.syncState ≠ .syncing

def Stage.early : Stage → Bool
  | .fresh | .refused | .checked | .leaving => true
  | _ => false

def Stage.late : Stage → Bool
  | .setup | .signedOut | .trying | .collected | .finishing | .failing => true
  | _ => false

/-- A stage in which the worker has not yet closed its job. -/
def Stage.opened : Stage → Bool
  | .fresh | .checked | .setup | .trying | .collected => true
  | _ => false

/-- The rows agree with the record of the worker. -/
structure Attempt.Recorded (jobId accountId : Id) (s : Attempt) : Prop where
  account : ∀ a, s.l.account = some a → a = accountId
  opened : s.l.stage.opened = true → s.l.record.closed = false
  before : s.l.record.started = false → s.l.stage.early = true ∧
    ∃ job, s.db.syncJobs.get? jobId = some job ∧ job.accountId = accountId
  after : s.l.record.started = true → s.l.stage.late = true
  running : s.l.record.started = true → s.l.record.closed = false →
    ∃ job, s.db.syncJobs.get? jobId = some job ∧ job.status = .running
  terminal : s.l.record.started = true → s.l.record.closed = true →
    Terminal jobId accountId s.db

variable {jobId accountId : Id} {s s' : Attempt} {l l' : Local} {db db' : Db}

theorem attemptStep_eq {o : SyncOp} {r : Except SyncExc (SyncAns o)}
    (h : attemptStep jobId o s r = some s') :
    localStep jobId o s.l r = some s'.l ∧ session jobId s.l s.db o r = some s'.db := by
  obtain ⟨l, hl, hrest⟩ := Option.bind_eq_some_iff.mp h
  obtain ⟨db, hdb, rfl⟩ := Option.map_eq_some_iff.mp hrest
  exact ⟨hl, hdb⟩

theorem localStep_eq {o : SyncOp} {r : Except SyncExc (SyncAns o)}
    (h : localStep jobId o l r = some l') : l' = l.next jobId o r := by
  cases r with
  | ok a => exact (Option.some.inj h).symm
  | error e =>
      obtain ⟨-, h⟩ := Option.ite_none_right_eq_some.mp h
      exact (Option.some.inj h).symm

theorem ended_iff {status : JobStatus} :
    status.ended = true ↔ status = .completed ∨ status = .failed := by
  cases status <;> decide

/-- What the record does not speak of may change. -/
theorem Attempt.Recorded.congr (h : s.Recorded jobId accountId) (hdb : s'.db = s.db)
    (hstage : s'.l.stage = s.l.stage) (haccount : s'.l.account = s.l.account)
    (hstarted : s'.l.record.started = s.l.record.started)
    (hclosed : s'.l.record.closed = s.l.record.closed) : s'.Recorded jobId accountId := by
  obtain ⟨h₁, h₂, h₃, h₄, h₅, h₆⟩ := h
  constructor
  · rwa [haccount]
  · rwa [hstage, hclosed]
  · rwa [hstage, hstarted, hdb]
  · rwa [hstage, hstarted]
  · rwa [hstarted, hclosed, hdb]
  · rwa [hstarted, hclosed, hdb]

/-- Moving on within the part of the run before, or after, the start. -/
theorem Attempt.Recorded.move (h : s.Recorded jobId accountId) {stage : Stage}
    (hearly : s.l.stage.early = true → stage.early = true)
    (hlate : s.l.stage.late = true → stage.late = true)
    (hopened : stage.opened = true → s.l.stage.opened = true) :
    Attempt.Recorded jobId accountId ⟨s.db, { s.l with stage := stage }⟩ where
  account := h.account
  opened := fun hstage => h.opened (hopened hstage)
  before := fun hstarted => ⟨hearly (h.before hstarted).1, (h.before hstarted).2⟩
  after := fun hstarted => hlate (h.after hstarted)
  running := h.running
  terminal := h.terminal

theorem Attempt.Recorded.raise (h : s.Recorded jobId accountId) (part : Option Part) :
    Attempt.Recorded jobId accountId ⟨s.db, s.l.raise part⟩ := by
  have hearly : ∀ stage : Stage, stage.early = true → stage.raised.early = true := by
    intro stage
    cases stage <;> decide
  have hlate : ∀ stage : Stage, stage.late = true → stage.raised.late = true := by
    intro stage
    cases stage <;> decide
  have hopened : ∀ stage : Stage, stage.raised.opened = true → stage.opened = true := by
    intro stage
    cases stage <;> decide
  refine (h.move (hearly _) (hlate _) (hopened _)).congr rfl rfl rfl ?_ ?_
  · cases part with
    | none => rfl
    | some part => cases part <;> rfl
  · cases part with
    | none => rfl
    | some part => cases part <;> rfl

/-! ## Commits -/

/-- The start. -/
theorem Attempt.Recorded.commit_start (h : s.Recorded jobId accountId) (htidy : s.l.Tidy)
    (hstage : s.l.stage = .checked) :
    Attempt.Recorded jobId accountId
      ⟨pending jobId s.l.staged s.db, s.l.next jobId .commit (.ok ())⟩ := by
  have hclosed : s.l.record.closed = false := h.opened (by rw [hstage]; rfl)
  have hstarted : s.l.record.started = false := by
    by_contra hs
    have hlate := h.after (by simpa using hs)
    rw [hstage] at hlate
    cases hlate
  obtain ⟨-, job, hjob, hja⟩ := h.before hstarted
  have hjob' : (pending jobId s.l.staged s.db).syncJobs.get? jobId =
      some (jobAfter s.l.staged job) := by
    rw [pending_job, if_pos rfl, hjob]
    rfl
  rcases htidy.checked hstage with hnil | ⟨a, w, -, hstaged, ⟨now, rfl⟩ | ⟨error, now, rfl⟩⟩
  · constructor
    · exact h.account
    · simp [Local.next, Local.committed, hstage, hnil, Stage.opened]
    · intro _
      refine ⟨by simp [Local.next, Local.committed, hstage, hnil, Stage.early], _, hjob', ?_⟩
      simpa using hja
    all_goals simp [Local.next, Record.commit, hnil, hstarted]
  · constructor
    · exact h.account
    · simp [Local.next, Record.commit, hclosed, hstaged, Write.closes]
    · simp [Local.next, Record.commit, hstaged, Write.isStart]
    · simp [Local.next, Local.committed, hstage, hstaged, Write.isStart, Stage.late]
    · intro _ _
      refine ⟨_, hjob', ?_⟩
      rw [hstaged]
      rfl
    · simp [Local.next, Record.commit, hclosed, hstaged, Write.closes]
  · constructor
    · exact h.account
    · simp [Local.next, Local.committed, hstage, hstaged, Write.isStart, Stage.opened]
    · intro _
      refine ⟨by simp [Local.next, Local.committed, hstage, hstaged, Write.isStart, Stage.early],
        _, hjob', ?_⟩
      simpa using hja
    all_goals simp [Local.next, Record.commit, hstaged, hstarted, Write.isStart]

theorem Attempt.Recorded.commit_other (h : s.Recorded jobId accountId) (htidy : s.l.Tidy)
    (hstage : s.l.stage ≠ .checked) :
    Attempt.Recorded jobId accountId
      ⟨pending jobId s.l.staged s.db, s.l.next jobId .commit (.ok ())⟩ := by
  have hnostart := htidy.no_start hstage
  have hstage' : s.l.committed = s.l.stage := if_neg hstage
  have hstarted' : (s.l.record.commit s.l.staged).started = s.l.record.started := by
    have hany : s.l.staged.any (fun p => p.2.isStart) = false := by
      rw [List.any_eq_false]
      intro p hp
      rw [hnostart p hp]
      exact Bool.false_ne_true
    simp [Record.commit, hany]
  have haccounts : ∀ p ∈ s.l.staged, p.1 = accountId :=
    fun p hp => h.account _ (htidy.1 p hp).1
  constructor
  · exact h.account
  · intro hopened
    change s.l.committed.opened = true at hopened
    rw [hstage'] at hopened
    have hclosed := h.opened hopened
    have hneutral := htidy.no_closes (by
      cases hs : s.l.stage <;> rw [hs] at hopened hstage <;> simp_all [Stage.opened])
    change (s.l.record.closed || s.l.staged.any _) = false
    rw [hclosed, any_closes_of_neutral hneutral]
    rfl
  · intro hstarted
    change (s.l.record.commit s.l.staged).started = false at hstarted
    rw [hstarted'] at hstarted
    obtain ⟨hearly, job, hjob, hja⟩ := h.before hstarted
    refine ⟨?_, jobAfter s.l.staged job, ?_, ?_⟩
    · change s.l.committed.early = true
      rw [hstage']
      exact hearly
    · rw [pending_job, if_pos rfl, hjob]
      rfl
    · simpa using hja
  · intro hstarted
    change (s.l.record.commit s.l.staged).started = true at hstarted
    rw [hstarted'] at hstarted
    change s.l.committed.late = true
    rw [hstage']
    exact h.after hstarted
  · intro hstarted hclosed
    change (s.l.record.commit s.l.staged).started = true at hstarted
    rw [hstarted'] at hstarted
    obtain ⟨hclosed, hnone⟩ := Bool.or_eq_false_iff.mp hclosed
    obtain ⟨job, hjob, hrunning⟩ := h.running hstarted hclosed
    refine ⟨jobAfter s.l.staged job, ?_, ?_⟩
    · rw [pending_job, if_pos rfl, hjob]
      rfl
    · rw [(jobAfter_status job hnostart).2 hnone]
      exact hrunning
  · intro hstarted hclosed
    change (s.l.record.commit s.l.staged).started = true at hstarted
    rw [hstarted'] at hstarted
    have hrefused : s.l.stage ≠ .refused := by
      intro hrefused
      have hlate := h.after hstarted
      rw [hrefused] at hlate
      cases hlate
    have hblocked := htidy.no_blocked hrefused
    have hquiet : ∀ p ∈ s.l.staged, p.2.isStart = false ∧ p.2.isBlocked = false :=
      fun p hp => ⟨hnostart p hp, hblocked p hp⟩
    constructor
    · intro job' hjob'
      rw [pending_job, if_pos rfl] at hjob'
      obtain ⟨job, hjob, rfl⟩ := Option.map_eq_some_iff.mp hjob'
      apply ended_iff.mp
      apply (jobAfter_status job hnostart).1
      rcases Bool.or_eq_true_iff.mp hclosed with hc | hc
      · exact .inr (ended_iff.mpr ((h.terminal hstarted hc).1 job hjob))
      · exact .inl hc
    · intro account' haccount'
      rw [pending_account haccounts, if_pos rfl] at haccount'
      obtain ⟨account, haccount, rfl⟩ := Option.map_eq_some_iff.mp haccount'
      apply accountAfter_syncState account hquiet
      rcases Bool.or_eq_true_iff.mp hclosed with hc | hc
      · exact .inr ((h.terminal hstarted hc).2 account haccount)
      · exact .inl hc

/-! ## Runs -/

theorem session_quiet {o : SyncOp} {a : SyncAns o} (ho : o.quiet = true)
    (h : session jobId l db o (.ok a) = some db') : db' = db := by
  cases o with
  | reloadAccount accountId =>
      obtain ⟨-, h⟩ := Option.ite_none_right_eq_some.mp h
      exact (Option.some.inj h).symm
  | _ => first | exact (Option.some.inj h).symm | cases ho

theorem session_error {o : SyncOp} {e : SyncExc}
    (h : session jobId l db o (.error e) = some db') : db' = db := by
  cases o with
  | refreshJob =>
      obtain ⟨-, h⟩ := Option.ite_none_right_eq_some.mp h
      exact (Option.some.inj h).symm
  | _ => exact (Option.some.inj h).symm

theorem pending_of_nil (h : l.staged = []) : pending jobId l.staged db = db := by
  rw [h]
  rfl

theorem Attempt.Recorded.read (h : s.Recorded jobId accountId) (htidy : s.l.Tidy)
    (hfresh : s.l.stage = .fresh) :
    Attempt.Recorded jobId accountId ⟨s.db, s.l.read jobId (pending jobId s.l.staged s.db)⟩ := by
  have hnil : s.l.staged = [] := by
    apply List.eq_nil_iff_forall_not_mem.mpr
    intro p hp
    have hpermits := (htidy.1 p hp).2
    rw [hfresh] at hpermits
    cases hpermits
  rw [pending_of_nil hnil]
  have hstarted : s.l.record.started = false := by
    by_contra hs
    have hlate := h.after (by simpa using hs)
    rw [hfresh] at hlate
    cases hlate
  have hclosed : s.l.record.closed = false := h.opened (by rw [hfresh]; rfl)
  obtain ⟨-, job, hjob, rfl⟩ := h.before hstarted
  unfold Local.read
  rw [hjob]
  dsimp only
  split
  · constructor <;> simp [hstarted, hclosed, hjob, Stage.early, Stage.opened]
  · rename_i account _
    cases hrefusal : refusal s.db account with
    | some reason => constructor <;> simp [hstarted, hclosed, hjob, Stage.early, Stage.opened]
    | none => constructor <;> simp [hstarted, hclosed, hjob, Stage.early, Stage.opened]

theorem Attempt.Recorded.refresh (h : s.Recorded jobId accountId) (htidy : s.l.Tidy)
    (hstage : s.l.stage = .collected) {job : SyncJob}
    (hjob : (pending jobId s.l.staged s.db).syncJobs.get? jobId = some job) :
    job.status = .running := by
  have hclosed : s.l.record.closed = false := h.opened (by rw [hstage]; rfl)
  have hstarted : s.l.record.started = true := by
    by_contra hs
    have hearly := (h.before (by simpa using hs)).1
    rw [hstage] at hearly
    cases hearly
  obtain ⟨job', hjob', hrunning⟩ := h.running hstarted hclosed
  rw [pending_job, if_pos rfl, hjob'] at hjob
  obtain rfl := Option.some.inj hjob
  have hneutral := any_closes_of_neutral (htidy.no_closes (.inr (.inr (.inl hstage))))
  rw [(jobAfter_status job' (htidy.no_start (by rw [hstage]; exact nofun))).2 hneutral]
  exact hrunning

theorem Attempt.Recorded.cleanup (h : s.Recorded jobId accountId)
    (hstage : s.l.stage = .finishing) (hclosed : s.l.record.closed = true) (keep : ℕ) (a : Id) :
    Attempt.Recorded jobId accountId ⟨cleanupOldJobs keep a s.db, s.l⟩ := by
  have hstarted : s.l.record.started = true := by
    by_contra hs
    have hearly := (h.before (by simpa using hs)).1
    rw [hstage] at hearly
    cases hearly
  constructor
  · exact h.account
  · exact h.opened
  · intro hs
    exact absurd (hstarted.symm.trans hs) nofun
  · exact h.after
  · intro _ hc
    exact absurd (hclosed.symm.trans hc) nofun
  · intro _ _
    refine ⟨fun job hjob => ?_, (h.terminal hstarted hclosed).2⟩
    change (cleanupOldJobs keep a s.db).syncJobs.get? jobId = some job at hjob
    simp only [cleanupOldJobs, Table.get?_filter, Option.filter_eq_some_iff] at hjob
    exact (h.terminal hstarted hclosed).1 job hjob.1

/-- One operation keeps the rows and the record in agreement. -/
theorem attempt_step {o : SyncOp} {r : Except SyncExc (SyncAns o)}
    (h : s.Recorded jobId accountId) (htidy : s.l.Tidy) (hallow : s.l.allows o)
    (hstep : attemptStep jobId o s r = some s') : s'.Recorded jobId accountId := by
  obtain ⟨db', l'⟩ := s'
  obtain ⟨hl, hdb⟩ := attemptStep_eq hstep
  obtain rfl := localStep_eq hl
  cases r with
  | error e =>
      obtain rfl := session_error hdb
      by_cases hwrite : ∀ content, o ≠ .writeConfig content
      · rw [next_error hwrite]
        exact h.raise _
      · push Not at hwrite
        obtain ⟨content, rfl⟩ := hwrite
        have hmoved : Attempt.Recorded jobId accountId
            ⟨s.db, { s.l with stage := .failing }⟩ := by
          refine h.move ?_ (fun _ => rfl) (by rintro ⟨⟩)
          rw [hallow.1]
          rintro ⟨⟩
        exact hmoved.congr rfl rfl rfl rfl rfl
  | ok a =>
      by_cases hquiet : o.quiet = true
      · rw [next_quiet hquiet]
        exact h.congr (session_quiet hquiet hdb) rfl rfl rfl rfl
      · cases o with
        | view =>
            obtain ⟨rfl, hdb⟩ := Option.ite_none_right_eq_some.mp hdb
            obtain rfl := Option.some.inj hdb
            by_cases hfresh : s.l.stage = .fresh
            · simp only [Local.next, if_pos hfresh]
              exact h.read htidy hfresh
            · simp only [Local.next, if_neg hfresh]
              exact h
        | stage a w =>
            obtain rfl := Option.some.inj hdb
            exact h.congr rfl rfl rfl rfl rfl
        | commit =>
            obtain rfl := Option.some.inj hdb
            by_cases hstage : s.l.stage = .checked
            · exact h.commit_start htidy hstage
            · exact h.commit_other htidy hstage
        | refreshOauthToken credentials =>
            obtain rfl := Option.some.inj hdb
            simp only [Local.next]
            split
            · refine h.move ?_ (fun _ => rfl) (by rintro ⟨⟩)
              rw [hallow.1]
              rintro ⟨⟩
            · exact h
        | writeConfig content =>
            obtain rfl := Option.some.inj hdb
            refine h.move ?_ (fun _ => rfl) fun _ => by rw [hallow.1]; rfl
            rw [hallow.1]
            rintro ⟨⟩
        | spawn a => exact h.congr (Option.some.inj hdb).symm rfl rfl rfl rfl
        | wait => exact h.congr (Option.some.inj hdb).symm rfl rfl rfl rfl
        | waitBriefly => exact h.congr (Option.some.inj hdb).symm rfl rfl rfl rfl
        | kill => exact h.congr (Option.some.inj hdb).symm rfl rfl rfl rfl
        | takeBudgetStop => exact h.congr (Option.some.inj hdb).symm rfl rfl rfl rfl
        | stopSampler =>
            obtain rfl := Option.some.inj hdb
            refine h.move ?_ ?_ ?_
            all_goals
              split
              · rename_i htrying
                rw [htrying]
                decide
              · exact fun hs => hs
        | refreshJob =>
            obtain ⟨hjob, hdb⟩ := Option.ite_none_right_eq_some.mp hdb
            obtain rfl := Option.some.inj hdb
            simp only [Local.next, if_pos (h.refresh htidy hallow hjob)]
            refine h.move ?_ (fun _ => rfl) (by rintro ⟨⟩)
            rw [show s.l.stage = .collected from hallow]
            rintro ⟨⟩
        | cleanupOldJobs accountId =>
            obtain rfl := Option.some.inj hdb
            exact h.cleanup hallow.1 hallow.2.2.2 150 accountId
        | _ => exact absurd rfl hquiet

/-- The whole run of a worker. -/
theorem attempt_run {p p' : SyncTask Unit} {tr : List (Event SyncOp SyncAns SyncExc)}
    (h : s.Recorded jobId accountId)
    (hsafe : Safe (localStep jobId) discipline (fun _ => Left) (fun _ => Left) p s.l)
    (hrun : Run (attemptStep jobId) p s tr p' s') :
    s'.Recorded jobId accountId ∧
      Safe (localStep jobId) discipline (fun _ => Left) (fun _ => Left) p' s'.l := by
  induction hrun with
  | refl => exact ⟨h, hsafe⟩
  | step hstep _ ih =>
      exact ih (attempt_step h hsafe.1 hsafe.2.1 hstep)
        (hsafe.2.2 _ _ (attemptStep_eq hstep).1)

/-- A job that was committed as running ends, and its account is not left syncing, if and
only if no step of the set-up raises and the clean-up raises only after a run that was
committed as completed. -/
theorem terminal_iff_fine (settings : SyncSettings) (jobId : Id) (db : Db) (job : SyncJob)
    (hjob : db.syncJobs.get? jobId = some job) {tr : List (Event SyncOp SyncAns SyncExc)}
    {p' : SyncTask Unit} {s' : Attempt}
    (hrun : Run (attemptStep jobId) (executeSyncJob settings jobId) { db := db } tr p' s')
    (hfinished : p'.finished = true) (hstarted : s'.l.record.started = true) :
    Terminal jobId job.accountId s'.db ↔ s'.l.record.fine := by
  have hstart : Attempt.Recorded jobId job.accountId { db := db } :=
    ⟨nofun, fun _ => rfl, fun _ => ⟨rfl, job, hjob, rfl⟩, nofun, nofun, nofun⟩
  obtain ⟨hrecorded, hsafe⟩ := attempt_run hstart (executeSyncJob_disciplined settings jobId) hrun
  have hlate := hrecorded.after hstarted
  rcases (hsafe.finished hfinished).2 hstarted with hleaving | hfine
  · rw [hleaving] at hlate
    cases hlate
  · rw [← hfine]
    refine ⟨fun hterminal => ?_, hrecorded.terminal hstarted⟩
    by_contra hclosed
    obtain ⟨job', hjob', hrunning⟩ := hrecorded.running hstarted (by simpa using hclosed)
    rcases hterminal.1 job' hjob' with h | h <;> rw [hrunning] at h <;> cases h

/-- An account before its first sync, with a job for it. -/
def firstSync (extraConfig : Option String) : Db where
  accounts :=
    ⟨[("a1", { maildirPath := "/mail/a1", storeId := "s1", extraConfig := extraConfig })],
      List.nodup_singleton _⟩
  syncJobs := ⟨[("j1", { accountId := "a1", requestedAt := 0 })], by decide⟩

/-- A run on which nothing fails ends the job. -/
theorem terminal_of_ordinary_run : ∃ tr p' s',
    Run (attemptStep "j1") (executeSyncJob {} "j1") { db := firstSync none } tr p' s' ∧
      p'.finished = true ∧ Terminal "j1" "a1" s'.db := by
  have hend : (exec (attemptStep "j1") (fun o s => ordinary "j1" s.l s.db o) 60
      (executeSyncJob {} "j1") { db := firstSync none }).any (fun x =>
        x.1.finished && x.2.l.record.started &&
          decide (x.2.l.record.setupRaised = false ∧ x.2.l.record.cleanUpRaised = false)) = true := by
    decide
  obtain ⟨tr, p', s', hrun, h⟩ := exec_any hend
  simp only [Bool.and_eq_true, decide_eq_true_eq] at h
  obtain ⟨⟨hfinished, hstarted⟩, hsetup, hcleanUp⟩ := h
  refine ⟨tr, p', s', hrun, hfinished, ?_⟩
  exact (terminal_iff_fine {} "j1" (firstSync none) { accountId := "a1", requestedAt := 0 } rfl
    hrun hfinished hstarted).mpr ⟨hsetup, .inl hcleanUp⟩

/-- Extra configuration that is not JSON leaves the job running and the account syncing. -/
theorem not_terminal_of_bad_extra_config : ¬ ∀ (settings : SyncSettings) (jobId : Id) (db : Db)
    (job : SyncJob), db.syncJobs.get? jobId = some job →
      ∀ (tr : List (Event SyncOp SyncAns SyncExc)) (p' : SyncTask Unit) (s' : Attempt),
        Run (attemptStep jobId) (executeSyncJob settings jobId) { db := db } tr p' s' →
          p'.finished = true → s'.l.record.started = true →
            Terminal jobId job.accountId s'.db := by
  intro h
  have hend : (exec (attemptStep "j1")
      (fun o s => match o with
        | .gentleExtraConfig extra => .error (.error "Expecting property name enclosed in double quotes")
        | o => ordinary "j1" s.l s.db o) 60
      (executeSyncJob {} "j1") { db := firstSync (some "\x7b") }).any (fun x =>
        x.1.finished && x.2.l.record.started &&
          decide ((x.2.db.syncJobs.get? "j1").map (·.status) = some .running)) = true := by
    decide
  obtain ⟨tr, p', s', hrun, hend⟩ := exec_any hend
  simp only [Bool.and_eq_true, decide_eq_true_eq] at hend
  obtain ⟨⟨hfinished, hstarted⟩, hstatus⟩ := hend
  obtain ⟨job, hjob, hrunning⟩ := Option.map_eq_some_iff.mp hstatus
  have hterminal := h {} "j1" (firstSync (some "\x7b")) { accountId := "a1", requestedAt := 0 } rfl
    tr p' s' hrun hfinished hstarted
  rcases hterminal.1 job hjob with h | h <;> rw [hrunning] at h <;> cases h

end MailFallback
