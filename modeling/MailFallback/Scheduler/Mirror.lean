import MailFallback.Library.Transition
import MailFallback.Scheduler.Semantics
import Mathlib.Data.List.TakeWhile

/-! # The periodic syncs mirror the accounts -/

namespace MailFallback

open Storage PyString

variable {T : Type*} {cron : CronTrigger T} {existing : List String} {jobs jobs' : Jobs T}
  {rows : List (Id × Account)} {accountId : Id} {account : Account}

/-! ## What the accounts table asks for -/

/-- The trigger of a schedule, where the reader of the cron fields accepts it. -/
def fromCrontab (cron : CronTrigger T) (schedule : String) : Option T :=
  match split schedule with
  | [minute, hour, day, month, dayOfWeek] => (cron minute hour day month dayOfWeek).toOption
  | _ => none

/-- The trigger of an account's periodic sync, if it is to have one. -/
def Account.trigger? (cron : CronTrigger T) (account : Account) : Option T :=
  if account.suspended = false ∧ account.isAuthenticated = true then
    account.syncSchedule.bind (fromCrontab cron)
  else none

/-- Five fields that the reader of the cron fields raises on. -/
def refuses (cron : CronTrigger T) (schedule : String) : Bool :=
  match split schedule with
  | [minute, hour, day, month, dayOfWeek] => !(cron minute hour day month dayOfWeek).toBool
  | _ => false

/-- The schedule of the account ends the loop over the accounts. -/
def Account.rejected (cron : CronTrigger T) (account : Account) : Bool :=
  !account.suspended && account.isAuthenticated && account.syncSchedule.any (refuses cron)

/-- The trigger of the periodic sync of an account. -/
def Jobs.trigger? (jobs : Jobs T) (accountId : Id) : Option T :=
  (jobs.get? (syncJobId accountId)).map ScheduledJob.trigger

/-- The account has the periodic sync its row asks for, and no other. -/
def MirroredAt (cron : CronTrigger T) (accounts : Table Id Account) (jobs : Jobs T)
    (accountId : Id) : Prop :=
  jobs.trigger? accountId = (accounts.get? accountId).bind (Account.trigger? cron)

def Mirrors (cron : CronTrigger T) (accounts : Table Id Account) (jobs : Jobs T) : Prop :=
  ∀ accountId, MirroredAt cron accounts jobs accountId

/-- The accounts the loop gets to: those before the first one that ends it. -/
def reached (cron : CronTrigger T) (accounts : Table Id Account) : List (Id × Account) :=
  (accounts.rows.filter fun row => !row.2.suspended).takeWhile fun row => !row.2.rejected cron

/-- No account the loop gets to has a periodic sync left over that its row does not ask for,
and where the loop ends early the accounts it does not get to are right already. -/
def LeftRight (cron : CronTrigger T) (accounts : Table Id Account) (jobs : Jobs T) : Prop :=
  (∀ row ∈ reached cron accounts, row.2.trigger? cron = none → jobs.trigger? row.1 = none) ∧
    ((∃ row ∈ accounts.rows, row.2.rejected cron = true) →
      ∀ accountId, accountId ∉ (reached cron accounts).map Prod.fst →
        MirroredAt cron accounts jobs accountId)

/-! ## Job ids -/

theorem syncJobId_injective : Function.Injective syncJobId := by
  intro a b h
  have hlists : syncPrefix.toList ++ a.toList = syncPrefix.toList ++ b.toList := by
    rw [← String.toList_append, ← String.toList_append]
    exact congrArg String.toList h
  exact String.toList_injective (List.append_cancel_left hlists)

@[simp] theorem syncJobId_inj {a b : Id} : syncJobId a = syncJobId b ↔ a = b :=
  syncJobId_injective.eq_iff

@[simp] theorem isSyncJobId_syncJobId (accountId : Id) : isSyncJobId (syncJobId accountId) = true := by
  simp [isSyncJobId, syncJobId]

/-! ## One account -/

theorem rejected_iff (hsuspended : account.suspended = false) :
    account.rejected cron = true ↔
      account.isAuthenticated = true ∧ ∃ schedule, account.syncSchedule = some schedule ∧
        refuses cron schedule = true := by
  simp [Account.rejected, hsuspended, Option.any_eq_true]

variable (existing jobs accountId) in
/-- A schedule the reader of the cron fields raises on ends the loop. -/
theorem scheduleAccount_rejected (hsuspended : account.suspended = false)
    (h : account.rejected cron = true) :
    ∃ message, scheduleAccount cron existing jobs accountId account =
      .error (.valueError message) := by
  obtain ⟨hauth, schedule, hschedule, hrefuses⟩ := (rejected_iff hsuspended).mp h
  have hgiven : given account.syncSchedule = true := by
    by_cases hempty : schedule = ""
    · subst hempty
      rw [refuses, split_empty] at hrefuses
      cases hrefuses
    · simp [given, hschedule, hempty]
  unfold refuses at hrefuses
  unfold scheduleAccount
  rw [hauth, hgiven, hschedule]
  split at hrefuses
  · rename_i minute hour day month dayOfWeek hfields
    simp only [Option.getD_some, hfields]
    cases hcron : cron minute hour day month dayOfWeek with
    | error message => exact ⟨message, by simp⟩
    | ok trigger => simp [hcron, Except.toBool] at hrefuses
  · cases hrefuses

/-- What the body of the loop does to the job store where it does not raise: an account whose
schedule is not accepted keeps the job it has. -/
structure Scheduled (cron : CronTrigger T) (accountId : Id) (account : Account)
    (jobs jobs' : Jobs T) : Prop where
  own : jobs'.trigger? accountId = (account.trigger? cron).or (jobs.trigger? accountId)
  others : ∀ j, j ≠ syncJobId accountId → jobs'.get? j = jobs.get? j

theorem Scheduled.skipped (h : account.trigger? cron = none) :
    Scheduled cron accountId account jobs jobs where
  own := by simp [h]
  others := fun _ _ => rfl

theorem Scheduled.put {trigger : T} (h : account.trigger? cron = some trigger)
    (hown : ∃ job, jobs'.get? (syncJobId accountId) = some job ∧ job.trigger = trigger)
    (hothers : ∀ j, j ≠ syncJobId accountId → jobs'.get? j = jobs.get? j) :
    Scheduled cron accountId account jobs jobs' where
  own := by
    obtain ⟨job, hjob, htrigger⟩ := hown
    simp [Jobs.trigger?, h, hjob, htrigger]
  others := hothers

variable (accountId) in
theorem scheduleAccount_spec (hsuspended : account.suspended = false)
    (hrejected : account.rejected cron = false)
    (hexisting : ∀ j ∈ existing, (jobs.get? j).isSome = true) :
    ∃ jobs', scheduleAccount cron existing jobs accountId account = .ok jobs' ∧
      Scheduled cron accountId account jobs jobs' := by
  unfold scheduleAccount
  by_cases hauth : account.isAuthenticated = true
  swap
  · rw [Bool.not_eq_true] at hauth
    refine ⟨jobs, by simp [hauth], .skipped ?_⟩
    simp [Account.trigger?, hauth]
  cases hschedule : account.syncSchedule with
  | none =>
      refine ⟨jobs, by simp [given, hauth], .skipped ?_⟩
      simp [Account.trigger?, hschedule]
  | some schedule =>
      have htrigger : account.trigger? cron = fromCrontab cron schedule := by
        simp [Account.trigger?, hsuspended, hauth, hschedule]
      by_cases hempty : schedule = ""
      · subst hempty
        refine ⟨jobs, by simp [given, hauth], .skipped ?_⟩
        rw [htrigger, fromCrontab, split_empty]
      · have hgiven : given (some schedule) = true := by simp [given, hempty]
        have hrefuses : refuses cron schedule = false := by
          simpa [Account.rejected, hsuspended, hauth, hschedule] using hrejected
        unfold refuses at hrefuses
        unfold fromCrontab at htrigger
        rw [hauth, hgiven]
        split at hrefuses
        · rename_i minute hour day month dayOfWeek hfields
          simp only [hfields, Option.getD_some] at htrigger ⊢
          cases hcron : cron minute hour day month dayOfWeek with
          | error message => simp [hcron, Except.toBool] at hrefuses
          | ok trigger =>
              rw [hcron] at htrigger
              by_cases hmem : syncJobId accountId ∈ existing
              · obtain ⟨job, hjob⟩ := Option.isSome_iff_exists.mp (hexisting _ hmem)
                refine ⟨jobs.modify (syncJobId accountId) fun job => { job with trigger },
                  by simp [hmem, rescheduleJob, hjob], .put htrigger ?_ ?_⟩
                · exact ⟨{ job with trigger }, by simp [hjob], rfl⟩
                · intro j hj
                  exact Table.get?_modify_of_ne jobs _ hj
              · refine ⟨addJob jobs (syncJobId accountId) ⟨.runScheduledSync, trigger, [accountId]⟩,
                  by simp [hmem], .put htrigger ?_ ?_⟩
                · exact ⟨⟨.runScheduledSync, trigger, [accountId]⟩,
                    by simp [addJob, Table.get?_set], rfl⟩
                · intro j hj
                  simp [addJob, Table.get?_set, hj]
        · rename_i hfields
          refine ⟨jobs, ?_, .skipped ?_⟩
          · simp only [Bool.true_eq_false, if_false, Option.getD_some]
          · simp only [htrigger]

/-! ## The loop over the accounts -/

theorem scheduleAccounts_spec (hexisting : ∀ j ∈ existing, (jobs.get? j).isSome = true)
    (hsuspended : ∀ row ∈ rows, row.2.suspended = false) (hnodup : (rows.map Prod.fst).Nodup) :
    (∀ row ∈ rows.takeWhile fun row => !row.2.rejected cron,
        (scheduleAccounts cron existing rows jobs).jobs.trigger? row.1 =
          (row.2.trigger? cron).or (jobs.trigger? row.1)) ∧
      (∀ j, (∀ row ∈ rows.takeWhile fun row => !row.2.rejected cron, j ≠ syncJobId row.1) →
        (scheduleAccounts cron existing rows jobs).jobs.get? j = jobs.get? j) ∧
      (scheduleAccounts cron existing rows jobs).raised.isSome =
        rows.any fun row => row.2.rejected cron := by
  induction rows generalizing jobs with
  | nil => simp [scheduleAccounts]
  | cons row rows ih =>
      obtain ⟨accountId, account⟩ := row
      have hlive : account.suspended = false := hsuspended _ List.mem_cons_self
      by_cases hrejected : account.rejected cron = true
      · obtain ⟨message, hraised⟩ := scheduleAccount_rejected existing jobs accountId hlive hrejected
        simp [scheduleAccounts, hraised, hrejected]
      · rw [Bool.not_eq_true] at hrejected
        obtain ⟨jobs', hok, hstep⟩ := scheduleAccount_spec accountId hlive hrejected hexisting
        rw [List.map_cons, List.nodup_cons] at hnodup
        have hexisting' : ∀ j ∈ existing, (jobs'.get? j).isSome = true := by
          intro j hj
          by_cases hown : j = syncJobId accountId
          · subst hown
            have hbefore := hexisting _ hj
            have hsome : (jobs'.trigger? accountId).isSome = true := by
              rw [hstep.own, Option.isSome_or]
              simp [Jobs.trigger?, hbefore]
            simpa [Jobs.trigger?] using hsome
          · rw [hstep.others j hown]
            exact hexisting j hj
        obtain ⟨hdone, hframe, hraised⟩ := ih hexisting'
          (fun row hrow => hsuspended row (List.mem_cons_of_mem _ hrow)) hnodup.2
        have hother : ∀ row ∈ rows.takeWhile fun row => !row.2.rejected cron,
            row.1 ≠ accountId := by
          intro row hrow heq
          have hmem := List.mem_map_of_mem (f := Prod.fst) ((List.takeWhile_sublist _).subset hrow)
          exact hnodup.1 (heq ▸ hmem)
        simp only [scheduleAccounts, hok, List.any_cons, hrejected, Bool.false_or]
        rw [List.takeWhile_cons_of_pos (by simp [hrejected])]
        refine ⟨?_, ?_, hraised⟩
        · intro row hrow
          rcases List.mem_cons.mp hrow with rfl | hrow
          · rw [← hstep.own]
            unfold Jobs.trigger?
            rw [hframe]
            intro row hrow heq
            exact hother row hrow (syncJobId_injective heq).symm
          · rw [hdone row hrow]
            unfold Jobs.trigger?
            rw [hstep.others _ (by simpa using hother row hrow)]
        · intro j hj
          rw [hframe j fun row hrow => hj row (List.mem_cons_of_mem _ hrow)]
          exact hstep.others j (hj _ List.mem_cons_self)

/-! ## The jobs that are taken out -/

theorem removeJobs_spec {stale : List String} (hnodup : stale.Nodup)
    (hthere : ∀ j ∈ stale, (jobs.get? j).isSome = true) :
    (removeJobs stale jobs).raised = none ∧
      ∀ j, (removeJobs stale jobs).jobs.get? j = if j ∈ stale then none else jobs.get? j := by
  induction stale generalizing jobs with
  | nil => simp [removeJobs]
  | cons jobId stale ih =>
      rw [List.nodup_cons] at hnodup
      obtain ⟨job, hjob⟩ := Option.isSome_iff_exists.mp (hthere jobId List.mem_cons_self)
      have hremoved : removeJob jobs jobId = .ok (jobs.filter fun k _ => decide (k ≠ jobId)) := by
        simp [removeJob, hjob]
      have hkept : ∀ j, (jobs.filter fun k _ => decide (k ≠ jobId)).get? j =
          if j = jobId then none else jobs.get? j := by
        intro j
        rw [Table.get?_filter]
        by_cases hj : j = jobId
        · simp [hj]
        · cases hget : jobs.get? j <;> simp [hj, Option.filter]
      have hthere' : ∀ j ∈ stale,
          ((jobs.filter fun k _ => decide (k ≠ jobId)).get? j).isSome = true := by
        intro j hj
        have hne : j ≠ jobId := by
          rintro rfl
          exact hnodup.1 hj
        rw [hkept, if_neg hne]
        exact hthere j (List.mem_cons_of_mem _ hj)
      obtain ⟨hraised, hrest⟩ := ih hnodup.2 hthere'
      simp only [removeJobs, hremoved]
      refine ⟨hraised, ?_⟩
      intro j
      rw [hrest, hkept]
      by_cases hj : j = jobId
      · simp [hj]
      · simp [hj]

variable (jobs jobs') in
/-- The jobs of accounts that are not active go; none of them was touched before. -/
theorem removeStale_get? (active : List String)
    (hgone : ∀ j, j ∉ active → jobs'.get? j = jobs.get? j) (accountId : Id) :
    (removeJobs ((jobs.keys.filter fun jobId => !active.contains jobId).filter isSyncJobId)
        jobs').jobs.get? (syncJobId accountId) =
      if syncJobId accountId ∈ active then jobs'.get? (syncJobId accountId) else none := by
  have hnodup : ((jobs.keys.filter fun jobId => !active.contains jobId).filter
      isSyncJobId).Nodup := (jobs.nodup.filter _).filter _
  have hthere : ∀ j ∈ (jobs.keys.filter fun jobId => !active.contains jobId).filter isSyncJobId,
      (jobs'.get? j).isSome = true := by
    intro j hj
    obtain ⟨hj, -⟩ := List.mem_filter.mp hj
    obtain ⟨hkey, hinactive⟩ := List.mem_filter.mp hj
    rw [hgone j (by simpa using hinactive)]
    exact Option.isSome_iff_exists.mpr (Table.mem_keys.mp hkey)
  rw [(removeJobs_spec hnodup hthere).2]
  by_cases hactive : syncJobId accountId ∈ active
  · simp [List.mem_filter, hactive]
  · cases hjob : jobs.get? (syncJobId accountId) with
    | none => simp [hactive, hgone _ hactive, hjob]
    | some job => simp [List.mem_filter, Table.mem_keys, hactive, hjob]

/-! ## The whole call -/

variable {accounts : Table Id Account}

theorem live_nodup : ((accounts.rows.filter fun row => !row.2.suspended).map Prod.fst).Nodup :=
  accounts.nodup.sublist (List.filter_sublist.map _)

theorem mem_live {accountId : Id} {account : Account} :
    (accountId, account) ∈ (accounts.rows.filter fun row => !row.2.suspended) ↔
      accounts.get? accountId = some account ∧ account.suspended = false := by
  simp [List.mem_filter, Table.mem_rows]

theorem mem_reached_live {row : Id × Account} (h : row ∈ reached cron accounts) :
    accounts.get? row.1 = some row.2 ∧ row.2.suspended = false :=
  mem_live.mp ((List.takeWhile_sublist _).subset h)

theorem any_rejected_live :
    ((accounts.rows.filter fun row => !row.2.suspended).any fun row => row.2.rejected cron) =
      accounts.rows.any fun row => row.2.rejected cron := by
  rw [List.any_filter]
  congr 1
  funext row
  cases hsuspended : row.2.suspended <;> simp [Account.rejected, hsuspended]

theorem reached_all (h : accounts.rows.any (fun row => row.2.rejected cron) = false) :
    reached cron accounts = accounts.rows.filter fun row => !row.2.suspended := by
  rw [reached, List.takeWhile_eq_self_iff]
  intro row hrow
  have hmem := (List.mem_filter.mp hrow).1
  rw [List.any_eq_false] at h
  simpa using h row hmem

variable (cron accounts jobs) in
/-- What a call makes of the periodic sync of an account, row or no row. -/
theorem syncSchedulerJobs_spec :
    (∀ row ∈ reached cron accounts,
        (syncSchedulerJobs cron accounts jobs).jobs.trigger? row.1 =
          (row.2.trigger? cron).or (jobs.trigger? row.1)) ∧
      ∀ accountId, accountId ∉ (reached cron accounts).map Prod.fst →
        (syncSchedulerJobs cron accounts jobs).jobs.trigger? accountId =
          if accounts.rows.any (fun row => row.2.rejected cron) then jobs.trigger? accountId
          else none := by
  have hexisting : ∀ j ∈ jobs.keys, (jobs.get? j).isSome = true := by
    intro j hj
    exact Option.isSome_iff_exists.mpr (Table.mem_keys.mp hj)
  have hframe' : ∀ accountId, accountId ∉ (reached cron accounts).map Prod.fst →
      ∀ row ∈ reached cron accounts, syncJobId accountId ≠ syncJobId row.1 := by
    intro accountId haccount row hrow heq
    rw [syncJobId_injective heq] at haccount
    exact haccount (List.mem_map_of_mem hrow)
  obtain ⟨hdone, hframe, hraised⟩ := scheduleAccounts_spec hexisting
    (fun row hrow => (mem_live.mp hrow).2) live_nodup
  rw [any_rejected_live] at hraised
  unfold syncSchedulerJobs
  cases hpass : (scheduleAccounts cron jobs.keys
      (accounts.rows.filter fun row => !row.2.suspended) jobs).raised with
  | some raised =>
      rw [hpass, Option.isSome_some] at hraised
      simp only [hpass]
      refine ⟨hdone, ?_⟩
      intro accountId haccount
      rw [← hraised, if_pos rfl]
      unfold Jobs.trigger?
      rw [hframe _ (hframe' accountId haccount)]
  | none =>
      rw [hpass, Option.isSome_none] at hraised
      simp only [hpass]
      have hall := reached_all hraised.symm
      have hstale := removeStale_get? jobs (scheduleAccounts cron jobs.keys
          (accounts.rows.filter fun row => !row.2.suspended) jobs).jobs
        ((accounts.rows.filter fun row => !row.2.suspended).map fun row => syncJobId row.1) (by
          intro j hj
          refine hframe j fun row hrow heq => ?_
          exact hj (List.mem_map.mpr ⟨row, (List.takeWhile_sublist _).subset hrow, heq.symm⟩))
      refine ⟨?_, ?_⟩
      · intro row hrow
        rw [← hdone row hrow]
        unfold Jobs.trigger?
        rw [hall] at hrow
        rw [hstale, if_pos (List.mem_map_of_mem hrow)]
      · intro accountId haccount
        have hinactive : syncJobId accountId ∉
            (accounts.rows.filter fun row => !row.2.suspended).map fun row => syncJobId row.1 := by
          intro h
          obtain ⟨row, hrow, heq⟩ := List.mem_map.mp h
          exact hframe' accountId haccount row (hall ▸ hrow) heq.symm
        rw [← hraised]
        unfold Jobs.trigger?
        rw [hstale, if_neg hinactive]
        rfl

/-- A call leaves the periodic syncs the accounts table asks for in exactly these cases. -/
theorem mirrors_iff (cron : CronTrigger T) (accounts : Table Id Account) (jobs : Jobs T) :
    Mirrors cron accounts (syncSchedulerJobs cron accounts jobs).jobs ↔
      LeftRight cron accounts jobs := by
  obtain ⟨hreached, hothers⟩ := syncSchedulerJobs_spec cron jobs accounts
  constructor
  · intro h
    refine ⟨?_, ?_⟩
    · intro row hrow hnone
      have hafter := h row.1
      rw [MirroredAt, hreached row hrow, (mem_reached_live hrow).1, hnone] at hafter
      simpa [hnone] using hafter
    · intro hstopped accountId haccount
      have hafter := h accountId
      rw [MirroredAt, hothers accountId haccount, if_pos (by simpa using hstopped)] at hafter
      exact hafter
  · intro h accountId
    obtain ⟨hleft, hstopped⟩ := h
    by_cases haccount : accountId ∈ (reached cron accounts).map Prod.fst
    · obtain ⟨row, hrow, rfl⟩ := List.mem_map.mp haccount
      rw [MirroredAt, hreached row hrow, (mem_reached_live hrow).1, Option.bind_some]
      cases htrigger : row.2.trigger? cron with
      | none => rw [Option.none_or, hleft row hrow htrigger]
      | some trigger => rfl
    · rw [MirroredAt, hothers accountId haccount]
      by_cases hrejected : accounts.rows.any (fun row => row.2.rejected cron) = true
      · rw [if_pos hrejected]
        exact hstopped (by simpa using hrejected) accountId haccount
      · rw [if_neg hrejected]
        have hall := reached_all (Bool.not_eq_true _ ▸ hrejected)
        cases haccount' : accounts.get? accountId with
        | none => rfl
        | some account =>
            have hsuspended : account.suspended = true := by
              by_contra hlive
              have hmem := mem_live.mpr ⟨haccount', Bool.not_eq_true _ ▸ hlive⟩
              exact haccount (List.mem_map.mpr ⟨_, hall ▸ hmem, rfl⟩)
            simp [Account.trigger?, hsuspended]

/-! ## One call after another -/

/-- A call, with the accounts table it meets. -/
def call (cron : CronTrigger T) (jobs : Jobs T) (accounts : Table Id Account) : Option (Jobs T) :=
  some (syncSchedulerJobs cron accounts jobs).jobs

/-- The job stores that calls leave, each with an accounts table of its own. -/
def LeftByCalls (cron : CronTrigger T) (jobs : Jobs T) : Prop :=
  Transition.Reaches (call cron) (fun _ _ => True) .empty jobs

/-- Every periodic sync is about the account its id names. -/
def OwnJobs (jobs : Jobs T) : Prop :=
  ∀ accountId job, jobs.get? (syncJobId accountId) = some job →
    job.func = .runScheduledSync ∧ job.args = [accountId]

theorem scheduleAccount_cases (h : scheduleAccount cron existing jobs accountId account = .ok jobs') :
    jobs' = jobs ∨ ∃ trigger,
      jobs' = jobs.modify (syncJobId accountId) (fun job => { job with trigger }) ∨
        jobs' = addJob jobs (syncJobId accountId) ⟨.runScheduledSync, trigger, [accountId]⟩ := by
  have hkept : ∀ k : Jobs T, Except.ok k = Except.ok (ε := SchedulerExc) jobs' → jobs' = k := by
    intro k hk
    exact (Except.ok.inj hk).symm
  unfold scheduleAccount at h
  split at h
  · exact .inl (hkept _ h)
  split at h
  · exact .inl (hkept _ h)
  split at h
  · split at h
    · cases h
    · rename_i trigger _
      split at h
      · unfold rescheduleJob at h
        split at h
        · exact .inr ⟨trigger, .inl (hkept _ h)⟩
        · cases h
      · exact .inr ⟨trigger, .inr (hkept _ h)⟩
  · exact .inl (hkept _ h)

theorem OwnJobs.scheduleAccount (hown : OwnJobs jobs)
    (h : scheduleAccount cron existing jobs accountId account = .ok jobs') : OwnJobs jobs' := by
  intro accountId' job hjob
  rcases scheduleAccount_cases h with rfl | ⟨trigger, rfl | rfl⟩
  · exact hown accountId' job hjob
  · by_cases heq : accountId' = accountId
    · subst heq
      rw [Table.get?_modify_self, Option.map_eq_some_iff] at hjob
      obtain ⟨before, hbefore, rfl⟩ := hjob
      exact hown accountId' before hbefore
    · rw [Table.get?_modify_of_ne _ _ (by simpa using heq)] at hjob
      exact hown accountId' job hjob
  · rw [addJob, Table.get?_set] at hjob
    by_cases heq : accountId' = accountId
    · subst heq
      rw [if_pos rfl] at hjob
      obtain rfl := Option.some.inj hjob
      exact ⟨rfl, rfl⟩
    · rw [if_neg (by simpa using heq)] at hjob
      exact hown accountId' job hjob

theorem OwnJobs.scheduleAccounts (hown : OwnJobs jobs) :
    OwnJobs (scheduleAccounts cron existing rows jobs).jobs := by
  induction rows generalizing jobs with
  | nil => exact hown
  | cons row rows ih =>
      obtain ⟨accountId, account⟩ := row
      simp only [MailFallback.scheduleAccounts]
      cases hstep : MailFallback.scheduleAccount cron existing jobs accountId account with
      | error raised => exact hown
      | ok jobs' => exact ih (hown.scheduleAccount hstep)

theorem OwnJobs.removeJobs {stale : List String} (hown : OwnJobs jobs) :
    OwnJobs (removeJobs stale jobs).jobs := by
  induction stale generalizing jobs with
  | nil => exact hown
  | cons jobId stale ih =>
      simp only [MailFallback.removeJobs]
      cases hstep : removeJob jobs jobId with
      | error raised => exact hown
      | ok jobs' =>
          refine ih fun accountId job hjob => ?_
          unfold removeJob at hstep
          split at hstep
          · obtain rfl := Except.ok.inj hstep
            rw [Table.get?_filter, Option.filter_eq_some_iff] at hjob
            exact hown accountId job hjob.1
          · cases hstep

theorem OwnJobs.syncSchedulerJobs {accounts : Table Id Account} (hown : OwnJobs jobs) :
    OwnJobs (syncSchedulerJobs cron accounts jobs).jobs := by
  unfold MailFallback.syncSchedulerJobs
  dsimp only
  split
  · exact hown.scheduleAccounts
  · exact hown.scheduleAccounts.removeJobs

theorem LeftByCalls.ownJobs (h : LeftByCalls cron jobs) : OwnJobs jobs := by
  refine Transition.Reaches.invariant h (fun accountId job hjob => ?_) fun jobs accounts jobs' => ?_
  · rw [Table.get?_empty] at hjob
    cases hjob
  · intro hown _ hcall
    obtain rfl := Option.some.inj hcall
    exact hown.syncSchedulerJobs

/-! ### Schedules that are cleared, and schedules that are out of range -/

def sampleCron : CronTrigger (List String) := fun minute hour day month dayOfWeek =>
  if minute = "99" then .error "out of range" else .ok [minute, hour, day, month, dayOfWeek]

def hourly : Table Id Account :=
  ⟨[("a", { maildirPath := "", storeId := "", syncSchedule := some "0 * * * *" })], by decide⟩

def cleared : Table Id Account :=
  ⟨[("a", { maildirPath := "", storeId := "", syncSchedule := some "" })], by decide⟩

def outOfRangeFirst : Table Id Account :=
  ⟨[("a", { maildirPath := "", storeId := "", syncSchedule := some "99 * * * *" }),
    ("b", { maildirPath := "", storeId := "", syncSchedule := some "0 * * * *" })], by decide⟩

def afterHourly : Jobs (List String) := (syncSchedulerJobs sampleCron hourly .empty).jobs

theorem afterHourly_left : LeftByCalls sampleCron afterHourly :=
  .step .refl trivial rfl

/-- A cleared schedule keeps its job, and a bad one keeps the others from theirs. -/
theorem not_mirrors_of_cleared_of_rejected :
    (LeftByCalls sampleCron afterHourly ∧
      ¬ Mirrors sampleCron cleared (syncSchedulerJobs sampleCron cleared afterHourly).jobs) ∧
    ¬ Mirrors sampleCron outOfRangeFirst
        (syncSchedulerJobs sampleCron outOfRangeFirst .empty).jobs := by
  refine ⟨⟨afterHourly_left, ?_⟩, ?_⟩
  · intro h
    have hjob := h "a"
    revert hjob
    unfold MirroredAt
    decide
  · intro h
    have hjob := h "b"
    revert hjob
    unfold MirroredAt
    decide

end MailFallback
