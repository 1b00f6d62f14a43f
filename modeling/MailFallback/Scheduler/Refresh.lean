import MailFallback.Scheduler.Mirror

/-! # The scheduler over the life of a server

`start_scheduler` and `refresh_scheduler`: the three passes that make the job store follow the
tables, and the jobs that are always there. The triggers of the latter come from outside. -/

namespace MailFallback.Scheduling

open Storage PyString Transition

variable {T : Type*}

/-! ## The passes for backups -/

/-- What the scheduler reads of a `BackupPolicy`. -/
structure Policy where
  enabled : Bool := true
  schedule : String
  deriving DecidableEq, Repr

structure Repository where
  configBackupEnabled : Bool := false
  deriving DecidableEq, Repr

/-- The loop over the rows, each with the trigger of its schedule if it could be read. -/
def scheduleRows (pre : String) (func : JobFunc) (existing : List String) :
    List (Id × Option T) → Jobs T → Pass T
  | [], jobs => ⟨jobs, none⟩
  | (_, none) :: rows, jobs => scheduleRows pre func existing rows jobs
  | (id, some trigger) :: rows, jobs =>
      if pre ++ id ∈ existing then
        match rescheduleJob jobs (pre ++ id) trigger with
        | .ok jobs => scheduleRows pre func existing rows jobs
        | .error raised => ⟨jobs, some raised⟩
      else scheduleRows pre func existing rows (addJob jobs (pre ++ id) ⟨func, trigger, [id]⟩)

/-- A pass over the jobs whose ids begin with a text of their own. -/
def prefixedJobs (pre : String) (func : JobFunc) (rows : List (Id × Option T)) (jobs : Jobs T) :
    Pass T :=
  let existing := jobs.keys
  let pass := scheduleRows pre func existing rows jobs
  let active := rows.map fun row => pre ++ row.1
  match pass.raised with
  | some _ => pass
  | none => removeJobs (existing.filter fun jobId => startsWith jobId pre && !active.contains jobId)
      pass.jobs

def backupSchedulerJobs (cron : CronTrigger T) (policies : Table Id Policy) (jobs : Jobs T) : Pass T :=
  prefixedJobs "backup-" .runScheduledBackup
    ((policies.rows.filter fun row => row.2.enabled).map fun row =>
      (row.1, fromCrontab cron row.2.schedule)) jobs

/-- The triggers that do not depend on a row, by the function that is called. -/
abbrev Clock (T : Type*) := JobFunc → T

def configBackupSchedulerJobs (clock : Clock T) (repositories : Table Id Repository)
    (jobs : Jobs T) : Pass T :=
  prefixedJobs "config-backup-" .runScheduledConfigBackup
    ((repositories.rows.filter fun row => row.2.configBackupEnabled).map fun row =>
      (row.1, some (clock .runScheduledConfigBackup))) jobs

/-! ## The life of a server -/

structure Tables where
  accounts : Table Id Account := .empty
  policies : Table Id Policy := .empty
  repositories : Table Id Repository := .empty

/-- The three passes, one after the other; an exception ends them. -/
def passes (cron : CronTrigger T) (clock : Clock T) (tables : Tables) (jobs : Jobs T) : Pass T :=
  let synced := syncSchedulerJobs cron tables.accounts jobs
  match synced.raised with
  | some _ => synced
  | none =>
      let backed := backupSchedulerJobs cron tables.policies synced.jobs
      match backed.raised with
      | some _ => backed
      | none => configBackupSchedulerJobs clock tables.repositories backed.jobs

/-- The ids that `start_scheduler` looks for, with what it adds under them. -/
def fixedJobs : List (String × JobFunc) :=
  [("mount-cleanup", .runMountCleanup), ("staging-cleanup", .runStagingCleanup),
    ("pause-expiry", .runPauseExpiryTick), ("sync-watchdog", .runWatchdog),
    ("backup-watchdog", .runBackupWatchdog), ("stale-notify", .runStaleNotify)]

def fixedJob (clock : Clock T) (func : JobFunc) : ScheduledJob T := ⟨func, clock func, []⟩

def ensureJob (clock : Clock T) (jobs : Jobs T) (fixed : String × JobFunc) : Jobs T :=
  if jobs.keys.contains fixed.1 then jobs else addJob jobs fixed.1 (fixedJob clock fixed.2)

structure Server (T : Type*) where
  jobs : Jobs T := .empty
  running : Bool := false
  /-- Whether the last three passes came to their end, and the tables they met. -/
  passed : Option Tables := none
  /-- They were those of a refresh. -/
  refreshed : Bool := false

inductive Call where
  | start (tables : Tables)
  | refresh (tables : Tables)

def startScheduler (cron : CronTrigger T) (clock : Clock T) (tables : Tables) (s : Server T) :
    Server T :=
  let pass := passes cron clock tables s.jobs
  match pass.raised with
  | some _ => { s with jobs := pass.jobs, passed := none }
  | none => ⟨fixedJobs.foldl (ensureJob clock) pass.jobs, true, some tables, false⟩

def refreshScheduler (cron : CronTrigger T) (clock : Clock T) (tables : Tables) (s : Server T) :
    Server T :=
  if s.running = false then s
  else
    let pass := passes cron clock tables s.jobs
    match pass.raised with
    | some _ => { s with jobs := pass.jobs, passed := none }
    | none => ⟨pass.jobs, true, some tables, true⟩

/-- A server is started once; the job store is empty before. -/
def next (cron : CronTrigger T) (clock : Clock T) (s : Server T) : Call → Option (Server T)
  | .start tables => if s.running then none else some (startScheduler cron clock tables s)
  | .refresh tables => some (refreshScheduler cron clock tables s)

/-! ## What a pass leaves -/

variable {cron : CronTrigger T} {clock : Clock T} {pre : String} {func : JobFunc}
  {rows : List (Id × Option T)} {jobs : Jobs T} {j : String}

/-- The job of a row that has a trigger. -/
def scheduled (func : JobFunc) (id : Id) (trigger : T) (before : Option (ScheduledJob T)) :
    ScheduledJob T :=
  (before.map fun job => { job with trigger }).getD ⟨func, trigger, [id]⟩

/-- What is under an id after the loop over the rows. -/
def afterRows (pre : String) (func : JobFunc) (rows : List (Id × Option T)) (jobs : Jobs T)
    (j : String) : Option (ScheduledJob T) :=
  (rows.find? fun row => pre ++ row.1 = j).elim (jobs.get? j) fun row =>
    row.2.elim (jobs.get? j) fun trigger => some (scheduled func row.1 trigger (jobs.get? j))

theorem append_injective (pre : String) : Function.Injective (pre ++ · : String → String) := by
  intro a b h
  have hlist := congrArg String.toList h
  simp only [String.toList_append] at hlist
  exact String.toList_inj.mp (List.append_cancel_left hlist)

theorem rescheduleJob_of_isSome {trigger : T} (h : (jobs.get? j).isSome = true) :
    rescheduleJob jobs j trigger = .ok (jobs.modify j fun job => { job with trigger }) := by
  obtain ⟨job, hjob⟩ := Option.isSome_iff_exists.mp h
  simp [rescheduleJob, hjob]

variable (func) in
theorem scheduleRows_spec {existing : List String}
    (hexisting : ∀ row ∈ rows, (pre ++ row.1 ∈ existing ↔ (jobs.get? (pre ++ row.1)).isSome = true))
    (hnodup : (rows.map Prod.fst).Nodup) :
    (scheduleRows pre func existing rows jobs).raised = none ∧
      ∀ j, (scheduleRows pre func existing rows jobs).jobs.get? j =
        afterRows pre func rows jobs j := by
  induction rows generalizing jobs with
  | nil => exact ⟨rfl, fun _ => rfl⟩
  | cons row rows ih =>
      obtain ⟨id, trigger⟩ := row
      rw [List.map_cons, List.nodup_cons] at hnodup
      have hfresh : ∀ row ∈ rows, pre ++ row.1 ≠ pre ++ id := by
        intro row hrow heq
        exact hnodup.1 (List.mem_map.mpr ⟨row, hrow, append_injective pre heq⟩)
      have hnone : rows.find? (fun row => pre ++ row.1 = pre ++ id) = none := by
        rw [List.find?_eq_none]
        intro row hrow
        simpa using hfresh row hrow
      cases trigger with
      | none =>
          obtain ⟨hraised, hjobs⟩ := ih (fun row hrow => hexisting row (.tail _ hrow)) hnodup.2
          refine ⟨hraised, fun j => ?_⟩
          rw [scheduleRows, hjobs j]
          unfold afterRows
          by_cases hj : pre ++ id = j
          · subst hj
            rw [List.find?_cons_of_pos (by simp), hnone]
            rfl
          · rw [List.find?_cons_of_neg (by simpa using hj)]
      | some trigger =>
          -- the row's own job is put or changed, and the others are as they were
          obtain ⟨jobs', hstep, hown, hothers⟩ : ∃ jobs' : Jobs T,
              scheduleRows pre func existing ((id, some trigger) :: rows) jobs =
                scheduleRows pre func existing rows jobs' ∧
              jobs'.get? (pre ++ id) =
                some (scheduled func id trigger (jobs.get? (pre ++ id))) ∧
              ∀ j, j ≠ pre ++ id → jobs'.get? j = jobs.get? j := by
            by_cases hmem : pre ++ id ∈ existing
            · have hsome := (hexisting (id, some trigger) (.head _)).mp hmem
              refine ⟨jobs.modify (pre ++ id) fun job => { job with trigger }, ?_, ?_, ?_⟩
              · rw [scheduleRows, if_pos hmem, rescheduleJob_of_isSome hsome]
              · obtain ⟨job, hjob⟩ := Option.isSome_iff_exists.mp hsome
                rw [Table.get?_modify_self, hjob]
                rfl
              · exact fun j hj => Table.get?_modify_of_ne _ _ hj
            · have hgone : jobs.get? (pre ++ id) = none := by
                rw [← Option.not_isSome_iff_eq_none]
                exact fun hsome => hmem ((hexisting (id, some trigger) (.head _)).mpr hsome)
              refine ⟨addJob jobs (pre ++ id) ⟨func, trigger, [id]⟩, ?_, ?_, ?_⟩
              · rw [scheduleRows, if_neg hmem]
              · rw [addJob, Table.get?_set, if_pos rfl, hgone]
                rfl
              · exact fun j hj => by rw [addJob, Table.get?_set, if_neg hj]
          have hexisting' : ∀ row ∈ rows,
              (pre ++ row.1 ∈ existing ↔ (jobs'.get? (pre ++ row.1)).isSome = true) := by
            intro row hrow
            rw [hothers _ (hfresh row hrow)]
            exact hexisting row (.tail _ hrow)
          obtain ⟨hraised, hjobs⟩ := ih hexisting' hnodup.2
          rw [hstep]
          refine ⟨hraised, fun j => ?_⟩
          rw [hjobs j]
          unfold afterRows
          by_cases hj : pre ++ id = j
          · subst hj
            rw [List.find?_cons_of_pos (by simp), hnone]
            exact hown
          · rw [List.find?_cons_of_neg (by simpa using hj), hothers j fun h => hj h.symm]

variable (pre func jobs) in
/-- A pass writes under the ids of its rows, and clears the other ids of its kind. -/
theorem prefixedJobs_spec (hnodup : (rows.map Prod.fst).Nodup) :
    (prefixedJobs pre func rows jobs).raised = none ∧
      ∀ j, (prefixedJobs pre func rows jobs).jobs.get? j =
        if startsWith j pre = true ∧ j ∉ rows.map (fun row => pre ++ row.1) then none
        else afterRows pre func rows jobs j := by
  have hexisting : ∀ row ∈ rows, (pre ++ row.1 ∈ jobs.keys ↔
      (jobs.get? (pre ++ row.1)).isSome = true) := fun row _ => by
    rw [Table.mem_keys, Option.isSome_iff_exists]
  obtain ⟨hraised, hjobs⟩ := scheduleRows_spec func hexisting hnodup
  have hstale : (jobs.keys.filter fun jobId => startsWith jobId pre &&
      !(rows.map fun row => pre ++ row.1).contains jobId).Nodup := jobs.nodup.filter _
  have hinactive : ∀ j, j ∉ rows.map (fun row => pre ++ row.1) →
      afterRows pre func rows jobs j = jobs.get? j := by
    intro j hj
    have hfind : rows.find? (fun row => pre ++ row.1 = j) = none := by
      rw [List.find?_eq_none]
      intro row hrow
      simpa using fun h => hj (List.mem_map.mpr ⟨row, hrow, h⟩)
    rw [afterRows, hfind]
    rfl
  have hthere : ∀ j ∈ jobs.keys.filter (fun jobId => startsWith jobId pre &&
      !(rows.map fun row => pre ++ row.1).contains jobId),
      ((scheduleRows pre func jobs.keys rows jobs).jobs.get? j).isSome = true := by
    intro j hj
    obtain ⟨hkey, hcond⟩ := List.mem_filter.mp hj
    obtain ⟨-, hactive⟩ := Bool.and_eq_true_iff.mp hcond
    rw [hjobs j, hinactive j (by simpa using hactive)]
    exact Option.isSome_iff_exists.mpr (Table.mem_keys.mp hkey)
  obtain ⟨hnone, hremoved⟩ := removeJobs_spec hstale hthere
  have hpass : prefixedJobs pre func rows jobs =
      removeJobs (jobs.keys.filter fun jobId => startsWith jobId pre &&
        !(rows.map fun row => pre ++ row.1).contains jobId)
        (scheduleRows pre func jobs.keys rows jobs).jobs := by
    unfold prefixedJobs
    dsimp only
    rw [hraised]
  rw [hpass]
  refine ⟨hnone, fun j => ?_⟩
  rw [hremoved j, hjobs j]
  by_cases hcond : startsWith j pre = true ∧ j ∉ rows.map (fun row => pre ++ row.1)
  · rw [if_pos hcond]
    by_cases hkey : j ∈ jobs.keys
    · rw [if_pos]
      simp only [List.mem_filter, hkey, true_and, hcond.1, Bool.true_and]
      simpa using hcond.2
    · rw [if_neg fun h => hkey (List.mem_filter.mp h).1, hinactive j hcond.2]
      rw [← Option.not_isSome_iff_eq_none]
      exact fun hsome => hkey (Table.mem_keys.mpr (Option.isSome_iff_exists.mp hsome))
  · rw [if_neg hcond, if_neg]
    intro hmem
    obtain ⟨-, h⟩ := List.mem_filter.mp hmem
    obtain ⟨hpre, hactive⟩ := Bool.and_eq_true_iff.mp h
    exact hcond ⟨hpre, by simpa using hactive⟩

theorem removed_other {stale : List String} (hj : j ∉ stale) :
    (removeJobs stale jobs).jobs.get? j = jobs.get? j := by
  induction stale generalizing jobs with
  | nil => rfl
  | cons jobId stale ih =>
      obtain ⟨hne, hrest⟩ : j ≠ jobId ∧ j ∉ stale := by simpa using hj
      unfold removeJobs
      cases hstep : removeJob jobs jobId with
      | error raised => rfl
      | ok jobs' =>
          dsimp only
          rw [ih hrest]
          unfold removeJob at hstep
          split at hstep
          · obtain rfl := Except.ok.inj hstep
            rw [Table.get?_filter]
            cases jobs.get? j <;> simp [Option.filter, hne]
          · cases hstep

variable (cron) in
/-- The pass over the accounts leaves the jobs of other kinds alone, also when it raises. -/
theorem syncSchedulerJobs_other (accounts : Table Id Account) (jobs : Jobs T)
    (hj : isSyncJobId j = false) :
    (syncSchedulerJobs cron accounts jobs).jobs.get? j = jobs.get? j := by
  have hne : ∀ accountId, j ≠ syncJobId accountId := by
    rintro accountId rfl
    have hown : isSyncJobId (syncJobId accountId) = true := by
      simp [isSyncJobId, syncJobId, String.toList_append]
    rw [hown] at hj
    cases hj
  have hexisting : ∀ j ∈ jobs.keys, (jobs.get? j).isSome = true := by
    intro j hj
    exact Option.isSome_iff_exists.mpr (Table.mem_keys.mp hj)
  have hlive : ∀ row ∈ accounts.rows.filter fun row => !row.2.suspended, row.2.suspended = false := by
    intro row hrow
    simpa using (List.mem_filter.mp hrow).2
  obtain ⟨-, hframe, -⟩ : _ ∧ (∀ j, _ → (scheduleAccounts cron jobs.keys
      (accounts.rows.filter fun row => !row.2.suspended) jobs).jobs.get? j = jobs.get? j) ∧ _ :=
    scheduleAccounts_spec hexisting hlive live_nodup
  have hsame := hframe j fun row _ => hne row.1
  unfold syncSchedulerJobs
  dsimp only
  split
  · exact hsame
  · rw [← hsame]
    refine removed_other ?_
    intro hmem
    rw [(List.mem_filter.mp hmem).2] at hj
    cases hj

/-! ## What the three of them leave -/

def Policy.trigger? (cron : CronTrigger T) (policy : Policy) : Option T :=
  if policy.enabled then fromCrontab cron policy.schedule else none

/-- Under distinct ids, the row that is found is the one that is there. -/
theorem find?_key {β : Type*} {rows : List (Id × β)} (hnodup : (rows.map Prod.fst).Nodup)
    {row : Id × β} :
    rows.find? (fun row => pre ++ row.1 = j) = some row ↔ row ∈ rows ∧ pre ++ row.1 = j := by
  constructor
  · intro h
    exact ⟨List.mem_of_find?_eq_some h, by simpa using List.find?_some h⟩
  · rintro ⟨hmem, hj⟩
    induction rows with
    | nil => cases hmem
    | cons first rows ih =>
        rw [List.map_cons, List.nodup_cons] at hnodup
        rcases List.mem_cons.mp hmem with rfl | hmem
        · exact List.find?_cons_of_pos (by simpa using hj)
        · have hne : pre ++ first.1 ≠ j := by
            intro heq
            have hsame := append_injective pre (heq.trans hj.symm)
            exact hnodup.1 (hsame ▸ List.mem_map_of_mem (f := Prod.fst) hmem)
          rw [List.find?_cons_of_neg (by simpa using hne)]
          exact ih hnodup.2 hmem

theorem nodup_mapped {α β : Type*} (table : Table Id α) (p : Id × α → Bool) (f : Id × α → β) :
    (((table.rows.filter p).map fun row => (row.1, f row)).map Prod.fst).Nodup := by
  rw [List.map_map]
  exact table.nodup.sublist (List.filter_sublist.map _)

theorem find?_mapped {α β : Type*} {table : Table Id α} {p : Id × α → Bool} {f : Id × α → β}
    {id : Id} :
    ((table.rows.filter p).map fun row => (row.1, f row)).find? (fun row => pre ++ row.1 = pre ++ id) =
      ((table.get? id).filter fun a => p (id, a)).map fun a => (id, f (id, a)) := by
  apply Option.ext
  rintro ⟨id', b⟩
  rw [find?_key (nodup_mapped table p f)]
  simp only [List.mem_map, List.mem_filter, Option.map_eq_some_iff, Option.filter_eq_some_iff,
    Prod.mk.injEq, Prod.exists]
  constructor
  · rintro ⟨⟨i, a, ⟨hrow, hp⟩, rfl, rfl⟩, heq⟩
    obtain rfl := append_injective pre heq
    exact ⟨a, ⟨Table.mem_rows.mp hrow, hp⟩, rfl, rfl⟩
  · rintro ⟨a, ⟨hget, hp⟩, rfl, rfl⟩
    exact ⟨⟨id, a, ⟨Table.mem_rows.mpr hget, hp⟩, rfl, rfl⟩, rfl⟩

theorem startsWith_append (pre id : String) : startsWith (pre ++ id) pre = true := by
  simp [startsWith, String.toList_append]

/-- A pass over the rows of a table: the jobs of the rows it takes, none for the others, and no
change to the jobs of other kinds. -/
theorem prefixedJobs_table {α : Type*} (table : Table Id α) (p : Id × α → Bool)
    (f : Id × α → Option T) (jobs : Jobs T) :
    (prefixedJobs pre func ((table.rows.filter p).map fun row => (row.1, f row)) jobs).raised = none ∧
    (∀ j, startsWith j pre = false →
      (prefixedJobs pre func ((table.rows.filter p).map fun row => (row.1, f row)) jobs).jobs.get? j =
        jobs.get? j) ∧
    ∀ id, (prefixedJobs pre func ((table.rows.filter p).map fun row => (row.1, f row)) jobs).jobs.get?
        (pre ++ id) =
      ((table.get? id).filter fun a => p (id, a)).elim none fun a =>
        (f (id, a)).elim (jobs.get? (pre ++ id)) fun trigger =>
          some (scheduled func id trigger (jobs.get? (pre ++ id))) := by
  obtain ⟨hraised, hjobs⟩ := prefixedJobs_spec pre func jobs
    (nodup_mapped table p f)
  refine ⟨hraised, fun j hj => ?_, fun id => ?_⟩
  · have hnone : ((table.rows.filter p).map fun row => (row.1, f row)).find?
        (fun row => pre ++ row.1 = j) = none := by
      rw [List.find?_eq_none]
      intro row _
      rw [decide_eq_true_eq]
      rintro rfl
      rw [startsWith_append] at hj
      cases hj
    have hcond : ¬ (startsWith j pre = true ∧
        j ∉ ((table.rows.filter p).map fun row => (row.1, f row)).map fun row => pre ++ row.1) := by
      rintro ⟨h, -⟩
      rw [hj] at h
      cases h
    rw [hjobs j, if_neg hcond, afterRows, hnone]
    rfl
  · rw [hjobs (pre ++ id), afterRows, find?_mapped]
    cases hrow : (table.get? id).filter fun a => p (id, a) with
    | none =>
        rw [if_pos]
        · rfl
        · refine ⟨startsWith_append pre id, fun hmem => ?_⟩
          obtain ⟨row, hrow', heq⟩ := List.mem_map.mp hmem
          have hfound := (find?_key (nodup_mapped table p f)).mpr ⟨hrow', heq⟩
          rw [find?_mapped, hrow] at hfound
          cases hfound
    | some a =>
        rw [if_neg]
        · rfl
        · rintro ⟨-, hmem⟩
          refine hmem (List.mem_map.mpr ⟨(id, f (id, a)), ?_, rfl⟩)
          obtain ⟨hget, hp⟩ := Option.filter_eq_some_iff.mp hrow
          exact List.mem_map.mpr ⟨(id, a), List.mem_filter.mpr ⟨Table.mem_rows.mpr hget, hp⟩, rfl⟩

/-! ## Jobs of their own kind -/

/-- Every job under such an id of the kind is about the row that the id names. -/
def Own (pre : String) (func : JobFunc) (P : Id → Prop) (jobs : Jobs T) : Prop :=
  ∀ id job, P id → jobs.get? (pre ++ id) = some job → job.func = func ∧ job.args = [id]

theorem scheduled_own {id : Id} {P : Id → Prop} (hown : Own pre func P jobs) (hid : P id)
    (trigger : T) : scheduled func id trigger (jobs.get? (pre ++ id)) = ⟨func, trigger, [id]⟩ := by
  cases hjob : jobs.get? (pre ++ id) with
  | none => rfl
  | some job =>
      obtain ⟨hfunc, hargs⟩ := hown id job hid hjob
      simp only [scheduled, Option.map_some, Option.getD_some, ← hfunc, ← hargs]

theorem Own.prefixedJobs {α : Type*} {P : Id → Prop} (hown : Own pre func P jobs)
    (table : Table Id α) (p : Id × α → Bool) (f : Id × α → Option T) :
    Own pre func P
      (Scheduling.prefixedJobs pre func ((table.rows.filter p).map fun row => (row.1, f row)) jobs).jobs := by
  intro id job hid hjob
  rw [(prefixedJobs_table table p f jobs).2.2 id] at hjob
  cases hrow : (table.get? id).filter fun a => p (id, a) with
  | none =>
      rw [hrow] at hjob
      cases hjob
  | some a =>
      rw [hrow, Option.elim_some] at hjob
      cases htrigger : f (id, a) with
      | none =>
          rw [htrigger] at hjob
          exact hown id job hid hjob
      | some trigger =>
          rw [htrigger, Option.elim_some, scheduled_own hown hid] at hjob
          obtain rfl := Option.some.inj hjob
          exact ⟨rfl, rfl⟩

theorem Own.of_same {P : Id → Prop} {jobs' : Jobs T} (hown : Own pre func P jobs)
    (h : ∀ id, P id → jobs'.get? (pre ++ id) = jobs.get? (pre ++ id)) : Own pre func P jobs' := by
  intro id job hid hjob
  rw [h id hid] at hjob
  exact hown id job hid hjob

/-! ## A run of the server -/

/-- The tables do not use the one id under which a backup would take the place of the watchdog. -/
def Call.plain : Call → Prop
  | .start tables | .refresh tables => tables.policies.get? "watchdog" = none

/-- The fixed jobs, as far as the passes leave them. -/
def FixedThere (clock : Clock T) (watched : Bool) (jobs : Jobs T) : Prop :=
  (∀ fixed ∈ fixedJobs, fixed.1 ≠ "backup-watchdog" →
    jobs.get? fixed.1 = some (fixedJob clock fixed.2)) ∧
  jobs.get? "backup-watchdog" = if watched then some (fixedJob clock .runBackupWatchdog) else none

/-- The backup jobs of the last tables. -/
def BackupsThere (cron : CronTrigger T) (clock : Clock T) (tables : Tables) (jobs : Jobs T) : Prop :=
  (∀ id policy trigger, tables.policies.get? id = some policy → policy.trigger? cron = some trigger →
    jobs.get? ("backup-" ++ id) = some ⟨.runScheduledBackup, trigger, [id]⟩) ∧
  (∀ id, id ≠ "watchdog" → (tables.policies.get? id).any Policy.enabled = false →
    jobs.get? ("backup-" ++ id) = none) ∧
  ∀ id, jobs.get? ("config-backup-" ++ id) =
    if (tables.repositories.get? id).any Repository.configBackupEnabled = true then
      some ⟨.runScheduledConfigBackup, clock .runScheduledConfigBackup, [id]⟩
    else none

/-- The ids of the fixed jobs are of none of the kinds, but for the one that looks like a backup. -/
theorem fixed_kinds : ∀ fixed ∈ fixedJobs, isSyncJobId fixed.1 = false ∧
    startsWith fixed.1 "config-backup-" = false ∧
    (startsWith fixed.1 "backup-" = true ↔ fixed.1 = "backup-watchdog") := by
  decide

theorem backup_kinds (id : Id) : isSyncJobId ("backup-" ++ id) = false ∧
    startsWith ("backup-" ++ id) "config-backup-" = false ∧
    isSyncJobId ("config-backup-" ++ id) = false ∧
    startsWith ("config-backup-" ++ id) "backup-" = false := by
  have hbackup : "backup-".toList = ['b', 'a', 'c', 'k', 'u', 'p', '-'] := rfl
  have hconfig : "config-backup-".toList =
      ['c', 'o', 'n', 'f', 'i', 'g', '-', 'b', 'a', 'c', 'k', 'u', 'p', '-'] := rfl
  have hsync : syncPrefix.toList = ['s', 'y', 'n', 'c', '_'] := rfl
  refine ⟨?_, ?_, ?_, ?_⟩
  all_goals
    simp only [isSyncJobId, startsWith, String.toList_append, hbackup, hconfig, hsync]
    rfl

section Passes

variable (tables : Tables) (jobs)

theorem passes_other (hsync : isSyncJobId j = false) (hbackup : startsWith j "backup-" = false)
    (hconfig : startsWith j "config-backup-" = false) :
    (passes cron clock tables jobs).jobs.get? j = jobs.get? j := by
  have hfirst := syncSchedulerJobs_other cron tables.accounts jobs hsync
  unfold passes
  dsimp only
  split
  · exact hfirst
  · split
    · exact ((prefixedJobs_table _ _ _ _).2.1 j hbackup).trans hfirst
    · exact ((prefixedJobs_table _ _ _ _).2.1 j hconfig).trans
        (((prefixedJobs_table _ _ _ _).2.1 j hbackup).trans hfirst)

variable {tables}

/-- Only the pass over the accounts can raise, and it comes first. -/
theorem passes_raised (hraised : (passes cron clock tables jobs).raised ≠ none)
    (hsync : isSyncJobId j = false) :
    (passes cron clock tables jobs).jobs.get? j = jobs.get? j := by
  have hfirst := syncSchedulerJobs_other cron tables.accounts jobs hsync
  have hnone : ∀ jobs, (backupSchedulerJobs cron tables.policies jobs).raised = none :=
    fun jobs => (prefixedJobs_table _ _ _ jobs).1
  have hnone' : ∀ jobs, (configBackupSchedulerJobs clock tables.repositories jobs).raised = none :=
    fun jobs => (prefixedJobs_table _ _ _ jobs).1
  unfold passes at hraised ⊢
  dsimp only at hraised ⊢
  cases hsynced : (syncSchedulerJobs cron tables.accounts jobs).raised with
  | some e => exact hfirst
  | none =>
      rw [hsynced] at hraised
      dsimp only at hraised
      rw [hnone] at hraised
      exact absurd (hnone' _) hraised

theorem passes_done (hdone : (passes cron clock tables jobs).raised = none) :
    (passes cron clock tables jobs).jobs = (configBackupSchedulerJobs clock tables.repositories
      (backupSchedulerJobs cron tables.policies
        (syncSchedulerJobs cron tables.accounts jobs).jobs).jobs).jobs := by
  have hnone : ∀ jobs, (backupSchedulerJobs cron tables.policies jobs).raised = none :=
    fun jobs => (prefixedJobs_table _ _ _ jobs).1
  unfold passes at hdone ⊢
  dsimp only at hdone ⊢
  cases hsynced : (syncSchedulerJobs cron tables.accounts jobs).raised with
  | some e =>
      rw [hsynced] at hdone
      dsimp only at hdone
      rw [hsynced] at hdone
      cases hdone
  | none =>
      dsimp only
      rw [hnone]

theorem passes_backup (hdone : (passes cron clock tables jobs).raised = none) (id : Id) :
    (passes cron clock tables jobs).jobs.get? ("backup-" ++ id) =
      ((tables.policies.get? id).filter Policy.enabled).elim none fun policy =>
        (fromCrontab cron policy.schedule).elim (jobs.get? ("backup-" ++ id)) fun trigger =>
          some (scheduled .runScheduledBackup id trigger (jobs.get? ("backup-" ++ id))) := by
  obtain ⟨hsync, hconfig, -, -⟩ := backup_kinds id
  rw [passes_done jobs hdone]
  unfold configBackupSchedulerJobs
  rw [(prefixedJobs_table _ _ _ _).2.1 _ hconfig]
  unfold backupSchedulerJobs
  rw [(prefixedJobs_table tables.policies _ _ _).2.2 id, syncSchedulerJobs_other _ _ _ hsync]

theorem passes_config (hdone : (passes cron clock tables jobs).raised = none) (id : Id) :
    (passes cron clock tables jobs).jobs.get? ("config-backup-" ++ id) =
      ((tables.repositories.get? id).filter Repository.configBackupEnabled).elim none fun _ =>
        some (scheduled .runScheduledConfigBackup id (clock .runScheduledConfigBackup)
          (jobs.get? ("config-backup-" ++ id))) := by
  obtain ⟨-, -, hsync, hbackup⟩ := backup_kinds id
  rw [passes_done jobs hdone]
  unfold configBackupSchedulerJobs
  rw [(prefixedJobs_table tables.repositories _ _ _).2.2 id]
  unfold backupSchedulerJobs
  rw [(prefixedJobs_table _ _ _ _).2.1 _ hbackup, syncSchedulerJobs_other _ _ _ hsync]
  rfl

end Passes

/-! ## The fixed jobs -/

variable (clock) in
theorem ensureJob_of_none {fixed : String × JobFunc} (h : jobs.get? fixed.1 = none) (j : String) :
    (ensureJob clock jobs fixed).get? j =
      if j = fixed.1 then some (fixedJob clock fixed.2) else jobs.get? j := by
  have hkey : jobs.keys.contains fixed.1 = false := by
    rw [← Bool.not_eq_true, List.contains_iff_mem, Table.mem_keys]
    rintro ⟨job, hjob⟩
    rw [h] at hjob
    cases hjob
  rw [ensureJob, hkey]
  exact Table.get?_set ..

variable (clock) in
/-- Where none of the ids is taken, each gets its job, and the other jobs stay. -/
theorem foldl_ensureJob {l : List (String × JobFunc)} (hnodup : (l.map Prod.fst).Nodup)
    (hnone : ∀ fixed ∈ l, jobs.get? fixed.1 = none) :
    (∀ fixed ∈ l, (l.foldl (ensureJob clock) jobs).get? fixed.1 = some (fixedJob clock fixed.2)) ∧
      ∀ j, j ∉ l.map Prod.fst → (l.foldl (ensureJob clock) jobs).get? j = jobs.get? j := by
  induction l generalizing jobs with
  | nil => exact ⟨nofun, fun _ _ => rfl⟩
  | cons first l ih =>
      rw [List.map_cons, List.nodup_cons] at hnodup
      have hfirst := ensureJob_of_none clock (hnone first (.head _))
      have hnone' : ∀ fixed ∈ l, (ensureJob clock jobs first).get? fixed.1 = none := by
        intro fixed hfixed
        rw [hfirst, if_neg]
        · exact hnone fixed (.tail _ hfixed)
        · intro heq
          exact hnodup.1 (heq ▸ List.mem_map_of_mem (f := Prod.fst) hfixed)
      obtain ⟨hall, hothers⟩ := ih hnodup.2 hnone'
      refine ⟨?_, ?_⟩
      · intro fixed hfixed
        rcases List.mem_cons.mp hfixed with rfl | hfixed
        · rw [List.foldl_cons, hothers _ hnodup.1, hfirst, if_pos rfl]
        · exact hall fixed hfixed
      · intro j hj
        obtain ⟨hne, hrest⟩ : j ≠ first.1 ∧ j ∉ l.map Prod.fst := by
          rw [List.map_cons, List.mem_cons] at hj
          exact not_or.mp hj
        rw [List.foldl_cons, hothers j hrest, hfirst, if_neg hne]

/-- What holds of a server all along. -/
structure Lived (cron : CronTrigger T) (clock : Clock T) (s : Server T) : Prop where
  fixed : s.running = true → FixedThere clock (!s.refreshed) s.jobs
  fresh : s.running = false → ∀ fixed ∈ fixedJobs, s.jobs.get? fixed.1 = none
  backups : Own "backup-" .runScheduledBackup (· ≠ "watchdog") s.jobs
  configs : Own "config-backup-" .runScheduledConfigBackup (fun _ => True) s.jobs
  passed : ∀ tables, s.passed = some tables → BackupsThere cron clock tables s.jobs

theorem lived_initial : Lived cron clock ({} : Server T) :=
  ⟨nofun, fun _ _ _ => rfl, (fun _ _ _ h => by cases h), (fun _ _ _ h => by cases h), nofun⟩

theorem watchdog_id : "backup-watchdog" = "backup-" ++ "watchdog" := rfl

theorem enabled_filter {policies : Table Id Policy} {id : Id}
    (h : (policies.get? id).any Policy.enabled = false) :
    (policies.get? id).filter Policy.enabled = none := by
  cases hpolicy : policies.get? id with
  | none => rfl
  | some policy =>
      rw [hpolicy] at h
      simpa [Option.filter] using h

section Steps

variable {tables : Tables}

theorem backupsThere_passes (hdone : (passes cron clock tables jobs).raised = none)
    (hbackups : Own "backup-" .runScheduledBackup (· ≠ "watchdog") jobs)
    (hconfigs : Own "config-backup-" .runScheduledConfigBackup (fun _ => True) jobs)
    (hwatchdog : tables.policies.get? "watchdog" = none) :
    BackupsThere cron clock tables (passes cron clock tables jobs).jobs := by
  refine ⟨?_, ?_, ?_⟩
  · intro id policy trigger hpolicy htrigger
    have hid : id ≠ "watchdog" := by
      rintro rfl
      rw [hwatchdog] at hpolicy
      cases hpolicy
    unfold Policy.trigger? at htrigger
    split at htrigger
    · rename_i henabled
      rw [passes_backup jobs hdone, hpolicy, Option.filter_some, if_pos henabled, Option.elim_some,
        htrigger, Option.elim_some, scheduled_own hbackups hid]
    · cases htrigger
  · intro id _ hdisabled
    rw [passes_backup jobs hdone, enabled_filter hdisabled]
    rfl
  · intro id
    rw [passes_config jobs hdone]
    cases hrepository : tables.repositories.get? id with
    | none => rfl
    | some repository =>
        cases henabled : repository.configBackupEnabled with
        | true => simp [Option.filter, henabled, scheduled_own hconfigs trivial]
        | false => simp [Option.filter, henabled]

theorem own_backups_passes (hbackups : Own "backup-" .runScheduledBackup (· ≠ "watchdog") jobs) :
    Own "backup-" .runScheduledBackup (· ≠ "watchdog") (passes cron clock tables jobs).jobs := by
  by_cases hdone : (passes cron clock tables jobs).raised = none
  · have hsynced := hbackups.of_same fun id _ =>
      syncSchedulerJobs_other cron tables.accounts jobs (backup_kinds id).1
    rw [passes_done jobs hdone]
    refine Own.of_same (hsynced.prefixedJobs tables.policies (fun row => row.2.enabled)
      fun row => fromCrontab cron row.2.schedule) fun id _ => ?_
    exact (prefixedJobs_table _ _ _ _).2.1 _ (backup_kinds id).2.1
  · exact hbackups.of_same fun id _ => passes_raised jobs hdone (backup_kinds id).1

theorem own_configs_passes (hconfigs : Own "config-backup-" .runScheduledConfigBackup (fun _ => True) jobs) :
    Own "config-backup-" .runScheduledConfigBackup (fun _ => True)
      (passes cron clock tables jobs).jobs := by
  by_cases hdone : (passes cron clock tables jobs).raised = none
  · have hbacked : Own "config-backup-" .runScheduledConfigBackup (fun _ => True)
        (backupSchedulerJobs cron tables.policies
          (syncSchedulerJobs cron tables.accounts jobs).jobs).jobs := by
      refine hconfigs.of_same fun id _ => ?_
      obtain ⟨-, -, hsync, hbackup⟩ := backup_kinds id
      exact ((prefixedJobs_table _ _ _ _).2.1 _ hbackup).trans (syncSchedulerJobs_other _ _ _ hsync)
    rw [passes_done jobs hdone]
    exact hbacked.prefixedJobs tables.repositories (fun row => row.2.configBackupEnabled)
      fun _ => some (clock .runScheduledConfigBackup)
  · exact hconfigs.of_same fun id _ => passes_raised jobs hdone (backup_kinds id).2.2.1

/-- The watchdog goes with the backup jobs that no policy asks for. -/
theorem passes_watchdog (hdone : (passes cron clock tables jobs).raised = none)
    (hwatchdog : tables.policies.get? "watchdog" = none) :
    (passes cron clock tables jobs).jobs.get? "backup-watchdog" = none := by
  rw [watchdog_id, passes_backup jobs hdone, hwatchdog]
  rfl

theorem passes_fixed {fixed : String × JobFunc} (hfixed : fixed ∈ fixedJobs)
    (hne : fixed.1 ≠ "backup-watchdog") :
    (passes cron clock tables jobs).jobs.get? fixed.1 = jobs.get? fixed.1 := by
  obtain ⟨hsync, hconfig, hbackup⟩ := fixed_kinds fixed hfixed
  refine passes_other jobs tables hsync ?_ hconfig
  rw [← Bool.not_eq_true, hbackup]
  exact hne

theorem lived_refresh {s : Server T} (h : Lived cron clock s)
    (hwatchdog : tables.policies.get? "watchdog" = none) :
    Lived cron clock (refreshScheduler cron clock tables s) := by
  unfold refreshScheduler
  split
  · exact h
  · rename_i hrunning
    have hrunning' : s.running = true := by simpa using hrunning
    obtain ⟨hothers, hdog⟩ := h.fixed hrunning'
    dsimp only
    split
    · rename_i e hraised
      have hne : (passes cron clock tables s.jobs).raised ≠ none := by simp [hraised]
      refine ⟨fun _ => ⟨fun fixed hfixed hname => ?_, ?_⟩, fun hstopped => absurd hstopped hrunning,
        own_backups_passes h.backups, own_configs_passes h.configs, nofun⟩
      · exact (passes_fixed hfixed hname).trans (hothers fixed hfixed hname)
      · exact (passes_raised s.jobs hne (by decide)).trans hdog
    · rename_i hdone
      refine ⟨fun _ => ⟨fun fixed hfixed hname => ?_, passes_watchdog hdone hwatchdog⟩, nofun,
        own_backups_passes h.backups, own_configs_passes h.configs, ?_⟩
      · exact (passes_fixed hfixed hname).trans (hothers fixed hfixed hname)
      · rintro _ ⟨⟩
        exact backupsThere_passes hdone h.backups h.configs hwatchdog

theorem lived_start {s : Server T} (h : Lived cron clock s) (hstopped : s.running = false)
    (hwatchdog : tables.policies.get? "watchdog" = none) :
    Lived cron clock (startScheduler cron clock tables s) := by
  have hfresh := h.fresh hstopped
  unfold startScheduler
  dsimp only
  split
  · rename_i e hraised
    have hne : (passes cron clock tables s.jobs).raised ≠ none := by simp [hraised]
    refine ⟨fun hrunning => ?_, fun _ fixed hfixed => ?_, own_backups_passes h.backups,
      own_configs_passes h.configs, nofun⟩
    · rw [hstopped] at hrunning
      cases hrunning
    · exact (passes_raised s.jobs hne (fixed_kinds fixed hfixed).1).trans (hfresh fixed hfixed)
  · rename_i hdone
    have hnone : ∀ fixed ∈ fixedJobs,
        (passes cron clock tables s.jobs).jobs.get? fixed.1 = none := by
      intro fixed hfixed
      by_cases hname : fixed.1 = "backup-watchdog"
      · rw [hname]
        exact passes_watchdog hdone hwatchdog
      · exact (passes_fixed hfixed hname).trans (hfresh fixed hfixed)
    obtain ⟨hall, hothers⟩ := foldl_ensureJob clock (by decide) hnone
    have hthere' : FixedThere clock true
        (fixedJobs.foldl (ensureJob clock) (passes cron clock tables s.jobs).jobs) := by
      refine ⟨fun fixed hfixed _ => hall fixed hfixed, ?_⟩
      rw [if_pos rfl]
      exact hall ("backup-watchdog", .runBackupWatchdog) (by decide)
    generalize fixedJobs.foldl (ensureJob clock) (passes cron clock tables s.jobs).jobs = jobs'
      at hothers hthere' ⊢
    have hbackup : ∀ id, id ≠ "watchdog" → "backup-" ++ id ∉ fixedJobs.map Prod.fst := by
      intro id hid hmem
      obtain ⟨fixed, hfixed, heq⟩ := List.mem_map.mp hmem
      have hwatch := (fixed_kinds fixed hfixed).2.2.mp (heq ▸ startsWith_append "backup-" id)
      exact hid (append_injective "backup-" (heq.symm.trans hwatch))
    have hconfig : ∀ id, "config-backup-" ++ id ∉ fixedJobs.map Prod.fst := by
      intro id hmem
      obtain ⟨fixed, hfixed, heq⟩ := List.mem_map.mp hmem
      have hkind := (fixed_kinds fixed hfixed).2.1
      rw [heq, startsWith_append] at hkind
      cases hkind
    have hthere := backupsThere_passes hdone h.backups h.configs hwatchdog
    refine ⟨fun _ => hthere', nofun, ?_, ?_, ?_⟩
    · exact (own_backups_passes h.backups).of_same fun id hid => hothers _ (hbackup id hid)
    · exact (own_configs_passes h.configs).of_same fun id _ => hothers _ (hconfig id)
    · rintro _ ⟨⟩
      refine ⟨?_, ?_, ?_⟩
      · intro id policy trigger hpolicy htrigger
        have hid : id ≠ "watchdog" := by
          rintro rfl
          rw [hwatchdog] at hpolicy
          cases hpolicy
        rw [hothers _ (hbackup id hid)]
        exact hthere.1 id policy trigger hpolicy htrigger
      · intro id hid hdisabled
        rw [hothers _ (hbackup id hid)]
        exact hthere.2.1 id hid hdisabled
      · intro id
        rw [hothers _ (hconfig id)]
        exact hthere.2.2 id

end Steps

def nightly : Tables where
  policies := ⟨[("p", { schedule := "0 3 * * *" })], by decide⟩

def sampleClock : Clock (List String) := fun _ => ["0"]

end MailFallback.Scheduling
