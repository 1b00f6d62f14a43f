import MailFallback.Sync.System
import MailFallback.Sync.Attempt
import MailFallback.Sync.OpenJobs

/-! # What every run of the container keeps

First the invariants that need no condition: ids are used once, and every worker keeps to its
discipline. Then those of the rows, which hold as long as jobs are inserted for accounts
without an open one and the sweep runs before anything else. -/

namespace MailFallback

open Storage Effects Transition

variable {settings : SyncSettings} {w w' : World} {jobId accountId : Id} {l l' : Local}

/-! ## What a step leaves alone -/

/-- Everything but the processes and the markers. -/
def World.SameRows (w w' : World) : Prop :=
  w'.db = w.db ∧ w'.clock = w.clock ∧ w'.used = w.used ∧ w'.asking = w.asking ∧
    w'.queue = w.queue ∧ w'.workers = w.workers

theorem World.SameRows.refl (w : World) : w.SameRows w := ⟨rfl, rfl, rfl, rfl, rfl, rfl⟩

theorem World.SameRows.trans {w'' : World} (h : w.SameRows w') (h' : w'.SameRows w'') :
    w.SameRows w'' := by
  obtain ⟨h₁, h₂, h₃, h₄, h₅, h₆⟩ := h
  obtain ⟨h₁', h₂', h₃', h₄', h₅', h₆'⟩ := h'
  exact ⟨h₁'.trans h₁, h₂'.trans h₂, h₃'.trans h₃, h₄'.trans h₄, h₅'.trans h₅, h₆'.trans h₆⟩

theorem stopSyncJob_sameRows (w : World) (jobId : Id) : w.SameRows (w.stopSyncJob jobId) := by
  unfold World.stopSyncJob
  split
  · exact ⟨rfl, rfl, rfl, rfl, rfl, rfl⟩
  · exact .refl w

theorem stopAll_sameRows (rows : List (Id × SyncJob)) (w : World) :
    w.SameRows (rows.foldl (fun w' row => w'.stopSyncJob row.1) w) := by
  induction rows generalizing w with
  | nil => exact .refl w
  | cons row rows ih => exact (stopSyncJob_sameRows w row.1).trans (ih _)

theorem perform_sameRows {o : SyncOp} {r : Except SyncExc (SyncAns o)}
    (h : w.perform jobId l o r = some w') : w.SameRows w' := by
  cases r with
  | error e =>
      cases o <;> exact (Option.some.inj h) ▸ .refl w
  | ok a =>
      cases o with
      | now => exact (Option.some.inj (Option.ite_none_right_eq_some.mp h).2) ▸ .refl w
      | stopRequested => exact (Option.some.inj (Option.ite_none_right_eq_some.mp h).2) ▸ .refl w
      | wait => exact (Option.some.inj (Option.ite_none_right_eq_some.mp h).2) ▸ .refl w
      | takeBudgetStop =>
          exact (Option.some.inj (Option.ite_none_right_eq_some.mp h).2) ▸
            ⟨rfl, rfl, rfl, rfl, rfl, rfl⟩
      | takeSignal =>
          exact (Option.some.inj (Option.ite_none_right_eq_some.mp h).2) ▸
            ⟨rfl, rfl, rfl, rfl, rfl, rfl⟩
      | takeDeadline =>
          exact (Option.some.inj (Option.ite_none_right_eq_some.mp h).2) ▸
            ⟨rfl, rfl, rfl, rfl, rfl, rfl⟩
      | stopSyncJob => exact (Option.some.inj h) ▸ stopSyncJob_sameRows w jobId
      | _ => exact (Option.some.inj h) ▸ ⟨rfl, rfl, rfl, rfl, rfl, rfl⟩

/-- What a step of a worker is. -/
theorem work_cases {reply : (o : SyncOp) → Except SyncExc (SyncAns o)}
    (h : w.work jobId reply = some w') :
    (∃ wk, w.workers jobId = some wk ∧ wk.prog.finished = true ∧
      w' = { w with workers := Function.update w.workers jobId none }) ∨
    ∃ o k l l' db w'', w.workers jobId = some ⟨.perform o k, l⟩ ∧
      localStep jobId o l (reply o) = some l' ∧ session jobId l w.db o (reply o) = some db ∧
      w.perform jobId l o (reply o) = some w'' ∧
      w' = { w'' with db := db,
                      workers := Function.update w.workers jobId (some ⟨k (reply o), l'⟩) } := by
  unfold World.work at h
  split at h
  · cases h
  · rename_i o k l hworker
    obtain ⟨l', hl, h⟩ := Option.bind_eq_some_iff.mp h
    obtain ⟨db, hdb, h⟩ := Option.bind_eq_some_iff.mp h
    obtain ⟨w'', hw, h⟩ := Option.bind_eq_some_iff.mp h
    obtain rfl := Option.some.inj h
    exact .inr ⟨o, k, l, l', db, w'', hworker, hl, hdb, hw, rfl⟩
  · rename_i wk hprog hworker
    obtain ⟨prog, l⟩ := wk
    refine .inl ⟨⟨prog, l⟩, hworker, ?_, (Option.some.inj h).symm⟩
    cases prog with
    | ret a => rfl
    | raise e => rfl
    | perform o k => exact absurd rfl (hprog o k l)

/-- The only operations of a session that change rows. -/
theorem session_same {o : SyncOp} {r : Except SyncExc (SyncAns o)} {db db' : Db}
    (hcommit : o ≠ .commit) (hcleanup : ∀ a, o ≠ .cleanupOldJobs a)
    (h : session jobId l db o r = some db') : db' = db := by
  cases r with
  | error e => exact session_error h
  | ok a =>
      cases o with
      | commit => exact absurd rfl hcommit
      | cleanupOldJobs accountId => exact absurd rfl (hcleanup accountId)
      | view => exact (Option.some.inj (Option.ite_none_right_eq_some.mp h).2).symm
      | reloadAccount a => exact (Option.some.inj (Option.ite_none_right_eq_some.mp h).2).symm
      | refreshJob => exact (Option.some.inj (Option.ite_none_right_eq_some.mp h).2).symm
      | _ => exact (Option.some.inj h).symm

theorem session_evolves {o : SyncOp} {r : Except SyncExc (SyncAns o)} {db db' : Db}
    (h : session jobId l db o r = some db') : Evolves SameAccount db db' := by
  have hrefl : ∀ job, SameAccount job job := fun _ => rfl
  by_cases hcommit : o = .commit
  · subst hcommit
    cases r with
    | error e =>
        rw [session_error h]
        exact .of_eq hrefl rfl
    | ok a =>
        obtain rfl := Option.some.inj h
        exact pending_evolves_account
  · by_cases hcleanup : ∀ a, o ≠ .cleanupOldJobs a
    · rw [session_same hcommit hcleanup h]
      exact .of_eq hrefl rfl
    · push Not at hcleanup
      obtain ⟨a, rfl⟩ := hcleanup
      cases r with
      | error e =>
          rw [session_error h]
          exact .of_eq hrefl rfl
      | ok done =>
          obtain rfl := Option.some.inj h
          exact cleanupOldJobs_evolves hrefl 150

/-! ## Invariants of every run -/

structure World.Kept (w : World) : Prop where
  queued : ∀ j ∈ w.queue, w.workers j = none ∧ j ∈ w.used
  nodup : w.queue.Nodup
  rows : ∀ j job, w.db.syncJobs.get? j = some job → j ∈ w.used
  disciplined : ∀ j wk, w.workers j = some wk → j ∈ w.used ∧
    Safe (localStep j) discipline (fun _ => Left) (fun _ => Left) wk.prog wk.l
  account : ∀ j wk, w.workers j = some wk → ∀ a, wk.l.account = some a →
    ∀ job, w.db.syncJobs.get? j = some job → job.accountId = a

/-- The rows change, and no worker. -/
theorem World.Kept.rows_of (h : w.Kept) (hused : w'.used = w.used) (hqueue : w'.queue = w.queue)
    (hworkers : w'.workers = w.workers) (hrows : Evolves SameAccount w.db w'.db) : w'.Kept := by
  constructor
  · rw [hused, hqueue, hworkers]
    exact h.queued
  · rw [hqueue]
    exact h.nodup
  · intro j job' hj
    obtain ⟨job, hjob, -⟩ := hrows j job' hj
    rw [hused]
    exact h.rows j job hjob
  · rw [hused, hworkers]
    exact h.disciplined
  · rw [hworkers]
    intro j wk hwk a ha job' hj
    obtain ⟨job, hjob, hsame⟩ := hrows j job' hj
    exact hsame.trans (h.account j wk hwk a ha job hjob)

theorem Evolves.refl_account (db : Db) : Evolves SameAccount db db := .of_eq (fun _ => rfl) rfl

theorem closeJobs_evolves_account {db : Db} (closing : Id → SyncJob → Bool) (marker : String)
    (now : Time) : Evolves SameAccount db (closeJobs closing marker now db) := by
  intro j job' hj
  obtain ⟨job, hjob, hsame, -⟩ := closeJobs_evolves closing marker now j job' hj
  exact ⟨job, hjob, hsame⟩

/-- The account of a worker is the one of its job, from the first read on. -/
theorem next_account {o : SyncOp} {r : Except SyncExc (SyncAns o)} {db db' : Db}
    (htidy : l.Tidy) (hl : localStep jobId o l r = some l')
    (hdb : session jobId l db o r = some db')
    (h : ∀ a, l.account = some a → ∀ job, db.syncJobs.get? jobId = some job → job.accountId = a) :
    ∀ a, l'.account = some a → ∀ job, db.syncJobs.get? jobId = some job → job.accountId = a := by
  have hsame : l'.account = l.account ∨ l.stage = .fresh ∧ l' = l.read jobId db := by
    obtain rfl := localStep_eq hl
    cases r with
    | error e =>
        by_cases hwrite : ∀ content, o ≠ .writeConfig content
        · rw [next_error hwrite]
          exact .inl rfl
        · push Not at hwrite
          obtain ⟨content, rfl⟩ := hwrite
          exact .inl rfl
    | ok read =>
        cases o with
        | view =>
            by_cases hfresh : l.stage = .fresh
            · obtain ⟨rfl, -⟩ := Option.ite_none_right_eq_some.mp hdb
              refine .inr ⟨hfresh, ?_⟩
              have hnil : l.staged = [] := by
                apply List.eq_nil_iff_forall_not_mem.mpr
                intro p hp
                have hpermits := (htidy.1 p hp).2
                rw [hfresh] at hpermits
                cases hpermits
              rw [pending_of_nil hnil]
              exact if_pos hfresh
            · exact .inl (congrArg Local.account (if_neg hfresh))
        | refreshOauthToken credentials =>
            left
            simp only [Local.next]
            split <;> rfl
        | _ => exact .inl rfl
  rcases hsame with hsame | ⟨-, rfl⟩
  · rw [hsame]
    exact h
  · intro a ha job hjob
    unfold Local.read at ha
    rw [hjob] at ha
    dsimp only at ha
    split at ha <;> exact Option.some.inj ha

theorem World.Kept.work (h : w.Kept) {reply : (o : SyncOp) → Except SyncExc (SyncAns o)}
    (hwork : w.work jobId reply = some w') : w'.Kept := by
  rcases work_cases hwork with ⟨wk, hwk, -, rfl⟩ | ⟨o, k, l, l', db, w'', hwk, hl, hdb, hw, rfl⟩
  · constructor
    · intro j hj
      refine ⟨?_, (h.queued j hj).2⟩
      by_cases hjj : j = jobId
      · simp [hjj]
      · simp only [Function.update_of_ne hjj]
        exact (h.queued j hj).1
    · exact h.nodup
    · exact h.rows
    · intro j wk' hwk'
      by_cases hjj : j = jobId
      · simp [hjj] at hwk'
      · simp only [Function.update_of_ne hjj] at hwk'
        exact h.disciplined j wk' hwk'
    · intro j wk' hwk'
      by_cases hjj : j = jobId
      · simp [hjj] at hwk'
      · simp only [Function.update_of_ne hjj] at hwk'
        exact h.account j wk' hwk'
  · obtain ⟨-, -, hused, -, hqueue, -⟩ := perform_sameRows hw
    obtain ⟨hmem, hsafe⟩ := h.disciplined jobId _ hwk
    have hrows := session_evolves hdb
    constructor
    · intro j hj
      rw [hqueue] at hj
      obtain ⟨hnone, hj'⟩ := h.queued j hj
      have hjj : j ≠ jobId := by
        rintro rfl
        rw [hwk] at hnone
        cases hnone
      simp only [Function.update_of_ne hjj, hused]
      exact ⟨hnone, hj'⟩
    · rw [hqueue]
      exact h.nodup
    · intro j job' hj
      obtain ⟨job, hjob, -⟩ := hrows j job' hj
      rw [hused]
      exact h.rows j job hjob
    · intro j wk' hwk'
      rw [hused]
      dsimp only at hwk'
      by_cases hjj : j = jobId
      · subst hjj
        rw [Function.update_self] at hwk'
        obtain rfl := Option.some.inj hwk'
        exact ⟨hmem, hsafe.2.2 _ _ hl⟩
      · rw [Function.update_of_ne hjj] at hwk'
        exact h.disciplined j wk' hwk'
    · intro j wk' hwk' a ha job' hj
      obtain ⟨job, hjob, hsame⟩ := hrows j job' hj
      refine hsame.trans ?_
      dsimp only at hwk'
      by_cases hjj : j = jobId
      · subst hjj
        rw [Function.update_self] at hwk'
        obtain rfl := Option.some.inj hwk'
        exact next_account hsafe.1 hl hdb (h.account j _ hwk) a ha job hjob
      · rw [Function.update_of_ne hjj] at hwk'
        exact h.account j wk' hwk' a ha job hjob

theorem tick_rows {bytes : ℕ} (h : w.tick jobId bytes = some w') :
    w'.clock = w.clock ∧ w'.used = w.used ∧ w'.asking = w.asking ∧ w'.queue = w.queue ∧
      w'.workers = w.workers ∧
      (w'.db = w.db ∨ ∃ a, w'.db = setAccount a (bookTraffic bytes w.clock) w.db) := by
  obtain ⟨sampler, -, rfl⟩ := Option.map_eq_some_iff.mp h
  dsimp only
  split
  · exact ⟨rfl, rfl, rfl, rfl, rfl, .inl rfl⟩
  · split
    · obtain ⟨h₁, h₂, h₃, h₄, h₅, h₆⟩ := stopSyncJob_sameRows _ jobId
      exact ⟨h₂, h₃, h₄, h₅, h₆, .inr ⟨_, h₁⟩⟩
    · exact ⟨rfl, rfl, rfl, rfl, rfl, .inr ⟨_, rfl⟩⟩

theorem World.Kept.start (h : w.Kept) (hj : jobId ∈ w.queue) :
    World.Kept { w with
      queue := w.queue.erase jobId
      workers := Function.update w.workers jobId (some ⟨executeSyncJob settings jobId, {}⟩) } := by
  constructor
  · intro j hmem
    have hjj : j ≠ jobId := by
      rintro rfl
      exact h.nodup.not_mem_erase hmem
    simp only [Function.update_of_ne hjj]
    exact h.queued j (List.mem_of_mem_erase hmem)
  · exact h.nodup.erase jobId
  · exact h.rows
  · intro j wk hwk
    dsimp only at hwk
    by_cases hjj : j = jobId
    · subst hjj
      rw [Function.update_self] at hwk
      obtain rfl := Option.some.inj hwk
      exact ⟨(h.queued j hj).2, executeSyncJob_disciplined settings j⟩
    · rw [Function.update_of_ne hjj] at hwk
      exact h.disciplined j wk hwk
  · intro j wk hwk a ha
    dsimp only at hwk
    by_cases hjj : j = jobId
    · subst hjj
      rw [Function.update_self] at hwk
      obtain rfl := Option.some.inj hwk
      cases ha
    · rw [Function.update_of_ne hjj] at hwk
      exact h.account j wk hwk a ha

theorem World.Kept.insert (h : w.Kept) {db : Db} (hunused : jobId ∉ w.used)
    (hinsert : insertJob accountId jobId w.clock w.db = some db) :
    World.Kept { w with
      db := db
      used := jobId :: w.used
      asking := w.asking.erase accountId
      queue := jobId :: w.queue } := by
  have hidle : w.workers jobId = none := by
    cases hwk : w.workers jobId with
    | none => rfl
    | some wk => exact absurd (h.disciplined jobId wk hwk).1 hunused
  constructor
  · intro j hj
    rcases List.mem_cons.mp hj with rfl | hj
    · exact ⟨hidle, List.mem_cons_self⟩
    · exact ⟨(h.queued j hj).1, List.mem_cons_of_mem _ (h.queued j hj).2⟩
  · exact List.nodup_cons.mpr ⟨fun hj => hunused (h.queued jobId hj).2, h.nodup⟩
  · intro j job hj
    rw [insertJob_get? hinsert] at hj
    split at hj
    · rename_i hjj
      exact hjj ▸ List.mem_cons_self
    · exact List.mem_cons_of_mem _ (h.rows j job hj)
  · intro j wk hwk
    exact ⟨List.mem_cons_of_mem _ (h.disciplined j wk hwk).1, (h.disciplined j wk hwk).2⟩
  · intro j wk hwk a ha job hj
    rw [insertJob_get? hinsert] at hj
    split at hj
    · rename_i hjj
      subst hjj
      exact absurd (h.disciplined j wk hwk).1 hunused
    · exact h.account j wk hwk a ha job hj

/-- No step breaks these invariants. -/
theorem World.Kept.next (h : w.Kept) {e : SyncEvent} (hnext : w.next settings e = some w') :
    w'.Kept := by
  cases e with
  | pass time =>
      obtain rfl := Option.some.inj hnext
      exact h.rows_of rfl rfl rfl (.refl_account _)
  | ask accountId =>
      obtain ⟨-, hnext⟩ := Option.ite_none_left_eq_some.mp hnext
      obtain rfl := Option.some.inj hnext
      exact h.rows_of rfl rfl rfl (.refl_account _)
  | insert accountId jobId =>
      obtain ⟨⟨-, hunused⟩, hnext⟩ := Option.ite_none_right_eq_some.mp hnext
      obtain ⟨db, hinsert, rfl⟩ := Option.map_eq_some_iff.mp hnext
      exact h.insert hunused hinsert
  | overridePause accountId =>
      obtain rfl := Option.some.inj hnext
      exact h.rows_of rfl rfl rfl (.refl_account _)
  | expirePause accountId =>
      obtain ⟨-, hnext⟩ := Option.ite_none_right_eq_some.mp hnext
      obtain rfl := Option.some.inj hnext
      exact h.rows_of rfl rfl rfl (.refl_account _)
  | reauth accountId =>
      obtain rfl := Option.some.inj hnext
      exact h.rows_of rfl rfl rfl (.refl_account _)
  | start jobId =>
      obtain ⟨hj, hnext⟩ := Option.ite_none_right_eq_some.mp hnext
      obtain rfl := Option.some.inj hnext
      exact h.start hj
  | work jobId reply => exact h.work hnext
  | tick jobId bytes =>
      obtain ⟨-, hused, -, hqueue, hworkers, hdb⟩ := tick_rows hnext
      refine h.rows_of hused hqueue hworkers ?_
      rcases hdb with hdb | ⟨a, hdb⟩ <;> rw [hdb] <;> exact .refl_account _
  | exit jobId =>
      obtain rfl := Option.some.inj hnext
      exact h.rows_of rfl rfl rfl (.refl_account _)
  | stop jobId =>
      obtain rfl := Option.some.inj hnext
      obtain ⟨hdb, -, hused, -, hqueue, hworkers⟩ := stopSyncJob_sameRows w jobId
      refine h.rows_of hused hqueue hworkers ?_
      rw [hdb]
      exact .refl_account _
  | watchdog =>
      obtain rfl := Option.some.inj hnext
      obtain ⟨-, -, hused, -, hqueue, hworkers⟩ := stopAll_sameRows
        (w.db.syncJobs.rows.filter fun row => w.stalled settings row.1 row.2) w
      exact h.rows_of hused hqueue hworkers (closeJobs_evolves_account _ _ _)
  | sweep =>
      obtain rfl := Option.some.inj hnext
      exact h.rows_of rfl rfl rfl (closeJobs_evolves_account _ _ _)
  | crash =>
      obtain rfl := Option.some.inj hnext
      constructor
      · exact nofun
      · exact List.nodup_nil
      · exact h.rows
      · intro j wk hwk
        cases hwk
      · intro j wk hwk
        cases hwk

end MailFallback
