import MailFallback.Sync.Processes
import Mathlib.Data.List.Induction

/-! # Errors and pauses

A broken mailbox is not to look merely paused. Every writer of the state of an account and of
its pause has to see to that. -/

namespace MailFallback

open Storage Effects Transition

variable {settings : SyncSettings} {w w' w₀ : World} {db : Db} {jobId accountId : Id}
  {account : Account} {staged : List (Id × Write)} {now : Time}

/-- An error has no pause, and a pause has both its moment and its reason. -/
structure Account.Honest (account : Account) : Prop where
  error : account.syncState = .error →
    account.syncPausedUntil = none ∧ account.pauseReason = none
  paired : account.syncPausedUntil.isSome = account.pauseReason.isSome

def HonestRows (db : Db) : Prop :=
  ∀ accountId account, db.accounts.get? accountId = some account → account.Honest

/-! ## The steps that go wrong -/

/-- The endings that leave the pause as it is: the guard of the host and the exceptions. -/
def Write.leavesPause : Write → Bool
  | .hostBlocked .. | .timedOut _ | .crashed .. => true
  | _ => false

/-- Such an ending is assigned to an account that is paused. -/
def HidesError (jobId : Id) (staged : List (Id × Write)) (db : Db) : Prop :=
  ∃ before p after account, staged = before ++ p :: after ∧ p.2.leavesPause = true ∧
    (pending jobId before db).accounts.get? p.1 = some account ∧ account.pauseReason.isSome = true

/-- A job that is closed has its initial sync driven on although the account is in error. -/
def PausesError (closing : Id → SyncJob → Bool) (now : Time) (db : Db) : Prop :=
  ∃ row ∈ db.syncJobs.rows, closing row.1 row.2 = true ∧
    ∃ account, db.accounts.get? row.2.accountId = some account ∧ account.syncState = .error ∧
      account.initialSyncCompletedAt = none ∧ budgetHeadroomToday account now = true

def World.Hides (settings : SyncSettings) (w : World) : SyncEvent → Prop
  | .work jobId _ => ∃ k l, w.workers jobId = some ⟨.perform .commit k, l⟩ ∧
      HidesError jobId l.staged w.db
  | .watchdog => PausesError (w.stalled settings) w.clock w.db
  | .sweep => PausesError (isZombie w.handles) w.clock w.db
  | _ => False

/-! ## The writes of a worker -/

theorem Account.Honest.write {w : Write} (h : account.Honest)
    (hw : w.leavesPause = true → account.pauseReason = none) : (w.account account).Honest := by
  have hbare : account.pauseReason = none → account.syncPausedUntil = none := by
    intro hreason
    have hpaired := h.paired
    rw [hreason] at hpaired
    exact Option.not_isSome_iff_eq_none.mp (by simp [hpaired])
  cases w with
  | blocked log time => exact h
  | hostBlocked error time => exact ⟨fun _ => ⟨hbare (hw rfl), hw rfl⟩, h.paired⟩
  | start time => exact ⟨nofun, h.paired⟩
  | credentials value => exact ⟨h.error, h.paired⟩
  | tokenRefreshFailed terminal time => exact ⟨fun _ => ⟨rfl, rfl⟩, rfl⟩
  | totals messages folders => exact ⟨h.error, h.paired⟩
  | result code output logPath time => exact h
  | signal name => exact h
  | completed time => exact ⟨nofun, rfl⟩
  | paused kind resumeAt => exact ⟨nofun, rfl⟩
  | capped message output => exact ⟨fun _ => ⟨rfl, rfl⟩, rfl⟩
  | stopped output => exact ⟨fun _ => ⟨rfl, rfl⟩, rfl⟩
  | errored output => exact ⟨fun _ => ⟨rfl, rfl⟩, rfl⟩
  | timedOut time => exact ⟨fun _ => ⟨hbare (hw rfl), hw rfl⟩, h.paired⟩
  | crashed text time => exact ⟨fun _ => ⟨hbare (hw rfl), hw rfl⟩, h.paired⟩

theorem HonestRows.modify (f : Account → Account) (h : HonestRows db)
    (hf : ∀ account, db.accounts.get? accountId = some account → (f account).Honest) {db' : Db}
    (hdb : db'.accounts = db.accounts.modify accountId f) : HonestRows db' := by
  intro a account haccount
  rw [hdb, Table.get?_modify] at haccount
  split at haccount
  · rename_i ha
    obtain ⟨before, hbefore, hafter⟩ := Option.map_eq_some_iff.mp haccount
    rw [ha] at hbefore
    rw [← hafter]
    exact hf before hbefore
  · exact h a account haccount

/-- A commit, one assignment after the other. -/
theorem HonestRows.pending (h : HonestRows db) (hok : ¬ HidesError jobId staged db) :
    HonestRows (pending jobId staged db) := by
  induction staged using List.reverseRecOn with
  | nil => exact h
  | append_singleton staged p ih =>
      have hrest : ¬ HidesError jobId staged db := by
        intro hhides
        obtain ⟨before, q, after, account, hstaged, hq⟩ := hhides
        refine hok ⟨before, q, after ++ [p], account, ?_, hq⟩
        rw [hstaged, List.append_assoc, List.cons_append]
      have happly : MailFallback.pending jobId (staged ++ [p]) db =
          p.2.apply jobId p.1 (MailFallback.pending jobId staged db) := by
        simp only [MailFallback.pending, List.foldl_append, List.foldl_cons, List.foldl_nil]
      rw [happly]
      refine (ih hrest).modify _ (fun account haccount => ?_) rfl
      refine ((ih hrest) p.1 account haccount).write fun hleaves => ?_
      by_contra hreason
      refine hok ⟨staged, p, [], account, rfl, hleaves, haccount, ?_⟩
      exact Option.isSome_iff_ne_none.mpr hreason

/-! ## The other writers -/

theorem Account.Honest.liftPause : (liftPause account).Honest := ⟨fun _ => ⟨rfl, rfl⟩, rfl⟩

theorem Account.Honest.afterReauth (h : account.Honest) : (afterReauth account).Honest := by
  unfold MailFallback.afterReauth
  split
  · exact ⟨nofun, h.paired⟩
  · exact h

theorem Account.Honest.bookTraffic (h : account.Honest) (bytes : ℕ) :
    (bookTraffic bytes now account).Honest := ⟨h.error, h.paired⟩

theorem budgetHeadroomToday_idle :
    budgetHeadroomToday { account with syncState := .idle } now = budgetHeadroomToday account now :=
  rfl

/-- The release of an account pauses it only when it is not left in error. -/
theorem Account.Honest.release (h : account.Honest)
    (hok : ¬ (account.syncState = .error ∧ account.initialSyncCompletedAt = none ∧
      budgetHeadroomToday account now = true)) : (releaseAccount now account).Honest := by
  unfold releaseAccount redriveOrKeepPause
  by_cases hsyncing : account.syncState = .syncing
  · rw [if_pos hsyncing]
    split
    · exact ⟨nofun, rfl⟩
    · exact ⟨nofun, h.paired⟩
  · rw [if_neg hsyncing]
    split
    · rename_i hredriven
      exact ⟨fun herror => absurd ⟨herror, hredriven⟩ hok, rfl⟩
    · exact h

theorem HonestRows.closeJobs {closing : Id → SyncJob → Bool} {marker : String} (h : HonestRows db)
    (hok : ¬ PausesError closing now db) : HonestRows (closeJobs closing marker now db) := by
  intro a account haccount
  simp only [MailFallback.closeJobs, Table.get?_map] at haccount
  obtain ⟨before, hbefore, hafter⟩ := Option.map_eq_some_iff.mp haccount
  rw [← hafter]
  split
  · rename_i hreleased
    refine (h a before hbefore).release fun hpaused => hok ?_
    obtain ⟨row, hrow, hclosing⟩ := List.any_eq_true.mp hreleased
    rw [Bool.and_eq_true, decide_eq_true_eq] at hclosing
    refine ⟨row, hrow, hclosing.1, before, ?_, hpaused⟩
    rw [hclosing.2]
    exact hbefore
  · exact h a before hbefore

/-! ## Every such step hides an error -/

theorem dishonest_of_pausesError {closing : Id → SyncJob → Bool} {marker : String}
    (h : PausesError closing now db) : ¬ HonestRows (closeJobs closing marker now db) := by
  intro hhonest
  obtain ⟨row, hrow, hclosing, account, haccount, herror, hinitial, hheadroom⟩ := h
  have hreleased : (closeJobs closing marker now db).accounts.get? row.2.accountId =
      some (releaseAccount now account) := by
    simp only [closeJobs, Table.get?_map, haccount, Option.map_some]
    rw [if_pos]
    refine List.any_eq_true.mpr ⟨row, hrow, ?_⟩
    rw [hclosing, decide_eq_true rfl]
    rfl
  have hrelease : releaseAccount now account = { account with
      syncPausedUntil := some (now - second), pauseReason := some "interrupted" } := by
    have hsyncing : account.syncState ≠ .syncing := by
      rw [herror]
      rintro ⟨⟩
    rw [releaseAccount, if_neg hsyncing, redriveOrKeepPause, if_pos ⟨hinitial, hheadroom⟩]
  rw [hrelease] at hreleased
  have hpause := ((hhonest _ _ hreleased).error herror).2
  cases hpause

/-- An ending that comes last in the commit. -/
theorem dishonest_of_leavesPause {before : List (Id × Write)} {p : Id × Write}
    (hleaves : p.2.leavesPause = true)
    (haccount : (pending jobId before db).accounts.get? p.1 = some account)
    (hpaused : account.pauseReason.isSome = true) :
    ¬ HonestRows (pending jobId (before ++ [p]) db) := by
  intro hhonest
  have hafter : (pending jobId (before ++ [p]) db).accounts.get? p.1 =
      some (p.2.account account) := by
    have happly : pending jobId (before ++ [p]) db = p.2.apply jobId p.1 (pending jobId before db) := by
      simp only [pending, List.foldl_append, List.foldl_cons, List.foldl_nil]
    rw [happly, Write.apply, Table.get?_modify_self, haccount, Option.map_some]
  have hend : (p.2.account account).syncState = .error ∧
      (p.2.account account).pauseReason = account.pauseReason := by
    obtain ⟨accountId, w⟩ := p
    cases w <;> first | exact ⟨rfl, rfl⟩ | cases hleaves
  have hpause := ((hhonest _ _ hafter).error hend.1).2
  rw [hend.2] at hpause
  rw [hpause] at hpaused
  cases hpaused

/-! ## Whole runs -/

theorem honest_work {reply : (o : SyncOp) → Except SyncExc (SyncAns o)} (h : HonestRows w.db)
    (hok : ¬ w.Hides settings (.work jobId reply)) (hwork : w.work jobId reply = some w') :
    HonestRows w'.db := by
  cases work_cases hwork with
  | inl hended =>
      obtain ⟨wk, -, -, hw'⟩ := hended
      rw [hw']
      exact h
  | inr hstep =>
      obtain ⟨o, k, l, l', db, w'', hworker, -, hsession, -, hw'⟩ := hstep
      rw [hw']
      change HonestRows db
      by_cases hcommit : o = .commit
      · subst hcommit
        cases hreply : reply .commit with
        | error e =>
            rw [hreply] at hsession
            rw [session_error hsession]
            exact h
        | ok done =>
            rw [hreply] at hsession
            rw [← Option.some.inj hsession]
            exact h.pending fun hhides => hok ⟨k, l, hworker, hhides⟩
      · by_cases hcleanup : ∀ a, o ≠ .cleanupOldJobs a
        · rw [session_same hcommit hcleanup hsession]
          exact h
        · simp only [not_forall, not_not] at hcleanup
          obtain ⟨a, ha⟩ := hcleanup
          subst ha
          cases hreply : reply (.cleanupOldJobs a) with
          | error e =>
              rw [hreply] at hsession
              rw [session_error hsession]
              exact h
          | ok done =>
              rw [hreply] at hsession
              rw [← Option.some.inj hsession]
              exact h

theorem honest_tick {bytes : ℕ} (h : HonestRows w.db) (htick : w.tick jobId bytes = some w') :
    HonestRows w'.db := by
  unfold World.tick at htick
  obtain ⟨s, -, hw'⟩ := Option.map_eq_some_iff.mp htick
  have hbooked : HonestRows (setAccount s.accountId (bookTraffic bytes w.clock) w.db) :=
    h.modify _ (fun account haccount => (h _ account haccount).bookTraffic bytes) rfl
  rw [← hw']
  dsimp only
  split
  · exact h
  · split
    · rw [(stopSyncJob_sameRows _ jobId).1]
      exact hbooked
    · exact hbooked

theorem honest_next {e : SyncEvent} (h : HonestRows w.db) (hok : ¬ w.Hides settings e)
    (hnext : w.next settings e = some w') : HonestRows w'.db := by
  cases e with
  | work jobId reply => exact honest_work h hok hnext
  | tick jobId bytes => exact honest_tick h hnext
  | watchdog =>
      rw [← Option.some.inj hnext]
      exact h.closeJobs hok
  | sweep =>
      rw [← Option.some.inj hnext]
      exact h.closeJobs hok
  | overridePause accountId =>
      rw [← Option.some.inj hnext]
      exact h.modify liftPause (fun _ _ => .liftPause) rfl
  | expirePause accountId =>
      rw [← Option.some.inj (Option.ite_none_right_eq_some.mp hnext).2]
      exact h.modify liftPause (fun _ _ => .liftPause) rfl
  | reauth accountId =>
      rw [← Option.some.inj hnext]
      exact h.modify _ (fun account haccount => (h _ account haccount).afterReauth) rfl
  | insert accountId jobId =>
      obtain ⟨-, hinsert⟩ := Option.ite_none_right_eq_some.mp hnext
      obtain ⟨db, hdb, hw'⟩ := Option.map_eq_some_iff.mp hinsert
      rw [← hw']
      unfold insertJob at hdb
      split at hdb
      · rw [← Option.some.inj hdb]
        exact h
      · cases hdb
  | ask accountId =>
      simp only [World.next] at hnext
      split at hnext
      · cases hnext
      · rw [← Option.some.inj hnext]
        exact h
  | start jobId =>
      rw [← Option.some.inj (Option.ite_none_right_eq_some.mp hnext).2]
      exact h
  | stop jobId =>
      rw [← Option.some.inj hnext, (stopSyncJob_sameRows w jobId).1]
      exact h
  | _ =>
      rw [← Option.some.inj hnext]
      exact h

/-- The part of the condition that can be evaluated. -/
def honestCheck (w : World) : SyncEvent → Bool
  | .watchdog | .sweep => false
  | .work jobId _ => (w.workers jobId).all fun worker =>
      worker.l.staged.all fun p => !p.2.leavesPause
  | _ => true

theorem honestCheck_hides (settings : SyncSettings) (w : World) (e : SyncEvent)
    (h : honestCheck w e = true) : ¬ w.Hides settings e := by
  cases e with
  | watchdog => cases h
  | sweep => cases h
  | work jobId reply =>
      intro hhides
      obtain ⟨k, l, hworker, before, p, after, account, hstaged, hleaves, -⟩ := hhides
      simp only [honestCheck, hworker, Option.all_some, List.all_eq_true] at h
      have hp := h p (by rw [hstaged]; simp)
      rw [hleaves] at hp
      cases hp
  | _ => exact id

theorem honestRows_oneAccount : HonestRows oneAccount.db := by
  intro a account ha
  have hmem := Table.mem_rows.mpr ha
  simp only [oneAccount, List.mem_singleton, Prod.mk.injEq] at hmem
  rw [hmem.2]
  exact ⟨nofun, rfl⟩

/-- The next operation of a worker whose host has turned out to be internal. -/
def World.onInternalHost (jobId : Id) (w : World) : SyncEvent :=
  .work jobId fun
    | .validateHost _ => .ok (some "private/internal addresses are not allowed")
    | .now => .ok w.clock
    | o => ordinary jobId ((w.workers jobId).elim {} (·.l)) w.db o

end MailFallback
