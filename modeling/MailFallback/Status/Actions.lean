import MailFallback.Access.Agreement
import MailFallback.Status.Semantics

/-! # What a mailbox advertises can be done

The next action comes with the status of a mailbox. The agent API that carries it out has
guards of its own, and so has the worker. -/

namespace MailFallback.Status

open Storage Query Access

/-! ## The agent API -/

section Trigger

variable (orders : Orders)
  (newest : Order (Id × SyncJob) fun a b => b.2.requestedAt ≤ a.2.requestedAt)

/-- The guards of `trigger_sync`. -/
def triggerRefusal (db : Db) (account : Account) : Option HttpError :=
  if account.suspended = true then some ⟨409, "Sync blocked: account is suspended"⟩
  else if account.migrating = true then some ⟨409, "Sync blocked: account migration in progress"⟩
  else if (account.owners.any fun o => (db.users.get? o).any (·.migrating)) = true then
    some ⟨409, "Sync blocked: user migration in progress"⟩
  else if account.syncPausedUntil.isSome = true ∨ account.pauseReason.isSome = true then
    some ⟨409, "Sync blocked: paused (" ++ (pauseReason account).getD "unknown" ++
      "); an agent cannot override a self-recovering pause"⟩
  else none

structure TriggerReply where
  db : Db
  jobId : Id
  job : SyncJob
  alreadyQueued : Bool

/-- The newest open job is the answer when there is one. -/
def triggerSync (db : AccessDb) (userId accountId jobId : Id) (now : Time) :
    Except HttpError TriggerReply :=
  match agentAccount orders db userId accountId with
  | .error e => .error e
  | .ok account =>
      match triggerRefusal db.toDb account with
      | some e => .error e
      | none =>
          match createSyncJob accountId jobId now db.toDb with
          | some db' => .ok ⟨db', jobId, newJob accountId now, false⟩
          | none =>
              match newest.list ((db.syncJobs.rows : Multiset (Id × SyncJob)).filter fun row =>
                  row.2.accountId = accountId ∧ row.2.status.isOpen = true) with
              | row :: _ => .ok ⟨db.toDb, row.1, row.2, true⟩
              | [] => .error ⟨409, "Could not queue a sync; retry"⟩

end Trigger

variable {fire : FireTimes} {account : Account} {lastJob : Option SyncJob} {now : Time}
  {live ownerMigrating : Bool}

/-! ## The ladder -/

/-- Where a sync is advertised. -/
structure Triggerable (account : Account) (ownerMigrating : Bool) : Prop where
  migrating : account.migrating = false
  owner : ownerMigrating = false
  suspended : account.suspended = false
  authenticated : account.isAuthenticated = true
  unpaused : pauseBlocksTrigger account = false

theorem isAuthenticated_of_signedIn (h : signedIn account = true) :
    account.isAuthenticated = true := by
  simp only [signedIn, Bool.and_eq_true] at h
  exact h.1.1

theorem unsyncedStatus_action {a : NextAction}
    (h : (unsyncedStatus fire account lastJob now live).action = some a) :
    pauseBlocksTrigger account = false := by
  have haction : (unsyncedStatus fire account lastJob now live).action =
      if pauseBlocksTrigger account = true then none else some .syncNow := by
    unfold unsyncedStatus
    dsimp only
    split
    · split <;> rfl
    · rfl
  rw [haction] at h
  split at h
  · cases h
  · rename_i hpause
    simpa using hpause

/-- The ladder advertises a sync only past its first steps, and where no pause is set. -/
theorem triggerable_of_action
    (h : (resolveMailboxStatus fire account lastJob now live ownerMigrating).action = some .retry ∨
      (resolveMailboxStatus fire account lastJob now live ownerMigrating).action = some .syncNow) :
    Triggerable account ownerMigrating := by
  have hnone : ∀ {m : MailboxStatus}, m.action = none →
      ¬ (m.action = some .retry ∨ m.action = some .syncNow) := by
    intro m hm hor
    rw [hm] at hor
    cases hor with
    | inl h => cases h
    | inr h => cases h
  unfold resolveMailboxStatus at h
  dsimp only at h
  split at h
  · exact absurd h (hnone rfl)
  · rename_i hmigrating
    split at h
    · exact absurd h (hnone rfl)
    · rename_i hsuspended
      split at h
      · cases h with
        | inl h => cases h
        | inr h => cases h
      · rename_i hsigned
        simp only [not_or, Bool.not_eq_true, Bool.not_eq_false] at hmigrating hsuspended hsigned
        have hauth := isAuthenticated_of_signedIn hsigned
        refine ⟨hmigrating.1, hmigrating.2, hsuspended, hauth, ?_⟩
        split at h
        · split at h
          · exact absurd h (hnone rfl)
          · exact absurd h (hnone rfl)
        · split at h
          · exact absurd h (hnone rfl)
          · split at h
            · -- A real error: the password, or a retry where no pause is set.
              dsimp only at h
              split at h
              · cases h with
                | inl h => cases h
                | inr h => cases h
              · split at h
                · cases h with
                  | inl h => cases h
                  | inr h => cases h
                · rename_i hpause
                  simpa using hpause
            · split at h
              · cases h with
                | inl h => exact unsyncedStatus_action h
                | inr h => exact unsyncedStatus_action h
              · split at h
                · exact absurd h (hnone rfl)
                · split at h
                  · split at h
                    · exact absurd h (hnone rfl)
                    · exact absurd h (hnone rfl)
                  · exact absurd h (hnone rfl)

/-! ## The guards -/

theorem triggerRefusal_none {db : Db} (h : Triggerable account
      (account.owners.any fun o => (db.users.get? o).any (·.migrating))) :
    triggerRefusal db account = none := by
  have hpause := h.unpaused
  simp only [pauseBlocksTrigger, Bool.or_eq_false_iff] at hpause
  simp [triggerRefusal, h.suspended, h.migrating, h.owner, hpause.1, hpause.2]

theorem refusal_none {db : Db} (h : Triggerable account
      (account.owners.any fun o => (db.users.get? o).any (·.migrating))) :
    refusal db account = none := by
  simp [refusal, h.suspended, h.migrating, h.owner, h.authenticated]

/-- A new job concerns no user and no account. -/
theorem createSyncJob_frame {db db' : Db} {accountId jobId : Id} {requestedAt : Time}
    (h : createSyncJob accountId jobId requestedAt db = some db') :
    db'.users = db.users ∧ db'.accounts = db.accounts := by
  unfold createSyncJob at h
  split at h
  · cases h
  · unfold insertJob at h
    split at h
    · rw [← Option.some.inj h]
      exact ⟨rfl, rfl⟩
    · cases h

theorem triggerSync_ok {orders : Orders}
    {newest : Order (Id × SyncJob) fun a b => b.2.requestedAt ≤ a.2.requestedAt} {db : AccessDb}
    {userId accountId jobId : Id} {requestedAt : Time}
    (haccount : agentAccount orders db userId accountId = .ok account)
    (hrefusal : triggerRefusal db.toDb account = none) (hfresh : db.syncJobs.get? jobId = none) :
    ∃ reply, triggerSync orders newest db userId accountId jobId requestedAt = .ok reply ∧
      reply.db.users = db.users ∧ reply.db.accounts = db.accounts := by
  unfold triggerSync
  rw [haccount]
  dsimp only
  rw [hrefusal]
  dsimp only
  cases hcreated : createSyncJob accountId jobId requestedAt db.toDb with
  | some db' => exact ⟨_, rfl, createSyncJob_frame hcreated⟩
  | none =>
      dsimp only
      split
      · exact ⟨_, rfl, rfl, rfl⟩
      · rename_i hnil
        -- Nothing but an open job keeps the new one from being inserted.
        have hopen : hasOpenJob db.toDb accountId = true := by
          by_contra hopen
          rw [createSyncJob, if_neg hopen, insertJob, dif_pos hfresh] at hcreated
          cases hcreated
        obtain ⟨row, hrow, hopen⟩ := List.any_eq_true.mp hopen
        rw [Bool.and_eq_true, decide_eq_true_eq] at hopen
        have hmem : row ∈ newest.list ((db.syncJobs.rows : Multiset (Id × SyncJob)).filter
            fun row => row.2.accountId = accountId ∧ row.2.status.isOpen = true) := by
          rw [Order.mem_list, Multiset.mem_filter]
          exact ⟨hrow, hopen⟩
        rw [hnil] at hmem
        cases hmem

/-- Whenever a mailbox advertises a sync, the agent API lets every caller who sees it ask for
one, and the worker does not refuse the job. -/
theorem advertised_sync_is_possible (fire : FireTimes) (order : Unordered (Id × SyncJob))
    (live : Id → Bool) (orders : Orders)
    (newest : Order (Id × SyncJob) fun a b => b.2.requestedAt ≤ a.2.requestedAt) (db : AccessDb)
    (accounts : List (Id × Account)) (now : Time) (jobs : Option (Id → Option SyncJob))
    (hrows : ∀ row ∈ accounts, db.accounts.get? row.1 = some row.2)
    (accountId : Id) (status : MailboxStatus)
    (hstatus : (accountId, status) ∈ resolveMany db.toDb fire order live accounts now jobs)
    (haction : status.action = some .retry ∨ status.action = some .syncNow) :
    ∃ account, db.accounts.get? accountId = some account ∧
      triggerRefusal db.toDb account = none ∧ refusal db.toDb account = none ∧
      ∀ (userId jobId : Id) (requestedAt : Time),
        agentAccount orders db userId accountId = .ok account →
        db.syncJobs.get? jobId = none →
        ∃ reply, triggerSync orders newest db userId accountId jobId requestedAt = .ok reply ∧
          reply.db.accounts.get? accountId = some account ∧
          refusal reply.db account = none := by
  unfold resolveMany at hstatus
  obtain ⟨row, hrow, heq⟩ := List.mem_map.mp hstatus
  have hid : row.1 = accountId := (Prod.mk.inj heq).1
  have haccount := hrows row hrow
  rw [← (Prod.mk.inj heq).2] at haction
  have htriggerable := triggerable_of_action haction
  have howner : decide (row.1 ∈ accountsWithMigratingOwner db.toDb (accounts.map Prod.fst)) =
      row.2.owners.any fun o => (db.users.get? o).any (·.migrating) := by
    rw [Bool.eq_iff_iff, decide_eq_true_eq, accountsWithMigratingOwner, List.mem_filter, haccount]
    exact ⟨fun h => h.2, fun h => ⟨List.mem_map.mpr ⟨row, hrow, rfl⟩, h⟩⟩
  rw [howner] at htriggerable
  have htrigger := triggerRefusal_none htriggerable
  have hworker := refusal_none htriggerable
  rw [hid] at haccount
  refine ⟨row.2, haccount, htrigger, hworker, fun userId jobId requestedAt hvisible hfresh => ?_⟩
  obtain ⟨reply, hreply, husers, haccounts⟩ := triggerSync_ok hvisible htrigger hfresh
  refine ⟨reply, hreply, ?_, refusal_none ?_⟩
  · rw [haccounts]
    exact haccount
  · rw [husers]
    exact htriggerable

/-! ## A mailbox with an error -/

section Sample

/-- The last sync of the account has failed. -/
def failedAccount : Account where
  maildirPath := "/mail/a1"
  storeId := "s1"
  owners := ["u1"]
  authType := .oauth2
  credentials := some "gAAAA"
  syncState := .error
  lastError := some "Socket error"

def failedDb : AccessDb := { Access.sampleDb with
  accounts := ⟨[("a1", failedAccount)], by decide⟩
  accountStores := by
    intro i a hi
    have hi := Table.mem_rows.mpr hi
    simp only [List.mem_singleton, Prod.mk.injEq] at hi
    rw [hi.2]
    rfl
  sharedAccounts := by decide }

/-- It advertises a retry, and both guards let it pass. -/
theorem sample_advertised_sync :
    triggerRefusal failedDb.toDb failedAccount = none ∧
      refusal failedDb.toDb failedAccount = none := by
  have hadvertised := advertised_sync_is_possible (fun _ _ _ => none)
    (.sorting _ (fun _ _ _ _ _ => trivial) fun _ _ => .inl trivial) (fun _ => false) sampleOrders
    (.sorting _ (fun _ _ _ h h' => le_trans h' h) fun _ _ => le_total _ _) failedDb
    [("a1", failedAccount)] 0 (some fun _ => none) (by decide +kernel) "a1"
    (resolveMailboxStatus (fun _ _ _ => none) failedAccount none 0 false false)
    (List.mem_singleton.mpr rfl) (.inl (by decide +kernel))
  obtain ⟨account, haccount, htrigger, hworker, -⟩ := hadvertised
  have hfound : failedDb.accounts.get? "a1" = some failedAccount := rfl
  rw [hfound] at haccount
  rw [Option.some.inj haccount]
  exact ⟨htrigger, hworker⟩

end Sample

end MailFallback.Status
