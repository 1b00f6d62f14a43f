import MailFallback.Snapshots.Repositories

/-! # What one backup does to repositories and bits

The run of `execute_backup` is followed operation by operation. Only four of the operations
change anything here, so the rest of the program keeps whatever holds. -/

namespace MailFallback.Snapshots

open Storage PyString Index Effects BackupTask

variable {H : Type} [DecidableEq H] {policyId accountId : Id} {plan : ResticRun}
  {v v' v₀ : Vault H} {α β : Type}

/-! ## Operations that change nothing -/

def still : BackupOp → Bool
  | .waitRestic | .recordSnapshot _ | .applyRetention | .pruneSnapshot _ => false
  | _ => true

theorem vaultStep_still {o : BackupOp} {r : Except BackupExc (BackupAns o)} (ho : still o = true)
    (h : vaultStep policyId accountId plan o v r = some v') : v' = v := by
  cases o with
  | view =>
      cases r with
      | ok db => exact (Option.some.inj (Option.ite_none_right_eq_some.mp h).2).symm
      | error e => exact (Option.some.inj h).symm
  | waitRestic | recordSnapshot _ | applyRetention | pruneSnapshot _ => cases ho
  | _ => exact (Option.some.inj h).symm

/-- A program of such operations. -/
theorem still_safe {p : BackupTask α} (hp : p.Only fun o => still o = true) :
    Safe (vaultStep policyId accountId plan) .free (fun _ v' => v' = v) (fun _ v' => v' = v)
      p v :=
  hp.safe (fun _ _ _ _ ho hv h => (vaultStep_still ho h).trans hv) rfl

theorem still_bind {o : BackupOp} {f : BackupAns o → BackupTask β}
    {Q : β → Vault H → Prop} {E : BackupExc → Vault H → Prop} (ho : still o = true)
    (hE : ∀ e, E e v)
    (hf : ∀ a, Safe (vaultStep policyId accountId plan) .free Q E (f a) v) :
    Safe (vaultStep policyId accountId plan) .free Q E (Prog.bind (op o) f) v := by
  apply Safe.bind
  refine (still_safe (Prog.Only.op ho)).post ?_ ?_
  · intro a v' _ hv
    rw [hv]
    exact hf a
  · intro e v' _ hv
    rw [hv]
    exact hE e

theorem recordSuccess_still (summary : Summary) :
    (recordSuccess summary).Only fun o => still o = true := by
  refine Prog.Only.bind (Prog.Only.op rfl) fun _ => Prog.Only.bind (Prog.Only.op rfl) fun _ =>
    Prog.Only.bind (Prog.Only.op rfl) fun _ => Prog.Only.bind (Prog.Only.op rfl) fun _ => ?_
  exact Prog.Only.handle (Prog.Only.bind (Prog.Only.op rfl) fun _ => Prog.Only.op rfl)
    fun _ => trivial

theorem backupFailed_still (text : String) :
    (backupFailed text).Only fun o => still o = true :=
  Prog.Only.bind (Prog.Only.op rfl) fun _ => Prog.Only.bind (Prog.Only.op rfl) fun _ =>
    Prog.Only.bind (Prog.Only.op rfl) fun _ => Prog.Only.handle (Prog.Only.op rfl) fun _ => trivial

theorem backupCleanUp_still (accountId : Id) :
    (backupCleanUp accountId).Only fun o => still o = true :=
  Prog.Only.bind (Prog.Only.op rfl) fun _ => Prog.Only.bind (Prog.Only.op rfl) fun _ =>
    Prog.Only.handle (Prog.Only.op rfl) fun _ => trivial

/-! ## The operations that restic and the bits answer -/

theorem waitRestic_vault :
    Safe (vaultStep policyId accountId plan) .free
      (fun summary v' => plan.backup = .ok summary ∧ v' = backedUp accountId plan v)
      (fun _ v' => v' = backedUp accountId plan v) waitRestic v := by
  refine Safe.op trivial trivial ?_ ?_
  · intro summary v' h
    cases hbackup : plan.backup with
    | error e => simp [vaultStep, hbackup] at h
    | ok summary' =>
        simp only [vaultStep, hbackup] at h
        obtain ⟨hsame, hv⟩ := Option.ite_none_right_eq_some.mp h
        exact ⟨trivial, by rw [hsame], (Option.some.inj hv).symm⟩
  · intro e v' h
    cases hbackup : plan.backup with
    | ok summary => simp [vaultStep, hbackup] at h
    | error e' =>
        simp only [vaultStep, hbackup] at h
        exact ⟨trivial, (Option.some.inj (Option.ite_none_right_eq_some.mp h).2).symm⟩

theorem recordSnapshot_vault (snapshotId : String) :
    Safe (vaultStep policyId accountId plan) .free
      (fun _ v' => v' = v.withBits
        (recordSnapshot accountId snapshotId (v.indexes accountId) v.bits).1)
      (fun _ v' => v' = v) (BackupTask.recordSnapshot snapshotId) v := by
  refine Safe.op trivial trivial ?_ ?_
  · intro inserted v' h
    exact ⟨trivial, (Option.some.inj (Option.ite_none_right_eq_some.mp h).2).symm⟩
  · intro e v' h
    exact ⟨trivial, (Option.some.inj h).symm⟩

theorem applyRetention_vault :
    Safe (vaultStep policyId accountId plan) .free
      (fun removed v' => (∃ printed, plan.forget = .ok printed ∧
        removed = removedSnapshotIds printed) ∧ v' = retained accountId plan v)
      (fun _ v' => (∃ e, plan.forget = .error e) ∧ v' = retained accountId plan v)
      applyRetention v := by
  refine Safe.op trivial trivial ?_ ?_
  · intro removed v' h
    cases hforget : plan.forget with
    | error e => simp [vaultStep, hforget] at h
    | ok printed =>
        simp only [vaultStep, hforget] at h
        obtain ⟨hsame, hv⟩ := Option.ite_none_right_eq_some.mp h
        exact ⟨trivial, ⟨printed, rfl, hsame⟩, (Option.some.inj hv).symm⟩
  · intro e v' h
    cases hforget : plan.forget with
    | ok printed => simp [vaultStep, hforget] at h
    | error e' =>
        simp only [vaultStep, hforget] at h
        exact ⟨trivial, ⟨e', rfl⟩, (Option.some.inj (Option.ite_none_right_eq_some.mp h).2).symm⟩

/-- A deletion that fails is swallowed. -/
theorem pruneSnapshot_vault (snapshotId : String) :
    Safe (vaultStep policyId accountId plan) .free
      (fun _ v' => v' = if plan.pruneFails snapshotId = true then v
        else v.withBits (pruneSnapshot snapshotId v.bits).1)
      (fun _ _ => False) ((BackupTask.pruneSnapshot snapshotId).handle fun _ => pure ()) v := by
  apply Safe.handle
  refine Safe.op trivial trivial ?_ ?_
  · intro _ v' h
    refine ⟨trivial, ?_⟩
    by_cases hfails : plan.pruneFails snapshotId = true
    · simp [vaultStep, hfails] at h
    · simp only [vaultStep, if_neg hfails] at h
      rw [if_neg hfails]
      exact (Option.some.inj h).symm
  · intro e v' h
    refine ⟨trivial, trivial, ?_⟩
    obtain ⟨hfails, hv⟩ := Option.ite_none_right_eq_some.mp h
    rw [if_pos hfails]
    exact (Option.some.inj hv).symm

/-! ## The phases -/

/-- restic has not run, or it has. -/
theorem backupPhase_vault :
    Safe (vaultStep policyId accountId plan) .free
      (fun summary v => plan.backup = .ok summary ∧ v = backedUp accountId plan v₀)
      (fun _ v => v = v₀ ∨ v = backedUp accountId plan v₀) backupPhase v₀ := by
  refine still_bind rfl (fun _ => .inl rfl) fun _ => still_bind rfl (fun _ => .inl rfl) fun _ =>
    still_bind rfl (fun _ => .inl rfl) fun ready => ?_
  split
  · refine still_bind rfl (fun _ => .inl rfl) fun _ => still_bind rfl (fun _ => .inl rfl) fun _ =>
      still_bind rfl (fun _ => .inl rfl) fun _ => ?_
    apply Safe.bind
    refine waitRestic_vault.post ?_ fun _ _ _ h => .inr h
    intro summary v _ h
    refine still_bind rfl (fun _ => .inr h.2) fun _ => ⟨trivial, h⟩
  · exact ⟨trivial, .inl rfl⟩

/-- The rows that a backup with this summary may record. -/
def recordedRows (accountId : Id) (index : MailIndex H) (summary : Summary) :
    List (SnapshotMessage H) :=
  if given summary.snapshotId = true then
    (aliveMessages index).map fun row => ⟨summary.snapshotId.getD "", accountId, row.1⟩
  else []

theorem recordPhase_vault (summary : Summary) :
    Safe (vaultStep policyId accountId plan) .free
      (fun _ v' => v' = v ∨
        v' = v.withBits (insertIgnore v.bits
          (recordedRows accountId (v.indexes accountId) summary)))
      (fun _ v' => v' = v) (recordPhase summary) v := by
  unfold recordPhase recordedRows
  split
  · refine still_bind rfl (fun _ => rfl) fun _ => ?_
    apply Safe.bind
    apply Safe.handle
    refine (recordSnapshot_vault _).post ?_ ?_
    · exact fun _ _ _ h => ⟨trivial, .inr h⟩
    · exact fun _ _ _ h => ⟨trivial, trivial, .inl h⟩
  · exact ⟨trivial, .inl rfl⟩

/-- The rows under the ids given are gone, but for those whose deletion failed. -/
def Pruned (plan : ResticRun) (removed : List String) (before after : List (SnapshotMessage H)) :
    Prop :=
  ∀ r, r ∈ after ↔ r ∈ before ∧ (r.snapshotId ∈ removed → plan.pruneFails r.snapshotId = true)

theorem pruneLoop_vault (removed : List String) (w : Vault H) :
    Safe (vaultStep policyId accountId plan) .free
      (fun _ v' => v' = w.withBits v'.bits ∧ Pruned plan removed w.bits v'.bits)
      (fun _ _ => False)
      (removed.foldlM
        (fun _ snapshotId => (BackupTask.pruneSnapshot snapshotId).handle fun _ => pure ()) ()) w := by
  refine Safe.foldlM
    (fun done _ v' => v' = w.withBits v'.bits ∧ Pruned plan done w.bits v'.bits) removed ?_ trivial ?_
  · exact ⟨rfl, fun r => by simp⟩
  · intro done sid rest _ v _ _ hv
    refine (pruneSnapshot_vault sid).post ?_ fun _ _ _ h => h
    intro _ v' _ h
    by_cases hfails : plan.pruneFails sid = true
    · rw [if_pos hfails] at h
      rw [h]
      refine ⟨hv.1, fun r => ?_⟩
      rw [hv.2 r, List.mem_append, List.mem_singleton]
      constructor
      · exact fun hr => ⟨hr.1, fun hsid => hsid.elim hr.2 fun hsame => hsame ▸ hfails⟩
      · exact fun hr => ⟨hr.1, fun hsid => hr.2 (.inl hsid)⟩
    · rw [if_neg hfails] at h
      rw [h]
      refine ⟨by rw [hv.1]; rfl, fun r => ?_⟩
      simp only [Vault.withBits, pruneSnapshot, List.mem_filter, hv.2 r,
        decide_eq_true_eq, List.mem_append, List.mem_singleton]
      constructor
      · exact fun hr => ⟨hr.1.1, fun hsid => hsid.elim hr.1.2 fun hsame => absurd hsame hr.2⟩
      · intro hr
        refine ⟨⟨hr.1, fun hsid => hr.2 (.inl hsid)⟩, fun hsame => hfails ?_⟩
        exact hsame ▸ hr.2 (.inr hsame)

/-- How retention leaves a vault. -/
def Retained (accountId : Id) (plan : ResticRun) (w v : Vault H) : Prop :=
  (∃ e, plan.forget = .error e) ∧ v = retained accountId plan w ∨
    ∃ printed, plan.forget = .ok printed ∧ v = (retained accountId plan w).withBits v.bits ∧
      Pruned plan (removedSnapshotIds printed) w.bits v.bits

theorem retentionPhase_vault (w : Vault H) :
    Safe (vaultStep policyId accountId plan) .free (fun _ v => Retained accountId plan w v)
      (fun _ v => v = w ∨ Retained accountId plan w v) retentionPhase w := by
  refine still_bind rfl (fun _ => .inl rfl) fun _ => still_bind rfl (fun _ => .inl rfl) fun _ => ?_
  apply Safe.bind
  refine applyRetention_vault.post ?_ fun _ _ _ h => .inr (.inl h)
  intro removed v _ h
  obtain ⟨⟨printed, hforget, hremoved⟩, hv⟩ := h
  rw [hv, hremoved]
  refine (pruneLoop_vault _ _).post ?_ fun _ _ _ h => h.elim
  exact fun _ v' _ h => .inr ⟨printed, hforget, h.1, h.2⟩

/-- restic has made its backup, and rows may have been recorded. -/
def Backed (accountId : Id) (plan : ResticRun) (v₀ w : Vault H) : Prop :=
  ∃ rows, (rows = [] ∨ ∃ summary, plan.backup = .ok summary ∧
      rows = recordedRows accountId (v₀.indexes accountId) summary) ∧
    w = (backedUp accountId plan v₀).withBits (insertIgnore v₀.bits rows)

/-- What a backup can leave. -/
def Ended (accountId : Id) (plan : ResticRun) (v₀ v : Vault H) : Prop :=
  v = v₀ ∨ Backed accountId plan v₀ v ∨
    ∃ w, Backed accountId plan v₀ w ∧ Retained accountId plan w v

theorem backedUp_backed : Backed accountId plan v₀ (backedUp accountId plan v₀) :=
  ⟨[], .inl rfl, rfl⟩

theorem runPhases_vault :
    Safe (vaultStep policyId accountId plan) .free (fun _ => Ended accountId plan v₀)
      (fun _ => Ended accountId plan v₀) runPhases v₀ := by
  apply Safe.bind
  refine backupPhase_vault.post ?_ ?_
  · intro summary v _ h
    obtain ⟨hsummary, rfl⟩ := h
    apply Safe.bind
    refine (recordPhase_vault summary).post ?_ ?_
    · intro _ w _ h
      have hbacked : Backed accountId plan v₀ w := by
        cases h with
        | inl h => rw [h]; exact backedUp_backed
        | inr h => exact ⟨_, .inr ⟨summary, hsummary, rfl⟩, h⟩
      apply Safe.bind
      refine (retentionPhase_vault w).post ?_ ?_
      · intro _ v _ h
        refine (still_safe (recordSuccess_still summary)).post ?_ ?_ <;>
          exact fun _ v' _ hv => hv ▸ .inr (.inr ⟨w, hbacked, h⟩)
      · intro _ v _ h
        cases h with
        | inl h => exact .inr (.inl (h ▸ hbacked))
        | inr h => exact .inr (.inr ⟨w, hbacked, h⟩)
    · exact fun _ w _ h => .inr (.inl (h ▸ backedUp_backed))
  · intro _ v _ h
    cases h with
    | inl h => exact .inl h
    | inr h => exact .inr (.inl (h ▸ backedUp_backed))

/-- The rest of the program changes nothing. -/
theorem then_still {p : BackupTask α} {I : Vault H → Prop} (hp : p.Only fun o => still o = true)
    (hv : I v) : Safe (vaultStep policyId accountId plan) .free (fun _ => I) (fun _ => I) p v :=
  (still_safe hp).post (fun _ _ _ h => h ▸ hv) fun _ _ _ h => h ▸ hv

theorem executeBackup_vault :
    Safe (vaultStep policyId accountId plan) .free
      (fun _ => Ended accountId plan v₀) (fun _ => Ended accountId plan v₀)
      (executeBackup policyId) v₀ := by
  refine still_bind rfl (fun _ => .inl rfl) ?_
  intro (db : BackupDb)
  cases db.policies.get? policyId with
  | none => exact ⟨trivial, .inl rfl⟩
  | some backup =>
      dsimp only
      cases db.accounts.get? backup.accountId with
      | none =>
          refine then_still ?_ (.inl rfl)
          exact Prog.Only.bind (Prog.Only.op rfl) fun _ => Prog.Only.op rfl
      | some account =>
          refine still_bind rfl (fun _ => .inl rfl) fun _ =>
            still_bind rfl (fun _ => .inl rfl) fun _ => still_bind rfl (fun _ => .inl rfl) fun _ =>
            still_bind rfl (fun _ => .inl rfl) fun _ => still_bind rfl (fun _ => .inl rfl) fun _ => ?_
          apply Safe.ensure
          apply Safe.handle
          refine runPhases_vault.post ?_ ?_
          · exact fun _ _ _ h => then_still (backupCleanUp_still _) h
          · intro text _ _ h
            refine (then_still (backupFailed_still text) h).post ?_ ?_ <;>
              exact fun _ _ _ h => then_still (backupCleanUp_still _) h

/-- A whole run leaves one of these vaults. -/
theorem ended_of_run {tr p} (hrun : Run (vaultStep policyId accountId plan)
    (executeBackup policyId) v₀ tr p v) (hend : p.finished = true) : Ended accountId plan v₀ v :=
  (executeBackup_vault.run hrun).finished hend

end MailFallback.Snapshots
