import MailFallback.Snapshots.Backfill
import MailFallback.Snapshots.BackupRun

/-! # Which bits name real snapshots

A bit is written under the id that the summary of a backup gives, and everything else knows a
snapshot by its short id. The bits stay true of the repositories along the runs in which these
are the same, retention ends what it began, and no two accounts have a short id in common. -/

namespace MailFallback.Snapshots

open Storage PyString Index Effects Transition

variable {e : SnapshotEntry} {s : Snapshot}

/-! ## Ids -/

theorem Snapshot.shortId_ne (s : Snapshot) : s.shortId ≠ "" := by
  intro h
  have hchars : s.id.toList.take 8 = [] := by
    simpa [Snapshot.shortId, take] using congrArg String.toList h
  rw [List.take_eq_nil_iff] at hchars
  have hempty : s.id.toList = [] := hchars.resolve_left (by decide)
  exact s.id_ne (String.toList_inj.mp hempty)

theorem take_take (s : String) (n : ℕ) : take (take s n) n = take s n := by
  simp [take, List.take_take]

theorem sid_of_prints (h : Prints e s) : e.sid = s.shortId := by
  unfold SnapshotEntry.sid
  cases h.1 with
  | inl hshort =>
      rw [hshort, if_neg (by simp [given])]
      cases h.2 with
      | inl hid => rw [hid]; rfl
      | inr hid => rw [hid]; exact take_take s.id 8
  | inr hshort =>
      rw [hshort, if_pos (by simp [given, s.shortId_ne])]
      rfl

/-- restic can print every snapshot. -/
theorem prints_id (s : Snapshot) : Prints ⟨none, some s.id⟩ s := ⟨.inl rfl, .inl rfl⟩

variable {plan : ResticRun} {printed : List SnapshotEntry} {sid : String}

theorem mem_removedSnapshotIds (hplan : plan.Faithful) (hforget : plan.forget = .ok printed) :
    sid ∈ removedSnapshotIds printed ↔ ∃ s ∈ plan.forgotten, s.shortId = sid := by
  simp only [removedSnapshotIds, List.mem_filter, List.mem_map, decide_eq_true_eq]
  constructor
  · intro h
    obtain ⟨⟨e, he, hsid⟩, -⟩ := h
    obtain ⟨s, hs, hprints⟩ := (hplan.printed printed hforget).2 e he
    exact ⟨s, hs, (sid_of_prints hprints).symm.trans hsid⟩
  · intro h
    obtain ⟨s, hs, hsid⟩ := h
    obtain ⟨e, he, hprints⟩ := (hplan.printed printed hforget).1 s hs
    exact ⟨⟨e, he, (sid_of_prints hprints).trans hsid⟩, hsid ▸ s.shortId_ne⟩

/-! ## The law and its condition -/

variable {H : Type} {accountId : Id} {v v' v₀ w : Vault H}
  {r : SnapshotMessage H}

/-- Every bit names a snapshot that the repository of its account holds, by the string that
restic's lists are read with: in a backfill, after a retention and in a preview. -/
def Truthful (v : Vault H) : Prop :=
  ∀ r ∈ v.bits, ∃ s ∈ v.repositories r.accountId, ∀ e, Prints e s → e.sid = r.snapshotId

theorem truthful_iff :
    Truthful v ↔ ∀ r ∈ v.bits, ∃ s ∈ v.repositories r.accountId, s.shortId = r.snapshotId := by
  refine forall₂_congr fun r _ => exists_congr fun s => and_congr_right fun _ => ?_
  constructor
  · exact fun h => (sid_of_prints (prints_id s)).symm.trans (h _ (prints_id s))
  · exact fun h e hprints => (sid_of_prints hprints).trans h

/-- A preview finds a message in every snapshot that has a bit for it. -/
theorem mem_matching [DecidableEq H] {snaps : List SnapshotEntry} (htrue : Truthful v)
    (hlisted : ∀ s ∈ v.repositories r.accountId, ∃ e ∈ snaps, Prints e s) (hr : r ∈ v.bits) :
    r.snapshotId ∈ matching r.accountId r.messageIdHash v.bits snaps := by
  obtain ⟨s, hs, hsid⟩ := htrue r hr
  obtain ⟨e, he, hprints⟩ := hlisted s hs
  refine List.mem_filter.mpr ⟨List.mem_map.mpr ⟨e, he, hsid e hprints⟩, ?_⟩
  simpa using hr

/-- The snapshots of the account at the end of the backup itself. -/
def atRetention (v : Vault H) (accountId : Id) (plan : ResticRun) : List Snapshot :=
  v.repositories accountId ++ plan.created.toList

/-- Retention has told the index of an id that restic removed. -/
def Reported (plan : ResticRun) (sid : String) : Prop :=
  (∃ printed, plan.forget = .ok printed) ∧ plan.pruneFails sid = false

/-- The account has, or gets, bits under that id. -/
def HasBits (v : Vault H) (accountId : Id) (plan : ResticRun) (sid : String) : Prop :=
  (∃ h, ⟨sid, accountId, h⟩ ∈ v.bits) ∨
    ∃ s, plan.created = some s ∧ s.shortId = sid ∧ aliveMessages (v.indexes accountId) ≠ []

/-- A backup that leaves true bits true. -/
structure CarefulBackup (v : Vault H) (accountId : Id) (plan : ResticRun) : Prop where
  /-- A summary that leads to bits gives the short id. -/
  short : ∀ summary sid, plan.backup = .ok summary → summary.snapshotId = some sid → sid ≠ "" →
    aliveMessages (v.indexes accountId) ≠ [] → ∃ s, plan.created = some s ∧ sid = s.shortId
  /-- An id with bits whose snapshots are all forgotten is pruned. -/
  pruned : ∀ sid, HasBits v accountId plan sid →
    (∀ s ∈ atRetention v accountId plan, s.shortId = sid → s ∈ plan.forgotten) → Reported plan sid
  /-- No other account has bits under an id that is pruned. -/
  apart : ∀ s ∈ plan.forgotten, Reported plan s.shortId →
    ∀ r ∈ v.bits, r.snapshotId = s.shortId → r.accountId = accountId

def Careful (v : Vault H) : VaultEvent H → Prop
  | .backup _ accountId plan => CarefulBackup v accountId plan
  | .backfill .. | .reindex .. => True

/-- What is asked of a step, besides that it keep the bits true. -/
structure RightStep (v : Vault H) (e : VaultEvent H) (v' : Vault H) : Prop where
  truthful : Truthful v'
  others : ∀ r, r.accountId ≠ e.accountId → (r ∈ v'.bits ↔ r ∈ v.bits)
  recorded : ∀ policyId accountId plan, e = .backup policyId accountId plan →
    ∀ r ∈ v'.bits, r ∉ v.bits →
      ∃ s, plan.created = some s ∧ ∀ entry, Prints entry s → entry.sid = r.snapshotId

/-! ## Backups -/

theorem of_mem_recordedRows {index : MailIndex H} {summary : Summary}
    (h : r ∈ recordedRows accountId index summary) :
    r.accountId = accountId ∧ aliveMessages index ≠ [] ∧
      summary.snapshotId = some r.snapshotId ∧ r.snapshotId ≠ "" := by
  unfold recordedRows at h
  cases hsid : summary.snapshotId with
  | none => simp [hsid, given] at h
  | some sid =>
      by_cases hempty : sid = ""
      · simp [hsid, given, hempty] at h
      · simp only [hsid, given, Option.any_some, hempty, ne_eq, not_false_eq_true, decide_true,
          if_true, Option.getD_some, List.mem_map] at h
        obtain ⟨row, hrow, rfl⟩ := h
        exact ⟨rfl, List.ne_nil_of_mem hrow, rfl, hempty⟩

/-- A bit is of the account and names the new snapshot. -/
def Fresh (v : Vault H) (accountId : Id) (plan : ResticRun) (r : SnapshotMessage H) : Prop :=
  r.accountId = accountId ∧ aliveMessages (v.indexes accountId) ≠ [] ∧
    ∃ s, plan.created = some s ∧ s.shortId = r.snapshotId

/-- The vault between the backup and the retention. -/
structure Between (v₀ : Vault H) (accountId : Id) (plan : ResticRun) (w : Vault H) : Prop where
  own : w.repositories accountId = atRetention v₀ accountId plan
  others : ∀ b, b ≠ accountId → w.repositories b = v₀.repositories b
  kept : ∀ r ∈ v₀.bits, r ∈ w.bits
  added : ∀ r ∈ w.bits, r ∈ v₀.bits ∨ Fresh v₀ accountId plan r

theorem Backed.between [DecidableEq H] (h : Backed accountId plan v₀ w) (hcareful : CarefulBackup v₀ accountId plan) :
    Between v₀ accountId plan w := by
  obtain ⟨rows, hrows, rfl⟩ := h
  constructor
  · exact Function.update_self ..
  · exact fun b hb => Function.update_of_ne hb ..
  · exact fun r hr => mem_insertIgnore.mpr (.inl hr)
  · intro r hr
    cases mem_insertIgnore.mp hr with
    | inl hold => exact .inl hold
    | inr hnew =>
        cases hrows with
        | inl hempty => simp [hempty] at hnew
        | inr hrecorded =>
            obtain ⟨summary, hbackup, rfl⟩ := hrecorded
            obtain ⟨haccount, halive, hsid, hne⟩ := of_mem_recordedRows hnew
            obtain ⟨s, hcreated, hshort⟩ := hcareful.short summary _ hbackup hsid hne halive
            exact .inr ⟨haccount, halive, s, hcreated, hshort.symm⟩

section Between

variable (hbetween : Between v₀ accountId plan w)

include hbetween

theorem Between.mem_atRetention {s : Snapshot} :
    s ∈ w.repositories accountId ↔ s ∈ v₀.repositories accountId ∨ plan.created = some s := by
  rw [hbetween.own, atRetention, List.mem_append, Option.mem_toList]

theorem Between.truthful (htrue : Truthful v₀) : Truthful w := by
  rw [truthful_iff] at htrue ⊢
  intro r hr
  cases hbetween.added r hr with
  | inl hold =>
      obtain ⟨s, hs, hsid⟩ := htrue r hold
      by_cases haccount : r.accountId = accountId
      · rw [haccount] at hs ⊢
        exact ⟨s, hbetween.mem_atRetention.mpr (.inl hs), hsid⟩
      · rw [hbetween.others _ haccount]
        exact ⟨s, hs, hsid⟩
  | inr hnew =>
      obtain ⟨haccount, -, s, hcreated, hsid⟩ := hnew
      rw [haccount]
      exact ⟨s, hbetween.mem_atRetention.mpr (.inr hcreated), hsid⟩

theorem Between.hasBits (hr : r ∈ w.bits) (haccount : r.accountId = accountId) :
    HasBits v₀ accountId plan r.snapshotId := by
  cases hbetween.added r hr with
  | inl hold =>
      refine .inl ⟨r.messageIdHash, ?_⟩
      rw [← haccount]
      exact hold
  | inr hnew =>
      obtain ⟨-, halive, s, hcreated, hsid⟩ := hnew
      exact .inr ⟨s, hcreated, hsid, halive⟩

theorem Between.other (haccount : r.accountId ≠ accountId) : r ∈ w.bits ↔ r ∈ v₀.bits := by
  constructor
  · exact fun hr => (hbetween.added r hr).resolve_right fun hnew => haccount hnew.1
  · exact hbetween.kept r

end Between

theorem Retained.bits_subset (h : Retained accountId plan w v) (hr : r ∈ v.bits) : r ∈ w.bits := by
  cases h with
  | inl h => rw [h.2] at hr; exact hr
  | inr h =>
      obtain ⟨printed, -, -, hpruned⟩ := h
      exact ((hpruned r).mp hr).1

theorem Retained.repositories (h : Retained accountId plan w v) :
    v.repositories = (retained accountId plan w).repositories := by
  cases h with
  | inl h => rw [h.2]
  | inr h =>
      obtain ⟨printed, -, hv, -⟩ := h
      rw [hv]
      rfl

/-- Bits under a reported id of a forgotten snapshot are gone. -/
theorem Retained.gone (h : Retained accountId plan w v) (hplan : plan.Faithful)
    (hreported : Reported plan s.shortId) (hs : s ∈ plan.forgotten) (hr : r ∈ v.bits) :
    r.snapshotId ≠ s.shortId := by
  intro hsid
  obtain ⟨⟨printed, hforget⟩, hdone⟩ := hreported
  cases h with
  | inl h =>
      obtain ⟨⟨e, herror⟩, -⟩ := h
      rw [hforget] at herror
      cases herror
  | inr h =>
      obtain ⟨printed', hforget', -, hpruned⟩ := h
      have hmem : r.snapshotId ∈ removedSnapshotIds printed' :=
        (mem_removedSnapshotIds hplan hforget').mpr ⟨s, hs, hsid.symm⟩
      have hfails := ((hpruned r).mp hr).2 hmem
      rw [hsid, hdone] at hfails
      cases hfails

/-- A bit that is gone was under a reported id of a forgotten snapshot. -/
theorem Retained.kept (h : Retained accountId plan w v) (hplan : plan.Faithful)
    (hr : r ∈ w.bits)
    (hsafe : ∀ s ∈ plan.forgotten, Reported plan s.shortId → r.snapshotId ≠ s.shortId) :
    r ∈ v.bits := by
  cases h with
  | inl h => rw [h.2]; exact hr
  | inr h =>
      obtain ⟨printed, hforget, -, hpruned⟩ := h
      refine (hpruned r).mpr ⟨hr, fun hmem => ?_⟩
      obtain ⟨s, hs, hsid⟩ := (mem_removedSnapshotIds hplan hforget).mp hmem
      by_contra hfails
      refine hsafe s hs ⟨⟨printed, hforget⟩, ?_⟩ hsid.symm
      rw [hsid]
      exact Bool.eq_false_of_not_eq_true hfails

theorem Retained.truthful (h : Retained accountId plan w v) (hplan : plan.Faithful)
    (hbetween : Between v₀ accountId plan w) (hcareful : CarefulBackup v₀ accountId plan)
    (htrue : Truthful v₀) : Truthful v := by
  have htrue' := truthful_iff.mp (hbetween.truthful htrue)
  rw [truthful_iff]
  intro r hr
  obtain ⟨s, hs, hsid⟩ := htrue' r (h.bits_subset hr)
  rw [h.repositories]
  by_cases haccount : r.accountId = accountId
  · rw [haccount] at hs ⊢
    have hfilter : (retained accountId plan w).repositories accountId =
        (w.repositories accountId).filter fun s => s ∉ plan.forgotten := Function.update_self ..
    by_contra hnone
    -- No snapshot of that short id is left, so the id was reported and the bit deleted.
    have hall : ∀ s ∈ atRetention v₀ accountId plan, s.shortId = r.snapshotId →
        s ∈ plan.forgotten := by
      intro s' hs' hsid'
      by_contra hleft
      refine hnone ⟨s', ?_, hsid'⟩
      rw [hfilter, hbetween.own]
      simp [hs', hleft]
    have hreported := hcareful.pruned _ (hbetween.hasBits (h.bits_subset hr) haccount) hall
    rw [hbetween.own] at hs
    rw [← hsid] at hreported
    exact h.gone hplan hreported (hall s hs hsid) hr hsid.symm
  · have hother : (retained accountId plan w).repositories r.accountId =
        w.repositories r.accountId := Function.update_of_ne haccount ..
    rw [hother]
    exact ⟨s, hs, hsid⟩

theorem Retained.other (h : Retained accountId plan w v) (hplan : plan.Faithful)
    (hbetween : Between v₀ accountId plan w) (hcareful : CarefulBackup v₀ accountId plan)
    (haccount : r.accountId ≠ accountId) : r ∈ v.bits ↔ r ∈ v₀.bits := by
  rw [← hbetween.other haccount]
  refine ⟨h.bits_subset, fun hr => h.kept hplan hr fun s hs hreported hsid => ?_⟩
  exact haccount (hcareful.apart s hs hreported r ((hbetween.other haccount).mp hr) hsid)

/-! ## Every step, every run -/

variable [DecidableEq H]

theorem Ended.right {policyId : Id} (h : Ended accountId plan v₀ v) (hplan : plan.Faithful)
    (hcareful : CarefulBackup v₀ accountId plan) (htrue : Truthful v₀) :
    RightStep v₀ (.backup policyId accountId plan) v := by
  have hnew : ∀ r, r ∈ v₀.bits ∨ Fresh v₀ accountId plan r → r ∉ v₀.bits →
      ∃ s, plan.created = some s ∧ ∀ entry, Prints entry s → entry.sid = r.snapshotId := by
    intro r hr hfree
    obtain ⟨-, -, s, hcreated, hsid⟩ := hr.resolve_left hfree
    exact ⟨s, hcreated, fun entry hprints => (sid_of_prints hprints).trans hsid⟩
  rcases h with hv | hbacked | ⟨w, hbacked, hretained⟩
  · subst hv
    exact ⟨htrue, fun _ _ => Iff.rfl, fun _ _ _ _ r hr hfree => absurd hr hfree⟩
  · have hbetween := hbacked.between hcareful
    refine ⟨hbetween.truthful htrue, fun r hr => hbetween.other hr, ?_⟩
    rintro _ _ _ ⟨⟩ r hr
    exact hnew r (hbetween.added r hr)
  · have hbetween := hbacked.between hcareful
    refine ⟨hretained.truthful hplan hbetween hcareful htrue,
      fun r hr => hretained.other hplan hbetween hcareful hr, ?_⟩
    rintro _ _ _ ⟨⟩ r hr
    exact hnew r (hbetween.added r (hretained.bits_subset hr))

/-- A backfill writes only bits of snapshots that restic lists. -/
theorem backfillSnapshots_added {db : BackupDb} {restic : Restic} {snaps : List SnapshotEntry}
    {index : MailIndex H} {bits : List (SnapshotMessage H)} {b : Backfill H}
    (hsnaps : restic.snapshots = .ok snaps)
    (hrun : backfillSnapshots db restic accountId index bits = .ok b) :
    (∀ r ∈ bits, r ∈ b.bits) ∧
      ∀ r ∈ b.bits, r ∈ bits ∨ r.accountId = accountId ∧ ∃ e ∈ snaps, e.sid = r.snapshotId := by
  obtain ⟨reached, hprefix, -, hbits⟩ := backfillSnapshots_bits hsnaps hrun
  refine ⟨fun r hr => (hbits r).mpr (.inl hr), fun r hr => ((hbits r).mp hr).imp_right ?_⟩
  intro h
  obtain ⟨e, he, -, hsid, haccount, -⟩ := h
  exact ⟨haccount, e, hprefix.subset he, hsid.symm⟩

theorem VaultStep.right {e : VaultEvent H} (h : VaultStep v e v') (hcareful : Careful v e)
    (htrue : Truthful v) : RightStep v e v' := by
  cases h with
  | backup hplan hrun hend => exact (ended_of_run hrun hend).right hplan hcareful htrue
  | @backfill accountId db restic snaps v b hsnaps hlisted hrun =>
      obtain ⟨hkept, hadded⟩ := backfillSnapshots_added hsnaps hrun
      refine ⟨?_, ?_, nofun⟩
      · intro r hr
        cases hadded r hr with
        | inl hold => exact htrue r hold
        | inr hnew =>
            obtain ⟨haccount, entry, hentry, hsid⟩ := hnew
            obtain ⟨s, hs, hprints⟩ := hlisted entry hentry
            rw [haccount]
            exact ⟨s, hs, fun e he => (sid_of_prints he).trans
              ((sid_of_prints hprints).symm.trans hsid)⟩
      · intro r hr
        refine ⟨fun h => (hadded r h).resolve_right fun hnew => hr hnew.1, hkept r⟩
  | reindex => exact ⟨htrue, fun _ _ => Iff.rfl, nofun⟩

/-- Along every run of careful steps the bits are true, and each further careful step keeps
them so, leaves the bits of other accounts alone and records a snapshot under the string that
restic's lists are read with. -/
theorem vault_right (hnone : v₀.bits = []) (hrun : Follows VaultStep Careful v₀ v) :
    Truthful v ∧ ∀ e v', Careful v e → VaultStep v e v' → RightStep v e v' := by
  have htrue : Truthful v := by
    refine hrun.invariant ?_ fun s e s' hs hok hstep => (hstep.right hok hs).truthful
    intro r hr
    rw [hnone] at hr
    cases hr
  exact ⟨htrue, fun e v' hcareful hstep => hstep.right hcareful htrue⟩

/-! ## A full id, and two snapshots with one short id -/

section Sample

def firstSnapshot : Snapshot :=
  ⟨"40a1b2c3d4e5f60718293a4b5c6d7e8f40a1b2c3d4e5f60718293a4b5c6d7e8f", by decide⟩

def secondSnapshot : Snapshot :=
  ⟨"9f8e7d6c5b4a39281706f5e4d3c2b1a09f8e7d6c5b4a39281706f5e4d3c2b1a0", by decide⟩

/-- Another snapshot with the short id of the first one. -/
def twinSnapshot : Snapshot :=
  ⟨"40a1b2c3ffffffffffffffffffffffff40a1b2c3ffffffffffffffffffffffff", by decide⟩

def sampleBackups : BackupDb where
  accounts := (Table.empty.set "ada" { maildirPath := "/mail/ada", storeId := "s" }).set "bob"
    { maildirPath := "/mail/bob", storeId := "s" }
  policies := (Table.empty.set "ada" { accountId := "ada" }).set "bob" { accountId := "bob" }

def sampleReplies (plan : ResticRun) :
    (o : BackupOp) → Vault ℕ → Except BackupExc (BackupAns o)
  | .view, _ => .ok sampleBackups
  | .now, _ => .ok (0 : ℤ)
  | .refreshJob, _ => .ok { policyId := "ada", accountId := "ada", requestedAt := 0 }
  | .loadPolicy, _ => .ok { accountId := "ada" }
  | .initRepo, _ | .recordSnapshot _, _ => .ok true
  | .waitRestic, _ => plan.backup
  | .applyRetention, _ => plan.forget.map removedSnapshotIds
  | .byteCounts, _ => .ok (0, 0)
  | .listSnapshots, _ => .ok (0, none)
  | .stage _, _ | .commit, _ | .tick, _ | .startRestic, _ | .pruneSnapshot _, _
  | .dropProgress, _ | .cleanupOldJobs _, _ => .ok ()

/-- A backup of the account ends, with `f` of what it leaves. -/
def after (accountId : Id) (plan : ResticRun) (f : Vault ℕ → Bool) (v : Vault ℕ) : Bool :=
  (exec (vaultStep accountId accountId plan) (sampleReplies plan) 40 (executeBackup accountId)
    v).any fun out => out.1.finished && f out.2

theorem step_of_after {f : Vault ℕ → Bool} {v : Vault ℕ} (hplan : plan.Faithful)
    (h : after accountId plan f v = true) :
    ∃ v', VaultStep v (.backup accountId accountId plan) v' ∧ f v' = true := by
  obtain ⟨tr, p, v', hrun, hf⟩ := exec_any h
  rw [Bool.and_eq_true] at hf
  exact ⟨v', .backup hplan hrun hf.1, hf.2⟩

/-- A backup whose summary gives an id. -/
def sampleBackup (s : Snapshot) (sid : String) : ResticRun where
  created := some s
  backup := .ok ⟨some sid⟩

/-- A backup that forgets the first snapshot. -/
def forgettingBackup : ResticRun :=
  { sampleBackup secondSnapshot secondSnapshot.id with
    forgotten := [firstSnapshot]
    forget := .ok [⟨some firstSnapshot.shortId, some firstSnapshot.id⟩] }

theorem sampleBackup_faithful {s : Snapshot} {sid : String} (h : sid = s.id ∨ sid = s.shortId) :
    (sampleBackup s sid).Faithful := by
  constructor
  · rintro summary ⟨⟩ sid' ⟨⟩
    exact ⟨s, rfl, h⟩
  · rintro printed ⟨⟩
    exact ⟨nofun, nofun⟩

theorem forgettingBackup_faithful : forgettingBackup.Faithful := by
  constructor
  · rintro summary ⟨⟩ sid ⟨⟩
    exact ⟨secondSnapshot, rfl, .inl rfl⟩
  · rintro printed ⟨⟩
    have hprints : Prints ⟨some firstSnapshot.shortId, some firstSnapshot.id⟩ firstSnapshot :=
      ⟨.inr rfl, .inl rfl⟩
    constructor
    · intro s hs
      rw [List.mem_singleton.mp hs]
      exact ⟨_, List.mem_singleton_self _, hprints⟩
    · intro e he
      rw [List.mem_singleton.mp he]
      exact ⟨_, List.mem_singleton_self _, hprints⟩

def sampleVault : Vault ℕ := { indexes := fun _ => earlyIndex }

/-- An account has a snapshot already. -/
def twinVault : Vault ℕ := sampleVault.withRepository "ada" [firstSnapshot]

/-- A bit outlives its snapshot, as it was recorded under the full id; and the retention of
one account removes the bit of another. -/
theorem bits_go_wrong :
    (∃ v, Follows VaultStep (fun _ _ => True) sampleVault v ∧ ∃ r ∈ v.bits,
      ∀ s ∈ v.repositories r.accountId, r.snapshotId ≠ s.id ∧ r.snapshotId ≠ s.shortId) ∧
    ∃ v e v', Follows VaultStep (fun _ _ => True) twinVault v ∧ VaultStep v e v' ∧
      ∃ r ∈ v.bits, r.accountId ≠ e.accountId ∧ r ∉ v'.bits := by
  constructor
  · have hruns : after "ada" (sampleBackup firstSnapshot firstSnapshot.id)
        (after "ada" forgettingBackup fun v => v.bits.any fun r =>
          (v.repositories r.accountId).all fun s =>
            decide (r.snapshotId ≠ s.id ∧ r.snapshotId ≠ s.shortId)) sampleVault = true := by
      decide +kernel
    obtain ⟨v₁, hfirst, hruns⟩ := step_of_after (sampleBackup_faithful (.inl rfl)) hruns
    obtain ⟨v₂, hsecond, hgone⟩ := step_of_after forgettingBackup_faithful hruns
    refine ⟨v₂, (Follows.refl.step trivial hfirst).step trivial hsecond, ?_⟩
    simpa using hgone
  · have hruns : after "bob" (sampleBackup twinSnapshot twinSnapshot.shortId)
        (fun v => after "ada" forgettingBackup (fun v' => v.bits.any fun r =>
          decide (r.accountId ≠ "ada" ∧ r ∉ v'.bits)) v) twinVault = true := by
      decide +kernel
    obtain ⟨v₁, hfirst, hruns⟩ := step_of_after (sampleBackup_faithful (.inr rfl)) hruns
    obtain ⟨v₂, hsecond, hgone⟩ := step_of_after forgettingBackup_faithful hruns
    refine ⟨v₁, _, v₂, Follows.refl.step trivial hfirst, hsecond, ?_⟩
    simpa [VaultEvent.accountId] using hgone

/-- A backup that records the short id, in a vault without bits. -/
theorem sample_vault_right :
    ∃ v, Follows VaultStep Careful twinVault v ∧ v.bits ≠ [] ∧ Truthful v := by
  have hruns : after "bob" (sampleBackup twinSnapshot twinSnapshot.shortId)
      (fun v => !v.bits.isEmpty) twinVault = true := by
    decide +kernel
  obtain ⟨v, hstep, hbits⟩ := step_of_after (sampleBackup_faithful (.inr rfl)) hruns
  have hcareful : Careful twinVault
      (.backup "bob" "bob" (sampleBackup twinSnapshot twinSnapshot.shortId)) := by
    refine ⟨?_, ?_, nofun⟩
    · rintro summary sid ⟨⟩ ⟨⟩ - -
      exact ⟨twinSnapshot, rfl, rfl⟩
    · intro sid hhas hall
      rcases hhas with ⟨h, hmem⟩ | ⟨s, hcreated, hsid, -⟩
      · cases hmem
      · have hthere : s ∈ atRetention twinVault "bob"
            (sampleBackup twinSnapshot twinSnapshot.shortId) :=
          List.mem_append_right _ (Option.mem_toList.mpr hcreated)
        cases hall s hthere hsid
  have hrun : Follows VaultStep Careful twinVault v := Follows.refl.step hcareful hstep
  exact ⟨v, hrun, by simpa using hbits, (vault_right rfl hrun).1⟩

end Sample

end MailFallback.Snapshots
