import MailFallback.Sync.Attempt
import MailFallback.Sync.Actors

/-! # The straight line of a sync run

A run in which no exception comes out of an operation ends with one closing assignment, and
the rows are what it makes of the rows before it. -/

namespace MailFallback

open Storage Effects SyncTask

abbrev SyncLog := List (Event SyncOp SyncAns SyncExc)

/-- The assignments that a run makes. -/
def writes (log : SyncLog) : List Write :=
  log.filterMap fun event => match event with
    | ⟨.stage _ w, _⟩ => some w
    | _ => none

/-- An exception has come out of an operation, those that are swallowed apart. -/
def Record.Astray (r : Record) : Prop :=
  r.setupRaised = true ∨ r.bodyRaised = true ∨ r.cleanUpRaised = true

/-- What encryption and `mbsync` do not produce: an empty text, and the one that stands for a
token that was not refreshed. -/
def Write.excluded : Write → Bool
  | .credentials value => decide (value = "")
  | .result _ output _ _ => decide (output = tokenRefreshFailedText)
  | _ => false

/-- A failure that is neither a pause nor a stop. -/
def Write.isFailure : Write → Bool
  | .capped .. | .errored _ => true
  | _ => false

/-- The closing assignments of the straight line, and the rows they find. -/
def Write.Fits (j : SyncJob) (a : Account) : Write → Prop
  | .tokenRefreshFailed .. => a.authType = .oauth2 ∧ given j.signal = false
  | .completed _ => True
  | .paused kind _ => kind = "budget_paused" ∨ kind = "throttled" ∨ kind = "transient"
  | .capped message _ => message ≠ tokenRefreshFailedText
  | .stopped output =>
      given j.signal = true ∧ j.log = some output ∧ output ≠ tokenRefreshFailedText
  | .errored output => j.log = some output ∧ output ≠ tokenRefreshFailedText
  | _ => False

/-! ## Reasoning along the straight line -/

section Straight

variable (jobId : Id)

abbrev Run.State := Attempt × SyncLog

/-- Off the straight line, or a text that is not produced. -/
def Astray (s : Attempt × SyncLog) : Prop :=
  s.1.l.record.Astray ∨ ∃ w ∈ writes s.2, w.excluded = true

/-- The program leaves with `Q`, unless it goes astray. -/
def Straight {α : Type} (Q : α → Attempt × SyncLog → Prop) (p : SyncTask α)
    (s : Attempt × SyncLog) : Prop :=
  Safe (attemptStep jobId).logged .free (fun a s => Astray s ∨ Q a s) (fun _ s => Astray s) p s

end Straight

variable {jobId accountId : Id} {α β : Type} {s s' : Attempt × SyncLog}
  {Q : α → Attempt × SyncLog → Prop} {p : SyncTask α}

@[simp] theorem writes_append (log log' : SyncLog) :
    writes (log ++ log') = writes log ++ writes log' := List.filterMap_append

@[simp] theorem read_record (l : Local) (db : Db) : (l.read jobId db).record = l.record := by
  unfold Local.read
  split
  · rfl
  · split <;> rfl

theorem Record.Astray.raise {r : Record} (h : r.Astray) (part : Option Part) :
    (r.raise part).Astray := by
  cases part with
  | none => exact h
  | some part => cases part <;> simp_all [Record.Astray, Record.raise]

/-- An operation that succeeds does not lead off the straight line, or back to it. -/
theorem next_ok_astray {o : SyncOp} {a : SyncAns o} {l : Local} :
    (l.next jobId o (.ok a)).record.Astray ↔ l.record.Astray := by
  cases o with
  | view =>
      simp only [Local.next]
      split
      · exact Iff.of_eq (congrArg Record.Astray (read_record l (show Db from a)))
      · rfl
  | refreshOauthToken credentials =>
      simp only [Local.next]
      split <;> rfl
  | _ => exact Iff.rfl

theorem next_astray {o : SyncOp} {r : Except SyncExc (SyncAns o)} {l : Local}
    (h : l.record.Astray) : (l.next jobId o r).record.Astray := by
  cases r with
  | ok a => exact next_ok_astray.mpr h
  | error e =>
      cases o with
      | writeConfig content => exact h.raise (some .body)
      | _ => exact h.raise _

theorem Astray.step {o : SyncOp} {r : Except SyncExc (SyncAns o)} (h : Astray s)
    (hstep : (attemptStep jobId).logged o s r = some s') : Astray s' := by
  obtain ⟨hattempt, hlog⟩ := Machine.logged_eq hstep
  have hl := localStep_eq (attemptStep_eq hattempt).1
  cases h with
  | inl h =>
      left
      rw [hl]
      exact next_astray h
  | inr h =>
      obtain ⟨w, hw, hexcluded⟩ := h
      refine .inr ⟨w, ?_, hexcluded⟩
      rw [hlog, writes_append]
      exact List.mem_append_left _ hw

/-- Off the straight line nothing is promised any more. -/
theorem Straight.astray (h : Astray s) : Straight jobId Q p s := by
  unfold Straight
  induction p generalizing s with
  | ret a => exact ⟨trivial, .inl h⟩
  | raise e => exact ⟨trivial, h⟩
  | perform o k ih => exact ⟨trivial, trivial, fun r s' hr => ih r (h.step hr)⟩

theorem Straight.pure {a : α} (h : Q a s) : Straight jobId Q (pure a) s := ⟨trivial, .inr h⟩

theorem Straight.mono {Q' : α → Attempt × SyncLog → Prop} (h : Straight jobId Q p s)
    (hQ : ∀ a s, Q a s → Q' a s) : Straight jobId Q' p s :=
  Safe.post h (fun a s _ hq => hq.imp_right (hQ a s)) fun _ _ _ he => he

theorem Straight.bind {f : α → SyncTask β} {R : β → Attempt × SyncLog → Prop}
    (h : Straight jobId (fun a s => Straight jobId R (f a) s) p s) :
    Straight jobId R (p >>= f) s := by
  refine Safe.bind (Safe.post h ?_ fun _ _ _ he => he)
  intro a s _ hq
  cases hq with
  | inl hastray => exact Straight.astray hastray
  | inr hq => exact hq

theorem Straight.handle {f : SyncExc → SyncTask α} (h : Straight jobId Q p s) :
    Straight jobId Q (p.handle f) s :=
  Safe.handle (Safe.post h (fun _ _ _ hq => hq) fun _ _ _ he => Straight.astray he)

theorem Straight.ensure {q : SyncTask Unit}
    (h : Straight jobId (fun a s => Straight jobId (fun _ => Q a) q s) p s) :
    Straight jobId Q (p.ensure q) s := by
  refine Safe.ensure (Safe.post h ?_ ?_)
  · intro a s _ hq
    cases hq with
    | inl hastray => exact Safe.post (Straight.astray hastray) (fun _ _ _ h => h) fun _ _ _ h => h
    | inr hq => exact hq
  · intro e s _ he
    have hrest : Straight jobId (fun _ _ => False) q s := Straight.astray he
    refine Safe.post hrest ?_ fun _ _ _ h => h
    intro _ s _ h
    exact h.resolve_right id

theorem astray_of_error {o : SyncOp} {e : SyncExc} (hpart : o.part.isSome = true)
    (hstep : (attemptStep jobId).logged o s (.error e) = some s') : Astray s' := by
  have hl := localStep_eq (attemptStep_eq (Machine.logged_eq hstep).1).1
  have hraised : ∀ part, (s.1.l.record.raise (some part)).Astray := by
    intro part
    cases part <;> simp [Record.Astray, Record.raise]
  left
  rw [hl]
  cases o with
  | writeConfig content => exact hraised .body
  | countUpstreamMessages => cases hpart
  | cleanupOldJobs accountId => cases hpart
  | _ => exact hraised _

/-- Of an operation that is not swallowed only the success matters. -/
theorem Straight.op {o : SyncOp} {Q : SyncAns o → Attempt × SyncLog → Prop}
    (hpart : o.part.isSome = true)
    (h : ∀ a s', (attemptStep jobId).logged o s (.ok a) = some s' → Astray s' ∨ Q a s') :
    Straight jobId Q (SyncTask.op o) s :=
  Safe.op trivial trivial (fun a s' hstep => ⟨trivial, h a s' hstep⟩)
    fun _ _ hstep => ⟨trivial, astray_of_error hpart hstep⟩

/-! ## The operations -/

/-- The rows as a commit would leave them. -/
def rows (jobId : Id) (s : Attempt × SyncLog) : Db := pending jobId s.1.l.staged s.1.db

/-- The same rows, pending assignments and assignments so far. -/
structure Frame (s s' : Attempt × SyncLog) : Prop where
  db : s'.1.db = s.1.db
  staged : s'.1.l.staged = s.1.l.staged
  writes : writes s'.2 = writes s.2

theorem Frame.rows (h : Frame s s') : rows jobId s' = rows jobId s := by
  simp only [MailFallback.rows, h.db, h.staged]

/-- Neither assigns nor commits. -/
def SyncOp.still : SyncOp → Bool
  | .stage .. | .commit | .cleanupOldJobs _ => false
  | _ => true

@[simp] theorem read_staged (l : Local) (db : Db) : (l.read jobId db).staged = l.staged := by
  unfold Local.read
  split
  · rfl
  · split <;> rfl

theorem next_staged {o : SyncOp} {r : Except SyncExc (SyncAns o)} {l : Local}
    (ho : o.still = true) : (l.next jobId o r).staged = l.staged := by
  cases r with
  | error e => cases o <;> rfl
  | ok a =>
      cases o with
      | view =>
          simp only [Local.next]
          split
          · exact read_staged l (show Db from a)
          · rfl
      | refreshOauthToken credentials =>
          simp only [Local.next]
          split <;> rfl
      | stage accountId w => cases ho
      | commit => cases ho
      | _ => rfl

theorem session_still {o : SyncOp} {r : Except SyncExc (SyncAns o)} {l : Local} {db db' : Db}
    (ho : o.still = true) (h : session jobId l db o r = some db') : db' = db := by
  cases r with
  | error e =>
      cases o with
      | refreshJob =>
          simp only [session] at h
          split at h
          · exact (Option.some.inj h).symm
          · cases h
      | _ => exact (Option.some.inj h).symm
  | ok a =>
      cases o with
      | view =>
          simp only [session] at h
          split at h
          · exact (Option.some.inj h).symm
          · cases h
      | reloadAccount accountId =>
          simp only [session] at h
          split at h
          · exact (Option.some.inj h).symm
          · cases h
      | refreshJob =>
          simp only [session] at h
          split at h
          · exact (Option.some.inj h).symm
          · cases h
      | commit => cases ho
      | cleanupOldJobs accountId => cases ho
      | _ => exact (Option.some.inj h).symm

theorem frame_of_still {o : SyncOp} {r : Except SyncExc (SyncAns o)} (ho : o.still = true)
    (hstep : (attemptStep jobId).logged o s r = some s') : Frame s s' := by
  obtain ⟨hattempt, hlog⟩ := Machine.logged_eq hstep
  obtain ⟨hlocal, hsession⟩ := attemptStep_eq hattempt
  refine ⟨session_still ho hsession, ?_, ?_⟩
  · rw [localStep_eq hlocal]
    exact next_staged ho
  · rw [hlog, writes_append]
    cases o with
    | stage accountId w => cases ho
    | _ => exact List.append_nil _

theorem Straight.still {o : SyncOp} {Q : SyncAns o → Attempt × SyncLog → Prop}
    (hpart : o.part.isSome = true) (ho : o.still = true)
    (h : ∀ a s', Frame s s' → session jobId s.1.l s.1.db o (.ok a) = some s'.1.db → Q a s') :
    Straight jobId Q (SyncTask.op o) s :=
  .op hpart fun a s' hstep =>
    .inr (h a s' (frame_of_still ho hstep) (attemptStep_eq (Machine.logged_eq hstep).1).2)

theorem Straight.stage {w : Write} {Q : Unit → Attempt × SyncLog → Prop}
    (h : w.excluded = false → ∀ s', rows jobId s' = w.apply jobId accountId (rows jobId s) →
      writes s'.2 = writes s.2 ++ [w] → Q () s') :
    Straight jobId Q (SyncTask.stage accountId w) s := by
  refine .op rfl fun a s' hstep => ?_
  obtain ⟨hattempt, hlog⟩ := Machine.logged_eq hstep
  obtain ⟨hlocal, hsession⟩ := attemptStep_eq hattempt
  have hdb : s'.1.db = s.1.db := (Option.some.inj hsession).symm
  have hstaged : s'.1.l.staged = s.1.l.staged ++ [(accountId, w)] := by
    rw [localStep_eq hlocal]
    rfl
  have hwrites : writes s'.2 = writes s.2 ++ [w] := by
    rw [hlog, writes_append]
    rfl
  cases hexcluded : w.excluded with
  | true =>
      refine .inl (.inr ⟨w, ?_, hexcluded⟩)
      rw [hwrites]
      exact List.mem_append_right _ (List.mem_singleton_self w)
  | false =>
      refine .inr (h hexcluded s' ?_ hwrites)
      simp only [rows, hdb, hstaged, pending, List.foldl_append, List.foldl_cons, List.foldl_nil]

theorem Straight.commit {Q : Unit → Attempt × SyncLog → Prop}
    (h : ∀ s', rows jobId s' = rows jobId s → s'.1.l.staged = [] → writes s'.2 = writes s.2 →
      Q () s') :
    Straight jobId Q SyncTask.commit s := by
  refine .op rfl fun a s' hstep => ?_
  obtain ⟨hattempt, hlog⟩ := Machine.logged_eq hstep
  obtain ⟨hlocal, hsession⟩ := attemptStep_eq hattempt
  have hstaged : s'.1.l.staged = [] := by
    rw [localStep_eq hlocal]
    rfl
  refine .inr (h s' ?_ hstaged ?_)
  · rw [rows, hstaged, ← Option.some.inj hsession]
    rfl
  · rw [hlog, writes_append]
    exact List.append_nil _

/-- The assignment of one ending, and its commit. -/
theorem Straight.closeWith {w : Time → Write} {Q : Unit → Attempt × SyncLog → Prop}
    (h : ∀ time, (w time).excluded = false → ∀ s',
      rows jobId s' = (w time).apply jobId accountId (rows jobId s) → s'.1.l.staged = [] →
        writes s'.2 = writes s.2 ++ [w time] → Q () s') :
    Straight jobId Q (MailFallback.closeWith accountId w) s := by
  refine .bind (.still rfl rfl fun time s₁ h₁ _ => ?_)
  refine .bind (.stage fun hexcluded s₂ hrows hwrites => ?_)
  refine .commit fun s₃ hrows' hstaged hwrites' => ?_
  refine h time hexcluded s₃ ?_ hstaged ?_
  · rw [hrows', hrows, h₁.rows]
  · rw [hwrites', hwrites, h₁.writes]

/-- Neither assigns nor commits, and no exception of it is swallowed. -/
def SyncOp.Keeps (o : SyncOp) : Prop := o.part.isSome = true ∧ o.still = true

/-- On the straight line the program only reads, and runs processes. -/
def Calm {α : Type} : SyncTask α → Prop
  | .ret _ => True
  | .raise _ => False
  | .perform o k => o.Keeps ∧ ∀ a, Calm (k (.ok a))

theorem Calm.op {o : SyncOp} (ho : o.Keeps) : Calm (SyncTask.op o) := ⟨ho, fun _ => trivial⟩

theorem Calm.bind {f : α → SyncTask β} (hp : Calm p) (hf : ∀ a, Calm (f a)) :
    Calm (Prog.bind p f) := by
  induction p with
  | ret a => exact hf a
  | raise e => exact hp.elim
  | perform o k ih => exact ⟨hp.1, fun a => ih (.ok a) (hp.2 a)⟩

theorem Calm.step {o : SyncOp} {f : SyncAns o → SyncTask β} (ho : o.Keeps)
    (hf : ∀ a, Calm (f a)) : Calm (Prog.bind (SyncTask.op o) f) :=
  .bind (.op ho) hf

theorem Calm.handle {f : SyncExc → SyncTask α} (hp : Calm p) : Calm (p.handle f) := by
  induction p with
  | ret a => trivial
  | raise e => exact hp.elim
  | perform o k ih => exact ⟨hp.1, fun a => ih (.ok a) (hp.2 a)⟩

theorem Calm.ensure {q : SyncTask Unit} (hp : Calm p) (hq : Calm q) : Calm (p.ensure q) :=
  .bind (.handle hp) fun _ => .bind hq fun _ => trivial

/-- Such a part leaves the rows as they are. -/
theorem Straight.calm (hp : Calm p) (hQ : ∀ a s', Frame s s' → Q a s') : Straight jobId Q p s := by
  suffices ∀ t, Frame s t → Straight jobId (fun _ s' => Frame s s') p t from
    (this s ⟨rfl, rfl, rfl⟩).mono hQ
  intro t ht
  clear hQ
  induction p generalizing t with
  | ret a => exact .pure ht
  | raise e => exact hp.elim
  | perform o k ih =>
      refine ⟨trivial, trivial, fun r t' hstep => ?_⟩
      cases r with
      | ok a =>
          have hnext := frame_of_still hp.1.2 hstep
          refine ih (.ok a) (hp.2 a) t' ⟨?_, ?_, ?_⟩
          · rw [hnext.db, ht.db]
          · rw [hnext.staged, ht.staged]
          · rw [hnext.writes, ht.writes]
      | error e => exact Straight.astray (astray_of_error hp.1.1 hstep)

/-! ## The runs of mbsync -/

theorem calm_awaitProcess : Calm awaitProcess := by
  refine .step ⟨rfl, rfl⟩ fun code => ?_
  cases code with
  | some code => trivial
  | none => exact .step ⟨rfl, rfl⟩ fun _ => .op ⟨rfl, rfl⟩

theorem calm_readAndAwait : Calm readAndAwait := by
  refine .step ⟨rfl, rfl⟩ fun read => ?_
  obtain ⟨lines, expired⟩ := read
  have hwait : Calm (do
      let code ← awaitProcess
      pure (code, lines)) := .bind calm_awaitProcess fun _ => trivial
  cases expired with
  | true => exact .step ⟨rfl, rfl⟩ fun _ => .step ⟨rfl, rfl⟩ fun _ => hwait
  | false => exact hwait

theorem calm_invoke : Calm (invoke accountId) := by
  refine .step ⟨rfl, rfl⟩ fun _ => .step ⟨rfl, rfl⟩ fun _ => .step ⟨rfl, rfl⟩ fun stops => ?_
  split
  · exact .step ⟨rfl, rfl⟩ fun _ => calm_readAndAwait
  · exact calm_readAndAwait

theorem calm_runRest (total left : ℕ) (code : Option ℤ) (log : List String) :
    Calm (runRest accountId total left code log) := by
  induction left generalizing code log with
  | zero => trivial
  | succ left ih =>
      refine .step ⟨rfl, rfl⟩ fun stops => ?_
      split
      · trivial
      · refine .bind calm_invoke fun result => ?_
        obtain ⟨code', lines⟩ := result
        dsimp only
        split
        · exact ih _ _
        · trivial

theorem calm_runInvocations (count : ℕ) (log : List String) :
    Calm (runInvocations accountId count log) := by
  cases count with
  | zero => trivial
  | succ count =>
      refine .bind calm_invoke fun result => ?_
      obtain ⟨code, lines⟩ := result
      dsimp only
      split
      · exact calm_runRest _ _ _ _
      · trivial

theorem calm_runTwice (account : Account) (count : ℕ) : Calm (runTwice account accountId count) := by
  refine .bind (calm_runInvocations count []) fun result => ?_
  obtain ⟨code, log⟩ := result
  refine .step ⟨rfl, rfl⟩ fun stops => ?_
  split
  · refine .step ⟨rfl, rfl⟩ fun reconciled => .step ⟨rfl, rfl⟩ fun stops => ?_
    split
    · exact .bind (calm_runInvocations count _) fun _ => trivial
    · trivial
  · trivial

theorem calm_runAndRetry (account : Account) (count : ℕ) (logToDisk : Bool) :
    Calm (runAndRetry account accountId count logToDisk) := by
  cases logToDisk with
  | true => exact .step ⟨rfl, rfl⟩ fun _ => calm_runTwice account count
  | false => exact calm_runTwice account count

theorem calm_endRuns (logToDisk : Bool) : Calm (endRuns logToDisk) := by
  refine .step ⟨rfl, rfl⟩ fun _ => .step ⟨rfl, rfl⟩ fun _ => ?_
  cases logToDisk with
  | true => exact .op ⟨rfl, rfl⟩
  | false => trivial

end MailFallback
