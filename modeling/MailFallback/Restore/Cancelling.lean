import MailFallback.Library.Transition
import MailFallback.Tables

/-! # Cancelling a restore

A request adds the job to `_cancel_flags` and commits a status. The worker reads and discards the
flag, refreshes the row and commits, each in a step of its own. -/

namespace MailFallback.RestoreCancel

open Storage Transition

/-! ## The system -/

/-- Where `execute_restore_job` is. -/
inductive Phase where
  | waiting
  /-- Behind the look-up of the job. -/
  | checking
  /-- In the `try`, with what the last look at the flags found. -/
  | running (flagSeen : Bool)
  /-- In the `finally`. -/
  | leaving
  | captured (wasCancelled : Bool)
  | discarded (wasCancelled : Bool)
  | refreshed (wasCancelled : Bool) (status : JobStatus)
  | ended
  deriving DecidableEq, Repr

/-- The worker may still discard the flag. -/
def Phase.discards : Phase → Bool
  | .waiting | .checking | .running _ | .leaving | .captured _ => true
  | _ => false

/-- A request to cancel, with the status of the job when it was loaded. -/
inductive Caller where
  | loaded (status : JobStatus)
  | flagged (status : JobStatus)
  | answered (ok : Bool)
  deriving DecidableEq, Repr

structure RestoreState where
  /-- The committed row. -/
  status : JobStatus := .pending
  error : Option String := none
  restored : ℕ := 0
  failed : ℕ := 0
  /-- The job is in `_cancel_flags`. -/
  cancelFlag : Bool := false
  worker : Phase := .waiting
  callers : List Caller := []
  /-- `cancel_restore_job` has returned success. -/
  succeeded : Bool := false
  deriving DecidableEq, Repr

inductive RestoreEvent where
  /-- A request loads the job. -/
  | load
  /-- `request_cancel` -/
  | request (i : ℕ)
  /-- `cancel_restore_job` of that request -/
  | cancel (i : ℕ)
  | start
  /-- `_fail_job` before the job runs -/
  | refuse (error : String)
  | run
  /-- A commit of the counters. -/
  | count (restored failed : ℕ)
  | look
  /-- `_cancel_job` -/
  | cancelJob
  /-- `_fail_job` in the `try` or one of its handlers -/
  | failJob (error : String)
  | leave
  | capture
  | discard
  | refresh
  | finish

/-- `_finalize_running_job` -/
def finalizeRunningJob (wasCancelled : Bool) (s : RestoreState) : RestoreState :=
  if wasCancelled = true then { s with status := .cancelled }
  else if s.restored = 0 ∧ 0 < s.failed then
    { s with status := .failed, error := some ("All " ++ toString s.failed ++ " messages failed") }
  else if 0 < s.failed then
    { s with status := .completed, error := some (toString s.failed ++ " messages failed") }
  else { s with status := .completed }

/-- `job.status in (JobStatus.pending, JobStatus.running)` -/
def isActive (status : JobStatus) : Bool := status == .pending || status == .running

namespace RestoreState

def setCaller (s : RestoreState) (i : ℕ) (c : Caller) : RestoreState :=
  { s with callers := s.callers.set i c }

/-- `cancel_restore_job`, whose session holds the status that was loaded. -/
def cancelRestoreJob (s : RestoreState) (i : ℕ) (loaded : JobStatus) : RestoreState :=
  if isActive loaded = true then
    { s.setCaller i (.answered true) with
      status := .cancelled, error := some "Cancelled by user", succeeded := true }
  else s.setCaller i (.answered false)

def next (s : RestoreState) : RestoreEvent → Option RestoreState
  | .load => some { s with callers := s.callers ++ [.loaded s.status] }
  | .request i =>
      match s.callers[i]? with
      | some (.loaded status) => some { s.setCaller i (.flagged status) with cancelFlag := true }
      | _ => none
  | .cancel i =>
      match s.callers[i]? with
      | some (.flagged status) => some (s.cancelRestoreJob i status)
      | _ => none
  | .start => if s.worker = .waiting then some { s with worker := .checking } else none
  | .refuse error =>
      if s.worker = .checking then
        some { s with status := .failed, error := some error, worker := .ended }
      else none
  | .run =>
      if s.worker = .checking then some { s with status := .running, worker := .running false }
      else none
  | .count restored failed =>
      match s.worker with
      | .running _ => some { s with restored := restored, failed := failed }
      | _ => none
  | .look =>
      match s.worker with
      | .running _ => some { s with worker := .running s.cancelFlag }
      | _ => none
  | .cancelJob =>
      if s.worker = .running true then
        some { s with status := .cancelled, error := some "Cancelled by user", worker := .leaving }
      else none
  | .failJob error =>
      match s.worker with
      | .running _ => some { s with status := .failed, error := some error, worker := .leaving }
      | _ => none
  | .leave =>
      match s.worker with
      | .running _ => some { s with worker := .leaving }
      | _ => none
  | .capture => if s.worker = .leaving then some { s with worker := .captured s.cancelFlag } else none
  | .discard =>
      match s.worker with
      | .captured wasCancelled =>
          some { s with cancelFlag := false, worker := .discarded wasCancelled }
      | _ => none
  | .refresh =>
      match s.worker with
      | .discarded wasCancelled => some { s with worker := .refreshed wasCancelled s.status }
      | _ => none
  | .finish =>
      match s.worker with
      | .refreshed wasCancelled status =>
          some { (if status = .running then finalizeRunningJob wasCancelled s else s) with
            worker := .ended }
      | _ => none

end RestoreState

/-- Once a cancel has succeeded, the job ends cancelled, and its flag is gone. -/
def Honoured (s : RestoreState) : Prop :=
  s.succeeded = true → s.worker = .ended → s.status = .cancelled ∧ s.cancelFlag = false

/-- No failure is committed after a cancel; no flag that nobody will discard goes with a cancel;
and no cancel is committed when the worker has already decided for completion. -/
def InTime (s : RestoreState) : RestoreEvent → Prop
  | .refuse _ | .failJob _ => s.succeeded = false
  | .request _ => s.worker.discards = true ∨ s.succeeded = false
  | .cancel _ => (s.worker.discards = true ∨ s.cancelFlag = false) ∧
      s.worker ≠ .refreshed false .running
  | _ => True

/-! ## The invariant -/

/-- What a cancel that has succeeded can count on. -/
def RestoreState.Kept (s : RestoreState) : Prop :=
  match s.worker with
  | .captured w => s.status = .cancelled ∨ s.status = .running ∧ w = true
  | .discarded w => (s.status = .cancelled ∨ s.status = .running ∧ w = true) ∧ s.cancelFlag = false
  | .refreshed w seen =>
      (seen = .running ∧ w = true ∨ seen ≠ .running ∧ s.status = .cancelled) ∧
        s.cancelFlag = false
  | .ended => s.status = .cancelled ∧ s.cancelFlag = false
  | _ => (s.status = .cancelled ∨ s.status = .running) ∧ s.cancelFlag = true

structure Sound (s : RestoreState) : Prop where
  /-- The flag of a request stands until it is discarded. -/
  flag : s.worker.discards = true →
    ∀ status, Caller.flagged status ∈ s.callers → s.cancelFlag = true
  kept : s.succeeded = true → s.Kept

theorem Sound.honoured {s : RestoreState} (h : Sound s) : Honoured s := by
  intro hsucceeded hover
  have hkept := h.kept hsucceeded
  rw [RestoreState.Kept, hover] at hkept
  exact hkept

variable {s s' : RestoreState} {e : RestoreEvent}

theorem mem_setCaller {i : ℕ} {c d : Caller} (h : d ∈ (s.setCaller i c).callers) :
    d = c ∨ d ∈ s.callers :=
  (List.mem_or_eq_of_mem_set h).symm

theorem kept_of_cancelled {w : Phase} (hstatus : s.status = .cancelled) (hworker : s.worker = w)
    (hflag : w.discards = true → s.cancelFlag = true)
    (hgone : w.discards = true ∨ s.cancelFlag = false) (hdecided : w ≠ .refreshed false .running) :
    s.Kept := by
  unfold RestoreState.Kept
  rw [hworker]
  cases w with
  | waiting | checking | running | leaving => exact ⟨.inl hstatus, hflag rfl⟩
  | captured => exact .inl hstatus
  | discarded => exact ⟨.inl hstatus, hgone.resolve_left Bool.false_ne_true⟩
  | refreshed w seen =>
      refine ⟨?_, hgone.resolve_left Bool.false_ne_true⟩
      by_cases hseen : seen = .running
      · subst hseen
        cases w with
        | false => exact absurd rfl hdecided
        | true => exact .inl ⟨rfl, rfl⟩
      · exact .inr ⟨hseen, hstatus⟩
  | ended => exact ⟨hstatus, hgone.resolve_left Bool.false_ne_true⟩

theorem Kept.flag (h : s.Kept) (hd : s.worker.discards = true) (hflag : s'.cancelFlag = true)
    (hworker : s'.worker = s.worker) (hstatus : s'.status = s.status) : s'.Kept := by
  unfold RestoreState.Kept at h ⊢
  rw [hworker, hstatus, hflag]
  cases hw : s.worker with
  | waiting | checking | running | leaving =>
      rw [hw] at h
      exact ⟨h.1, rfl⟩
  | captured =>
      rw [hw] at h
      exact h
  | discarded | refreshed | ended =>
      rw [hw] at hd
      cases hd

/-- Up to the end of the `try` a cancel that has succeeded counts on the flag. -/
theorem kept_flagged (h : s.Kept) (hw : s.worker = .waiting ∨ s.worker = .checking ∨
    s.worker = .leaving ∨ ∃ seen, s.worker = .running seen) :
    (s.status = .cancelled ∨ s.status = .running) ∧ s.cancelFlag = true := by
  unfold RestoreState.Kept at h
  rcases hw with hw | hw | hw | ⟨seen, hw⟩ <;> rw [hw] at h <;> exact h

/-! ### The steps of a request -/

theorem sound_load (h : Sound s) (hnext : s.next .load = some s') : Sound s' := by
  obtain rfl := Option.some.inj hnext
  refine ⟨fun hd status hmem => h.flag hd status ?_, h.kept⟩
  simpa using hmem

theorem sound_request {i : ℕ} (h : Sound s) (hok : InTime s (.request i))
    (hnext : s.next (.request i) = some s') : Sound s' := by
  simp only [RestoreState.next] at hnext
  split at hnext
  · obtain rfl := Option.some.inj hnext
    refine ⟨fun _ _ _ => rfl, fun hsucceeded => ?_⟩
    have hd : s.worker.discards = true := hok.resolve_right fun hnone =>
      Bool.false_ne_true (hnone.symm.trans hsucceeded)
    exact Kept.flag (h.kept hsucceeded) hd rfl rfl rfl
  · cases hnext

theorem sound_cancel {i : ℕ} (h : Sound s) (hok : InTime s (.cancel i))
    (hnext : s.next (.cancel i) = some s') : Sound s' := by
  simp only [RestoreState.next] at hnext
  split at hnext
  · rename_i loaded hcaller
    have hflag : s.worker.discards = true → s.cancelFlag = true :=
      fun hd => h.flag hd loaded (List.mem_of_getElem? hcaller)
    obtain rfl := Option.some.inj hnext
    unfold RestoreState.cancelRestoreJob
    split
    · refine ⟨fun hd _ _ => hflag hd, fun _ => ?_⟩
      exact kept_of_cancelled rfl rfl hflag hok.1 hok.2
    · refine ⟨fun hd _ _ => hflag hd, fun hsucceeded => ?_⟩
      exact h.kept hsucceeded
  · cases hnext

/-! ### The steps of the worker -/

/-- Before the flag is captured the worker only moves, or writes one of two statuses. -/
theorem Sound.proceed (h : Sound s) {w : Phase}
    (hw : s.worker = .waiting ∨ s.worker = .checking ∨ s.worker = .leaving ∨
      ∃ seen, s.worker = .running seen)
    (hw' : w = .checking ∨ w = .leaving ∨ ∃ seen, w = .running seen)
    (hworker : s'.worker = w) (hcallers : s'.callers = s.callers)
    (hflag : s'.cancelFlag = s.cancelFlag) (hsucceeded : s'.succeeded = s.succeeded)
    (hstatus : s.succeeded = true → s'.status = s.status ∨ s'.status = .running ∨
      s'.status = .cancelled) : Sound s' := by
  have hd : s.worker.discards = true := by
    rcases hw with hw | hw | hw | ⟨seen, hw⟩ <;> rw [hw] <;> rfl
  refine ⟨fun _ status hmem => ?_, fun hs' => ?_⟩
  · rw [hcallers] at hmem
    rw [hflag]
    exact h.flag hd status hmem
  · rw [hsucceeded] at hs'
    obtain ⟨hold, hset⟩ := kept_flagged (h.kept hs') hw
    have hnew : s'.status = .cancelled ∨ s'.status = .running := by
      rcases hstatus hs' with hsame | hrunning | hcancelled
      · rw [hsame]
        exact hold
      · exact .inr hrunning
      · exact .inl hcancelled
    have hset' : s'.cancelFlag = true := hflag.trans hset
    unfold RestoreState.Kept
    rw [hworker]
    rcases hw' with rfl | rfl | ⟨seen, rfl⟩ <;> exact ⟨hnew, hset'⟩

theorem sound_start (h : Sound s) (hnext : s.next .start = some s') : Sound s' := by
  obtain ⟨hw, hs'⟩ := Option.ite_none_right_eq_some.mp hnext
  obtain rfl := Option.some.inj hs'
  exact h.proceed (.inl hw) (.inl rfl) rfl rfl rfl rfl fun _ => .inl rfl

theorem sound_refuse {error : String} (hok : s.succeeded = false)
    (hnext : s.next (.refuse error) = some s') : Sound s' := by
  obtain ⟨hw, hs'⟩ := Option.ite_none_right_eq_some.mp hnext
  obtain rfl := Option.some.inj hs'
  exact ⟨fun hd => absurd hd Bool.false_ne_true,
    fun hs => absurd (hok.symm.trans hs) Bool.false_ne_true⟩

theorem sound_run (h : Sound s) (hnext : s.next .run = some s') : Sound s' := by
  obtain ⟨hw, hs'⟩ := Option.ite_none_right_eq_some.mp hnext
  obtain rfl := Option.some.inj hs'
  exact h.proceed (.inr (.inl hw)) (.inr (.inr ⟨_, rfl⟩)) rfl rfl rfl rfl fun _ => .inr (.inl rfl)

theorem sound_count {restored failed : ℕ} (h : Sound s)
    (hnext : s.next (.count restored failed) = some s') : Sound s' := by
  simp only [RestoreState.next] at hnext
  split at hnext
  · rename_i seen hw
    obtain rfl := Option.some.inj hnext
    exact h.proceed (.inr (.inr (.inr ⟨_, hw⟩))) (.inr (.inr ⟨_, hw⟩)) rfl rfl rfl rfl fun _ =>
      .inl rfl
  · cases hnext

theorem sound_look (h : Sound s) (hnext : s.next .look = some s') : Sound s' := by
  simp only [RestoreState.next] at hnext
  split at hnext
  · rename_i seen hw
    obtain rfl := Option.some.inj hnext
    exact h.proceed (.inr (.inr (.inr ⟨_, hw⟩))) (.inr (.inr ⟨_, rfl⟩)) rfl rfl rfl rfl fun _ =>
      .inl rfl
  · cases hnext

theorem sound_cancelJob (h : Sound s) (hnext : s.next .cancelJob = some s') : Sound s' := by
  obtain ⟨hw, hs'⟩ := Option.ite_none_right_eq_some.mp hnext
  obtain rfl := Option.some.inj hs'
  exact h.proceed (.inr (.inr (.inr ⟨_, hw⟩))) (.inr (.inl rfl)) rfl rfl rfl rfl fun _ =>
    .inr (.inr rfl)

theorem sound_failJob {error : String} (h : Sound s) (hok : s.succeeded = false)
    (hnext : s.next (.failJob error) = some s') : Sound s' := by
  simp only [RestoreState.next] at hnext
  split at hnext
  · rename_i seen hw
    obtain rfl := Option.some.inj hnext
    exact h.proceed (.inr (.inr (.inr ⟨_, hw⟩))) (.inr (.inl rfl)) rfl rfl rfl rfl fun hs =>
      absurd (hok.symm.trans hs) Bool.false_ne_true
  · cases hnext

theorem sound_leave (h : Sound s) (hnext : s.next .leave = some s') : Sound s' := by
  simp only [RestoreState.next] at hnext
  split at hnext
  · rename_i seen hw
    obtain rfl := Option.some.inj hnext
    exact h.proceed (.inr (.inr (.inr ⟨_, hw⟩))) (.inr (.inl rfl)) rfl rfl rfl rfl fun _ => .inl rfl
  · cases hnext

theorem sound_capture (h : Sound s) (hnext : s.next .capture = some s') : Sound s' := by
  obtain ⟨hw, hs'⟩ := Option.ite_none_right_eq_some.mp hnext
  obtain rfl := Option.some.inj hs'
  refine ⟨fun _ status hmem => h.flag (by rw [hw]; rfl) status hmem, fun hs => ?_⟩
  obtain ⟨hstatus, hflag⟩ := kept_flagged (h.kept hs) (.inr (.inr (.inl hw)))
  exact hstatus.imp_right fun hrunning => ⟨hrunning, hflag⟩

theorem sound_discard (h : Sound s) (hnext : s.next .discard = some s') : Sound s' := by
  simp only [RestoreState.next] at hnext
  split at hnext
  · rename_i w hw
    obtain rfl := Option.some.inj hnext
    refine ⟨fun hd => absurd hd Bool.false_ne_true, fun hs => ?_⟩
    have hkept := h.kept hs
    unfold RestoreState.Kept at hkept
    rw [hw] at hkept
    exact ⟨hkept, rfl⟩
  · cases hnext

theorem sound_refresh (h : Sound s) (hnext : s.next .refresh = some s') : Sound s' := by
  simp only [RestoreState.next] at hnext
  split at hnext
  · rename_i w hw
    obtain rfl := Option.some.inj hnext
    refine ⟨fun hd => absurd hd Bool.false_ne_true, fun hs => ?_⟩
    have hkept := h.kept hs
    unfold RestoreState.Kept at hkept
    rw [hw] at hkept
    obtain ⟨hstatus, hflag⟩ := hkept
    refine ⟨?_, hflag⟩
    rcases hstatus with hcancelled | ⟨hrunning, hw'⟩
    · refine .inr ⟨?_, hcancelled⟩
      rw [hcancelled]
      decide
    · exact .inl ⟨hrunning, hw'⟩
  · cases hnext

theorem finalize_captured (s : RestoreState) :
    (finalizeRunningJob true s).status = .cancelled := rfl

theorem finalize_fields (w : Bool) (s : RestoreState) :
    (finalizeRunningJob w s).cancelFlag = s.cancelFlag ∧
    (finalizeRunningJob w s).succeeded = s.succeeded := by
  unfold finalizeRunningJob
  split_ifs <;> exact ⟨rfl, rfl⟩

theorem sound_finish (h : Sound s) (hnext : s.next .finish = some s') : Sound s' := by
  simp only [RestoreState.next] at hnext
  split at hnext
  · rename_i w seen hw
    obtain rfl := Option.some.inj hnext
    refine ⟨fun hd => absurd hd Bool.false_ne_true, fun hs => ?_⟩
    by_cases hseen : seen = .running
    · simp only [if_pos hseen] at hs ⊢
      rw [(finalize_fields w s).2] at hs
      have hkept := h.kept hs
      unfold RestoreState.Kept at hkept
      rw [hw] at hkept
      obtain ⟨⟨-, rfl⟩ | ⟨hne, -⟩, hflag⟩ := hkept
      · exact ⟨finalize_captured s, (finalize_fields true s).1.trans hflag⟩
      · exact absurd hseen hne
    · simp only [if_neg hseen] at hs ⊢
      have hkept := h.kept hs
      unfold RestoreState.Kept at hkept
      rw [hw] at hkept
      obtain ⟨⟨hrunning, -⟩ | ⟨-, hcancelled⟩, hflag⟩ := hkept
      · exact absurd hrunning hseen
      · exact ⟨hcancelled, hflag⟩
  · cases hnext

theorem sound_next (h : Sound s) (hok : InTime s e) (hnext : s.next e = some s') : Sound s' := by
  cases e with
  | load => exact sound_load h hnext
  | request i => exact sound_request h hok hnext
  | cancel i => exact sound_cancel h hok hnext
  | start => exact sound_start h hnext
  | refuse error => exact sound_refuse hok hnext
  | run => exact sound_run h hnext
  | count restored failed => exact sound_count h hnext
  | look => exact sound_look h hnext
  | cancelJob => exact sound_cancelJob h hnext
  | failJob error => exact sound_failJob h hok hnext
  | leave => exact sound_leave h hnext
  | capture => exact sound_capture h hnext
  | discard => exact sound_discard h hnext
  | refresh => exact sound_refresh h hnext
  | finish => exact sound_finish h hnext

theorem sound_init : Sound {} :=
  ⟨fun _ _ hmem => (List.not_mem_nil hmem).elim, fun hs => by cases hs⟩

/-- A job is cancelled while it waits, and then found to be of a suspended account. -/
def refusedRun : List RestoreEvent :=
  [.load, .request 0, .cancel 0, .start, .refuse "Account is suspended"]

/-- A cancel that lands behind the last look at the flags still wins. -/
def lateRun : List RestoreEvent :=
  [.load, .start, .run, .look, .leave, .request 0, .cancel 0, .capture, .discard, .refresh, .finish]

/-- Whether a step is in time. -/
def inTime (s : RestoreState) : RestoreEvent → Bool
  | .refuse _ | .failJob _ => !s.succeeded
  | .request _ => s.worker.discards || !s.succeeded
  | .cancel _ => (s.worker.discards || !s.cancelFlag) && s.worker != .refreshed false .running
  | _ => true

theorem inTime_of_check (s : RestoreState) (e : RestoreEvent) (h : inTime s e = true) :
    InTime s e := by
  cases e with
  | refuse | failJob => simpa [inTime, InTime] using h
  | request => simpa [inTime, InTime] using h
  | cancel => simpa [inTime, InTime] using h
  | _ => trivial

end MailFallback.RestoreCancel
