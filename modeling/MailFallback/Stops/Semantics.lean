import MailFallback.Library.Transition
import MailFallback.Stops.Phases
import MailFallback.Sync.Actors

/-! # One sync job and everybody who may stop it

The worker runs `execute_sync_job`, the sampler is a thread beside it, and any number of other
threads may call `stop_sync_job`. They share `_running_procs`, `_killed_signals` and
`_budget_stops` without a lock, so that each read and each write of these is a step of its own.
Processes are numbered in the order of their start. -/

namespace MailFallback.Stops

open Storage Effects

/-- What the threads share, and the processes. -/
structure Shared where
  started : ℕ := 0
  alive : List ℕ := []
  /-- The processes to which a signal was sent. -/
  signalled : List ℕ := []
  /-- `_running_procs.get(job_id)` -/
  current : Option ℕ := none
  /-- `_killed_signals.get(job_id)` -/
  killed : Option String := none
  /-- `job_id in _budget_stops` -/
  budget : Bool := false

namespace Shared

variable (s : Shared)

def newest : ℕ := s.started - 1

/-- `proc.terminate()`, which sends nothing to a process that has exited. -/
def terminate (proc : ℕ) : Shared :=
  if proc ∈ s.alive then { s with signalled := proc :: s.signalled } else s

/-- `proc.kill()` -/
def kill (proc : ℕ) : Shared :=
  { s.terminate proc with alive := s.alive.filter (· ≠ proc) }

end Shared

/-- A call of `stop_sync_job`, by its next step. -/
inductive StopCall where
  /-- Reads the registry. -/
  | asked
  /-- Writes its marker. -/
  | read (proc : ℕ)
  /-- Terminates the process. -/
  | marked (proc : ℕ)
  /-- Waits for five seconds. -/
  | terminated (proc : ℕ)
  /-- Writes its marker again. -/
  | expired (proc : ℕ)
  /-- Kills the process. -/
  | remarked (proc : ℕ)
  | returned (stopped : Bool)
  deriving DecidableEq, Repr

/-- One step of `stop_sync_job`; `late` when the wait times out. -/
def StopCall.step (s : Shared) (late : Bool) : StopCall → Option (Shared × StopCall)
  | .asked =>
      match s.current with
      | none => some (s, .returned false)
      | some proc => some (s, .read proc)
  | .read proc => some ({ s with killed := some "SIGTERM" }, .marked proc)
  | .marked proc => some (s.terminate proc, .terminated proc)
  | .terminated proc =>
      if late = decide (proc ∈ s.alive) then
        some (s, if late = true then .expired proc else .returned true)
      else none
  | .expired proc => some ({ s with killed := some "SIGKILL" }, .remarked proc)
  | .remarked proc => some (s.kill proc, .returned true)
  | .returned _ => none

/-- The sampler thread, by its next step; `booked` is the row of the account with the bytes of
the tick on it. -/
inductive Sampler where
  /-- Not started. -/
  | off
  /-- Waits for the next tick or for the end. -/
  | resting
  /-- Walks the maildir and reads the row. -/
  | sampling
  /-- Commits. -/
  | loaded (booked : Account)
  /-- Compares with the budget, and looks for the marker. -/
  | committed (booked : Account)
  /-- Adds the marker. -/
  | found (booked : Account)
  /-- Calls `stop_sync_job`. -/
  | marked (booked : Account)
  | stopping (booked : Account) (call : ℕ)
  | ended

structure JobState extends Shared where
  worker : SyncTask Unit
  phase : Phase := .setup
  /-- What the worker has read of `_budget_stops`, in the middle of a check. -/
  looked : Option Bool := none
  /-- The call of `stop_sync_job` that the worker is in. -/
  own : Option ℕ := none
  calls : List StopCall := []
  /-- `sampler_stop` -/
  stopEvent : Bool := false
  sampler : Sampler := .off
  lastTick : Bool := false
  /-- The row of the account. -/
  account : Option Account
  /-- The rows that the sampler has committed, the last one first. -/
  ledger : List Account := []
  /-- A tick has found the job over its budget. -/
  exceeded : Bool := false
  /-- How often the sampler has called `stop_sync_job`. -/
  asks : ℕ := 0

inductive JobEvent where
  /-- The worker performs its next operation with that reply. -/
  | work (reply : (o : SyncOp) → Except SyncExc (SyncAns o))
  /-- The worker reads `_budget_stops`, before it reads `_killed_signals`. -/
  | look
  /-- The worker calls `stop_sync_job`. -/
  | callOwn
  /-- The worker tells the sampler to end, before it waits for it. -/
  | setStop
  /-- Somebody else calls `stop_sync_job`. -/
  | call
  | step (call : ℕ) (late : Bool)
  /-- The process ends by itself, or at the signal. -/
  | exit (proc : ℕ)
  /-- The next step of the sampler, with the bytes that its walk finds; `none` when the step
  raises. -/
  | sample (outcome : Option (ℕ × Time))
  /-- The row of the account is changed by others. -/
  | edit (account : Option Account)

namespace JobState

variable (s : JobState)

/-! ## The worker -/

/-- The call of the worker has come back. -/
def ownReturned : Bool :=
  match s.own.bind (s.calls[·]?) with
  | some (.returned _) => true
  | _ => false

/-- What an operation of the worker does to the shared state; `none` when that state does not
allow the reply. -/
def perform : (o : SyncOp) → Except SyncExc (SyncAns o) → Option JobState
  | .startSampler, .ok _ => some { s with sampler := .resting }
  | .stopRequested, .ok (stops : Bool × Bool) =>
      if s.looked = some stops.1 ∧ stops.2 = s.killed.isSome then some { s with looked := none }
      else none
  | .spawn _, .ok _ =>
      some { s with started := s.started + 1, alive := s.started :: s.alive }
  | .register, .ok _ => some { s with current := some s.newest }
  | .stopSyncJob, .ok _ => if s.ownReturned = true then some { s with own := none } else none
  | .wait, .ok (code : Option ℤ) =>
      if code.isNone = decide (s.newest ∈ s.alive) then some s else none
  | .kill, .ok _ => some { s with toShared := s.toShared.kill s.newest }
  | .stopSampler, .ok _ => if s.stopEvent = true then some s else none
  | .unregister, .ok _ => some { s with current := none }
  | .takeBudgetStop, .ok (stopped : Bool) =>
      if stopped = s.budget then some { s with budget := false } else none
  | .takeSignal, .ok (signal : Option String) =>
      if signal = s.killed then some { s with killed := none } else none
  | .discardMarkers, .ok _ => some { s with budget := false }
  | _, _ => some s

def work (reply : (o : SyncOp) → Except SyncExc (SyncAns o)) : Option JobState :=
  match s.worker with
  | .perform o k => do
      let phase ← phaseStep o s.phase (reply o)
      let s' ← s.perform o (reply o)
      pure { s' with worker := k (reply o), phase := phase }
  | _ => none

/-- The worker stands before that operation. -/
def before (o : SyncOp) : Prop := ∃ k, s.worker = .perform o k

/-! ## The sampler -/

/-- `over_budget`: the budget is the one of the row that was booked on, and the traffic is read
again after the commit. -/
def overBudget (booked account : Account) : Bool :=
  (dailyBudgetBytes booked).any fun budget => decide (budget ≤ account.bytesSyncedToday)

/-- The tick is over. -/
def rest : JobState := { s with sampler := if s.lastTick = true then .ended else .resting }

/-- One step of `_run_sampler`, which swallows the exceptions of a tick. -/
def sample (outcome : Option (ℕ × Time)) : Option JobState :=
  match s.sampler with
  | .off | .ended => none
  | .resting => some { s with sampler := .sampling, lastTick := s.stopEvent }
  | .sampling =>
      match outcome, s.account with
      | some (bytes, now), some account =>
          some { s with sampler := .loaded (bookTraffic bytes now account) }
      | _, _ => some s.rest
  | .loaded booked =>
      match outcome, s.account with
      | some _, some account => some { s with
          account := some { account with
            trafficDate := booked.trafficDate, bytesSyncedToday := booked.bytesSyncedToday }
          ledger := booked :: s.ledger
          sampler := .committed booked }
      | _, _ => some s.rest
  | .committed booked =>
      match outcome, s.account with
      | some _, some account =>
          if overBudget booked account = true then
            if s.budget = true then some { s.rest with exceeded := true }
            else some { s with exceeded := true, sampler := .found booked }
          else some s.rest
      | _, _ => some s.rest
  | .found booked => some { s with budget := true, sampler := .marked booked }
  | .marked booked => some { s with
      calls := s.calls ++ [.asked]
      asks := s.asks + 1
      sampler := .stopping booked s.calls.length }
  | .stopping _ call =>
      match s.calls[call]? with
      | some (.returned _) => some s.rest
      | _ => none

/-! ## Steps -/

/-- The next step of one of the calls. -/
def stepCall (i : ℕ) (late : Bool) : Option JobState := do
  let call ← s.calls[i]?
  let (shared, call') ← call.step s.toShared late
  pure { s with toShared := shared, calls := s.calls.set i call' }

def next : JobEvent → Option JobState
  | .work reply => s.work reply
  | .look =>
      match s.worker with
      | .perform .stopRequested _ => some { s with looked := some s.budget }
      | _ => none
  | .callOwn =>
      match s.worker, s.own with
      | .perform .stopSyncJob _, none =>
          some { s with calls := s.calls ++ [.asked], own := some s.calls.length }
      | _, _ => none
  | .setStop =>
      match s.worker with
      | .perform .stopSampler _ => some { s with stopEvent := true }
      | _ => none
  | .call => some { s with calls := s.calls ++ [.asked] }
  | .step i late => s.stepCall i late
  | .exit proc => some { s with alive := s.alive.filter (· ≠ proc) }
  | .sample outcome => s.sample outcome
  | .edit account => some { s with account := account }

end JobState

/-- A thread of the executor has taken the job. -/
def begin (settings : SyncSettings) (jobId : Id) (account : Option Account) : JobState :=
  { worker := executeSyncJob settings jobId, account := account }

end MailFallback.Stops
