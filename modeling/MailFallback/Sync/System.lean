import MailFallback.Library.Transition
import MailFallback.Sync.Actors
import MailFallback.Sync.Discipline
import MailFallback.Sync.Session

/-! # All the sync workers of one container

The workers share the database, the registry of processes and the markers; each of their
operations is one step, and so is each commit of the other actors. A killed process is dead,
and the id of a job is used once. -/

namespace MailFallback

open Storage Effects

structure Worker where
  prog : SyncTask Unit
  l : Local

/-- An mbsync process that is alive; `registered` when `_running_procs` leads to it. -/
structure Process where
  jobId : Id
  accountId : Id
  registered : Bool := false
  deriving DecidableEq

/-- A sampler thread; `stopping` when only its last tick is left. -/
structure Sampler where
  accountId : Id
  stopping : Bool := false

/-- An entry of `_live_progress`. -/
structure Tick where
  accountId : Id
  updatedAt : Time

structure World where
  db : Db
  clock : Time := 0
  /-- The ids given to jobs so far. -/
  used : List Id := []
  /-- The accounts for which a call of `create_sync_job` has found no open job. -/
  asking : List Id := []
  /-- The jobs handed to the executor. -/
  queue : List Id := []
  workers : Id → Option Worker := fun _ => none
  procs : List Process := []
  /-- The keys of `_running_procs`. -/
  handles : List Id := []
  killed : List Id := []
  deadlines : List Id := []
  budgetStops : List Id := []
  samplers : Id → Option Sampler := fun _ => none
  progress : Id → Option Tick := fun _ => none

inductive SyncEvent where
  | pass (time : ℕ)
  /-- `create_sync_job` finds no open job. -/
  | ask (accountId : Id)
  /-- It inserts the job and commits, and the caller submits it. -/
  | insert (accountId jobId : Id)
  /-- A manual trigger lifts the pause. -/
  | overridePause (accountId : Id)
  /-- The pause tick lifts a pause that has expired. -/
  | expirePause (accountId : Id)
  | reauth (accountId : Id)
  /-- A thread of the executor takes the job. -/
  | start (jobId : Id)
  /-- The worker performs its next operation with that reply, or has left. -/
  | work (jobId : Id) (reply : (o : SyncOp) → Except SyncExc (SyncAns o))
  /-- The sampler of the job books bytes. -/
  | tick (jobId : Id) (bytes : ℕ)
  /-- The process of the job ends by itself. -/
  | exit (jobId : Id)
  | stop (jobId : Id)
  | watchdog
  | sweep
  /-- The container dies. -/
  | crash

namespace World

variable (w : World)

/-- `stop_sync_job` -/
def stopSyncJob (jobId : Id) : World :=
  if jobId ∈ w.handles then
    { w with
      killed := jobId :: w.killed
      procs := w.procs.filter fun p => !(decide (p.jobId = jobId) && p.registered) }
  else w

def setProcesses (jobId : Id) (registered : Bool) : World :=
  { w with procs := w.procs.map fun p =>
      if p.jobId = jobId then { p with registered := registered } else p }

def alive (jobId : Id) : Bool := w.procs.any fun p => decide (p.jobId = jobId)

/-- What an operation of a worker does outside its session; `none` when the state of the
container does not allow the reply. -/
def perform (jobId : Id) (l : Local) : (o : SyncOp) → Except SyncExc (SyncAns o) → Option World
  | .now, .ok (time : ℤ) => if time = w.clock then some w else none
  | .startSampler, .ok _ => some { w with
      samplers := Function.update w.samplers jobId (l.account.map fun a => { accountId := a })
      progress := fun k => (w.progress k).filter fun t =>
        decide (k = jobId) || decide (l.account ≠ some t.accountId) }
  | .stopRequested, .ok (stops : Bool × Bool) =>
      if stops = (decide (jobId ∈ w.budgetStops), decide (jobId ∈ w.killed)) then some w else none
  | .spawn accountId, .ok _ =>
      some { w with procs := { jobId := jobId, accountId := accountId } :: w.procs }
  | .register, .ok _ => some { (w.setProcesses jobId true) with handles := jobId :: w.handles }
  | .stopSyncJob, .ok _ => some (w.stopSyncJob jobId)
  | .markDeadline, .ok _ => some { w with deadlines := jobId :: w.deadlines }
  | .wait, .ok (code : Option ℤ) => if code.isNone = w.alive jobId then some w else none
  | .kill, .ok _ => some { w with procs := w.procs.filter fun p => decide (p.jobId ≠ jobId) }
  | .stopSampler, .ok _ => some { w with
      samplers := Function.update w.samplers jobId
        ((w.samplers jobId).map fun s => { s with stopping := true }) }
  | .unregister, .ok _ =>
      some { (w.setProcesses jobId false) with handles := w.handles.filter (· ≠ jobId) }
  | .takeBudgetStop, .ok (stopped : Bool) =>
      if stopped = decide (jobId ∈ w.budgetStops) then
        some { w with budgetStops := w.budgetStops.filter (· ≠ jobId) }
      else none
  | .takeSignal, .ok (signal : Option String) =>
      if signal.isSome = decide (jobId ∈ w.killed) then
        some { w with killed := w.killed.filter (· ≠ jobId) }
      else none
  | .takeDeadline, .ok (cap : Option String) =>
      if cap.isSome = decide (jobId ∈ w.deadlines) then
        some { w with deadlines := w.deadlines.filter (· ≠ jobId) }
      else none
  | .discardMarkers, .ok _ => some { w with
      budgetStops := w.budgetStops.filter (· ≠ jobId)
      deadlines := w.deadlines.filter (· ≠ jobId) }
  | _, _ => some w

/-- One operation of a worker, or the end of a worker that has left. -/
def work (jobId : Id) (reply : (o : SyncOp) → Except SyncExc (SyncAns o)) : Option World :=
  match w.workers jobId with
  | none => none
  | some ⟨.perform o k, l⟩ => do
      let l' ← localStep jobId o l (reply o)
      let db ← session jobId l w.db o (reply o)
      let w' ← w.perform jobId l o (reply o)
      pure { w' with
        db := db
        workers := Function.update w.workers jobId (some ⟨k (reply o), l'⟩) }
  | some _ => some { w with workers := Function.update w.workers jobId none }

/-- `_sampler_tick`, with the bytes that the walk has found since the last tick. -/
def tick (jobId : Id) (bytes : ℕ) : Option World :=
  (w.samplers jobId).map fun s =>
    let ended := { w with
      samplers := if s.stopping = true then Function.update w.samplers jobId none else w.samplers }
    match w.db.accounts.get? s.accountId with
    | none => ended
    | some account =>
        let booked := bookTraffic bytes w.clock account
        let ticked := { ended with
          db := setAccount s.accountId (bookTraffic bytes w.clock) w.db
          progress := Function.update w.progress jobId (some ⟨s.accountId, w.clock⟩) }
        if (dailyBudgetBytes booked).any (fun budget => decide (budget ≤ booked.bytesSyncedToday)) &&
            decide (jobId ∉ w.budgetStops) then
          { ticked with budgetStops := jobId :: w.budgetStops }.stopSyncJob jobId
        else ticked

/-- The running jobs that `recover_stalled_sync_jobs` closes. -/
def stalled (settings : SyncSettings) (jobId : Id) (job : SyncJob) : Bool :=
  decide (job.status = .running) &&
    (job.startedAt.any fun started => decide (settings.stallGrace ≤ w.clock - started)) &&
    !((w.progress jobId).any fun t => decide (w.clock - t.updatedAt < settings.stallThreshold)) &&
    !(w.procs.any fun p => decide (p.jobId = jobId) && p.registered)

/-- `recover_stalled_sync_jobs` -/
def watchdog (settings : SyncSettings) : World :=
  let stopped := (w.db.syncJobs.rows.filter fun row => w.stalled settings row.1 row.2).foldl
    (fun w' row => w'.stopSyncJob row.1) w
  { stopped with db := closeJobs (w.stalled settings) reapedMarker w.clock w.db }

def next (settings : SyncSettings) : SyncEvent → Option World
  | .pass time => some { w with clock := w.clock + time }
  | .ask accountId =>
      if hasOpenJob w.db accountId = true then none
      else some { w with asking := accountId :: w.asking }
  | .insert accountId jobId =>
      if accountId ∈ w.asking ∧ jobId ∉ w.used then
        (insertJob accountId jobId w.clock w.db).map fun db => { w with
          db := db
          used := jobId :: w.used
          asking := w.asking.erase accountId
          queue := jobId :: w.queue }
      else none
  | .overridePause accountId => some { w with db := setAccount accountId liftPause w.db }
  | .expirePause accountId =>
      if ((w.db.accounts.get? accountId).any fun a =>
          a.syncPausedUntil.any fun resumeAt => decide (resumeAt ≤ w.clock)) = true then
        some { w with db := setAccount accountId liftPause w.db }
      else none
  | .reauth accountId => some { w with db := setAccount accountId afterReauth w.db }
  | .start jobId =>
      if jobId ∈ w.queue then
        some { w with
          queue := w.queue.erase jobId
          workers := Function.update w.workers jobId (some ⟨executeSyncJob settings jobId, {}⟩) }
      else none
  | .work jobId reply => w.work jobId reply
  | .tick jobId bytes => w.tick jobId bytes
  | .exit jobId => some { w with procs := w.procs.filter fun p => decide (p.jobId ≠ jobId) }
  | .stop jobId => some (w.stopSyncJob jobId)
  | .watchdog => some (w.watchdog settings)
  | .sweep => some { w with db := (recoverZombieSyncJobs w.handles w.clock w.db).1 }
  | .crash => some { db := w.db, clock := w.clock, used := w.used }

end World

end MailFallback
