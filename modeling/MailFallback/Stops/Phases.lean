import MailFallback.Sync.Semantics

/-! # What a sync worker does with its processes

The operations that touch a process, the registry or a marker put the worker in a phase, and
`execute_sync_job` performs each of them in certain phases only. -/

namespace MailFallback.Stops

open Effects SyncTask

inductive Phase where
  /-- The sampler has not been started. -/
  | setup
  /-- Every process has been waited for. -/
  | idle
  /-- A process was started. -/
  | spawned
  /-- It is in `_running_procs`. -/
  | registered
  /-- A marker was found. -/
  | mustStop
  | reading
  /-- The process did not exit in time. -/
  | unresponsive
  | killedOff
  /-- An exception has left the read loop. -/
  | abandoned
  /-- The sampler was waited for. -/
  | joined
  /-- No process is started any more. -/
  | over
  deriving DecidableEq, Repr

namespace Phase

/-- A process has been started and the markers have not been looked at, or a stop is due. -/
def arming : Phase → Bool
  | .spawned | .registered | .mustStop => true
  | _ => false

/-- The newest process has been waited for or killed, or there is none. -/
def calm : Phase → Bool
  | .setup | .idle | .killedOff => true
  | _ => false

/-- `_running_procs` leads to the newest process. -/
def holds : Phase → Bool
  | .registered | .mustStop | .reading => true
  | _ => false

def next : Phase → (o : SyncOp) → Except SyncExc (SyncAns o) → Phase
  | _, .startSampler, .ok _ => .idle
  | _, .spawn _, .ok _ => .spawned
  | _, .register, .ok _ => .registered
  | .registered, .stopRequested, .ok (stops : Bool × Bool) =>
      if (stops.1 || stops.2) = true then .mustStop else .reading
  | .mustStop, .stopSyncJob, .ok _ => .reading
  | _, .readUntilDeadline, .error _ => .abandoned
  | _, .wait, .ok (code : Option ℤ) => if code.isSome = true then .idle else .unresponsive
  | _, .kill, .ok _ => .killedOff
  | _, .waitBriefly, .ok _ => .idle
  | _, .stopSampler, .ok _ => .joined
  | _, .unregister, .ok _ => .over
  | _, .discardMarkers, .ok _ => .over
  | ph, _, _ => ph

def allows : Phase → SyncOp → Prop
  | ph, .startSampler => ph = .setup
  | ph, .spawn _ => ph = .idle
  | ph, .register => ph = .spawned
  | ph, .stopRequested => ph = .idle ∨ ph = .registered
  | ph, .stopSyncJob => ph = .mustStop ∨ ph = .reading
  | ph, .readUntilDeadline | ph, .wait => ph = .reading
  | ph, .kill => ph = .unresponsive
  | ph, .waitBriefly => ph = .killedOff
  | ph, .stopSampler => ph = .idle ∨ ph = .abandoned
  | ph, .unregister => ph = .joined
  | ph, .takeBudgetStop | ph, .takeSignal => ph = .over
  | ph, .discardMarkers => ph = .setup ∨ ph = .over
  | _, _ => True

end Phase

/-- Only some operations raise. -/
def phaseStep : Machine SyncOp SyncAns SyncExc Phase
  | o, ph, .ok a => some (ph.next o (.ok a))
  | o, ph, .error e => if o.fallible = true then some (ph.next o (.error e)) else none

def inPhase : Contract SyncOp Phase where
  crash := fun _ => True
  allow := fun o ph => ph.allows o

/-- The operations that leave the processes, the registry and the markers alone. -/
def elsewhere : SyncOp → Bool
  | .startSampler | .spawn _ | .register | .stopRequested | .stopSyncJob | .readUntilDeadline
  | .wait | .kill | .waitBriefly | .stopSampler | .unregister | .takeBudgetStop | .takeSignal
  | .discardMarkers => false
  | _ => true

variable {jobId accountId : Id} {ph : Phase} {o : SyncOp} {α β : Type} {p : SyncTask α}
  {Q : α → Phase → Prop} {E : SyncExc → Phase → Prop} {R : β → Phase → Prop}

theorem next_elsewhere (h : elsewhere o = true) (r : Except SyncExc (SyncAns o)) :
    ph.next o r = ph := by
  cases o <;> cases r <;> first | rfl | cases h

theorem allows_elsewhere (h : elsewhere o = true) : ph.allows o := by
  cases o <;> first | exact trivial | cases h

theorem phase_op {Q : SyncAns o → Phase → Prop} (ha : ph.allows o)
    (hok : ∀ a, Q a (ph.next o (.ok a)))
    (herr : o.fallible = true → ∀ e, E e (ph.next o (.error e))) :
    Safe phaseStep inPhase Q E (SyncTask.op o) ph := by
  apply Safe.op trivial ha
  · rintro a ph' ⟨⟩
    exact ⟨trivial, hok a⟩
  · intro e ph' h
    obtain ⟨hfallible, hph'⟩ := Option.ite_none_right_eq_some.mp h
    obtain rfl := Option.some.inj hph'
    exact ⟨trivial, herr hfallible e⟩

/-- An operation and the rest of the program. -/
theorem phase_bind {f : SyncAns o → SyncTask β} (ha : ph.allows o)
    (hok : ∀ a, Safe phaseStep inPhase R E (f a) (ph.next o (.ok a)))
    (herr : o.fallible = true → ∀ e, E e (ph.next o (.error e))) :
    Safe phaseStep inPhase R E (Prog.bind (SyncTask.op o) f) ph :=
  Safe.bind (phase_op ha hok herr)

/-- A piece of the program that stays away from the processes. -/
abbrev Away (p : SyncTask α) : Prop := p.Only fun o => elsewhere o = true

theorem Away.same (h : Away p) :
    Safe phaseStep inPhase (fun _ ph' => ph = ph') (fun _ ph' => ph = ph') p ph := by
  refine Prog.Only.keeps h (fun _ => rfl) Eq.trans ?_ (fun _ _ => trivial) ?_
  · intro o r ph₁ ph₂ ho hstep
    cases r with
    | ok a => exact (next_elsewhere ho _).symm.trans (Option.some.inj hstep)
    | error e =>
        obtain ⟨-, h⟩ := Option.ite_none_right_eq_some.mp hstep
        exact (next_elsewhere ho _).symm.trans (Option.some.inj h)
  · exact fun o ph' ho _ => allows_elsewhere ho

/-- Such a piece and the rest of the program. -/
theorem Away.bind {f : α → SyncTask β} (h : Away p)
    (hok : ∀ a, Safe phaseStep inPhase R E (f a) ph) (herr : ∀ e, E e ph) :
    Safe phaseStep inPhase R E (Prog.bind p f) ph := by
  apply Safe.bind
  refine h.same.post ?_ ?_
  · rintro a _ - rfl
    exact hok a
  · rintro e _ - rfl
    exact herr e

/-! ## The pieces that stay away -/

theorem away_op (h : elsewhere o = true) : Away (SyncTask.op o) := Prog.Only.op h

theorem away_bind {f : SyncAns o → SyncTask β} (h : elsewhere o = true)
    (hf : ∀ a, Away (f a)) : Away (Prog.bind (SyncTask.op o) f) :=
  Prog.Only.bind (away_op h) hf

theorem closeWith_away (w : Time → Write) : Away (closeWith accountId w) :=
  away_bind rfl fun _ => away_bind rfl fun _ => away_op rfl

theorem oauthToken_away (credentials : String) : Away (oauthToken accountId credentials) := by
  refine away_bind rfl fun refreshed => ?_
  cases refreshed with
  | rejected terminal => exact Prog.Only.bind (closeWith_away _) fun _ => trivial
  | token accessToken stored =>
      refine away_bind rfl fun _ => away_bind rfl fun _ => ?_
      split
      · exact Prog.Only.bind (closeWith_away _) fun _ => trivial
      · trivial

theorem authenticate_away (account : Account) : Away (authenticate accountId account) := by
  have hrest : ∀ credentials : String, Away (authenticateWith accountId account credentials) := by
    intro credentials
    unfold authenticateWith
    split
    · refine Prog.Only.bind (oauthToken_away credentials) fun token => ?_
      cases token with
      | none => trivial
      | some token => exact away_bind rfl fun _ => trivial
    · trivial
  unfold authenticate
  split
  · refine away_bind rfl fun decrypted => ?_
    obtain ⟨credentials, upgraded⟩ := decrypted
    cases upgraded with
    | none => exact hrest credentials
    | some stored => exact away_bind rfl fun _ => away_bind rfl fun _ => hrest credentials
  · trivial

theorem statusPass_away : Away (statusPass accountId) := by
  refine Prog.Only.handle (away_bind rfl fun counts => ?_) fun _ => trivial
  cases counts with
  | none => trivial
  | some counts => exact away_bind rfl fun _ => away_op rfl

theorem prepareConfig_away : Away (prepareConfig accountId) := by
  refine away_bind rfl fun account => ?_
  split
  · exact Prog.Only.bind statusPass_away fun _ => away_bind rfl fun _ => away_bind rfl fun _ =>
      away_bind rfl fun _ => trivial
  · exact away_bind rfl fun _ => trivial

theorem pauseFor_away (kind : String) (resume : Time → ℕ → Time → Time) :
    Away (pauseFor accountId kind resume) :=
  away_bind rfl fun _ => away_bind rfl fun _ => away_bind rfl fun _ => away_bind rfl fun _ => away_op rfl

theorem conclude_away (account : Account) (code : Option ℤ) (output : String)
    (budgetStopped : Bool) (signal : Option String) :
    Away (conclude account accountId code output budgetStopped signal) := by
  refine away_bind rfl fun cap => away_bind rfl fun _ => ?_
  split
  · exact away_bind rfl fun _ => away_bind rfl fun _ => away_bind rfl fun _ =>
      Prog.Only.handle (away_op rfl) fun _ => trivial
  · split
    · exact away_bind rfl fun _ => away_bind rfl fun _ => away_op rfl
    · split
      · cases cap <;> exact away_op rfl
      · split
        · exact pauseFor_away _ _
        · exact pauseFor_away _ _
        · exact away_op rfl

theorem jobFailed_away (e : SyncExc) : Away (jobFailed accountId e) := by
  refine away_bind rfl fun time => ?_
  cases e <;> exact away_op rfl

theorem dropToken_away (tokenWritten : Bool) : Away (dropToken tokenWritten) := by
  cases tokenWritten with
  | false => exact away_op rfl
  | true =>
      refine away_bind rfl fun there => ?_
      split
      · exact away_bind rfl fun _ => away_op rfl
      · exact away_op rfl

/-! ## The runs of mbsync -/

/-- Where an exception leaves the runs. -/
def Left (ph : Phase) : Prop := ph = .idle ∨ ph = .abandoned

theorem awaitProcess_phase :
    Safe phaseStep inPhase (fun _ ph => ph = .idle) E awaitProcess .reading := by
  refine phase_bind rfl (fun code => ?_) nofun
  cases code with
  | some code => exact ⟨trivial, rfl⟩
  | none =>
      refine phase_bind rfl (fun _ => ?_) nofun
      exact phase_op rfl (fun _ => rfl) nofun

theorem readAndAwait_phase :
    Safe phaseStep inPhase (fun _ ph => ph = .idle) (fun _ => Left) readAndAwait .reading := by
  refine phase_bind rfl (fun read => ?_) fun _ _ => .inr rfl
  obtain ⟨lines, expired⟩ := read
  have hwait : Safe phaseStep inPhase (fun _ ph => ph = .idle) (fun _ => Left)
      (do
        let code ← awaitProcess
        pure (code, lines)) .reading := by
    apply Safe.bind
    exact awaitProcess_phase.post (fun _ _ h hph => ⟨h, hph⟩) fun _ _ _ h => h
  cases expired with
  | true => exact phase_bind trivial (fun _ => phase_bind (.inr rfl) (fun _ => hwait) nofun) nofun
  | false => exact hwait

/-- A started process is registered and the markers are looked at before its output is. -/
theorem invoke_phase :
    Safe phaseStep inPhase (fun _ ph => ph = .idle) (fun _ => Left) (invoke accountId) .idle := by
  refine phase_bind rfl (fun _ => ?_) fun _ _ => .inl rfl
  refine phase_bind rfl (fun _ => ?_) nofun
  refine phase_bind (.inr rfl) (fun stops => ?_) nofun
  show Safe phaseStep inPhase _ _ _ (if (stops.1 || stops.2) = true then .mustStop else .reading)
  split
  · exact phase_bind (.inl rfl) (fun _ => readAndAwait_phase) nofun
  · exact readAndAwait_phase

theorem runRest_phase (total left : ℕ) (code : Option ℤ) (log : List String) :
    Safe phaseStep inPhase (fun _ ph => ph = .idle) (fun _ => Left)
      (runRest accountId total left code log) .idle := by
  induction left generalizing code log with
  | zero => exact ⟨trivial, rfl⟩
  | succ left ih =>
      refine phase_bind (.inl rfl) (fun stops => ?_) nofun
      split
      · exact ⟨trivial, rfl⟩
      · apply Safe.bind
        refine invoke_phase.post ?_ (fun _ _ _ h => h)
        rintro ⟨code', lines⟩ _ - rfl
        dsimp only
        split
        · exact ih _ _
        · exact ⟨trivial, rfl⟩

theorem runInvocations_phase (count : ℕ) (log : List String) :
    Safe phaseStep inPhase (fun _ ph => ph = .idle) (fun _ => Left)
      (runInvocations accountId count log) .idle := by
  cases count with
  | zero => exact ⟨trivial, rfl⟩
  | succ count =>
      apply Safe.bind
      refine invoke_phase.post ?_ (fun _ _ _ h => h)
      rintro ⟨code, lines⟩ _ - rfl
      dsimp only
      split
      · exact runRest_phase _ _ _ _
      · exact ⟨trivial, rfl⟩

theorem runTwice_phase (account : Account) (count : ℕ) :
    Safe phaseStep inPhase (fun _ ph => ph = .idle) (fun _ => Left)
      (runTwice account accountId count) .idle := by
  apply Safe.bind
  refine (runInvocations_phase count _).post ?_ (fun _ _ _ h => h)
  rintro ⟨code, log⟩ _ - rfl
  refine phase_bind (.inl rfl) (fun stops => ?_) nofun
  split
  · refine phase_bind trivial (fun reconciled => ?_) fun _ _ => .inl rfl
    refine phase_bind (.inl rfl) (fun stops => ?_) nofun
    split
    · apply Safe.bind
      exact (runInvocations_phase count _).post (fun _ _ h hph => ⟨h, hph⟩) fun _ _ _ h => h
    · exact ⟨trivial, rfl⟩
  · exact ⟨trivial, rfl⟩

theorem runAndRetry_phase (account : Account) (count : ℕ) (logToDisk : Bool) :
    Safe phaseStep inPhase (fun _ ph => ph = .idle) (fun _ => Left)
      (runAndRetry account accountId count logToDisk) .idle := by
  cases logToDisk with
  | true => exact phase_bind trivial (fun _ => runTwice_phase account count) fun _ _ => .inl rfl
  | false => exact runTwice_phase account count

/-- The registry is cleared however the runs end. -/
theorem endRuns_phase (logToDisk : Bool) (h : Left ph) :
    Safe phaseStep inPhase (fun _ ph' => ph' = .over) (fun _ ph' => ph' = .over)
      (endRuns logToDisk) ph := by
  refine phase_bind h (fun _ => phase_bind rfl (fun _ => ?_) nofun) nofun
  cases logToDisk with
  | true => exact phase_op trivial (fun _ => rfl) fun _ _ => rfl
  | false => exact ⟨trivial, rfl⟩

/-! ## The whole job -/

/-- Outside the runs. -/
def Apart (ph : Phase) : Prop := ph = .setup ∨ ph = .over

theorem finalise_phase (account : Account) (code : Option ℤ) (output : String)
    (logPath : Option String) (budgetStopped : Bool) :
    Safe phaseStep inPhase (fun _ => Apart) (fun _ => Apart)
      (finalise account accountId code output logPath budgetStopped) .over := by
  refine phase_bind trivial (fun _ => phase_bind trivial (fun _ => ?_) nofun) nofun
  refine phase_bind rfl (fun signal => ?_) nofun
  have hconclude : Away (conclude account accountId code output budgetStopped signal) :=
    conclude_away _ _ _ _ _
  have hapart : ∀ {ph'}, Phase.over = ph' → Apart ph' := fun h => .inr h.symm
  cases signal with
  | none => exact hconclude.same.post (fun _ _ _ h => hapart h) fun _ _ _ h => hapart h
  | some name =>
      refine phase_bind trivial (fun _ => ?_) nofun
      exact hconclude.same.post (fun _ _ _ h => hapart h) fun _ _ _ h => hapart h

theorem runSampled_phase (account : Account) (count : ℕ) :
    Safe phaseStep inPhase (fun _ => Apart) (fun _ => Apart)
      (runSampled account accountId jobId count) .setup := by
  refine phase_bind trivial (fun logToDisk => ?_) fun _ _ => .inl rfl
  refine phase_bind rfl (fun _ => ?_) fun _ _ => .inl rfl
  have hend : ∀ {ph}, Left ph → Safe phaseStep inPhase (fun _ ph' => ph' = .over)
      (fun _ ph' => ph' = .over) (endRuns logToDisk) ph := endRuns_phase logToDisk
  have hruns : Safe phaseStep inPhase (fun _ ph => ph = .over) (fun _ ph => ph = .over)
      ((runAndRetry account accountId count logToDisk).ensure (endRuns logToDisk)) .idle := by
    apply Safe.ensure
    refine (runAndRetry_phase account count logToDisk).post ?_ ?_
    · rintro _ _ - rfl
      exact hend (.inl rfl)
    · exact fun _ _ _ h => hend h
  apply Safe.bind
  refine hruns.post ?_ (fun _ _ _ h => .inr h)
  rintro ⟨code, output⟩ _ - rfl
  refine phase_bind rfl (fun budgetStopped => ?_) nofun
  refine phase_bind trivial (fun job => ?_) fun _ _ => .inr rfl
  split
  · exact finalise_phase _ _ _ _ _
  · exact ⟨trivial, .inr rfl⟩

theorem runJob_phase (account : Account) :
    Safe phaseStep inPhase (fun _ => Apart) (fun _ => Apart)
      (runJob account accountId jobId) .setup := by
  refine phase_bind trivial (fun _ => ?_) fun _ _ => .inl rfl
  split
  · refine phase_bind trivial (fun excluded => ?_) fun _ _ => .inl rfl
    exact runSampled_phase _ _
  · exact runSampled_phase _ _

theorem cleanUp_phase (settings : SyncSettings) (configWritten tokenWritten : Bool)
    (h : Apart ph) :
    Safe phaseStep inPhase (fun _ _ => True) (fun _ _ => True)
      (cleanUp settings configWritten tokenWritten) ph := by
  have hdrop : ∀ {ph}, Safe phaseStep inPhase (fun _ _ => True) (fun _ _ => True)
      (dropToken tokenWritten) ph :=
    (dropToken_away tokenWritten).same.post (fun _ _ _ _ => trivial) fun _ _ _ _ => trivial
  refine phase_bind h (fun _ => ?_) nofun
  split
  · exact phase_bind trivial (fun _ => hdrop) fun _ _ => trivial
  · exact hdrop

theorem jobFailed_phase (e : SyncExc) (h : Apart ph) :
    Safe phaseStep inPhase (fun _ => Apart) (fun _ => Apart) (jobFailed accountId e) ph :=
  (jobFailed_away e).same.post (fun _ _ _ hph => hph ▸ h) fun _ _ _ hph => hph ▸ h

theorem runGuarded_phase (settings : SyncSettings) (account : Account) (content : String)
    (tokenWritten : Bool) :
    Safe phaseStep inPhase (fun _ _ => True) (fun _ _ => True)
      (runGuarded settings account accountId jobId content tokenWritten) .setup := by
  have hclean : ∀ {ph} written, Apart ph → Safe phaseStep inPhase (fun _ _ => True)
      (fun _ _ => True) (cleanUp settings written tokenWritten) ph :=
    fun written h => cleanUp_phase settings written tokenWritten h
  have hwrite : Away ((do
      writeConfig content
      pure none : SyncTask (Option SyncExc)).handle fun e => pure (some e)) :=
    Prog.Only.handle (away_bind rfl fun _ => trivial) fun _ => trivial
  refine Away.bind hwrite (fun failure => ?_) fun _ => trivial
  cases failure with
  | some e =>
      apply Safe.ensure
      exact (jobFailed_phase e (.inl rfl)).post (fun _ _ _ h => hclean _ h)
        fun _ _ _ h => hclean _ h
  | none =>
      apply Safe.ensure
      apply Safe.handle
      refine (runJob_phase account).post (fun _ _ _ h => hclean _ h) fun e ph _ h => ?_
      exact (jobFailed_phase e h).post (fun _ _ _ h => hclean _ h) fun _ _ _ h => hclean _ h

theorem executeSyncJob_phase (settings : SyncSettings) (jobId : Id) :
    Safe phaseStep inPhase (fun _ _ => True) (fun _ _ => True)
      (executeSyncJob settings jobId) .setup := by
  have hclose : ∀ accountId w, Safe phaseStep inPhase (fun _ _ => True) (fun _ _ => True)
      (closeWith accountId w) .setup := fun accountId w =>
    (closeWith_away w).same.post (fun _ _ _ _ => trivial) fun _ _ _ _ => trivial
  refine phase_bind trivial (fun db => ?_) nofun
  split
  · exact ⟨trivial, trivial⟩
  · split
    · exact hclose _ _
    · split
      · exact hclose _ _
      · refine phase_bind trivial (fun refused => ?_) nofun
        split
        · exact hclose _ _
        · refine Away.bind (closeWith_away _) (fun _ => ?_) fun _ => trivial
          refine phase_bind trivial (fun account => ?_) fun _ _ => trivial
          refine Away.bind (authenticate_away account) (fun authenticated => ?_) fun _ => trivial
          cases authenticated with
          | none => exact ⟨trivial, trivial⟩
          | some tokenWritten =>
              refine Away.bind prepareConfig_away (fun prepared => ?_) fun _ => trivial
              exact runGuarded_phase settings prepared.1 prepared.2 tokenWritten

end MailFallback.Stops
