import MailFallback.Stops.Tracking
import MailFallback.Sync.Session

/-! # A stop that was confirmed has stopped the job

As long as no call of `stop_sync_job` holds an earlier process without its marker when the worker
looks for the markers, no process outlives a call that has returned `True`. -/

namespace MailFallback.Stops

open Storage Effects Transition

variable {settings : SyncSettings} {jobId : Id} {s s' t : JobState} {sh sh' : Shared}
  {c c' : StopCall} {i n : ℕ} {late : Bool} {o : SyncOp} {r : Except SyncExc (SyncAns o)}

/-- When the worker finds no marker after a registration, no call holds another process and has
yet to write its marker. -/
def NoStaleStop (s : JobState) : JobEvent → Prop
  | .work _ => s.phase = .registered → s.before .stopRequested → s.looked = some false →
      s.killed = none → ∀ p, .read p ∈ s.calls → s.current = some p
  | _ => True

/-- After a call that returned `True`, every process has had its signal, but for one that the
worker has just started and whose marker check is still to come. -/
def StopHeld (s : JobState) : Prop :=
  .returned true ∈ s.calls → ∀ p ∈ s.alive, p ∈ s.signalled ∨
    p + 1 = s.started ∧ s.phase.arming = true ∧ s.killed.isSome = true

/-! ## The invariant -/

/-- The call has written its marker. -/
def StopCall.marks : StopCall → Bool
  | .asked | .read _ | .returned false => false
  | _ => true

/-- The call has not come to the newest process, or has found no process. -/
def StopCall.Harmless (newest : ℕ) (c : StopCall) : Prop :=
  c = .asked ∨ c = .read newest ∨ c = .marked newest ∨ c = .returned false

structure Heeded (s : JobState) : Prop extends Tracked s where
  marks : s.phase ≠ .over → ∀ c ∈ s.calls, c.marks = true → s.killed.isSome = true
  heeded : s.phase.arming = false → s.Settled ∨ ∀ c ∈ s.calls, c.Harmless s.newest

theorem Heeded.held (h : Heeded s) : StopHeld s := by
  intro htrue p hp
  by_cases hsig : p ∈ s.signalled
  · exact .inl hsig
  cases harming : s.phase.arming with
  | false =>
      rcases h.heeded harming with hsettled | hall
      · exact .inl (hsettled p hp)
      · rcases hall _ htrue with h | h | h | h <;> cases h
  | true =>
      have hphase : s.phase ≠ .over := by
        intro hover
        rw [hover] at harming
        cases harming
      exact .inr ⟨(h.older p hp).resolve_left hsig, rfl, h.marks hphase _ htrue rfl⟩

/-- A call that is still harmless after its step, or has terminated the newest process. -/
theorem harmless_step (honly : sh.OnlyNewest)
    (hregistry : sh.current = none ∨ sh.current = some sh.newest) (hc : c.Harmless sh.newest)
    (h : c.step sh late = some (sh', c')) : sh'.Settled ∨ c'.Harmless sh'.newest := by
  have hnewest := (step_fades h).newest
  rw [hnewest]
  rcases hc with rfl | rfl | rfl | rfl
  · rw [step_asked] at h
    cases h
    rcases hregistry with hnone | hsome
    · rw [hnone]
      exact .inr (.inr (.inr (.inr rfl)))
    · rw [hsome]
      exact .inr (.inr (.inl rfl))
  · cases h
    exact .inr (.inr (.inr (.inl rfl)))
  · cases h
    exact .inl (settled_terminate honly)
  · cases h

/-- A marker that is written stays. -/
theorem step_marks (h : c.step sh late = some (sh', c'))
    (hmarks : c.marks = true → sh.killed.isSome = true) :
    (c'.marks = true → sh'.killed.isSome = true) ∧
      (sh.killed.isSome = true → sh'.killed.isSome = true) := by
  cases c with
  | asked =>
      rw [step_asked] at h
      cases h
      refine ⟨fun hc => ?_, id⟩
      cases hcurrent : sh.current <;> rw [hcurrent] at hc <;> cases hc
  | read proc =>
      cases h
      exact ⟨fun _ => rfl, fun _ => rfl⟩
  | marked proc =>
      cases h
      have hkilled : (sh.terminate proc).killed = sh.killed := by
        unfold Shared.terminate
        split <;> rfl
      rw [hkilled]
      exact ⟨fun _ => hmarks rfl, id⟩
  | terminated proc =>
      obtain ⟨-, h⟩ := Option.ite_none_right_eq_some.mp h
      cases h
      exact ⟨fun _ => hmarks rfl, id⟩
  | expired proc =>
      cases h
      exact ⟨fun _ => rfl, fun _ => rfl⟩
  | remarked proc =>
      cases h
      have hkilled : (sh.kill proc).killed = sh.killed := by
        unfold Shared.kill Shared.terminate
        split <;> rfl
      rw [hkilled]
      exact ⟨fun _ => hmarks rfl, id⟩
  | returned stopped => cases h

/-! ## The steps of the others -/

theorem Heeded.aside (h : Heeded s) (htracked : Tracked s') (hs : Aside s s')
    (hkilled : s'.killed = s.killed) (hcalls : ∀ c ∈ s'.calls, c ∈ s.calls ∨ c = .asked) :
    Heeded s' := by
  refine ⟨htracked, ?_, ?_⟩
  · rw [hs.phase, hkilled]
    intro hphase c hc hmarks
    rcases hcalls c hc with hc | rfl
    · exact h.marks hphase c hc hmarks
    · cases hmarks
  · rw [hs.phase, hs.fades.newest]
    intro harming
    refine (h.heeded harming).imp hs.fades.settled fun hall c hc => ?_
    rcases hcalls c hc with hc | rfl
    · exact hall c hc
    · exact .inl rfl

theorem Heeded.stepCall (h : Heeded s) (hnext : s.stepCall i late = some s') : Heeded s' := by
  have htracked := h.toTracked.stepCall hnext
  obtain ⟨c, sh, c', hc, hstep, rfl⟩ := stepCall_cases hnext
  have hmem := List.mem_of_getElem? hc
  refine ⟨htracked, fun hphase => ?_, fun harming => ?_⟩
  · obtain ⟨hnew, hold⟩ := step_marks hstep (h.marks hphase c hmem)
    intro d hd hmarks
    rcases List.mem_or_eq_of_mem_set hd with hd | rfl
    · exact hold (h.marks hphase d hd hmarks)
    · exact hnew hmarks
  · rcases h.heeded harming with hsettled | hall
    · exact .inl ((step_fades hstep).settled hsettled)
    · have hspawned : s.phase ≠ .spawned := by
        intro hspawned
        change s.phase.arming = false at harming
        rw [hspawned] at harming
        cases harming
      refine (harmless_step h.older (h.registry hspawned) (hall c hmem) hstep).imp_right ?_
      intro hharmless d hd
      rcases List.mem_or_eq_of_mem_set hd with hd | rfl
      · show d.Harmless sh.newest
        rw [(step_fades hstep).newest]
        exact hall d hd
      · exact hharmless

/-! ## The steps of the worker -/

theorem Heeded.work {reply : (o : SyncOp) → Except SyncExc (SyncAns o)} (h : Heeded s)
    (hok : NoStaleStop s (.work reply)) (hwork : s.work reply = some s') : Heeded s' := by
  have htracked := h.toTracked.work hwork
  obtain ⟨o, k, phase, t, hworker, hphase, hperform, rfl⟩ := work_cases hwork
  have hsafe := h.worker
  rw [hworker] at hsafe
  obtain ⟨-, hallow, -⟩ := hsafe
  obtain rfl := phaseStep_eq hphase
  have heffect := perform_effect hperform
  refine ⟨htracked, fun hover c hc hmarks => ?_, fun harming => ?_⟩
  · change c ∈ t.calls at hc
    rw [heffect.calls] at hc
    have hbefore : s.phase ≠ .over := by
      intro hphase'
      rw [hphase'] at hallow
      exact hover (by rw [hphase']; exact next_over hallow)
    show t.killed.isSome = true
    rw [heffect.killed]
    · exact h.marks hbefore c hc hmarks
    · rintro rfl
      exact hbefore hallow
  · by_cases hcalm : (s.phase.next o (reply o)).calm = true
    · exact .inl (htracked.calm hcalm)
    have hspawn : ∀ a, o ≠ .spawn a := by
      rintro a rfl
      cases hr : reply (.spawn a) with
      | ok done =>
          rw [hr] at harming
          cases harming
      | error e =>
          rw [hr] at hcalm
          have hidle : s.phase = .idle := hallow
          rw [hidle] at hcalm
          exact hcalm rfl
    obtain ⟨hnewest, hsettled⟩ := heffect.newest hspawn
    show t.Settled ∨ ∀ c ∈ t.calls, c.Harmless t.newest
    rw [heffect.calls, hnewest]
    cases hbefore : s.phase.arming with
    | false => exact (h.heeded hbefore).imp_left hsettled
    | true =>
        rcases next_arming hallow hphase hbefore harming with ⟨hph, rfl⟩ | ⟨hph, rfl⟩
        · -- no marker was found: the calls have not written one
          right
          cases hr : reply .stopRequested with
          | error e =>
              rw [hr] at hphase
              cases hphase
          | ok stops =>
              rw [hr] at hperform harming
              obtain ⟨⟨hlooked, hstops⟩, -⟩ := Option.ite_none_right_eq_some.mp hperform
              rw [hph] at harming
              have hnone : (stops.1 || stops.2) = false := by
                cases hfound : stops.1 || stops.2 with
                | false => rfl
                | true =>
                    have hnext : Phase.registered.next .stopRequested (.ok stops) = .mustStop :=
                      if_pos hfound
                    rw [hnext] at harming
                    cases harming
              obtain ⟨hfirst, hsecond⟩ := Bool.or_eq_false_iff.mp hnone
              have hkill : s.killed = none := by
                rw [hsecond] at hstops
                exact Option.not_isSome_iff_eq_none.mp (by rw [← hstops]; exact nofun)
              rw [hfirst] at hlooked
              have hread := hok hph ⟨k, hworker⟩ hlooked hkill
              intro c hc
              have hunmarked : c.marks = false := by
                cases hmarks : c.marks with
                | false => rfl
                | true =>
                    have hsome := h.marks (by rw [hph]; exact nofun) c hc hmarks
                    rw [hkill] at hsome
                    cases hsome
              cases c with
              | asked => exact .inl rfl
              | read p =>
                  have hp := hread p hc
                  rw [h.holding (by rw [hph]; rfl)] at hp
                  obtain rfl := Option.some.inj hp
                  exact .inr (.inl rfl)
              | returned stopped =>
                  cases stopped with
                  | false => exact .inr (.inr (.inr rfl))
                  | true => cases hunmarked
              | _ => cases hunmarked
        · left
          apply hsettled
          apply h.settled_of_returned hph
          cases hr : reply .stopSyncJob with
          | error e =>
              rw [hr] at hphase
              cases hphase
          | ok done =>
              rw [hr] at hperform
              exact (Option.ite_none_right_eq_some.mp hperform).1

/-! ## The result -/

theorem Heeded.next {e : JobEvent} (h : Heeded s) (hok : NoStaleStop s e)
    (hnext : s.next e = some s') : Heeded s' := by
  have htracked := h.toTracked.next hnext
  cases e with
  | work reply => exact h.work hok hnext
  | look =>
      simp only [JobState.next] at hnext
      split at hnext
      · cases hnext
        exact h.aside htracked ⟨rfl, rfl, rfl, .refl _⟩ rfl fun _ hc => .inl hc
      · cases hnext
  | callOwn =>
      simp only [JobState.next] at hnext
      split at hnext
      · cases hnext
        refine ⟨htracked, fun hphase c hc hmarks => ?_, fun harming => ?_⟩
        · rcases List.mem_append.mp hc with hc | hc
          · exact h.marks hphase c hc hmarks
          · rw [List.mem_singleton.mp hc] at hmarks
            cases hmarks
        · refine (h.heeded harming).imp_right fun hall c hc => ?_
          rcases List.mem_append.mp hc with hc | hc
          · exact hall c hc
          · exact .inl (List.mem_singleton.mp hc)
      · cases hnext
  | setStop =>
      simp only [JobState.next] at hnext
      split at hnext
      · cases hnext
        exact h.aside htracked ⟨rfl, rfl, rfl, .refl _⟩ rfl fun _ hc => .inl hc
      · cases hnext
  | call =>
      cases hnext
      refine h.aside htracked ⟨rfl, rfl, rfl, .refl _⟩ rfl fun c hc => ?_
      exact (List.mem_append.mp hc).imp_right List.mem_singleton.mp
  | step i late => exact h.stepCall hnext
  | exit proc =>
      cases hnext
      refine h.aside htracked ⟨rfl, rfl, rfl, rfl, rfl, fun p hp => ?_, fun _ hp => hp⟩ rfl
        fun _ hc => .inl hc
      exact (List.mem_filter.mp hp).1
  | sample outcome =>
      obtain ⟨haside, hkilled, hcalls⟩ := sample_aside hnext
      refine h.aside htracked haside hkilled fun c hc => ?_
      rcases hcalls with hcalls | hcalls <;> rw [hcalls] at hc
      · exact .inl hc
      · exact (List.mem_append.mp hc).imp_right List.mem_singleton.mp
  | edit account =>
      cases hnext
      exact h.aside htracked ⟨rfl, rfl, rfl, .refl _⟩ rfl fun _ hc => .inl hc

/-- In every run in which the worker's check never overlooks a stop, a process that was confirmed
to be stopped has had its signal, and none is left running that is started later. -/
theorem stop_held (settings : SyncSettings) (jobId : Id) (account : Option Account) (s : JobState)
    (h : Reaches JobState.next NoStaleStop (begin settings jobId account) s) : StopHeld s := by
  have hstart : Heeded (begin settings jobId account) :=
    ⟨begin_tracked settings jobId account, fun _ => nofun, fun _ => .inl nofun⟩
  exact (h.invariant hstart fun _ _ _ h hok hnext => h.next hok hnext).held

/-! ## Runs -/

/-- A job of an account whose initial sync is not complete. -/
def firstSync : Db where
  accounts := ⟨[("a1", { maildirPath := "/mail/a1", storeId := "s1" })], List.nodup_singleton "a1"⟩
  syncJobs := ⟨[("j1", { accountId := "a1", status := .running, requestedAt := 0 })],
    List.nodup_singleton "j1"⟩

/-- What the state of the job answers, and else a provider on which nothing fails. -/
def replyIn (s : JobState) : (o : SyncOp) → Except SyncExc (SyncAns o)
  | .stopRequested => .ok (s.looked.getD false, s.killed.isSome)
  | .wait =>
      .ok (if s.newest ∈ s.alive then none else some (if s.newest ∈ s.signalled then -15 else 0))
  | .takeBudgetStop => .ok s.budget
  | .takeSignal => .ok s.killed
  | .inboxExcluded _ => .ok false
  | o => ordinary "j1" {} firstSync o

/-- The next step of the worker, or of the stop that it waits for. -/
def goOn (s : JobState) : JobEvent :=
  match s.worker, s.own with
  | .perform .stopRequested _, _ => if s.looked = none then .look else .work (replyIn s)
  | .perform .stopSampler _, _ => if s.stopEvent = true then .work (replyIn s) else .setStop
  | .perform .stopSyncJob _, none => .callOwn
  | .perform .stopSyncJob _, some i =>
      if s.ownReturned = true then .work (replyIn s) else .step i false
  | _, _ => .work (replyIn s)

/-- The worker reads the output of its first process to the end. -/
def firstPass : List (JobState → JobEvent) := List.replicate 21 goOn

/-- The stop finds the first process; it writes its marker when the worker has looked for it
behind the second one, which runs on. -/
theorem not_stop_held :
    ¬ ∀ (settings : SyncSettings) (jobId : Id) (account : Option Account) (s : JobState),
      Reaches JobState.next (fun _ _ => True) (begin settings jobId account) s → StopHeld s := by
  intro h
  have hrun : (follow (fun _ _ => true) JobState.next
      (firstPass ++ [fun _ => .call, fun _ => .step 0 false, fun _ => .exit 0] ++
        List.replicate 7 goOn ++ List.replicate 3 fun _ => .step 0 false)
      (begin {} "j1" none)).any (fun s =>
        decide (.returned true ∈ s.calls) && decide (1 ∈ s.alive) && decide (1 ∉ s.signalled) &&
          !s.phase.arming) = true := by
    decide +kernel
  obtain ⟨s, hreach, hend⟩ := Reaches.of_script hrun fun _ _ _ => trivial
  simp only [Bool.and_eq_true, decide_eq_true_eq, Bool.not_eq_true'] at hend
  obtain ⟨⟨⟨htrue, halive⟩, hsig⟩, harming⟩ := hend
  rcases h {} "j1" none s hreach htrue 1 halive with hsignalled | ⟨-, harming', -⟩
  · exact hsig hsignalled
  · rw [harming] at harming'
    cases harming'

/-- No call holds a process that is no longer in the registry. -/
def upToDate (s : JobState) (_ : JobEvent) : Bool :=
  s.calls.all fun
    | .read p => decide (s.current = some p)
    | _ => true

theorem noStaleStop_of_upToDate (s : JobState) (e : JobEvent) (h : upToDate s e = true) :
    NoStaleStop s e := by
  cases e with
  | work reply => exact fun _ _ _ _ p hp => of_decide_eq_true (List.all_eq_true.mp h _ hp)
  | _ => trivial

/-- The stop comes when the first process has just exited; the second one is started and
terminated at once. -/
theorem firstPass_stopped : ∃ s, .returned true ∈ s.calls ∧ s.started = 2 ∧ 1 ∈ s.signalled ∧
    Reaches JobState.next NoStaleStop (begin {} "j1" none) s ∧ StopHeld s := by
  have hrun : (follow upToDate JobState.next
      (firstPass ++ [fun _ => .exit 0, fun _ => .call] ++
        (List.replicate 4 fun _ => .step 0 false) ++ List.replicate 11 goOn)
      (begin {} "j1" none)).any (fun s =>
        decide (.returned true ∈ s.calls) && decide (s.started = 2) &&
          decide (1 ∈ s.signalled)) = true := by
    decide +kernel
  obtain ⟨s, hreach, hend⟩ := Reaches.of_script hrun noStaleStop_of_upToDate
  simp only [Bool.and_eq_true, decide_eq_true_eq] at hend
  obtain ⟨⟨htrue, hstarted⟩, hsig⟩ := hend
  exact ⟨s, htrue, hstarted, hsig, hreach, stop_held {} "j1" none s hreach⟩

end MailFallback.Stops
