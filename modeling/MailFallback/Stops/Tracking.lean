import MailFallback.Stops.Semantics

/-! # The worker keeps track of its processes

Whoever calls `stop_sync_job`: every process but the newest is dead or has had its signal, the
registry leads to the newest process when the markers are looked at, and a stop that the worker
itself begins after that look reaches the process. -/

namespace MailFallback.Stops

open Storage Effects

variable {s s' : JobState} {sh sh' : Shared} {c c' : StopCall} {i p : ℕ} {late : Bool}

/-! ## The shared state -/

/-- Every process that is alive has had a signal. -/
def Shared.Settled (s : Shared) : Prop := ∀ p ∈ s.alive, p ∈ s.signalled

/-- Nothing was started or registered; processes have ended, signals were sent. -/
structure Fades (s s' : Shared) : Prop where
  started : s'.started = s.started
  current : s'.current = s.current
  alive : ∀ p ∈ s'.alive, p ∈ s.alive
  signalled : ∀ p ∈ s.signalled, p ∈ s'.signalled

theorem Fades.refl (s : Shared) : Fades s s := ⟨rfl, rfl, fun _ h => h, fun _ h => h⟩

theorem Fades.settled (h : Fades sh sh') (hs : sh.Settled) : sh'.Settled :=
  fun p hp => h.signalled p (hs p (h.alive p hp))

theorem Fades.newest (h : Fades sh sh') : sh'.newest = sh.newest := by
  unfold Shared.newest
  rw [h.started]

theorem terminate_fades (sh : Shared) (p : ℕ) : Fades sh (sh.terminate p) := by
  unfold Shared.terminate
  split
  · exact ⟨rfl, rfl, fun _ h => h, fun _ h => List.mem_cons_of_mem _ h⟩
  · exact .refl sh

theorem kill_fades (sh : Shared) (p : ℕ) : Fades sh (sh.kill p) := by
  have h := terminate_fades sh p
  exact ⟨h.started, h.current, fun _ hq => (List.mem_filter.mp hq).1, h.signalled⟩

/-- What a call finds in the registry. -/
def StopCall.lookedUp : Option ℕ → StopCall
  | none => .returned false
  | some proc => .read proc

theorem step_asked : StopCall.asked.step sh late = some (sh, .lookedUp sh.current) := by
  cases h : sh.current <;> simp only [StopCall.step, StopCall.lookedUp, h]

theorem step_fades (h : c.step sh late = some (sh', c')) : Fades sh sh' := by
  cases c with
  | asked =>
      rw [step_asked] at h
      cases h
      exact .refl sh
  | read proc =>
      cases h
      exact ⟨rfl, rfl, fun _ h => h, fun _ h => h⟩
  | marked proc =>
      cases h
      exact terminate_fades sh proc
  | terminated proc =>
      obtain ⟨-, h⟩ := Option.ite_none_right_eq_some.mp h
      cases h
      exact .refl sh
  | expired proc =>
      cases h
      exact ⟨rfl, rfl, fun _ h => h, fun _ h => h⟩
  | remarked proc =>
      cases h
      exact kill_fades sh proc
  | returned stopped => cases h

/-- Every process but the newest is dead or has had its signal. -/
def Shared.OnlyNewest (s : Shared) : Prop := ∀ p ∈ s.alive, p ∈ s.signalled ∨ p + 1 = s.started

theorem Shared.Settled.onlyNewest (h : sh.Settled) : sh.OnlyNewest := fun p hp => .inl (h p hp)

theorem Fades.onlyNewest (h : Fades sh sh') (hs : sh.OnlyNewest) : sh'.OnlyNewest := by
  intro p hp
  rw [h.started]
  exact (hs p (h.alive p hp)).imp_left (h.signalled p)

theorem Shared.OnlyNewest.eq_newest (h : sh.OnlyNewest) (hp : p ∈ sh.alive)
    (hsig : p ∉ sh.signalled) : p = sh.newest := by
  have hlast := (h p hp).resolve_left hsig
  unfold Shared.newest
  omega

/-- Only the newest process is missing. -/
theorem Shared.OnlyNewest.settled (h : sh.OnlyNewest)
    (hnewest : sh.newest ∈ sh.alive → sh.newest ∈ sh.signalled) : sh.Settled := by
  intro p hp
  by_contra hsig
  obtain rfl := h.eq_newest hp hsig
  exact hsig (hnewest hp)

theorem settled_terminate (h : sh.OnlyNewest) : (sh.terminate sh.newest).Settled := by
  have hfades := terminate_fades sh sh.newest
  apply (hfades.onlyNewest h).settled
  rw [hfades.newest]
  intro halive
  unfold Shared.terminate
  rw [if_pos (hfades.alive _ halive)]
  exact List.mem_cons_self

theorem settled_kill (h : sh.OnlyNewest) : (sh.kill sh.newest).Settled := by
  have hfades := kill_fades sh sh.newest
  apply (hfades.onlyNewest h).settled
  rw [hfades.newest]
  intro halive
  have hne := (List.mem_filter.mp halive).2
  simp at hne

/-! ## The invariant -/

/-- A stop of the worker that will reach the newest process, or has reached it. -/
def StopCall.Reaching (s : Shared) (c : StopCall) : Prop :=
  c = .asked ∨ c = .read s.newest ∨ c = .marked s.newest ∨ s.Settled ∧ c ≠ .returned false

structure Tracked (s : JobState) : Prop where
  worker : Safe phaseStep inPhase (fun _ _ => True) (fun _ _ => True) s.worker s.phase
  older : s.OnlyNewest
  calm : s.phase.calm = true → s.Settled
  registry : s.phase ≠ .spawned → s.current = none ∨ s.current = some s.newest
  holding : s.phase.holds = true → s.current = some s.newest
  own : ∀ i, s.own = some i → s.before .stopSyncJob
  stopping : s.phase = .mustStop → ∀ i, s.own = some i → ∃ c, s.calls[i]? = some c ∧
    c.Reaching s.toShared

theorem begin_tracked (settings : SyncSettings) (jobId : Id) (account : Option Account) :
    Tracked (begin settings jobId account) where
  worker := executeSyncJob_phase settings jobId
  older := nofun
  calm := fun _ => nofun
  registry := fun _ => .inl rfl
  holding := nofun
  own := nofun
  stopping := nofun

theorem Fades.reaching (h : Fades sh sh') (hc : c.Reaching sh) : c.Reaching sh' := by
  unfold StopCall.Reaching
  rw [h.newest]
  exact hc.imp_right fun hc => hc.imp_right fun hc => hc.imp_right fun hc => ⟨h.settled hc.1, hc.2⟩

/-- The step of a call that reaches the newest process. -/
theorem reaching_step (honly : sh.OnlyNewest) (hcurrent : sh.current = some sh.newest)
    (hc : c.Reaching sh) (h : c.step sh late = some (sh', c')) : c'.Reaching sh' := by
  have hfades := step_fades h
  unfold StopCall.Reaching
  rw [hfades.newest]
  rcases hc with rfl | rfl | rfl | ⟨hsettled, hne⟩
  · rw [step_asked, hcurrent] at h
    cases h
    exact .inr (.inl rfl)
  · cases h
    exact .inr (.inr (.inl rfl))
  · cases h
    exact .inr (.inr (.inr ⟨settled_terminate honly, nofun⟩))
  · have hsettled' := hfades.settled hsettled
    cases c with
    | asked =>
        rw [step_asked, hcurrent] at h
        cases h
        exact .inr (.inl rfl)
    | read proc =>
        cases h
        exact .inr (.inr (.inr ⟨hsettled', nofun⟩))
    | marked proc =>
        cases h
        exact .inr (.inr (.inr ⟨hsettled', nofun⟩))
    | terminated proc =>
        obtain ⟨-, h⟩ := Option.ite_none_right_eq_some.mp h
        cases h
        refine .inr (.inr (.inr ⟨hsettled', ?_⟩))
        split <;> exact nofun
    | expired proc =>
        cases h
        exact .inr (.inr (.inr ⟨hsettled', nofun⟩))
    | remarked proc =>
        cases h
        exact .inr (.inr (.inr ⟨hsettled', nofun⟩))
    | returned stopped => cases h

/-! ## The steps of the others -/

/-- The worker stands where it stood, and nothing was called. -/
structure Aside (s s' : JobState) : Prop where
  worker : s'.worker = s.worker
  phase : s'.phase = s.phase
  own : s'.own = s.own
  fades : Fades s.toShared s'.toShared

theorem Tracked.aside (h : Tracked s) (hs : Aside s s')
    (hcalls : ∀ i c, s.own = some i → s.calls[i]? = some c → s.phase = .mustStop →
      c.Reaching s.toShared → ∃ c', s'.calls[i]? = some c' ∧ c'.Reaching s'.toShared) :
    Tracked s' := by
  obtain ⟨hworker, hphase, hown, hfades⟩ := hs
  constructor
  · rw [hworker, hphase]
    exact h.worker
  · exact hfades.onlyNewest h.older
  · rw [hphase]
    exact fun hcalm => hfades.settled (h.calm hcalm)
  · rw [hphase, hfades.current, hfades.newest]
    exact h.registry
  · rw [hphase, hfades.current, hfades.newest]
    exact h.holding
  · unfold JobState.before
    rw [hown, hworker]
    exact h.own
  · rw [hphase, hown]
    intro hstop i hi
    obtain ⟨c, hc, hreach⟩ := h.stopping hstop i hi
    exact hcalls i c hi hc hstop hreach

theorem getElem?_of_extends {calls calls' : List StopCall} (h : calls <+: calls')
    (hc : calls[i]? = some c) : calls'[i]? = some c := by
  obtain ⟨rest, rfl⟩ := h
  rw [List.getElem?_append_left (List.getElem?_eq_some_iff.mp hc).1]
  exact hc

/-- The calls go on as they were. -/
theorem Tracked.frame (h : Tracked s) (hs : Aside s s') (hcalls : s.calls <+: s'.calls) :
    Tracked s' :=
  h.aside hs fun _ c _ hc _ hreach =>
    ⟨c, getElem?_of_extends hcalls hc, hs.fades.reaching hreach⟩

theorem stepCall_cases {i : ℕ} (h : s.stepCall i late = some s') :
    ∃ c sh c', s.calls[i]? = some c ∧ c.step s.toShared late = some (sh, c') ∧
      s' = { s with toShared := sh, calls := s.calls.set i c' } := by
  obtain ⟨c, hc, h⟩ := Option.bind_eq_some_iff.mp h
  obtain ⟨⟨sh, c'⟩, hstep, h⟩ := Option.bind_eq_some_iff.mp h
  exact ⟨c, sh, c', hc, hstep, (Option.some.inj h).symm⟩

theorem Tracked.stepCall (h : Tracked s) (hnext : s.stepCall i late = some s') : Tracked s' := by
  obtain ⟨c, sh, c', hc, hstep, rfl⟩ := stepCall_cases hnext
  refine h.aside ⟨rfl, rfl, rfl, step_fades hstep⟩ fun j d hj hd hstop hreach => ?_
  by_cases hij : i = j
  · subst hij
    obtain rfl : c = d := Option.some.inj (hc.symm.trans hd)
    refine ⟨c', ?_, reaching_step h.older (h.holding (by rw [hstop]; rfl)) hreach hstep⟩
    exact List.getElem?_set_self (List.getElem?_eq_some_iff.mp hc).1
  · exact ⟨d, (List.getElem?_set_ne hij).trans hd, (step_fades hstep).reaching hreach⟩

/-- What the sampler does besides its bookkeeping. -/
theorem sample_aside {outcome : Option (ℕ × Time)} (h : s.sample outcome = some s') :
    Aside s s' ∧ s'.killed = s.killed ∧
      (s'.calls = s.calls ∨ s'.calls = s.calls ++ [.asked]) := by
  have hsame : ∀ t : JobState, t.toShared = s.toShared → t.worker = s.worker →
      t.phase = s.phase → t.own = s.own → t.calls = s.calls →
      Aside s t ∧ t.killed = s.killed ∧ (t.calls = s.calls ∨ t.calls = s.calls ++ [.asked]) := by
    intro t hshared hworker hphase hown hcalls
    refine ⟨⟨hworker, hphase, hown, ?_⟩, congrArg Shared.killed hshared, .inl hcalls⟩
    rw [hshared]
    exact .refl _
  unfold JobState.sample at h
  split at h
  · cases h
  · cases h
  · cases h
    exact hsame _ rfl rfl rfl rfl rfl
  · split at h <;> cases h <;> exact hsame _ rfl rfl rfl rfl rfl
  · split at h <;> cases h <;> exact hsame _ rfl rfl rfl rfl rfl
  · split at h
    · split at h
      · split at h <;> cases h <;> exact hsame _ rfl rfl rfl rfl rfl
      · cases h
        exact hsame _ rfl rfl rfl rfl rfl
    · cases h
      exact hsame _ rfl rfl rfl rfl rfl
  · cases h
    exact ⟨⟨rfl, rfl, rfl, rfl, rfl, fun _ h => h, fun _ h => h⟩, rfl, .inl rfl⟩
  · cases h
    exact ⟨⟨rfl, rfl, rfl, .refl _⟩, rfl, .inr rfl⟩
  · split at h
    · cases h
      exact hsame _ rfl rfl rfl rfl rfl
    · cases h

/-! ## The steps of the worker -/

/-- The worker performs an operation that the state of the others allows. -/
theorem work_cases {reply : (o : SyncOp) → Except SyncExc (SyncAns o)}
    (h : s.work reply = some s') :
    ∃ o k phase t, s.worker = .perform o k ∧ phaseStep o s.phase (reply o) = some phase ∧
      s.perform o (reply o) = some t ∧ s' = { t with worker := k (reply o), phase := phase } := by
  unfold JobState.work at h
  split at h
  · rename_i o k hworker
    obtain ⟨phase, hphase, h⟩ := Option.bind_eq_some_iff.mp h
    obtain ⟨t, ht, h⟩ := Option.bind_eq_some_iff.mp h
    exact ⟨o, k, phase, t, hworker, hphase, ht, (Option.some.inj h).symm⟩
  · cases h

theorem phaseStep_eq {o : SyncOp} {ph ph' : Phase} {r : Except SyncExc (SyncAns o)}
    (h : phaseStep o ph r = some ph') : ph' = ph.next o r := by
  cases r with
  | ok a => exact (Option.some.inj h).symm
  | error e => exact (Option.some.inj (Option.ite_none_right_eq_some.mp h).2).symm

/-- What the invariant says of the processes and of the registry. -/
structure Ordered (ph : Phase) (sh : Shared) : Prop where
  older : sh.OnlyNewest
  calm : ph.calm = true → sh.Settled
  registry : ph ≠ .spawned → sh.current = none ∨ sh.current = some sh.newest
  holding : ph.holds = true → sh.current = some sh.newest

theorem Tracked.ordered (h : Tracked s) : Ordered s.phase s.toShared :=
  ⟨h.older, h.calm, h.registry, h.holding⟩

/-- Nothing is started or registered, and the worker does not come to hold a process. -/
theorem Ordered.fades {ph ph' : Phase} (h : Ordered ph sh) (hfades : Fades sh sh')
    (hspawned : ph ≠ .spawned) (hcalm : ph'.calm = true → sh'.Settled)
    (hholds : ph'.holds = true → ph.holds = true) : Ordered ph' sh' := by
  refine ⟨hfades.onlyNewest h.older, hcalm, fun _ => ?_, fun h' => ?_⟩
  · rw [hfades.current, hfades.newest]
    exact h.registry hspawned
  · rw [hfades.current, hfades.newest]
    exact h.holding (hholds h')

/-- One operation of the worker. -/
theorem Ordered.perform {o : SyncOp} {r : Except SyncExc (SyncAns o)} {ph : Phase} {t : JobState}
    (h : Ordered ph s.toShared) (hallow : ph.allows o) (hphase : phaseStep o ph r = some (ph.next o r))
    (hperform : s.perform o r = some t) : Ordered (ph.next o r) t.toShared := by
  by_cases haway : elsewhere o = true
  · rw [next_elsewhere haway]
    have hsame : t = s := by
      cases o <;> cases r <;> first | exact (Option.some.inj hperform).symm | cases haway
    rw [hsame]
    exact h
  cases r with
  | error e =>
      cases o with
      | startSampler =>
          cases hperform
          exact h
      | spawn accountId =>
          cases hperform
          exact h
      | readUntilDeadline =>
          cases hperform
          obtain rfl := hallow
          exact h.fades (.refl _) nofun nofun nofun
      | _ => first | exact absurd rfl haway | cases hphase
  | ok a =>
      cases o with
      | startSampler =>
          cases hperform
          obtain rfl := hallow
          exact h.fades (.refl _) nofun (fun _ => h.calm rfl) nofun
      | spawn accountId =>
          cases hperform
          obtain rfl := hallow
          refine ⟨fun p hp => ?_, nofun, fun hne => absurd rfl hne, nofun⟩
          rcases List.mem_cons.mp hp with rfl | hp
          · exact .inr rfl
          · exact .inl (h.calm rfl p hp)
      | register =>
          cases hperform
          exact ⟨h.older, nofun, fun _ => .inr rfl, fun _ => rfl⟩
      | stopRequested =>
          obtain ⟨-, hperform⟩ := Option.ite_none_right_eq_some.mp hperform
          cases hperform
          rcases hallow with rfl | rfl
          · exact h.fades (.refl _) nofun (fun _ => h.calm rfl) nofun
          · refine h.fades (.refl _) nofun (fun hcalm => ?_) (fun _ => rfl)
            have hcases : Phase.registered.next .stopRequested (.ok a) = .mustStop ∨
                Phase.registered.next .stopRequested (.ok a) = .reading :=
              ite_eq_or_eq _ _ _
            rcases hcases with hnext | hnext <;> rw [hnext] at hcalm <;> cases hcalm
      | stopSyncJob =>
          obtain ⟨hreturned, hperform⟩ := Option.ite_none_right_eq_some.mp hperform
          cases hperform
          rcases hallow with rfl | rfl
          · exact h.fades (.refl _) nofun nofun (fun _ => rfl)
          · exact h
      | readUntilDeadline =>
          cases hperform
          obtain rfl := hallow
          exact h
      | wait =>
          obtain ⟨hcode, hperform⟩ := Option.ite_none_right_eq_some.mp hperform
          cases hperform
          obtain rfl := hallow
          cases hexit : Option.isSome a with
          | true =>
              have hnext : Phase.reading.next .wait (.ok a) = .idle := if_pos hexit
              rw [hnext]
              refine h.fades (.refl _) nofun (fun _ => h.older.settled fun halive => ?_) nofun
              rw [decide_eq_true halive] at hcode
              cases a with
              | none => cases hexit
              | some code => cases hcode
          | false =>
              have hnext : Phase.reading.next .wait (.ok a) = .unresponsive :=
                if_neg (by rw [hexit]; exact nofun)
              rw [hnext]
              exact h.fades (.refl _) nofun nofun nofun
      | kill =>
          cases hperform
          obtain rfl := hallow
          exact h.fades (kill_fades _ _) nofun (fun _ => settled_kill h.older) nofun
      | waitBriefly =>
          cases hperform
          obtain rfl := hallow
          exact h.fades (.refl _) nofun (fun _ => h.calm rfl) nofun
      | stopSampler =>
          obtain ⟨-, hperform⟩ := Option.ite_none_right_eq_some.mp hperform
          cases hperform
          rcases hallow with rfl | rfl <;> exact h.fades (.refl _) nofun nofun nofun
      | unregister =>
          cases hperform
          exact ⟨h.older, nofun, fun _ => .inl rfl, nofun⟩
      | takeBudgetStop =>
          obtain ⟨-, hperform⟩ := Option.ite_none_right_eq_some.mp hperform
          cases hperform
          obtain rfl := hallow
          exact h.fades ⟨rfl, rfl, fun _ h => h, fun _ h => h⟩ nofun nofun nofun
      | takeSignal =>
          obtain ⟨-, hperform⟩ := Option.ite_none_right_eq_some.mp hperform
          cases hperform
          obtain rfl := hallow
          exact h.fades ⟨rfl, rfl, fun _ h => h, fun _ h => h⟩ nofun nofun nofun
      | discardMarkers =>
          cases hperform
          have hspawned : ph ≠ .spawned := by rcases hallow with rfl | rfl <;> exact nofun
          exact h.fades ⟨rfl, rfl, fun _ h => h, fun _ h => h⟩ hspawned nofun nofun
      | _ => exact absurd rfl haway

/-- The stop that was due has come back. -/
theorem Tracked.settled_of_returned (h : Tracked s) (hstop : s.phase = .mustStop)
    (hreturned : s.ownReturned = true) : s.Settled := by
  unfold JobState.ownReturned at hreturned
  cases hown : s.own with
  | none =>
      rw [hown] at hreturned
      cases hreturned
  | some i =>
      obtain ⟨c, hc, hreach⟩ := h.stopping hstop i hown
      rw [hown, Option.bind_some, hc] at hreturned
      cases c with
      | returned stopped =>
          rcases hreach with h | h | h | h
          · cases h
          · cases h
          · cases h
          · exact h.1
      | _ => cases hreturned

/-- What an operation of the worker leaves as it was. -/
structure Effect (o : SyncOp) (s t : JobState) : Prop where
  calls : t.calls = s.calls
  asks : t.asks = s.asks
  exceeded : t.exceeded = s.exceeded
  ledger : t.ledger = s.ledger
  sampler : o ≠ .startSampler → t.sampler = s.sampler
  killed : o ≠ .takeSignal → t.killed = s.killed
  budget : o ≠ .takeBudgetStop → o ≠ .discardMarkers → t.budget = s.budget
  looked : o ≠ .stopRequested → t.looked = s.looked
  current : o ≠ .register → o ≠ .unregister → t.current = s.current
  /-- Only a start makes another process the newest one. -/
  newest : (∀ a, o ≠ .spawn a) → t.newest = s.newest ∧ (s.Settled → t.Settled)

theorem Effect.refl (o : SyncOp) (s : JobState) : Effect o s s :=
  ⟨rfl, rfl, rfl, rfl, fun _ => rfl, fun _ => rfl, fun _ _ => rfl, fun _ => rfl, fun _ _ => rfl,
    fun _ => ⟨rfl, id⟩⟩

theorem kill_killed (sh : Shared) (p : ℕ) : (sh.kill p).killed = sh.killed ∧
    (sh.kill p).budget = sh.budget := by
  unfold Shared.kill Shared.terminate
  split <;> exact ⟨rfl, rfl⟩

theorem perform_effect {o : SyncOp} {r : Except SyncExc (SyncAns o)} {t : JobState}
    (h : s.perform o r = some t) : Effect o s t := by
  cases r with
  | error e => cases o <;> exact (Option.some.inj h) ▸ .refl _ s
  | ok a =>
      cases o with
      | startSampler =>
          cases h
          exact { Effect.refl _ s with sampler := fun hne => absurd rfl hne }
      | stopRequested =>
          obtain ⟨-, h⟩ := Option.ite_none_right_eq_some.mp h
          cases h
          exact { Effect.refl _ s with looked := fun hne => absurd rfl hne }
      | spawn accountId =>
          cases h
          exact { Effect.refl _ s with newest := fun hne => absurd rfl (hne accountId) }
      | register =>
          cases h
          exact { Effect.refl _ s with current := fun hne => absurd rfl hne }
      | stopSyncJob =>
          obtain ⟨-, h⟩ := Option.ite_none_right_eq_some.mp h
          cases h
          exact { Effect.refl _ s with }
      | wait =>
          obtain ⟨-, h⟩ := Option.ite_none_right_eq_some.mp h
          cases h
          exact .refl _ s
      | kill =>
          cases h
          have hfades := kill_fades s.toShared s.newest
          obtain ⟨hkilled, hbudget⟩ := kill_killed s.toShared s.newest
          exact { Effect.refl _ s with
            killed := fun _ => hkilled
            budget := fun _ _ => hbudget
            current := fun _ _ => hfades.current
            newest := fun _ => ⟨hfades.newest, hfades.settled⟩ }
      | stopSampler =>
          obtain ⟨-, h⟩ := Option.ite_none_right_eq_some.mp h
          cases h
          exact .refl _ s
      | unregister =>
          cases h
          exact { Effect.refl _ s with current := fun _ hne => absurd rfl hne }
      | takeBudgetStop =>
          obtain ⟨-, h⟩ := Option.ite_none_right_eq_some.mp h
          cases h
          exact { Effect.refl _ s with budget := fun hne => absurd rfl hne }
      | takeSignal =>
          obtain ⟨-, h⟩ := Option.ite_none_right_eq_some.mp h
          cases h
          exact { Effect.refl _ s with killed := fun hne => absurd rfl hne }
      | discardMarkers =>
          cases h
          exact { Effect.refl _ s with budget := fun _ hne => absurd rfl hne }
      | _ =>
          cases h
          exact .refl _ s

/-- Once the registry was cleared, the worker stays where it is. -/
theorem next_over {o : SyncOp} {r : Except SyncExc (SyncAns o)} (hallow : Phase.over.allows o) : Phase.over.next o r = .over := by
  cases r with
  | error e => cases o <;> first | rfl | (simp [Phase.allows] at hallow)
  | ok a => cases o <;> first | rfl | (simp [Phase.allows] at hallow)

theorem allows_spawned {o : SyncOp} (h : Phase.spawned.allows o) : elsewhere o = true ∨ o = .register := by
  cases o <;> simp [Phase.allows, elsewhere] at h ⊢

theorem allows_registered {o : SyncOp} (h : Phase.registered.allows o) :
    elsewhere o = true ∨ o = .stopRequested := by
  cases o <;> simp [Phase.allows, elsewhere] at h ⊢

theorem allows_mustStop {o : SyncOp} (h : Phase.mustStop.allows o) :
    elsewhere o = true ∨ o = .stopSyncJob := by
  cases o <;> simp [Phase.allows, elsewhere] at h ⊢

/-- The worker leaves the arming of a process by the check that finds no marker, or by the stop. -/
theorem next_arming {o : SyncOp} {r : Except SyncExc (SyncAns o)} {ph : Phase} (hallow : ph.allows o)
    (hphase : phaseStep o ph r = some (ph.next o r)) (h : ph.arming = true)
    (h' : (ph.next o r).arming = false) :
    ph = .registered ∧ o = .stopRequested ∨ ph = .mustStop ∧ o = .stopSyncJob := by
  by_cases haway : elsewhere o = true
  · rw [next_elsewhere haway, h] at h'
    cases h'
  · cases ph with
    | spawned =>
        obtain rfl := (allows_spawned hallow).resolve_left haway
        cases r with
        | error e => cases hphase
        | ok a => cases h'
    | registered => exact .inl ⟨rfl, (allows_registered hallow).resolve_left haway⟩
    | mustStop => exact .inr ⟨rfl, (allows_mustStop hallow).resolve_left haway⟩
    | _ => cases h

/-- No operation leaves a call of the worker behind. -/
theorem perform_own {o : SyncOp} {r : Except SyncExc (SyncAns o)} {ph : Phase} {t : JobState}
    (hown : ∀ i, s.own = some i → o = .stopSyncJob) (hphase : phaseStep o s.phase r = some ph)
    (h : s.perform o r = some t) : t.own = none := by
  have hnone : o ≠ .stopSyncJob → s.own = none := fun hne =>
    Option.eq_none_iff_forall_ne_some.mpr fun i hi => hne (hown i hi)
  cases r with
  | error e =>
      have hne : o ≠ .stopSyncJob := by
        rintro rfl
        cases hphase
      have ht : t.own = s.own := by cases o <;> exact (Option.some.inj h) ▸ rfl
      rw [ht]
      exact hnone hne
  | ok a =>
      cases o with
      | stopSyncJob => exact (Option.some.inj (Option.ite_none_right_eq_some.mp h).2) ▸ rfl
      | stopRequested =>
          exact (Option.some.inj (Option.ite_none_right_eq_some.mp h).2) ▸ hnone nofun
      | wait => exact (Option.some.inj (Option.ite_none_right_eq_some.mp h).2) ▸ hnone nofun
      | stopSampler => exact (Option.some.inj (Option.ite_none_right_eq_some.mp h).2) ▸ hnone nofun
      | takeBudgetStop =>
          exact (Option.some.inj (Option.ite_none_right_eq_some.mp h).2) ▸ hnone nofun
      | takeSignal => exact (Option.some.inj (Option.ite_none_right_eq_some.mp h).2) ▸ hnone nofun
      | _ => exact (Option.some.inj h) ▸ hnone nofun

theorem Tracked.work {reply : (o : SyncOp) → Except SyncExc (SyncAns o)} (h : Tracked s)
    (hwork : s.work reply = some s') : Tracked s' := by
  obtain ⟨o, k, phase, t, hworker, hphase, hperform, rfl⟩ := work_cases hwork
  have hsafe := h.worker
  rw [hworker] at hsafe
  obtain ⟨-, hallow, hrest⟩ := hsafe
  have hrest := hrest _ _ hphase
  obtain rfl := phaseStep_eq hphase
  have hord := h.ordered.perform hallow hphase hperform
  have hown : t.own = none := by
    refine perform_own (fun i hi => ?_) hphase hperform
    obtain ⟨k', hk'⟩ := h.own i hi
    rw [hworker] at hk'
    cases hk'
    rfl
  have hnone : ∀ i, t.own ≠ some i := fun i hi => by
    rw [hown] at hi
    cases hi
  exact ⟨hrest, hord.older, hord.calm, hord.registry, hord.holding,
    fun i hi => absurd hi (hnone i), fun _ i hi => absurd hi (hnone i)⟩

/-! ## Every step -/

theorem Tracked.next {e : JobEvent} (h : Tracked s) (hnext : s.next e = some s') :
    Tracked s' := by
  cases e with
  | work reply => exact h.work hnext
  | look =>
      simp only [JobState.next] at hnext
      split at hnext
      · cases hnext
        exact h.frame ⟨rfl, rfl, rfl, .refl _⟩ List.prefix_rfl
      · cases hnext
  | callOwn =>
      simp only [JobState.next] at hnext
      split at hnext
      · rename_i k hworker hown
        cases hnext
        refine ⟨h.worker, h.older, h.calm, h.registry, h.holding, fun _ _ => ⟨k, hworker⟩, ?_⟩
        rintro - i ⟨⟩
        exact ⟨.asked, List.getElem?_concat_length, .inl rfl⟩
      · cases hnext
  | setStop =>
      simp only [JobState.next] at hnext
      split at hnext
      · cases hnext
        exact h.frame ⟨rfl, rfl, rfl, .refl _⟩ List.prefix_rfl
      · cases hnext
  | call =>
      cases hnext
      exact h.frame ⟨rfl, rfl, rfl, .refl _⟩ (List.prefix_append _ _)
  | step i late => exact h.stepCall hnext
  | exit proc =>
      cases hnext
      refine h.frame ⟨rfl, rfl, rfl, rfl, rfl, fun p hp => ?_, fun _ hp => hp⟩ List.prefix_rfl
      exact (List.mem_filter.mp hp).1
  | sample outcome =>
      obtain ⟨haside, -, hcalls⟩ := sample_aside hnext
      apply h.frame haside
      rcases hcalls with hcalls | hcalls
      · exact ⟨[], by rw [List.append_nil, hcalls]⟩
      · exact ⟨[.asked], hcalls.symm⟩
  | edit account =>
      cases hnext
      exact h.frame ⟨rfl, rfl, rfl, .refl _⟩ List.prefix_rfl

end MailFallback.Stops
