import MailFallback.Stops.UserStops

/-! # A budget stop reaches every process of the job

The sampler commits its ledger, adds its marker and calls `stop_sync_job`, in this order; the
worker looks for the marker behind every registration. The registry and the marker must not be
taken away from a tick that has found the budget spent. -/

namespace MailFallback.Stops

open Storage Effects Transition

variable {settings : SyncSettings} {jobId : Id} {s s' t : JobState} {sh sh' : Shared}
  {c c' : StopCall} {i n : ℕ} {late : Bool} {o : SyncOp} {r : Except SyncExc (SyncAns o)}
  {booked : Account}

namespace Sampler

/-- The tick has committed this row. -/
def tick : Sampler → Option Account
  | .committed booked | .found booked | .marked booked | .stopping booked _ => some booked
  | _ => none

/-- The tick has found the budget spent, and is stopping the job. -/
def enforcing : Sampler → Bool
  | .found _ | .marked _ | .stopping .. => true
  | _ => false

/-- It has not called `stop_sync_job` yet. -/
def calling : Sampler → Bool
  | .found _ | .marked _ => true
  | _ => false

end Sampler

/-- The tick has found the budget spent and has not read the registry. -/
def JobState.stopDue (s : JobState) : Bool :=
  match s.sampler with
  | .found _ | .marked _ => true
  | .stopping _ i => decide (s.calls[i]? = some .asked)
  | _ => false

/-- The worker does not clear the registry while a stop is due, and no tick finds the budget spent
after that. -/
def InTime (s : JobState) : JobEvent → Prop
  | .work _ => s.before .unregister → s.stopDue = false
  | .sample _ => s.phase = .over → ∀ booked account, s.sampler = .committed booked →
      s.account = some account → JobState.overBudget booked account = false
  | _ => True

structure BudgetHeld (s : JobState) : Prop where
  /-- The ledger is committed before the stop. -/
  committed : ∀ booked, s.sampler.tick = some booked → s.ledger.head? = some booked
  once : s.asks ≤ 1
  /-- Once the budget was found spent and the stop has come back, every process has had its
  signal, but for one that was just started and whose marker check will find the marker. -/
  stopped : s.exceeded = true → s.sampler.enforcing = false → ∀ p ∈ s.alive, p ∈ s.signalled ∨
    p + 1 = s.started ∧ s.phase.arming = true ∧ s.budget = true ∧ s.looked ≠ some false

/-! ## The invariant -/

/-- The call of the sampler is about to terminate that process. -/
def JobState.OnItsWay (s : JobState) (newest : ℕ) : Prop :=
  ∃ booked i c, s.sampler = .stopping booked i ∧ s.calls[i]? = some c ∧
    (c = .asked ∨ c = .read newest ∨ c = .marked newest)

/-- The worker has looked for the marker of the budget behind the newest process. -/
def JobState.checked (s : JobState) : Prop :=
  s.phase.arming = false ∨ s.phase = .registered ∧ s.looked = some false

structure Enforced (s : JobState) : Prop extends Tracked s where
  looks : s.looked.isSome = true → s.before .stopRequested
  held : s.phase.arming = false → s.phase ≠ .over → s.Settled ∨ s.current = some s.newest
  setup : s.phase = .setup → s.sampler = .off ∧ s.asks = 0
  cleared : s.phase = .over → s.stopDue = false
  placed : ∀ booked i, s.sampler = .stopping booked i → i < s.calls.length
  committed : ∀ booked, s.sampler.tick = some booked → s.ledger.head? = some booked
  once : s.asks + (if s.sampler.calling = true then 1 else 0) ≤ 1
  /-- The marker stands from the stop on, until the registry is cleared. -/
  marker : s.phase ≠ .over → (s.budget = true ↔ 0 < s.asks ∨ ∃ booked, s.sampler = .marked booked)
  asked : s.exceeded = true → s.sampler.calling = true ∨ 0 < s.asks
  heeded : 0 < s.asks → s.checked → s.Settled ∨ s.OnItsWay s.newest

theorem Phase.not_over_of_arming {ph : Phase} (h : ph.arming = true) : ph ≠ .over := by
  rintro rfl
  cases h

theorem enforcing_of_onItsWay (h : s.OnItsWay n) : s.sampler.enforcing = true := by
  obtain ⟨booked, i, c, hsampler, -⟩ := h
  rw [hsampler]
  rfl

theorem Enforced.held_budget (h : Enforced s) : BudgetHeld s := by
  refine ⟨h.committed, by have := h.once; omega, fun hexceeded henforcing p hp => ?_⟩
  have hcalling : s.sampler.calling = false := by
    cases hs : s.sampler <;> rw [hs] at henforcing <;> first | rfl | cases henforcing
  have hasks : 0 < s.asks := by
    rcases h.asked hexceeded with hcall | hasks
    · rw [hcalling] at hcall
      cases hcall
    · exact hasks
  by_cases hsig : p ∈ s.signalled
  · exact .inl hsig
  -- the newest process lives without a signal: the worker has not come to its check
  have hnot : ¬ s.checked := by
    intro hchecked
    rcases h.heeded hasks hchecked with hsettled | hway
    · exact hsig (hsettled p hp)
    · rw [enforcing_of_onItsWay hway] at henforcing
      cases henforcing
  have harming : s.phase.arming = true := by
    cases harming : s.phase.arming with
    | true => rfl
    | false => exact absurd (.inl harming) hnot
  refine .inr ⟨(h.older p hp).resolve_left hsig, harming, ?_, fun hlooked => ?_⟩
  · exact (h.marker (Phase.not_over_of_arming harming)).mpr (.inl hasks)
  · obtain ⟨k, hworker⟩ := h.looks (by rw [hlooked]; rfl)
    have hsafe := h.worker
    rw [hworker] at hsafe
    rcases hsafe.2.1 with hidle | hregistered
    · rw [hidle] at harming
      cases harming
    · exact hnot (.inr ⟨hregistered, hlooked⟩)

/-- Before the sampler is started nothing was found, marked or asked. -/
theorem Tracked.enforced (h : Tracked s) (hphase : s.phase = .setup) (hsampler : s.sampler = .off)
    (hasks : s.asks = 0) (hexceeded : s.exceeded = false) (hbudget : s.budget = false)
    (hlooked : s.looked = none) : Enforced s := by
  refine ⟨h, ?_, ?_, fun _ => ⟨hsampler, hasks⟩, ?_, ?_, ?_, ?_, ?_, ?_, ?_⟩
  · rw [hlooked]
    exact nofun
  · exact fun _ _ => .inl (h.calm (by rw [hphase]; rfl))
  · rw [hphase]
    exact nofun
  · rw [hsampler]
    exact fun _ _ h => by cases h
  · rw [hsampler]
    exact fun _ h => by cases h
  · rw [hsampler, hasks]
    exact Nat.zero_le 1
  · rw [hbudget, hasks, hsampler]
    simp
  · rw [hexceeded]
    exact nofun
  · rw [hasks]
    exact fun hpos => absurd hpos (Nat.lt_irrefl 0)

/-! ## Steps that leave the sampler where it is -/

/-- The worker and the sampler stand where they stood. -/
structure Beside (s s' : JobState) : Prop where
  worker : s'.worker = s.worker
  phase : s'.phase = s.phase
  fades : Fades s.toShared s'.toShared
  looked : s'.looked = s.looked
  sampler : s'.sampler = s.sampler
  asks : s'.asks = s.asks
  exceeded : s'.exceeded = s.exceeded
  ledger : s'.ledger = s.ledger
  budget : s'.budget = s.budget

/-- Where the call of the sampler has not read the registry, it will find the newest process. -/
theorem Enforced.finds (h : Enforced s) (hchecked : s.checked) (hdue : s.stopDue = true) :
    s.Settled ∨ s.current = some s.newest := by
  rcases hchecked with harming | ⟨hregistered, -⟩
  · refine h.held harming fun hover => ?_
    rw [h.cleared hover] at hdue
    cases hdue
  · exact .inr (h.holding (by rw [hregistered]; rfl))

theorem Enforced.beside (h : Enforced s) (htracked : Tracked s') (hs : Beside s s')
    (hlength : s.calls.length ≤ s'.calls.length) (hdue : s.stopDue = false → s'.stopDue = false)
    (hway : (s.stopDue = true → s.Settled ∨ s.current = some s.newest) →
      s.OnItsWay s.newest → s'.Settled ∨ s'.OnItsWay s.newest) : Enforced s' := by
  obtain ⟨hworker, hphase, hfades, hlooked, hsampler, hasks, hexceeded, hledger, hbudget⟩ := hs
  refine ⟨htracked, ?_, ?_, ?_, ?_, ?_, ?_, ?_, ?_, ?_, ?_⟩
  · unfold JobState.before
    rw [hlooked, hworker]
    exact h.looks
  · rw [hphase, hfades.current, hfades.newest]
    exact fun harming hover => (h.held harming hover).imp_left hfades.settled
  · rw [hphase, hsampler, hasks]
    exact h.setup
  · rw [hphase]
    exact fun hover => hdue (h.cleared hover)
  · rw [hsampler]
    exact fun booked i hstopping => Nat.lt_of_lt_of_le (h.placed booked i hstopping) hlength
  · rw [hsampler, hledger]
    exact h.committed
  · rw [hsampler, hasks]
    exact h.once
  · rw [hphase, hsampler, hasks, hbudget]
    exact h.marker
  · rw [hexceeded, hsampler, hasks]
    exact h.asked
  · unfold JobState.checked
    rw [hasks, hphase, hlooked, hfades.newest]
    intro hpos hchecked
    rcases h.heeded hpos hchecked with hsettled | honway
    · exact .inl (hfades.settled hsettled)
    · exact hway (h.finds hchecked) honway

/-- The calls go on as they were. -/
theorem Enforced.frame (h : Enforced s) (htracked : Tracked s') (hs : Beside s s')
    (hcalls : s.calls <+: s'.calls) : Enforced s' := by
  refine h.beside htracked hs hcalls.length_le ?_ ?_
  · unfold JobState.stopDue
    rw [hs.sampler]
    intro hdue
    cases hsampler : s.sampler with
    | stopping booked i =>
        rw [hsampler] at hdue
        have hget := List.getElem?_eq_getElem (h.placed booked i hsampler)
        dsimp only at hdue ⊢
        rw [hget] at hdue
        rw [getElem?_of_extends hcalls hget]
        exact hdue
    | found booked =>
        rw [hsampler] at hdue
        exact hdue
    | marked booked =>
        rw [hsampler] at hdue
        exact hdue
    | _ => rfl
  · rintro - ⟨booked, i, c, hsampler, hc, hway⟩
    exact .inr ⟨booked, i, c, hs.sampler.trans hsampler, getElem?_of_extends hcalls hc, hway⟩

theorem step_budget (h : c.step sh late = some (sh', c')) : sh'.budget = sh.budget := by
  cases c with
  | asked =>
      rw [step_asked] at h
      cases h
      rfl
  | marked proc =>
      cases h
      unfold Shared.terminate
      split <;> rfl
  | terminated proc =>
      obtain ⟨-, h⟩ := Option.ite_none_right_eq_some.mp h
      cases h
      rfl
  | remarked proc =>
      cases h
      exact (kill_killed sh proc).2
  | returned stopped => cases h
  | _ =>
      cases h
      rfl

theorem step_ne_asked (h : c.step sh late = some (sh', c')) : c' ≠ .asked := by
  cases c with
  | asked =>
      rw [step_asked] at h
      cases h
      cases sh.current <;> exact nofun
  | terminated proc =>
      obtain ⟨-, h⟩ := Option.ite_none_right_eq_some.mp h
      cases h
      split <;> exact nofun
  | returned stopped => cases h
  | _ =>
      cases h
      exact nofun

theorem Enforced.stepCall (h : Enforced s) (hnext : s.stepCall i late = some s') :
    Enforced s' := by
  have htracked := h.toTracked.stepCall hnext
  obtain ⟨c, sh, c', hc, hstep, rfl⟩ := stepCall_cases hnext
  have hfades := step_fades hstep
  have hlt := (List.getElem?_eq_some_iff.mp hc).1
  refine h.beside htracked
    ⟨rfl, rfl, hfades, rfl, rfl, rfl, rfl, rfl, step_budget hstep⟩ ?_ ?_ ?_
  · exact Nat.le_of_eq (List.length_set ..).symm
  · -- no step of a call leads back to its beginning
    unfold JobState.stopDue
    dsimp only
    intro hdue
    split at hdue
    · exact hdue
    · exact hdue
    · rename_i booked j hsampler
      rw [hsampler]
      simp only [decide_eq_false_iff_not] at hdue ⊢
      by_cases hij : i = j
      · rw [← hij, List.getElem?_set_self hlt]
        exact fun hasked => step_ne_asked hstep (Option.some.inj hasked)
      · rw [List.getElem?_set_ne hij]
        exact hdue
    · rename_i hfound hmarked hstopping
      cases hsampler : s.sampler with
      | found booked => exact absurd hsampler (hfound booked)
      | marked booked => exact absurd hsampler (hmarked booked)
      | stopping booked j => exact absurd hsampler (hstopping booked j)
      | _ => rfl
  · rintro hfinds ⟨booked, j, d, hsampler, hd, hway⟩
    by_cases hij : i = j
    · subst hij
      obtain rfl : c = d := Option.some.inj (hc.symm.trans hd)
      have hset : (s.calls.set i c')[i]? = some c' := List.getElem?_set_self hlt
      rcases hway with rfl | rfl | rfl
      · have hdue : s.stopDue = true := by
          unfold JobState.stopDue
          rw [hsampler]
          exact decide_eq_true hc
        rcases hfinds hdue with hsettled | hcurrent
        · exact .inl (hfades.settled hsettled)
        · rw [step_asked, hcurrent] at hstep
          cases hstep
          exact .inr ⟨booked, i, _, hsampler, hset, .inr (.inl rfl)⟩
      · cases hstep
        exact .inr ⟨booked, i, _, hsampler, hset, .inr (.inr rfl)⟩
      · cases hstep
        exact .inl (settled_terminate h.older)
    · exact .inr ⟨booked, j, d, hsampler, (List.getElem?_set_ne hij).trans hd, hway⟩

/-! ## Steps of the sampler -/

/-- A step after which the sampler is not stopping the job, and before which no call was due. -/
theorem Enforced.passive (h : Enforced s) (htracked : Tracked s') (hs : Aside s s')
    (hstarted : s.sampler ≠ .off) (hlooked : s'.looked = s.looked) (hasks : s'.asks = s.asks)
    (hbudget : s'.budget = s.budget) (hcalling : s.sampler.calling = false)
    (hway : ¬ s.OnItsWay s.newest) (hafter : s'.sampler.enforcing = false)
    (hcommitted : ∀ booked, s'.sampler.tick = some booked → s'.ledger.head? = some booked)
    (hasked : s'.exceeded = true → 0 < s.asks) : Enforced s' := by
  have hnot : ∀ s : JobState, s.sampler.calling = false →
      ¬ ∃ booked, s.sampler = .marked booked := by
    rintro s hcalling ⟨booked, hmarked⟩
    rw [hmarked] at hcalling
    cases hcalling
  have hcalling' : s'.sampler.calling = false := by
    cases hsampler : s'.sampler <;> rw [hsampler] at hafter <;> first | rfl | cases hafter
  have hsettled : 0 < s.asks → s.checked → s.Settled := fun hpos hchecked =>
    (h.heeded hpos hchecked).resolve_right hway
  refine ⟨htracked, ?_, ?_, ?_, ?_, ?_, hcommitted, ?_, ?_, ?_, ?_⟩
  · unfold JobState.before
    rw [hlooked, hs.worker]
    exact h.looks
  · rw [hs.phase, hs.fades.current, hs.fades.newest]
    exact fun harming hover => (h.held harming hover).imp_left hs.fades.settled
  · rw [hs.phase]
    exact fun hsetup => absurd (h.setup hsetup).1 hstarted
  · intro _
    unfold JobState.stopDue
    cases hsampler : s'.sampler <;> rw [hsampler] at hafter <;> first | rfl | cases hafter
  · intro booked i hstopping
    rw [hstopping] at hafter
    cases hafter
  · rw [hasks, hcalling']
    have honce := h.once
    rw [hcalling] at honce
    exact honce
  · rw [hs.phase, hbudget, hasks]
    intro hover
    have hmarker := h.marker hover
    rw [or_iff_left (hnot s hcalling)] at hmarker
    rw [or_iff_left (hnot s' hcalling')]
    exact hmarker
  · rw [hasks]
    exact fun hexceeded => .inr (hasked hexceeded)
  · unfold JobState.checked
    rw [hs.phase, hlooked, hasks]
    exact fun hpos hchecked => .inl (hs.fades.settled (hsettled hpos hchecked))

theorem rest_enforcing : s.rest.sampler.enforcing = false ∧ s.rest.sampler.tick = none := by
  unfold JobState.rest
  dsimp only
  split <;> exact ⟨rfl, rfl⟩

theorem Enforced.rest (h : Enforced s) (htracked : Tracked s.rest) (hstarted : s.sampler ≠ .off)
    (hcalling : s.sampler.calling = false) (hway : ¬ s.OnItsWay s.newest) : Enforced s.rest := by
  refine h.passive htracked ⟨rfl, rfl, rfl, .refl _⟩ hstarted rfl rfl rfl hcalling hway
    rest_enforcing.1 (fun booked htick => ?_) fun hexceeded => ?_
  · rw [rest_enforcing.2] at htick
    cases htick
  · rcases h.asked hexceeded with hcall | hpos
    · rw [hcalling] at hcall
      cases hcall
    · exact hpos

theorem Enforced.sample {outcome : Option (ℕ × Time)} (h : Enforced s)
    (hok : InTime s (.sample outcome)) (hnext : s.sample outcome = some s') : Enforced s' := by
  have htracked : Tracked s' := h.toTracked.next (e := .sample outcome) hnext
  have hexceeded : s.sampler.calling = false → s.exceeded = true → 0 < s.asks := by
    intro hcalling hexceeded
    rcases h.asked hexceeded with hcall | hpos
    · rw [hcalling] at hcall
      cases hcall
    · exact hpos
  have hwaiting : s.sampler.enforcing = false → ¬ s.OnItsWay s.newest := by
    intro henforcing hway
    rw [enforcing_of_onItsWay hway] at henforcing
    cases henforcing
  unfold JobState.sample at hnext
  cases hsampler : s.sampler with
  | off =>
      rw [hsampler] at hnext
      cases hnext
  | ended =>
      rw [hsampler] at hnext
      cases hnext
  | resting =>
      rw [hsampler] at hnext hexceeded hwaiting
      cases hnext
      exact h.passive htracked ⟨rfl, rfl, rfl, .refl _⟩ (by rw [hsampler]; exact nofun) rfl rfl rfl
        (by rw [hsampler]; rfl) (hwaiting rfl) rfl (fun _ h => by cases h) (hexceeded rfl)
  | sampling =>
      rw [hsampler] at hnext hexceeded hwaiting
      dsimp only at hnext
      split at hnext
      · cases hnext
        exact h.passive htracked ⟨rfl, rfl, rfl, .refl _⟩ (by rw [hsampler]; exact nofun) rfl rfl
          rfl (by rw [hsampler]; rfl) (hwaiting rfl) rfl (fun _ h => by cases h) (hexceeded rfl)
      · cases hnext
        exact h.rest htracked (by rw [hsampler]; exact nofun) (by rw [hsampler]; rfl) (hwaiting rfl)
  | loaded booked =>
      rw [hsampler] at hnext hexceeded hwaiting
      dsimp only at hnext
      split at hnext
      · cases hnext
        exact h.passive htracked ⟨rfl, rfl, rfl, .refl _⟩ (by rw [hsampler]; exact nofun) rfl rfl
          rfl (by rw [hsampler]; rfl) (hwaiting rfl) rfl (fun _ h => h) (hexceeded rfl)
      · cases hnext
        exact h.rest htracked (by rw [hsampler]; exact nofun) (by rw [hsampler]; rfl) (hwaiting rfl)
  | committed booked =>
      have hstarted : s.sampler ≠ .off := by
        rw [hsampler]
        exact nofun
      have hcalling : s.sampler.calling = false := by
        rw [hsampler]
        rfl
      have hway : ¬ s.OnItsWay s.newest := hwaiting (by rw [hsampler]; rfl)
      have hunmarked : ¬ ∃ booked, s.sampler = .marked booked := by
        rintro ⟨_, hmarked⟩
        rw [hsampler] at hmarked
        cases hmarked
      rw [hsampler] at hnext
      dsimp only at hnext
      split at hnext
      · rename_i account haccount
        split at hnext
        · rename_i hspent
          have hover : s.phase ≠ .over := by
            intro hover
            rw [hok hover booked account hsampler haccount] at hspent
            cases hspent
          have hmarker := h.marker hover
          rw [or_iff_left hunmarked] at hmarker
          split at hnext
          · rename_i hbudget
            cases hnext
            exact h.passive htracked ⟨rfl, rfl, rfl, .refl _⟩ hstarted rfl rfl rfl hcalling hway
              (rest_enforcing (s := s)).1 (fun _ htick => by
                rw [(rest_enforcing (s := s)).2] at htick
                cases htick) fun _ => hmarker.mp hbudget
          · rename_i hbudget
            cases hnext
            have hzero : s.asks = 0 := Nat.eq_zero_of_not_pos fun hpos => hbudget (hmarker.mpr hpos)
            refine ⟨htracked, h.looks, h.held, fun hsetup => ?_, fun hover' => absurd hover' hover,
        (fun _ _ h => by cases h), ?_, ?_, fun _ => ?_, fun _ => .inl rfl, fun hpos => ?_⟩
            · exact absurd (h.setup hsetup).1 hstarted
            · intro booked' htick
              apply h.committed
              rw [hsampler]
              exact htick
            · show s.asks + 1 ≤ 1
              omega
            · show s.budget = true ↔ 0 < s.asks ∨ _
              constructor
              · exact fun h => absurd h hbudget
              · rintro (hpos | ⟨_, hmarked⟩)
                · omega
                · cases hmarked
            · change 0 < s.asks at hpos
              omega
        · cases hnext
          exact h.rest htracked hstarted hcalling hway
      · cases hnext
        exact h.rest htracked hstarted hcalling hway
  | found booked =>
      rw [hsampler] at hnext
      cases hnext
      have honce := h.once
      rw [hsampler] at honce
      have hzero : s.asks = 0 := Nat.le_zero.mp (Nat.le_of_succ_le_succ honce)
      have hover : s.phase ≠ .over := by
        intro hover
        have hdue := h.cleared hover
        unfold JobState.stopDue at hdue
        rw [hsampler] at hdue
        cases hdue
      refine ⟨htracked, h.looks, h.held, fun hsetup => ?_, fun hover' => absurd hover' hover,
        (fun _ _ h => by cases h), ?_, honce, fun _ => ⟨fun _ => .inr ⟨booked, rfl⟩, fun _ => rfl⟩,
        fun _ => .inl rfl, fun hpos => ?_⟩
      · have hoff := (h.setup hsetup).1
        rw [hsampler] at hoff
        cases hoff
      · intro booked' htick
        apply h.committed
        rw [hsampler]
        exact htick
      · change 0 < s.asks at hpos
        omega
  | marked booked =>
      rw [hsampler] at hnext
      cases hnext
      have honce := h.once
      rw [hsampler] at honce
      have hover : s.phase ≠ .over := by
        intro hover
        have hdue := h.cleared hover
        unfold JobState.stopDue at hdue
        rw [hsampler] at hdue
        cases hdue
      refine ⟨htracked, h.looks, h.held, fun hsetup => ?_, fun hover' => absurd hover' hover,
        ?_, ?_, honce, fun _ => ?_, fun _ => .inr (Nat.succ_pos _), fun _ _ => .inr ?_⟩
      · have hoff := (h.setup hsetup).1
        rw [hsampler] at hoff
        cases hoff
      · rintro _ _ ⟨⟩
        show _ < (s.calls ++ [StopCall.asked]).length
        rw [List.length_append]
        exact Nat.lt_succ_self _
      · intro booked' htick
        apply h.committed
        rw [hsampler]
        exact htick
      · have hmarked : s.budget = true := (h.marker hover).mpr (.inr ⟨booked, hsampler⟩)
        exact ⟨fun _ => .inl (Nat.succ_pos _), fun _ => hmarked⟩
      · exact ⟨booked, s.calls.length, .asked, rfl, List.getElem?_concat_length, .inl rfl⟩
  | stopping booked i =>
      rw [hsampler] at hnext
      dsimp only at hnext
      split at hnext
      · rename_i stopped hreturned
        cases hnext
        refine h.rest htracked (by rw [hsampler]; exact nofun) (by rw [hsampler]; rfl) ?_
        rintro ⟨booked', j, c, hstopping, hc, hway⟩
        rw [hsampler] at hstopping
        cases hstopping
        rw [hreturned] at hc
        cases hc
        rcases hway with h | h | h <;> cases h
      · cases hnext

/-! ## Steps of the worker -/

/-- No operation leaves a look at the marker behind. -/
theorem perform_looked {ph : Phase} (hlooks : s.looked.isSome = true → o = .stopRequested)
    (hphase : phaseStep o s.phase r = some ph) (h : s.perform o r = some t) : t.looked = none := by
  by_cases ho : o = .stopRequested
  · subst ho
    cases r with
    | error e => cases hphase
    | ok stops => exact (Option.some.inj (Option.ite_none_right_eq_some.mp h).2) ▸ rfl
  · rw [(perform_effect h).looked ho]
    exact Option.not_isSome_iff_eq_none.mp fun hsome => ho (hlooks hsome)

/-- Only the start of the sampler changes where the sampler stands. -/
theorem perform_sampler {ph : Phase} (hallow : s.phase.allows o)
    (hphase : phaseStep o s.phase r = some ph) (h : s.perform o r = some t) :
    t.sampler = s.sampler ∨ s.phase = .setup ∧ ph = .idle ∧ t.sampler = .resting := by
  by_cases ho : o = .startSampler
  · subst ho
    cases r with
    | error e => exact .inl ((Option.some.inj h) ▸ rfl)
    | ok done =>
        refine .inr ⟨hallow, (Option.some.inj hphase).symm, ?_⟩
        exact (Option.some.inj h) ▸ rfl
  · exact .inl ((perform_effect h).sampler ho)

/-- Only two operations lead out of the runs. -/
theorem next_outside {ph : Phase} (hallow : ph.allows o)
    (h : ph.next o r = .setup ∨ ph.next o r = .over) :
    ph.next o r = ph ∨ o = .unregister ∨ o = .discardMarkers := by
  by_cases haway : elsewhere o = true
  · exact .inl (next_elsewhere haway r)
  cases r with
  | error e =>
      cases o with
      | readUntilDeadline => rcases h with h | h <;> cases h
      | unregister => exact .inr (.inl rfl)
      | discardMarkers => exact .inr (.inr rfl)
      | stopRequested => cases ph <;> exact .inl rfl
      | stopSyncJob => cases ph <;> exact .inl rfl
      | _ => exact .inl rfl
  | ok a =>
      cases o with
      | unregister => exact .inr (.inl rfl)
      | discardMarkers => exact .inr (.inr rfl)
      | takeBudgetStop => exact .inl rfl
      | takeSignal => exact .inl rfl
      | readUntilDeadline => exact .inl rfl
      | stopRequested =>
          rcases hallow with rfl | rfl
          · exact .inl rfl
          · rcases ite_eq_or_eq ((Prod.fst a || Prod.snd a) = true) Phase.mustStop Phase.reading with
              hnext | hnext <;> rcases h with h | h <;> cases hnext.symm.trans h
      | stopSyncJob =>
          rcases hallow with rfl | rfl
          · rcases h with h | h <;> cases h
          · exact .inl rfl
      | wait =>
          rcases ite_eq_or_eq (Option.isSome a = true) Phase.idle Phase.unresponsive with
            hnext | hnext <;> rcases h with h | h <;> cases hnext.symm.trans h
      | _ =>
          first
            | exact absurd rfl haway
            | (rcases h with h | h <;> cases h)

/-- The registry is cleared by one operation, or there were no runs. -/
theorem next_eq_over {ph : Phase} (hallow : ph.allows o) (h : ph.next o r = .over) :
    ph = .over ∨ o = .unregister ∨ ph = .setup := by
  rcases next_outside hallow (.inr h) with hsame | rfl | rfl
  · exact .inl (hsame.symm.trans h)
  · exact .inr (.inl rfl)
  · exact hallow.elim (fun h => .inr (.inr h)) .inl

/-- The worker does not come back to its set-up. -/
theorem next_eq_setup {ph : Phase} (hallow : ph.allows o) (h : ph.next o r = .setup) :
    ph = .setup := by
  rcases next_outside hallow (.inl h) with hsame | rfl | rfl
  · exact hsame.symm.trans h
  · obtain rfl := hallow
    cases r <;> cases h
  · rcases hallow with rfl | rfl
    · rfl
    · cases r <;> cases h

theorem Enforced.work {reply : (o : SyncOp) → Except SyncExc (SyncAns o)} (h : Enforced s)
    (hok : InTime s (.work reply)) (hwork : s.work reply = some s') : Enforced s' := by
  have htracked := h.toTracked.work hwork
  obtain ⟨o, k, phase, t, hworker, hphase, hperform, rfl⟩ := work_cases hwork
  have hsafe := h.worker
  rw [hworker] at hsafe
  obtain ⟨-, hallow, -⟩ := hsafe
  have heffect := perform_effect hperform
  have hsampler := perform_sampler hallow hphase hperform
  have hlooks : s.looked.isSome = true → o = .stopRequested := by
    intro hsome
    obtain ⟨k', hk'⟩ := h.looks hsome
    rw [hworker] at hk'
    cases hk'
    rfl
  have hlooked := perform_looked hlooks hphase hperform
  obtain rfl := phaseStep_eq hphase
  have hcalling : t.sampler.calling = s.sampler.calling := by
    rcases hsampler with hsame | ⟨hsetup, -, hresting⟩
    · rw [hsame]
    · rw [hresting, (h.setup hsetup).1]
      rfl
  have hspawn : (s.phase.next o (reply o)).arming = false → (s.phase.next o (reply o)).calm = false →
      ∀ a, o ≠ .spawn a := by
    rintro harming hcalm a rfl
    have hidle : s.phase = .idle := hallow
    cases hr : reply (.spawn a) with
    | ok done =>
        rw [hr] at harming
        cases harming
    | error e =>
        rw [hr, hidle] at hcalm
        cases hcalm
  refine ⟨htracked, ?_, ?_, ?_, ?_, ?_, ?_, ?_, ?_, ?_, ?_⟩
  · show t.looked.isSome = true → _
    rw [hlooked]
    exact nofun
  · intro harming hover
    change (s.phase.next o (reply o)).arming = false at harming
    change s.phase.next o (reply o) ≠ .over at hover
    cases hcalm : (s.phase.next o (reply o)).calm with
    | true => exact .inl (htracked.calm hcalm)
    | false =>
        have hbefore : s.phase ≠ .over := by
          intro hph
          rw [hph] at hallow hover
          exact hover (next_over hallow)
        cases hph : s.phase.arming with
        | true =>
            refine .inr (htracked.holding ?_)
            rcases next_arming hallow hphase hph harming with ⟨hph, rfl⟩ | ⟨hph, rfl⟩
            · show (s.phase.next _ _).holds = true
              rw [hph] at harming ⊢
              cases hr : reply .stopRequested with
              | error e => rfl
              | ok stops =>
                  rcases ite_eq_or_eq ((stops.1 || stops.2) = true) Phase.mustStop Phase.reading with
                    hnext | hnext <;> exact (congrArg Phase.holds hnext).trans rfl
            · show (s.phase.next _ _).holds = true
              rw [hph]
              cases reply .stopSyncJob <;> rfl
        | false =>
            obtain ⟨hnewest, hsettled⟩ := heffect.newest (hspawn harming hcalm)
            refine (h.held hph hbefore).imp hsettled fun hcurrent => ?_
            show t.current = some t.newest
            rw [hnewest, heffect.current, hcurrent]
            · rintro rfl
              rw [show s.phase = .spawned from hallow] at hph
              cases hph
            · rintro rfl
              apply hover
              rw [show s.phase = .joined from hallow] at hphase ⊢
              cases hr : reply .unregister with
              | ok done => rfl
              | error e =>
                  rw [hr] at hphase
                  cases hphase
  · intro hsetup
    have hbefore := next_eq_setup hallow hsetup
    rcases hsampler with hsame | ⟨-, hidle, -⟩
    · exact ⟨hsame.trans (h.setup hbefore).1, heffect.asks.trans (h.setup hbefore).2⟩
    · rw [show s.phase.next o (reply o) = .setup from hsetup] at hidle
      cases hidle
  · intro hover
    have hdue : s.stopDue = false := by
      rcases next_eq_over hallow hover with hph | rfl | hph
      · exact h.cleared hph
      · exact hok ⟨k, hworker⟩
      · unfold JobState.stopDue
        rw [(h.setup hph).1]
    have hsame : t.sampler = s.sampler := by
      rcases hsampler with hsame | ⟨-, hidle, -⟩
      · exact hsame
      · rw [show s.phase.next o (reply o) = .over from hover] at hidle
        cases hidle
    unfold JobState.stopDue at hdue ⊢
    dsimp only
    rw [hsame, heffect.calls]
    exact hdue
  · intro booked i hstopping
    change t.sampler = .stopping booked i at hstopping
    show i < t.calls.length
    rw [heffect.calls]
    rcases hsampler with hsame | ⟨-, -, hresting⟩
    · exact h.placed booked i (hsame.symm.trans hstopping)
    · cases hresting.symm.trans hstopping
  · intro booked htick
    change t.sampler.tick = some booked at htick
    show t.ledger.head? = some booked
    rw [heffect.ledger]
    rcases hsampler with hsame | ⟨-, -, hresting⟩
    · exact h.committed booked (by rw [← hsame]; exact htick)
    · rw [hresting] at htick
      cases htick
  · show t.asks + (if t.sampler.calling = true then 1 else 0) ≤ 1
    rw [heffect.asks, hcalling]
    exact h.once
  · intro hover
    have hbefore : s.phase ≠ .over := by
      intro hph
      rw [hph] at hallow hover
      exact hover (next_over hallow)
    have hbudget : t.budget = s.budget := by
      apply heffect.budget
      · rintro rfl
        exact hbefore hallow
      · rintro rfl
        rcases hallow with hph | hph
        · apply hover
          show s.phase.next _ _ = .over
          rw [hph] at hphase ⊢
          cases hr : reply .discardMarkers with
          | ok done => rfl
          | error e =>
              rw [hr] at hphase
              cases hphase
        · exact hbefore hph
    have hmarked : (∃ booked, t.sampler = .marked booked) ↔ ∃ booked, s.sampler = .marked booked := by
      rcases hsampler with hsame | ⟨hsetup, -, hresting⟩
      · rw [hsame]
      · rw [hresting, (h.setup hsetup).1]
        constructor <;> rintro ⟨_, hmarked⟩ <;> cases hmarked
    show t.budget = true ↔ 0 < t.asks ∨ _
    rw [hbudget, heffect.asks, hmarked]
    exact h.marker hbefore
  · show t.exceeded = true → t.sampler.calling = true ∨ 0 < t.asks
    rw [heffect.exceeded, heffect.asks, hcalling]
    exact h.asked
  · intro hpos hchecked
    change 0 < t.asks at hpos
    rw [heffect.asks] at hpos
    have harming : (s.phase.next o (reply o)).arming = false := by
      rcases hchecked with harming | ⟨-, hsome⟩
      · exact harming
      · rw [hlooked] at hsome
        cases hsome
    cases hcalm : (s.phase.next o (reply o)).calm with
    | true => exact .inl (htracked.calm hcalm)
    | false =>
        obtain ⟨hnewest, hsettled⟩ := heffect.newest (hspawn harming hcalm)
        have hsame : t.sampler = s.sampler := by
          rcases hsampler with hsame | ⟨hsetup, -, -⟩
          · exact hsame
          · rw [(h.setup hsetup).2] at hpos
            cases hpos
        have hstill : s.Settled ∨ s.OnItsWay s.newest → t.Settled ∨ t.OnItsWay t.newest := by
          refine fun hheeded => hheeded.imp hsettled ?_
          rintro ⟨booked, i, c, hstopping, hc, hway⟩
          refine ⟨booked, i, c, hsame.trans hstopping, ?_, ?_⟩
          · rw [heffect.calls]
            exact hc
          · rw [hnewest]
            exact hway
        cases hph : s.phase.arming with
        | false => exact hstill (h.heeded hpos (.inl hph))
        | true =>
            rcases next_arming hallow hphase hph harming with ⟨hph, rfl⟩ | ⟨hph, rfl⟩
            · -- the look that the check began with has not found the marker
              refine hstill (h.heeded hpos (.inr ⟨hph, ?_⟩))
              cases hr : reply .stopRequested with
              | error e =>
                  rw [hr] at hphase
                  cases hphase
              | ok stops =>
                  rw [hr] at hperform harming
                  rw [hph] at harming
                  obtain ⟨⟨hlook, -⟩, -⟩ := Option.ite_none_right_eq_some.mp hperform
                  rw [hlook]
                  cases hfirst : stops.1 with
                  | false => rfl
                  | true =>
                      have hfound : (stops.1 || stops.2) = true := by rw [hfirst]; rfl
                      have hnext : Phase.registered.next .stopRequested (.ok stops) = .mustStop :=
                        if_pos hfound
                      rw [hnext] at harming
                      cases harming
            · left
              apply hsettled
              apply h.settled_of_returned hph
              cases hr : reply .stopSyncJob with
              | error e =>
                  rw [hr] at hphase
                  cases hphase
              | ok done =>
                  rw [hr] at hperform
                  exact (Option.ite_none_right_eq_some.mp hperform).1

/-! ## The result -/

theorem Enforced.next {e : JobEvent} (h : Enforced s) (hok : InTime s e)
    (hnext : s.next e = some s') : Enforced s' := by
  have htracked := h.toTracked.next hnext
  cases e with
  | work reply => exact h.work hok hnext
  | look =>
      simp only [JobState.next] at hnext
      split at hnext
      · rename_i k hworker
        cases hnext
        refine ⟨htracked, fun _ => ⟨k, hworker⟩, h.held, h.setup, h.cleared, h.placed, h.committed,
          h.once, h.marker, h.asked, fun hpos hchecked => ?_⟩
        rcases hchecked with harming | ⟨hregistered, hlooked⟩
        · exact h.heeded hpos (.inl harming)
        · -- a marker that stands is seen
          have hover : s.phase ≠ .over := by
            change s.phase = .registered at hregistered
            rw [hregistered]
            rintro ⟨⟩
          have hbudget : s.budget = true := (h.marker hover).mpr (.inl hpos)
          change some s.budget = some false at hlooked
          rw [hbudget] at hlooked
          cases hlooked
      · cases hnext
  | callOwn =>
      simp only [JobState.next] at hnext
      split at hnext
      · cases hnext
        exact h.frame htracked ⟨rfl, rfl, .refl _, rfl, rfl, rfl, rfl, rfl, rfl⟩
          (List.prefix_append _ _)
      · cases hnext
  | setStop =>
      simp only [JobState.next] at hnext
      split at hnext
      · cases hnext
        exact h.frame htracked ⟨rfl, rfl, .refl _, rfl, rfl, rfl, rfl, rfl, rfl⟩
          List.prefix_rfl
      · cases hnext
  | call =>
      cases hnext
      exact h.frame htracked ⟨rfl, rfl, .refl _, rfl, rfl, rfl, rfl, rfl, rfl⟩
        (List.prefix_append _ _)
  | step i late => exact h.stepCall hnext
  | exit proc =>
      cases hnext
      refine h.frame htracked ⟨rfl, rfl, ⟨rfl, rfl, fun p hp => ?_, fun _ hp => hp⟩, rfl, rfl, rfl,
        rfl, rfl, rfl⟩ List.prefix_rfl
      exact (List.mem_filter.mp hp).1
  | sample outcome => exact h.sample hok hnext
  | edit account =>
      cases hnext
      exact h.frame htracked ⟨rfl, rfl, .refl _, rfl, rfl, rfl, rfl, rfl, rfl⟩
        List.prefix_rfl

/-- In every run in which the registry stays up until every stop of the sampler has read it, the
budget is enforced. -/
theorem budget_held (settings : SyncSettings) (jobId : Id) (account : Option Account) (s : JobState)
    (h : Reaches JobState.next InTime (begin settings jobId account) s) : BudgetHeld s := by
  have hstart : Enforced (begin settings jobId account) :=
    (begin_tracked settings jobId account).enforced rfl rfl rfl rfl rfl rfl
  exact (h.invariant hstart fun _ _ _ h hok hnext => h.next hok hnext).held_budget

/-! ## Runs -/

/-- One mebibyte a day. -/
def frugal : Account where
  maildirPath := "/mail/a1"
  storeId := "s1"
  dailySyncBudgetMb := some 1

/-- The sampler finds two mebibytes more. -/
def heavyTick (_ : JobState) : JobEvent := .sample (some (2 * mib, 0))

/-- The first tick stops the first process. -/
def stoppedByBudget : List (JobState → JobEvent) :=
  firstPass ++ List.replicate 6 heavyTick ++ (List.replicate 3 fun _ => .step 0 false) ++
    [fun _ => .exit 0, fun _ => .step 0 false, heavyTick]

/-- The walk of the last tick outlasts the wait for the sampler: the marker of the first stop is
gone, and the budget is enforced a second time. -/
theorem not_budget_held :
    ¬ ∀ (settings : SyncSettings) (jobId : Id) (account : Option Account) (s : JobState),
      Reaches JobState.next (fun _ _ => True) (begin settings jobId account) s → BudgetHeld s := by
  intro h
  have hrun : (follow (fun _ _ => true) JobState.next
      (stoppedByBudget ++ List.replicate 4 goOn ++ [heavyTick] ++ List.replicate 3 goOn ++
        List.replicate 5 heavyTick)
      (begin {} "j1" (some frugal))).any (fun s => decide (s.asks = 2)) = true := by
    decide +kernel
  obtain ⟨s, hreach, hend⟩ := Reaches.of_script hrun fun _ _ _ => trivial
  have honce := (h {} "j1" (some frugal) s hreach).once
  rw [of_decide_eq_true hend] at honce
  exact absurd honce (by decide)

/-- The registry has not been cleared, nor is it being cleared while a stop is due. -/
def timely (s : JobState) (_ : JobEvent) : Bool :=
  decide (s.phase ≠ .over) && (!s.stopDue ||
    match s.worker with
    | .perform .unregister _ => false
    | _ => true)

theorem inTime_of_timely (s : JobState) (e : JobEvent) (h : timely s e = true) : InTime s e := by
  obtain ⟨hover, hdue⟩ := Bool.and_eq_true_iff.mp h
  cases e with
  | work reply =>
      rintro ⟨k, hworker⟩
      rw [hworker, Bool.or_false] at hdue
      exact Bool.not_eq_true' _ ▸ hdue
  | sample outcome => exact fun hphase => absurd hphase (of_decide_eq_true hover)
  | _ => trivial

/-- The stop of the first tick is the only one, and no second process is started. -/
theorem stoppedByBudget_held : ∃ s, s.asks = 1 ∧ s.exceeded = true ∧ 0 ∈ s.signalled ∧
    s.started = 1 ∧ s.phase = .joined ∧
    Reaches JobState.next InTime (begin {} "j1" (some frugal)) s ∧ BudgetHeld s := by
  have hrun : (follow timely JobState.next
      (stoppedByBudget ++ List.replicate 4 goOn ++ List.replicate 4 heavyTick ++ [goOn])
      (begin {} "j1" (some frugal))).any (fun s => decide (s.asks = 1) && s.exceeded &&
        decide (0 ∈ s.signalled) && decide (s.started = 1) && decide (s.phase = .joined)) =
        true := by
    decide +kernel
  obtain ⟨s, hreach, hend⟩ := Reaches.of_script hrun inTime_of_timely
  simp only [Bool.and_eq_true, decide_eq_true_eq] at hend
  obtain ⟨⟨⟨⟨hasks, hexceeded⟩, hsig⟩, hstarted⟩, hphase⟩ := hend
  exact ⟨s, hasks, hexceeded, hsig, hstarted, hphase, hreach,
    budget_held {} "j1" (some frugal) s hreach⟩

end MailFallback.Stops
