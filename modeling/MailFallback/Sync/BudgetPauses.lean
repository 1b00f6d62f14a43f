import MailFallback.Sync.Ledger

/-! # Budget pauses

A tick that finds the budget spent leaves a marker; the worker takes it when the process is gone,
and reads the clock once more for the time of the next attempt. -/

namespace MailFallback

open Storage

/-- The time that the end of a run takes; a sampler that outlives its join may tick in it. -/
structure PauseTiming where
  /-- From the last tick to the reading of the marker. -/
  shutdown : ℕ
  late : List SampledTick := []
  /-- To the reading of the clock. -/
  delay : ℕ
  jitter : Time
  halfHour : 0 ≤ jitter ∧ jitter ≤ 1800 * second

namespace Sampling

/-- The account is paused until the next midnight and the jitter. -/
def pause (jitter : Time) (s : Sampling) : Sampling :=
  { s with
    account := (Write.paused "budget_paused" (nextBudgetResume s.clock jitter)).account s.account }

/-- From the last tick of the run to the reading of the clock. -/
def wind (since : Time) (timing : PauseTiming) (s : Sampling) : Sampling :=
  let taken := { s with clock := s.clock + timing.shutdown, marker := false }
  let late := runTicks since taken timing.late
  { late with clock := late.clock + timing.delay }

/-- The budget pause at the end of a run, if there is one. -/
def budgetPause (since : Time) (timing : PauseTiming) (s : Sampling) : Option Sampling :=
  if s.marker = true then some ((s.wind since timing).pause timing.jitter) else none

/-- The budget is spent, and the account waits for the midnight behind the day it was spent on. -/
structure RightlyPaused (s : Sampling) : Prop where
  spent : budgetHeadroomToday s.account s.clock = false
  resume : ∃ date resumeAt, s.spentOn = some date ∧ s.account.syncPausedUntil = some resumeAt ∧
    (date + 1) * day ≤ resumeAt ∧ resumeAt ≤ (date + 1) * day + 1800 * second

/-! ## The day on which the budget was spent -/

/-- What the ledger says of the day on which the budget was found spent, as long as it lasts. -/
structure Spending (s : Sampling) : Prop where
  past : ∀ date, s.spentOn = some date → date ≤ dateOf s.clock
  today : s.spentOn = some (dateOf s.clock) →
    s.account.trafficDate = some (dateOf s.clock) ∧ overDailyBudget s.account = true

variable {s : Sampling} {since : Time}

theorem overDailyBudget_iff {account : Account} : overDailyBudget account = true ↔
    ∃ budget, dailyBudgetBytes account = some budget ∧ budget ≤ account.bytesSyncedToday := by
  simp [overDailyBudget, Option.any_eq_true]

/-- Over its budget today: exactly then there is no headroom. -/
theorem headroom_eq_false_iff {account : Account} {now : Time} :
    budgetHeadroomToday account now = false ↔
      account.trafficDate = some (dateOf now) ∧ overDailyBudget account = true := by
  rw [overDailyBudget_iff, budgetHeadroomToday]
  cases dailyBudgetBytes account with
  | none => simp
  | some budget => simp [Bool.or_eq_false_iff]

theorem overDailyBudget_book {bytes : ℕ} {now : Time} {account : Account}
    (htoday : account.trafficDate = some (dateOf now)) (h : overDailyBudget account = true) :
    overDailyBudget (bookTraffic bytes now account) = true := by
  obtain ⟨budget, hbudget, hle⟩ := overDailyBudget_iff.mp h
  refine overDailyBudget_iff.mpr ⟨budget, hbudget, ?_⟩
  rw [bookTraffic_bytes, Account.bytesOn, if_pos htoday]
  exact hle.trans (Nat.le_add_right _ _)

theorem Spending.pass (h : s.Spending) (elapsed : ℕ) :
    Spending { s with clock := s.clock + elapsed } := by
  have hle : dateOf s.clock ≤ dateOf (s.clock + elapsed) :=
    dateOf_mono (le_add_of_nonneg_right (Int.natCast_nonneg elapsed))
  refine ⟨fun date hdate => (h.past date hdate).trans hle, fun hdate => ?_⟩
  -- the budget was spent no later than on the day before the wait
  have hsame : dateOf (s.clock + elapsed) = dateOf s.clock := le_antisymm (h.past _ hdate) hle
  simp only [hsame] at hdate ⊢
  exact h.today hdate

theorem Spending.take (h : s.Spending) : Spending { s with marker := false } :=
  ⟨h.past, h.today⟩

theorem Spending.watermark (h : s.Spending) (bytes : ℕ) :
    Spending { s with lastRunBytes := bytes } := ⟨h.past, h.today⟩

theorem Spending.see (h : s.Spending) (bytes : ℕ) : Spending { s with seen := bytes } :=
  ⟨h.past, h.today⟩

theorem Spending.commit (h : s.Spending) (bytes : ℕ) :
    (s.commit (bookTraffic bytes s.clock s.account)).Spending := by
  refine ⟨h.past, fun hdate => ⟨rfl, ?_⟩⟩
  obtain ⟨htoday, hover⟩ := h.today hdate
  exact overDailyBudget_book htoday hover

theorem Spending.enforce (h : s.Spending) (htoday : s.account.trafficDate = some (dateOf s.clock)) :
    s.enforce.Spending := by
  unfold Sampling.enforce
  split
  · rename_i hover
    exact ⟨(fun date hdate => (Option.some.inj hdate).ge),
      fun _ => ⟨htoday, hover⟩⟩
  · exact h

theorem Spending.tick (h : s.Spending) (bytes : ℕ) (error : Option TickError) :
    (s.samplerTick bytes error).Spending := by
  have hcommit := (h.watermark bytes).commit (bytes - s.lastRunBytes)
  cases error with
  | none => exact (hcommit.enforce rfl).see _
  | some error =>
      cases error with
      | beforeWatermark => exact h
      | beforeCommit => exact h.watermark bytes
      | behindCommit => exact hcommit
      | stopping => exact hcommit.enforce rfl

end Sampling

/-! ## Whole runs -/

variable {s : Sampling} {since : Time}

theorem runTicks_spending (h : s.Spending) (ticks : List SampledTick) :
    (runTicks since s ticks).Spending := by
  induction ticks generalizing s with
  | nil => exact h
  | cons t ticks ih => exact ih ((h.pass t.elapsed).tick _ _)

theorem wind_spending (h : s.Spending) (timing : PauseTiming) :
    (s.wind since timing).Spending :=
  (runTicks_spending (h.pass timing.shutdown).take timing.late).pass timing.delay

/-- A pause is right on the day on which the budget was spent, and on no other. -/
theorem rightlyPaused_iff (h : s.Spending) {jitter : Time}
    (hjitter : 0 ≤ jitter ∧ jitter ≤ 1800 * second) :
    (s.pause jitter).RightlyPaused ↔ s.spentOn = some (dateOf s.clock) := by
  constructor
  · rintro ⟨-, date, resumeAt, hdate, hresume, -, hle⟩
    have hclock : nextBudgetResume s.clock jitter = resumeAt := Option.some.inj hresume
    have hle' : (dateOf s.clock + 1) * day + jitter ≤ (date + 1) * day + 1800 * second :=
      hclock.le.trans hle
    have hpast : date ≤ dateOf s.clock := h.past date hdate
    -- half an hour is shorter than a day
    have hday : day = 86400000000 := rfl
    have hsecond : second = 1000000 := rfl
    have hjitter' : (0 : ℤ) ≤ jitter := hjitter.1
    have hsame : date = dateOf s.clock := by
      rw [hday, hsecond] at hle'
      omega
    rw [← hsame]
    exact hdate
  · intro hdate
    obtain ⟨htoday, hover⟩ := h.today hdate
    refine ⟨Sampling.headroom_eq_false_iff.mpr ⟨htoday, hover⟩, dateOf s.clock, _, hdate, rfl, ?_, ?_⟩
    · exact le_add_of_nonneg_right hjitter.1
    · exact Int.add_le_add_left hjitter.2 _

/-- A run of the sampler over an account with any ledger. -/
def sampled (account : Account) (clock since : Time) (ticks : List SampledTick) : Sampling :=
  runTicks since { clock := clock, account := account } ticks

/-- A budget pause at the end of a run is right exactly when the clock that it is reckoned by is
still on the last day on which a tick found the budget spent. -/
theorem budgetPause_right_iff (account : Account) (clock since : Time) (ticks : List SampledTick)
    (timing : PauseTiming) :
    (∀ paused, (sampled account clock since ticks).budgetPause since timing = some paused →
      paused.RightlyPaused) ↔
    ((sampled account clock since ticks).marker = true →
      ((sampled account clock since ticks).wind since timing).spentOn =
        some (dateOf ((sampled account clock since ticks).wind since timing).clock)) := by
  have hstart : Sampling.Spending { clock := clock, account := account } :=
    ⟨(fun _ hdate => by cases hdate), fun hdate => by cases hdate⟩
  have hspending : (sampled account clock since ticks).Spending := runTicks_spending hstart ticks
  generalize sampled account clock since ticks = s at hspending
  have hpause : s.marker = true →
      (((s.wind since timing).pause timing.jitter).RightlyPaused ↔
        (s.wind since timing).spentOn = some (dateOf (s.wind since timing).clock)) := by
    intro hmarker
    exact rightlyPaused_iff (wind_spending hspending timing) timing.halfHour
  unfold Sampling.budgetPause
  constructor
  · intro h hmarker
    rw [if_pos hmarker] at h
    exact (hpause hmarker).mp (h _ rfl)
  · intro h paused hpaused
    split at hpaused
    · rename_i hmarker
      obtain rfl := Option.some.inj hpaused
      exact (hpause hmarker).mpr (h hmarker)
    · cases hpaused

/-- Two thousand megabytes, stored by the run. -/
def spentWalk : List WalkedDir := [⟨["INBOX", "cur"], [("1.eml", some (2000 * mib, 10))]⟩]

def googleAccount : Account := { maildirPath := "/m/a1", storeId := "s1", provider := "google" }

/-- The budget is spent ten seconds before midnight, and the process takes longer to end. -/
def acrossMidnight : PauseTiming where
  shutdown := 15000000
  delay := 1000
  jitter := 0
  halfHour := ⟨le_refl _, by decide⟩

theorem not_budgetPause_right : ¬ ∀ (account : Account) (clock since : Time)
    (ticks : List SampledTick) (timing : PauseTiming) (paused : Sampling),
    (sampled account clock since ticks).budgetPause since timing = some paused →
      paused.RightlyPaused := by
  intro h
  have hpaused : ((sampled googleAccount (day - 10 * second) 0
      [⟨0, spentWalk, none⟩]).budgetPause 0 acrossMidnight).any (fun paused =>
        budgetHeadroomToday paused.account paused.clock) = true := by decide +kernel
  obtain ⟨paused, hpause, hheadroom⟩ := Option.any_eq_true _ _ |>.mp hpaused
  have hspent := (h _ _ _ _ _ _ hpause).spent
  rw [hspent] at hheadroom
  cases hheadroom

end MailFallback
