import MailFallback.Sync.Semantics
import Mathlib.Algebra.Order.Floor.Ring
import Mathlib.Data.Rat.Floor
import Mathlib.Tactic.Linarith
import Mathlib.Tactic.Positivity

/-! # When a paused account goes on

The moments of `sync_budget`, for aware times of any zone. A sum of a time and a duration is
taken on the clock of the zone; the moment it stands for depends on the offset of the zone. -/

namespace MailFallback.Sync.Resume

/-! ## Dates and durations -/

/-- Seconds from the beginning of year 1 to the end of year 9999. -/
def calendarEnd : ℚ := 3652059 * 86400

/-- The offset of a clock from UTC, and that of its second reading where it is set back. -/
structure Zone where
  utcoffset : ℚ → Bool → ℚ
  bounded : ∀ clock fold, |utcoffset clock fold| < 86400

def utc : Zone := ⟨fun _ _ => 0, fun _ _ => by rw [abs_zero]; norm_num⟩

/-- An aware `datetime`: what the clock shows, in seconds since the beginning of year 1. -/
structure Aware where
  zone : Zone
  clock : ℚ
  fold : Bool := false
  inRange : 0 ≤ clock ∧ clock < calendarEnd

def Aware.offset (t : Aware) : ℚ := t.zone.utcoffset t.clock t.fold

/-- The moment itself, as a clock in UTC shows it. -/
def Aware.moment (t : Aware) : ℚ := t.clock - t.offset

/-- `OverflowError` -/
inductive Overflow where
  | dateOutOfRange
  | tooManyDays
  deriving DecidableEq, Repr

def atClock (zone : Zone) (clock : ℚ) : Except Overflow Aware :=
  if h : 0 ≤ clock ∧ clock < calendarEnd then .ok ⟨zone, clock, false, h⟩
  else .error .dateOutOfRange

def Aware.add (t : Aware) (d : ℚ) : Except Overflow Aware := atClock t.zone (t.clock + d)

/-- `astimezone(UTC)` -/
def Aware.toUtc (t : Aware) : Except Overflow Aware := atClock utc t.moment

/-- A duration has no more than 999999999 days. -/
def timedelta (d : ℚ) : Except Overflow ℚ :=
  if -999999999 * 86400 ≤ d ∧ d < 1000000000 * 86400 then .ok d else .error .tooManyDays

/-! ## The source -/

/-- The date after the one in UTC, at midnight, and the jitter. -/
def nextBudgetResume (now : Aware) (jitter : ℚ) : Except Overflow Aware := do
  let today ← now.toUtc
  let midnight ← atClock utc ((⌊today.clock / 86400⌋ + 1) * 86400)
  midnight.add jitter

/-- What the other two do, with their base and their cap. -/
def nextResume (base cap : ℚ) (now : Aware) (attempt : ℤ) (jitter : ℚ) : Except Overflow Aware := do
  let attempt := max 1 attempt
  let scaled ← timedelta (base * 2 ^ (min (attempt - 1) 12).toNat)
  let resumed ← now.add (min scaled cap)
  resumed.add jitter

def nextThrottleResume : Aware → ℤ → ℚ → Except Overflow Aware :=
  nextResume (4 * 3600) (24 * 3600)

def nextTransientResume : Aware → ℤ → ℚ → Except Overflow Aware :=
  nextResume (2 * 60) (30 * 60)

/-! ## Delays -/

/-- The delay without a cap on the exponent. -/
def delay (base cap : ℚ) (attempt : ℤ) : ℚ := min (base * 2 ^ (max attempt 1 - 1).toNat) cap

variable {base cap maxJitter jitter d : ℚ} {now t : Aware} {attempt attempt' : ℤ}

/-- The cap on the exponent never shows. -/
theorem min_capped (hbase : 0 ≤ base) (hcap : cap ≤ base * 2 ^ 12) (attempt : ℤ) :
    min (base * 2 ^ (min (max 1 attempt - 1) 12).toNat) cap = delay base cap attempt := by
  rw [delay, max_comm attempt 1]
  rcases le_total (max 1 attempt - 1) 12 with h | h
  · rw [min_eq_left h]
  · have hexp : 12 ≤ (max 1 attempt - 1).toNat := by omega
    have hpow : base * 2 ^ 12 ≤ base * 2 ^ (max 1 attempt - 1).toNat :=
      mul_le_mul_of_nonneg_left (pow_le_pow_right₀ (by norm_num) hexp) hbase
    rw [min_eq_right h, min_eq_right (hcap.trans hpow)]
    exact min_eq_right hcap

theorem delay_mono (hbase : 0 ≤ base) (h : attempt ≤ attempt') :
    delay base cap attempt ≤ delay base cap attempt' := by
  have hexp : (max attempt 1 - 1).toNat ≤ (max attempt' 1 - 1).toNat := by omega
  exact min_le_min_right cap
    (mul_le_mul_of_nonneg_left (pow_le_pow_right₀ (by norm_num) hexp) hbase)

theorem delay_pos (hbase : 0 < base) (hcap : 0 < cap) (attempt : ℤ) : 0 < delay base cap attempt :=
  lt_min (by positivity) hcap

theorem timedelta_scaled (hbase : 0 ≤ base) (hsmall : base * 2 ^ 12 < 1000000000 * 86400)
    (attempt : ℤ) : timedelta (base * 2 ^ (min (max 1 attempt - 1) 12).toNat) =
      .ok (base * 2 ^ (min (max 1 attempt - 1) 12).toNat) := by
  have hexp : (min (max 1 attempt - 1) 12).toNat ≤ 12 := by omega
  have hpow : base * 2 ^ (min (max 1 attempt - 1) 12).toNat ≤ base * 2 ^ 12 :=
    mul_le_mul_of_nonneg_left (pow_le_pow_right₀ (by norm_num) hexp) hbase
  have hnonneg : 0 ≤ base * 2 ^ (min (max 1 attempt - 1) 12).toNat := by positivity
  exact if_pos ⟨by linarith, hpow.trans_lt hsmall⟩

/-- The delays with which the workers count in microseconds. -/
theorem delay_eq_backoff (base cap : Time) (n : ℕ) (hbase : 0 ≤ base) (hcap : cap ≤ base * 2 ^ 12) :
    ((backoff base cap n : ℤ) : ℚ) = delay base cap n := by
  have hcast : ((min (max 1 n - 1) 12 : ℕ)) = (min (max 1 (n : ℤ) - 1) 12).toNat := by omega
  rw [← min_capped (by exact_mod_cast hbase) (by exact_mod_cast hcap), backoff, hcast]
  push_cast
  rfl

/-! ## Backoff -/

theorem atClock_of_inRange {zone : Zone} {clock : ℚ} (h : 0 ≤ clock ∧ clock < calendarEnd) :
    atClock zone clock = .ok ⟨zone, clock, false, h⟩ := dif_pos h

/-- What a clock shows that could be set. -/
theorem atClock_eq_ok {zone : Zone} {clock : ℚ} (h : atClock zone clock = .ok t) :
    clock < calendarEnd ∧ t.moment = clock - zone.utcoffset clock false := by
  unfold atClock at h
  split at h
  · rename_i hrange
    cases h
    exact ⟨hrange.2, rfl⟩
  · cases h

theorem bind_ok {α β : Type} (a : α) (f : α → Except Overflow β) : (Except.ok a >>= f) = f a := rfl

/-- Bases and caps between which the exponent may be capped. -/
structure Sane (base cap : ℚ) : Prop where
  base_pos : 0 < base
  cap_pos : 0 < cap
  reached : cap ≤ base * 2 ^ 12
  small : base * 2 ^ 12 < 1000000000 * 86400

theorem nextResume_eq (h : Sane base cap) (hjitter : 0 ≤ jitter) :
    nextResume base cap now attempt jitter =
      atClock now.zone (now.clock + (delay base cap attempt + jitter)) := by
  have hpos := delay_pos h.base_pos h.cap_pos attempt
  unfold nextResume
  dsimp only
  rw [timedelta_scaled h.base_pos.le h.small, bind_ok, min_capped h.base_pos.le h.reached,
    Aware.add]
  by_cases hrange : now.clock + delay base cap attempt < calendarEnd
  · have hin : 0 ≤ now.clock + delay base cap attempt ∧
        now.clock + delay base cap attempt < calendarEnd :=
      ⟨by linarith [now.inRange.1], hrange⟩
    rw [atClock_of_inRange hin, bind_ok]
    exact congrArg (atClock now.zone) (add_assoc now.clock (delay base cap attempt) jitter)
  · have hout : ¬ (0 ≤ now.clock + delay base cap attempt ∧
        now.clock + delay base cap attempt < calendarEnd) := fun hin => hrange hin.2
    have hout' : ¬ (0 ≤ now.clock + (delay base cap attempt + jitter) ∧
        now.clock + (delay base cap attempt + jitter) < calendarEnd) :=
      fun hin => hrange (by linarith [hin.2])
    rw [atClock, dif_neg hout, atClock, dif_neg hout']
    rfl

/-- The backoff is exact, lies ahead, and grows with the attempts. -/
structure BackoffRight (base cap maxJitter : ℚ) (now : Aware) : Prop where
  exact : ∀ attempt jitter, 0 ≤ jitter → jitter ≤ maxJitter →
    ∃ t, nextResume base cap now attempt jitter = .ok t ∧
      t.moment = now.moment + delay base cap attempt + jitter
  later : ∀ attempt jitter t, 0 ≤ jitter → jitter ≤ maxJitter →
    nextResume base cap now attempt jitter = .ok t → now.moment < t.moment
  mono : ∀ attempt attempt' jitter t t', attempt ≤ attempt' → 0 ≤ jitter → jitter ≤ maxJitter →
    nextResume base cap now attempt jitter = .ok t →
      nextResume base cap now attempt' jitter = .ok t' → t.moment ≤ t'.moment

/-- After any of the delays the calendar has not ended, and the clock has the offset of now. -/
def Steady (base cap maxJitter : ℚ) (now : Aware) : Prop :=
  ∀ attempt jitter, 0 ≤ jitter → jitter ≤ maxJitter →
    now.clock + (delay base cap attempt + jitter) < calendarEnd ∧
      now.zone.utcoffset (now.clock + (delay base cap attempt + jitter)) false = now.offset

theorem backoffRight_iff (h : Sane base cap) :
    BackoffRight base cap maxJitter now ↔ Steady base cap maxJitter now := by
  constructor
  · intro hright attempt jitter hjitter hmax
    obtain ⟨t, ht, hmoment⟩ := hright.exact attempt jitter hjitter hmax
    rw [nextResume_eq h hjitter] at ht
    obtain ⟨hrange, hclock⟩ := atClock_eq_ok ht
    refine ⟨hrange, ?_⟩
    rw [hclock, Aware.moment] at hmoment
    linarith
  · intro hsteady
    have hexact : ∀ attempt jitter t, 0 ≤ jitter → jitter ≤ maxJitter →
        nextResume base cap now attempt jitter = .ok t →
          t.moment = now.moment + delay base cap attempt + jitter := by
      intro attempt jitter t hjitter hmax ht
      rw [nextResume_eq h hjitter] at ht
      rw [(atClock_eq_ok ht).2, (hsteady attempt jitter hjitter hmax).2, Aware.moment]
      ring
    refine ⟨fun attempt jitter hjitter hmax => ?_, fun attempt jitter t hjitter hmax ht => ?_,
      fun attempt attempt' jitter t t' hle hjitter hmax ht ht' => ?_⟩
    · have hpos := delay_pos h.base_pos h.cap_pos attempt
      have hrange : 0 ≤ now.clock + (delay base cap attempt + jitter) ∧
          now.clock + (delay base cap attempt + jitter) < calendarEnd :=
        ⟨by linarith [now.inRange.1], (hsteady attempt jitter hjitter hmax).1⟩
      have ht : nextResume base cap now attempt jitter = .ok ⟨now.zone, _, false, hrange⟩ :=
        (nextResume_eq h hjitter).trans (atClock_of_inRange hrange)
      exact ⟨_, ht, hexact attempt jitter _ hjitter hmax ht⟩
    · have hpos := delay_pos h.base_pos h.cap_pos attempt
      rw [hexact attempt jitter t hjitter hmax ht]
      linarith
    · have hmono : delay base cap attempt ≤ delay base cap attempt' :=
        delay_mono h.base_pos.le hle
      rw [hexact attempt jitter t hjitter hmax ht, hexact attempt' jitter t' hjitter hmax ht']
      linarith

/-! ## The end of the day -/

/-- The pause ends on the next day in UTC, ahead of now and within half an hour of a day. -/
def BudgetRight (now : Aware) : Prop :=
  ∀ jitter, 0 ≤ jitter → jitter ≤ 1800 → ∃ t, nextBudgetResume now jitter = .ok t ∧
    ⌊t.moment / 86400⌋ = ⌊now.moment / 86400⌋ + 1 ∧ now.moment < t.moment ∧
      t.moment ≤ now.moment + (24 * 3600 + 30 * 60)

/-- In UTC it is a day of the calendar, and not its last. -/
def BeforeLastDay (now : Aware) : Prop := 0 ≤ now.moment ∧ now.moment < calendarEnd - 86400

theorem moment_utc (clock : ℚ) (fold : Bool) (h : 0 ≤ clock ∧ clock < calendarEnd) :
    (Aware.mk utc clock fold h).moment = clock := sub_zero clock

theorem floor_lt_days {clock : ℚ} (h : clock < calendarEnd - 86400) :
    ((⌊clock / 86400⌋ : ℚ) + 1) * 86400 + 1800 < calendarEnd := by
  have hfloor : ⌊clock / 86400⌋ < 3652058 := by
    rw [Int.floor_lt]
    unfold calendarEnd at h
    rw [div_lt_iff₀ (by norm_num)]
    push_cast
    linarith
  have hle : ((⌊clock / 86400⌋ : ℤ) : ℚ) ≤ 3652057 := by exact_mod_cast Int.le_sub_one_of_lt hfloor
  unfold calendarEnd
  linarith

theorem budgetRight_iff : BudgetRight now ↔ BeforeLastDay now := by
  constructor
  · intro h
    obtain ⟨t, ht, -, -, -⟩ := h 0 le_rfl (by norm_num)
    unfold nextBudgetResume at ht
    by_cases hrange : 0 ≤ now.moment ∧ now.moment < calendarEnd
    · rw [Aware.toUtc, atClock_of_inRange hrange, bind_ok] at ht
      dsimp only at ht
      refine ⟨hrange.1, ?_⟩
      by_contra hlast
      have hfloor : (3652058 : ℤ) ≤ ⌊now.moment / 86400⌋ := by
        rw [Int.le_floor, le_div_iff₀ (by norm_num)]
        unfold calendarEnd at hlast
        push_cast
        linarith
      have hcast : (3652058 : ℚ) ≤ (⌊now.moment / 86400⌋ : ℤ) := by exact_mod_cast hfloor
      have hout : ¬ (0 ≤ ((⌊now.moment / 86400⌋ : ℚ) + 1) * 86400 ∧
          ((⌊now.moment / 86400⌋ : ℚ) + 1) * 86400 < calendarEnd) := by
        intro hin
        unfold calendarEnd at hin
        linarith [hin.2]
      rw [atClock, dif_neg hout] at ht
      cases ht
    · rw [Aware.toUtc, atClock, dif_neg hrange] at ht
      cases ht
  · rintro ⟨hnonneg, hlast⟩ jitter hjitter hmax
    have hrange : 0 ≤ now.moment ∧ now.moment < calendarEnd := ⟨hnonneg, by linarith⟩
    have hend := floor_lt_days hlast
    have hfloor : (0 : ℚ) ≤ ⌊now.moment / 86400⌋ := by
      exact_mod_cast Int.floor_nonneg.mpr (div_nonneg hnonneg (by norm_num))
    have hmidnight : 0 ≤ ((⌊now.moment / 86400⌋ : ℚ) + 1) * 86400 ∧
        ((⌊now.moment / 86400⌋ : ℚ) + 1) * 86400 < calendarEnd :=
      ⟨by positivity, by linarith⟩
    have hresumed : 0 ≤ ((⌊now.moment / 86400⌋ : ℚ) + 1) * 86400 + jitter ∧
        ((⌊now.moment / 86400⌋ : ℚ) + 1) * 86400 + jitter < calendarEnd :=
      ⟨by positivity, by linarith⟩
    have hbelow := Int.floor_le (now.moment / 86400)
    have habove := Int.lt_floor_add_one (now.moment / 86400)
    rw [le_div_iff₀ (by norm_num)] at hbelow
    rw [div_lt_iff₀ (by norm_num)] at habove
    refine ⟨⟨utc, _, false, hresumed⟩, ?_, ?_, ?_, ?_⟩
    · unfold nextBudgetResume
      rw [Aware.toUtc, atClock_of_inRange hrange, bind_ok]
      dsimp only
      rw [atClock_of_inRange hmidnight, bind_ok, Aware.add, atClock_of_inRange hresumed]
    · rw [moment_utc, Int.floor_eq_iff]
      push_cast
      constructor
      · rw [le_div_iff₀ (by norm_num)]
        linarith
      · rw [div_lt_iff₀ (by norm_num)]
        linarith
    · rw [moment_utc]
      linarith
    · rw [moment_utc]
      linarith

/-! ## All three -/

def ResumesRight (now : Aware) : Prop :=
  BackoffRight (4 * 3600) (24 * 3600) 600 now ∧ BackoffRight (2 * 60) (30 * 60) 30 now ∧
    BudgetRight now

/-- The resume times are right exactly if the calendar goes on for long enough and the clock is
not set meanwhile. -/
theorem resumesRight_iff (now : Aware) : ResumesRight now ↔
    Steady (4 * 3600) (24 * 3600) 600 now ∧ Steady (2 * 60) (30 * 60) 30 now ∧
      BeforeLastDay now := by
  have hthrottle : Sane (4 * 3600) (24 * 3600) := by constructor <;> norm_num
  have htransient : Sane (2 * 60) (30 * 60) := by constructor <;> norm_num
  exact and_congr (backoffRight_iff hthrottle) (and_congr (backoffRight_iff htransient)
    budgetRight_iff)

/-- Where the offset never changes the clock is steady until shortly before the end. -/
theorem steady_of_fixed (hfixed : ∀ clock fold, now.zone.utcoffset clock fold = now.offset)
    (h : now.clock + (cap + maxJitter) < calendarEnd) : Steady base cap maxJitter now := by
  intro attempt jitter _ hmax
  have hcap : delay base cap attempt ≤ cap := min_le_right _ _
  exact ⟨by linarith, hfixed _ _⟩

/-- Two hours ahead of UTC; at three o'clock on 25 October 2026 the clock is set back by one. -/
def autumn : Zone where
  utcoffset clock fold :=
    if clock < 63928490400 ∨ clock < 63928494000 ∧ fold = false then 7200 else 3600
  bounded clock fold := by split <;> norm_num

/-- Half past two, for the second time. -/
def secondHalfPastTwo : Aware := ⟨autumn, 63928492200, true, by unfold calendarEnd; norm_num⟩

/-- The pause of two minutes has ended before it begins. -/
theorem not_resumesRight : ¬ ResumesRight secondHalfPastTwo := by
  rintro ⟨-, hright, -⟩
  obtain ⟨t, ht, hmoment⟩ := hright.exact 1 0 le_rfl (by norm_num)
  have hdelay : delay (2 * 60) (30 * 60) 1 = 120 := by norm_num [delay]
  have hrange : 0 ≤ secondHalfPastTwo.clock + (120 + 0) ∧
      secondHalfPastTwo.clock + (120 + 0) < calendarEnd := by
    norm_num [secondHalfPastTwo, calendarEnd]
  have hsane : Sane (2 * 60) (30 * 60) := by constructor <;> norm_num
  rw [nextResume_eq hsane le_rfl, hdelay, atClock_of_inRange hrange] at ht
  have hafter : t.moment = 63928485120 := by
    rw [← Except.ok.inj ht]
    norm_num [Aware.moment, Aware.offset, secondHalfPastTwo, autumn]
  have hnow : secondHalfPastTwo.moment = 63928488600 := by
    norm_num [Aware.moment, Aware.offset, secondHalfPastTwo, autumn]
  rw [hafter, hdelay, hnow] at hmoment
  norm_num at hmoment

end MailFallback.Sync.Resume
