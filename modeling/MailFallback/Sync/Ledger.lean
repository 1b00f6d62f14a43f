import MailFallback.Library.PyString
import MailFallback.Library.Transition
import MailFallback.Sync.Actors
import Mathlib.Algebra.BigOperators.Group.Finset.Basic
import Mathlib.Algebra.GroupWithZero.Nat

/-! # The byte ledger of one run

The ticks of a sampler book what its walk finds, day by day, and enforce the budget. -/

namespace MailFallback

open Storage

/-- A directory that a walk meets, by the names that lead to it; `none` where `stat` fails. -/
structure WalkedDir where
  names : List String
  files : List (String × Option (ℕ × Time))

/-- Mail of the account lies in this directory. -/
def WalkedDir.counted (dir : WalkedDir) : Bool :=
  (dir.names.all fun n => decide (n ≠ ".dovecot-home")) &&
    dir.names.getLast?.any fun n => n == "cur" || n == "new"

/-- `_sample_maildir`, the bytes of the files that are as new as the run. -/
def runBytes (dirs : List WalkedDir) (since : Time) : ℕ :=
  (((dirs.filter WalkedDir.counted).flatMap WalkedDir.files).filterMap fun file =>
    if PyString.startsWith file.1 "." = true ∨ PyString.startsWith file.1 "dovecot" = true then none
    else file.2.bind fun st => if since ≤ st.2 then some st.1 else none).sum

/-- Where an exception comes out of a tick. -/
inductive TickError where
  | beforeWatermark
  /-- Behind the new watermark, up to and including the commit. -/
  | beforeCommit
  | behindCommit
  /-- In `stop_sync_job`. -/
  | stopping
  deriving DecidableEq, Repr

/-- A sampler at work; the committed dates and traffic (the last ones first), what successful
ticks have seen and the day whose budget was found spent are history. -/
structure Sampling where
  clock : Time
  account : Account
  lastRunBytes : ℕ := 0
  /-- `job_id in _budget_stops` -/
  marker : Bool := false
  rows : List (ℤ × ℕ) := []
  seen : ℕ := 0
  spentOn : Option ℤ := none

/-- The bytes that an account has on the ledger of a day. -/
def Account.bytesOn (account : Account) (date : ℤ) : ℕ :=
  if account.trafficDate = some date then account.bytesSyncedToday else 0

def overDailyBudget (account : Account) : Bool :=
  (dailyBudgetBytes account).any fun budget => decide (budget ≤ account.bytesSyncedToday)

namespace Sampling

variable (s : Sampling)

/-- The row is committed. -/
def commit (booked : Account) : Sampling :=
  { s with
    account := booked
    rows := (dateOf s.clock, booked.bytesSyncedToday) :: s.rows }

/-- The budget is compared with what was booked. -/
def enforce : Sampling :=
  if overDailyBudget s.account = true then
    { s with marker := true, spentOn := some (dateOf s.clock) }
  else s

/-- `_sampler_tick` -/
def samplerTick (bytes : ℕ) (error : Option TickError) : Sampling :=
  let booked := bookTraffic (bytes - s.lastRunBytes) s.clock s.account
  let moved := { s with lastRunBytes := bytes }
  match error with
  | some .beforeWatermark => s
  | some .beforeCommit => moved
  | some .behindCommit => moved.commit booked
  | some .stopping => (moved.commit booked).enforce
  | none => { (moved.commit booked).enforce with seen := max s.seen bytes }

end Sampling

/-! ## What was booked for the run -/

/-- What stands on the ledger of a day beyond what stood there before the run. -/
def dayBooked (before : Account) (rows : List (ℤ × ℕ)) (date : ℤ) : ℕ :=
  (rows.lookup date).getD 0 - before.bytesOn date

/-- The bytes booked for the run, over all its days. -/
def bookedBytes (before : Account) (rows : List (ℤ × ℕ)) : ℕ :=
  ∑ date ∈ (rows.map Prod.fst).toFinset, dayBooked before rows date

/-- An account before a run; its last traffic is not of a day to come. -/
structure LedgerStart where
  account : Account
  clock : Time
  past : ∀ date, account.trafficDate = some date → date ≤ dateOf clock

/-- A tick, some time after the one before it. -/
structure SampledTick where
  elapsed : ℕ
  walk : List WalkedDir
  error : Option TickError := none

def runTicks (since : Time) (s : Sampling) (ticks : List SampledTick) : Sampling :=
  ticks.foldl (fun s t =>
    Sampling.samplerTick { s with clock := s.clock + t.elapsed } (runBytes t.walk since) t.error) s

/-- The sampler behind these ticks. -/
def LedgerStart.run (start : LedgerStart) (since : Time) (ticks : List SampledTick) : Sampling :=
  runTicks since { clock := start.clock, account := start.account } ticks

/-! ## The ledger by days -/

/-- The rows and the account agree. -/
structure Sampling.Kept (before : Account) (s : Sampling) : Prop where
  dates : ∀ r ∈ s.rows, r.1 ≤ dateOf s.clock
  unbooked : s.rows = [] → ∀ date, s.account.bytesOn date = before.bytesOn date
  last : ∀ r rest, s.rows = r :: rest → s.account.trafficDate = some r.1 ∧
    s.account.bytesSyncedToday = r.2 ∧ ∀ r' ∈ s.rows, r'.1 ≤ r.1
  opening : ∀ date bytes, s.rows.lookup date = some bytes → before.bytesOn date ≤ bytes
  past : ∀ date, before.trafficDate = some date → date ≤ dateOf s.clock ∧
    ∀ r ∈ s.rows, date ≤ r.1

variable {before : Account} {s : Sampling} {since : Time} {start : LedgerStart}

theorem dateOf_mono {a b : Time} (h : a ≤ b) : dateOf a ≤ dateOf b :=
  Int.ediv_le_ediv (by decide) h

theorem bookTraffic_bytes (bytes : ℕ) (now : Time) (account : Account) :
    (bookTraffic bytes now account).bytesSyncedToday = account.bytesOn (dateOf now) + bytes := rfl

theorem lookup_isSome_of_mem {rows : List (ℤ × ℕ)} {date : ℤ} (h : date ∈ rows.map Prod.fst) :
    ∃ bytes, rows.lookup date = some bytes := by
  induction rows with
  | nil => cases h
  | cons r rows ih =>
      rw [List.lookup_cons]
      cases hr : date == r.1 with
      | true => exact ⟨r.2, rfl⟩
      | false =>
          rw [List.map_cons, List.mem_cons] at h
          rcases h with rfl | h
          · simp at hr
          · exact ih h

/-- On a day without a row the ledger holds what it held before the run. -/
theorem Sampling.Kept.bytesOn_new (h : s.Kept before)
    (hnew : dateOf s.clock ∉ s.rows.map Prod.fst) :
    s.account.bytesOn (dateOf s.clock) = before.bytesOn (dateOf s.clock) := by
  cases hrows : s.rows with
  | nil => exact h.unbooked hrows _
  | cons r rest =>
      obtain ⟨hdate, -, -⟩ := h.last r rest hrows
      have hmem : r ∈ s.rows := hrows ▸ List.mem_cons_self
      have hne : r.1 ≠ dateOf s.clock := fun heq => hnew (heq ▸ List.mem_map_of_mem hmem)
      have hbefore : before.trafficDate ≠ some (dateOf s.clock) := by
        intro heq
        have hle := (h.past _ heq).2 r hmem
        have hge := h.dates r hmem
        exact hne (le_antisymm hge hle)
      have haccount : s.account.trafficDate ≠ some (dateOf s.clock) := by
        rw [hdate]
        exact fun heq => hne (Option.some.inj heq)
      rw [Account.bytesOn, Account.bytesOn, if_neg haccount, if_neg hbefore]

/-- On a day with a row that row is the last one. -/
theorem Sampling.Kept.bytesOn_old (h : s.Kept before)
    (hold : dateOf s.clock ∈ s.rows.map Prod.fst) :
    s.rows.lookup (dateOf s.clock) = some (s.account.bytesOn (dateOf s.clock)) := by
  cases hrows : s.rows with
  | nil =>
      rw [hrows] at hold
      cases hold
  | cons r rest =>
      obtain ⟨date, bytes⟩ := r
      obtain ⟨hdate, hbytes, hmax⟩ := h.last _ rest hrows
      obtain ⟨r', hr', heq⟩ := List.mem_map.mp hold
      have hmem : (date, bytes) ∈ s.rows := hrows ▸ List.mem_cons_self
      have hsame : date = dateOf s.clock := le_antisymm (h.dates _ hmem) (heq ▸ hmax r' hr')
      rw [Account.bytesOn, if_pos (by rw [hdate, hsame]), hbytes, ← hsame, List.lookup_cons_self]

/-- A commit adds to the booked bytes what the tick has booked. -/
theorem Sampling.Kept.booked_commit (h : s.Kept before) (bytes : ℕ) :
    bookedBytes before ((dateOf s.clock, s.account.bytesOn (dateOf s.clock) + bytes) :: s.rows) =
      bookedBytes before s.rows + bytes := by
  have hothers : ∀ date ≠ dateOf s.clock,
      dayBooked before ((dateOf s.clock, s.account.bytesOn (dateOf s.clock) + bytes) :: s.rows)
        date = dayBooked before s.rows date := by
    intro date hne
    have hbeq : (date == dateOf s.clock) = false := beq_false_of_ne hne
    simp [dayBooked, List.lookup_cons, hbeq]
  have htoday : dayBooked before
      ((dateOf s.clock, s.account.bytesOn (dateOf s.clock) + bytes) :: s.rows) (dateOf s.clock) =
        s.account.bytesOn (dateOf s.clock) + bytes - before.bytesOn (dateOf s.clock) := by
    simp [dayBooked]
  unfold bookedBytes
  rw [List.map_cons, List.toFinset_cons]
  by_cases hmem : dateOf s.clock ∈ s.rows.map Prod.fst
  · have hlookup := h.bytesOn_old hmem
    have hle := h.opening _ _ hlookup
    have hbefore : dayBooked before s.rows (dateOf s.clock) =
        s.account.bytesOn (dateOf s.clock) - before.bytesOn (dateOf s.clock) := by
      rw [dayBooked, hlookup, Option.getD_some]
    have hrest : ∑ date ∈ (s.rows.map Prod.fst).toFinset.erase (dateOf s.clock),
        dayBooked before ((dateOf s.clock, s.account.bytesOn (dateOf s.clock) + bytes) :: s.rows)
          date = ∑ date ∈ (s.rows.map Prod.fst).toFinset.erase (dateOf s.clock),
        dayBooked before s.rows date :=
      Finset.sum_congr rfl fun date hdate => hothers date (Finset.ne_of_mem_erase hdate)
    rw [Finset.insert_eq_of_mem (List.mem_toFinset.mpr hmem),
      ← Finset.add_sum_erase _ _ (List.mem_toFinset.mpr hmem), htoday, hrest]
    have hsum := Finset.add_sum_erase _ (fun date => dayBooked before s.rows date)
      (List.mem_toFinset.mpr hmem)
    rw [hbefore] at hsum
    omega
  · have hrest : ∑ date ∈ (s.rows.map Prod.fst).toFinset,
        dayBooked before ((dateOf s.clock, s.account.bytesOn (dateOf s.clock) + bytes) :: s.rows)
          date = ∑ date ∈ (s.rows.map Prod.fst).toFinset, dayBooked before s.rows date :=
      Finset.sum_congr rfl fun date hdate => hothers date fun heq =>
        hmem (heq ▸ List.mem_toFinset.mp hdate)
    rw [Finset.sum_insert (fun hin => hmem (List.mem_toFinset.mp hin)), htoday, hrest,
      h.bytesOn_new hmem]
    omega

/-! ## What a tick does -/

namespace Sampling

@[simp] theorem enforce_rows : s.enforce.rows = s.rows := by
  unfold enforce
  split <;> rfl

@[simp] theorem enforce_account : s.enforce.account = s.account := by
  unfold enforce
  split <;> rfl

@[simp] theorem enforce_clock : s.enforce.clock = s.clock := by
  unfold enforce
  split <;> rfl

@[simp] theorem enforce_lastRunBytes : s.enforce.lastRunBytes = s.lastRunBytes := by
  unfold enforce
  split <;> rfl

@[simp] theorem enforce_seen : s.enforce.seen = s.seen := by
  unfold enforce
  split <;> rfl

/-- The tick has come past its commit. -/
def committed (error : Option TickError) : Bool :=
  match error with
  | some .beforeWatermark | some .beforeCommit => false
  | _ => true

variable {bytes : ℕ} {error : Option TickError}

theorem samplerTick_rows : (s.samplerTick bytes error).rows =
    if committed error = true then
      (dateOf s.clock, s.account.bytesOn (dateOf s.clock) + (bytes - s.lastRunBytes)) :: s.rows
    else s.rows := by
  unfold samplerTick
  cases error with
  | none => exact enforce_rows
  | some error => cases error <;> first | rfl | exact enforce_rows

theorem samplerTick_account : (s.samplerTick bytes error).account =
    if committed error = true then bookTraffic (bytes - s.lastRunBytes) s.clock s.account
    else s.account := by
  unfold samplerTick
  cases error with
  | none => exact enforce_account
  | some error => cases error <;> first | rfl | exact enforce_account

theorem samplerTick_clock : (s.samplerTick bytes error).clock = s.clock := by
  unfold samplerTick
  cases error with
  | none => exact enforce_clock
  | some error => cases error <;> first | rfl | exact enforce_clock

theorem samplerTick_lastRunBytes : (s.samplerTick bytes error).lastRunBytes =
    if error = some .beforeWatermark then s.lastRunBytes else bytes := by
  unfold samplerTick
  cases error with
  | none => exact enforce_lastRunBytes
  | some error => cases error <;> first | rfl | exact enforce_lastRunBytes

theorem samplerTick_seen : (s.samplerTick bytes error).seen =
    if error = none then max s.seen bytes else s.seen := by
  unfold samplerTick
  cases error with
  | none => rfl
  | some error => cases error <;> first | rfl | exact enforce_seen

theorem Kept.pass (h : s.Kept before) (elapsed : ℕ) :
    Kept before { s with clock := s.clock + elapsed } := by
  have hle : dateOf s.clock ≤ dateOf (s.clock + elapsed) :=
    dateOf_mono (le_add_of_nonneg_right (Int.natCast_nonneg elapsed))
  exact ⟨fun r hr => (h.dates r hr).trans hle, h.unbooked, h.last, h.opening,
    fun date hdate => ⟨((h.past date hdate).1).trans hle, (h.past date hdate).2⟩⟩

theorem Kept.opening_le (h : s.Kept before) :
    before.bytesOn (dateOf s.clock) ≤ s.account.bytesOn (dateOf s.clock) := by
  by_cases hmem : dateOf s.clock ∈ s.rows.map Prod.fst
  · exact h.opening _ _ (h.bytesOn_old hmem)
  · exact (h.bytesOn_new hmem).ge

theorem Kept.tick (h : s.Kept before) : (s.samplerTick bytes error).Kept before := by
  cases hcommitted : committed error with
  | false =>
      have hrows : (s.samplerTick bytes error).rows = s.rows := by
        rw [samplerTick_rows, hcommitted]
        rfl
      have haccount : (s.samplerTick bytes error).account = s.account := by
        rw [samplerTick_account, hcommitted]
        rfl
      constructor <;> simp only [hrows, haccount, samplerTick_clock]
      · exact h.dates
      · exact h.unbooked
      · exact h.last
      · exact h.opening
      · exact h.past
  | true =>
      have hrows : (s.samplerTick bytes error).rows =
          (dateOf s.clock, s.account.bytesOn (dateOf s.clock) + (bytes - s.lastRunBytes)) ::
            s.rows := by
        rw [samplerTick_rows, hcommitted]
        rfl
      have haccount : (s.samplerTick bytes error).account =
          bookTraffic (bytes - s.lastRunBytes) s.clock s.account := by
        rw [samplerTick_account, hcommitted]
        rfl
      constructor <;> simp only [hrows, haccount, samplerTick_clock]
      · intro r hr
        rcases List.mem_cons.mp hr with rfl | hr
        · exact le_refl _
        · exact h.dates r hr
      · exact fun hnil => absurd hnil (List.cons_ne_nil _ _)
      · intro r rest hcons
        obtain ⟨rfl, rfl⟩ := List.cons.inj hcons
        refine ⟨rfl, rfl, fun r hr => ?_⟩
        rcases List.mem_cons.mp hr with rfl | hr
        · exact le_refl _
        · exact h.dates r hr
      · intro date bytes' hlookup
        rw [List.lookup_cons] at hlookup
        split at hlookup
        · rename_i hdate
          obtain rfl := Option.some.inj hlookup
          obtain rfl := beq_iff_eq.mp hdate
          exact h.opening_le.trans (Nat.le_add_right _ _)
        · exact h.opening date bytes' hlookup
      · intro date hdate
        obtain ⟨hnow, hrest⟩ := h.past date hdate
        refine ⟨hnow, fun r hr => ?_⟩
        rcases List.mem_cons.mp hr with rfl | hr
        · exact hnow
        · exact hrest r hr

theorem Kept.booked_tick (h : s.Kept before) : bookedBytes before (s.samplerTick bytes error).rows =
    bookedBytes before s.rows + if committed error = true then bytes - s.lastRunBytes else 0 := by
  rw [samplerTick_rows]
  split
  · exact h.booked_commit _
  · rfl

end Sampling

/-! ## The whole run -/

theorem LedgerStart.run_append (start : LedgerStart) (since : Time) (ticks : List SampledTick)
    (t : SampledTick) : start.run since (ticks ++ [t]) =
      Sampling.samplerTick
        { start.run since ticks with clock := (start.run since ticks).clock + t.elapsed }
        (runBytes t.walk since) t.error := by
  simp only [run, runTicks, List.foldl_append, List.foldl_cons, List.foldl_nil]

theorem LedgerStart.run_kept (start : LedgerStart) (since : Time) (ticks : List SampledTick) :
    (start.run since ticks).Kept start.account := by
  induction ticks using List.reverseRecOn with
  | nil =>
      exact ⟨(fun _ h => by cases h), (fun _ _ => rfl), (fun _ _ h => by cases h),
        (fun _ _ h => by cases h), fun date hdate => ⟨start.past date hdate, fun _ h => by cases h⟩⟩
  | append_singleton ticks t ih =>
      rw [start.run_append]
      exact (ih.pass t.elapsed).tick

/-- The bytes booked for the run so far. -/
def LedgerStart.booked (start : LedgerStart) (since : Time) (ticks : List SampledTick) : ℕ :=
  bookedBytes start.account (start.run since ticks).rows

theorem LedgerStart.booked_append (start : LedgerStart) (since : Time) (ticks : List SampledTick)
    (t : SampledTick) : start.booked since (ticks ++ [t]) = start.booked since ticks +
      if Sampling.committed t.error = true then
        runBytes t.walk since - (start.run since ticks).lastRunBytes
      else 0 := by
  unfold booked
  rw [start.run_append]
  exact ((start.run_kept since ticks).pass t.elapsed).booked_tick

/-- At the end of every successful tick the bytes booked for the run are at least what any
successful tick has seen, exactly when each successful tick finds that the watermark left to it, or
what it sees itself, was booked before. -/
theorem ledger_covers_iff (start : LedgerStart) (since : Time) (ticks : List SampledTick) :
    (∀ done t, done ++ [t] <+: ticks → t.error = none →
      (start.run since (done ++ [t])).seen ≤ start.booked since (done ++ [t])) ↔
    ∀ done t, done ++ [t] <+: ticks → t.error = none →
      min (runBytes t.walk since) (start.run since done).lastRunBytes ≤ start.booked since done := by
  have hstep : ∀ done t, t.error = none →
      (start.run since (done ++ [t])).seen =
          max (start.run since done).seen (runBytes t.walk since) ∧
        start.booked since (done ++ [t]) = start.booked since done +
          (runBytes t.walk since - (start.run since done).lastRunBytes) := by
    intro done t herror
    rw [start.booked_append, start.run_append, Sampling.samplerTick_seen, herror]
    exact ⟨rfl, rfl⟩
  constructor
  · intro h done t hpre herror
    have hle := h done t hpre herror
    obtain ⟨hseen, hbooked⟩ := hstep done t herror
    omega
  · intro h done t hpre herror
    -- what was seen is covered before every tick, by induction on the ticks so far
    have hcovered : ∀ done, done <+: ticks → (start.run since done).seen ≤ start.booked since done := by
      intro done
      induction done using List.reverseRecOn with
      | nil => exact fun _ => Nat.zero_le _
      | append_singleton done t ih =>
          intro hpre
          have hrest := ih ((List.prefix_append done [t]).trans hpre)
          cases herror : t.error with
          | none =>
              have hbelow := h done t hpre herror
              obtain ⟨hseen, hbooked⟩ := hstep done t herror
              omega
          | some error =>
              rw [start.booked_append, start.run_append, Sampling.samplerTick_seen, herror,
                if_neg (by simp)]
              exact hrest.trans (Nat.le_add_right _ _)
    exact hcovered _ hpre

/-- A message of a hundred bytes that was stored by the run. -/
def hundredBytes : List WalkedDir := [⟨["INBOX", "cur"], [("1.eml", some (100, 10))]⟩]

def untouchedLedger : LedgerStart where
  account := { maildirPath := "/m/a1", storeId := "s1" }
  clock := 0
  past := fun _ h => by cases h

/-- The first tick moves the watermark, and its commit fails. -/
def lostTick : List SampledTick :=
  [⟨1, hundredBytes, some .beforeCommit⟩, ⟨1, hundredBytes, none⟩]

theorem not_ledger_covers : ¬ ∀ (start : LedgerStart) (since : Time) (ticks : List SampledTick),
    ∀ done t, done ++ [t] <+: ticks → t.error = none →
      (start.run since (done ++ [t])).seen ≤ start.booked since (done ++ [t]) := by
  intro h
  have hle := h untouchedLedger 0 lostTick [⟨1, hundredBytes, some .beforeCommit⟩]
    ⟨1, hundredBytes, none⟩ (List.prefix_refl _) rfl
  revert hle
  decide +kernel

end MailFallback
