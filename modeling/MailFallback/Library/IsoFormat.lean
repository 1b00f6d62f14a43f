import Mathlib.Data.Nat.Basic
import Mathlib.Tactic.Ring

/-! # Dates and times in ISO format

Dates, and times with an optional offset from UTC, as text. The readers know the formats that
the writers use. -/

namespace IsoFormat

def daysInMonth (year month : ℕ) : ℕ :=
  if month = 2 then
    if year % 4 = 0 ∧ (year % 100 ≠ 0 ∨ year % 400 = 0) then 29 else 28
  else if month = 4 ∨ month = 6 ∨ month = 9 ∨ month = 11 then 30
  else 31

abbrev ValidDate (year month day : ℕ) : Prop :=
  (1 ≤ year ∧ year ≤ 9999) ∧ (1 ≤ month ∧ month ≤ 12) ∧ 1 ≤ day ∧ day ≤ daysInMonth year month

structure Date where
  year : ℕ
  month : ℕ
  day : ℕ
  valid : ValidDate year month day
  deriving DecidableEq, Repr

/-- An offset from UTC in seconds, of less than a day. -/
structure Offset where
  seconds : ℤ
  bound : -86400 < seconds ∧ seconds < 86400
  deriving DecidableEq, Repr

structure DateTime where
  date : Date
  hour : Fin 24
  minute : Fin 60
  second : Fin 60
  microsecond : Fin 1000000
  offset : Option Offset
  deriving DecidableEq, Repr

/-! ## Digits -/

def digit (n : ℕ) : Char := Char.ofNat (48 + n)

/-- The number with `k` digits, zeros in front. -/
def digits : ℕ → ℕ → List Char
  | 0, _ => []
  | k + 1, n => digit (n / 10 ^ k) :: digits k (n % 10 ^ k)

def readDigit (c : Char) : Option ℕ :=
  if c.isDigit then some (c.toNat - 48) else none

/-- Reads `k` digits on top of what was read before them. -/
def readDigits : ℕ → ℕ → List Char → Option (ℕ × List Char)
  | 0, acc, cs => some (acc, cs)
  | _ + 1, _, [] => none
  | k + 1, acc, c :: cs => (readDigit c).bind fun d => readDigits k (acc * 10 + d) cs

theorem readDigit_digit {n : ℕ} (h : n < 10) : readDigit (digit n) = some n := by
  revert n
  decide

theorem readDigits_digits {k : ℕ} : ∀ {n : ℕ} (acc : ℕ) (cs : List Char), n < 10 ^ k →
    readDigits k acc (digits k n ++ cs) = some (acc * 10 ^ k + n, cs) := by
  induction k with
  | zero =>
      intro n acc cs h
      obtain rfl : n = 0 := by simpa using h
      simp [readDigits, digits]
  | succ k ih =>
      intro n acc cs h
      have hpos : 0 < 10 ^ k := Nat.pow_pos (by decide)
      have hdigit : n / 10 ^ k < 10 := Nat.div_lt_of_lt_mul (by rw [← Nat.pow_succ]; exact h)
      have hrest := ih (acc * 10 + n / 10 ^ k) cs (Nat.mod_lt n hpos)
      have hsplit : 10 ^ k * (n / 10 ^ k) + n % 10 ^ k = n := Nat.div_add_mod n (10 ^ k)
      rw [digits, List.cons_append, readDigits, readDigit_digit hdigit, Option.bind_some, hrest]
      congr 2
      calc (acc * 10 + n / 10 ^ k) * 10 ^ k + n % 10 ^ k
          = acc * 10 ^ (k + 1) + (10 ^ k * (n / 10 ^ k) + n % 10 ^ k) := by ring
        _ = acc * 10 ^ (k + 1) + n := by rw [hsplit]

/-- The number that `k` digits stand for. -/
def readNumber (k : ℕ) (cs : List Char) : Option (ℕ × List Char) :=
  readDigits k 0 cs

theorem readNumber_digits {k n : ℕ} (cs : List Char) (h : n < 10 ^ k) :
    readNumber k (digits k n ++ cs) = some (n, cs) := by
  rw [readNumber, readDigits_digits 0 cs h, Nat.zero_mul, Nat.zero_add]

def readChar (c : Char) : List Char → Option (List Char)
  | [] => none
  | c' :: cs => if c' = c then some cs else none

@[simp] theorem readChar_cons (c : Char) (cs : List Char) : readChar c (c :: cs) = some cs := by
  simp [readChar]

/-! ## Dates -/

def Date.chars (date : Date) : List Char :=
  digits 4 date.year ++ '-' :: (digits 2 date.month ++ '-' :: digits 2 date.day)

def readDate (cs : List Char) : Option (Date × List Char) := do
  let (year, cs) ← readNumber 4 cs
  let cs ← readChar '-' cs
  let (month, cs) ← readNumber 2 cs
  let cs ← readChar '-' cs
  let (day, cs) ← readNumber 2 cs
  if h : ValidDate year month day then some (⟨year, month, day, h⟩, cs) else none

def Date.isoformat (date : Date) : String := String.ofList date.chars

def Date.fromisoformat (s : String) : Option Date :=
  match readDate s.toList with
  | some (date, []) => some date
  | _ => none

theorem daysInMonth_le (year month : ℕ) : daysInMonth year month ≤ 31 := by
  unfold daysInMonth
  split
  · split <;> decide
  · split <;> decide

theorem readDate_chars (date : Date) (cs : List Char) :
    readDate (date.chars ++ cs) = some (date, cs) := by
  obtain ⟨year, month, day, hvalid⟩ := date
  have hyear : year < 10 ^ 4 := by omega
  have hmonth : month < 10 ^ 2 := by omega
  have hday : day < 10 ^ 2 := by
    have hmax := daysInMonth_le year month
    omega
  simp only [readDate, Date.chars, List.append_assoc, List.cons_append, readNumber_digits _ hyear,
    readNumber_digits _ hmonth, readNumber_digits _ hday, readChar_cons, Option.bind_eq_bind,
    Option.bind_some, dif_pos hvalid]

/-- `fromisoformat` reads the date that `isoformat` writes. -/
theorem Date.fromisoformat_isoformat (date : Date) :
    Date.fromisoformat date.isoformat = some date := by
  have hread := readDate_chars date []
  rw [List.append_nil] at hread
  rw [fromisoformat, isoformat, String.toList_ofList, hread]

/-! ## Offsets and times -/

/-- Hours, minutes and, where there are any, seconds. -/
def Offset.chars (offset : Offset) : List Char :=
  let n := offset.seconds.natAbs
  (if offset.seconds < 0 then '-' else '+') ::
    (digits 2 (n / 3600) ++ ':' :: (digits 2 (n / 60 % 60) ++
      if n % 60 = 0 then [] else ':' :: digits 2 (n % 60)))

def DateTime.chars (t : DateTime) : List Char :=
  t.date.chars ++ 'T' :: (digits 2 t.hour ++ ':' :: (digits 2 t.minute ++ ':' :: (digits 2 t.second ++
    ((if t.microsecond.val = 0 then [] else '.' :: digits 6 t.microsecond) ++
      t.offset.elim [] Offset.chars))))

/-- Seconds after a colon, if there is one. -/
def readSeconds : List Char → Option (ℕ × List Char)
  | ':' :: cs => readNumber 2 cs
  | cs => some (0, cs)

def readFraction : List Char → Option (ℕ × List Char)
  | '.' :: cs => readNumber 6 cs
  | cs => some (0, cs)

def readSign : List Char → Option (ℤ × List Char)
  | '+' :: cs => some (1, cs)
  | '-' :: cs => some (-1, cs)
  | _ => none

def readOffset : List Char → Option (Option Offset)
  | [] => some none
  | c :: cs => do
      let (sign, cs) ← readSign (c :: cs)
      let (hours, cs) ← readNumber 2 cs
      let cs ← readChar ':' cs
      let (minutes, cs) ← readNumber 2 cs
      let (seconds, cs) ← readSeconds cs
      let total := sign * (hours * 3600 + minutes * 60 + seconds : ℕ)
      if h : minutes < 60 ∧ seconds < 60 ∧ cs = [] ∧ -86400 < total ∧ total < 86400 then
        some (some ⟨total, h.2.2.2⟩)
      else none

def readDateTime (cs : List Char) : Option DateTime := do
  let (date, cs) ← readDate cs
  let cs ← readChar 'T' cs
  let (hour, cs) ← readNumber 2 cs
  let cs ← readChar ':' cs
  let (minute, cs) ← readNumber 2 cs
  let cs ← readChar ':' cs
  let (second, cs) ← readNumber 2 cs
  let (microsecond, cs) ← readFraction cs
  let offset ← readOffset cs
  if h : hour < 24 ∧ minute < 60 ∧ second < 60 ∧ microsecond < 1000000 then
    some ⟨date, ⟨hour, h.1⟩, ⟨minute, h.2.1⟩, ⟨second, h.2.2.1⟩, ⟨microsecond, h.2.2.2⟩, offset⟩
  else none

def DateTime.isoformat (t : DateTime) : String := String.ofList t.chars

def DateTime.fromisoformat (s : String) : Option DateTime := readDateTime s.toList

theorem readSign_chars (offset : Offset) (cs : List Char) :
    readSign ((if offset.seconds < 0 then '-' else '+') :: cs) =
      some (if offset.seconds < 0 then -1 else 1, cs) := by
  split <;> rfl

theorem readSeconds_chars {n : ℕ} (h : n < 60) :
    readSeconds (if n = 0 then [] else ':' :: digits 2 n) = some (n, []) := by
  split
  · subst n
    rfl
  · have hread := readNumber_digits (k := 2) (n := n) [] (by omega)
    rw [List.append_nil] at hread
    exact hread

theorem readOffset_chars (offset : Option Offset) :
    readOffset (offset.elim [] Offset.chars) = some offset := by
  cases offset with
  | none => rfl
  | some offset =>
      have hbound := offset.bound
      have hhours : offset.seconds.natAbs / 3600 < 10 ^ 2 := by omega
      have hminutes : offset.seconds.natAbs / 60 % 60 < 10 ^ 2 := by omega
      have htotal : (if offset.seconds < 0 then -1 else 1) *
          ((offset.seconds.natAbs / 3600 * 3600 + offset.seconds.natAbs / 60 % 60 * 60 +
            offset.seconds.natAbs % 60 : ℕ) : ℤ) = offset.seconds := by
        have hsum : offset.seconds.natAbs / 3600 * 3600 + offset.seconds.natAbs / 60 % 60 * 60 +
            offset.seconds.natAbs % 60 = offset.seconds.natAbs := by omega
        rw [hsum]
        split <;> omega
      simp only [Option.elim_some, Offset.chars, readOffset, readSign_chars, readNumber_digits _ hhours,
        readNumber_digits _ hminutes, readSeconds_chars (Nat.mod_lt _ (by decide : 0 < 60)),
        readChar_cons, Option.bind_eq_bind, Option.bind_some, htotal]
      rw [dif_pos ⟨Nat.mod_lt _ (by decide), Nat.mod_lt _ (by decide), trivial, hbound⟩]

theorem readFraction_chars {n : ℕ} (h : n < 1000000) (offset : Option Offset) :
    readFraction ((if n = 0 then [] else '.' :: digits 6 n) ++ offset.elim [] Offset.chars) =
      some (n, offset.elim [] Offset.chars) := by
  split
  · subst n
    cases offset with
    | none => rfl
    | some offset =>
        rw [List.nil_append, Option.elim_some, Offset.chars]
        split <;> rfl
  · exact readNumber_digits _ (by simpa using h)

/-- `fromisoformat` reads the time that `isoformat` writes. -/
theorem DateTime.fromisoformat_isoformat (t : DateTime) :
    DateTime.fromisoformat t.isoformat = some t := by
  have hhour : t.hour.val < 10 ^ 2 := by omega
  have hminute : t.minute.val < 10 ^ 2 := by omega
  have hsecond : t.second.val < 10 ^ 2 := by omega
  rw [fromisoformat, isoformat, String.toList_ofList]
  simp only [readDateTime, DateTime.chars, readDate_chars, readChar_cons, readNumber_digits _ hhour,
    readNumber_digits _ hminute, readNumber_digits _ hsecond,
    readFraction_chars t.microsecond.isLt, readOffset_chars, Option.bind_eq_bind, Option.bind_some]
  rw [dif_pos ⟨t.hour.isLt, t.minute.isLt, t.second.isLt, t.microsecond.isLt⟩]

example : (DateTime.isoformat ⟨⟨2026, 2, 28, by decide⟩, 7, 5, 9, 120, some ⟨-19800, by decide⟩⟩) =
    "2026-02-28T07:05:09.000120-05:30" := by decide

end IsoFormat
