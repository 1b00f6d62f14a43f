import Mathlib.Data.Nat.Basic

/-! # Bytes in base 64

Four characters for three bytes. The reader is the lenient one: it skips what is not in the
alphabet and stops at the padding that completes a group. -/

namespace Base64

/-- The character of a value below 64. -/
def char (n : ℕ) : Char :=
  if n < 26 then Char.ofNat (65 + n)
  else if n < 52 then Char.ofNat (71 + n)
  else if n < 62 then Char.ofNat (n - 4)
  else if n = 62 then '+'
  else '/'

def value? (c : Char) : Option ℕ :=
  if 'A' ≤ c ∧ c ≤ 'Z' then some (c.toNat - 65)
  else if 'a' ≤ c ∧ c ≤ 'z' then some (c.toNat - 71)
  else if '0' ≤ c ∧ c ≤ '9' then some (c.toNat + 4)
  else if c = '+' then some 62
  else if c = '/' then some 63
  else none

def encodeChars : List UInt8 → List Char
  | [] => []
  | [a] => [char (a.toNat / 4), char (a.toNat % 4 * 16), '=', '=']
  | [a, b] =>
      [char (a.toNat / 4), char (a.toNat % 4 * 16 + b.toNat / 16), char (b.toNat % 16 * 4), '=']
  | a :: b :: c :: bytes =>
      char (a.toNat / 4) :: char (a.toNat % 4 * 16 + b.toNat / 16) ::
        char (b.toNat % 16 * 4 + c.toNat / 64) :: char (c.toNat % 64) :: encodeChars bytes

/-- Reads on, `pos` characters into a group: `left` holds the bits that are not yet part of a
byte, `pads` counts the padding since the last character. -/
def decodeFrom : List Char → (pos left pads : ℕ) → Option (List UInt8)
  | [], pos, _, _ => if pos = 0 then some [] else none
  | c :: cs, pos, left, pads =>
      if c = '=' then
        if 2 ≤ pos then
          if 4 ≤ pos + (pads + 1) then some [] else decodeFrom cs pos left (pads + 1)
        else decodeFrom cs pos left pads
      else
        match value? c with
        | none => decodeFrom cs pos left pads
        | some v =>
            match pos with
            | 0 => decodeFrom cs 1 v 0
            | 1 => (decodeFrom cs 2 (v % 16) 0).map (UInt8.ofNat (left * 4 + v / 16) :: ·)
            | 2 => (decodeFrom cs 3 (v % 4) 0).map (UInt8.ofNat (left * 16 + v / 4) :: ·)
            | _ => (decodeFrom cs 0 0 0).map (UInt8.ofNat (left * 64 + v) :: ·)

def encode (bytes : List UInt8) : String := String.ofList (encodeChars bytes)

def decode (s : String) : Option (List UInt8) := decodeFrom s.toList 0 0 0

theorem value?_char : ∀ n < 64, value? (char n) = some n ∧ char n ≠ '=' := by
  decide

section Steps

variable {n : ℕ} (h : n < 64) (cs : List Char) (left pads : ℕ)
include h

theorem decodeFrom_zero : decodeFrom (char n :: cs) 0 left pads = decodeFrom cs 1 n 0 := by
  obtain ⟨hvalue, hpad⟩ := value?_char n h
  rw [decodeFrom, if_neg hpad, hvalue]
  rfl

theorem decodeFrom_one : decodeFrom (char n :: cs) 1 left pads =
    (decodeFrom cs 2 (n % 16) 0).map (UInt8.ofNat (left * 4 + n / 16) :: ·) := by
  obtain ⟨hvalue, hpad⟩ := value?_char n h
  rw [decodeFrom, if_neg hpad, hvalue]
  rfl

theorem decodeFrom_two : decodeFrom (char n :: cs) 2 left pads =
    (decodeFrom cs 3 (n % 4) 0).map (UInt8.ofNat (left * 16 + n / 4) :: ·) := by
  obtain ⟨hvalue, hpad⟩ := value?_char n h
  rw [decodeFrom, if_neg hpad, hvalue]
  rfl

theorem decodeFrom_three : decodeFrom (char n :: cs) 3 left pads =
    (decodeFrom cs 0 0 0).map (UInt8.ofNat (left * 64 + n) :: ·) := by
  obtain ⟨hvalue, hpad⟩ := value?_char n h
  rw [decodeFrom, if_neg hpad, hvalue]
  rfl

end Steps

theorem byte_eq {a : UInt8} {n : ℕ} (h : n = a.toNat) : UInt8.ofNat n = a := by
  rw [h, UInt8.ofNat_toNat]

theorem decodeFrom_encodeChars (bytes : List UInt8) :
    decodeFrom (encodeChars bytes) 0 0 0 = some bytes := by
  induction bytes using encodeChars.induct with
  | case1 => rfl
  | case2 a =>
      have ha := a.toNat_lt
      rw [encodeChars, decodeFrom_zero (by omega), decodeFrom_one (by omega)]
      simp only [decodeFrom, if_true, Nat.le_refl, Nat.reduceAdd, Nat.reduceLeDiff, if_false,
        Option.map_some]
      rw [byte_eq (a := a) (by omega)]
  | case3 a b =>
      have ha := a.toNat_lt
      have hb := b.toNat_lt
      rw [encodeChars, decodeFrom_zero (by omega), decodeFrom_one (by omega),
        decodeFrom_two (by omega)]
      simp only [decodeFrom, if_true, Nat.le_refl, Nat.reduceAdd, Nat.reduceLeDiff,
        Option.map_some]
      rw [byte_eq (a := a) (by omega), byte_eq (a := b) (by omega)]
  | case4 a b c bytes ih =>
      have ha := a.toNat_lt
      have hb := b.toNat_lt
      have hc := c.toNat_lt
      rw [encodeChars, decodeFrom_zero (by omega), decodeFrom_one (by omega),
        decodeFrom_two (by omega), decodeFrom_three (by omega), ih]
      simp only [Option.map_some]
      rw [byte_eq (a := a) (by omega), byte_eq (a := b) (by omega), byte_eq (a := c) (by omega)]

/-- `decode` reads the bytes that `encode` writes. -/
theorem decode_encode (bytes : List UInt8) : decode (encode bytes) = some bytes := by
  rw [decode, encode, String.toList_ofList, decodeFrom_encodeChars]

/-! ## Without the padding -/

/-- The characters of `encodeChars` before the padding. -/
def unpadded : List UInt8 → List Char
  | [] => []
  | [a] => [char (a.toNat / 4), char (a.toNat % 4 * 16)]
  | [a, b] => [char (a.toNat / 4), char (a.toNat % 4 * 16 + b.toNat / 16), char (b.toNat % 16 * 4)]
  | a :: b :: c :: bytes =>
      char (a.toNat / 4) :: char (a.toNat % 4 * 16 + b.toNat / 16) ::
        char (b.toNat % 16 * 4 + c.toNat / 64) :: char (c.toNat % 64) :: unpadded bytes

theorem encodeChars_eq (bytes : List UInt8) :
    ∃ n, encodeChars bytes = unpadded bytes ++ List.replicate n '=' := by
  induction bytes using unpadded.induct with
  | case1 => exact ⟨0, rfl⟩
  | case2 a => exact ⟨2, rfl⟩
  | case3 a b => exact ⟨1, rfl⟩
  | case4 a b c bytes ih =>
      obtain ⟨n, hn⟩ := ih
      exact ⟨n, by simp [encodeChars, unpadded, hn]⟩

theorem exists_char_of_mem_unpadded (bytes : List UInt8) :
    ∀ c ∈ unpadded bytes, ∃ n < 64, char n = c := by
  induction bytes using unpadded.induct with
  | case1 => simp [unpadded]
  | case2 a =>
      have ha := a.toNat_lt
      simp only [unpadded, List.forall_mem_cons]
      exact ⟨⟨_, by omega, rfl⟩, ⟨_, by omega, rfl⟩, by simp⟩
  | case3 a b =>
      have ha := a.toNat_lt
      have hb := b.toNat_lt
      simp only [unpadded, List.forall_mem_cons]
      exact ⟨⟨_, by omega, rfl⟩, ⟨_, by omega, rfl⟩, ⟨_, by omega, rfl⟩, by simp⟩
  | case4 a b c bytes ih =>
      have ha := a.toNat_lt
      have hb := b.toNat_lt
      have hc := c.toNat_lt
      simp only [unpadded, List.forall_mem_cons]
      exact ⟨⟨_, by omega, rfl⟩, ⟨_, by omega, rfl⟩, ⟨_, by omega, rfl⟩, ⟨_, by omega, rfl⟩, ih⟩

theorem pad_not_mem_unpadded (bytes : List UInt8) : '=' ∉ unpadded bytes := by
  intro h
  obtain ⟨n, hn, heq⟩ := exists_char_of_mem_unpadded bytes '=' h
  exact (value?_char n hn).2 heq

example : encode [77, 97, 110, 121] = "TWFueQ==" := by decide

end Base64
