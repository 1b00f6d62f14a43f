import MailFallback.Library.Base64
import Mathlib.Data.List.Basic

/-! # Mailbox names in modified UTF-7

The encoding of section 5.1.3 of RFC 3501. The reader is a strict one: it refuses stray
characters, bits that are left over, printable characters in a shifted run and a shift out of
one run into the next. -/

namespace Utf16

/-- The code units of a character. -/
def units (c : Char) : List ℕ :=
  if c.toNat < 0x10000 then [c.toNat]
  else [0xd800 + (c.toNat - 0x10000) / 0x400, 0xdc00 + (c.toNat - 0x10000) % 0x400]

/-- What code units stand for, unless a surrogate is alone. -/
def scalars? : List ℕ → Option (List Char)
  | [] => some []
  | [u] => if u < 0xd800 ∨ 0xe000 ≤ u then some [Char.ofNat u] else none
  | u :: v :: us =>
      if u < 0xd800 ∨ 0xe000 ≤ u then (scalars? (v :: us)).map (Char.ofNat u :: ·)
      else if u < 0xdc00 ∧ 0xdc00 ≤ v ∧ v < 0xe000 then
        (scalars? us).map (Char.ofNat (0x10000 + (u - 0xd800) * 0x400 + (v - 0xdc00)) :: ·)
      else none

/-- The high byte of a code unit is the first. -/
def bigEndian (u : ℕ) : List UInt8 := [UInt8.ofNat (u / 256), UInt8.ofNat (u % 256)]

def units? : List UInt8 → Option (List ℕ)
  | [] => some []
  | [_] => none
  | a :: b :: bytes => (units? bytes).map ((a.toNat * 256 + b.toNat) :: ·)

variable {c : Char}

theorem toNat_range (c : Char) : c.toNat < 0xd800 ∨ 0xe000 ≤ c.toNat ∧ c.toNat < 0x110000 := by
  rcases c.valid with h | ⟨h, h'⟩
  · exact .inl h
  · exact .inr ⟨by unfold Char.toNat; omega, h'⟩

theorem lt_of_mem_units {u : ℕ} (h : u ∈ units c) : u < 0x10000 := by
  have hc := toNat_range c
  unfold units at h
  split at h
  · simp at h
    omega
  · simp at h
    omega

theorem scalars?_units (us : List ℕ) :
    scalars? (units c ++ us) = (scalars? us).map (c :: ·) := by
  have hc := toNat_range c
  unfold units
  split
  · have hunit : c.toNat < 0xd800 ∨ 0xe000 ≤ c.toNat := by omega
    cases us with
    | nil => simp [scalars?, hunit, Char.ofNat_toNat]
    | cons v us => simp [scalars?, hunit, Char.ofNat_toNat]
  · have hhigh : ¬ (0xd800 + (c.toNat - 0x10000) / 0x400 < 0xd800 ∨
        0xe000 ≤ 0xd800 + (c.toNat - 0x10000) / 0x400) := by omega
    have hpair : 0xd800 + (c.toNat - 0x10000) / 0x400 < 0xdc00 ∧
        0xdc00 ≤ 0xdc00 + (c.toNat - 0x10000) % 0x400 ∧
        0xdc00 + (c.toNat - 0x10000) % 0x400 < 0xe000 := by omega
    have hvalue : 0x10000 + (0xd800 + (c.toNat - 0x10000) / 0x400 - 0xd800) * 0x400 +
        (0xdc00 + (c.toNat - 0x10000) % 0x400 - 0xdc00) = c.toNat := by omega
    rw [List.cons_append, List.cons_append, List.nil_append, scalars?, if_neg hhigh,
      if_pos hpair, hvalue, Char.ofNat_toNat]

theorem scalars?_flatMap_units (cs : List Char) : scalars? (cs.flatMap units) = some cs := by
  induction cs with
  | nil => rfl
  | cons c cs ih => simp [scalars?_units, ih]

theorem units?_bigEndian {u : ℕ} (h : u < 0x10000) (bytes : List UInt8) :
    units? (bigEndian u ++ bytes) = (units? bytes).map (u :: ·) := by
  have hhigh : (UInt8.ofNat (u / 256)).toNat = u / 256 := by simp; omega
  have hlow : (UInt8.ofNat (u % 256)).toNat = u % 256 := by simp
  have hvalue : u / 256 * 256 + u % 256 = u := by omega
  simp [bigEndian, units?, hhigh, hlow, hvalue]

theorem units?_flatMap_bigEndian {us : List ℕ} (h : ∀ u ∈ us, u < 0x10000) :
    units? (us.flatMap bigEndian) = some us := by
  induction us with
  | nil => rfl
  | cons u us ih =>
      rw [List.flatMap_cons, units?_bigEndian (h u List.mem_cons_self),
        ih fun v hv => h v (List.mem_cons_of_mem u hv)]
      rfl

theorem length_units? {bytes : List UInt8} {us : List ℕ} (h : units? bytes = some us) :
    us.length ≤ bytes.length := by
  induction bytes using units?.induct generalizing us with
  | case1 => simp_all [units?]
  | case2 => simp_all [units?]
  | case3 a b bytes ih =>
      obtain ⟨vs, hvs, rfl⟩ := Option.map_eq_some_iff.mp h
      have hlen := ih hvs
      simp
      omega

theorem length_scalars? {us : List ℕ} {cs : List Char} (h : scalars? us = some cs) :
    cs.length ≤ us.length := by
  induction us using scalars?.induct generalizing cs with
  | case1 => simp_all [scalars?]
  | case2 u hunit =>
      obtain rfl : [Char.ofNat u] = cs := by simpa [scalars?, hunit] using h
      simp
  | case3 u hunit => simp [scalars?, hunit] at h
  | case4 u v us hunit ih =>
      rw [scalars?, if_pos hunit] at h
      obtain ⟨ds, hds, rfl⟩ := Option.map_eq_some_iff.mp h
      have hlen := ih hds
      simp_all
  | case5 u v us hunit hpair ih =>
      rw [scalars?, if_neg hunit, if_pos hpair] at h
      obtain ⟨ds, hds, rfl⟩ := Option.map_eq_some_iff.mp h
      have hlen := ih hds
      simp
      omega
  | case6 u v us hunit hpair =>
      rw [scalars?, if_neg hunit, if_neg hpair] at h
      cases h

/-- A text comes back from its bytes. -/
theorem decode_encode (cs : List Char) :
    (units? ((cs.flatMap units).flatMap bigEndian)).bind scalars? = some cs := by
  rw [units?_flatMap_bigEndian, Option.bind_some, scalars?_flatMap_units]
  intro u hu
  obtain ⟨c, -, hc⟩ := List.mem_flatMap.mp hu
  exact lt_of_mem_units hc

end Utf16

namespace ModifiedUtf7

/-! ## Modified base64 -/

/-- The comma stands for the slash. -/
def ofSlash (c : Char) : Char := if c = '/' then ',' else c

def digit? (c : Char) : Option ℕ :=
  if c = '/' then none else if c = ',' then some 63 else Base64.value? c

/-- The bytes of a run without padding; what is left of the last character is zero. -/
def bytes? : List Char → Option (List UInt8)
  | [] => some []
  | [_] => none
  | [a, b] => do
      let m ← digit? a
      let n ← digit? b
      if n % 16 = 0 then some [UInt8.ofNat (m * 4 + n / 16)] else none
  | [a, b, c] => do
      let m ← digit? a
      let n ← digit? b
      let o ← digit? c
      if o % 4 = 0 then some [UInt8.ofNat (m * 4 + n / 16), UInt8.ofNat (n % 16 * 16 + o / 4)]
      else none
  | a :: b :: c :: d :: cs => do
      let m ← digit? a
      let n ← digit? b
      let o ← digit? c
      let q ← digit? d
      let bytes ← bytes? cs
      some (UInt8.ofNat (m * 4 + n / 16) :: UInt8.ofNat (n % 16 * 16 + o / 4) ::
        UInt8.ofNat (o % 4 * 64 + q) :: bytes)

/-- The run that stands for some bytes. -/
def digits (bytes : List UInt8) : List Char := (Base64.unpadded bytes).map ofSlash

theorem digit?_char : ∀ n < 64, digit? (ofSlash (Base64.char n)) = some n := by decide

theorem bytes?_digits (bytes : List UInt8) : bytes? (digits bytes) = some bytes := by
  induction bytes using Base64.unpadded.induct with
  | case1 => rfl
  | case2 a =>
      have ha := a.toNat_lt
      simp only [digits, Base64.unpadded, List.map_cons, List.map_nil, bytes?]
      rw [digit?_char _ (by omega), digit?_char _ (by omega)]
      simp only [Option.bind_eq_bind, Option.bind_some]
      rw [if_pos (by omega), Base64.byte_eq (a := a) (by omega)]
  | case3 a b =>
      have ha := a.toNat_lt
      have hb := b.toNat_lt
      simp only [digits, Base64.unpadded, List.map_cons, List.map_nil, bytes?]
      rw [digit?_char _ (by omega), digit?_char _ (by omega), digit?_char _ (by omega)]
      simp only [Option.bind_eq_bind, Option.bind_some]
      rw [if_pos (by omega), Base64.byte_eq (a := a) (by omega), Base64.byte_eq (a := b) (by omega)]
  | case4 a b c bytes ih =>
      have ha := a.toNat_lt
      have hb := b.toNat_lt
      have hc := c.toNat_lt
      simp only [digits] at ih
      simp only [digits, Base64.unpadded, List.map_cons, bytes?]
      rw [digit?_char _ (by omega), digit?_char _ (by omega), digit?_char _ (by omega),
        digit?_char _ (by omega), ih]
      simp only [Option.bind_eq_bind, Option.bind_some]
      rw [Base64.byte_eq (a := a) (by omega), Base64.byte_eq (a := b) (by omega),
        Base64.byte_eq (a := c) (by omega)]

theorem isSome_digit?_of_mem (bytes : List UInt8) :
    ∀ c ∈ digits bytes, (digit? c).isSome = true := by
  intro c hc
  obtain ⟨d, hd, rfl⟩ := List.mem_map.mp hc
  obtain ⟨n, hn, rfl⟩ := Base64.exists_char_of_mem_unpadded bytes d hd
  rw [digit?_char n hn]
  rfl

/-! ## Names -/

/-- What a name is written with. -/
inductive Token where
  /-- A printable character that stands for itself. -/
  | plain (c : Char)
  /-- `&-` -/
  | ampersand
  /-- `&…-` -/
  | run (b64 : List Char)
  deriving DecidableEq, Repr

/-- Printable characters of ASCII stand for themselves. -/
def printable (c : Char) : Bool := decide (' ' ≤ c ∧ c ≤ '~')

theorem printable_of_digit? {c : Char} (h : (digit? c).isSome = true) : printable c = true := by
  have hle : ∀ d e : Char, d ≤ e ↔ d.toNat ≤ e.toNat := fun d e => Iff.rfl
  simp only [digit?, Base64.value?, hle] at h
  simp only [printable, hle, decide_eq_true_eq]
  repeat' split at h
  all_goals simp_all
  all_goals omega

namespace Token

def text : Token → List Char
  | plain c => [c]
  | ampersand => ['&', '-']
  | run b64 => '&' :: b64 ++ ['-']

/-- What the token stands for; a run is for what cannot stand for itself. -/
def value? : Token → Option (List Char)
  | plain c => some [c]
  | ampersand => some ['&']
  | run b64 =>
      (((bytes? b64).bind Utf16.units?).bind Utf16.scalars?).filter fun cs => !cs.any printable

def isRun : Token → Bool
  | run _ => true
  | _ => false

def WellFormed : Token → Prop
  | plain c => printable c = true ∧ c ≠ '&'
  | ampersand => True
  | run b64 => b64 ≠ [] ∧ ∀ c ∈ b64, (digit? c).isSome = true

end Token

/-- Reads tokens; after `some b64` the reader is in a run. -/
def readFrom : Option (List Char) → List Char → Option (List Token)
  | none, [] => some []
  | some _, [] => none
  | none, c :: cs =>
      if c = '&' then readFrom (some []) cs
      else if printable c = true then (readFrom none cs).map (.plain c :: ·)
      else none
  | some b64, c :: cs =>
      if c = '-' then (readFrom none cs).map ((if b64 = [] then .ampersand else .run b64) :: ·)
      else if (digit? c).isSome = true then readFrom (some (b64 ++ [c])) cs
      else none

def read (cs : List Char) : Option (List Token) := readFrom none cs

/-- What the tokens stand for, unless one run follows another. -/
def meaning : List Token → Option (List Char)
  | [] => some []
  | t :: ts =>
      if t.isRun = true ∧ ts.head?.any Token.isRun = true then none
      else do
        let cs ← t.value?
        let ds ← meaning ts
        some (cs ++ ds)

/-- The name that is written `cs`. -/
def decode (cs : List Char) : Option (List Char) := (read cs).bind meaning

example : decode "~peter/mail/&U,BTFw-/&ZeVnLIqe-".toList =
    some "~peter/mail/\u53f0\u5317/\u65e5\u672c\u8a9e".toList := by decide +kernel

/-! ## Text and tokens -/

variable {ts us : List Token} {cs ds pre rest b64 : List Char} {c : Char}

/-- What a reader has passed of a run. -/
def pending : Option (List Char) → List Char
  | none => []
  | some b64 => '&' :: b64

theorem readFrom_run (acc rest : List Char) (h : ∀ c ∈ b64, (digit? c).isSome = true) :
    readFrom (some acc) (b64 ++ '-' :: rest) =
      (read rest).map ((if acc ++ b64 = [] then .ampersand else .run (acc ++ b64)) :: ·) := by
  induction b64 generalizing acc with
  | nil => simp [readFrom, read]
  | cons c b64 ih =>
      have hc := h c List.mem_cons_self
      have hdash : c ≠ '-' := by
        rintro rfl
        exact absurd hc (by decide)
      have hacc : acc ++ c :: b64 = acc ++ [c] ++ b64 := by simp
      rw [List.cons_append, readFrom, if_neg hdash, if_pos hc,
        ih (acc ++ [c]) fun d hd => h d (List.mem_cons_of_mem c hd), hacc]

theorem read_token {t : Token} (h : t.WellFormed) (rest : List Char) :
    read (t.text ++ rest) = (read rest).map (t :: ·) := by
  cases t with
  | plain c => simp [read, readFrom, Token.text, h.1, h.2]
  | ampersand => simp [read, readFrom, Token.text]
  | run b64 =>
      have hrun := readFrom_run [] rest h.2
      simp only [List.nil_append, if_neg h.1] at hrun
      simpa [read, readFrom, Token.text] using hrun

/-- Well-formed tokens are read as they were written. -/
theorem read_text (h : ∀ t ∈ ts, t.WellFormed) (rest : List Char) :
    read (ts.flatMap Token.text ++ rest) = (read rest).map (ts ++ ·) := by
  induction ts with
  | nil => simp
  | cons t ts ih =>
      rw [List.flatMap_cons, List.append_assoc, read_token (h t List.mem_cons_self),
        ih fun u hu => h u (List.mem_cons_of_mem t hu), Option.map_map]
      rfl

theorem text_of_readFrom {st : Option (List Char)}
    (hst : ∀ b64 ∈ st, ∀ c ∈ b64, (digit? c).isSome = true) (h : readFrom st cs = some ts) :
    pending st ++ cs = ts.flatMap Token.text ∧ ∀ t ∈ ts, t.WellFormed := by
  induction cs generalizing st ts with
  | nil =>
      cases st with
      | none => simp_all [readFrom, pending]
      | some b64 => simp [readFrom] at h
  | cons c cs ih =>
      cases st with
      | none =>
          rw [readFrom] at h
          split at h
          · -- a run begins
            obtain ⟨htext, hwf⟩ := ih (by simp) h
            exact ⟨by simpa [pending, ‹c = '&'›] using htext, hwf⟩
          · split at h
            · obtain ⟨us, hus, rfl⟩ := Option.map_eq_some_iff.mp h
              obtain ⟨htext, hwf⟩ := ih (by simp) hus
              refine ⟨by simpa [pending, Token.text] using htext, ?_⟩
              simpa [Token.WellFormed, *] using hwf
            · simp at h
      | some b64 =>
          rw [readFrom] at h
          split at h
          · -- a run ends
            obtain ⟨us, hus, rfl⟩ := Option.map_eq_some_iff.mp h
            obtain ⟨htext, hwf⟩ := ih (by simp) hus
            have htext : cs = us.flatMap Token.text := by simpa [pending] using htext
            rw [List.forall_mem_cons]
            refine ⟨?_, ?_, hwf⟩
            · split <;> simp_all [pending, Token.text]
            · split
              · trivial
              · exact ⟨‹_›, hst b64 rfl⟩
          · split at h
            · have hrun : ∀ b ∈ some (b64 ++ [c]), ∀ d ∈ b, (digit? d).isSome = true := by
                rintro b ⟨⟩ d hd
                rcases List.mem_append.mp hd with hd | hd
                · exact hst b64 rfl d hd
                · rwa [List.mem_singleton.mp hd]
              obtain ⟨htext, hwf⟩ := ih hrun h
              exact ⟨by simpa [pending] using htext, hwf⟩
            · simp at h

theorem read_eq_some_iff : read cs = some ts ↔
    cs = ts.flatMap Token.text ∧ ∀ t ∈ ts, t.WellFormed := by
  constructor
  · intro h
    simpa [pending] using text_of_readFrom (by simp) h
  · rintro ⟨rfl, h⟩
    have hread := read_text h []
    simpa [read, readFrom] using hread

theorem printable_of_read (h : read cs = some ts) : ∀ c ∈ cs, printable c = true := by
  obtain ⟨rfl, hwf⟩ := read_eq_some_iff.mp h
  intro c hc
  obtain ⟨t, ht, hct⟩ := List.mem_flatMap.mp hc
  have ht := hwf t ht
  cases t with
  | plain d =>
      obtain rfl : c = d := by simpa [Token.text] using hct
      exact ht.1
  | ampersand =>
      rcases (by simpa [Token.text] using hct : c = '&' ∨ c = '-') with rfl | rfl <;> decide
  | run b64 =>
      rcases (by simpa [Token.text] using hct : c = '&' ∨ c ∈ b64 ∨ c = '-') with rfl | hd | rfl
      · decide
      · exact printable_of_digit? (ht.2 c hd)
      · decide

theorem read_append (h : read pre = some ts) (rest : List Char) :
    read (pre ++ rest) = (read rest).map (ts ++ ·) := by
  obtain ⟨rfl, hwf⟩ := read_eq_some_iff.mp h
  exact read_text hwf rest

/-! ## Names of several parts -/

/-- No run goes over a character that only stands for itself. -/
theorem readFrom_split {st : Option (List Char)} (hplain : digit? c = none) (hamp : c ≠ '&')
    (hdash : c ≠ '-') (h : readFrom st (pre ++ c :: rest) = some ts) :
    ∃ ts₁ ts₂, readFrom st pre = some ts₁ ∧ read rest = some ts₂ ∧
      ts = ts₁ ++ .plain c :: ts₂ := by
  induction pre generalizing st ts with
  | nil =>
      cases st with
      | none =>
          rw [List.nil_append, readFrom, if_neg hamp] at h
          split at h
          · obtain ⟨us, hus, rfl⟩ := Option.map_eq_some_iff.mp h
            exact ⟨[], us, rfl, hus, rfl⟩
          · simp at h
      | some b64 => simp [readFrom, hdash, hplain] at h
  | cons d pre ih =>
      cases st with
      | none =>
          rw [List.cons_append, readFrom] at h
          split at h
          · obtain ⟨ts₁, ts₂, hpre, hrest, hts⟩ := ih h
            exact ⟨ts₁, ts₂, by simpa [readFrom, ‹d = '&'›] using hpre, hrest, hts⟩
          · split at h
            · obtain ⟨us, hus, rfl⟩ := Option.map_eq_some_iff.mp h
              obtain ⟨ts₁, ts₂, hpre, hrest, rfl⟩ := ih hus
              exact ⟨.plain d :: ts₁, ts₂, by simp [readFrom, *], hrest, rfl⟩
            · simp at h
      | some b64 =>
          rw [List.cons_append, readFrom] at h
          split at h
          · obtain ⟨us, hus, rfl⟩ := Option.map_eq_some_iff.mp h
            obtain ⟨ts₁, ts₂, hpre, hrest, rfl⟩ := ih hus
            exact ⟨_ :: ts₁, ts₂, by simp [readFrom, *], hrest, rfl⟩
          · split at h
            · obtain ⟨ts₁, ts₂, hpre, hrest, hts⟩ := ih h
              exact ⟨ts₁, ts₂, by simp [readFrom, *], hrest, hts⟩
            · simp at h

theorem meaning_cons (t : Token) (ts : List Token) : meaning (t :: ts) =
    if t.isRun = true ∧ ts.head?.any Token.isRun = true then none
    else t.value?.bind fun cs => (meaning ts).map (cs ++ ·) := by
  rw [meaning]
  split
  · rfl
  · cases t.value? <;> cases meaning ts <;> rfl

theorem meaning_plain (c : Char) (ts : List Token) :
    meaning (.plain c :: ts) = (meaning ts).map (c :: ·) := by
  rw [meaning_cons, if_neg fun h => by simp [Token.isRun] at h]
  rfl

theorem meaning_append_plain (ts us : List Token) (c : Char) : meaning (ts ++ .plain c :: us) =
    (meaning ts).bind fun cs => (meaning us).map fun ds => cs ++ c :: ds := by
  induction ts with
  | nil => simp [meaning_plain, meaning]
  | cons t ts ih =>
      have hhead : (ts ++ .plain c :: us).head?.any Token.isRun = ts.head?.any Token.isRun := by
        cases ts <;> rfl
      rw [List.cons_append, meaning_cons, meaning_cons, hhead, ih]
      split
      · rfl
      · cases t.value? <;> cases meaning ts <;> cases meaning us <;> simp

theorem isChain_of_meaning (h : meaning ts = some cs) :
    ts.IsChain fun s t => ¬ (s.isRun = true ∧ t.isRun = true) := by
  induction ts generalizing cs with
  | nil => simp
  | cons t ts ih =>
      rw [meaning_cons] at h
      by_cases hadj : t.isRun = true ∧ ts.head?.any Token.isRun = true
      · rw [if_pos hadj] at h
        cases h
      · rw [if_neg hadj] at h
        obtain ⟨ds, -, h⟩ := Option.bind_eq_some_iff.mp h
        obtain ⟨es, hes, -⟩ := Option.map_eq_some_iff.mp h
        cases ts with
        | nil => simp
        | cons u us => exact List.isChain_cons_cons.mpr ⟨hadj, ih hes⟩

/-- The parts of a name are written one by one. -/
theorem decode_split (hplain : digit? c = none) (hamp : c ≠ '&') (hdash : c ≠ '-')
    (hc : printable c = true) (pre rest : List Char) : decode (pre ++ c :: rest) =
      (decode pre).bind fun cs => (decode rest).map fun ds => cs ++ c :: ds := by
  cases hread : read (pre ++ c :: rest) with
  | some ts =>
      obtain ⟨ts₁, ts₂, hpre, hrest, rfl⟩ := readFrom_split hplain hamp hdash hread
      have hpre : read pre = some ts₁ := hpre
      simp only [decode, hread, hpre, hrest, Option.bind_some, meaning_append_plain]
  | none =>
      cases hpre : read pre with
      | none => simp [decode, hread, hpre]
      | some ts₁ =>
          cases hrest : read rest with
          | none => simp [decode, hread, hpre, hrest]
          | some ts₂ =>
              have hsplit := read_append hpre (c :: rest)
              have hcons : read (c :: rest) = some (.plain c :: ts₂) := by
                simpa [Token.text, hrest] using read_token (t := .plain c) ⟨hc, hamp⟩ rest
              rw [hread, hcons] at hsplit
              simp at hsplit

/-- A name of characters that stand for themselves is its own text. -/
theorem decode_plain (h : ∀ c ∈ cs, printable c = true ∧ c ≠ '&') : decode cs = some cs := by
  induction cs with
  | nil => rfl
  | cons c cs ih =>
      have hread := read_token (t := .plain c) (h c List.mem_cons_self) cs
      have ih := ih fun d hd => h d (List.mem_cons_of_mem c hd)
      simp only [Token.text, List.cons_append, List.nil_append] at hread
      simp only [decode] at ih ⊢
      cases hcs : read cs with
      | none => simp [hcs] at ih
      | some ts => simp_all [meaning_plain]

/-! ## Lengths -/

theorem length_bytes? {bytes : List UInt8} (h : bytes? cs = some bytes) :
    bytes.length ≤ cs.length := by
  induction cs using bytes?.induct generalizing bytes with
  | case1 => simp_all [bytes?]
  | case2 => simp_all [bytes?]
  | case3 a b =>
      simp only [bytes?, Option.bind_eq_bind, Option.bind_eq_some_iff] at h
      obtain ⟨m, -, n, -, h⟩ := h
      split at h <;> simp_all
      subst h
      simp
  | case4 a b c =>
      simp only [bytes?, Option.bind_eq_bind, Option.bind_eq_some_iff] at h
      obtain ⟨m, -, n, -, o, -, h⟩ := h
      split at h <;> simp_all
      subst h
      simp
  | case5 a b c d cs ih =>
      simp only [bytes?, Option.bind_eq_bind, Option.bind_eq_some_iff, Option.some.injEq] at h
      obtain ⟨m, -, n, -, o, -, q, -, bytes, hbytes, rfl⟩ := h
      have hlen := ih hbytes
      simp
      omega

theorem Token.length_value? {t : Token} (hwf : t.WellFormed) (h : t.value? = some cs) :
    cs.length + t.text.count '&' ≤ t.text.length := by
  cases t with
  | plain c =>
      obtain rfl : [c] = cs := by simpa [Token.value?] using h
      simp [Token.text, hwf.2]
  | ampersand =>
      obtain rfl : ['&'] = cs := by simpa [Token.value?] using h
      simp [Token.text]
  | run b64 =>
      simp only [Token.value?, Option.filter_eq_some_iff, Option.bind_eq_some_iff] at h
      obtain ⟨⟨us, ⟨bytes, hbytes, hus⟩, hcs⟩, -⟩ := h
      have hlen := length_bytes? hbytes
      have hlen' := Utf16.length_units? hus
      have hlen'' := Utf16.length_scalars? hcs
      have hamp : b64.count '&' = 0 := by
        rw [List.count_eq_zero]
        intro h
        exact absurd (hwf.2 '&' h) (by decide)
      simp [Token.text, hamp]
      omega

theorem length_meaning (hwf : ∀ t ∈ ts, t.WellFormed) (h : meaning ts = some cs) :
    cs.length + (ts.flatMap Token.text).count '&' ≤ (ts.flatMap Token.text).length := by
  induction ts generalizing cs with
  | nil =>
      obtain rfl : [] = cs := by simpa [meaning] using h
      simp
  | cons t ts ih =>
      rw [meaning_cons] at h
      split at h
      · cases h
      · obtain ⟨ds, hds, h⟩ := Option.bind_eq_some_iff.mp h
        obtain ⟨es, hes, rfl⟩ := Option.map_eq_some_iff.mp h
        have hlen := Token.length_value? (hwf t List.mem_cons_self) hds
        have hlen' := ih (fun u hu => hwf u (List.mem_cons_of_mem t hu)) hes
        simp only [List.length_append, List.flatMap_cons, List.count_append]
        omega

/-- Each shift costs a character. -/
theorem length_decode (h : decode cs = some ds) : ds.length + cs.count '&' ≤ cs.length := by
  obtain ⟨ts, hread, hmeaning⟩ := Option.bind_eq_some_iff.mp h
  obtain ⟨rfl, hwf⟩ := read_eq_some_iff.mp hread
  exact length_meaning hwf hmeaning

theorem printable_of_decode (h : decode cs = some ds) (hamp : '&' ∉ cs) :
    ∀ c ∈ cs, printable c = true ∧ c ≠ '&' := by
  obtain ⟨ts, hread, -⟩ := Option.bind_eq_some_iff.mp h
  obtain ⟨rfl, hwf⟩ := read_eq_some_iff.mp hread
  intro c hc
  obtain ⟨t, ht, hct⟩ := List.mem_flatMap.mp hc
  have hplain : '&' ∉ t.text := fun h => hamp (List.mem_flatMap.mpr ⟨t, ht, h⟩)
  have ht := hwf t ht
  cases t with
  | plain d =>
      obtain rfl : c = d := by simpa [Token.text] using hct
      exact ht
  | ampersand => simp [Token.text] at hplain
  | run b64 => simp [Token.text] at hplain

/-- Only names without shifts are their own text. -/
theorem decode_self_iff (h : decode cs = some ds) : ds = cs ↔ '&' ∉ cs := by
  constructor
  · rintro rfl hamp
    have hlen := length_decode h
    have hcount := List.count_pos_iff.mpr hamp
    omega
  · intro hamp
    have hplain := decode_plain (printable_of_decode h hamp)
    rw [h] at hplain
    exact Option.some.inj hplain

/-- No name is what it stands for behind some more path. -/
theorem ne_append_decode (h : decode cs = some ds) (pre : List Char) : cs ≠ pre ++ '/' :: ds := by
  induction hn : cs.length using Nat.strongRecOn generalizing cs ds pre with
  | ind n ih =>
      rintro rfl
      rw [decode_split (by decide) (by decide) (by decide) (by decide)] at h
      obtain ⟨pre', -, h⟩ := Option.bind_eq_some_iff.mp h
      obtain ⟨es, hes, heq⟩ := Option.map_eq_some_iff.mp h
      have hlen : ds.length < n := by
        simp at hn
        omega
      exact ih ds.length hlen hes pre' rfl heq.symm

end ModifiedUtf7
