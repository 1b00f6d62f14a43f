import MailFallback.Library.IsoFormat
import Mathlib.Data.List.Basic

/-! # The search language of IMAP

Search keys, operators in front, as a server reads them from the line of a command. Keywords are
written in capitals. -/

namespace ImapSearch

open IsoFormat (Date)

/-! ## Keys -/

/-- Where a text is looked for. -/
inductive Field where
  | subject | from | to | cc | bcc | body | text
  | header (name : String)
  deriving DecidableEq, Repr

inductive Flag where
  | unseen | flagged | unanswered | deleted | undeleted
  deriving DecidableEq, Repr

inductive Key where
  | all
  | flag (flag : Flag)
  | contains (field : Field) (text : String)
  | since (date : Date)
  | before (date : Date)
  | or (left right : Key)
  deriving DecidableEq, Repr

/-- What a server knows of its messages. -/
structure Messages (M : Type*) where
  contains : Field → String → M → Bool
  flag : Flag → M → Bool
  date : M → Date

def earlier (d e : Date) : Bool :=
  d.year < e.year ||
    (d.year = e.year && (d.month < e.month || (d.month = e.month && d.day < e.day)))

section Meaning

variable {M : Type*} (messages : Messages M) (m : M)

def Key.selects : Key → Bool
  | .all => true
  | .flag f => messages.flag f m
  | .contains field text => messages.contains field text m
  | .since date => !earlier (messages.date m) date
  | .before date => earlier (messages.date m) date
  | .or left right => left.selects || right.selects

/-- All keys of a command must hold. -/
def selected (keys : List Key) : Bool := keys.all (Key.selects messages m)

end Meaning

/-! ## Lines -/

inductive Token where
  | word (text : String)
  | quoted (text : String)
  deriving DecidableEq, Repr

/-- `astring` -/
def Token.string : Token → String
  | .word text | .quoted text => text

/-- `ATOM-CHAR` and the closing bracket. -/
def isWordChar (c : Char) : Bool :=
  32 < c.toNat && c.toNat < 127 && c ∉ ['(', ')', '{', '%', '*', '"', '\\']

/-- `TEXT-CHAR` -/
def isQuotedChar (c : Char) : Bool :=
  0 < c.toNat && c.toNat < 128 && c ≠ '\r' && c ≠ '\n'

/-- A quoted string after its opening quote, and what follows it. -/
def readQuoted : List Char → Option (List Char × List Char)
  | [] => none
  | c :: cs =>
      if c = '"' then some ([], cs)
      else if c = '\\' then
        match cs with
        | [] => none
        | d :: cs =>
            if d = '"' ∨ d = '\\' then (readQuoted cs).map fun r => (d :: r.1, r.2) else none
      else if isQuotedChar c = true then (readQuoted cs).map fun r => (c :: r.1, r.2)
      else none

def readToken (cs : List Char) : Option (Token × List Char) :=
  match cs with
  | '"' :: cs => (readQuoted cs).map fun r => (.quoted (String.ofList r.1), r.2)
  | cs =>
      if cs.takeWhile isWordChar = [] then none
      else some (.word (String.ofList (cs.takeWhile isWordChar)), cs.dropWhile isWordChar)

/-- Tokens with one space in between; the number bounds how many there are. -/
def lex : ℕ → List Char → Option (List Token)
  | 0, _ => none
  | n + 1, cs =>
      match readToken cs with
      | none => none
      | some (t, []) => some [t]
      | some (t, c :: cs) => if c = ' ' then (lex n cs).map (t :: ·) else none

/-! ## Reading -/

def monthNames : List String :=
  ["Jan", "Feb", "Mar", "Apr", "May", "Jun", "Jul", "Aug", "Sep", "Oct", "Nov", "Dec"]

def number? (cs : List Char) : Option ℕ :=
  if cs.all Char.isDigit = true then some (Nat.ofDigitChars 10 cs 0) else none

/-- `date-day "-" date-month "-" date-year`: a day of one or two digits and a year of four. -/
def date? (s : String) : Option Date :=
  match s.toList.splitOn '-' with
  | [d, m, y] =>
      if d.length = 0 ∨ 2 < d.length ∨ y.length ≠ 4 then none
      else
        match number? d, monthNames.idxOf? (String.ofList m), number? y with
        | some day, some month, some year =>
            if h : IsoFormat.ValidDate year (month + 1) day then some ⟨year, month + 1, day, h⟩
            else none
        | _, _, _ => none
  | _ => none

def flag? (w : String) : Option Flag :=
  if w = "UNSEEN" then some .unseen else if w = "FLAGGED" then some .flagged
  else if w = "UNANSWERED" then some .unanswered else if w = "DELETED" then some .deleted
  else if w = "UNDELETED" then some .undeleted else none

def field? (w : String) : Option Field :=
  if w = "SUBJECT" then some .subject else if w = "FROM" then some .from
  else if w = "TO" then some .to else if w = "CC" then some .cc
  else if w = "BCC" then some .bcc else if w = "BODY" then some .body
  else if w = "TEXT" then some .text else none

/-- One key, and what follows it; the number bounds its depth. -/
def readKey : ℕ → List Token → Option (Key × List Token)
  | n + 1, .word w :: ts =>
      if w = "ALL" then some (.all, ts)
      else if w = "OR" then
        (readKey n ts).bind fun r => (readKey n r.2).map fun r' => (.or r.1 r'.1, r'.2)
      else if w = "HEADER" then
        match ts with
        | name :: t :: ts => some (.contains (.header name.string) t.string, ts)
        | _ => none
      else if w = "SINCE" then ts.head?.bind fun t => (date? t.string).map fun d =>
        (.since d, ts.tail)
      else if w = "BEFORE" then ts.head?.bind fun t => (date? t.string).map fun d =>
        (.before d, ts.tail)
      else
        match flag? w with
        | some f => some (.flag f, ts)
        | none => (field? w).bind fun field => ts.head?.map fun t =>
            (.contains field t.string, ts.tail)
  | _, _ => none

/-- Keys up to the end of the line; the number bounds how many tokens there are. -/
def readKeys : ℕ → List Token → Option (List Key)
  | _, [] => some []
  | 0, _ :: _ => none
  | n + 1, t :: ts => (readKey (n + 1) (t :: ts)).bind fun r => (readKeys n r.2).map (r.1 :: ·)

/-- The keys of a `SEARCH` command, of which there is at least one. -/
def readSearch (line : String) : Option (List Key) :=
  (lex line.toList.length line.toList).bind fun ts => readKeys ts.length ts

/-! ## Writing -/

def Token.chars : Token → List Char
  | .word text => text.toList
  | .quoted text => '"' :: (text.toList ++ ['"'])

/-- Text that stands between quotes as it is. -/
def Quotable (s : String) : Prop := ∀ c ∈ s.toList, isQuotedChar c = true ∧ c ≠ '"' ∧ c ≠ '\\'

def Token.Plain : Token → Prop
  | .word text => text ≠ "" ∧ ∀ c ∈ text.toList, isWordChar c = true
  | .quoted text => Quotable text

theorem readQuoted_append {s : List Char} (rest : List Char)
    (h : ∀ c ∈ s, isQuotedChar c = true ∧ c ≠ '"' ∧ c ≠ '\\') :
    readQuoted (s ++ '"' :: rest) = some (s, rest) := by
  induction s with
  | nil =>
      rw [List.nil_append, readQuoted.eq_def]
      simp
  | cons c s ih =>
      obtain ⟨htext, hquote, hslash⟩ := h c List.mem_cons_self
      have hrest := ih fun d hd => h d (List.mem_cons_of_mem c hd)
      rw [List.cons_append, readQuoted.eq_def]
      simp [hquote, hslash, htext, hrest]

theorem readToken_chars {t : Token} (ht : t.Plain) {rest : List Char}
    (hrest : ∀ c ∈ rest.head?, c = ' ') : readToken (t.chars ++ rest) = some (t, rest) := by
  have hspace : ∀ c ∈ rest.head?, isWordChar c = false := by
    intro c hc
    rw [hrest c hc]
    decide
  cases t with
  | quoted text =>
      have hquoted := readQuoted_append rest ht
      simp [Token.chars, readToken, hquoted, String.ofList_toList]
  | word text =>
      obtain ⟨hne, hatoms⟩ := ht
      have htake : (text.toList ++ rest).takeWhile isWordChar = text.toList := by
        rw [List.takeWhile_append_of_pos hatoms]
        cases rest with
        | nil => simp
        | cons c rest =>
            have hc := hspace c rfl
            simp [hc]
      have hdrop : (text.toList ++ rest).dropWhile isWordChar = rest := by
        rw [List.dropWhile_append_of_pos hatoms]
        cases rest with
        | nil => simp
        | cons c rest =>
            have hc := hspace c rfl
            simp [hc]
      have hnil : text.toList ≠ [] := by simpa using hne
      obtain ⟨c, cs, hcs⟩ := List.exists_cons_of_ne_nil hnil
      have hquote : c ≠ '"' := by
        rintro rfl
        have := hatoms '"' (hcs ▸ List.mem_cons_self)
        exact absurd this (by decide)
      have hread : readToken (text.toList ++ rest) =
          some (.word (String.ofList ((text.toList ++ rest).takeWhile isWordChar)),
            (text.toList ++ rest).dropWhile isWordChar) := by
        unfold readToken
        split
        · rename_i heq
          rw [hcs, List.cons_append, List.cons.injEq] at heq
          exact absurd heq.1 hquote
        · rw [if_neg (by rw [htake]; exact hnil)]
      rw [Token.chars, hread, htake, hdrop, String.ofList_toList]

/-- The tokens of a line, one space between two of them. -/
def lineOf (ts : List Token) : List Char := [' '].intercalate (ts.map Token.chars)

theorem length_le_lineOf {ts : List Token} (hplain : ∀ t ∈ ts, t.Plain) :
    ts.length ≤ (lineOf ts).length := by
  induction ts with
  | nil => simp
  | cons t ts ih =>
      have hrest := ih fun u hu => hplain u (List.mem_cons_of_mem t hu)
      have hpos : 0 < t.chars.length := by
        cases t with
        | quoted text => simp [Token.chars]
        | word text =>
            have hne := (hplain (.word text) List.mem_cons_self).1
            rw [Token.chars, List.length_pos_iff]
            simpa using hne
      cases ts with
      | nil =>
          simp only [lineOf, List.map_cons, List.map_nil, List.intercalate_singleton,
            List.length_singleton]
          omega
      | cons u ts =>
          have hline : lineOf (t :: u :: ts) = t.chars ++ ' ' :: lineOf (u :: ts) := by
            simp [lineOf, List.intercalate]
          rw [hline, List.length_append, List.length_cons]
          simp only [List.length_cons] at hrest ⊢
          omega

theorem lex_lineOf {ts : List Token} (hne : ts ≠ []) (hplain : ∀ t ∈ ts, t.Plain) {n : ℕ}
    (hn : ts.length ≤ n) : lex n (lineOf ts) = some ts := by
  induction ts generalizing n with
  | nil => exact absurd rfl hne
  | cons t ts ih =>
      have ht := hplain t List.mem_cons_self
      obtain ⟨n, rfl⟩ := Nat.exists_eq_succ_of_ne_zero
        (show n ≠ 0 by rw [List.length_cons] at hn; omega)
      cases ts with
      | nil =>
          have hread : readToken (t.chars ++ []) = some (t, []) := readToken_chars ht (by simp)
          simp only [List.append_nil] at hread
          simp [lineOf, lex, hread]
      | cons u ts =>
          have hline : lineOf (t :: u :: ts) = t.chars ++ ' ' :: lineOf (u :: ts) := by
            simp [lineOf, List.intercalate]
          have hread : readToken (t.chars ++ ' ' :: lineOf (u :: ts)) =
              some (t, ' ' :: lineOf (u :: ts)) := readToken_chars ht (by simp)
          have hrest := ih (by simp) (fun v hv => hplain v (List.mem_cons_of_mem t hv))
            (n := n) (by simpa using hn)
          rw [hline, Nat.succ_eq_add_one]
          simp [lex, hread, hrest]

/-! ## What is read back -/

/-- `date` as it is written without leading zeros. -/
def dateText (d : Date) : String :=
  toString d.day ++ "-" ++ monthNames.getD (d.month - 1) "" ++ "-" ++ toString d.year

theorem number?_toDigits (n : ℕ) : number? (Nat.toDigits 10 n) = some n := by
  have hdigits : (Nat.toDigits 10 n).all Char.isDigit = true :=
    List.all_eq_true.mpr fun _ hc => Nat.isDigit_of_mem_toDigits (by decide) (by decide) hc
  rw [number?, if_pos hdigits, Nat.ofDigitChars_ten_toDigits]

theorem dash_not_mem_toDigits (n : ℕ) : '-' ∉ Nat.toDigits 10 n := by
  intro h
  exact absurd (Nat.isDigit_of_mem_toDigits (by decide) (by decide) h) (by decide)

theorem monthNames_spec : ∀ month < 12,
    monthNames.idxOf? (monthNames.getD month "") = some month ∧
      '-' ∉ (monthNames.getD month "").toList := by
  decide +kernel

/-- A server reads the date of a year of four digits. -/
theorem date?_dateText {d : Date} (h : 1000 ≤ d.year) : date? (dateText d) = some d := by
  obtain ⟨year, month, day, hvalid⟩ := d
  have hyear' : 1000 ≤ year := h
  have hparts := hvalid
  obtain ⟨⟨-, hyear⟩, ⟨hmonth, hmonth'⟩, hday, hday'⟩ := hparts
  have hmax := IsoFormat.daysInMonth_le year month
  obtain ⟨hname, hdash⟩ := monthNames_spec (month - 1) (by omega)
  have hchars : (dateText ⟨year, month, day, hvalid⟩).toList = ['-'].intercalate
      [Nat.toDigits 10 day, (monthNames.getD (month - 1) "").toList, Nat.toDigits 10 year] := by
    simp [dateText, List.intercalate, String.toList_append]
  have hsplit : (dateText ⟨year, month, day, hvalid⟩).toList.splitOn '-' =
      [Nat.toDigits 10 day, (monthNames.getD (month - 1) "").toList, Nat.toDigits 10 year] := by
    rw [hchars, List.splitOn_intercalate]
    · simp only [List.mem_cons, List.not_mem_nil, or_false, forall_eq_or_imp, forall_eq]
      exact ⟨dash_not_mem_toDigits day, hdash, dash_not_mem_toDigits year⟩
    · simp
  have hlength : (Nat.toDigits 10 year).length = 4 := by
    have hupper := (Nat.length_toDigits_le_iff (b := 10) (k := 4) (by decide) (by decide)).mpr
      (show year < 10 ^ 4 by omega)
    have hlower := (not_iff_not.mpr (Nat.length_toDigits_le_iff (b := 10) (k := 3) (n := year)
      (by decide) (by decide))).mpr (show ¬ year < 10 ^ 3 by omega)
    omega
  have hshort : (Nat.toDigits 10 day).length ≤ 2 :=
    (Nat.length_toDigits_le_iff (b := 10) (k := 2) (by decide) (by decide)).mpr
      (show day < 10 ^ 2 by omega)
  have hlengths : ¬ ((Nat.toDigits 10 day).length = 0 ∨ 2 < (Nat.toDigits 10 day).length ∨
      (Nat.toDigits 10 year).length ≠ 4) := by
    have hpos : (Nat.toDigits 10 day).length ≠ 0 := by simp
    omega
  have hsucc : month - 1 + 1 = month := by omega
  unfold date?
  rw [hsplit]
  simp only [if_neg hlengths, number?_toDigits, String.ofList_toList, hname, hsucc]
  rw [dif_pos hvalid]

/-- The texts that a key may be written as. -/
inductive Written : Key → List Token → Prop where
  | all : Written .all [.word "ALL"]
  | flag {w f} : flag? w = some f → Written (.flag f) [.word w]
  | contains {w field} (t : Token) : field? w = some field →
      Written (.contains field t.string) [.word w, t]
  | header (name t : Token) :
      Written (.contains (.header name.string) t.string) [.word "HEADER", name, t]
  | since {t : Token} {d} : date? t.string = some d → Written (.since d) [.word "SINCE", t]
  | before {t : Token} {d} : date? t.string = some d → Written (.before d) [.word "BEFORE", t]
  | or {left right ts ts'} : Written left ts → Written right ts' →
      Written (.or left right) (.word "OR" :: (ts ++ ts'))

variable {key : Key} {ts : List Token} {n : ℕ} {w : String}

theorem Written.length_pos (h : Written key ts) : 0 < ts.length := by
  cases h <;> simp

theorem ne_of_flag? {f : Flag} (h : flag? w = some f) :
    w ≠ "ALL" ∧ w ≠ "OR" ∧ w ≠ "HEADER" ∧ w ≠ "SINCE" ∧ w ≠ "BEFORE" := by
  refine ⟨?_, ?_, ?_, ?_, ?_⟩ <;> rintro rfl <;> simp [flag?] at h

theorem ne_of_field? {field : Field} (h : field? w = some field) :
    (w ≠ "ALL" ∧ w ≠ "OR" ∧ w ≠ "HEADER" ∧ w ≠ "SINCE" ∧ w ≠ "BEFORE") ∧ flag? w = none := by
  have hwords : w ∈ ["SUBJECT", "FROM", "TO", "CC", "BCC", "BODY", "TEXT"] := by
    unfold field? at h
    split_ifs at h <;> simp_all
  simp only [List.mem_cons, List.not_mem_nil, or_false] at hwords
  rcases hwords with rfl | rfl | rfl | rfl | rfl | rfl | rfl <;> decide

/-- The reader stops where the key ends. -/
theorem Written.readKey (h : Written key ts) (rest : List Token) (hn : ts.length ≤ n) :
    readKey n (ts ++ rest) = some (key, rest) := by
  induction h generalizing n rest with
  | all =>
      obtain ⟨n, rfl⟩ := Nat.exists_eq_add_of_le' hn
      simp [ImapSearch.readKey]
  | @flag w f h =>
      obtain ⟨n, rfl⟩ := Nat.exists_eq_add_of_le' hn
      obtain ⟨h₁, h₂, h₃, h₄, h₅⟩ := ne_of_flag? h
      simp [ImapSearch.readKey, h₁, h₂, h₃, h₄, h₅, h]
  | @contains w field t h =>
      obtain ⟨n, rfl⟩ := Nat.exists_eq_add_of_le' (Nat.le_of_succ_le hn)
      obtain ⟨⟨h₁, h₂, h₃, h₄, h₅⟩, hflag⟩ := ne_of_field? h
      simp [ImapSearch.readKey, h₁, h₂, h₃, h₄, h₅, hflag, h]
  | header name t =>
      obtain ⟨n, rfl⟩ := Nat.exists_eq_add_of_le'
        (Nat.le_of_succ_le (Nat.le_of_succ_le hn))
      simp [ImapSearch.readKey]
  | since h =>
      obtain ⟨n, rfl⟩ := Nat.exists_eq_add_of_le' (Nat.le_of_succ_le hn)
      simp [ImapSearch.readKey, h]
  | before h =>
      obtain ⟨n, rfl⟩ := Nat.exists_eq_add_of_le' (Nat.le_of_succ_le hn)
      simp [ImapSearch.readKey, h]
  | @or left right ts ts' _ _ ih ih' =>
      rw [List.length_cons, List.length_append] at hn
      obtain ⟨n, rfl⟩ := Nat.exists_eq_add_of_le' (show 1 ≤ n by omega)
      have hleft := ih (n := n) (ts' ++ rest) (by omega)
      have hright := ih' (n := n) rest (by omega)
      simp [ImapSearch.readKey, hleft, hright]

/-- Keys, each with the tokens it is written as. -/
def tokensOf (parts : List (Key × List Token)) : List Token := parts.flatMap Prod.snd

theorem readKeys_tokensOf {parts : List (Key × List Token)}
    (h : ∀ p ∈ parts, Written p.1 p.2) (hn : (tokensOf parts).length ≤ n) :
    readKeys n (tokensOf parts) = some (parts.map Prod.fst) := by
  induction parts generalizing n with
  | nil => simp [tokensOf, readKeys]
  | cons p parts ih =>
      have hp := h p List.mem_cons_self
      have hpos := hp.length_pos
      have hsplit : tokensOf (p :: parts) = p.2 ++ tokensOf parts := rfl
      rw [hsplit, List.length_append] at hn
      obtain ⟨n, rfl⟩ := Nat.exists_eq_add_of_le' (show 1 ≤ n by omega)
      have hkey := hp.readKey (tokensOf parts) (show p.2.length ≤ n + 1 by omega)
      have hrest := ih (n := n) (fun q hq => h q (List.mem_cons_of_mem p hq)) (by omega)
      obtain ⟨t, ts, hts⟩ := List.exists_cons_of_length_pos hpos
      rw [hsplit, hts, List.cons_append, readKeys, ← List.cons_append, ← hts, hkey]
      simp [hrest]

/-- What is written token by token is read as the keys that it was written for. -/
theorem readSearch_lineOf {parts : List (Key × List Token)} (hne : parts ≠ [])
    (h : ∀ p ∈ parts, Written p.1 p.2) (hplain : ∀ t ∈ tokensOf parts, t.Plain) :
    readSearch (String.ofList (lineOf (tokensOf parts))) = some (parts.map Prod.fst) := by
  have htokens : tokensOf parts ≠ [] := by
    cases parts with
    | nil => exact absurd rfl hne
    | cons p parts =>
        have hpos := (h p List.mem_cons_self).length_pos
        intro hnil
        rw [tokensOf, List.flatMap_cons, List.append_eq_nil_iff] at hnil
        rw [hnil.1] at hpos
        exact absurd hpos (by simp)
  have hlength : (tokensOf parts).length ≤ (lineOf (tokensOf parts)).length :=
    length_le_lineOf hplain
  rw [readSearch, String.toList_ofList, lex_lineOf htokens hplain hlength, Option.bind_some]
  exact readKeys_tokensOf h (Nat.le_refl _)

end ImapSearch
