import Mathlib.Data.List.Basic

/-! # The arguments of a configuration line

White space separates arguments, double quotes group, and a backslash takes the next character
as it is. -/

namespace MailFallback.Arguments

/-- The characters that separate arguments. -/
def isBlank (c : Char) : Bool := c == ' ' || (9 ≤ c.toNat && c.toNat ≤ 13)

/-- What has been read of a line. -/
structure Scan where
  done : List (List Char) := []
  /-- The argument that is being read. -/
  word : Option (List Char) := none
  quoted : Bool := false
  escaped : Bool := false
  deriving DecidableEq, Repr

namespace Scan

/-- Takes a character, or none, into the argument. -/
def add (s : Scan) (cs : List Char) : Scan := { s with word := some (s.word.getD [] ++ cs) }

def setEscaped (s : Scan) (escaped : Bool) : Scan := { s with escaped := escaped }

def setQuoted (s : Scan) (quoted : Bool) : Scan := { s with quoted := quoted }

def step (s : Scan) (c : Char) : Scan :=
  if s.escaped = true then (s.add [c]).setEscaped false
  else if c = '\\' then (s.add []).setEscaped true
  else if c = '"' then (s.add []).setQuoted !s.quoted
  else if s.quoted = false ∧ isBlank c = true then
    { s with done := s.done ++ s.word.toList, word := none }
  else s.add [c]

def run (s : Scan) (cs : List Char) : Scan := cs.foldl step s

/-- The arguments, unless a quotation or an escape is left open. -/
def result (s : Scan) : Option (List (List Char)) :=
  if s.quoted = true ∨ s.escaped = true then none else some (s.done ++ s.word.toList)

end Scan

def arguments (cs : List Char) : Option (List (List Char)) := (Scan.run {} cs).result

example : arguments "Pass \"a b\\\"\" c".toList = some ["Pass".toList, "a b\"".toList, ['c']] := by
  decide

namespace Scan

variable {s : Scan} {cs rest : List Char} {c : Char} {args : List (List Char)}

theorem run_nil (s : Scan) : s.run [] = s := rfl

theorem run_cons (s : Scan) (c : Char) (cs : List Char) : s.run (c :: cs) = (s.step c).run cs := rfl

theorem run_append (s : Scan) (cs rest : List Char) :
    s.run (cs ++ rest) = (s.run cs).run rest := List.foldl_append

/-! ## Characters that stand for themselves -/

/-- Neither special nor, outside a quotation, white space. -/
def Plain (quoted : Bool) (c : Char) : Prop :=
  c ≠ '\\' ∧ c ≠ '"' ∧ (quoted = false → isBlank c = false)

instance (quoted : Bool) (c : Char) : Decidable (Plain quoted c) :=
  inferInstanceAs (Decidable (c ≠ '\\' ∧ c ≠ '"' ∧ (quoted = false → isBlank c = false)))

theorem plain_of_all {quoted : Bool} (h : (cs.all fun c => decide (Plain quoted c)) = true) :
    ∀ c ∈ cs, Plain quoted c :=
  fun c hc => of_decide_eq_true (List.all_eq_true.mp h c hc)

theorem unescaped_of_all (h : (cs.all fun c => decide (c ≠ '\\' ∧ c ≠ '"')) = true) :
    ∀ c ∈ cs, c ≠ '\\' ∧ c ≠ '"' :=
  fun c hc => of_decide_eq_true (List.all_eq_true.mp h c hc)

theorem step_plain (he : s.escaped = false) (hc : Plain s.quoted c) : s.step c = s.add [c] := by
  obtain ⟨hback, hquote, hblank⟩ := hc
  rw [step, if_neg (by simp [he]), if_neg hback, if_neg hquote, if_neg]
  rintro ⟨hq, hb⟩
  rw [hblank hq] at hb
  cases hb

theorem run_plain (he : s.escaped = false) (hcs : ∀ c ∈ cs, Plain s.quoted c) (hne : cs ≠ []) :
    s.run cs = s.add cs := by
  induction cs generalizing s with
  | nil => exact absurd rfl hne
  | cons c cs ih =>
      obtain ⟨hc, hcs⟩ := List.forall_mem_cons.mp hcs
      rw [run_cons, step_plain he hc]
      by_cases hnil : cs = []
      · subst hnil
        rfl
      · have hrest : (s.add [c]).run cs = (s.add [c]).add cs := ih he hcs hnil
        rw [hrest]
        simp [add]

/-- A quotation adds its text to the argument. -/
theorem run_quotation (he : s.escaped = false) (hq : s.quoted = false)
    (hcs : ∀ c ∈ cs, c ≠ '\\' ∧ c ≠ '"') : s.run ('"' :: (cs ++ ['"'])) = s.add cs := by
  have hopen : s.step '"' = (s.add []).setQuoted true := by
    rw [step, if_neg (by simp [he]), if_neg (by decide), if_pos rfl, hq]
    rfl
  have hescaped : ((s.add []).setQuoted true).escaped = false := he
  have hclose : ∀ t : Scan, t.escaped = false → t.step '"' = (t.add []).setQuoted !t.quoted := by
    intro t ht
    rw [step, if_neg (by simp [ht]), if_neg (by decide), if_pos rfl]
  rw [run_cons, hopen, run_append]
  by_cases hnil : cs = []
  · subst hnil
    rw [run_nil, run_cons, hclose _ hescaped, run_nil]
    simp [add, setQuoted, hq]
  · have hplain : ∀ c ∈ cs, Plain ((s.add []).setQuoted true).quoted c :=
      fun c hc => ⟨(hcs c hc).1, (hcs c hc).2, fun h => Bool.noConfusion h⟩
    have hclosing : (((s.add []).setQuoted true).add cs).escaped = false := he
    rw [run_plain hescaped hplain hnil, run_cons, hclose _ hclosing, run_nil]
    simp [add, setQuoted, hq]

theorem step_blank (he : s.escaped = false) (hq : s.quoted = false) (hc : isBlank c = true) :
    s.step c = { s with done := s.done ++ s.word.toList, word := none } := by
  have hback : c ≠ '\\' := by
    rintro rfl
    exact absurd hc (by decide)
  have hquote : c ≠ '"' := by
    rintro rfl
    exact absurd hc (by decide)
  rw [step, if_neg (by simp [he]), if_neg hback, if_neg hquote, if_pos ⟨hq, hc⟩]

/-! ## How much of a text arrives -/

/-- The characters read into arguments, one that is announced by a backslash among them. -/
def weight (s : Scan) : ℕ :=
  s.done.flatten.length + (s.word.getD []).length + (if s.escaped = true then 1 else 0)

theorem weight_escaped (he : s.escaped = true) : (s.step c).weight = s.weight := by
  rw [step, if_pos he]
  simp [weight, add, setEscaped, he]
  omega

theorem weight_plain (he : s.escaped = false) (hc : Plain s.quoted c) :
    (s.step c).weight = s.weight + 1 := by
  rw [step_plain he hc]
  simp [weight, add, he]
  omega

/-- A quote is never counted. -/
theorem weight_quote : (s.step '"').weight = s.weight := by
  cases he : s.escaped with
  | true => exact weight_escaped he
  | false =>
      rw [step, if_neg (by simp [he]), if_neg (by decide), if_pos rfl]
      simp [weight, add, setQuoted, he]

theorem weight_backslash (he : s.escaped = false) :
    (s.step '\\').weight = s.weight + 1 ∧ (s.step '\\').escaped = true ∧
      (s.step '\\').quoted = s.quoted := by
  rw [step, if_neg (by simp [he]), if_pos rfl]
  refine ⟨?_, rfl, rfl⟩
  simp [weight, add, setEscaped, he]

theorem weight_blank (he : s.escaped = false) (hq : s.quoted = false) (hc : isBlank c = true) :
    (s.step c).weight = s.weight := by
  rw [step_blank he hq hc]
  cases hw : s.word <;> simp [weight, he, hw]

theorem weight_step_le (s : Scan) (c : Char) : (s.step c).weight ≤ s.weight + 1 := by
  cases he : s.escaped with
  | true =>
      rw [weight_escaped he]
      omega
  | false =>
      by_cases hback : c = '\\'
      · subst hback
        exact Nat.le_of_eq (weight_backslash he).1
      · by_cases hquote : c = '"'
        · subst hquote
          rw [weight_quote]
          omega
        · by_cases hblank : s.quoted = false ∧ isBlank c = true
          · rw [weight_blank he hblank.1 hblank.2]
            omega
          · have hplain : Plain s.quoted c :=
              ⟨hback, hquote, fun hq => Bool.eq_false_iff.mpr fun hb => hblank ⟨hq, hb⟩⟩
            exact Nat.le_of_eq (weight_plain he hplain)

theorem weight_run_le (s : Scan) (cs : List Char) : (s.run cs).weight ≤ s.weight + cs.length := by
  induction cs generalizing s with
  | nil => exact Nat.le_refl _
  | cons c cs ih =>
      have hrest := ih (s.step c)
      have hstep := weight_step_le s c
      rw [run_cons, List.length_cons]
      omega

theorem weight_of_result (h : s.result = some args) : s.weight = args.flatten.length := by
  rw [result] at h
  split at h
  · cases h
  · rename_i hclosed
    rw [not_or] at hclosed
    obtain rfl := Option.some.inj h
    cases hw : s.word <;> simp [weight, hclosed, hw]

/-- A text that arrives whole stands for itself, but for a backslash at its end. -/
theorem plain_of_weight (he : s.escaped = false) (hw : (s.run cs).weight = s.weight + cs.length) :
    (∀ c ∈ cs, Plain s.quoted c) ∨
      (s.run cs).escaped = true ∧ (s.run cs).quoted = s.quoted := by
  induction cs generalizing s with
  | nil => exact .inl fun _ h => by cases h
  | cons c cs ih =>
      rw [run_cons, List.length_cons] at hw
      have hle := weight_run_le (s.step c) cs
      by_cases hback : c = '\\'
      · subst hback
        obtain ⟨hone, hescaped, hquoted⟩ := weight_backslash he
        cases cs with
        | nil => exact .inr ⟨hescaped, hquoted⟩
        | cons d cs =>
            -- the character behind it is not counted
            have hle' := weight_run_le ((s.step '\\').step d) cs
            rw [weight_escaped hescaped, hone] at hle'
            rw [run_cons, List.length_cons] at hw
            omega
      · by_cases hquote : c = '"'
        · subst hquote
          rw [weight_quote] at hle
          omega
        · by_cases hblank : s.quoted = false ∧ isBlank c = true
          · rw [weight_blank he hblank.1 hblank.2] at hle
            omega
          · have hplain : Plain s.quoted c :=
              ⟨hback, hquote, fun hq => Bool.eq_false_iff.mpr fun hb => hblank ⟨hq, hb⟩⟩
            have hone := weight_plain he hplain
            have hstep : s.step c = s.add [c] := step_plain he hplain
            have hescaped : (s.step c).escaped = false := by
              rw [hstep]
              exact he
            have hquoted : (s.step c).quoted = s.quoted := by
              rw [hstep]
              rfl
            rcases ih hescaped (by omega) with hcs | ⟨hend, hsame⟩
            · rw [hquoted] at hcs
              exact .inl (List.forall_mem_cons.mpr ⟨hplain, hcs⟩)
            · exact .inr ⟨hend, hsame.trans hquoted⟩

/-! ## One argument -/

/-- A text that is not quoted is an argument by itself exactly when it is plain. -/
theorem result_word_iff (hword : s.word = none) (he : s.escaped = false) (hq : s.quoted = false) :
    (s.run cs).result = some (s.done ++ [cs]) ↔ cs ≠ [] ∧ ∀ c ∈ cs, Plain false c := by
  constructor
  · intro h
    have hweight := weight_of_result h
    have hstart : s.weight = s.done.flatten.length := by simp [weight, hword, he]
    rw [List.flatten_append, List.length_append, List.flatten_singleton, ← hstart] at hweight
    constructor
    · rintro rfl
      rw [run_nil, result, if_neg (by simp [he, hq]), hword] at h
      have hlen := congrArg List.length (Option.some.inj h)
      simp at hlen
    · rcases plain_of_weight he hweight with hplain | ⟨hescaped, -⟩
      · rwa [hq] at hplain
      · rw [result, if_pos (.inr hescaped)] at h
        cases h
  · rintro ⟨hne, hplain⟩
    rw [run_plain he (by rwa [hq]) hne, result, if_neg (by simp [add, he, hq])]
    simp [add, hword]

/-- A quoted text is an argument exactly when it holds nothing special. -/
theorem result_quoted_iff (hword : s.word = none) (he : s.escaped = false)
    (hq : s.quoted = false) : (s.run ('"' :: (cs ++ ['"']))).result = some (s.done ++ [cs]) ↔
      ∀ c ∈ cs, c ≠ '\\' ∧ c ≠ '"' := by
  constructor
  · intro h
    have hweight := weight_of_result h
    have hstart : s.weight = s.done.flatten.length := by simp [weight, hword, he]
    rw [List.flatten_append, List.length_append, List.flatten_singleton, ← hstart, run_cons,
      run_append, run_cons, run_nil, weight_quote] at hweight
    have hopen : s.step '"' = (s.add []).setQuoted true := by
      rw [step, if_neg (by simp [he]), if_neg (by decide), if_pos rfl, hq]
      rfl
    rw [← weight_quote (s := s)] at hweight
    have hescaped : (s.step '"').escaped = false := by
      rw [hopen]
      exact he
    have hquoted : (s.step '"').quoted = true := by
      rw [hopen]
      rfl
    rcases plain_of_weight hescaped hweight with hplain | ⟨hend, hsame⟩
    · exact fun c hc => ⟨(hplain c hc).1, (hplain c hc).2.1⟩
    · -- the closing quote is escaped, so the quotation stays open
      rw [run_cons, run_append, run_cons, run_nil, step, if_pos hend, result, if_pos] at h
      · cases h
      · exact .inl (hsame.trans hquoted)
  · intro hplain
    rw [run_quotation he hq hplain, result, if_neg (by simp [add, he, hq])]
    simp [add, hword]

/-! ## What is left open -/

/-- Whether a quotation and an escape are open. -/
def flags (s : Scan) : Bool × Bool := (s.quoted, s.escaped)

def stepFlags (open? : Bool × Bool) (c : Char) : Bool × Bool :=
  if open?.2 = true then (open?.1, false)
  else if c = '\\' then (open?.1, true)
  else if c = '"' then (!open?.1, false)
  else (open?.1, false)

theorem flags_step (s : Scan) (c : Char) : (s.step c).flags = stepFlags s.flags c := by
  cases he : s.escaped with
  | true => simp [step, stepFlags, flags, add, setEscaped, he]
  | false =>
      by_cases hback : c = '\\'
      · simp [step, stepFlags, flags, add, setEscaped, he, hback]
      · by_cases hquote : c = '"'
        · simp [step, stepFlags, flags, add, setQuoted, he, hquote]
        · by_cases hblank : s.quoted = false ∧ isBlank c = true
          · rw [step, if_neg (by simp [he]), if_neg hback, if_neg hquote, if_pos hblank]
            simp [stepFlags, flags, he, hback, hquote]
          · rw [step, if_neg (by simp [he]), if_neg hback, if_neg hquote, if_neg hblank]
            simp [stepFlags, flags, add, he, hback, hquote]

theorem flags_run (s : Scan) (cs : List Char) :
    (s.run cs).flags = cs.foldl stepFlags s.flags := by
  induction cs generalizing s with
  | nil => rfl
  | cons c cs ih => rw [run_cons, ih, flags_step, List.foldl_cons]

theorem result_of_quoted (h : s.flags.1 = true) : s.result = none := if_pos (.inl h)

end Scan

/-- No quotation and no escape is open behind the text. -/
def isClosed (cs : List Char) : Bool := cs.foldl Scan.stepFlags (false, false) == (false, false)

end MailFallback.Arguments
