import Mathlib.Data.List.Basic

/-! # Strings as Python handles them -/

namespace PyString

/-- The characters that `str.split()` and `str.strip()` take for white space. -/
def isSpace (c : Char) : Bool :=
  (9 ≤ c.toNat && c.toNat ≤ 13) || (28 ≤ c.toNat && c.toNat ≤ 32) ||
    (0x2000 ≤ c.toNat && c.toNat ≤ 0x200a) ||
    [0x85, 0xa0, 0x1680, 0x2028, 0x2029, 0x202f, 0x205f, 0x3000].contains c.toNat

/-- `str.split()` -/
def split (s : String) : List String :=
  ((s.toList.splitOnP isSpace).filter fun field => !field.isEmpty).map String.ofList

def lstripBy (p : Char → Bool) (s : String) : String := String.ofList (s.toList.dropWhile p)

def rstripBy (p : Char → Bool) (s : String) : String :=
  String.ofList (s.toList.reverse.dropWhile p).reverse

/-- `str.strip()` -/
def strip (s : String) : String := rstripBy isSpace (lstripBy isSpace s)

/-- `str.lstrip(c)` -/
def lstrip (s : String) (c : Char) : String := lstripBy (fun d => d == c) s

/-- `str.rstrip(c)` -/
def rstrip (s : String) (c : Char) : String := rstripBy (fun d => d == c) s

/-- The characters before the first place where a text occurs. -/
def before? (sub : List Char) : List Char → Option (List Char)
  | [] => if sub = [] then some [] else none
  | c :: l => if sub.isPrefixOf (c :: l) then some [] else (before? sub l).map (c :: ·)

/-- `sub in s` -/
def has (s sub : String) : Bool := (before? sub.toList s.toList).isSome

/-- `str.startswith` -/
def startsWith (s pre : String) : Bool := pre.toList.isPrefixOf s.toList

/-- `s[n:]` -/
def drop (s : String) (n : ℕ) : String := String.ofList (s.toList.drop n)

/-- The two outer parts of `str.partition` at a single character. -/
def partition (s : String) (c : Char) : String × String :=
  (String.ofList (s.toList.takeWhile (· ≠ c)), String.ofList ((s.toList.dropWhile (· ≠ c)).drop 1))

/-- `str.split` at a single character. -/
def splitAt (s : String) (c : Char) : List String := (s.toList.splitOn c).map String.ofList

/-- `str.join` with a single character in between. -/
def join (c : Char) (parts : List String) : String :=
  String.ofList ([c].intercalate (parts.map String.toList))

/-- `s[:n]` -/
def take (s : String) (n : ℕ) : String := String.ofList (s.toList.take n)

/-- The characters at which `str.splitlines` ends a line. -/
def isLineBreak (c : Char) : Bool :=
  (10 ≤ c.toNat && c.toNat ≤ 13) || (28 ≤ c.toNat && c.toNat ≤ 30) ||
    [0x85, 0x2028, 0x2029].contains c.toNat

/-- The lines of a text, behind the part of its first line that was read already. -/
def linesAfter (line : List Char) : List Char → List (List Char)
  | [] => if line = [] then [] else [line.reverse]
  | '\r' :: '\n' :: cs => line.reverse :: linesAfter [] cs
  | c :: cs =>
      if isLineBreak c = true then line.reverse :: linesAfter [] cs else linesAfter (c :: line) cs

/-- `str.splitlines()` -/
def splitlines (s : String) : List String := (linesAfter [] s.toList).map String.ofList

example : splitlines "a\r\n\nb\x0c" = ["a", "", "b"] := by decide

/-- `str.replace`, behind `n` characters that belong to an occurrence found before. -/
def replaceFrom (old new : List Char) : ℕ → List Char → List Char
  | _, [] => []
  | n + 1, _ :: cs => replaceFrom old new n cs
  | 0, c :: cs =>
      if old.isPrefixOf (c :: cs) = true then new ++ replaceFrom old new (old.length - 1) cs
      else c :: replaceFrom old new 0 cs

/-- `str.replace` for a text `old` that is not empty. -/
def replace (cs old new : List Char) : List Char := replaceFrom old new 0 cs

example : replace "a--b---".toList "--".toList "/".toList = "a/b/-".toList := by decide

/-- The last field of `str.rsplit` at a single character. -/
def lastField (c : Char) (cs : List Char) : List Char := (cs.reverse.takeWhile (· ≠ c)).reverse

/-- A class that holds of no character of a text, as a test says. -/
theorem none_of_all {p : Char → Bool} {cs : List Char} (h : (cs.all fun c => !p c) = true) :
    ∀ c ∈ cs, p c = false := by
  simpa using h

/-- A character that ends no line. -/
theorem linesAfter_cons {line cs : List Char} {c : Char} (hc : isLineBreak c = false) :
    linesAfter line (c :: cs) = linesAfter (c :: line) cs := by
  have hr : c ≠ '\r' := by
    rintro rfl
    exact absurd hc (by decide)
  rw [linesAfter, if_neg (by simp [hc])]
  exact fun _ hcr => absurd hcr hr

/-- A line ends at the first break. -/
theorem linesAfter_append_break {line cs rest : List Char} {c : Char}
    (h : ∀ c ∈ cs, isLineBreak c = false) (hc : isLineBreak c = true) (hr : c ≠ '\r') :
    linesAfter line (cs ++ c :: rest) = (line.reverse ++ cs) :: linesAfter [] rest := by
  induction cs generalizing line with
  | nil =>
      rw [List.nil_append, List.append_nil, linesAfter, if_pos hc]
      exact fun _ hcr => absurd hcr hr
  | cons d cs ih =>
      obtain ⟨hd, hcs⟩ := List.forall_mem_cons.mp h
      rw [List.cons_append, linesAfter_cons hd, ih hcs, List.reverse_cons, List.append_assoc,
        List.singleton_append]

/-- What remains of the last line is a line, unless it is empty. -/
theorem linesAfter_of_no_break {line cs : List Char} (h : ∀ c ∈ cs, isLineBreak c = false)
    (hne : line ≠ [] ∨ cs ≠ []) : linesAfter line cs = [line.reverse ++ cs] := by
  induction cs generalizing line with
  | nil =>
      have hline : line ≠ [] := hne.resolve_right fun h => h rfl
      rw [linesAfter, if_neg hline, List.append_nil]
  | cons c cs ih =>
      obtain ⟨hc, hcs⟩ := List.forall_mem_cons.mp h
      rw [linesAfter_cons hc, ih hcs (.inl (List.cons_ne_nil _ _)), List.reverse_cons,
        List.append_assoc, List.singleton_append]

/-- Nothing is taken away from a text that neither begins nor ends with white space. -/
theorem strip_ofList {cs : List Char} (hhead : ∀ c ∈ cs.head?, isSpace c = false)
    (hlast : ∀ c ∈ cs.getLast?, isSpace c = false) : strip (String.ofList cs) = String.ofList cs := by
  have hdrop : ∀ l : List Char, (∀ c ∈ l.head?, isSpace c = false) → l.dropWhile isSpace = l := by
    intro l hl
    cases l with
    | nil => rfl
    | cons c l => exact List.dropWhile_cons_of_neg (by simp [hl c rfl])
  have hreverse : cs.reverse.dropWhile isSpace = cs.reverse :=
    hdrop _ fun c hc => hlast c (List.head?_reverse ▸ hc)
  rw [strip, lstripBy, rstripBy, String.toList_ofList, String.toList_ofList, hdrop cs hhead,
    hreverse, List.reverse_reverse]

theorem split_empty : split "" = [] := by
  decide

theorem rstrip_append_replicate {cs : List Char} {c : Char} (n : ℕ) (h : c ∉ cs) :
    rstrip (String.ofList (cs ++ List.replicate n c)) c = String.ofList cs := by
  have hdrop : (cs ++ List.replicate n c).reverse.dropWhile (fun d => d == c) = cs.reverse := by
    rw [List.reverse_append, List.reverse_replicate,
      List.dropWhile_append_of_pos fun d hd => by simp [List.eq_of_mem_replicate hd]]
    cases hcs : cs.reverse with
    | nil => rfl
    | cons d ds =>
        have hd : d ∈ cs := List.mem_reverse.mp (hcs ▸ List.mem_cons_self)
        have hne : d ≠ c := by
          rintro rfl
          exact h hd
        simp [hne]
  rw [rstrip, rstripBy, String.toList_ofList, hdrop, List.reverse_reverse]

/-! ## Replacement -/

variable {old new cs : List Char} {c d x : Char}

theorem replaceFrom_eq (old new : List Char) (n : ℕ) (cs : List Char) :
    replaceFrom old new n cs = replace (cs.drop n) old new := by
  induction n generalizing cs with
  | zero => rfl
  | succ n ih =>
      cases cs with
      | nil => rfl
      | cons c cs => exact ih cs

@[simp] theorem replace_nil : replace [] old new = [] := rfl

theorem replace_occurrence (rest : List Char) (hne : old ≠ []) :
    replace (old ++ rest) old new = new ++ replace rest old new := by
  cases old with
  | nil => exact absurd rfl hne
  | cons c old =>
      have hpre : (c :: old).isPrefixOf (c :: (old ++ rest)) = true :=
        List.isPrefixOf_iff_prefix.mpr ⟨rest, rfl⟩
      rw [List.cons_append, replace, replaceFrom, if_pos hpre, replaceFrom_eq, List.length_cons,
        Nat.add_sub_cancel, List.drop_left]

theorem replace_cons_of_not (h : ¬ old <+: c :: cs) :
    replace (c :: cs) old new = c :: replace cs old new := by
  rw [replace, replaceFrom, if_neg fun hpre => h (List.isPrefixOf_iff_prefix.mp hpre)]
  rfl

/-- A text in which the first character does not occur stays as it is. -/
theorem replace_of_not_mem (h : c ∉ cs) : replace cs (c :: old) new = cs := by
  induction cs with
  | nil => rfl
  | cons d cs ih =>
      obtain ⟨hd, hcs⟩ := not_or.mp (List.mem_cons.not.mp h)
      rw [replace_cons_of_not fun hpre => hd (List.cons_prefix_cons.mp hpre).1, ih hcs]

theorem mem_replaceFrom {x : Char} {n : ℕ} (h : x ∈ replaceFrom old new n cs) :
    x ∈ cs ∨ x ∈ new := by
  induction cs generalizing n with
  | nil => cases n <;> simp [replaceFrom] at h
  | cons c cs ih =>
      have hrest : ∀ m, x ∈ replaceFrom old new m cs → x ∈ c :: cs ∨ x ∈ new := by
        intro m hm
        exact (ih hm).imp (List.mem_cons_of_mem c) id
      cases n with
      | succ n => exact hrest n h
      | zero =>
          rw [replaceFrom] at h
          split at h
          · exact (List.mem_append.mp h).elim Or.inr (hrest _)
          · exact (List.mem_cons.mp h).elim (fun heq => .inl (heq ▸ .head cs)) (hrest 0)

theorem mem_replace {x : Char} (h : x ∈ replace cs old new) : x ∈ cs ∨ x ∈ new :=
  mem_replaceFrom h

/-- A single character is replaced wherever it stands. -/
theorem replace_char : replace cs [c] [d] = cs.map fun x => if x = c then d else x := by
  induction cs with
  | nil => rfl
  | cons x cs ih =>
      rw [List.map_cons, ← ih]
      split
      · rename_i hx
        subst hx
        exact replace_occurrence cs (List.cons_ne_nil _ _)
      · rename_i hx
        exact replace_cons_of_not fun hpre => hx (List.cons_prefix_cons.mp hpre).1.symm

/-- What holds of the empty text, of an occurrence and of a character that starts none. -/
theorem replace_induction (old : List Char) {P : List Char → Prop} (hne : old ≠ []) (hnil : P [])
    (hold : ∀ rest, P rest → P (old ++ rest))
    (hcons : ∀ c cs, ¬ old <+: c :: cs → P cs → P (c :: cs)) (cs : List Char) : P cs := by
  induction hn : cs.length using Nat.strongRecOn generalizing cs with
  | ind n ih =>
      cases cs with
      | nil => exact hnil
      | cons c cs =>
          by_cases hpre : old <+: c :: cs
          · obtain ⟨rest, hrest⟩ := hpre
            rw [← hrest] at hn ⊢
            have hpos := List.length_pos_iff.mpr hne
            rw [List.length_append] at hn
            exact hold rest (ih rest.length (by omega) rest rfl)
          · exact hcons c cs hpre (ih cs.length (by simp at hn; omega) cs rfl)

/-- Characters of neither text are as many as before. -/
theorem count_replace (hne : old ≠ []) (hold : x ∉ old) (hnew : x ∉ new) (cs : List Char) :
    (replace cs old new).count x = cs.count x := by
  induction cs using replace_induction old with
  | hne => exact hne
  | hnil => rfl
  | hold rest ih =>
      rw [replace_occurrence rest hne, List.count_append, List.count_append, ih,
        List.count_eq_zero_of_not_mem hold, List.count_eq_zero_of_not_mem hnew]
  | hcons c cs hpre ih => rw [replace_cons_of_not hpre, List.count_cons, List.count_cons, ih]

theorem length_replace_le (hne : old ≠ []) (hlen : new.length ≤ old.length) (cs : List Char) :
    (replace cs old new).length ≤ cs.length := by
  induction cs using replace_induction old with
  | hne => exact hne
  | hnil => exact Nat.le_refl 0
  | hold rest ih =>
      rw [replace_occurrence rest hne, List.length_append, List.length_append]
      omega
  | hcons c cs hpre ih =>
      rw [replace_cons_of_not hpre, List.length_cons, List.length_cons]
      omega

/-! ## The last field -/

theorem takeWhile_reverse_append (rest : List Char) (h : c ∉ cs) :
    (cs.reverse ++ rest).takeWhile (· ≠ c) = cs.reverse ++ rest.takeWhile (· ≠ c) :=
  List.takeWhile_append_of_pos fun _ hd =>
    decide_eq_true fun hdc => h (hdc ▸ List.mem_reverse.mp hd)

theorem lastField_of_not_mem (h : c ∉ cs) : lastField c cs = cs := by
  have hall := takeWhile_reverse_append [] h
  rw [List.append_nil, List.takeWhile_nil, List.append_nil] at hall
  rw [lastField, hall, List.reverse_reverse]

theorem lastField_append (pre : List Char) (h : c ∉ cs) : lastField c (pre ++ c :: cs) = cs := by
  have hstop : (c :: pre.reverse).takeWhile (· ≠ c) = [] :=
    List.takeWhile_cons_of_neg (by simp)
  rw [lastField, List.reverse_append, List.reverse_cons, List.append_assoc, List.singleton_append,
    takeWhile_reverse_append _ h, hstop, List.append_nil, List.reverse_reverse]

end PyString
