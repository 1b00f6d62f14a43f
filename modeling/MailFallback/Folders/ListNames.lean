import MailFallback.Folders.Correctness
import MailFallback.Folders.Listing
import Mathlib.Data.List.Dedup
import Mathlib.Data.List.ReduceOption

/-! # Which listed names are read right

The two expressions and the fallback stand for the grammar. A name is read right unless it needs an
escape that the worker does not undo, or a letter case that it does not fold. -/

namespace MailFallback

open PyString Regex

variable {cs rest name p x y : List Char} {c : Char} {d : Option Char} {e : ListEntry}

/-! ## Quoted text -/

@[simp] theorem escaped_nil : escaped [] = [] := rfl

theorem escaped_cons (c : Char) (cs : List Char) :
    escaped (c :: cs) = (if c = '"' ∨ c = '\\' then ['\\', c] else [c]) ++ escaped cs :=
  List.flatMap_cons

theorem escaped_append (x y : List Char) : escaped (x ++ y) = escaped x ++ escaped y :=
  List.flatMap_append

theorem escaped_of_plain (hq : '"' ∉ cs) (hb : '\\' ∉ cs) : escaped cs = cs := by
  induction cs with
  | nil => rfl
  | cons c cs ih =>
      simp only [List.mem_cons, not_or] at hq hb
      rw [escaped_cons, if_neg (not_or.mpr ⟨Ne.symm hq.1, Ne.symm hb.1⟩), ih hq.2 hb.2]
      rfl

/-- Only backslashes are added. -/
theorem count_escaped (hc : c ≠ '\\') (cs : List Char) :
    (escaped cs).count c = cs.count c := by
  induction cs with
  | nil => rfl
  | cons d cs ih =>
      rw [escaped_cons, List.count_append, ih, List.count_cons]
      split
      · have hb : ('\\' == c) = false := beq_false_of_ne hc.symm
        rw [List.count_cons, List.count_singleton, hb, if_neg Bool.false_ne_true]
        omega
      · rw [List.count_singleton]
        omega

theorem mem_escaped (hc : c ≠ '\\') : c ∈ escaped cs ↔ c ∈ cs := by
  rw [← List.count_pos_iff, ← List.count_pos_iff, count_escaped hc]

/-- One for each character that is escaped. -/
theorem length_escaped (cs : List Char) :
    (escaped cs).length = cs.length + cs.count '"' + cs.count '\\' := by
  induction cs with
  | nil => rfl
  | cons c cs ih =>
      rw [escaped_cons, List.length_append, ih, List.count_cons, List.count_cons, List.length_cons]
      by_cases hq : c = '"'
      · subst hq
        simp
        omega
      · by_cases hb : c = '\\'
        · subst hb
          simp
          omega
        · simp [hq, hb]
          omega

theorem count_backslash_escaped (cs : List Char) :
    (escaped cs).count '\\' = cs.count '"' + 2 * cs.count '\\' := by
  induction cs with
  | nil => rfl
  | cons c cs ih =>
      rw [escaped_cons, List.count_append, ih, List.count_cons, List.count_cons]
      by_cases hq : c = '"'
      · subst hq
        simp
        omega
      · by_cases hb : c = '\\'
        · subst hb
          simp
          omega
        · simp [hq, hb]

/-! ## Turning the delimiter -/

theorem count_slashed (hc : c ≠ '/') (hd : some c ≠ d) (cs : List Char) :
    (slashed d cs).count c = cs.count c := by
  induction cs with
  | nil => rfl
  | cons x cs ih =>
      rw [slashed, List.map_cons, List.count_cons, List.count_cons]
      rw [slashed] at ih
      rw [ih]
      split
      · rename_i hx
        have hxc : x ≠ c := fun h => hd (h ▸ hx)
        simp [Ne.symm hc, hxc]
      · rfl

theorem mem_slashed (hc : c ≠ '/') (hd : some c ≠ d) : c ∈ slashed d cs ↔ c ∈ cs := by
  rw [← List.count_pos_iff, ← List.count_pos_iff, count_slashed hc hd]

theorem not_mem_slashed (hc : c ≠ '/') : c ∉ slashed (some c) cs := by
  intro h
  obtain ⟨x, -, hx⟩ := List.mem_map.mp h
  split at hx
  · exact hc hx.symm
  · rename_i hne
    exact hne (congrArg some hx)

theorem slashed_of_not_mem (h : c ∉ cs) : slashed (some c) cs = cs := by
  conv_rhs => rw [← List.map_id cs]
  refine List.map_congr_left fun x hx => if_neg fun he => ?_
  exact h ((Option.some.inj he : x = c) ▸ hx)

theorem length_slashed : (slashed d cs).length = cs.length := List.length_map _

/-- What the worker makes of the delimiter, which it takes as it is quoted. -/
def workerSlashed (d : Option Char) (cs : List Char) : List Char :=
  if d = some '\\' then replace cs ['\\', '\\'] ['/']
  else if d = some '"' then slashed (some '\\') cs
  else slashed d cs

theorem workerSlashed_of_plain (hq : '"' ∉ cs) (hb : '\\' ∉ cs) :
    workerSlashed d cs = slashed d cs := by
  rw [workerSlashed]
  split
  · rename_i hd
    subst hd
    rw [replace_of_not_mem hb, slashed_of_not_mem hb]
  · split
    · rename_i hd
      subst hd
      rw [slashed_of_not_mem hb, slashed_of_not_mem hq]
    · rfl

theorem count_quote_workerSlashed (cs : List Char) :
    (workerSlashed d cs).count '"' = cs.count '"' := by
  rw [workerSlashed]
  split
  · exact count_replace (List.cons_ne_nil _ _) (by decide) (by decide) cs
  · split
    · exact count_slashed (by decide) (by decide) cs
    · rename_i hd
      exact count_slashed (by decide) (Ne.symm hd) cs

theorem count_space_workerSlashed (hd : d ≠ some ' ') (cs : List Char) :
    (workerSlashed d cs).count ' ' = cs.count ' ' := by
  rw [workerSlashed]
  split
  · exact count_replace (List.cons_ne_nil _ _) (by decide) (by decide) cs
  · split
    · exact count_slashed (by decide) (by decide) cs
    · exact count_slashed (by decide) (Ne.symm hd) cs

/-- Pairs of backslashes are what a quoted text has for its backslashes. -/
theorem replace_escaped (hq : '"' ∉ cs) :
    replace (escaped cs) ['\\', '\\'] ['/'] = slashed (some '\\') cs := by
  induction cs with
  | nil => rfl
  | cons c cs ih =>
      simp only [List.mem_cons, not_or] at hq
      rw [escaped_cons, slashed, List.map_cons, ← slashed, ← ih hq.2]
      split
      · rename_i hc
        have hb : c = '\\' := hc.resolve_left (Ne.symm hq.1)
        subst hb
        exact replace_occurrence _ (List.cons_ne_nil _ _)
      · rename_i hc
        rw [List.singleton_append, replace_cons_of_not, if_neg]
        · exact fun h => hc (.inr (Option.some.inj h))
        · exact fun h => hc (.inr (List.cons_prefix_cons.mp h).1.symm)

/-- Text that is not quoted has its backslashes one by one. -/
theorem replace_ne_slashed (h : '\\' ∈ cs) :
    replace cs ['\\', '\\'] ['/'] ≠ slashed (some '\\') cs := by
  induction cs with
  | nil => cases h
  | cons c cs ih =>
      intro heq
      by_cases hpre : ['\\', '\\'] <+: c :: cs
      · obtain ⟨rest, hrest⟩ := hpre
        have hlen := congrArg List.length heq
        rw [← hrest, replace_occurrence rest (List.cons_ne_nil _ _), length_slashed] at hlen
        have hle : (replace rest ['\\', '\\'] ['/']).length ≤ rest.length :=
          length_replace_le (List.cons_ne_nil _ _) (by decide) rest
        simp at hlen
        omega
      · rw [replace_cons_of_not hpre, slashed, List.map_cons, ← slashed] at heq
        obtain ⟨hhead, htail⟩ := List.cons.inj heq
        split at hhead
        · rename_i hc
          rw [Option.some.inj hc] at hhead
          exact absurd hhead (by decide)
        · rename_i hc
          exact ih ((List.mem_cons.mp h).resolve_left fun hb => hc (congrArg some hb.symm)) htail

/-! ## The inbox -/

/-- Only letters are folded. -/
theorem canonicalName_of_mem (h : c ∈ cs) (hc : c.toLower ∉ "inbox".toList) :
    canonicalName cs = cs := by
  rw [canonicalName, if_neg]
  intro heq
  exact hc (heq ▸ List.mem_map_of_mem h)

theorem slashed_canonicalName :
    slashed d cs = slashed d (canonicalName cs) ↔ canonicalName cs = cs := by
  refine ⟨fun h => ?_, fun h => by rw [h]⟩
  rw [canonicalName] at h ⊢
  split at h
  · rename_i hinbox
    rw [if_pos hinbox]
    -- letter by letter: neither of two letters is a slash
    have hletter : ∀ x y : Char, x ≠ '/' → y ≠ '/' →
        (if some x = d then '/' else x) = (if some y = d then '/' else y) → x = y := by
      intro x y hx hy hxy
      split at hxy <;> split at hxy
      · rename_i h1 h2
        exact Option.some.inj (h1.trans h2.symm)
      · exact absurd hxy.symm hy
      · exact absurd hxy hx
      · exact hxy
    have hslash : '/' ∉ cs := by
      intro hmem
      have := List.mem_map_of_mem (f := Char.toLower) hmem
      rw [hinbox] at this
      exact absurd this (by decide)
    have hslash' : '/' ∉ "INBOX".toList := by decide
    generalize "INBOX".toList = inbox at h hslash' ⊢
    clear hinbox
    induction cs generalizing inbox with
    | nil =>
        cases inbox with
        | nil => rfl
        | cons y inbox => cases h
    | cons x cs ih =>
        cases inbox with
        | nil => cases h
        | cons y inbox =>
            simp only [List.mem_cons, not_or] at hslash hslash'
            obtain ⟨hhead, htail⟩ := List.cons.inj h
            rw [hletter x y (Ne.symm hslash.1) (Ne.symm hslash'.1) hhead,
              ih hslash.2 inbox htail hslash'.2]
  · rename_i hinbox
    rw [if_neg hinbox]

/-! ## Flags -/

theorem infix_cons_of_ne (hc : c ≠ '\\') : '\\' :: p <:+: c :: y ↔ '\\' :: p <:+: y := by
  rw [List.infix_cons_iff, or_iff_right]
  exact fun h => hc (List.cons_prefix_cons.mp h).1.symm

theorem infix_append_of_not_mem (hx : '\\' ∉ x) :
    '\\' :: p <:+: x ++ y ↔ '\\' :: p <:+: y := by
  induction x with
  | nil => rfl
  | cons c x ih =>
      simp only [List.mem_cons, not_or] at hx
      rw [List.cons_append, infix_cons_of_ne (Ne.symm hx.1), ih hx.2]

theorem infix_backslash : '\\' :: p <:+: '\\' :: y ↔ p <+: y ∨ '\\' :: p <:+: y := by
  rw [List.infix_cons_iff, List.cons_prefix_cons, and_iff_right rfl]

/-- A word does not reach beyond a character that it has not got. -/
theorem prefix_before (hc : c ∉ p) : p <+: x ++ c :: y ↔ p <+: x := by
  induction p generalizing x with
  | nil => simp
  | cons a p ih =>
      simp only [List.mem_cons, not_or] at hc
      cases x with
      | nil =>
          refine iff_of_false (fun h => hc.1 ?_) fun h => by cases List.prefix_nil.mp h
          exact (List.cons_prefix_cons.mp h).1.symm
      | cons b x =>
          rw [List.cons_append, List.cons_prefix_cons, List.cons_prefix_cons, ih hc.2]

/-- A word without special characters is not changed by quoting. -/
theorem prefix_escaped (hq : '"' ∉ p) (hb : '\\' ∉ p) :
    p <+: escaped cs ++ ['"'] ↔ p <+: cs := by
  induction cs generalizing p with
  | nil => exact prefix_before hq
  | cons c cs ih =>
      cases p with
      | nil => simp
      | cons a p =>
          simp only [List.mem_cons, not_or] at hq hb
          rw [escaped_cons, List.cons_prefix_cons]
          split
          · rename_i hc
            refine iff_of_false (fun h => hb.1 (List.cons_prefix_cons.mp h).1.symm) fun h => ?_
            rcases hc with hc | hc
            · exact hq.1 (h.1.trans hc).symm
            · exact hb.1 (h.1.trans hc).symm
          · rw [List.singleton_append, List.cons_append, List.cons_prefix_cons, ih hq.2 hb.2]

theorem infix_quoted (hq : '"' ∉ p) (hb : '\\' ∉ p) (hne : p ≠ []) :
    '\\' :: p <:+: quoted cs ↔ '\\' :: p <:+: cs := by
  have hbody : '\\' :: p <:+: escaped cs ++ ['"'] ↔ '\\' :: p <:+: cs := by
    induction cs with
    | nil => rw [escaped_nil, List.nil_append, infix_cons_of_ne (by decide)]
    | cons c cs ih =>
        rw [escaped_cons, List.append_assoc]
        by_cases hc : c = '"' ∨ c = '\\'
        · have hnot : ∀ {y}, ¬ p <+: c :: y := by
            intro y h
            cases p with
            | nil => exact hne rfl
            | cons a p =>
                have ha := (List.cons_prefix_cons.mp h).1
                rcases hc with hc | hc
                · exact hq (by rw [ha, hc]; exact List.mem_cons_self)
                · exact hb (by rw [ha, hc]; exact List.mem_cons_self)
          rw [if_pos hc, List.cons_append, infix_backslash, List.singleton_append, or_iff_right hnot]
          by_cases hcb : c = '\\'
          · subst hcb
            rw [infix_backslash, infix_backslash, ih, prefix_escaped hq hb]
          · rw [infix_cons_of_ne hcb, infix_cons_of_ne hcb, ih]
        · have hcb : c ≠ '\\' := fun h => hc (.inr h)
          rw [if_neg hc, List.singleton_append, infix_cons_of_ne hcb, infix_cons_of_ne hcb, ih]
  rw [quoted, infix_cons_of_ne (by decide), hbody]

theorem isAtomChar_ne {c d : Char} (h : isAtomChar c = true)
    (hd : isAtomChar d = false) : c ≠ d := by
  rintro rfl
  rw [h] at hd
  cases hd

theorem Flag.not_mem (f : Flag) (hc : isAtomChar c = false) : c ∉ f.name :=
  fun h => isAtomChar_ne (f.atom c h) hc rfl

/-- A worded flag is found where a flag begins with it, or later. -/
theorem infix_flagsText (hspace : ' ' ∉ p) (hclose : ')' ∉ p) (flags : List Flag) :
    '\\' :: p <:+: [' '].intercalate (flags.map fun f => '\\' :: f.name) ++ ')' :: y ↔
      (∃ f ∈ flags, p <+: f.name) ∨ '\\' :: p <:+: y := by
  induction flags with
  | nil => simp [infix_cons_of_ne]
  | cons f flags ih =>
      have hname : '\\' ∉ f.name := f.not_mem (by decide)
      rw [List.exists_mem_cons_iff]
      cases flags with
      | nil =>
          simp only [List.map_cons, List.map_nil, List.intercalate_singleton, List.cons_append]
          rw [infix_backslash, prefix_before hclose, infix_append_of_not_mem hname,
            infix_cons_of_ne (by decide)]
          simp
      | cons g flags =>
          simp only [List.map_cons, List.intercalate_cons_cons, List.cons_append,
            List.append_assoc, List.nil_append] at ih ⊢
          rw [infix_backslash, prefix_before hspace, infix_append_of_not_mem hname,
            infix_cons_of_ne (by decide), ih, or_assoc]

/-- The worker takes the mailbox for one that cannot be selected. -/
def ListEntry.SaysNoselect (e : ListEntry) : Prop :=
  (∃ f ∈ e.flags, "Noselect".toList <+: f.name) ∨
    ∃ cs h, e.mailbox = .quoted cs h ∧ "\\Noselect".toList <:+: cs

theorem Delimiter.infix_text (delimiter : Delimiter) (hq : '"' ∉ p) (hb : '\\' ∉ p) (hne : p ≠ [])
    (hspace : ' ' ∉ p) : '\\' :: p <:+: delimiter.text ++ ' ' :: y ↔ '\\' :: p <:+: y := by
  cases delimiter with
  | nil spelling h =>
      have hspelling : '\\' ∉ spelling := by
        intro hmem
        have := List.mem_map_of_mem (f := Char.toLower) hmem
        rw [h] at this
        exact absurd this (by decide)
      rw [Delimiter.text, infix_append_of_not_mem hspelling, infix_cons_of_ne (by decide)]
  | char c h =>
      -- behind a backslash stand a quote or a backslash and a quote
      have hquote : ∀ {y}, ¬ p <+: '"' :: y := by
        intro y hpre
        cases p with
        | nil => exact hne rfl
        | cons a p => exact hq ((List.cons_prefix_cons.mp hpre).1 ▸ List.mem_cons_self)
      have hbackslash : ∀ {y}, ¬ p <+: '\\' :: y := by
        intro y hpre
        cases p with
        | nil => exact hne rfl
        | cons a p => exact hb ((List.cons_prefix_cons.mp hpre).1 ▸ List.mem_cons_self)
      have hquoteText : '\\' :: p <:+: '"' :: ' ' :: y ↔ '\\' :: p <:+: y := by
        rw [infix_cons_of_ne (by decide), infix_cons_of_ne (by decide)]
      rw [Delimiter.text, quoted, List.cons_append, infix_cons_of_ne (by decide), escaped_cons,
        escaped_nil, List.append_nil, List.append_assoc, List.singleton_append]
      split
      · rename_i hc
        rw [List.cons_append, infix_backslash, List.singleton_append]
        rcases hc with rfl | rfl
        · rw [or_iff_right hquote, infix_cons_of_ne (by decide), hquoteText]
        · rw [or_iff_right hbackslash, infix_backslash, or_iff_right hquote, hquoteText]
      · rename_i hc
        rw [List.singleton_append, infix_cons_of_ne fun hcb => hc (.inr hcb), hquoteText]

theorem saysNoselect_iff : "\\Noselect".toList <:+: e.text ↔ e.SaysNoselect := by
  have hq : '"' ∉ "Noselect".toList := by decide
  have hb : '\\' ∉ "Noselect".toList := by decide
  have hspace : ' ' ∉ "Noselect".toList := by decide
  have hne : "Noselect".toList ≠ [] := by decide
  have hflag : "\\Noselect".toList = '\\' :: "Noselect".toList := rfl
  have hmailbox : '\\' :: "Noselect".toList <:+: e.mailbox.text ↔
      ∃ cs h, e.mailbox = .quoted cs h ∧ '\\' :: "Noselect".toList <:+: cs := by
    have hplain : ∀ {x}, '\\' ∉ x → ¬ '\\' :: "Noselect".toList <:+: x :=
      fun hx h => hx (h.subset List.mem_cons_self)
    cases e.mailbox with
    | atom cs hcs h =>
        refine iff_of_false (hplain fun hmem => ?_) fun ⟨_, _, h, _⟩ => by cases h
        exact absurd (h _ hmem) (by decide)
    | quoted cs h =>
        rw [MailboxText.text, infix_quoted hq hb hne]
        exact ⟨fun hinfix => ⟨cs, h, rfl, hinfix⟩, fun ⟨_, _, heq, hinfix⟩ => by
          cases heq
          exact hinfix⟩
    | literal content =>
        refine iff_of_false (hplain fun hmem => ?_) fun ⟨_, _, h, _⟩ => by cases h
        rw [MailboxText.text, List.mem_cons, List.mem_append, List.mem_singleton] at hmem
        rcases hmem with hmem | hmem | hmem
        · exact absurd hmem (by decide)
        · rw [Nat.toList_repr] at hmem
          exact absurd (Nat.isDigit_of_mem_toDigits (by decide) (by decide) hmem) (by decide)
        · exact absurd hmem (by decide)
  rw [hflag, ListEntry.text, infix_cons_of_ne (by decide), ListEntry.flagsText,
    infix_flagsText hspace (by decide), infix_cons_of_ne (by decide),
    Delimiter.infix_text _ hq hb hne hspace, hmailbox]
  rfl

/-! ## The delimiter -/

/-- The text of the delimiter between its quotes, up to the first of them. -/
def Delimiter.worker : Delimiter → Option (List Char)
  | .nil _ _ => none
  | .char c _ => some (if c = '"' then ['\\'] else escaped [c])

theorem toLower_eq_n {c : Char} (h : c.toLower = 'n') : c = 'n' ∨ c = 'N' := by
  rw [Char.toLower] at h
  split at h
  · have hval : c.val + 32 = 110 := congrArg Char.val h
    have hupper : c.val = 78 := by grind
    exact .inr (Char.ext hupper)
  · exact .inl h

/-- What the expression takes for the delimiter. -/
theorem mem_listDelimRe {m : Place} (h : m ∈ listDelimRe.run ⟨true, cs, []⟩) :
    ∃ flags space rest, cs = '(' :: (flags ++ ')' :: (space ++ rest)) ∧
      (∀ c ∈ flags, (c != ')') = true) ∧ (∀ c ∈ space, isSpace c = true) ∧
      ((∃ x after, rest = '"' :: (x ++ '"' :: after) ∧ (∀ c ∈ x, notQuote c = true) ∧
        m.groups = [(1, x)]) ∨ (∃ after, rest = "NIL".toList ++ after) ∧ m.groups = []) := by
  simp only [listDelimRe, all, mem_run_seq, mem_run_start, mem_run_lit, mem_run_star, mem_run_plus,
    mem_run_alt, mem_run_group] at h
  obtain ⟨_, ⟨-, rfl⟩, _, ⟨_, hopen, rfl⟩, _, ⟨flags, _, hflags, hplain, rfl⟩, _,
    ⟨_, hclose, rfl⟩, _, ⟨space, rest, hne, hspace, hblank, rfl⟩, hdelim⟩ := h
  simp only [Place.move_rest] at hopen hflags hclose hspace
  subst hspace hclose hflags hopen
  refine ⟨flags, space, rest, rfl, hplain, hblank, ?_⟩
  rcases hdelim with ⟨_, ⟨_, hquote, rfl⟩, _, ⟨_, ⟨x, after, hx, hnot, rfl⟩, rfl⟩, _, hend, rfl⟩ |
    ⟨after, hnil, rfl⟩
  · left
    simp only [Place.move_rest, Place.move_groups] at hquote hx hend ⊢
    subst hx hend hquote
    exact ⟨x, _, rfl, hnot, by rw [take_taken]⟩
  · exact .inr ⟨⟨after, hnil⟩, rfl⟩

theorem exists_mem_listDelimRe {flags x after : List Char} (hflags : ')' ∉ flags) (hx : '"' ∉ x) :
    listDelimRe.run
      ⟨true, '(' :: (flags ++ ')' :: ' ' :: ('"' :: (x ++ '"' :: after))), []⟩ ≠ [] := by
  have hmem : ∃ m, m ∈ listDelimRe.run
      ⟨true, '(' :: (flags ++ ')' :: ' ' :: ('"' :: (x ++ '"' :: after))), []⟩ := by
    simp only [listDelimRe, all, mem_run_seq, mem_run_start, mem_run_lit, mem_run_star,
      mem_run_plus, mem_run_alt, mem_run_group]
    refine ⟨_, _, ⟨trivial, rfl⟩, _, ⟨flags ++ ')' :: ' ' :: ('"' :: (x ++ '"' :: after)), rfl, rfl⟩, _,
      ⟨flags, ')' :: ' ' :: ('"' :: (x ++ '"' :: after)), rfl, ?_, rfl⟩, _,
      ⟨' ' :: ('"' :: (x ++ '"' :: after)), rfl, rfl⟩, _,
      ⟨[' '], '"' :: (x ++ '"' :: after), List.cons_ne_nil _ _, rfl, ?_, rfl⟩,
      .inl ⟨_, ⟨x ++ '"' :: after, rfl, rfl⟩, _, ⟨_, ⟨x, '"' :: after, rfl, ?_, rfl⟩, rfl⟩, after,
        rfl, rfl⟩⟩
    · exact fun c hc => bne_iff_ne.mpr fun h => hflags (h ▸ hc)
    · exact fun c hc => List.mem_singleton.mp hc ▸ rfl
    · exact fun c hc => bne_iff_ne.mpr fun h => hx (h ▸ hc)
  obtain ⟨m, hm⟩ := hmem
  exact List.ne_nil_of_mem hm

/-- A line has its flags in parentheses and its delimiter behind them. -/
theorem listDelimiter_text (flags : List Char) (delimiter : Delimiter) (rest : List Char)
    (hflags : ')' ∉ flags) :
    listDelimiter ('(' :: (flags ++ ')' :: ' ' :: (delimiter.text ++ ' ' :: rest))) =
      delimiter.worker := by
  have hclose : ((')' : Char) != ')') = false := by decide
  have hflags' : ∀ c ∈ flags, (c != ')') = true :=
    fun c hc => bne_iff_ne.mpr fun h => hflags (h ▸ hc)
  have hblank : ∀ c ∈ [' '], isSpace c = true := fun c hc => List.mem_singleton.mp hc ▸ rfl
  have hquote : isSpace '"' = false := by decide
  rw [listDelimiter, match?]
  cases delimiter with
  | nil spelling h =>
      cases hm : (listDelimRe.run ⟨true, '(' :: (flags ++ ')' :: ' ' ::
          ((Delimiter.nil spelling h).text ++ ' ' :: rest)), []⟩).head? with
      | none => rfl
      | some m =>
          obtain ⟨flags', space, rest', heq, hplain, hspace, hdelim⟩ :=
            mem_listDelimRe (List.mem_of_mem_head? hm)
          rcases hdelim with ⟨x, after, rfl, -, -⟩ | ⟨-, hgroups⟩
          · -- a letter stands where the quote should
            obtain ⟨-, -, htail⟩ := taken_unique hflags' hclose hplain hclose (List.cons.inj heq).2
            cases spelling with
            | nil => cases h
            | cons c spelling =>
                have hc := toLower_eq_n (List.cons.inj h).1
                have hletter : isSpace c = false := by rcases hc with rfl | rfl <;> decide
                obtain ⟨-, rfl, -⟩ := taken_unique hblank hletter hspace hquote htail
                exact absurd hc (by decide)
          · rw [Option.bind_some, Place.has, hgroups]
            rfl
  | char c h =>
      have hfirst : ∃ x after, quoted [c] ++ ' ' :: rest = '"' :: (x ++ '"' :: after) ∧ '"' ∉ x ∧
          x = if c = '"' then ['\\'] else escaped [c] := by
        by_cases hc : c = '"'
        · subst hc
          exact ⟨['\\'], '"' :: ' ' :: rest, rfl, by decide, rfl⟩
        · refine ⟨escaped [c], ' ' :: rest, by simp [quoted], ?_, (if_neg hc).symm⟩
          rw [mem_escaped (by decide), List.mem_singleton]
          exact Ne.symm hc
      obtain ⟨x, after, htext, hx, hworker⟩ := hfirst
      rw [Delimiter.text, Delimiter.worker, htext, ← hworker]
      cases hm : (listDelimRe.run
          ⟨true, '(' :: (flags ++ ')' :: ' ' :: ('"' :: (x ++ '"' :: after))), []⟩).head? with
      | none => exact absurd (List.head?_eq_none_iff.mp hm) (exists_mem_listDelimRe hflags hx)
      | some m =>
          obtain ⟨flags', space, rest', heq, hplain, hspace, hdelim⟩ :=
            mem_listDelimRe (List.mem_of_mem_head? hm)
          obtain ⟨-, -, htail⟩ := taken_unique hflags' hclose hplain hclose (List.cons.inj heq).2
          have hx' : ∀ c ∈ x, notQuote c = true :=
            fun c hc => bne_iff_ne.mpr fun h => hx (h ▸ hc)
          rcases hdelim with ⟨x', after', rfl, hnot, hgroups⟩ | ⟨⟨after', rfl⟩, -⟩
          · obtain ⟨-, -, hrest⟩ := taken_unique hblank hquote hspace hquote htail
            obtain ⟨rfl, -, -⟩ := taken_unique hx' (by decide) hnot (by decide) hrest
            rw [Option.bind_some, Place.has, Place.group, hgroups]
            rfl
          · obtain ⟨-, hN, -⟩ := taken_unique hblank hquote hspace (by decide) htail
            exact absurd hN (by decide)

/-! ## The name on a line -/

/-- What the expression takes for the name. -/
theorem mem_listNameRe {m : Place} {start : Bool} (h : m ∈ listNameRe.run ⟨start, cs, []⟩) :
    ∃ name space, cs = '"' :: (name ++ '"' :: space) ∧ name ≠ [] ∧
      (∀ c ∈ name, notQuote c = true) ∧ (∀ c ∈ space, isSpace c = true) ∧ m.group 1 = name := by
  simp only [listNameRe, all, mem_run_seq, mem_run_lit, mem_run_star, mem_run_plus, mem_run_group,
    mem_run_stop] at h
  obtain ⟨_, ⟨_, hopen, rfl⟩, _, ⟨_, ⟨name, _, hne, hname, hnot, rfl⟩, rfl⟩, _, ⟨_, hclose, rfl⟩, _,
    ⟨space, rest, hspace, hblank, rfl⟩, hstop, rfl⟩ := h
  simp only [Place.move_rest] at hopen hname hclose hspace hstop
  subst hspace hclose hname hopen
  refine ⟨name, space ++ rest, rfl, hne, hnot, ?_, ?_⟩
  · intro c hc
    rcases List.mem_append.mp hc with hc | hc
    · exact hblank c hc
    · rcases hstop with rfl | rfl
      · cases hc
      · exact List.mem_singleton.mp hc ▸ rfl
  · simp only [Place.group, Place.move_groups, Place.move_rest, take_taken]
    rfl

theorem run_listNameRe_ne_nil (start : Bool) (hne : name ≠ []) (hname : '"' ∉ name) :
    listNameRe.run ⟨start, '"' :: (name ++ ['"']), []⟩ ≠ [] := by
  have hmem : ∃ m, m ∈ listNameRe.run ⟨start, '"' :: (name ++ ['"']), []⟩ := by
    simp only [listNameRe, all, mem_run_seq, mem_run_lit, mem_run_star, mem_run_plus,
      mem_run_group, mem_run_stop]
    refine ⟨_, _, ⟨name ++ ['"'], rfl, rfl⟩, _, ⟨_, ⟨name, ['"'], hne, rfl, ?_, rfl⟩, rfl⟩, _,
      ⟨[], rfl, rfl⟩, _, ⟨[], [], rfl, ?_, rfl⟩, .inl rfl, rfl⟩
    · exact fun c hc => bne_iff_ne.mpr fun h => hname (h ▸ hc)
    · intro c hc
      cases hc
  obtain ⟨m, hm⟩ := hmem
  exact List.ne_nil_of_mem hm

/-- A quotation at the end of a line is the name that is searched for. -/
def EndsQuoted (cs name : List Char) : Prop :=
  ∃ pre space, cs = pre ++ '"' :: (name ++ '"' :: space) ∧ name ≠ [] ∧
    (∀ c ∈ name, notQuote c = true) ∧ ∀ c ∈ space, isSpace c = true

theorem endsQuoted_of_search {m : Place} (h : listNameRe.search cs = some m) :
    EndsQuoted cs (m.group 1) := by
  obtain ⟨pre, rest, rfl, hmem, -⟩ := mem_run_of_searchFrom h
  obtain ⟨name, space, rfl, hne, hnot, hblank, rfl⟩ := mem_listNameRe hmem
  exact ⟨pre, space, rfl, hne, hnot, hblank⟩

theorem lastField_of_not_endsQuoted (h : ∀ name, ¬ EndsQuoted cs name) :
    nameOnLine cs = lastField ' ' cs := by
  rw [nameOnLine]
  cases hm : listNameRe.search cs with
  | none => rfl
  | some m => exact absurd (endsQuoted_of_search hm) (h _)

/-- The quotation is between the last two quotes. -/
theorem EndsQuoted.eq {pre : List Char} (h : EndsQuoted (pre ++ '"' :: (cs ++ ['"'])) name)
    (hcs : '"' ∉ cs) : cs = name := by
  obtain ⟨pre', space, heq, -, hnot, hblank⟩ := h
  have hreverse := congrArg List.reverse heq
  simp only [List.reverse_append, List.reverse_cons, List.append_assoc, List.singleton_append,
    List.reverse_nil, List.nil_append] at hreverse
  have hcs' : ∀ c ∈ cs.reverse, notQuote c = true :=
    fun c hc => bne_iff_ne.mpr fun h => hcs (h ▸ List.mem_reverse.mp hc)
  have hnot' : ∀ c ∈ name.reverse, notQuote c = true := fun c hc => hnot c (List.mem_reverse.mp hc)
  obtain ⟨hspace, -, hrest⟩ := @taken_unique isSpace [] _ _ _ _ _ (fun _ h => by cases h)
    (by decide) (fun c hc => hblank c (List.mem_reverse.mp hc)) (by decide) hreverse
  obtain ⟨hname, -, -⟩ := taken_unique hcs' (by decide) hnot' (by decide) hrest
  exact List.reverse_inj.mp hname

theorem nameOnLine_quoted {pre : List Char} (hne : cs ≠ []) (hcs : '"' ∉ cs) :
    nameOnLine (pre ++ '"' :: (cs ++ ['"'])) = cs := by
  rw [nameOnLine]
  cases hm : listNameRe.search (pre ++ '"' :: (cs ++ ['"'])) with
  | none =>
      exact absurd (searchFrom_eq_none.mp hm pre _ rfl) (run_listNameRe_ne_nil _ hne hcs)
  | some m => exact ((endsQuoted_of_search hm).eq hcs).symm

/-- An empty quotation is none. -/
theorem nameOnLine_empty (pre : List Char) :
    nameOnLine (pre ++ ['"', '"']) = lastField ' ' (pre ++ ['"', '"']) := by
  refine lastField_of_not_endsQuoted fun name h => ?_
  have heq : [] = name := EndsQuoted.eq h (by simp)
  exact h.elim fun _ ⟨_, _, hne, _⟩ => hne heq.symm

theorem nameOnLine_atom {pre : List Char} (hq : c ≠ '"') (hspace : isSpace c = false) :
    nameOnLine (pre ++ [c]) = lastField ' ' (pre ++ [c]) := by
  refine lastField_of_not_endsQuoted fun name h => ?_
  obtain ⟨pre', space, heq, -, -, hblank⟩ := h
  have hreverse := congrArg List.reverse heq
  simp only [List.reverse_append, List.reverse_cons, List.append_assoc, List.singleton_append,
    List.reverse_nil, List.nil_append] at hreverse
  obtain ⟨-, heq, -⟩ := @taken_unique isSpace [] _ _ _ _ _ (fun _ h => by cases h) hspace
    (fun c hc => hblank c (List.mem_reverse.mp hc)) (by decide) hreverse
  exact hq heq

/-! ## Entry by entry -/

theorem slashed_none (cs : List Char) : slashed none cs = cs := by
  conv_rhs => rw [← List.map_id cs]
  exact List.map_congr_left fun x _ => if_neg (by simp)

theorem slashed_slash (cs : List Char) : slashed (some '/') cs = cs := by
  conv_rhs => rw [← List.map_id cs]
  refine List.map_congr_left fun x _ => ?_
  split
  · rename_i hx
    exact (Option.some.inj hx).symm
  · rfl

theorem replace_eq_slashed : replace cs [c] ['/'] = slashed (some c) cs := by
  rw [replace_char]
  exact List.map_congr_left fun x _ => by simp

theorem not_mem_flagsText : ')' ∉ e.flagsText := by
  rw [ListEntry.flagsText]
  induction e.flags with
  | nil => simp
  | cons f flags ih =>
      have hf : ')' ∉ f.name := f.not_mem (by decide)
      cases flags with
      | nil => simpa using hf
      | cons g flags =>
          rw [List.map_cons, List.map_cons, List.intercalate_cons_cons, List.mem_append,
            List.mem_append, not_or, not_or]
          exact ⟨⟨List.not_mem_cons_of_ne_of_not_mem (by decide) hf, by decide⟩, ih⟩

/-- What a line adds, once its name is found. -/
theorem listedName_text (h : ¬ e.SaysNoselect) (name : List Char) :
    listedName e.text name = some (workerSlashed e.delimiter.char? name) := by
  have hnot : ¬ "\\Noselect".toList <:+: e.text := fun hinfix => h (saysNoselect_iff.mp hinfix)
  have hdelim : listDelimiter e.text = e.delimiter.worker :=
    listDelimiter_text e.flagsText e.delimiter e.mailbox.text not_mem_flagsText
  rw [show listedName e.text name = _ from if_neg hnot, hdelim]
  clear hdelim hnot
  cases e.delimiter with
  | nil spelling hspelling =>
      rw [Delimiter.worker, Delimiter.char?, workerSlashed, if_neg (by simp), if_neg (by simp),
        slashed_none]
  | char c hc =>
      simp only [Delimiter.worker, Delimiter.char?, workerSlashed]
      by_cases hq : c = '"'
      · subst hq
        simp [replace_eq_slashed]
      · by_cases hb : c = '\\'
        · subst hb
          simp [escaped]
        · by_cases hs : c = '/'
          · subst hs
            simp [escaped, slashed_slash]
          · simp [escaped, hq, hb, hs, replace_eq_slashed]

/-- A name that ends in a quote, or an empty one, is looked for behind the last space. -/
theorem lastField_quoted (pre cs : List Char) :
    ' ' ∉ cs ∧ lastField ' ' (pre ++ ' ' :: quoted cs) = quoted cs ∨
      ∃ u t, cs = u ++ ' ' :: t ∧ ' ' ∉ t ∧
        lastField ' ' (pre ++ ' ' :: quoted cs) = escaped t ++ ['"'] := by
  by_cases h : ' ' ∈ cs
  · right
    obtain ⟨t, u, heq, ht⟩ := List.eq_append_cons_of_mem (List.mem_reverse.mpr h)
    have hcs : cs = u.reverse ++ ' ' :: t.reverse := by
      rw [← List.reverse_reverse cs, heq]
      simp
    have ht' : ' ' ∉ t.reverse := fun hmem => ht (List.mem_reverse.mp hmem)
    have htext : pre ++ ' ' :: quoted cs =
        (pre ++ ' ' :: '"' :: escaped u.reverse) ++ ' ' :: (escaped t.reverse ++ ['"']) := by
      rw [hcs, quoted, escaped_append, escaped_cons]
      simp
    refine ⟨u.reverse, t.reverse, hcs, ht', ?_⟩
    rw [htext]
    refine lastField_append _ ?_
    rw [List.mem_append, mem_escaped (by decide), not_or]
    exact ⟨ht', by decide⟩
  · left
    refine ⟨h, lastField_append pre ?_⟩
    simp [quoted, mem_escaped, h]

/-- What follows the last quote of a name is not the name. -/
theorem workerSlashed_escaped_ne (u : List Char) (hcs : '"' ∉ cs) :
    workerSlashed d (escaped cs) ≠ slashed d (u ++ '"' :: cs) := by
  intro heq
  by_cases hd : d = some '"'
  · subst hd
    have hworker : workerSlashed (some '"') (escaped cs) = slashed (some '\\') (escaped cs) := rfl
    rw [hworker] at heq
    by_cases hb : '\\' ∈ cs
    · have hnot : '\\' ∉ slashed (some '\\') (escaped cs) := not_mem_slashed (by decide)
      refine absurd ?_ hnot
      rw [heq, mem_slashed (by decide) (by decide)]
      simp [hb]
    · rw [escaped_of_plain hcs hb] at heq
      have hlen := congrArg List.length heq
      rw [length_slashed, length_slashed] at hlen
      simp at hlen
      omega
  · have hcount := congrArg (List.count '"') heq
    rw [count_quote_workerSlashed, count_escaped (by decide), count_slashed (by decide) (Ne.symm hd),
      List.count_append, List.count_cons_self, List.count_eq_zero_of_not_mem hcs] at hcount
    omega

theorem count_specials_le (cs : List Char) : cs.count '"' + cs.count '\\' ≤ cs.length := by
  induction cs with
  | nil => rfl
  | cons c cs ih =>
      rw [List.count_cons, List.count_cons, List.length_cons]
      by_cases hq : c = '"'
      · subst hq
        simp
        omega
      · rw [beq_false_of_ne hq, if_neg Bool.false_ne_true]
        split <;> omega

/-- Nor is what follows the last space. -/
theorem workerSlashed_lastField_ne (pre : List Char) :
    workerSlashed d (lastField ' ' (pre ++ ' ' :: quoted cs)) ≠ slashed d cs := by
  intro heq
  have hcount := congrArg (List.count '"') heq
  rw [count_quote_workerSlashed] at hcount
  have hcut : ∀ x : List Char, (x ++ ['"']).count '"' = x.count '"' + 1 := by
    intro x
    rw [List.count_append, List.count_singleton_self]
  rcases lastField_quoted pre cs with ⟨-, hlast⟩ | ⟨u, t, rfl, ht, hlast⟩
  · rw [hlast, quoted, List.count_cons_self, hcut, count_escaped (by decide)] at hcount
    by_cases hd : d = some '"'
    · subst hd
      rw [List.count_eq_zero_of_not_mem (not_mem_slashed (by decide))] at hcount
      omega
    · rw [count_slashed (by decide) (Ne.symm hd)] at hcount
      omega
  · rw [hlast] at hcount heq
    rw [hcut, count_escaped (by decide)] at hcount
    by_cases hd : d = some '"'
    · subst hd
      rw [List.count_eq_zero_of_not_mem (not_mem_slashed (by decide))] at hcount
      omega
    · rw [count_slashed (by decide) (Ne.symm hd), List.count_append, List.count_cons] at hcount
      by_cases hspace : d = some ' '
      · -- one quote and as many backslashes as there are characters in front of the space
        subst hspace
        have hname : ' ' ∉ escaped t ++ ['"'] := by
          rw [List.mem_append, mem_escaped (by decide), not_or]
          exact ⟨ht, by decide⟩
        have hworker : workerSlashed (some ' ') (escaped t ++ ['"']) = escaped t ++ ['"'] :=
          slashed_of_not_mem hname
        rw [hworker] at heq
        have hlen := congrArg List.length heq
        have hback := congrArg (List.count '\\') heq
        rw [length_slashed, List.length_append, length_escaped, List.length_append] at hlen
        rw [count_slashed (by decide) (by decide), List.count_append, count_backslash_escaped,
          List.count_append, List.count_cons] at hback
        have hle := count_specials_le u
        simp at hcount hlen hback
        omega
      · have hblank := congrArg (List.count ' ') heq
        rw [count_space_workerSlashed hspace, count_slashed (by decide) (Ne.symm hspace),
          List.count_append, List.count_append, List.count_cons_self, count_escaped (by decide),
          List.count_eq_zero_of_not_mem ht] at hblank
        simp at hblank

/-- A name with a quote in it is read wrong whatever the delimiter is. -/
theorem quotedName_ne (pre : List Char) (hq : '"' ∈ cs) :
    workerSlashed d (nameOnLine (pre ++ ' ' :: quoted cs)) ≠ slashed d cs := by
  obtain ⟨v, u, hrev, hv⟩ := List.eq_append_cons_of_mem (List.mem_reverse.mpr hq)
  have hcs : cs = u.reverse ++ '"' :: v.reverse := by
    rw [← List.reverse_reverse cs, hrev]
    simp
  have hv' : '"' ∉ v.reverse := fun hmem => hv (List.mem_reverse.mp hmem)
  have htext : pre ++ ' ' :: quoted cs =
      (pre ++ ' ' :: '"' :: (escaped u.reverse ++ ['\\'])) ++ '"' :: (escaped v.reverse ++ ['"']) := by
    rw [hcs, quoted, escaped_append, escaped_cons]
    simp
  by_cases hnil : v = []
  · -- the expression finds nothing
    have hname : nameOnLine (pre ++ ' ' :: quoted cs) = lastField ' ' (pre ++ ' ' :: quoted cs) := by
      rw [htext, hnil]
      exact nameOnLine_empty _
    rw [hname]
    exact workerSlashed_lastField_ne pre
  · have hne : escaped v.reverse ≠ [] := by
      intro hempty
      have hlen := length_escaped v.reverse
      rw [hempty, List.length_reverse] at hlen
      have := List.length_pos_iff.mpr hnil
      simp at hlen
      omega
    have hname : nameOnLine (pre ++ ' ' :: quoted cs) = escaped v.reverse := by
      rw [htext]
      exact nameOnLine_quoted hne fun hmem => hv' ((mem_escaped (by decide)).mp hmem)
    rw [hname, hcs]
    exact workerSlashed_escaped_ne u.reverse hv'

/-- Escapes survive only where the delimiter is the backslash. -/
theorem quotedName_iff (pre cs : List Char) (d : Option Char) :
    workerSlashed d (nameOnLine (pre ++ ' ' :: quoted cs)) = slashed d (canonicalName cs) ↔
      cs ≠ [] ∧ '"' ∉ cs ∧ ('\\' ∈ cs → d = some '\\') ∧ canonicalName cs = cs := by
  have hcanonical : ∀ c ∈ cs, c = '"' ∨ c = '\\' → canonicalName cs = cs := by
    rintro c hc (rfl | rfl)
    · exact canonicalName_of_mem hc (by decide)
    · exact canonicalName_of_mem hc (by decide)
  by_cases hq : '"' ∈ cs
  · rw [hcanonical _ hq (.inl rfl)]
    exact iff_of_false (quotedName_ne pre hq) fun h => h.2.1 hq
  · by_cases hnil : cs = []
    · subst hnil
      refine iff_of_false ?_ fun h => h.1 rfl
      have hname : nameOnLine (pre ++ ' ' :: quoted []) = lastField ' ' (pre ++ ' ' :: quoted []) :=
        nameOnLine_empty (pre ++ [' ']) |> fun h => by simpa [quoted] using h
      rw [hname]
      exact workerSlashed_lastField_ne pre
    · have hne : escaped cs ≠ [] := by
        intro hempty
        have hlen := length_escaped cs
        rw [hempty] at hlen
        have := List.length_pos_iff.mpr hnil
        simp at hlen
        omega
      have hname : nameOnLine (pre ++ ' ' :: quoted cs) = escaped cs := by
        have hquoted : nameOnLine (pre ++ [' '] ++ '"' :: (escaped cs ++ ['"'])) = escaped cs :=
          nameOnLine_quoted hne fun hmem => hq ((mem_escaped (by decide)).mp hmem)
        simpa [quoted] using hquoted
      rw [hname, and_iff_right hnil, and_iff_right hq]
      by_cases hb : '\\' ∈ cs
      · rw [hcanonical _ hb (.inr rfl), and_iff_left rfl]
        refine Iff.trans ?_ (forall_prop_of_true hb).symm
        constructor
        · intro heq
          by_contra hd
          by_cases hdq : d = some '"'
          · subst hdq
            have hnot : '\\' ∉ slashed (some '\\') (escaped cs) := not_mem_slashed (by decide)
            refine absurd ?_ hnot
            have hworker : workerSlashed (some '"') (escaped cs) = slashed (some '\\') (escaped cs) :=
              rfl
            rw [← hworker, heq, mem_slashed (by decide) (by decide)]
            exact hb
          · have hlen := congrArg List.length heq
            rw [workerSlashed, if_neg hd, if_neg hdq, length_slashed, length_slashed,
              length_escaped] at hlen
            have := List.count_pos_iff.mpr hb
            omega
        · rintro rfl
          exact replace_escaped hq
      · rw [escaped_of_plain hq hb, workerSlashed_of_plain hq hb, slashed_canonicalName,
          and_iff_right fun h => absurd h hb]

/-- A literal stands for itself, so that a quoted delimiter is not found in it. -/
theorem literalName_iff (cs : List Char) (d : Option Char) :
    workerSlashed d cs = slashed d (canonicalName cs) ↔ canonicalName cs = cs ∧
      (d = some '\\' → '\\' ∉ cs) ∧ (d = some '"' → '"' ∉ cs ∧ '\\' ∉ cs) := by
  have hcanonical : ∀ c, c ∈ cs → c = '"' ∨ c = '\\' → canonicalName cs = cs := by
    rintro c hc (rfl | rfl)
    · exact canonicalName_of_mem hc (by decide)
    · exact canonicalName_of_mem hc (by decide)
  constructor
  · intro heq
    have hsame : canonicalName cs = cs := by
      by_cases hq : '"' ∈ cs
      · exact hcanonical _ hq (.inl rfl)
      · by_cases hb : '\\' ∈ cs
        · exact hcanonical _ hb (.inr rfl)
        · rwa [workerSlashed_of_plain hq hb, slashed_canonicalName] at heq
    rw [hsame] at heq
    refine ⟨hsame, ?_, ?_⟩
    · rintro rfl hb
      exact replace_ne_slashed hb heq
    · rintro rfl
      have hworker : workerSlashed (some '"') cs = slashed (some '\\') cs := rfl
      rw [hworker] at heq
      constructor
      · intro hq
        have hnot : '"' ∉ slashed (some '"') cs := not_mem_slashed (by decide)
        refine absurd ?_ hnot
        rwa [← heq, mem_slashed (by decide) (by decide)]
      · intro hb
        have hnot : '\\' ∉ slashed (some '\\') cs := not_mem_slashed (by decide)
        refine absurd ?_ hnot
        rwa [heq, mem_slashed (by decide) (by decide)]
  · rintro ⟨hsame, hback, hquote⟩
    rw [hsame, workerSlashed]
    split
    · rename_i hd
      rw [replace_of_not_mem (hback hd), hd, slashed_of_not_mem (hback hd)]
    · split
      · rename_i hd
        rw [hd, slashed_of_not_mem (hquote hd).1, slashed_of_not_mem (hquote hd).2]
      · rfl

/-- The name needs no escape that the worker does not undo, and no letter case folded. -/
def MailboxText.Plain (d : Option Char) : MailboxText → Prop
  | .atom cs _ _ => canonicalName cs = cs
  | .quoted cs _ => cs ≠ [] ∧ '"' ∉ cs ∧ ('\\' ∈ cs → d = some '\\') ∧ canonicalName cs = cs
  | .literal content => ∀ cs, decodeUtf8 content = some cs → canonicalName cs = cs ∧
      (d = some '\\' → '\\' ∉ cs) ∧ (d = some '"' → '"' ∉ cs ∧ '\\' ∉ cs)

/-- What an entry must be like for the worker to read it right. -/
structure ListEntry.Readable (e : ListEntry) : Prop where
  text : e.mailbox.value? ≠ none
  flagged : e.SaysNoselect ↔ e.selectable = false
  plain : e.selectable = true → e.mailbox.Plain e.delimiter.char?

theorem decodeUtf8_ofList (cs : List Char) :
    decodeUtf8 (String.ofList cs).toByteArray = some cs := by
  rw [decodeUtf8, String.fromUTF8?, dif_pos (String.ofList cs).isValidUTF8, Option.map_some]
  exact congrArg some String.toList_ofList

/-- The characters from which the worker makes the folder. -/
def ListEntry.rawName (e : ListEntry) : Option (List Char) :=
  match e.mailbox with
  | .literal content => decodeUtf8 content
  | _ => some (nameOnLine e.text)

theorem parseListLine_line (e : ListEntry) :
    parseListLine e.line = e.rawName.map fun name => (listedName e.text name).map String.ofList := by
  have hne : e.lineBytes ≠ ByteArray.empty := by
    intro h
    have hempty : decodeUtf8 ByteArray.empty = some [] := decodeUtf8_ofList []
    rw [← h, ListEntry.lineBytes, decodeUtf8_ofList] at hempty
    cases hempty
  have hdecode : decodeUtf8 e.lineBytes = some e.text := decodeUtf8_ofList _
  cases hmailbox : e.mailbox with
  | atom cs hcs h =>
      simp only [ListEntry.line, ListEntry.rawName, hmailbox, parseListLine, if_neg hne, hdecode]
      rfl
  | quoted cs h =>
      simp only [ListEntry.line, ListEntry.rawName, hmailbox, parseListLine, if_neg hne, hdecode]
      rfl
  | literal content =>
      simp only [ListEntry.line, ListEntry.rawName, hmailbox, parseListLine, hdecode]
      rfl

theorem isSpace_astring {c : Char} (h : isAstringChar c = true) : isSpace c = false := by
  have hrange : 0x20 < c.toNat ∧ c.toNat < 0x7f := by
    simp only [isAstringChar, isAtomChar, Bool.or_eq_true, Bool.and_eq_true, decide_eq_true_eq,
      beq_iff_eq] at h
    rcases h with h | rfl
    · exact h.1
    · decide
  simp [isSpace]
  omega

/-- The worker's name is right exactly when the mailbox is plain. -/
theorem rawName_iff {cs : List Char} (hvalue : e.mailbox.value? = some cs) :
    ∃ name, e.rawName = some name ∧
      (workerSlashed e.delimiter.char? name = slashed e.delimiter.char? (canonicalName cs) ↔
        e.mailbox.Plain e.delimiter.char?) := by
  have htext : e.text = '(' :: (e.flagsText ++ ')' :: ' ' :: e.delimiter.text) ++
      ' ' :: e.mailbox.text := by
    simp [ListEntry.text]
  unfold ListEntry.rawName
  cases hmailbox : e.mailbox with
  | atom cs' hne h =>
      rw [hmailbox] at hvalue htext
      obtain rfl := Option.some.inj hvalue
      have hspecial : ∀ c, isAstringChar c = false → c ∉ cs' :=
        fun c hc hmem => by rw [h c hmem] at hc; cases hc
      have hlast : lastField ' ' e.text = cs' := by
        rw [htext]
        exact lastField_append _ (hspecial ' ' (by decide))
      have hname : nameOnLine e.text = cs' := by
        rw [← hlast]
        obtain ⟨c, hc⟩ : ∃ c, c = cs'.getLast hne := ⟨_, rfl⟩
        have hcs : cs' = cs'.dropLast ++ [c] := by rw [hc, List.dropLast_concat_getLast]
        have hchar := h c (hc ▸ List.getLast_mem hne)
        have hend : e.text = ('(' :: (e.flagsText ++ ')' :: ' ' :: e.delimiter.text) ++
            ' ' :: cs'.dropLast) ++ [c] := by
          rw [htext, MailboxText.text]
          conv_lhs => rw [hcs]
          simp
        rw [hend]
        refine nameOnLine_atom (fun hq => ?_) ?_
        · rw [hq] at hchar
          exact absurd hchar (by decide)
        · exact isSpace_astring hchar
      refine ⟨cs', congrArg some hname, ?_⟩
      rw [workerSlashed_of_plain (hspecial _ (by decide)) (hspecial _ (by decide)),
        slashed_canonicalName]
      rfl
  | quoted cs' h =>
      rw [hmailbox] at hvalue htext
      obtain rfl := Option.some.inj hvalue
      refine ⟨nameOnLine e.text, rfl, ?_⟩
      rw [htext]
      exact quotedName_iff _ cs' _
  | literal content =>
      rw [hmailbox] at hvalue
      have hdecode : decodeUtf8 content = some cs := hvalue
      refine ⟨cs, hdecode, ?_⟩
      rw [literalName_iff, MailboxText.Plain]
      constructor
      · intro h cs' hcs'
        obtain rfl := Option.some.inj (hdecode.symm.trans hcs')
        exact h
      · exact fun h => h cs hdecode

theorem rawName_eq_none (hvalue : e.mailbox.value? = none) : e.rawName = none := by
  unfold ListEntry.rawName
  cases hmailbox : e.mailbox with
  | atom cs hne h =>
      rw [hmailbox] at hvalue
      cases hvalue
  | quoted cs h =>
      rw [hmailbox] at hvalue
      cases hvalue
  | literal content =>
      rw [hmailbox] at hvalue
      exact hvalue

/-- One entry. -/
theorem parseListLine_iff (e : ListEntry) :
    parseListLine e.line = some e.folder? ↔ e.Readable := by
  rw [parseListLine_line]
  cases hvalue : e.mailbox.value? with
  | none =>
      rw [rawName_eq_none hvalue]
      exact iff_of_false (fun h => by cases h) fun h => h.text hvalue
  | some cs =>
      obtain ⟨name, hname, hplain⟩ := rawName_iff hvalue
      have htext : e.mailbox.value? ≠ none := by
        rw [hvalue]
        exact Option.some_ne_none cs
      rw [hname, Option.map_some, Option.some.injEq, ListEntry.folder?, hvalue, Option.map_some]
      by_cases hsays : e.SaysNoselect
      · have hnone : listedName e.text name = none := if_pos (saysNoselect_iff.mpr hsays)
        rw [hnone, Option.map_none]
        split
        · rename_i hselect
          refine iff_of_false (fun h => by cases h) fun h => ?_
          exact absurd (h.flagged.mp hsays) (by rw [hselect]; decide)
        · rename_i hselect
          refine iff_of_true rfl ⟨htext, ?_, fun h => absurd h hselect⟩
          exact iff_of_true hsays (Bool.eq_false_iff.mpr hselect)
      · rw [listedName_text hsays, Option.map_some]
        split
        · rename_i hselect
          rw [Option.some.injEq, String.ofList_inj, hplain]
          constructor
          · intro h
            refine ⟨htext, iff_of_false hsays ?_, fun _ => h⟩
            rw [hselect]
            decide
          · exact fun h => h.plain hselect
        · rename_i hselect
          refine iff_of_false (fun h => by cases h) fun h => ?_
          exact hsays (h.flagged.mpr (Bool.eq_false_iff.mpr hselect))

/-! ## The whole response -/

variable {entries : List ListEntry}

theorem line_mem_responseLines (h : e ∈ entries) : e.line ∈ responseLines entries := by
  rw [responseLines, if_neg (List.ne_nil_of_mem h), List.mem_flatMap]
  refine ⟨e, h, ?_⟩
  unfold ListEntry.lines
  split <;> exact List.mem_cons_self

/-- What is delivered beside the entries adds nothing. -/
theorem mem_responseLines {line : ListLine} (h : line ∈ responseLines entries) :
    (∃ e ∈ entries, line = e.line) ∨ parseListLine line = some none := by
  rw [responseLines] at h
  split at h
  · rw [List.mem_singleton.mp h]
    exact .inr rfl
  · obtain ⟨e, he, hline⟩ := List.mem_flatMap.mp h
    unfold ListEntry.lines at hline
    split at hline
    · rcases List.mem_cons.mp hline with rfl | hline
      · exact .inl ⟨e, he, rfl⟩
      · rw [List.mem_singleton.mp hline, parseListLine, if_pos rfl]
        exact .inr rfl
    · exact .inl ⟨e, he, List.mem_singleton.mp hline⟩

theorem mapM_eq_some {α β : Type} {f : α → Option β} {g : α → β} {l : List α}
    (h : ∀ x ∈ l, f x = some (g x)) : l.mapM f = some (l.map g) := by
  induction l with
  | nil => rfl
  | cons x l ih =>
      obtain ⟨hx, hl⟩ := List.forall_mem_cons.mp h
      rw [List.mapM_cons, hx, ih hl]
      rfl

/-- A response of readable entries gives the folders that they stand for. -/
theorem listUpstreamFolders_readable (h : ∀ e ∈ entries, e.Readable) :
    ∃ names, listUpstreamFolders "OK" (responseLines entries) = some names ∧
      ∀ name, name ∈ names ↔ ∃ e ∈ entries, e.folder? = some name := by
  have hparse : ∀ line ∈ responseLines entries,
      parseListLine line = some ((parseListLine line).getD none) := by
    intro line hline
    rcases mem_responseLines hline with ⟨e, he, rfl⟩ | hnone
    · rw [(parseListLine_iff e).mpr (h e he), Option.getD_some]
    · rw [hnone, Option.getD_some]
  have hlines : responseLines entries ≠ [] := by
    cases entries with
    | nil => exact List.cons_ne_nil _ _
    | cons e entries => exact List.ne_nil_of_mem (line_mem_responseLines List.mem_cons_self)
  refine ⟨((responseLines entries).map fun line =>
    (parseListLine line).getD none).reduceOption.dedup, ?_, ?_⟩
  · rw [listUpstreamFolders, if_neg (by simp [hlines]), mapM_eq_some hparse, Option.map_some]
  · intro name
    rw [List.mem_dedup, List.reduceOption_mem_iff, List.mem_map]
    constructor
    · rintro ⟨line, hline, hname⟩
      rcases mem_responseLines hline with ⟨e, he, rfl⟩ | hnone
      · rw [(parseListLine_iff e).mpr (h e he), Option.getD_some] at hname
        exact ⟨e, he, hname⟩
      · rw [hnone] at hname
        cases hname
    · rintro ⟨e, he, hname⟩
      refine ⟨e.line, line_mem_responseLines he, ?_⟩
      rw [(parseListLine_iff e).mpr (h e he), Option.getD_some, hname]

/-- A folder that is listed is not missing. -/
theorem not_mem_missing {localFolders remoteFolders patterns missing : List String} {name : String}
    (h : foldersToQuarantine localFolders remoteFolders patterns = .ok missing)
    (hname : name ∈ remoteFolders) : name ∉ missing := by
  rcases foldersToQuarantine_cases localFolders remoteFolders patterns with
    ⟨-, hnil⟩ | ⟨e, herror, -⟩ | ⟨missing', hok, -, -, hmem⟩
  · exact absurd hnil (List.ne_nil_of_mem hname)
  · rw [herror] at h
    cases h
  · obtain rfl := Except.ok.inj (hok.symm.trans h)
    rw [hmem, vanished, List.mem_filter]
    exact fun hlost => (of_decide_eq_true hlost.2).1 hname

/-- A response is read right exactly when every entry of it is readable. -/
theorem readsListing_iff (entries : List ListEntry) :
    ReadsListing entries ↔ ∀ e ∈ entries, e.Readable := by
  constructor
  · exact fun h e he => (parseListLine_iff e).mp (h.each e he)
  · intro h
    obtain ⟨names, hnames, hmem⟩ := listUpstreamFolders_readable h
    refine ⟨fun e he => (parseListLine_iff e).mpr (h e he), ⟨names, hnames, hmem⟩, ?_⟩
    intro names' hnames' localFolders patterns missing hmissing e he name hname
    obtain rfl := Option.some.inj (hnames.symm.trans hnames')
    exact not_mem_missing hmissing ((hmem name).mpr ⟨e, he, hname⟩)

/-- A name with a quote in it, as in `() "/" "6\" pipes"`. -/
def quoteInName : ListEntry where
  flags := []
  delimiter := .char '/' (by decide)
  mailbox := .quoted "6\" pipes".toList (List.all_eq_true.mp (by decide))

theorem not_readsListing : ¬ ∀ entries, ReadsListing entries := by
  intro h
  have hreadable := (parseListLine_iff quoteInName).mp
    ((h [quoteInName]).each quoteInName List.mem_cons_self)
  have hplain : quoteInName.mailbox.Plain (some '/') := hreadable.plain rfl
  exact hplain.2.1 (by decide)

end MailFallback
