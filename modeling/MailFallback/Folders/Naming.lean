import MailFallback.Folders.Quarantine
import MailFallback.Library.Regex
import Mathlib.Algebra.Group.Nat.Defs

/-! # The name that a quarantined folder had at the Source

A quarantine name can be read in one way only, since the stamp and the counter are found from its
end; but what it was made of cannot always be told from it. -/

namespace MailFallback

open Storage Posix

/-- A minute of the calendar. -/
structure CalendarMinute extends Minute where
  year_le : year ≤ 9999
  month_le : month ≤ 12
  day_le : day ≤ 31
  hour_le : hour ≤ 23
  minute_le : minute ≤ 59

/-- The folder's name without separators and colons. -/
def foldedName (folder : String) : String :=
  String.ofList (folder.toList.map fun c => if c = '/' ∨ c = ':' then '-' else c)

/-- What tells folders of the same minute apart. -/
def collisionSuffix : Option ℕ → String
  | none => ""
  | some n => " (" ++ n.repr ++ ")"

/-- The folder path under which the messages of a quarantined folder are indexed. -/
def quarantinedFolderPath (folder : String) (when' : Minute) (suffix : Option ℕ) : String :=
  removedContainer ++ "/" ++ (quarantineName folder when' ++ collisionSuffix suffix)

/-! ## Reading forwards -/

theorem afterText_iff {text : String} {cs rest : List Char} :
    afterText text cs = some rest ↔ cs = text.toList ++ rest := Regex.afterPrefix_id_iff

theorem afterDecimals_iff {n : ℕ} {cs rest : List Char} : afterDecimals n cs = some rest ↔
    ∃ ds, ds.length = n ∧ (∀ c ∈ ds, isDecimal c = true) ∧ cs = ds ++ rest := by
  induction n generalizing cs with
  | zero =>
      constructor
      · intro h
        exact ⟨[], rfl, (fun _ hc => by cases hc), Option.some.inj h⟩
      · rintro ⟨ds, hlen, -, rfl⟩
        rw [List.length_eq_zero_iff.mp hlen]
        rfl
  | succ n ih =>
      cases cs with
      | nil =>
          constructor
          · intro h
            cases h
          · rintro ⟨ds, hlen, -, heq⟩
            rw [(List.append_eq_nil_iff.mp heq.symm).1] at hlen
            cases hlen
      | cons c cs =>
          rw [afterDecimals, Option.ite_none_right_eq_some, ih]
          constructor
          · rintro ⟨hc, ds, rfl, hds, rfl⟩
            exact ⟨c :: ds, rfl, List.forall_mem_cons.mpr ⟨hc, hds⟩, rfl⟩
          · rintro ⟨ds, hlen, hds, heq⟩
            cases ds with
            | nil => cases hlen
            | cons d ds =>
                obtain ⟨rfl, rfl⟩ := List.cons.inj heq
                obtain ⟨hd, hds⟩ := List.forall_mem_cons.mp hds
                exact ⟨hd, ds, Nat.succ.inj hlen, hds, rfl⟩

/-- The characters of a stamp. -/
structure StampDigits where
  year : List Char
  month : List Char
  day : List Char
  time : List Char
  year_length : year.length = 4
  month_length : month.length = 2
  day_length : day.length = 2
  time_length : time.length = 4
  decimal : ∀ c ∈ year ++ month ++ day ++ time, isDecimal c = true

namespace StampDigits

variable (s : StampDigits)

/-- Up to the time of day. -/
def date : List Char := ' ' :: '(' :: (s.year ++ '-' :: (s.month ++ '-' :: s.day))

/-- With `rest` behind it. -/
def before (rest : List Char) : List Char := s.date ++ ' ' :: (s.time ++ ')' :: rest)

theorem date_length : s.date.length = 12 := by
  simp [date, s.year_length, s.month_length, s.day_length]

theorem before_length (rest : List Char) : (s.before rest).length = 18 + rest.length := by
  simp [before, s.date_length, s.time_length]
  omega

theorem time_decimal : ∀ c ∈ s.time, isDecimal c = true :=
  fun c hc => s.decimal c (List.mem_append_right _ hc)

end StampDigits

theorem afterStamp_iff {cs rest : List Char} :
    afterStamp cs = some rest ↔ ∃ s : StampDigits, cs = s.before rest := by
  simp only [afterStamp, Option.bind_eq_bind, Option.bind_eq_some_iff, afterText_iff,
    afterDecimals_iff]
  constructor
  · rintro ⟨_, rfl, _, ⟨y, hy, hy', rfl⟩, _, rfl, _, ⟨m, hm, hm', rfl⟩, _, rfl, _,
      ⟨d, hd, hd', rfl⟩, _, rfl, _, ⟨t, ht, ht', rfl⟩, rfl⟩
    refine ⟨⟨y, m, d, t, hy, hm, hd, ht, ?_⟩, ?_⟩
    · intro c hc
      simp only [List.mem_append] at hc
      rcases hc with ((hc | hc) | hc) | hc
      · exact hy' c hc
      · exact hm' c hc
      · exact hd' c hc
      · exact ht' c hc
    · simp [StampDigits.before, StampDigits.date]
  · rintro ⟨s, rfl⟩
    have hdecimal := s.decimal
    simp only [List.mem_append] at hdecimal
    refine ⟨s.year ++ '-' :: (s.month ++ '-' :: (s.day ++ ' ' :: (s.time ++ ')' :: rest))), ?_,
      _, ⟨s.year, s.year_length, fun c hc => hdecimal c (.inl (.inl (.inl hc))), rfl⟩, _, rfl,
      _, ⟨s.month, s.month_length, fun c hc => hdecimal c (.inl (.inl (.inr hc))), rfl⟩, _, rfl,
      _, ⟨s.day, s.day_length, fun c hc => hdecimal c (.inl (.inr hc)), rfl⟩, _, rfl,
      _, ⟨s.time, s.time_length, fun c hc => hdecimal c (.inr hc), rfl⟩, rfl⟩
    simp [StampDigits.before, StampDigits.date]

/-- What may tell folders of one minute apart. -/
inductive IsCount : List Char → Prop
  | none : IsCount []
  | some {ds : List Char} (hne : ds ≠ []) (hds : ∀ c ∈ ds, isDecimal c = true) :
      IsCount (' ' :: '(' :: (ds ++ [')']))

theorem atEnd_iff {cs : List Char} : atEnd cs = true ↔ cs = [] ∨ cs = ['\n'] := by
  simp [atEnd]

theorem dropWhile_decimals {ds rest : List Char} (hds : ∀ c ∈ ds, isDecimal c = true) :
    (ds ++ ')' :: rest).dropWhile isDecimal = ')' :: rest := by
  rw [List.dropWhile_append_of_pos hds]
  exact List.dropWhile_cons_of_neg (by decide)

theorem endsAfterCount_iff {cs : List Char} : endsAfterCount cs = true ↔
    ∃ count last, cs = count ++ last ∧ IsCount count ∧ (last = [] ∨ last = ['\n']) := by
  simp only [endsAfterCount, Bool.or_eq_true, Option.any_eq_true, Option.bind_eq_some_iff,
    afterText_iff, afterDecimals_iff, atEnd_iff]
  constructor
  · rintro (hend | ⟨rest, ⟨_, rfl, ds, hlen, hds, rfl⟩, last, hclose, hend⟩)
    · exact ⟨[], cs, rfl, .none, hend⟩
    · refine ⟨' ' :: '(' :: (ds ++ rest.takeWhile isDecimal ++ [')']), last, ?_, .some ?_ ?_, hend⟩
      · have hrest : rest = rest.takeWhile isDecimal ++ ')' :: last := by
          conv_lhs => rw [← List.takeWhile_append_dropWhile (p := isDecimal) (l := rest), hclose]
          rfl
        conv_lhs => rw [hrest]
        simp
      · exact fun h => absurd (List.append_eq_nil_iff.mp h).1 (List.ne_nil_of_length_eq_add_one hlen)
      · intro c hc
        rcases List.mem_append.mp hc with hc | hc
        · exact hds c hc
        · exact List.mem_takeWhile_imp hc
  · rintro ⟨count, last, rfl, hcount, hlast⟩
    cases hcount with
    | none => exact .inl hlast
    | @some ds hne hds =>
        cases ds with
        | nil => exact absurd rfl hne
        | cons d ds =>
            obtain ⟨hd, hds⟩ := List.forall_mem_cons.mp hds
            refine .inr ⟨ds ++ ')' :: last, ⟨d :: (ds ++ ')' :: last), ?_, [d], rfl, ?_, rfl⟩,
              last, dropWhile_decimals hds, hlast⟩
            · simp
            · exact fun c hc => List.mem_singleton.mp hc ▸ hd

/-! ## Reading backwards -/

/-- The last run of decimals, and what stands before it, is found in one way only. -/
theorem lastRun_unique {a a' ds ds' : List Char} {c c' : Char} (hc : isDecimal c = false)
    (hc' : isDecimal c' = false) (hds : ∀ d ∈ ds, isDecimal d = true)
    (hds' : ∀ d ∈ ds', isDecimal d = true)
    (h : a ++ c :: (ds ++ [')']) = a' ++ c' :: (ds' ++ [')'])) : a = a' ∧ c = c' ∧ ds = ds' := by
  have hrev : ds.reverse ++ c :: a.reverse = ds'.reverse ++ c' :: a'.reverse := by
    have := congrArg List.reverse h
    simpa using this
  obtain ⟨hds, hc, ha⟩ :=
    Regex.taken_unique (by simpa using hds) hc (by simpa using hds') hc' hrev
  exact ⟨List.reverse_inj.mp ha, hc, List.reverse_inj.mp hds⟩

/-- A stamp, perhaps with a count behind it. -/
def IsStamped (cs : List Char) : Prop :=
  ∃ (s : StampDigits) (count : List Char), IsCount count ∧ cs = s.before count

/-- A stamp at the end is found in one way only. -/
theorem stamped_unique {a a' cs cs' : List Char} (hcs : IsStamped cs) (hcs' : IsStamped cs')
    (h : a ++ cs = a' ++ cs') : a = a' := by
  obtain ⟨s, count, hcount, rfl⟩ := hcs
  obtain ⟨s', count', hcount', rfl⟩ := hcs'
  -- without a count the last run of decimals is the time of day, which stands behind a space
  have hplain : ∀ (b : List Char) (s : StampDigits),
      b ++ s.before [] = b ++ s.date ++ ' ' :: (s.time ++ [')']) := by
    intro b s
    simp [StampDigits.before]
  have hcounted : ∀ (b : List Char) (s : StampDigits) (ds : List Char),
      b ++ s.before (' ' :: '(' :: (ds ++ [')'])) =
        b ++ s.before [' '] ++ '(' :: (ds ++ [')']) := by
    intro b s ds
    simp [StampDigits.before]
  have hspace : isDecimal ' ' = false := by decide
  have hopen : isDecimal '(' = false := by decide
  cases hcount with
  | none =>
      cases hcount' with
      | none =>
          rw [hplain, hplain] at h
          obtain ⟨h, -, -⟩ := lastRun_unique hspace hspace s.time_decimal s'.time_decimal h
          exact List.append_inj_left' h (by rw [s.date_length, s'.date_length])
      | some hne hds' =>
          rw [hplain, hcounted] at h
          exact absurd (lastRun_unique hspace hopen s.time_decimal hds' h).2.1 (by decide)
  | some hne hds =>
      cases hcount' with
      | none =>
          rw [hplain, hcounted] at h
          exact absurd (lastRun_unique hopen hspace hds s'.time_decimal h).2.1 (by decide)
      | some hne' hds' =>
          rw [hcounted, hcounted] at h
          obtain ⟨h, -, -⟩ := lastRun_unique hopen hopen hds hds' h
          exact List.append_inj_left' h (by rw [s.before_length, s'.before_length])

theorem IsStamped.last {cs : List Char} (h : IsStamped cs) : ∃ cs', cs = cs' ++ [')'] := by
  obtain ⟨s, count, hcount, rfl⟩ := h
  cases hcount with
  | none => exact ⟨s.date ++ ' ' :: s.time, by simp [StampDigits.before]⟩
  | @some ds hne hds => exact ⟨s.before (' ' :: '(' :: ds), by simp [StampDigits.before]⟩

/-- Where the name ends, the stamp starts. -/
theorem isStamped_of_after {a cs : List Char} (hlast : ∃ b, a ++ cs = b ++ [')'])
    (h : (afterStamp cs).any endsAfterCount = true) : IsStamped cs := by
  obtain ⟨rest, hstamp, hend⟩ := (Option.any_eq_true ..).mp h
  obtain ⟨s, rfl⟩ := afterStamp_iff.mp hstamp
  obtain ⟨count, last, rfl, hcount, rfl | rfl⟩ := endsAfterCount_iff.mp hend
  · exact ⟨s, count, hcount, by rw [List.append_nil]⟩
  · obtain ⟨b, heq⟩ := hlast
    have hline : a ++ s.before (count ++ ['\n']) = a ++ s.before count ++ ['\n'] := by
      simp [StampDigits.before]
    rw [hline] at heq
    exact absurd (List.append_inj_right' heq rfl) (by decide)

theorem IsStamped.after {cs : List Char} (h : IsStamped cs) :
    (afterStamp cs).any endsAfterCount = true := by
  obtain ⟨s, count, hcount, rfl⟩ := h
  rw [afterStamp_iff.mpr ⟨s, rfl⟩, Option.any_some]
  exact endsAfterCount_iff.mpr ⟨count, [], (List.append_nil _).symm, hcount, .inl rfl⟩

/-- What stands before the stamp is the name, unless it is empty or breaks the line. -/
theorem quarantinedName_stamped (name : List Char) {cs : List Char} (h : IsStamped cs) :
    quarantinedName (name ++ cs) = if name ≠ [] ∧ '\n' ∉ name then some name else none := by
  have hname : ∀ n ∈ (List.range' 1 (name ++ cs).length).reverse,
      (!((name ++ cs).take n).contains '\n' &&
        (afterStamp ((name ++ cs).drop n)).any endsAfterCount) = true ↔
          n = name.length ∧ '\n' ∉ name := by
    intro n hn
    rw [Bool.and_eq_true, Bool.not_eq_true', List.contains_eq_mem, decide_eq_false_iff_not]
    constructor
    · rintro ⟨hline, hafter⟩
      have hlast : ∃ b, (name ++ cs).take n ++ (name ++ cs).drop n = b ++ [')'] := by
        obtain ⟨b, rfl⟩ := h.last
        exact ⟨name ++ b, by rw [List.take_append_drop, List.append_assoc]⟩
      have hstamped := isStamped_of_after hlast hafter
      have htake := stamped_unique hstamped h (List.take_append_drop n (name ++ cs))
      rw [htake] at hline
      refine ⟨?_, hline⟩
      rw [← htake, List.length_take]
      rw [List.mem_reverse, List.mem_range'_1] at hn
      omega
    · rintro ⟨rfl, hline⟩
      rw [List.take_left, List.drop_left]
      exact ⟨hline, h.after⟩
  unfold quarantinedName
  dsimp only
  split
  · rename_i hgood
    cases hfind : (List.range' 1 (name ++ cs).length).reverse.find? fun n =>
        !((name ++ cs).take n).contains '\n' &&
          (afterStamp ((name ++ cs).drop n)).any endsAfterCount with
    | none =>
        have hmem : name.length ∈ (List.range' 1 (name ++ cs).length).reverse := by
          rw [List.mem_reverse, List.mem_range'_1, List.length_append]
          have := List.length_pos_iff.mpr hgood.1
          omega
        exact absurd ((hname _ hmem).mpr ⟨rfl, hgood.2⟩) (List.find?_eq_none.mp hfind _ hmem)
    | some n =>
        have hmatch := List.find?_some (p := fun n => !((name ++ cs).take n).contains '\n' &&
          (afterStamp ((name ++ cs).drop n)).any endsAfterCount) hfind
        obtain ⟨rfl, -⟩ := (hname n (List.mem_of_find?_eq_some hfind)).mp hmatch
        rw [Option.map_some, List.take_left]
  · rename_i hbad
    rw [Option.map_eq_none_iff, List.find?_eq_none]
    intro n hn hmatch
    obtain ⟨rfl, hline⟩ := (hname n hn).mp hmatch
    refine hbad ⟨fun hnil => ?_, hline⟩
    rw [List.mem_reverse, List.mem_range'_1, hnil] at hn
    exact absurd hn.1 (by decide)

/-! ## The stamp of a quarantine -/

theorem isDecimal_of_isDigit {c : Char} (h : c.isDigit = true) : isDecimal c = true := by
  have hrange : 0x30 ≤ c.toNat ∧ c.toNat < 0x30 + 10 := by
    simp only [Char.isDigit, Bool.and_eq_true, decide_eq_true_eq] at h
    have h1 : (48 : ℕ) ≤ c.toNat := h.1
    have h2 : c.toNat ≤ (57 : ℕ) := h.2
    omega
  exact List.any_eq_true.mpr ⟨0x30, by decide, by simpa using hrange⟩

theorem decimal_of_mem_repr {n : ℕ} {c : Char} (h : c ∈ n.repr.toList) : isDecimal c = true := by
  rw [Nat.toList_repr] at h
  exact isDecimal_of_isDigit (Nat.isDigit_of_mem_toDigits (by decide) (by decide) h)

theorem decimal_of_mem_zeroPad {width n : ℕ} {c : Char} (h : c ∈ (zeroPad width n).toList) :
    isDecimal c = true := by
  rw [zeroPad, String.toList_append, String.toList_ofList, List.mem_append] at h
  rcases h with h | h
  · rw [List.eq_of_mem_replicate h]
    decide
  · exact decimal_of_mem_repr h

theorem length_zeroPad {width n : ℕ} (hwidth : 0 < width) (h : n < 10 ^ width) :
    (zeroPad width n).toList.length = width := by
  have hlen : n.repr.toList.length ≤ width := by
    rw [Nat.toList_repr]
    exact (Nat.length_toDigits_le_iff (by decide) hwidth).mpr h
  rw [zeroPad, String.toList_append, String.toList_ofList, List.length_append,
    List.length_replicate]
  omega

/-- The characters that `strftime` writes for it. -/
def CalendarMinute.digits (w : CalendarMinute) : StampDigits where
  year := (zeroPad 4 w.year).toList
  month := (zeroPad 2 w.month).toList
  day := (zeroPad 2 w.day).toList
  time := (zeroPad 2 w.hour).toList ++ (zeroPad 2 w.minute).toList
  year_length := length_zeroPad (by decide) (by have := w.year_le; omega)
  month_length := length_zeroPad (by decide) (by have := w.month_le; omega)
  day_length := length_zeroPad (by decide) (by have := w.day_le; omega)
  time_length := by
    have := w.hour_le
    have := w.minute_le
    rw [List.length_append, length_zeroPad (by decide) (by omega), length_zeroPad (by decide) (by omega)]
  decimal := by
    intro c hc
    simp only [List.mem_append] at hc
    rcases hc with ((hc | hc) | hc) | hc | hc
    all_goals exact decimal_of_mem_zeroPad hc

/-- The name is the folder's with `/` and `:` folded, and a stamp behind it. -/
theorem quarantineName_stamped (folder : String) (w : CalendarMinute) (suffix : Option ℕ) :
    ∃ cs, IsStamped cs ∧ (quarantineName folder w.toMinute ++ collisionSuffix suffix).toList =
      (foldedName folder).toList ++ cs := by
  refine ⟨w.digits.before (collisionSuffix suffix).toList, ⟨w.digits, _, ?_, rfl⟩, ?_⟩
  · cases suffix with
    | none => exact .none
    | some n =>
        have htext : (collisionSuffix (some n)).toList = ' ' :: '(' :: (n.repr.toList ++ [')']) := by
          simp [collisionSuffix]
        rw [htext]
        refine .some ?_ fun c hc => decimal_of_mem_repr hc
        rw [Nat.toList_repr]
        exact Nat.toDigits_ne_nil
  · simp [quarantineName, foldedName, Minute.strftime, StampDigits.before, StampDigits.date,
      CalendarMinute.digits]

/-- The indexed path of a quarantined folder is the container's with such a name. -/
theorem quarantineFolder_path {env : Env} {d d' : Files} {cwd : Path}
    {maildirPath folder dest : String}
    (h : quarantineFolder env d cwd maildirPath folder = (d', .ok (some dest))) :
    ∃ suffix, dest = rstripSlash maildirPath ++ "/" ++
      quarantinedFolderPath folder env.when' suffix := by
  have hpath : ∀ suffix, quarantinePath maildirPath folder env.when' ++ collisionSuffix suffix =
      rstripSlash maildirPath ++ "/" ++ quarantinedFolderPath folder env.when' suffix := by
    intro suffix
    simp [quarantinePath, containerPath, quarantinedFolderPath, String.append_assoc]
  have hfree : freeDest d cwd (quarantinePath maildirPath folder env.when') = some dest := by
    unfold quarantineFolder at h
    dsimp only at h
    split at h
    · cases h
    · split at h
      · cases h
      · rename_i s hs
        split at h
        · cases h
          exact hs
        · cases h
  unfold freeDest at hfree
  dsimp only at hfree
  split at hfree
  · obtain ⟨n, rfl, -⟩ := nextFree_eq_some hfree
    exact ⟨some n, by rw [← hpath, collisionSuffix, ← String.append_assoc, ← String.append_assoc]⟩
  · cases hfree
    exact ⟨none, by rw [← hpath, collisionSuffix, String.append_empty]⟩

/-! ## The round trip -/

/-- The name is read back, and no other path is changed. -/
def UndoesQuarantine (folder : String) (w : CalendarMinute) (suffix : Option ℕ) : Prop :=
  originalFolderName (quarantinedFolderPath folder w.toMinute suffix) = folder ∧
    ∀ path : String, ¬ (removedContainer ++ "/").toList <+: path.toList →
      originalFolderName path = path

theorem originalFolderName_outside {path : String}
    (h : ¬ (removedContainer ++ "/").toList <+: path.toList) : originalFolderName path = path := by
  unfold originalFolderName
  cases hafter : afterText (removedContainer ++ "/") path.toList with
  | none => rfl
  | some rest => exact absurd ⟨rest, (afterText_iff.mp hafter).symm⟩ h

theorem foldedName_eq_empty {folder : String} : foldedName folder = "" ↔ folder = "" := by
  rw [← String.toList_eq_nil_iff, foldedName, String.toList_ofList, List.map_eq_nil_iff,
    String.toList_eq_nil_iff]

theorem newline_mem_foldedName {folder : String} :
    '\n' ∈ (foldedName folder).toList ↔ '\n' ∈ folder.toList := by
  rw [foldedName, String.toList_ofList, List.mem_map]
  constructor
  · rintro ⟨c, hc, heq⟩
    split at heq
    · exact absurd heq (by decide)
    · exact heq ▸ hc
  · exact fun h => ⟨'\n', h, rfl⟩

theorem foldedName_eq_iff {folder : String} :
    foldedName folder = folder ↔ ∀ c ∈ folder.toList, c ≠ '/' ∧ c ≠ ':' := by
  rw [← String.toList_inj, foldedName, String.toList_ofList]
  conv_lhs => rhs; rw [← List.map_id folder.toList]
  rw [List.map_inj_left]
  refine forall₂_congr fun c _ => ?_
  split
  · rename_i h
    rcases h with rfl | rfl <;> decide
  · rename_i h
    exact iff_of_true rfl (not_or.mp h)

/-- The folded name comes back, or the path if there is no name on one line. -/
theorem originalFolderName_quarantined (folder : String) (w : CalendarMinute)
    (suffix : Option ℕ) :
    originalFolderName (quarantinedFolderPath folder w.toMinute suffix) =
      if folder ≠ "" ∧ '\n' ∉ folder.toList then foldedName folder
      else quarantinedFolderPath folder w.toMinute suffix := by
  obtain ⟨cs, hcs, hname⟩ := quarantineName_stamped folder w suffix
  have hafter : afterText (removedContainer ++ "/")
      (quarantinedFolderPath folder w.toMinute suffix).toList =
        some ((foldedName folder).toList ++ cs) := by
    rw [afterText_iff, ← hname, quarantinedFolderPath, String.toList_append]
  simp only [originalFolderName, hafter, quarantinedName_stamped _ hcs, newline_mem_foldedName,
    Ne, String.toList_eq_nil_iff, foldedName_eq_empty]
  split
  · rw [Option.map_some, String.ofList_toList, Option.getD_some]
  · rfl

theorem quarantinedFolderPath_ne (folder : String) (w : CalendarMinute) (suffix : Option ℕ) :
    quarantinedFolderPath folder w.toMinute suffix ≠ folder := by
  obtain ⟨cs, -, hname⟩ := quarantineName_stamped folder w suffix
  have hlonger : folder.length < (quarantinedFolderPath folder w.toMinute suffix).length := by
    rw [quarantinedFolderPath, ← String.length_toList, ← String.length_toList,
      String.toList_append, hname, foldedName, String.toList_ofList]
    simp
    omega
  exact fun h => absurd (congrArg String.length h) hlonger.ne'

/-- Exactly the names without a separator, a colon or a line break survive. -/
theorem undoesQuarantine_iff (folder : String) (w : CalendarMinute) (suffix : Option ℕ) :
    UndoesQuarantine folder w suffix ↔
      folder ≠ "" ∧ ∀ c ∈ folder.toList, c ≠ '/' ∧ c ≠ ':' ∧ c ≠ '\n' := by
  rw [UndoesQuarantine, originalFolderName_quarantined]
  split
  · rename_i hgood
    rw [foldedName_eq_iff]
    constructor
    · rintro ⟨hplain, -⟩
      exact ⟨hgood.1, fun c hc => ⟨(hplain c hc).1, (hplain c hc).2, fun heq => hgood.2 (heq ▸ hc)⟩⟩
    · rintro ⟨-, hplain⟩
      exact ⟨fun c hc => ⟨(hplain c hc).1, (hplain c hc).2.1⟩,
        fun path => originalFolderName_outside⟩
  · rename_i hbad
    constructor
    · rintro ⟨hpath, -⟩
      exact absurd hpath (quarantinedFolderPath_ne folder w suffix)
    · rintro ⟨hne, hplain⟩
      exact absurd ⟨hne, fun h => (hplain '\n' h).2.2 rfl⟩ hbad

/-- A folder below another does not get its name back. -/
theorem not_undoesQuarantine :
    ¬ ∀ (folder : String) (w : CalendarMinute) (suffix : Option ℕ),
      UndoesQuarantine folder w suffix := by
  intro h
  have hfolder := (h "Work/2024"
    ⟨⟨2026, 1, 2, 3, 4⟩, by decide, by decide, by decide, by decide, by decide⟩ none).1
  rw [originalFolderName_quarantined] at hfolder
  revert hfolder
  decide +kernel

end MailFallback
