import MailFallback.Library.Pattern

/-! # Regular expressions

Python's `re`, for expressions that repeat classes of characters only. A match is the first of
the places to which an expression leads, in the order in which backtracking tries them. -/

inductive Regex where
  | empty
  /-- A text; `fold` says which characters are the same. -/
  | text (fold : Char → Char) (s : String)
  /-- One character of a class. -/
  | one (p : Char → Bool)
  /-- As many characters of a class as possible, perhaps none. -/
  | star (p : Char → Bool)
  /-- As many as possible, at least one. -/
  | plus (p : Char → Bool)
  | seq (r s : Regex)
  /-- The first choice is preferred. -/
  | alt (r s : Regex)
  | group (n : ℕ) (r : Regex)
  /-- `^` -/
  | start
  /-- `$`, which also matches before a line feed that ends the text. -/
  | stop

namespace Regex

/-- A place in a text, with what the groups have captured on the way there. -/
structure Place where
  start : Bool
  rest : List Char
  groups : List (ℕ × List Char) := []
  deriving DecidableEq, Repr

/-- The text of a group. -/
def Place.group (m : Place) (n : ℕ) : List Char := (m.groups.lookup n).getD []

/-- The group took part in the match. -/
def Place.has (m : Place) (n : ℕ) : Bool := (m.groups.lookup n).isSome

def Place.move (m : Place) (rest : List Char) : Place :=
  { m with rest := rest, start := m.start && rest == m.rest }

/-- What is left behind a run of such characters, the longest run first. -/
def longest (p : Char → Bool) : List Char → List (List Char)
  | [] => [[]]
  | c :: cs => if p c = true then longest p cs ++ [c :: cs] else [c :: cs]

/-- The places to which the expression leads, the preferred one first. -/
def run : Regex → Place → List Place
  | .empty, m => [m]
  | .text fold s, m => ((Pattern.afterPrefix? fold s.toList m.rest).map m.move).toList
  | .one p, m =>
      match m.rest with
      | [] => []
      | c :: cs => if p c = true then [m.move cs] else []
  | .star p, m => (longest p m.rest).map m.move
  | .plus p, m => (longest p m.rest).dropLast.map m.move
  | .seq r s, m => (r.run m).flatMap s.run
  | .alt r s, m => r.run m ++ s.run m
  | .group n r, m => (r.run m).map fun m' =>
      { m' with groups := (n, m.rest.take (m.rest.length - m'.rest.length)) :: m'.groups }
  | .start, m => if m.start = true then [m] else []
  | .stop, m => if m.rest = [] ∨ m.rest = ['\n'] then [m] else []

/-- `re.match` -/
def match? (r : Regex) (s : List Char) : Option Place := (r.run ⟨true, s, []⟩).head?

/-- `re.search`, from some place on. -/
def searchFrom (r : Regex) (start : Bool) : List Char → Option Place
  | [] => (r.run ⟨start, [], []⟩).head?
  | c :: cs => (r.run ⟨start, c :: cs, []⟩).head?.or (searchFrom r false cs)

def search (r : Regex) (s : List Char) : Option Place := searchFrom r true s

attribute [local simp] longest run searchFrom

/-- `s` as it stands. -/
def lit (s : String) : Regex := .text id s

/-- One expression behind the other. -/
def all : List Regex → Regex
  | [] => .empty
  | [r] => r
  | r :: rs => .seq r (all rs)

example : ((all [.start, lit "F: +", .group 1 (.plus Char.isDigit), lit "/"]).match?
    "F: +12/40".toList).map (fun m => (m.group 1, m.rest)) = some (['1', '2'], ['4', '0']) := by
  decide

/-! ## Runs of characters -/

variable {p : Char → Bool} {cs rest : List Char} {c : Char}

theorem longest_of_not (h : ∀ c ∈ rest.head?, p c = false) : longest p rest = [rest] := by
  cases rest with
  | nil => rfl
  | cons c rest => simp [longest, h c rfl]

/-- The longest run takes all of a text of such characters. -/
theorem longest_append (rest : List Char) (hcs : ∀ c ∈ cs, p c = true) :
    ∃ shorter, longest p (cs ++ rest) = longest p rest ++ shorter := by
  induction cs with
  | nil => exact ⟨[], (List.append_nil _).symm⟩
  | cons c cs ih =>
      obtain ⟨hc, hcs⟩ := List.forall_mem_cons.mp hcs
      obtain ⟨shorter, heq⟩ := ih hcs
      refine ⟨shorter ++ [c :: cs ++ rest], ?_⟩
      rw [List.cons_append, longest, if_pos hc, heq, List.append_assoc]

/-- What may be left is the text behind some such characters. -/
theorem mem_longest {l : List Char} : l ∈ longest p cs ↔
    ∃ run, cs = run ++ l ∧ ∀ c ∈ run, p c = true := by
  induction cs with
  | nil =>
      rw [longest, List.mem_singleton]
      constructor
      · rintro rfl
        exact ⟨[], rfl, (fun _ h => by cases h)⟩
      · rintro ⟨run, heq, -⟩
        exact (List.append_eq_nil_iff.mp heq.symm).2
  | cons c cs ih =>
      rw [longest]
      split
      · rename_i hc
        rw [List.mem_append, ih, List.mem_singleton]
        constructor
        · rintro (⟨run, rfl, hrun⟩ | rfl)
          · exact ⟨c :: run, rfl, List.forall_mem_cons.mpr ⟨hc, hrun⟩⟩
          · exact ⟨[], rfl, (fun _ h => by cases h)⟩
        · rintro ⟨run, heq, hrun⟩
          cases run with
          | nil => exact .inr heq.symm
          | cons c' run =>
              obtain ⟨rfl, rfl⟩ := List.cons.inj heq
              exact .inl ⟨run, rfl, (List.forall_mem_cons.mp hrun).2⟩
      · rename_i hc
        rw [List.mem_singleton]
        constructor
        · rintro rfl
          exact ⟨[], rfl, (fun _ h => by cases h)⟩
        · rintro ⟨run, heq, hrun⟩
          cases run with
          | nil => exact heq.symm
          | cons c' run =>
              obtain ⟨rfl, rfl⟩ := List.cons.inj heq
              exact absurd (List.forall_mem_cons.mp hrun).1 hc

/-- The characters of a class up to the first one outside it are found in one way only. -/
theorem taken_unique {p : Char → Bool} {xs ys rest rest' : List Char} {c c' : Char}
    (hxs : ∀ d ∈ xs, p d = true) (hc : p c = false) (hys : ∀ d ∈ ys, p d = true)
    (hc' : p c' = false) (h : xs ++ c :: rest = ys ++ c' :: rest') :
    xs = ys ∧ c = c' ∧ rest = rest' := by
  induction xs generalizing ys with
  | nil =>
      cases ys with
      | nil => exact ⟨rfl, List.cons.inj h⟩
      | cons y ys =>
          obtain ⟨rfl, -⟩ := List.cons.inj h
          exact absurd (hys c List.mem_cons_self) (by simp [hc])
  | cons x xs ih =>
      cases ys with
      | nil =>
          obtain ⟨rfl, -⟩ := List.cons.inj h
          exact absurd (hxs x List.mem_cons_self) (by simp [hc'])
      | cons y ys =>
          obtain ⟨rfl, htail⟩ := List.cons.inj h
          obtain ⟨rfl, hrest⟩ :=
            ih (List.forall_mem_cons.mp hxs).2 (List.forall_mem_cons.mp hys).2 htail
          exact ⟨rfl, hrest⟩

/-! ## All matches -/

section Membership

variable {r r' : Regex} {m m' : Place} {s : String} {n : ℕ}

@[simp] theorem Place.move_rest (m : Place) (rest : List Char) : (m.move rest).rest = rest := rfl

@[simp] theorem Place.move_groups (m : Place) (rest : List Char) :
    (m.move rest).groups = m.groups := rfl

theorem afterPrefix_iff {fold : Char → Char} {pre : List Char} :
    Pattern.afterPrefix? fold pre cs = some rest ↔
      ∃ taken, cs = taken ++ rest ∧ taken.map fold = pre.map fold := by
  induction pre generalizing cs with
  | nil =>
      rw [Pattern.afterPrefix?, Option.some_inj]
      constructor
      · rintro rfl
        exact ⟨[], rfl, rfl⟩
      · rintro ⟨taken, rfl, htaken⟩
        rw [List.map_eq_nil_iff.mp htaken, List.nil_append]
  | cons p pre ih =>
      cases cs with
      | nil =>
          refine iff_of_false (fun h => by cases h) ?_
          rintro ⟨taken, heq, htaken⟩
          rw [(List.append_eq_nil_iff.mp heq.symm).1] at htaken
          cases htaken
      | cons c cs =>
          rw [Pattern.afterPrefix?, Option.ite_none_right_eq_some, ih]
          constructor
          · rintro ⟨hc, taken, rfl, htaken⟩
            exact ⟨c :: taken, rfl, by rw [List.map_cons, List.map_cons, hc, htaken]⟩
          · rintro ⟨taken, heq, htaken⟩
            cases taken with
            | nil => cases htaken
            | cons d taken =>
                obtain ⟨rfl, rfl⟩ := List.cons.inj heq
                obtain ⟨hc, htaken⟩ := List.cons.inj htaken
                exact ⟨hc.symm, taken, rfl, htaken⟩

theorem afterPrefix_id_iff {pre : List Char} :
    Pattern.afterPrefix? id pre cs = some rest ↔ cs = pre ++ rest := by
  rw [afterPrefix_iff]
  simp only [List.map_id]
  constructor
  · rintro ⟨_, heq, rfl⟩
    exact heq
  · exact fun heq => ⟨pre, heq, rfl⟩

theorem mem_run_text {fold : Char → Char} : m' ∈ (text fold s).run m ↔
    ∃ taken rest, m.rest = taken ++ rest ∧ taken.map fold = s.toList.map fold ∧
      m' = m.move rest := by
  rw [run, Option.mem_toList, Option.map_eq_some_iff]
  constructor
  · rintro ⟨rest, hrest, rfl⟩
    obtain ⟨taken, heq, htaken⟩ := afterPrefix_iff.mp hrest
    exact ⟨taken, rest, heq, htaken, rfl⟩
  · rintro ⟨taken, rest, heq, htaken, rfl⟩
    exact ⟨rest, afterPrefix_iff.mpr ⟨taken, heq, htaken⟩, rfl⟩

theorem mem_run_lit : m' ∈ (lit s).run m ↔ ∃ rest, m.rest = s.toList ++ rest ∧ m' = m.move rest := by
  rw [lit, run, Option.mem_toList, Option.map_eq_some_iff]
  exact exists_congr fun rest => and_congr afterPrefix_id_iff eq_comm

theorem mem_run_star : m' ∈ (star p).run m ↔
    ∃ taken rest, m.rest = taken ++ rest ∧ (∀ c ∈ taken, p c = true) ∧ m' = m.move rest := by
  rw [run, List.mem_map]
  constructor
  · rintro ⟨l, hl, rfl⟩
    obtain ⟨taken, heq, htaken⟩ := mem_longest.mp hl
    exact ⟨taken, l, heq, htaken, rfl⟩
  · rintro ⟨taken, l, heq, htaken, rfl⟩
    exact ⟨l, mem_longest.mpr ⟨taken, heq, htaken⟩, rfl⟩

theorem mem_dropLast_longest {l : List Char} : l ∈ (longest p cs).dropLast ↔
    ∃ taken, taken ≠ [] ∧ cs = taken ++ l ∧ ∀ c ∈ taken, p c = true := by
  cases cs with
  | nil =>
      constructor
      · intro h
        cases h
      · rintro ⟨taken, hne, heq, -⟩
        exact absurd (List.append_eq_nil_iff.mp heq.symm).1 hne
  | cons c cs =>
      rw [longest]
      split
      · rename_i hc
        rw [List.dropLast_concat, mem_longest]
        constructor
        · rintro ⟨taken, rfl, htaken⟩
          exact ⟨c :: taken, List.cons_ne_nil _ _, rfl, List.forall_mem_cons.mpr ⟨hc, htaken⟩⟩
        · rintro ⟨taken, hne, heq, htaken⟩
          cases taken with
          | nil => exact absurd rfl hne
          | cons d taken =>
              obtain ⟨-, heq⟩ := List.cons.inj heq
              exact ⟨taken, heq, (List.forall_mem_cons.mp htaken).2⟩
      · rename_i hc
        constructor
        · intro h
          cases h
        · rintro ⟨taken, hne, heq, htaken⟩
          cases taken with
          | nil => exact absurd rfl hne
          | cons d taken =>
              obtain ⟨rfl, -⟩ := List.cons.inj heq
              exact absurd (List.forall_mem_cons.mp htaken).1 hc

theorem mem_run_plus : m' ∈ (plus p).run m ↔ ∃ taken rest, taken ≠ [] ∧ m.rest = taken ++ rest ∧
    (∀ c ∈ taken, p c = true) ∧ m' = m.move rest := by
  rw [run, List.mem_map]
  constructor
  · rintro ⟨l, hl, rfl⟩
    obtain ⟨taken, hne, heq, htaken⟩ := mem_dropLast_longest.mp hl
    exact ⟨taken, l, hne, heq, htaken, rfl⟩
  · rintro ⟨taken, l, hne, heq, htaken, rfl⟩
    exact ⟨l, mem_dropLast_longest.mpr ⟨taken, hne, heq, htaken⟩, rfl⟩

theorem mem_run_seq : m' ∈ (r.seq r').run m ↔ ∃ m₁ ∈ r.run m, m' ∈ r'.run m₁ := by
  rw [run, List.mem_flatMap]

theorem mem_run_alt : m' ∈ (r.alt r').run m ↔ m' ∈ r.run m ∨ m' ∈ r'.run m := by
  rw [run, List.mem_append]

theorem mem_run_group : m' ∈ (group n r).run m ↔ ∃ m₁ ∈ r.run m, m' = { m₁ with
    groups := (n, m.rest.take (m.rest.length - m₁.rest.length)) :: m₁.groups } := by
  rw [run, List.mem_map]
  exact exists_congr fun m₁ => and_congr_right fun _ => eq_comm

theorem mem_run_start : m' ∈ start.run m ↔ m.start = true ∧ m' = m := by
  rw [run]
  split
  · rename_i h
    rw [List.mem_singleton, and_iff_right h]
  · rename_i h
    exact iff_of_false (fun hm => by cases hm) fun hm => h hm.1

theorem mem_run_stop : m' ∈ stop.run m ↔ (m.rest = [] ∨ m.rest = ['\n']) ∧ m' = m := by
  rw [run]
  split
  · rename_i h
    rw [List.mem_singleton, and_iff_right h]
  · rename_i h
    exact iff_of_false (fun hm => by cases hm) fun hm => h hm.1

/-- The text of a group is what was taken. -/
theorem take_taken (taken rest : List Char) :
    (taken ++ rest).take ((taken ++ rest).length - rest.length) = taken := by
  rw [List.length_append, Nat.add_sub_cancel, List.take_left]

/-- A search finds nothing when no place in the text starts a match. -/
theorem searchFrom_eq_none {start : Bool} : searchFrom r start cs = none ↔
    ∀ pre rest, cs = pre ++ rest → r.run ⟨start && pre.isEmpty, rest, []⟩ = [] := by
  induction cs generalizing start with
  | nil =>
      rw [searchFrom, List.head?_eq_none_iff]
      constructor
      · intro h pre rest heq
        obtain ⟨rfl, rfl⟩ := List.append_eq_nil_iff.mp heq.symm
        rw [List.isEmpty_nil, Bool.and_true]
        exact h
      · intro h
        have := h [] [] rfl
        rwa [List.isEmpty_nil, Bool.and_true] at this
  | cons c cs ih =>
      rw [searchFrom, Option.or_eq_none_iff, List.head?_eq_none_iff, ih]
      constructor
      · rintro ⟨hhere, hlater⟩ pre rest heq
        cases pre with
        | nil =>
            rw [List.nil_append] at heq
            rw [← heq, List.isEmpty_nil, Bool.and_true]
            exact hhere
        | cons d pre =>
            obtain ⟨-, heq⟩ := List.cons.inj heq
            have := hlater pre rest heq
            rw [Bool.false_and] at this
            rw [List.isEmpty_cons, Bool.and_false]
            exact this
      · intro h
        constructor
        · have := h [] (c :: cs) rfl
          rwa [List.isEmpty_nil, Bool.and_true] at this
        · intro pre rest heq
          have := h (c :: pre) rest (by rw [heq, List.cons_append])
          rwa [List.isEmpty_cons, Bool.and_false] at this

/-- What a search finds is a match at the first place of the text at which there is one. -/
theorem mem_run_of_searchFrom {start : Bool} (h : searchFrom r start cs = some m) :
    ∃ pre rest, cs = pre ++ rest ∧ m ∈ r.run ⟨start && pre.isEmpty, rest, []⟩ ∧
      ∀ pre' rest', cs = pre' ++ rest' → pre'.length < pre.length →
        r.run ⟨start && pre'.isEmpty, rest', []⟩ = [] := by
  induction cs generalizing start with
  | nil =>
      refine ⟨[], [], rfl, ?_, fun _ _ _ hlt => absurd hlt (Nat.not_lt_zero _)⟩
      rw [List.isEmpty_nil, Bool.and_true]
      exact List.mem_of_mem_head? h
  | cons c cs ih =>
      rw [searchFrom, Option.or_eq_some_iff] at h
      rcases h with h | ⟨hnone, h⟩
      · refine ⟨[], c :: cs, rfl, ?_, fun _ _ _ hlt => absurd hlt (Nat.not_lt_zero _)⟩
        rw [List.isEmpty_nil, Bool.and_true]
        exact List.mem_of_mem_head? h
      · obtain ⟨pre, rest, rfl, hm, hearlier⟩ := ih h
        refine ⟨c :: pre, rest, rfl, ?_, fun pre' rest' heq hlt => ?_⟩
        · rw [List.isEmpty_cons, Bool.and_false]
          rwa [Bool.false_and] at hm
        · cases pre' with
          | nil =>
              rw [List.nil_append] at heq
              rw [← heq, List.isEmpty_nil, Bool.and_true]
              exact List.head?_eq_none_iff.mp hnone
          | cons d pre' =>
              obtain ⟨-, heq⟩ := List.cons.inj heq
              have hnot := hearlier pre' rest' heq (Nat.lt_of_succ_lt_succ hlt)
              rw [Bool.false_and] at hnot
              rw [List.isEmpty_cons, Bool.and_false]
              exact hnot

end Membership

/-! ## First matches -/

variable {r r' : Regex} {m m' m'' : Place} {s : String} {n : ℕ}

theorem afterPrefix_append (fold : Char → Char) (pre rest : List Char) :
    Pattern.afterPrefix? fold pre (pre ++ rest) = some rest := by
  induction pre with
  | nil => rfl
  | cons c pre ih => rw [List.cons_append, Pattern.afterPrefix?, if_pos rfl, ih]

/-- Behind at least one character the text does not start. -/
theorem Place.move_append (pre : List Char) (h : m.rest = pre ++ rest) (hne : pre ≠ []) :
    m.move rest = ⟨false, rest, m.groups⟩ := by
  have hbeq : (rest == m.rest) = false := by
    refine beq_false_of_ne fun heq => hne ?_
    rw [h] at heq
    exact List.append_left_eq_self.mp heq.symm
  rw [move, hbeq, Bool.and_false]

theorem run_lit (rest : List Char) (h : m.rest = s.toList ++ rest) (hne : s.toList ≠ []) :
    (lit s).run m = [⟨false, rest, m.groups⟩] := by
  rw [lit, run, h, afterPrefix_append, Option.map_some, Option.toList_some, Place.move_append _ h hne]

theorem run_lit_of_head {c : Char} {text : List Char} (hs : s.toList = c :: text)
    (h : ∀ d ∈ m.rest.head?, c ≠ d) : (lit s).run m = [] := by
  have hnone : Pattern.afterPrefix? id s.toList m.rest = none := by
    rw [hs]
    cases hrest : m.rest with
    | nil => rfl
    | cons d rest =>
        rw [hrest] at h
        exact if_neg (h d rfl)
  rw [lit, run, hnone]
  rfl

theorem run_seq_nil (h : r.run m = []) : (r.seq r').run m = [] := by
  rw [run, h]
  rfl

/-- The first place from which the second expression matches. -/
theorem head?_seq (xs ys : List Place) (h : r.run m = xs ++ m' :: ys) (hxs : ∀ x ∈ xs, r'.run x = [])
    (h' : (r'.run m').head? = some m'') : ((r.seq r').run m).head? = some m'' := by
  have hnil : xs.flatMap r'.run = [] := List.flatMap_eq_nil_iff.mpr hxs
  rw [run, h, List.flatMap_append, hnil, List.nil_append, List.flatMap_cons, List.head?_append, h']
  rfl

/-- The places to which a group of characters of a class may lead. -/
theorem run_group_plus (n : ℕ) (start : Bool) (groups : List (ℕ × List Char)) (hc : p c = true) :
    (group n (.plus p)).run ⟨start, c :: cs, groups⟩ = (longest p cs).map fun l =>
      ⟨false, l, (n, (c :: cs).take ((c :: cs).length - l.length)) :: groups⟩ := by
  have hmove : ∀ l ∈ longest p cs,
      Place.move ⟨start, c :: cs, groups⟩ l = ⟨false, l, groups⟩ := by
    intro l hl
    obtain ⟨run, rfl, -⟩ := mem_longest.mp hl
    exact Place.move_append (c :: run) rfl (List.cons_ne_nil _ _)
  rw [run, run, longest, if_pos hc, List.dropLast_concat, List.map_map]
  refine List.map_congr_left fun l hl => ?_
  simp only [Function.comp_apply, hmove l hl]

/-- It takes as many as there are, if what follows can go on from there. -/
theorem first_group_plus (n : ℕ) (start : Bool) (groups : List (ℕ × List Char))
    (hcs : ∀ c ∈ cs, p c = true) (hne : cs ≠ []) (hrest : ∀ c ∈ rest.head?, p c = false) :
    ∃ ys, (group n (.plus p)).run ⟨start, cs ++ rest, groups⟩ =
      ⟨false, rest, (n, cs) :: groups⟩ :: ys := by
  cases cs with
  | nil => exact absurd rfl hne
  | cons c cs =>
      obtain ⟨hc, hcs⟩ := List.forall_mem_cons.mp hcs
      obtain ⟨shorter, heq⟩ := longest_append rest hcs
      have htaken : (c :: (cs ++ rest)).take ((c :: (cs ++ rest)).length - rest.length) = c :: cs := by
        rw [← List.cons_append, List.length_append, Nat.add_sub_cancel, List.take_left]
      rw [List.cons_append, run_group_plus n start groups hc, heq, longest_of_not hrest,
        List.singleton_append, List.map_cons, htaken]
      exact ⟨_, rfl⟩

end Regex
