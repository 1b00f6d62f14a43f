import Mathlib.Data.List.Basic

/-! # A text file that is read line by line while it is written

Python's text streams end a line at a line feed, at a carriage return and at the two of them
together, and give every line but the last with one line feed. -/

namespace TextReader

/-- The lines of a text, behind what was already read of the first. -/
def linesFrom (line : List Char) : List Char → List (List Char)
  | [] => if line = [] then [] else [line.reverse]
  | '\r' :: '\n' :: cs => ('\n' :: line).reverse :: linesFrom [] cs
  | c :: cs =>
      if c = '\r' ∨ c = '\n' then ('\n' :: line).reverse :: linesFrom [] cs
      else linesFrom (c :: line) cs

/-- `for line in file` over the whole of a file. -/
def fileLines (cs : List Char) : List String := (linesFrom [] cs).map String.ofList

/-- A reader in the middle of a file, with what it read of the line backwards. -/
structure Reader where
  line : List Char := []
  /-- The last character was a carriage return, and a line feed after it belongs to it. -/
  afterReturn : Bool := false

variable {β : Type*} (handle : β → String → β)

/-- One more character. -/
def feed (r : Reader × β) (c : Char) : Reader × β :=
  if c = '\r' then (⟨[], true⟩, handle r.2 (String.ofList ('\n' :: r.1.line).reverse))
  else if c = '\n' then
    if r.1.afterReturn then (⟨[], false⟩, r.2)
    else (⟨[], false⟩, handle r.2 (String.ofList ('\n' :: r.1.line).reverse))
  else (⟨c :: r.1.line, false⟩, r.2)

/-- The end of the file. -/
def flush (r : Reader × β) : β :=
  if r.1.line = [] then r.2 else handle r.2 (String.ofList r.1.line.reverse)

/-- What a reader makes of the rest of the file is what it makes of the lines. -/
theorem flush_foldl_feed (cs : List Char) (line : List Char) (afterReturn : Bool) (b : β)
    (h : afterReturn = true → line = [] ∧ ∀ c ∈ cs.head?, c ≠ '\n') :
    flush handle (cs.foldl (feed handle) (⟨line, afterReturn⟩, b)) =
      ((linesFrom line cs).map String.ofList).foldl handle b := by
  induction line, cs using linesFrom.induct generalizing afterReturn b with
  | case1 => simp [flush, linesFrom]
  | case2 line hline => simp [flush, linesFrom, hline]
  | case3 line cs ih =>
      simpa [feed, linesFrom] using ih false _ (by simp)
  | case4 line c cs hnot hbreak ih =>
      have hlines : linesFrom line (c :: cs) = ('\n' :: line).reverse :: linesFrom [] cs := by
        rw [linesFrom, if_pos hbreak]
        exact hnot
      rw [hlines, List.map_cons, List.foldl_cons, List.foldl_cons]
      by_cases hreturn : c = '\r'
      · subst hreturn
        refine ih true _ fun _ => ⟨rfl, ?_⟩
        intro d hd hnew
        subst hnew
        cases cs with
        | nil => simp at hd
        | cons e rest =>
            obtain rfl : e = '\n' := by simpa using hd
            exact hnot rest rfl rfl
      · have hfeed : c = '\n' := hbreak.resolve_left hreturn
        subst hfeed
        have hafter : afterReturn = false := by
          cases afterReturn with
          | false => rfl
          | true => exact absurd rfl ((h rfl).2 '\n' (by simp))
        subst hafter
        exact ih false _ (by simp)
  | case5 line c cs hnot hbreak ih =>
      obtain ⟨hreturn, hnew⟩ := not_or.mp hbreak
      have hlines : linesFrom line (c :: cs) = linesFrom (c :: line) cs := by
        rw [linesFrom, if_neg hbreak]
        exact hnot
      have hfeed : feed handle (⟨line, afterReturn⟩, b) c = (⟨c :: line, false⟩, b) := by
        simp [feed, hreturn, hnew]
      rw [hlines, List.foldl_cons, hfeed]
      exact ih false b (by simp)

theorem flush_fileLines (cs : List Char) (b : β) :
    flush handle (cs.foldl (feed handle) ({}, b)) = (fileLines cs).foldl handle b :=
  flush_foldl_feed handle cs [] false b (by simp)

/-- A reader that has stopped listening does not change any more. -/
theorem foldl_feed_of_deaf {b : β} (hdeaf : ∀ line, handle b line = b) (r : Reader)
    (cs : List Char) : (cs.foldl (feed handle) (r, b)).2 = b := by
  induction cs generalizing r with
  | nil => rfl
  | cons c cs ih =>
      have hfeed : (feed handle (r, b) c).2 = b := by
        unfold feed
        repeat' split
        all_goals simp [hdeaf]
      rw [List.foldl_cons, ← Prod.eta (feed handle (r, b) c), hfeed]
      exact ih _

theorem flush_of_deaf {b : β} (hdeaf : ∀ line, handle b line = b) (r : Reader) :
    flush handle (r, b) = b := by
  unfold flush
  split
  · rfl
  · exact hdeaf _

/-- What was made of a part of the file stands for all of it when the reader stopped there. -/
theorem foldl_of_deaf {b : β} {cs rest : List Char} {r : Reader} {b₀ : β}
    (h : cs.foldl (feed handle) ({}, b₀) = (r, b)) (hdeaf : ∀ line, handle b line = b) :
    (fileLines (cs ++ rest)).foldl handle b₀ = b := by
  have hrest := foldl_feed_of_deaf handle hdeaf r rest
  rw [← flush_fileLines, List.foldl_append, h, ← Prod.eta (rest.foldl (feed handle) (r, b)), hrest]
  exact flush_of_deaf handle hdeaf _

/-! ## A queue of bounded length -/

/-- `deque(items, maxlen=n)` -/
def keepLast {α : Type*} (n : ℕ) (items : List α) : List α := items.drop (items.length - n)

/-- `append` to such a queue. -/
def push {α : Type*} (n : ℕ) (queue : List α) (a : α) : List α := keepLast n (queue ++ [a])

theorem push_keepLast {α : Type*} (n : ℕ) (items : List α) (a : α) :
    push n (keepLast n items) a = keepLast n (items ++ [a]) := by
  unfold push keepLast
  by_cases h : items.length ≤ n
  · rw [Nat.sub_eq_zero_of_le h, List.drop_zero]
  · have hlen : (items.drop (items.length - n) ++ [a]).length - n = 1 := by
      simp
      omega
    have hlen' : (items ++ [a]).length - n = items.length - n + 1 := by
      simp
      omega
    rw [hlen, hlen', ← List.drop_drop]
    congr 1
    rw [List.drop_append_of_le_length (by omega)]

theorem foldl_push {α : Type*} (n : ℕ) (l items : List α) :
    l.foldl (push n) (keepLast n items) = keepLast n (items ++ l) := by
  induction l generalizing items with
  | nil => simp
  | cons a l ih => rw [List.foldl_cons, push_keepLast, ih, List.append_assoc, List.singleton_append]

example : fileLines "ab\r\n\rc\nd".toList = ["ab\n", "\n", "c\n", "d"] := by decide

end TextReader
