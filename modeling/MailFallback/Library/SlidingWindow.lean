import Mathlib.Algebra.Order.Group.Basic
import Mathlib.Data.List.Count

/-! # Sliding windows

A limiter accepts an arrival if few of its key were accepted within the window before it. -/

namespace SlidingWindow

variable {α κ T : Type*}

/-- Which arrivals compete, and how many of them may come how close together. -/
structure Limiter (α κ T : Type*) where
  key : α → κ
  time : α → T
  /-- Nothing where any number may come. -/
  limit : κ → Option ℕ
  window : κ → T

/-- The arrivals so far, and whether they were accepted. -/
abbrev Log (α : Type*) := List (α × Bool)

variable [DecidableEq κ] (L : Limiter α κ T)

/-- How many of a key were accepted at such times. -/
def accepted (log : Log α) (k : κ) (I : T → Prop) [DecidablePred I] : ℕ :=
  log.countP fun e => e.2 && decide (L.key e.1 = k ∧ I (L.time e.1))

variable {L} {log log' : Log α} {as bs : List α} {a : α} {k : κ} {n : ℕ}
  {I J : T → Prop} [DecidablePred I] [DecidablePred J]

/-! ## Counting -/

@[simp] theorem accepted_nil : accepted L [] k I = 0 := rfl

theorem accepted_append : accepted L (log ++ log') k I = accepted L log k I + accepted L log' k I :=
  List.countP_append

theorem accepted_refused : accepted L [(a, false)] k I = 0 := by simp [accepted]

theorem accepted_mono (h : ∀ t, I t → J t) : accepted L log k I ≤ accepted L log k J := by
  refine List.countP_mono_left fun e _ he => ?_
  simp only [Bool.and_eq_true, decide_eq_true_eq] at he ⊢
  exact ⟨he.1, he.2.1, h _ he.2.2⟩

theorem accepted_congr (h : ∀ e ∈ log, (I (L.time e.1) ↔ J (L.time e.1))) :
    accepted L log k I = accepted L log k J := by
  refine List.countP_congr fun e he => ?_
  simp only [Bool.and_eq_true, decide_eq_true_eq, h e he]

/-! ## Outcomes -/

variable [AddCommGroup T] [LinearOrder T]

def admits (L : Limiter α κ T) (log : Log α) (a : α) : Bool :=
  (L.limit (L.key a)).all fun n => decide
    (accepted L log (L.key a) (fun t => L.time a - t < L.window (L.key a)) < n)

/-- The outcomes of further arrivals. -/
def outcomes (L : Limiter α κ T) (log : Log α) : List α → Log α
  | [] => []
  | a :: as => (a, admits L log a) :: outcomes L (log ++ [(a, admits L log a)]) as

theorem admits_congr
    (h : ∀ k (I : T → Prop) [DecidablePred I], accepted L log k I = accepted L log' k I) :
    admits L log a = admits L log' a := by
  rw [admits, admits, h]

@[simp] theorem map_outcomes (log : Log α) : (outcomes L log as).map Prod.fst = as := by
  induction as generalizing log with
  | nil => rfl
  | cons a as ih => rw [outcomes, List.map_cons, ih]

theorem outcomes_append (log : Log α) : outcomes L log (as ++ bs) =
    outcomes L log as ++ outcomes L (log ++ outcomes L log as) bs := by
  induction as generalizing log with
  | nil => rw [List.nil_append, outcomes, List.append_nil, List.nil_append]
  | cons a as ih => rw [List.cons_append, outcomes, outcomes, ih, List.cons_append,
      List.append_assoc, List.singleton_append]

/-- What led to an outcome, and what followed. -/
theorem outcomes_split {before after : Log α} {e : α × Bool}
    (h : outcomes L log as = before ++ e :: after) :
    ∃ as' bs, as = as' ++ e.1 :: bs ∧ outcomes L log as' = before ∧
      e.2 = admits L (log ++ before) e.1 ∧ outcomes L (log ++ before ++ [e]) bs = after := by
  have has : as = before.map Prod.fst ++ e.1 :: after.map Prod.fst := by
    rw [← List.map_cons, ← List.map_append, ← h, map_outcomes]
  rw [has, outcomes_append, outcomes] at h
  have hlength : (outcomes L log (before.map Prod.fst)).length = before.length := by
    rw [← List.length_map Prod.fst, map_outcomes, List.length_map]
  obtain ⟨hbefore, hrest⟩ := List.append_inj h hlength
  rw [hbefore] at hrest
  obtain ⟨he, hafter⟩ := List.cons.inj hrest
  refine ⟨_, _, has, hbefore, ?_, ?_⟩
  · rw [← he]
  · rwa [he] at hafter

/-- Only what was accepted counts. -/
theorem outcomes_congr (hsame : ∀ k (I : T → Prop) [DecidablePred I], accepted L log k I = accepted L log' k I) :
    outcomes L log as = outcomes L log' as := by
  induction as generalizing log log' with
  | nil => rfl
  | cons a as ih =>
      rw [outcomes, outcomes, admits_congr hsame]
      have hcount : ∀ k (I : T → Prop) [DecidablePred I],
          accepted L (log ++ [(a, admits L log' a)]) k I =
            accepted L (log' ++ [(a, admits L log' a)]) k I := by
        intro k I _
        rw [accepted_append, accepted_append, hsame]
      rw [ih hcount]

/-- A refusal changes nothing for the others. -/
theorem outcomes_without {before after : Log α}
    (h : outcomes L log as = before ++ (a, false) :: after) :
    outcomes L log ((before ++ after).map Prod.fst) = before ++ after := by
  obtain ⟨as', bs, rfl, hbefore, -, hafter⟩ := outcomes_split h
  have hcount : ∀ k (I : T → Prop) [DecidablePred I],
      accepted L (log ++ before ++ [(a, false)]) k I = accepted L (log ++ before) k I := by
    intro k I _
    rw [accepted_append, accepted_refused, Nat.add_zero]
  rw [outcomes_congr hcount] at hafter
  rw [← hbefore, ← hafter, List.map_append, map_outcomes, map_outcomes, outcomes_append, hbefore]

/-- Nor do arrivals of other keys. -/
theorem outcomes_filter (S : κ → Prop) [DecidablePred S] (log : Log α) :
    (outcomes L log as).filter (fun e => decide (S (L.key e.1))) =
      outcomes L (log.filter fun e => decide (S (L.key e.1)))
        (as.filter fun a => decide (S (L.key a))) := by
  induction as generalizing log with
  | nil => rfl
  | cons a as ih =>
      rw [outcomes]
      by_cases ha : S (L.key a)
      · have hcount : ∀ I : T → Prop, ∀ _ : DecidablePred I,
            accepted L (log.filter fun e => decide (S (L.key e.1))) (L.key a) I =
              accepted L log (L.key a) I := by
          intro I _
          rw [accepted, List.countP_filter]
          refine List.countP_congr fun e _ => ?_
          simp only [Bool.and_eq_true, decide_eq_true_eq]
          constructor
          · exact fun h => h.1
          · exact fun h => ⟨h, by rw [h.2.1]; exact ha⟩
        have hadmits : admits L (log.filter fun e => decide (S (L.key e.1))) a =
            admits L log a := by
          rw [admits, admits, hcount]
        simp only [List.filter_cons, ha, decide_true, reduceIte, outcomes, hadmits, ih,
          List.filter_append, List.filter_nil]
      · simp only [List.filter_cons, ha, decide_false, Bool.false_eq_true, reduceIte, ih,
          List.filter_append, List.filter_nil, List.append_nil]

/-! ## Never too many, never too few -/

/-- Of a key with a limit no more are accepted at times that all lie within one window. -/
theorem accepted_le (hlimit : L.limit k = some n) (hI : ∀ s t, I s → I t → s - t < L.window k)
    (h : accepted L log k I ≤ n) : accepted L (log ++ outcomes L log as) k I ≤ n := by
  induction as generalizing log with
  | nil => rwa [outcomes, List.append_nil]
  | cons a as ih =>
      rw [outcomes, List.append_cons]
      refine ih ?_
      rw [accepted_append]
      by_cases hcounts : admits L log a = true ∧ L.key a = k ∧ I (L.time a)
      · obtain ⟨hadmits, rfl, htime⟩ := hcounts
        have hfew := hadmits
        rw [admits, hlimit, Option.all_some, decide_eq_true_eq] at hfew
        have hrecent : accepted L log (L.key a) I ≤
            accepted L log (L.key a) fun t => L.time a - t < L.window (L.key a) :=
          accepted_mono fun t ht => hI _ _ htime ht
        have hone : accepted L [(a, admits L log a)] (L.key a) I ≤ 1 := List.countP_le_length
        omega
      · have hnone : accepted L [(a, admits L log a)] k I = 0 := by
          rw [accepted, List.countP_eq_zero]
          rintro e he
          rw [List.mem_singleton.mp he, Bool.and_eq_true, decide_eq_true_eq]
          exact hcounts
        omega

/-- Where times do not decrease, a refusal means that the window before is full. -/
theorem accepted_of_refused [IsOrderedAddMonoid T] {before after : Log α} (hlimit : L.limit (L.key a) = some n)
    (hmono : as.Pairwise fun a b => L.time a ≤ L.time b)
    (h : outcomes L [] as = before ++ (a, false) :: after) :
    accepted L before (L.key a) (fun t => L.time a - L.window (L.key a) < t ∧ t ≤ L.time a) =
      n := by
  obtain ⟨as', bs, rfl, hbefore, hrefused, -⟩ := outcomes_split h
  rw [List.nil_append] at hrefused
  refine le_antisymm ?_ ?_
  · rw [← hbefore, ← List.nil_append (outcomes L [] as')]
    refine accepted_le hlimit (fun s t hs ht => ?_) (Nat.zero_le _)
    exact lt_of_le_of_lt (sub_le_sub_right hs.2 t) (sub_lt_comm.mp ht.1)
  · have hfull := hrefused.symm
    rw [admits, hlimit, Option.all_some, decide_eq_false_iff_not, not_lt] at hfull
    refine hfull.trans (le_of_eq (accepted_congr fun e he => ?_))
    have hmem : e.1 ∈ as' := by
      have hmap : (outcomes L [] as').map Prod.fst = as' := map_outcomes []
      rw [← hmap, hbefore]
      exact List.mem_map_of_mem he
    have hle : L.time e.1 ≤ L.time a :=
      (List.pairwise_append.mp hmono).2.2 e.1 hmem a List.mem_cons_self
    rw [sub_lt_comm]
    exact (and_iff_left hle).symm

end SlidingWindow
