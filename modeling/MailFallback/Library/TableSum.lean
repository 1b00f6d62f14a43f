import MailFallback.Library.Table
import Mathlib.Algebra.BigOperators.Group.List.Basic
import Mathlib.Algebra.GroupWithZero.Nat

/-! # Sums over the rows of a table -/

namespace Storage.Table

variable {κ α : Type*}

/-- What the rows contribute together. -/
def sumBy (t : Table κ α) (f : κ → α → ℕ) : ℕ := (t.rows.map fun r => f r.1 r.2).sum

@[simp] theorem sumBy_empty [DecidableEq κ] (f : κ → α → ℕ) : (empty : Table κ α).sumBy f = 0 := rfl

theorem sumBy_map (t : Table κ α) (g : κ → α → α) (f : κ → α → ℕ) :
    (t.map g).sumBy f = t.sumBy fun k a => f k (g k a) := by
  simp only [sumBy, map, List.map_map, Function.comp_def]

/-- The rows that are kept and those that are deleted. -/
theorem sumBy_filter (t : Table κ α) (keep : κ → α → Bool) (f : κ → α → ℕ) :
    (t.filter keep).sumBy f = t.sumBy fun k a => if keep k a = true then f k a else 0 := by
  simp only [sumBy, filter]
  induction t.rows with
  | nil => rfl
  | cons r rows ih =>
      rw [List.filter_cons]
      split
      · rename_i hkeep
        rw [List.map_cons, List.sum_cons, List.map_cons, List.sum_cons, ih, if_pos hkeep]
      · rename_i hkeep
        rw [List.map_cons, List.sum_cons, ih, if_neg hkeep, Nat.zero_add]

variable [DecidableEq κ]

theorem sumBy_congr {t : Table κ α} {f g : κ → α → ℕ}
    (h : ∀ k a, t.get? k = some a → f k a = g k a) : t.sumBy f = t.sumBy g := by
  have hrows : t.rows.map (fun r => f r.1 r.2) = t.rows.map fun r => g r.1 r.2 := by
    apply List.map_congr_left
    intro r hr
    exact h r.1 r.2 (mem_rows.mp hr)
  rw [sumBy, sumBy, hrows]

theorem sumBy_add (t : Table κ α) (k : κ) (a : α) (h : t.get? k = none) (f : κ → α → ℕ) :
    (t.add k a h).sumBy f = t.sumBy f + f k a := by
  simp only [sumBy, add, List.map_append, List.map_singleton, List.sum_append, List.sum_singleton]

/-- Rows that contribute nothing do not matter. -/
theorem sumBy_filter_eq {t : Table κ α} {keep : κ → α → Bool} {f : κ → α → ℕ}
    (h : ∀ k a, t.get? k = some a → keep k a = false → f k a = 0) :
    (t.filter keep).sumBy f = t.sumBy f := by
  rw [sumBy_filter]
  apply sumBy_congr
  intro k a hrow
  split
  · rfl
  · rename_i hkeep
    exact (h k a hrow (by simpa using hkeep)).symm

/-- One row less. -/
theorem sumBy_remove {t : Table κ α} {k : κ} {a : α} (h : t.get? k = some a) (f : κ → α → ℕ) :
    (t.filter fun k' _ => decide (k' ≠ k)).sumBy f + f k a = t.sumBy f := by
  obtain ⟨before, after, hrows⟩ := List.append_of_mem (mem_rows.mpr h)
  have hnodup := t.nodup
  rw [hrows, List.map_append, List.map_cons, List.nodup_middle, List.nodup_cons, List.mem_append,
    not_or] at hnodup
  have hbefore : before.filter (fun r => decide (r.1 ≠ k)) = before := by
    rw [List.filter_eq_self]
    intro r hr
    have hne : r.1 ≠ k := fun heq => hnodup.1.1 (List.mem_map.mpr ⟨r, hr, heq⟩)
    simpa using hne
  have hafter : after.filter (fun r => decide (r.1 ≠ k)) = after := by
    rw [List.filter_eq_self]
    intro r hr
    have hne : r.1 ≠ k := fun heq => hnodup.1.2 (List.mem_map.mpr ⟨r, hr, heq⟩)
    simpa using hne
  simp only [sumBy, filter, hrows, List.filter_append, List.filter_cons, hbefore, hafter, ne_eq,
    not_true_eq_false, decide_false, Bool.false_eq_true, if_false, List.map_append, List.map_cons,
    List.sum_append, List.sum_cons]
  omega

end Storage.Table
