import Mathlib.Data.List.Nodup
import Mathlib.Data.List.Lookmap

/-! # Tables with a primary key -/

namespace Storage

variable {κ α : Type*} [DecidableEq κ]

/-- Rows in the order they were added, no two under one key. -/
structure Table (κ α : Type*) where
  rows : List (κ × α)
  nodup : (rows.map Prod.fst).Nodup
  deriving DecidableEq

namespace Table

def empty : Table κ α := ⟨[], by simp⟩

instance : Inhabited (Table κ α) := ⟨empty⟩

def keys (t : Table κ α) : List κ := t.rows.map Prod.fst

def get? (t : Table κ α) (k : κ) : Option α :=
  (t.rows.find? fun r => r.1 = k).map Prod.snd

/-- Changes every row. -/
def map (t : Table κ α) (f : κ → α → α) : Table κ α where
  rows := t.rows.map fun r => (r.1, f r.1 r.2)
  nodup := by
    have h : (t.rows.map fun r => (r.1, f r.1 r.2)).map Prod.fst = t.rows.map Prod.fst := by simp
    rw [h]
    exact t.nodup

/-- Changes the row under one key, if there is one. -/
def modify (t : Table κ α) (k : κ) (f : α → α) : Table κ α :=
  t.map fun k' a => if k' = k then f a else a

/-- Adds a row under a key that is not taken. -/
def add (t : Table κ α) (k : κ) (a : α) (h : t.get? k = none) : Table κ α where
  rows := t.rows ++ [(k, a)]
  nodup := by
    have hk : k ∉ t.rows.map Prod.fst := by
      intro hmem
      obtain ⟨r, hr, rfl⟩ := List.mem_map.mp hmem
      simp only [get?, Option.map_eq_none_iff, List.find?_eq_none] at h
      exact h r hr (by simp)
    rw [List.map_append, List.nodup_append]
    refine ⟨t.nodup, by simp, ?_⟩
    rintro x hx y hy rfl
    rw [List.map_singleton, List.mem_singleton] at hy
    rw [hy] at hx
    exact hk hx

/-- Puts a row under a key, in the place of the one that is there. -/
def set (t : Table κ α) (k : κ) (a : α) : Table κ α :=
  match h : t.get? k with
  | some _ => t.modify k fun _ => a
  | none => t.add k a h

/-- `d.setdefault(k, []).append(a)` -/
def append (t : Table κ (List α)) (k : κ) (a : α) : Table κ (List α) :=
  t.set k ((t.get? k).getD [] ++ [a])

/-- Deletes the rows that fail `keep`. -/
def filter (t : Table κ α) (keep : κ → α → Bool) : Table κ α where
  rows := t.rows.filter fun r => keep r.1 r.2
  nodup := t.nodup.sublist (List.filter_sublist.map _)

theorem mem_rows {t : Table κ α} {k : κ} {a : α} : (k, a) ∈ t.rows ↔ t.get? k = some a := by
  obtain ⟨rows, hnodup⟩ := t
  simp only [get?]
  induction rows with
  | nil => simp
  | cons r rows ih =>
      rw [List.map_cons, List.nodup_cons] at hnodup
      by_cases hr : r.1 = k
      · subst hr
        simp only [List.mem_cons, List.find?_cons, decide_true, Option.map_some, Option.some.injEq]
        constructor
        · rintro (he | hmem)
          · exact (congrArg Prod.snd he).symm
          · exact absurd (List.mem_map_of_mem (f := Prod.fst) hmem) hnodup.1
        · rintro rfl
          exact .inl rfl
      · have hne : (k, a) ≠ r := by
          rintro rfl
          exact hr rfl
        simpa [List.find?_cons, hr, hne] using ih hnodup.2

theorem mem_keys {t : Table κ α} {k : κ} : k ∈ t.keys ↔ ∃ a, t.get? k = some a := by
  simp only [keys, List.mem_map, Prod.exists, exists_and_right, exists_eq_right, mem_rows]

@[simp] theorem get?_empty (k : κ) : (empty : Table κ α).get? k = none := rfl

@[simp] theorem get?_map (t : Table κ α) (f : κ → α → α) (k : κ) :
    (t.map f).get? k = (t.get? k).map (f k) := by
  apply Option.ext
  intro b
  rw [← mem_rows, Option.map_eq_some_iff]
  simp only [map, List.mem_map, Prod.mk.injEq, Prod.exists, mem_rows]
  constructor
  · rintro ⟨k', a, ha, rfl, rfl⟩
    exact ⟨a, ha, rfl⟩
  · rintro ⟨a, ha, rfl⟩
    exact ⟨k, a, ha, rfl, rfl⟩

/-- A change that changes no row. -/
theorem map_eq_self {t : Table κ α} {f : κ → α → α} (h : ∀ k a, t.get? k = some a → f k a = a) :
    t.map f = t := by
  obtain ⟨rows, hnodup⟩ := t
  simp only [map, mk.injEq]
  conv_rhs => rw [← List.map_id rows]
  apply List.map_congr_left
  rintro ⟨k, a⟩ hr
  simp only [id_eq, Prod.mk.injEq, true_and]
  exact h k a (mem_rows.mp hr)

theorem get?_modify (t : Table κ α) (k k' : κ) (f : α → α) :
    (t.modify k f).get? k' = if k' = k then (t.get? k').map f else t.get? k' := by
  rw [modify, get?_map]
  split
  · rfl
  · simp

@[simp] theorem get?_modify_self (t : Table κ α) (k : κ) (f : α → α) :
    (t.modify k f).get? k = (t.get? k).map f := by
  simp [get?_modify]

theorem get?_modify_of_ne (t : Table κ α) {k k' : κ} (f : α → α) (h : k' ≠ k) :
    (t.modify k f).get? k' = t.get? k' := by
  simp [get?_modify, h]

theorem get?_add (t : Table κ α) (k k' : κ) (a : α) (h : t.get? k = none) :
    (t.add k a h).get? k' = if k' = k then some a else t.get? k' := by
  apply Option.ext
  intro b
  rw [← mem_rows]
  simp only [add, List.mem_append, List.mem_singleton, Prod.mk.injEq, mem_rows]
  by_cases hk : k' = k
  · subst hk
    simp [h, eq_comm]
  · simp [hk]

theorem get?_set (t : Table κ α) (k k' : κ) (a : α) :
    (t.set k a).get? k' = if k' = k then some a else t.get? k' := by
  unfold set
  split
  · rename_i b hb
    rw [get?_modify]
    by_cases hk : k' = k
    · simp [hk, hb]
    · simp [hk]
  · rename_i h
    exact get?_add t k k' a h

theorem get?_append (t : Table κ (List α)) (k k' : κ) (a : α) :
    ((t.append k a).get? k').getD [] = (t.get? k').getD [] ++ if k' = k then [a] else [] := by
  rw [append, get?_set]
  by_cases hk : k' = k
  · rw [if_pos hk, if_pos hk, hk, Option.getD_some]
  · rw [if_neg hk, if_neg hk, List.append_nil]

theorem get?_filter (t : Table κ α) (keep : κ → α → Bool) (k : κ) :
    (t.filter keep).get? k = (t.get? k).filter (keep k) := by
  apply Option.ext
  intro b
  rw [← mem_rows, Option.filter_eq_some_iff]
  simp [filter, mem_rows]

end Table

end Storage
