import Mathlib.Data.Multiset.Bind
import Mathlib.Data.Multiset.Dedup
import Mathlib.Data.List.Pairwise

/-! # Queries

A query selects rows, each as often as the joins yield it, and a database returns them in an
order that is a function of what was selected. -/

namespace Query

variable {α β γ : Type*}

/-- The inner join. -/
def join (on : α → β → Bool) (s : Multiset α) (t : Multiset β) : Multiset (α × β) :=
  s.bind fun a => (t.filter fun b => on a b = true).map fun b => (a, b)

@[simp] theorem mem_join {on : α → β → Bool} {s : Multiset α} {t : Multiset β} {r : α × β} :
    r ∈ join on s t ↔ (r.1 ∈ s ∧ r.2 ∈ t) ∧ on r.1 r.2 = true := by
  obtain ⟨a, b⟩ := r
  simp only [join, Multiset.mem_bind, Multiset.mem_map, Multiset.mem_filter, Prod.mk.injEq]
  constructor
  · intro h
    obtain ⟨a', ha, b', ⟨hb, hon⟩, rfl, rfl⟩ := h
    exact ⟨⟨ha, hb⟩, hon⟩
  · exact fun h => ⟨a, h.1.1, b, ⟨h.1.2, h.2⟩, rfl, rfl⟩

/-- `UNION` -/
def union [DecidableEq α] (s t : Multiset α) : Multiset α := (s + t).dedup

@[simp] theorem mem_union [DecidableEq α] {s t : Multiset α} {a : α} :
    a ∈ union s t ↔ a ∈ s ∨ a ∈ t := by
  rw [union, Multiset.mem_dedup, Multiset.mem_add]

theorem nodup_union [DecidableEq α] (s t : Multiset α) : (union s t).Nodup :=
  Multiset.nodup_dedup _

/-- How the rows of a query come back: sorted, and rows with equal keys in some order. -/
structure Order (α : Type*) (le : α → α → Prop) where
  list : Multiset α → List α
  coe_list : ∀ s, (list s : Multiset α) = s
  sorted : ∀ s, (list s).Pairwise le

/-- No `ORDER BY`. -/
abbrev Unordered (α : Type*) : Type _ := Order α fun _ _ => True

namespace Order

variable {le : α → α → Prop} (order : Order α le) {s : Multiset α}

@[simp] theorem mem_list {a : α} : a ∈ order.list s ↔ a ∈ s := by
  rw [← Multiset.mem_coe, order.coe_list]

@[simp] theorem nodup_list : (order.list s).Nodup ↔ s.Nodup := by
  rw [← Multiset.coe_nodup, order.coe_list]

/-- There is such an order: rows with equal keys come back as they happen to be stored. -/
noncomputable def sorting (le : α → α → Prop) [DecidableRel le]
    (htrans : ∀ a b c, le a b → le b c → le a c) (htotal : ∀ a b, le a b ∨ le b a) :
    Order α le where
  list s := s.toList.mergeSort fun a b => decide (le a b)
  coe_list s := by
    rw [Multiset.coe_eq_coe.mpr (List.mergeSort_perm ..), Multiset.coe_toList]
  sorted s := by
    have hsorted : (s.toList.mergeSort fun a b => decide (le a b)).Pairwise
        fun a b => decide (le a b) = true :=
      List.pairwise_mergeSort (by simpa using htrans) (by simpa using htotal) s.toList
    simpa using hsorted

end Order

theorem nodup_join (on : α → β → Bool) {s : Multiset α} {t : Multiset β} (hs : s.Nodup)
    (ht : t.Nodup) : (join on s t).Nodup := by
  refine (Multiset.nodup_bind (s := s)).mpr ⟨?_, ?_⟩
  · exact fun a _ => (ht.filter _).map (Prod.mk_right_injective a)
  · refine Multiset.Nodup.pairwise ?_ hs
    intro a _ b _ hne
    refine Multiset.disjoint_left.mpr ?_
    intro r hr hr'
    obtain ⟨x, -, rfl⟩ := Multiset.mem_map.mp hr
    obtain ⟨y, -, heq⟩ := Multiset.mem_map.mp hr'
    exact hne (Prod.mk.inj heq).1.symm

/-- Rows that a key tells apart. -/
theorem nodup_map_filter {f : α → β} {s : Multiset α} (h : (s.map f).Nodup) (p : α → Prop)
    [DecidablePred p] : ((s.filter p).map f).Nodup :=
  Multiset.nodup_of_le (Multiset.map_le_map (Multiset.filter_le p s)) h

/-! ## Two databases that agree on some of the rows -/

section Agree

variable [DecidableEq α] [DecidableEq β] {p : α → Prop} {q : β → Prop} {s s' : Multiset α}
  {t t' : Multiset β}

/-- The same rows, each as often, where `p` holds. -/
def Agree (p : α → Prop) (s s' : Multiset α) : Prop := ∀ a, p a → s.count a = s'.count a

/-- A query that asks for rows on which the databases agree. -/
theorem Agree.filter (h : Agree p s s') {r : α → Prop} [DecidablePred r] (hr : ∀ a, r a → p a) :
    s.filter r = s'.filter r := by
  ext a
  by_cases ha : r a
  · rw [Multiset.count_filter_of_pos ha, Multiset.count_filter_of_pos ha, h a (hr a ha)]
  · rw [Multiset.count_filter_of_neg ha, Multiset.count_filter_of_neg ha]

/-- One more row that does not count. -/
theorem agree_cons {b : α} (hb : ¬ p b) : Agree p s (b ::ₘ s) := by
  intro a ha
  rw [Multiset.count_cons_of_ne]
  intro hab
  rw [hab] at ha
  exact hb ha

/-- A pair of rows comes as often as its halves allow. -/
theorem count_join (on : α → β → Bool) (a : α) (b : β) :
    (join on s t).count (a, b) = if on a b = true then s.count a * t.count b else 0 := by
  induction s using Multiset.induction with
  | empty => simp [join]
  | cons a' s ih =>
      have hcons : join on (a' ::ₘ s) t =
          ((t.filter fun b => on a' b = true).map fun b => (a', b)) + join on s t := by
        rw [join, Multiset.cons_bind]
        rfl
      rw [hcons, Multiset.count_add, ih]
      by_cases ha : a = a'
      · subst ha
        have hhead : Multiset.count (a, b)
            ((t.filter fun b => on a b = true).map fun b => (a, b)) =
            if on a b = true then t.count b else 0 := by
          rw [Multiset.count_map_eq_count' _ _ (Prod.mk_right_injective a), Multiset.count_filter]
        rw [hhead, Multiset.count_cons_self]
        split
        · rw [Nat.succ_mul, Nat.add_comm]
        · rfl
      · have hhead : Multiset.count (a, b)
            ((t.filter fun b => on a' b = true).map fun b => (a', b)) = 0 := by
          rw [Multiset.count_eq_zero, Multiset.mem_map]
          intro h
          obtain ⟨b', -, heq⟩ := h
          exact ha (Prod.mk.inj heq).1.symm
        rw [hhead, zero_add, Multiset.count_cons_of_ne ha]

/-- A join that reaches only rows on which they agree. -/
theorem Agree.join (on : α → β → Bool) (h : Agree p s s') (h' : Agree q t t')
    (hon : ∀ a b, p a → on a b = true → q b) :
    Agree (fun r => p r.1) (join on s t) (join on s' t') := by
  intro r hr
  rw [count_join, count_join, h r.1 hr]
  by_cases hjoined : on r.1 r.2 = true
  · rw [h' r.2 (hon r.1 r.2 hr hjoined)]
  · rw [if_neg hjoined, if_neg hjoined]

omit [DecidableEq α] in
/-- A join of the same rows with ones on which the databases agree. -/
theorem join_congr (on : α → β → Bool) (h : Agree q t t')
    (hon : ∀ a ∈ s, ∀ b, on a b = true → q b) :
    Query.join on s t = Query.join on s t' := by
  refine Multiset.bind_congr fun a ha => ?_
  rw [h.filter (hon a ha)]

end Agree

end Query
