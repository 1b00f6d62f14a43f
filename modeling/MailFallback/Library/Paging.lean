import MailFallback.Library.Query
import Mathlib.Data.List.Flatten
import Mathlib.Data.List.Nodup

/-! # Pages

A page is cut out of a listing of all the rows. When every page comes from a listing of its own,
rows with equal keys may stand in another order in each, and together the pages give every row
once exactly if no page ends between two such rows. -/

namespace Paging

open Query

variable {α : Type*}

/-- `OFFSET k * size LIMIT size` -/
def page (size k : ℕ) (rows : List α) : List α := (rows.drop (k * size)).take size

/-- The first pages, each of its own listing. -/
def pages (size : ℕ) (listing : ℕ → List α) (n : ℕ) : List α :=
  (List.range n).flatMap fun k => page size k (listing k)

/-- The rows in an order that the keys allow. -/
structure Listing (le : α → α → Prop) (s : Multiset α) (l : List α) : Prop where
  coe : (l : Multiset α) = s
  sorted : l.Pairwise le

theorem Listing.countP_eq {le : α → α → Prop} {s : Multiset α} {l : List α} (h : Listing le s l)
    (p : α → Prop) [DecidablePred p] : l.countP (fun a => decide (p a)) = s.countP p := by
  rw [← h.coe, Multiset.coe_countP]

theorem Listing.perm {le : α → α → Prop} {s : Multiset α} {l l' : List α} (h : Listing le s l)
    (h' : Listing le s l') : l.Perm l' := Multiset.coe_eq_coe.mp (h.coe.trans h'.coe.symm)

theorem pages_succ (size : ℕ) (listing : ℕ → List α) (n : ℕ) :
    pages size listing (n + 1) = pages size listing n ++ page size n (listing n) := by
  simp [pages, List.range_succ]

theorem take_append_page (size k : ℕ) (rows : List α) :
    rows.take (k * size) ++ page size k rows = rows.take ((k + 1) * size) := by
  rw [Nat.succ_mul, List.take_add]
  rfl

/-! ## Rows up to a key -/

section Sorted

variable {le : α → α → Prop} {p : α → Prop} [DecidablePred p]
  (hdown : ∀ a b, le a b → p b → p a)
include hdown

/-- Of a sorted listing, what has a property that goes downwards is the beginning. -/
theorem filter_eq_take {l : List α} (h : l.Pairwise le) :
    l.filter (fun a => decide (p a)) = l.take (l.countP fun a => decide (p a)) := by
  induction l with
  | nil => rfl
  | cons a l ih =>
      obtain ⟨ha, hl⟩ := List.pairwise_cons.mp h
      by_cases hp : p a
      · simp [hp, ih hl]
      · have hnone : ∀ b ∈ l, ¬ p b := fun b hb hpb => hp (hdown a b (ha b hb) hpb)
        have hcount : l.countP (fun a => decide (p a)) = 0 := by
          rw [List.countP_eq_zero]
          simpa using hnone
        simp [hp, hcount]
        exact hnone

theorem getElem_iff {l : List α} (h : l.Pairwise le) {i : ℕ} (hi : i < l.length) :
    p l[i] ↔ i < l.countP fun a => decide (p a) := by
  induction l generalizing i with
  | nil => simp at hi
  | cons a l ih =>
      obtain ⟨ha, hl⟩ := List.pairwise_cons.mp h
      by_cases hp : p a
      · cases i with
        | zero => simp [hp]
        | succ i => simp [hp, ih hl (Nat.lt_of_succ_lt_succ hi)]
      · have hnone : ∀ b ∈ a :: l, ¬ p b := by
          rintro b (_ | ⟨_, hb⟩)
          · exact hp
          · exact fun hpb => hp (hdown a b (ha b hb) hpb)
        have hcount : (a :: l).countP (fun a => decide (p a)) = 0 := by
          rw [List.countP_eq_zero]
          simpa using hnone
        rw [hcount]
        simp [hnone _ (List.getElem_mem hi)]

/-- Two listings begin with the same rows, as far as the property goes. -/
theorem Listing.take_perm {s : Multiset α} {l l' : List α} (h : Listing le s l)
    (h' : Listing le s l') : (l.take (s.countP p)).Perm (l'.take (s.countP p)) := by
  have hfilter : ∀ l, Listing le s l →
      l.filter (fun a => decide (p a)) = l.take (s.countP p) := by
    intro l hl
    rw [filter_eq_take hdown hl.sorted, hl.countP_eq]
  rw [← hfilter l h, ← hfilter l' h']
  exact (h.perm h').filter _

end Sorted

/-! ## Page ends -/

section Ends

variable {le : α → α → Prop} [DecidableRel le] {s : Multiset α} {l l' : List α} {size : ℕ}

/-- No page ends between two rows with equal keys: of the rows with the key of `a`, the page has
all or none that begin before its end. -/
def Uncut (le : α → α → Prop) [DecidableRel le] (size : ℕ) (s : Multiset α) : Prop :=
  ∀ a ∈ s, ∀ k, ¬ (s.countP (fun b => le b a ∧ ¬ le a b) < k * size ∧
    k * size < s.countP fun b => le b a)

section Down

variable {le : α → α → Prop} (htrans : ∀ a b c, le a b → le b c → le a c)
include htrans

theorem down_le (a : α) : ∀ x y, le x y → le y a → le x a := fun x y h => htrans x y a h

theorem down_lt (a : α) : ∀ x y, le x y → (le y a ∧ ¬ le a y) → le x a ∧ ¬ le a x :=
  fun x y h hy => ⟨htrans x y a h hy.1, fun hx => hy.2 (htrans a x y hx h)⟩

end Down

variable (htrans : ∀ a b c, le a b → le b c → le a c) (htotal : ∀ a b, le a b ∨ le b a)
include htrans htotal

theorem take_perm_of_uncut (h : Listing le s l) (h' : Listing le s l') (huncut : Uncut le size s)
    (k : ℕ) : (l.take (k * size)).Perm (l'.take (k * size)) := by
  have hrefl : ∀ a, le a a := fun a => (htotal a a).elim id id
  by_cases hzero : k * size = 0
  · simp [hzero]
  by_cases hall : l.length ≤ k * size
  · rw [List.take_of_length_le hall, List.take_of_length_le ((h.perm h').length_eq ▸ hall)]
    exact h.perm h'
  -- the last row before the end, and the rows up to its key
  have hlast : k * size - 1 < l.length := by omega
  have hmem : l[k * size - 1] ∈ s := h.coe ▸ List.getElem_mem hlast
  have hbefore := (getElem_iff (down_lt htrans l[k * size - 1]) h.sorted hlast).not.mp
    fun hp => hp.2 (hrefl _)
  have hupto := (getElem_iff (down_le htrans l[k * size - 1]) h.sorted hlast).mp (hrefl _)
  rw [h.countP_eq] at hbefore hupto
  have hcount : s.countP (fun b => le b l[k * size - 1]) = k * size := by
    have hcut := huncut _ hmem k
    omega
  have htake := Listing.take_perm (down_le htrans l[k * size - 1]) h h'
  rwa [hcount] at htake

/-- Together the pages are the beginning of one listing. -/
theorem pages_perm (huncut : Uncut le size s) {listing : ℕ → List α}
    (h : ∀ k, Listing le s (listing k)) (n : ℕ) :
    (pages size listing n).Perm ((listing 0).take (n * size)) := by
  induction n with
  | zero => simp [pages]
  | succ n ih =>
      have hbefore := take_perm_of_uncut htrans htotal (h 0) (h n) huncut n
      have hafter := take_perm_of_uncut htrans htotal (h n) (h 0) huncut (n + 1)
      rw [pages_succ]
      refine ((ih.trans hbefore).append_right _).trans ?_
      rw [take_append_page]
      exact hafter

theorem pages_eq (huncut : Uncut le size s) {listing : ℕ → List α}
    (h : ∀ k, Listing le s (listing k)) {n : ℕ} (hn : s.card ≤ n * size) :
    (pages size listing n : Multiset α) = s := by
  have hlength : (listing 0).length ≤ n * size := by
    rw [← Multiset.coe_card, (h 0).coe]
    exact hn
  have hperm := pages_perm htrans htotal huncut h n
  rw [List.take_of_length_le hlength] at hperm
  rw [Multiset.coe_eq_coe.mpr hperm, (h 0).coe]

omit [DecidableRel le] htrans htotal in
theorem eq_append_pair {i : ℕ} (h : i + 1 < l.length) :
    l = l.take i ++ l[i] :: l[i + 1] :: l.drop (i + 2) := by
  rw [← List.drop_eq_getElem_cons h, ← List.drop_eq_getElem_cons, List.take_append_drop]

omit [DecidableRel le] htrans htotal in
/-- Two neighbours with equal keys may change places. -/
theorem Listing.swap {u v : List α} {x y : α} (h : Listing le s (u ++ x :: y :: v))
    (htie : le y x) : Listing le s (u ++ y :: x :: v) := by
  refine ⟨?_, ?_⟩
  · rw [← h.coe]
    exact Multiset.coe_eq_coe.mpr ((List.Perm.swap x y v).append_left u)
  · have hsorted := h.sorted
    simp only [List.pairwise_append, List.pairwise_cons, List.forall_mem_cons] at hsorted ⊢
    obtain ⟨hu, ⟨⟨-, hx⟩, hy, hv⟩, huv⟩ := hsorted
    exact ⟨hu, ⟨⟨htie, hy⟩, hx, hv⟩, fun a ha => ⟨(huv a ha).2.1, (huv a ha).1, (huv a ha).2.2⟩⟩

omit htotal in
/-- Where a page ends between two rows with equal keys, the next one may begin with the row that
it ended with. -/
theorem exists_repeated (h : Listing le s l) (hcut : ¬ Uncut le size s) :
    ∃ listing, (∀ k, Listing le s (listing k)) ∧
      ∀ n, s.card ≤ n * size → ¬ (pages size listing n).Nodup := by
  simp only [Uncut, not_forall, not_not] at hcut
  obtain ⟨a, -, k, hbefore, hupto⟩ := hcut
  obtain ⟨k, rfl⟩ : ∃ i, k = i + 1 :=
    Nat.exists_eq_succ_of_ne_zero fun hk => by simp [hk] at hbefore
  obtain ⟨i, hi⟩ : ∃ i, (k + 1) * size = i + 1 := Nat.exists_eq_succ_of_ne_zero (by omega)
  rw [hi, ← h.countP_eq] at hbefore hupto
  have hend : i + 1 < l.length := Nat.lt_of_lt_of_le hupto List.countP_le_length
  -- the rows on both sides of the end have the key of `a`
  have htie : le l[i + 1] l[i] := by
    have hnext : le l[i + 1] a := (getElem_iff (down_le htrans a) h.sorted hend).mpr hupto
    have hlast : le l[i] a :=
      (getElem_iff (down_le htrans a) h.sorted (Nat.lt_of_succ_lt hend)).mpr
        (Nat.lt_of_succ_lt hupto)
    refine htrans _ _ _ hnext ?_
    by_contra hnot
    have hlt := (getElem_iff (down_lt htrans a) h.sorted (Nat.lt_of_succ_lt hend)).mp ⟨hlast, hnot⟩
    omega
  have hl := eq_append_pair hend
  have hswapped : Listing le s (l.take i ++ l[i + 1] :: l[i] :: l.drop (i + 2)) :=
    Listing.swap (hl ▸ h) htie
  refine ⟨fun j => if j < k + 1 then l else l.take i ++ l[i + 1] :: l[i] :: l.drop (i + 2), ?_, ?_⟩
  · intro j
    dsimp only
    split
    · exact h
    · exact hswapped
  · intro n hn hnodup
    have hmul : (k + 1) * size = k * size + size := Nat.succ_mul k size
    have hpos : 0 < size := Nat.pos_of_ne_zero fun hzero => by simp [hzero] at hi
    have hk : k + 1 < n := by
      have hcard : s.card = l.length := by rw [← h.coe, Multiset.coe_card]
      exact Nat.lt_of_mul_lt_mul_right (a := size) (by omega)
    have hdisjoint := List.pairwise_iff_getElem.mp (List.nodup_flatMap.mp hnodup).2 k (k + 1)
      (by simp; omega) (by simpa using hk) (Nat.lt_succ_self k)
    have hfirst : l[i] ∈ page size k l := by
      have hsize : size - 1 < (page size k l).length := by
        simp [page]
        omega
      have heq : (page size k l)[size - 1] = l[i] := by
        simp only [page, List.getElem_take, List.getElem_drop]
        congr 1
        omega
      exact heq ▸ List.getElem_mem hsize
    have hagain : l[i] ∈ page size (k + 1) (l.take i ++ l[i + 1] :: l[i] :: l.drop (i + 2)) := by
      have hdrop : (l.take i ++ l[i + 1] :: l[i] :: l.drop (i + 2)).drop (i + 1) =
          l[i] :: l.drop (i + 2) := by
        rw [List.append_cons, List.drop_left' (by simp; omega)]
      rw [page, hi, hdrop]
      cases size with
      | zero => omega
      | succ size => exact .head _
    simp only [Function.onFun, List.getElem_range, Nat.lt_succ_self, if_true, Nat.lt_irrefl,
      if_false] at hdisjoint
    exact hdisjoint hfirst hagain

omit htrans htotal in
/-- A single page cuts nothing. -/
theorem uncut_of_card_le (h : s.card ≤ size) : Uncut le size s := by
  rintro a - k ⟨hbefore, hupto⟩
  have hle : s.countP (fun b => le b a) ≤ s.card := Multiset.countP_le_card _ _
  cases k with
  | zero => simp at hbefore
  | succ k =>
      rw [Nat.succ_mul] at hupto
      omega

end Ends

/-! ## Orders -/

section Orders

variable {β : Type*} {le : α → α → Prop} {s : Multiset α} {l : List α}

/-- A database that lists these rows so. -/
noncomputable def Listing.order (h : Listing le s l) (order : Order α le) : Order α le where
  list t := open Classical in if t = s then l else order.list t
  coe_list t := by
    split
    · rename_i heq
      rw [h.coe, heq]
    · exact order.coe_list t
  sorted t := by
    split
    · exact h.sorted
    · exact order.sorted t

theorem Listing.order_list (h : Listing le s l) (order : Order α le) : (h.order order).list s = l :=
  if_pos rfl

theorem listing_list (order : Order α le) (s : Multiset α) : Listing le s (order.list s) :=
  ⟨order.coe_list s, order.sorted s⟩

/-- The pages give every row once, in whatever order each is queried, exactly if none ends between
two rows with equal keys. -/
theorem pages_map_iff [DecidableRel le] (htrans : ∀ a b c, le a b → le b c → le a c)
    (htotal : ∀ a b, le a b ∨ le b a) {f : α → β} (hnodup : (s.map f).Nodup) (order : Order α le)
    (size : ℕ) :
    (∀ orders : ℕ → Order α le, ∀ n, s.card ≤ n * size →
      (((pages size (fun k => (orders k).list s) n).map f : List β) : Multiset β) = s.map f) ↔
      Uncut le size s := by
  constructor
  · intro h
    by_contra hcut
    obtain ⟨listing, hlisting, hrepeated⟩ :=
      exists_repeated htrans (listing_list order s) hcut
    have hsize : 0 < size := by
      refine Nat.pos_of_ne_zero ?_
      rintro rfl
      exact hcut fun a _ k hk => Nat.not_lt_zero _ hk.1
    have hcard : s.card ≤ s.card * size := Nat.le_mul_of_pos_right _ hsize
    have hpages := h (fun k => (hlisting k).order order) s.card hcard
    simp only [Listing.order_list] at hpages
    rw [← hpages, Multiset.coe_nodup] at hnodup
    exact hrepeated s.card hcard (List.Nodup.of_map f hnodup)
  · intro huncut orders n hn
    rw [← Multiset.map_coe,
      pages_eq htrans htotal huncut (fun k => listing_list (orders k) s) hn]

end Orders

end Paging
