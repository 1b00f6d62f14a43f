import Mathlib.Data.List.Pairwise
import Mathlib.Logic.Function.Basic

/-! # Databases that enforce their constraints

Rows are functions of the column. A database cannot be built against its schema, and `insert?`
is the only operation: it adds a row or names the constraint the row would break. -/

namespace Relational

variable {T C V : Type*}

/-- One foreign key: the column and what it refers to. -/
structure Reference (T C : Type*) where
  column : C
  table : T
  target : C
  deriving DecidableEq

structure Schema (T C V : Type*) where
  null : V
  key : T → List C
  unique : T → List (List C)
  /-- Types and NOT NULL, which one row decides alone. -/
  admits : T → (C → V) → Bool
  references : T → List (Reference T C)

namespace Schema

variable [DecidableEq V] (S : Schema T C V)

/-- Equality as in a query, where NULL equals nothing. -/
def same (cols : List C) (r s : C → V) : Bool :=
  cols.all fun c => decide (r c = s c) && decide (r c ≠ S.null)

def refersTo (ref : Reference T C) (rows : T → List (C → V)) (row : C → V) : Bool :=
  decide (row ref.column = S.null) ||
    (rows ref.table).any fun s => decide (s ref.target = row ref.column)

variable {S}

theorem same_iff {cols : List C} {r s : C → V} :
    S.same cols r s = true ↔ ∀ c ∈ cols, r c = s c ∧ r c ≠ S.null := by
  simp [same]

theorem same_comm {cols : List C} {r s : C → V} (h : S.same cols r s = true) :
    S.same cols s r = true := by
  rw [same_iff] at h ⊢
  intro c hc
  obtain ⟨heq, hne⟩ := h c hc
  exact ⟨heq.symm, heq ▸ hne⟩

theorem not_same_comm {cols : List C} {r s : C → V} (h : S.same cols r s = false) :
    S.same cols s r = false := by
  by_contra hsame
  rw [same_comm (by simpa using hsame)] at h
  cases h

instance (cols : List C) : Std.Symm fun r s : C → V => S.same cols r s = false where
  symm _ _ := not_same_comm

theorem refersTo_iff {ref : Reference T C} {rows : T → List (C → V)} {row : C → V} :
    S.refersTo ref rows row = true ↔
      row ref.column = S.null ∨ ∃ s ∈ rows ref.table, s ref.target = row ref.column := by
  simp [refersTo]

end Schema

/-- The rows of every table, under the constraints of the schema. -/
@[ext] structure Database [DecidableEq V] (S : Schema T C V) where
  rows : T → List (C → V)
  distinct : ∀ t, ∀ cols ∈ S.key t :: S.unique t,
    (rows t).Pairwise fun r s => S.same cols r s = false
  admitted : ∀ t, ∀ r ∈ rows t, S.admits t r = true
  referenced : ∀ t, ∀ r ∈ rows t, ∀ ref ∈ S.references t, S.refersTo ref rows r = true

inductive Violation (C : Type*) where
  | rejected
  | duplicate (cols : List C)
  | dangling (col : C)

namespace Database

variable [DecidableEq V] {S : Schema T C V}

def empty : Database S where
  rows _ := []
  distinct _ _ _ := .nil
  admitted _ := by simp
  referenced _ := by simp

@[simp] theorem rows_empty (t : T) : (empty : Database S).rows t = [] := rfl

/-- The row of a query by equality on some columns. -/
def first? (db : Database S) (t : T) (cols : List C) (row : C → V) : Option (C → V) :=
  (db.rows t).find? (S.same cols row)

/-- Nothing is changed or removed. -/
def Grows (db db' : Database S) : Prop :=
  ∀ t, db.rows t <+: db'.rows t

section Queries

variable {db db' db'' : Database S} {t : T} {row r s : C → V} {cols : List C}

theorem first?_some (h : db.first? t cols row = some r) :
    r ∈ db.rows t ∧ ∀ c ∈ cols, row c = r c ∧ row c ≠ S.null :=
  ⟨List.mem_of_find?_eq_some h, Schema.same_iff.mp (List.find?_some h)⟩

theorem first?_none (h : db.first? t cols row = none) (hr : r ∈ db.rows t) :
    S.same cols row r = false := by
  simpa using List.find?_eq_none.mp h r hr

theorem first?_congr (h : ∀ c ∈ cols, r c = s c) : db.first? t cols r = db.first? t cols s := by
  have hsame : S.same cols r = S.same cols s := by
    funext r'
    rw [Bool.eq_iff_iff, Schema.same_iff, Schema.same_iff]
    refine forall₂_congr fun c hc => ?_
    rw [h c hc]
  rw [first?, first?, hsame]

/-- Rows that agree on a key are one row. -/
theorem eq_of_same (hr : r ∈ db.rows t) (hs : s ∈ db.rows t)
    (hcols : cols ∈ S.key t :: S.unique t) (h : S.same cols r s = true) : r = s := by
  by_contra hne
  have hdistinct := (db.distinct t cols hcols).forall hr hs hne
  rw [h] at hdistinct
  cases hdistinct

theorem Grows.refl : Grows db db := fun _ => List.prefix_rfl

theorem Grows.trans (h : Grows db db') (h' : Grows db' db'') : Grows db db'' :=
  fun t => (h t).trans (h' t)

theorem Grows.mem (h : Grows db db') (hr : r ∈ db.rows t) : r ∈ db'.rows t :=
  (h t).subset hr

/-- What a query has found it goes on finding. -/
theorem Grows.first? (h : Grows db db') (hr : db.first? t cols row = some r) :
    db'.first? t cols row = some r := by
  obtain ⟨added, hadded⟩ := h t
  unfold Database.first? at hr ⊢
  rw [← hadded, List.find?_append, hr]
  rfl

end Queries

variable [DecidableEq T]

/-- The rows with one more in table `t`. -/
def rowsWith (db : Database S) (t : T) (row : C → V) : T → List (C → V) :=
  Function.update db.rows t (db.rows t ++ [row])

/-- The constraint that the row would break. -/
def violation? (db : Database S) (t : T) (row : C → V) : Option (Violation C) :=
  if S.admits t row = false then some .rejected
  else
    match (S.key t :: S.unique t).find? fun cols => (db.rows t).any (S.same cols row) with
    | some cols => some (.duplicate cols)
    | none =>
        ((S.references t).find? fun ref => !S.refersTo ref (db.rowsWith t row) row).map
          fun ref => .dangling ref.column

theorem mem_rowsWith {db : Database S} {t t' : T} {row r : C → V} :
    r ∈ db.rowsWith t row t' ↔ r ∈ db.rows t' ∨ t' = t ∧ r = row := by
  unfold rowsWith
  by_cases h : t' = t
  · subst h
    rw [Function.update_self, List.mem_append, List.mem_singleton]
    simp
  · rw [Function.update_of_ne h]
    simp [h]

theorem violation?_eq_none {db : Database S} {t : T} {row : C → V} :
    db.violation? t row = none ↔
      S.admits t row = true ∧
      (∀ cols ∈ S.key t :: S.unique t, ∀ r ∈ db.rows t, S.same cols row r = false) ∧
      ∀ ref ∈ S.references t, S.refersTo ref (db.rowsWith t row) row = true := by
  unfold violation?
  cases hadmits : S.admits t row with
  | false => simp
  | true =>
      rw [if_neg (by decide)]
      cases hfind : (S.key t :: S.unique t).find? fun cols => (db.rows t).any (S.same cols row) with
      | some cols =>
          have hmem := List.mem_of_find?_eq_some hfind
          have hsame := List.find?_some hfind
          obtain ⟨r, hr, hrow⟩ := List.any_eq_true.mp hsame
          simp only [reduceCtorEq, false_iff, not_and]
          intro _ hdistinct
          rw [hdistinct cols hmem r hr] at hrow
          cases hrow
      | none =>
          rw [List.find?_eq_none] at hfind
          simp only [Option.map_eq_none_iff, List.find?_eq_none, Bool.not_eq_true',
            Bool.not_eq_false, true_and]
          refine (and_iff_right ?_).symm
          intro cols hcols r hr
          have hnone := hfind cols hcols
          rw [List.any_eq_true] at hnone
          simpa using fun hsame => hnone ⟨r, hr, hsame⟩

theorem refersTo_rowsWith {db : Database S} {t : T} {row r : C → V} {ref : Reference T C}
    (h : S.refersTo ref db.rows r = true) : S.refersTo ref (db.rowsWith t row) r = true := by
  rw [Schema.refersTo_iff] at h ⊢
  rcases h with hnull | ⟨s, hs, heq⟩
  · exact .inl hnull
  · exact .inr ⟨s, mem_rowsWith.mpr (.inl hs), heq⟩

/-- Adds a row that breaks no constraint. -/
def insert (db : Database S) (t : T) (row : C → V) (h : db.violation? t row = none) :
    Database S where
  rows := db.rowsWith t row
  distinct t' cols hcols := by
    by_cases ht : t' = t
    · subst ht
      rw [rowsWith, Function.update_self, List.pairwise_append]
      refine ⟨db.distinct t' cols hcols, by simp, fun r hr s hs => ?_⟩
      obtain rfl := List.mem_singleton.mp hs
      exact Schema.not_same_comm ((violation?_eq_none.mp h).2.1 cols hcols r hr)
    · rw [rowsWith, Function.update_of_ne ht]
      exact db.distinct t' cols hcols
  admitted t' r hr := by
    rcases mem_rowsWith.mp hr with hold | ⟨rfl, rfl⟩
    · exact db.admitted t' r hold
    · exact (violation?_eq_none.mp h).1
  referenced t' r hr ref href := by
    rcases mem_rowsWith.mp hr with hold | ⟨rfl, rfl⟩
    · exact refersTo_rowsWith (db.referenced t' r hold ref href)
    · exact (violation?_eq_none.mp h).2.2 ref href

def insert? (db : Database S) (t : T) (row : C → V) : Except (Violation C) (Database S) :=
  match h : db.violation? t row with
  | none => .ok (db.insert t row h)
  | some v => .error v

/-! ### Updates and deletions -/

/-- Other rows in table `t`, when they break no constraint there and none of the tables that
refer to it. -/
def replace? (db : Database S) (tables : List T) (hall : ∀ t, t ∈ tables) (t : T)
    (rows : List (C → V)) : Option (Database S) :=
  if h : (∀ cols ∈ S.key t :: S.unique t, rows.Pairwise fun r s => S.same cols r s = false) ∧
      (∀ r ∈ rows, S.admits t r = true) ∧
      ∀ t' ∈ tables, ∀ r ∈ Function.update db.rows t rows t', ∀ ref ∈ S.references t',
        S.refersTo ref (Function.update db.rows t rows) r = true then
    some
      { rows := Function.update db.rows t rows
        distinct := by
          intro t' cols hcols
          by_cases ht : t' = t
          · subst ht
            rw [Function.update_self]
            exact h.1 cols hcols
          · rw [Function.update_of_ne ht]
            exact db.distinct t' cols hcols
        admitted := by
          intro t' r hr
          by_cases ht : t' = t
          · subst ht
            rw [Function.update_self] at hr
            exact h.2.1 r hr
          · rw [Function.update_of_ne ht] at hr
            exact db.admitted t' r hr
        referenced := fun t' r hr => h.2.2 t' (hall t') r hr }
  else none

theorem rows_replace? {db db' : Database S} {tables : List T} {hall : ∀ t, t ∈ tables} {t : T}
    {rows : List (C → V)} (h : db.replace? tables hall t rows = some db') :
    db'.rows = Function.update db.rows t rows := by
  unfold replace? at h
  split at h
  · obtain rfl := Option.some.inj h
    rfl
  · cases h

/-! ## Laws -/

section Laws

variable {db db' : Database S} {t t' : T} {row r : C → V}

theorem insert?_eq_ok : db.insert? t row = .ok db' ↔
    db.violation? t row = none ∧ db'.rows = db.rowsWith t row := by
  unfold insert?
  split
  · rename_i h
    constructor
    · intro hok
      cases hok
      exact ⟨h, rfl⟩
    · rintro ⟨-, hrows⟩
      congr 1
      exact Database.ext hrows.symm
  · rename_i v h
    simp [h]

theorem insert?_eq_error {v : Violation C} :
    db.insert? t row = .error v ↔ db.violation? t row = some v := by
  unfold insert?
  split
  · rename_i h
    simp [h]
  · rename_i w h
    simp [h]

theorem grows_insert? (h : db.insert? t row = .ok db') : Grows db db' := by
  obtain ⟨-, hrows⟩ := insert?_eq_ok.mp h
  intro t'
  rw [hrows, rowsWith]
  by_cases ht : t' = t
  · subst ht
    rw [Function.update_self]
    exact List.prefix_append _ _
  · have hsame : Function.update db.rows t (db.rows t ++ [row]) t' = db.rows t' :=
      Function.update_of_ne ht ..
    exact hsame ▸ List.prefix_rfl

/-- A row that was refused is refused again, as long as nothing it refers to has come in. -/
theorem violation?_persists (hgrows : Grows db db')
    (hsettled : ∀ ref ∈ S.references t, ref.table ≠ t ∧ db'.rows ref.table = db.rows ref.table)
    (h : db'.violation? t row = none) : db.violation? t row = none := by
  obtain ⟨hadmits, hdistinct, hrefs⟩ := violation?_eq_none.mp h
  refine violation?_eq_none.mpr ⟨hadmits, fun cols hcols r hr => ?_, fun ref href => ?_⟩
  · exact hdistinct cols hcols r (hgrows.mem hr)
  · obtain ⟨hne, hsame⟩ := hsettled ref href
    have hthere := hrefs ref href
    rw [Schema.refersTo_iff, rowsWith, Function.update_of_ne hne, hsame] at hthere
    rw [Schema.refersTo_iff, rowsWith, Function.update_of_ne hne]
    exact hthere

end Laws

end Database

end Relational
