import MailFallback.Library.Transition

/-! # Where a right comes from

A right that each step gives, takes or keeps stands for a reason that the history names. -/

namespace Transition

variable {σ ε : Type*} {next : σ → ε → Option σ} {s t : σ} {steps : List (σ × ε)}

/-- The runs with the steps that they took and the states these were taken in, the latest first. -/
inductive Took (next : σ → ε → Option σ) (s : σ) : List (σ × ε) → σ → Prop where
  | start : Took next s [] s
  | step {steps t e u} : Took next s steps t → next t e = some u →
      Took next s ((t, e) :: steps) u

/-- One step, written down. -/
def record (next : σ → ε → Option σ) (r : List (σ × ε) × σ) (e : ε) :
    Option (List (σ × ε) × σ) :=
  (next r.2 e).map fun u => ((r.2, e) :: r.1, u)

theorem Took.foldlM_record {events : List ε} {r r' : List (σ × ε) × σ} (h : Took next s r.1 r.2)
    (hrun : events.foldlM (record next) r = some r') : Took next s r'.1 r'.2 := by
  induction events generalizing r with
  | nil =>
      obtain rfl := Option.some.inj hrun
      exact h
  | cons e events ih =>
      obtain ⟨r₁, hfirst, hrest⟩ := Option.bind_eq_some_iff.mp hrun
      obtain ⟨u, hu, rfl⟩ := Option.map_eq_some_iff.mp hfirst
      exact ih (h.step hu) hrest

/-- A right, and the steps that give and take it. -/
structure Right (σ ε : Type*) where
  holds : σ → Prop
  given : σ → ε → Prop
  taken : σ → ε → Prop

namespace Right

/-- Nothing else changes the right. -/
def Governs (next : σ → ε → Option σ) (r : Right σ ε) : Prop :=
  ∀ s e s', next s e = some s' → (r.holds s' ↔ r.given s e ∨ r.holds s ∧ ¬ r.taken s e)

/-- Given and not taken since, or there from the start and never taken. -/
def Stands (r : Right σ ε) (s : σ) (steps : List (σ × ε)) : Prop :=
  (r.holds s ∧ ∀ x ∈ steps, ¬ r.taken x.1 x.2) ∨
    ∃ later x earlier, steps = later ++ x :: earlier ∧ r.given x.1 x.2 ∧
      ∀ y ∈ later, ¬ r.taken y.1 y.2

variable {r : Right σ ε}

theorem stands_cons {x : σ × ε} :
    r.Stands s (x :: steps) ↔ r.given x.1 x.2 ∨ r.Stands s steps ∧ ¬ r.taken x.1 x.2 := by
  constructor
  · intro h
    cases h with
    | inl h =>
        obtain ⟨hstart, hkept⟩ := h
        exact .inr ⟨.inl ⟨hstart, fun y hy => hkept y (List.mem_cons_of_mem x hy)⟩,
          hkept x List.mem_cons_self⟩
    | inr h =>
        obtain ⟨later, y, earlier, hsplit, hgiven, hkept⟩ := h
        cases later with
        | nil =>
            obtain ⟨rfl, rfl⟩ := List.cons.inj hsplit
            exact .inl hgiven
        | cons z later =>
            obtain ⟨rfl, rfl⟩ := List.cons.inj hsplit
            exact .inr ⟨.inr ⟨later, y, earlier, rfl, hgiven,
              fun z hz => hkept z (List.mem_cons_of_mem x hz)⟩, hkept x List.mem_cons_self⟩
  · intro h
    cases h with
    | inl hgiven => exact .inr ⟨[], x, steps, rfl, hgiven, by simp⟩
    | inr h =>
        obtain ⟨hstands, hx⟩ := h
        cases hstands with
        | inl h => exact .inl ⟨h.1, List.forall_mem_cons.mpr ⟨hx, h.2⟩⟩
        | inr h =>
            obtain ⟨later, y, earlier, rfl, hgiven, hkept⟩ := h
            exact .inr ⟨x :: later, y, earlier, rfl, hgiven, List.forall_mem_cons.mpr ⟨hx, hkept⟩⟩

/-- After a run the right is there exactly when its history says so. -/
theorem Governs.holds_iff (hr : r.Governs next) (h : Took next s steps t) :
    r.holds t ↔ r.Stands s steps := by
  induction h with
  | start => simp [Stands]
  | step _ hnext ih => rw [hr _ _ _ hnext, ih, stands_cons]

end Right

end Transition
