import Mathlib.Data.List.Basic

/-! # Systems that take one step after another

A step is a partial function of the state and of an event. Which events a run may contain is
a condition on the state before each step. -/

namespace Transition

variable {σ ε : Type*} {next : σ → ε → Option σ} {ok ok' : σ → ε → Prop} {s t u : σ}

/-- The states of the runs from `s` all of whose steps meet the condition. -/
inductive Reaches (next : σ → ε → Option σ) (ok : σ → ε → Prop) (s : σ) : σ → Prop where
  | refl : Reaches next ok s s
  | step {t e u} : Reaches next ok s t → ok t e → next t e = some u → Reaches next ok s u

theorem Reaches.trans (h : Reaches next ok s t) (h' : Reaches next ok t u) :
    Reaches next ok s u := by
  induction h' with
  | refl => exact h
  | step _ hok hnext ih => exact ih.step hok hnext

theorem Reaches.mono (h : Reaches next ok s t) (hok : ∀ s e, ok s e → ok' s e) :
    Reaches next ok' s t := by
  induction h with
  | refl => exact .refl
  | step _ he hnext ih => exact ih.step (hok _ _ he) hnext

/-- What one step keeps, every run keeps. -/
theorem Reaches.invariant {I : σ → Prop} (h : Reaches next ok s t) (h₀ : I s)
    (hstep : ∀ s e s', I s → ok s e → next s e = some s' → I s') : I t := by
  induction h with
  | refl => exact h₀
  | step _ hok hnext ih => exact hstep _ _ _ ih hok hnext

/-- A step that is taken only where the check allows it. -/
def guarded (check : σ → ε → Bool) (next : σ → ε → Option σ) (s : σ) (e : ε) : Option σ :=
  if check s e = true then next s e else none

/-- The events of a script are chosen in the states they are met in. -/
def follow (check : σ → ε → Bool) (next : σ → ε → Option σ) (script : List (σ → ε)) (s : σ) :
    Option σ :=
  script.foldlM (fun s e => guarded check next s (e s)) s

/-- A script is a run when each of its events passes the check. -/
theorem Reaches.of_follow {check : σ → ε → Bool} {script : List (σ → ε)}
    (h : follow check next script s = some t) :
    Reaches next (fun s e => check s e = true) s t := by
  induction script generalizing s with
  | nil =>
      obtain rfl := Option.some.inj h
      exact .refl
  | cons e script ih =>
      obtain ⟨s', hs', hrest⟩ := Option.bind_eq_some_iff.mp h
      obtain ⟨hcheck, hnext⟩ := Option.ite_none_right_eq_some.mp hs'
      have hfirst : Reaches next (fun s e => check s e = true) s s' :=
        .step .refl hcheck hnext
      exact hfirst.trans (ih hrest)

/-- The same, for a run that is found by evaluating it. -/
theorem Reaches.of_script {check : σ → ε → Bool} {script : List (σ → ε)} {f : σ → Bool}
    (h : (follow check next script s).any f = true)
    (hok : ∀ s e, check s e = true → ok s e) : ∃ t, Reaches next ok s t ∧ f t = true := by
  obtain ⟨t, ht, hf⟩ := (Option.any_eq_true ..).mp h
  exact ⟨t, (Reaches.of_follow ht).mono hok, hf⟩

/-- A script of fixed events. -/
theorem Reaches.of_any {check : σ → ε → Bool} {events : List ε} {f : σ → Bool}
    (h : (events.foldlM (guarded check next) s).any f = true)
    (hok : ∀ s e, check s e = true → ok s e) : ∃ t, Reaches next ok s t ∧ f t = true := by
  have hscript : (follow check next (events.map fun e _ => e) s).any f = true := by
    unfold follow
    rw [List.foldlM_map]
    exact h
  exact Reaches.of_script hscript hok

/-! ## Steps that the event does not determine -/

variable {step : σ → ε → σ → Prop}

/-- The same for a step that is a relation. -/
inductive Follows (step : σ → ε → σ → Prop) (ok : σ → ε → Prop) (s : σ) : σ → Prop where
  | refl : Follows step ok s s
  | step {t e u} : Follows step ok s t → ok t e → step t e u → Follows step ok s u

theorem Follows.invariant {I : σ → Prop} (h : Follows step ok s t) (h₀ : I s)
    (hstep : ∀ s e s', I s → ok s e → step s e s' → I s') : I t := by
  induction h with
  | refl => exact h₀
  | step _ hok hnext ih => exact hstep _ _ _ ih hok hnext

end Transition
