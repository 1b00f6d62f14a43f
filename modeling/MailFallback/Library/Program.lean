import Mathlib.Data.List.Basic

/-! # Programs that can be stopped between two operations

A program is a tree of operations; the reply to an operation selects the rest, and
an exception is a reply like any other. What an operation does is given by `Machine`,
which is deterministic once the reply is known, so that every nondeterministic choice
of the environment is the choice of a reply. -/

namespace Effects

inductive Prog (Op : Type) (Ans : Op → Type) (ε : Type) (α : Type) : Type where
  | ret (a : α)
  | raise (e : ε)
  | perform (o : Op) (k : Except ε (Ans o) → Prog Op Ans ε α)

variable {Op : Type} {Ans : Op → Type} {ε α β σ : Type}

namespace Prog

def bind : Prog Op Ans ε α → (α → Prog Op Ans ε β) → Prog Op Ans ε β
  | .ret a, f => f a
  | .raise e, _ => .raise e
  | .perform o k, f => .perform o fun r => (k r).bind f

/-- `try p except e: h e`. -/
def handle : Prog Op Ans ε α → (ε → Prog Op Ans ε α) → Prog Op Ans ε α
  | .ret a, _ => .ret a
  | .raise e, h => h e
  | .perform o k, h => .perform o fun r => (k r).handle h

/-- One operation, its exceptions raised in the program. -/
def op (o : Op) : Prog Op Ans ε (Ans o) :=
  .perform o fun
    | .ok a => .ret a
    | .error e => .raise e

instance : Monad (Prog Op Ans ε) where
  pure := .ret
  bind := bind

def returned : Prog Op Ans ε α → Option α
  | .ret a => some a
  | _ => none

/-- The program has returned, or an exception has come out of it. -/
def finished : Prog Op Ans ε α → Bool
  | .perform .. => false
  | _ => true

theorem returned_eq_some {p : Prog Op Ans ε α} {a : α} (h : p.returned = some a) : p = .ret a := by
  cases p with
  | ret b => exact congrArg _ (Option.some.inj h)
  | raise e => cases h
  | perform o k => cases h

/-- `try: p finally: q`. -/
def ensure (p : Prog Op Ans ε α) (q : Prog Op Ans ε Unit) : Prog Op Ans ε α :=
  (p.handle fun e => q.bind fun _ => .raise e).bind fun a => q.bind fun _ => .ret a

end Prog

/-- The state after an operation that received a reply; `none` when the operation cannot
receive that reply in that state. -/
def Machine (Op : Type) (Ans : Op → Type) (ε σ : Type) : Type :=
  (o : Op) → σ → Except ε (Ans o) → Option σ

abbrev Event (Op : Type) (Ans : Op → Type) (ε : Type) : Type := Σ o : Op, Except ε (Ans o)

/-! ## Runs -/

/-- A partial run: the operations performed, with their replies, lead from the first
program and state to the second. -/
inductive Run (M : Machine Op Ans ε σ) :
    Prog Op Ans ε α → σ → List (Event Op Ans ε) → Prog Op Ans ε α → σ → Prop where
  | refl (p s) : Run M p s [] p s
  | step {o k s r s' tr p' s''} : M o s r = some s' → Run M (k r) s' tr p' s'' →
      Run M (.perform o k) s (⟨o, r⟩ :: tr) p' s''

theorem Run.bind {M : Machine Op Ans ε σ} {p p' : Prog Op Ans ε α} {s s' : σ}
    {tr : List (Event Op Ans ε)} (h : Run M p s tr p' s') (f : α → Prog Op Ans ε β) :
    Run M (p.bind f) s tr (p'.bind f) s' := by
  induction h with
  | refl p s => exact .refl _ s
  | step hr _ ih => exact .step hr ih

theorem Run.handle {M : Machine Op Ans ε σ} {p p' : Prog Op Ans ε α} {s s' : σ}
    {tr : List (Event Op Ans ε)} (h : Run M p s tr p' s') (f : ε → Prog Op Ans ε α) :
    Run M (p.handle f) s tr (p'.handle f) s' := by
  induction h with
  | refl p s => exact .refl _ s
  | step hr _ ih => exact .step hr ih

theorem Run.trans {M : Machine Op Ans ε σ} {p p' p'' : Prog Op Ans ε α} {s s' s'' : σ}
    {tr tr' : List (Event Op Ans ε)} (h : Run M p s tr p' s') (h' : Run M p' s' tr' p'' s'') :
    Run M p s (tr ++ tr') p'' s'' := by
  induction h with
  | refl p s => exact h'
  | step hr _ ih => exact .step hr (ih h')

/-- The program can return `a` and leave `s'`. -/
def Returns (M : Machine Op Ans ε σ) (p : Prog Op Ans ε α) (s : σ) (a : α) (s' : σ) : Prop :=
  ∃ tr, Run M p s tr (.ret a) s'

namespace Returns

variable {M : Machine Op Ans ε σ} {p : Prog Op Ans ε α} {s s' s'' : σ} {a : α} {b : β}

theorem ret : Returns M (.ret a) s a s := ⟨[], .refl _ s⟩

theorem op {o : Op} {r : Ans o} (h : M o s (.ok r) = some s') : Returns M (Prog.op o) s r s' :=
  ⟨_, .step h (.refl _ s')⟩

theorem bind {f : α → Prog Op Ans ε β} (h : Returns M p s a s') (h' : Returns M (f a) s' b s'') :
    Returns M (p.bind f) s b s'' := by
  obtain ⟨tr, hrun⟩ := h
  obtain ⟨tr', hrun'⟩ := h'
  exact ⟨tr ++ tr', (hrun.bind f).trans hrun'⟩

theorem handle (h : Returns M p s a s') (f : ε → Prog Op Ans ε α) :
    Returns M (p.handle f) s a s' := by
  obtain ⟨tr, hrun⟩ := h
  exact ⟨tr, hrun.handle f⟩

/-- What can still be reached behind a part that returns. -/
theorem run_bind {f : α → Prog Op Ans ε β} {q : Prog Op Ans ε β} (h : Returns M p s a s')
    (h' : ∃ tr, Run M (f a) s' tr q s'') : ∃ tr, Run M (p.bind f) s tr q s'' := by
  obtain ⟨tr, hrun⟩ := h
  obtain ⟨tr', hrun'⟩ := h'
  exact ⟨tr ++ tr', (hrun.bind f).trans hrun'⟩

end Returns

/-- The machine that also keeps the events. -/
def Machine.logged (M : Machine Op Ans ε σ) : Machine Op Ans ε (σ × List (Event Op Ans ε)) :=
  fun o s r => (M o s.1 r).map fun t => (t, s.2 ++ [⟨o, r⟩])

theorem Machine.logged_eq {M : Machine Op Ans ε σ} {o : Op} {r : Except ε (Ans o)}
    {s s' : σ × List (Event Op Ans ε)} (h : M.logged o s r = some s') :
    M o s.1 r = some s'.1 ∧ s'.2 = s.2 ++ [⟨o, r⟩] := by
  obtain ⟨t, ht, hs'⟩ := Option.map_eq_some_iff.mp h
  rw [← hs']
  exact ⟨ht, rfl⟩

theorem Run.logged {M : Machine Op Ans ε σ} {p p' : Prog Op Ans ε α} {s s' : σ}
    {tr : List (Event Op Ans ε)} (h : Run M p s tr p' s') (log : List (Event Op Ans ε)) :
    Run M.logged p (s, log) tr p' (s', log ++ tr) := by
  induction h generalizing log with
  | refl p s =>
      rw [List.append_nil]
      exact .refl p _
  | @step o k s r t tr p' s' hr _ ih =>
      have hstep : M.logged o (s, log) r = some (t, log ++ [⟨o, r⟩]) := by
        simp only [Machine.logged, hr, Option.map_some]
      have hrest := ih (log ++ [⟨o, r⟩])
      rw [List.append_assoc, List.singleton_append] at hrest
      exact .step hstep hrest

theorem Run.of_logged {M : Machine Op Ans ε σ} {p p' : Prog Op Ans ε α}
    {s s' : σ × List (Event Op Ans ε)} {tr : List (Event Op Ans ε)} (h : Run M.logged p s tr p' s') :
    Run M p s.1 tr p' s'.1 ∧ s'.2 = s.2 ++ tr := by
  induction h with
  | refl p s => exact ⟨.refl p s.1, (List.append_nil _).symm⟩
  | step hr _ ih =>
      obtain ⟨hstep, hlog⟩ := Machine.logged_eq hr
      refine ⟨.step hstep ih.1, ?_⟩
      rw [ih.2, hlog, List.append_assoc, List.singleton_append]

/-- Runs the program on the replies of an oracle for at most `n` operations. -/
def exec (M : Machine Op Ans ε σ) (oracle : (o : Op) → σ → Except ε (Ans o)) :
    ℕ → Prog Op Ans ε α → σ → Option (Prog Op Ans ε α × σ)
  | n + 1, .perform o k, s => (M o s (oracle o s)).bind fun s' => exec M oracle n (k (oracle o s)) s'
  | _, p, s => some (p, s)

theorem exec_run {M : Machine Op Ans ε σ} {oracle : (o : Op) → σ → Except ε (Ans o)} {n : ℕ}
    {p p' : Prog Op Ans ε α} {s s' : σ} (h : exec M oracle n p s = some (p', s')) :
    ∃ tr, Run M p s tr p' s' := by
  induction n generalizing p s with
  | zero =>
      simp only [exec, Option.some.injEq, Prod.mk.injEq] at h
      obtain ⟨rfl, rfl⟩ := h
      exact ⟨[], .refl p s⟩
  | succ n ih =>
      cases p with
      | ret a =>
          simp only [exec, Option.some.injEq, Prod.mk.injEq] at h
          obtain ⟨rfl, rfl⟩ := h
          exact ⟨[], .refl _ s⟩
      | raise e =>
          simp only [exec, Option.some.injEq, Prod.mk.injEq] at h
          obtain ⟨rfl, rfl⟩ := h
          exact ⟨[], .refl _ s⟩
      | perform o k =>
          obtain ⟨s₁, hs₁, hrest⟩ := Option.bind_eq_some_iff.mp h
          obtain ⟨tr, hrun⟩ := ih hrest
          exact ⟨_, .step hs₁ hrun⟩

theorem exec_any {M : Machine Op Ans ε σ} {oracle : (o : Op) → σ → Except ε (Ans o)} {n : ℕ}
    {p : Prog Op Ans ε α} {s : σ} {f : Prog Op Ans ε α × σ → Bool}
    (h : (exec M oracle n p s).any f = true) :
    ∃ tr p' s', Run M p s tr p' s' ∧ f (p', s') = true := by
  obtain ⟨⟨p', s'⟩, hexec, hf⟩ := (Option.any_eq_true ..).mp h
  obtain ⟨tr, hrun⟩ := exec_run hexec
  exact ⟨tr, p', s', hrun, hf⟩

/-! ## Contracts -/

/-- What a program promises while it runs: `crash` holds whenever it can be stopped,
`allow` holds of every operation it is about to perform. -/
structure Contract (Op σ : Type) where
  crash : σ → Prop
  allow : Op → σ → Prop

/-- Started in `s`, the program keeps the contract at every moment, ends normally only
with `Q` and by an exception only with `E`. -/
def Safe (M : Machine Op Ans ε σ) (C : Contract Op σ) (Q : α → σ → Prop) (E : ε → σ → Prop) :
    Prog Op Ans ε α → σ → Prop
  | .ret a, s => C.crash s ∧ Q a s
  | .raise e, s => C.crash s ∧ E e s
  | .perform o k, s => C.crash s ∧ C.allow o s ∧
      ∀ r s', M o s r = some s' → Safe M C Q E (k r) s'

variable {M : Machine Op Ans ε σ} {C D : Contract Op σ} {Q Q' : α → σ → Prop}
  {E E' : ε → σ → Prop} {p : Prog Op Ans ε α} {s : σ}

theorem Safe.crash (h : Safe M C Q E p s) : C.crash s := by
  cases p <;> exact h.1

theorem Safe.mono (h : Safe M C Q E p s) (hC : ∀ s, C.crash s → D.crash s)
    (hA : ∀ o s, C.allow o s → D.allow o s) (hQ : ∀ a s, C.crash s → Q a s → Q' a s)
    (hE : ∀ e s, C.crash s → E e s → E' e s) : Safe M D Q' E' p s := by
  induction p generalizing s with
  | ret a => exact ⟨hC s h.1, hQ a s h.1 h.2⟩
  | raise e => exact ⟨hC s h.1, hE e s h.1 h.2⟩
  | perform o k ih =>
      exact ⟨hC s h.1, hA o s h.2.1, fun r s' hr => ih r (h.2.2 r s' hr)⟩

theorem Safe.post (h : Safe M C Q E p s) (hQ : ∀ a s, C.crash s → Q a s → Q' a s)
    (hE : ∀ e s, C.crash s → E e s → E' e s) : Safe M C Q' E' p s :=
  h.mono (fun _ h => h) (fun _ _ h => h) hQ hE

theorem Safe.bind {f : α → Prog Op Ans ε β} {R : β → σ → Prop}
    (h : Safe M C (fun a s => Safe M C R E (f a) s) E p s) : Safe M C R E (p.bind f) s := by
  induction p generalizing s with
  | ret a => exact h.2
  | raise e => exact h
  | perform o k ih => exact ⟨h.1, h.2.1, fun r s' hr => ih r (h.2.2 r s' hr)⟩

theorem Safe.handle {f : ε → Prog Op Ans ε α}
    (h : Safe M C Q (fun e s => Safe M C Q E (f e) s) p s) : Safe M C Q E (p.handle f) s := by
  induction p generalizing s with
  | ret a => exact h
  | raise e => exact h.2
  | perform o k ih => exact ⟨h.1, h.2.1, fun r s' hr => ih r (h.2.2 r s' hr)⟩

theorem Safe.ensure {q : Prog Op Ans ε Unit}
    (h : Safe M C (fun a s => Safe M C (fun _ => Q a) E q s)
      (fun e s => Safe M C (fun _ => E e) E q s) p s) : Safe M C Q E (p.ensure q) s := by
  apply Safe.bind
  apply Safe.handle
  refine h.post ?_ ?_
  · intro a s _ hq
    exact Safe.bind (hq.post (fun _ s hc hQ => ⟨hc, hQ⟩) fun _ _ _ hE => hE)
  · intro e s _ hq
    exact Safe.bind (hq.post (fun _ s hc hE => ⟨hc, hE⟩) fun _ _ _ hE => hE)

theorem Safe.op {o : Op} {Q : Ans o → σ → Prop} (hc : C.crash s) (ha : C.allow o s)
    (hok : ∀ a s', M o s (.ok a) = some s' → C.crash s' ∧ Q a s')
    (herr : ∀ e s', M o s (.error e) = some s' → C.crash s' ∧ E e s') :
    Safe M C Q E (Prog.op o) s := by
  refine ⟨hc, ha, ?_⟩
  intro r s' hr
  cases r with
  | ok a => exact hok a s' hr
  | error e => exact herr e s' hr

theorem Safe.top : Safe M ⟨fun _ => True, fun _ _ => True⟩ (fun _ _ => True) (fun _ _ => True) p s := by
  induction p generalizing s with
  | ret a => exact ⟨trivial, trivial⟩
  | raise e => exact ⟨trivial, trivial⟩
  | perform o k ih => exact ⟨trivial, trivial, fun r s' _ => ih r⟩

theorem Safe.finished {R : σ → Prop} (h : Safe M C (fun _ => R) (fun _ => R) p s)
    (hp : p.finished = true) : R s := by
  cases p with
  | ret a => exact h.2
  | raise e => exact h.2
  | perform o k => cases hp

/-- The loop rule: the invariant speaks of the items done so far. -/
theorem Safe.foldlM {f : β → α → Prog Op Ans ε β} (I : List α → β → σ → Prop) (l : List α) {b : β}
    (hI : I [] b s) (hc : C.crash s)
    (hstep : ∀ done a rest b s, l = done ++ a :: rest → C.crash s → I done b s →
      Safe M C (fun b' s' => I (done ++ [a]) b' s') E (f b a) s) :
    Safe M C (fun b s => I l b s) E (l.foldlM f b) s := by
  suffices ∀ rest done b s, l = done ++ rest → C.crash s → I done b s →
      Safe M C (fun b s => I l b s) E (rest.foldlM f b) s from this l [] b s rfl hc hI
  intro rest
  induction rest with
  | nil =>
      intro done b s hl hc hI
      have hdone : l = done := by simpa using hl
      exact ⟨hc, hdone ▸ hI⟩
  | cons a rest ih =>
      intro done b s hl hc hI
      rw [List.foldlM_cons]
      apply Safe.bind
      refine (hstep done a rest b s hl hc hI).post ?_ fun _ _ _ h => h
      intro b' s' hc' hI'
      exact ih (done ++ [a]) b' s' (by simpa using hl) hc' hI'

/-- The same for a loop without a result. -/
theorem Safe.forM {f : α → Prog Op Ans ε Unit} (I : List α → σ → Prop) (l : List α)
    (hI : I [] s) (hc : C.crash s)
    (hstep : ∀ done a rest s, l = done ++ a :: rest → C.crash s → I done s →
      Safe M C (fun _ s' => I (done ++ [a]) s') E (f a) s) :
    Safe M C (fun _ s => I l s) E (l.forM f) s := by
  suffices ∀ rest done s, l = done ++ rest → C.crash s → I done s →
      Safe M C (fun _ s => I l s) E (rest.forM f) s from this l [] s rfl hc hI
  intro rest
  induction rest with
  | nil =>
      intro done s hl hc hI
      have hdone : l = done := by simpa using hl
      exact ⟨hc, hdone ▸ hI⟩
  | cons a rest ih =>
      intro done s hl hc hI
      change Safe M C (fun _ s => I l s) E ((f a).bind fun _ => rest.forM f) s
      apply Safe.bind
      refine (hstep done a rest s hl hc hI).post ?_ fun _ _ _ h => h
      intro _ s' hc' hI'
      exact ih (done ++ [a]) s' (by simpa using hl) hc' hI'

/-- A contract holds all along every run. -/
theorem Safe.run {tr : List (Event Op Ans ε)} {p' : Prog Op Ans ε α} {s' : σ}
    (h : Safe M C Q E p s) (hrun : Run M p s tr p' s') : Safe M C Q E p' s' := by
  induction hrun with
  | refl => exact h
  | step hr _ ih => exact ih (h.2.2 _ _ hr)

/-- Two contracts that a program keeps, it keeps together. -/
theorem Safe.and (h : Safe M C Q E p s) (h' : Safe M D Q' E' p s) :
    Safe M ⟨fun s => C.crash s ∧ D.crash s, fun o s => C.allow o s ∧ D.allow o s⟩
      (fun a s => Q a s ∧ Q' a s) (fun e s => E e s ∧ E' e s) p s := by
  induction p generalizing s with
  | ret a => exact ⟨⟨h.1, h'.1⟩, h.2, h'.2⟩
  | raise e => exact ⟨⟨h.1, h'.1⟩, h.2, h'.2⟩
  | perform o k ih =>
      exact ⟨⟨h.1, h'.1⟩, ⟨h.2.1, h'.2.1⟩,
        fun r s' hr => ih r (h.2.2 r s' hr) (h'.2.2 r s' hr)⟩

/-! ## Programs of some operations only -/

/-- Every operation that the program may perform is one of `P`. -/
def Prog.Only (P : Op → Prop) : Prog Op Ans ε α → Prop
  | .ret _ | .raise _ => True
  | .perform o k => P o ∧ ∀ r, (k r).Only P

namespace Prog

variable {P : Op → Prop}

theorem Only.op {o : Op} (ho : P o) : (Prog.op o : Prog Op Ans ε (Ans o)).Only P := by
  refine ⟨ho, fun r => ?_⟩
  cases r <;> trivial

theorem Only.bind {p : Prog Op Ans ε α} {f : α → Prog Op Ans ε β} (hp : p.Only P)
    (hf : ∀ a, (f a).Only P) : (p.bind f).Only P := by
  induction p with
  | ret a => exact hf a
  | raise e => trivial
  | perform o k ih => exact ⟨hp.1, fun r => ih r (hp.2 r)⟩

theorem Only.of_bind {p : Prog Op Ans ε α} {f : α → Prog Op Ans ε β} (h : (p.bind f).Only P) :
    p.Only P := by
  induction p with
  | ret a => trivial
  | raise e => trivial
  | perform o k ih => exact ⟨h.1, fun r => ih r (h.2 r)⟩

theorem Only.mono {P' : Op → Prop} {p : Prog Op Ans ε α} (hp : p.Only P) (h : ∀ o, P o → P' o) :
    p.Only P' := by
  induction p with
  | ret a => trivial
  | raise e => trivial
  | perform o k ih => exact ⟨h o hp.1, fun r => ih r (hp.2 r)⟩

theorem Only.handle {p : Prog Op Ans ε α} {f : ε → Prog Op Ans ε α} (hp : p.Only P)
    (hf : ∀ e, (f e).Only P) : (p.handle f).Only P := by
  induction p with
  | ret a => trivial
  | raise e => exact hf e
  | perform o k ih => exact ⟨hp.1, fun r => ih r (hp.2 r)⟩

theorem Only.ensure {p : Prog Op Ans ε α} {q : Prog Op Ans ε Unit} (hp : p.Only P)
    (hq : q.Only P) : (p.ensure q).Only P :=
  Only.bind (Only.handle hp fun _ => Only.bind hq fun _ => trivial) fun _ =>
    Only.bind hq fun _ => trivial

theorem Only.foldlM {f : β → α → Prog Op Ans ε β} (hf : ∀ b a, (f b a).Only P) (l : List α) (b : β) :
    (l.foldlM f b).Only P := by
  induction l generalizing b with
  | nil => trivial
  | cons a l ih =>
      rw [List.foldlM_cons]
      exact Only.bind (hf b a) ih

theorem Only.forM {f : α → Prog Op Ans ε Unit} (hf : ∀ a, (f a).Only P) (l : List α) :
    (l.forM f).Only P := by
  induction l with
  | nil => trivial
  | cons a l ih =>
      change ((f a).bind fun _ => l.forM f).Only P
      exact Only.bind (hf a) fun _ => ih

end Prog

/-- What each of the operations does to the state, the program does; the contract allows it. -/
theorem Prog.Only.keeps {P : Op → Prop} {R : σ → σ → Prop} (hp : p.Only P) (hrefl : ∀ s, R s s)
    (htrans : ∀ {s t u}, R s t → R t u → R s u)
    (hstep : ∀ o r s t, P o → M o s r = some t → R s t) (hc : ∀ t, R s t → C.crash t)
    (ha : ∀ o t, P o → R s t → C.allow o t) :
    Safe M C (fun _ => R s) (fun _ => R s) p s := by
  suffices ∀ t, R s t → Safe M C (fun _ => R s) (fun _ => R s) p t from this s (hrefl s)
  induction p with
  | ret a => exact fun t ht => ⟨hc t ht, ht⟩
  | raise e => exact fun t ht => ⟨hc t ht, ht⟩
  | perform o k ih =>
      intro t ht
      refine ⟨hc t ht, ha o t hp.1 ht, fun r t' hr => ?_⟩
      exact ih r (hp.2 r) t' (htrans ht (hstep o r t t' hp.1 hr))

/-- The contract that promises nothing while the program runs. -/
def Contract.free : Contract Op σ := ⟨fun _ => True, fun _ _ => True⟩

/-- What each of the operations keeps, the program keeps. -/
theorem Prog.Only.safe {P : Op → Prop} {I : σ → Prop} (hp : p.Only P)
    (hstep : ∀ o r s s', P o → I s → M o s r = some s' → I s') (hs : I s) :
    Safe M .free (fun _ => I) (fun _ => I) p s := by
  induction p generalizing s with
  | ret a => exact ⟨trivial, hs⟩
  | raise e => exact ⟨trivial, hs⟩
  | perform o k ih =>
      exact ⟨trivial, trivial, fun r s' hr => ih r (hp.2 r) (hstep o r s s' hp.1 hs hr)⟩

/-- A program of operations to which there is always a reply can run to its end. -/
theorem Prog.Only.exists_run {P : Op → Prop} (hp : p.Only P)
    (hstep : ∀ o s, P o → ∃ r t, M o s r = some t) :
    ∃ tr p' t, Run M p s tr p' t ∧ p'.finished = true := by
  induction p generalizing s with
  | ret a => exact ⟨[], .ret a, s, .refl _ s, rfl⟩
  | raise e => exact ⟨[], .raise e, s, .refl _ s, rfl⟩
  | perform o k ih =>
      obtain ⟨r, t, hr⟩ := hstep o s hp.1
      obtain ⟨tr, p', t', hrun, hend⟩ := @ih r t (hp.2 r)
      exact ⟨_, p', t', .step hr hrun, hend⟩

/-! ## Programs on some replies only -/

/-- On replies of `A`, every operation that the program may perform is one of `P`, and every
result one of `Q`. -/
def Prog.Keeps (A : (o : Op) → Except ε (Ans o) → Prop) (P : Op → Prop) (Q : α → Prop) :
    Prog Op Ans ε α → Prop
  | .ret a => Q a
  | .raise _ => True
  | .perform o k => P o ∧ ∀ r, A o r → (k r).Keeps A P Q

namespace Prog

variable {A : (o : Op) → Except ε (Ans o) → Prop} {P : Op → Prop} {Q Q' : α → Prop}

theorem Only.onReplies {p : Prog Op Ans ε α} (hp : p.Only P) : p.Keeps A P fun _ => True := by
  induction p with
  | ret a => trivial
  | raise e => trivial
  | perform o k ih => exact ⟨hp.1, fun r _ => ih r (hp.2 r)⟩

theorem Keeps.op {o : Op} {Q : Ans o → Prop} (ho : P o) (hQ : ∀ a, A o (.ok a) → Q a) :
    (Prog.op o : Prog Op Ans ε (Ans o)).Keeps A P Q := by
  refine ⟨ho, fun r hr => ?_⟩
  cases r with
  | ok a => exact hQ a hr
  | error e => trivial

theorem Keeps.bind {p : Prog Op Ans ε α} {f : α → Prog Op Ans ε β} {R : β → Prop}
    (hp : p.Keeps A P Q) (hf : ∀ a, Q a → (f a).Keeps A P R) : (p.bind f).Keeps A P R := by
  induction p with
  | ret a => exact hf a hp
  | raise e => trivial
  | perform o k ih => exact ⟨hp.1, fun r hr => ih r (hp.2 r hr)⟩

theorem Keeps.handle {p : Prog Op Ans ε α} {f : ε → Prog Op Ans ε α} (hp : p.Keeps A P Q)
    (hf : ∀ e, (f e).Keeps A P Q) : (p.handle f).Keeps A P Q := by
  induction p with
  | ret a => exact hp
  | raise e => exact hf e
  | perform o k ih => exact ⟨hp.1, fun r hr => ih r (hp.2 r hr)⟩

theorem Keeps.ensure {p : Prog Op Ans ε α} {q : Prog Op Ans ε Unit} (hp : p.Keeps A P Q)
    (hq : q.Keeps A P fun _ => True) : (p.ensure q).Keeps A P Q :=
  Keeps.bind (Keeps.handle hp fun _ => Keeps.bind hq fun _ _ => trivial) fun _ ha =>
    Keeps.bind hq fun _ _ => ha

theorem Keeps.foldlM {f : β → α → Prog Op Ans ε β} {l : List α}
    (hf : ∀ b, ∀ a ∈ l, (f b a).Keeps A P fun _ => True) (b : β) :
    (l.foldlM f b).Keeps A P fun _ => True := by
  induction l generalizing b with
  | nil => trivial
  | cons a l ih =>
      rw [List.foldlM_cons]
      exact Keeps.bind (hf b a (.head _)) fun b' _ => ih (fun b a ha => hf b a (.tail _ ha)) b'

end Prog

/-- What every operation keeps, every program keeps. -/
theorem Safe.stable {I : σ → Prop} (hstep : ∀ o r s s', I s → M o s r = some s' → I s') (hs : I s) :
    Safe M .free (fun _ => I) (fun _ => I) p s := by
  induction p generalizing s with
  | ret a => exact ⟨trivial, hs⟩
  | raise e => exact ⟨trivial, hs⟩
  | perform o k ih => exact ⟨trivial, trivial, fun r s' hr => ih r (hstep o r s s' hs hr)⟩

/-! ## Restarts -/

/-- A machine on which programs are started again and again, each on what the last one
left behind. `stop` is what survives: memory that is lost is reset there. -/
inductive Restarted (M : Machine Op Ans ε σ) (start : Prog Op Ans ε α → σ → Prop)
    (stop : σ → σ) (s₀ : σ) : Option (Prog Op Ans ε α) → σ → Prop where
  | init : Restarted M start stop s₀ none s₀
  | start {q t} : Restarted M start stop s₀ none t → start q t →
      Restarted M start stop s₀ (some q) t
  | step {o k t r t'} : Restarted M start stop s₀ (some (.perform o k)) t →
      M o t r = some t' → Restarted M start stop s₀ (some (k r)) t'
  /-- The program ends, or is killed where it stands. -/
  | stop {q t} : Restarted M start stop s₀ (some q) t → Restarted M start stop s₀ none (stop t)

/-- What holds of a state at rest, and again whenever a program is stopped, holds for
ever; and while a program runs the contract holds. -/
theorem Restarted.safe {start : Prog Op Ans ε α → σ → Prop} {stop : σ → σ} {s₀ : σ}
    (J : σ → Prop) (h₀ : J s₀) (hstart : ∀ q s, J s → start q s → Safe M C Q E q s)
    (hstop : ∀ s, C.crash s → J (stop s)) {cur : Option (Prog Op Ans ε α)} {s : σ}
    (h : Restarted M start stop s₀ cur s) :
    (cur = none → J s) ∧ ∀ p, cur = some p → Safe M C Q E p s := by
  induction h with
  | init => exact ⟨fun _ => h₀, nofun⟩
  | start _ hs ih =>
      refine ⟨nofun, ?_⟩
      rintro p ⟨⟩
      exact hstart _ _ (ih.1 rfl) hs
  | step _ hr ih =>
      refine ⟨nofun, ?_⟩
      rintro p ⟨⟩
      exact (ih.2 _ rfl).2.2 _ _ hr
  | stop _ ih => exact ⟨fun _ => hstop _ (ih.2 _ rfl).crash, nofun⟩

theorem Restarted.run {start : Prog Op Ans ε α → σ → Prop} {stop : σ → σ} {s₀ s s' : σ}
    {p p' : Prog Op Ans ε α} {tr : List (Event Op Ans ε)}
    (h : Restarted M start stop s₀ (some p) s) (hrun : Run M p s tr p' s') :
    Restarted M start stop s₀ (some p') s' := by
  induction hrun with
  | refl => exact h
  | step hr _ ih => exact ih (h.step hr)

end Effects
